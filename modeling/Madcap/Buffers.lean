import Madcap.Kernel
import Madcap.Foundation.Traced

/-!
# Operations on socket buffers

The functions of the data path give a buffer up by freeing it or by handing it to
one of the kernel's queues. Here they are seen by what they do to the buffer: each
load from its memory, each access to its fields and each change of its data is an
operation. Whether the kernel grants what they ask for is an input.
-/

namespace Madcap

def NETDEV_TX_OK : ℤ := 0

def NET_RX_DROP : ℤ := 1

/-- The kernel functions that take a buffer over, with what they are given. -/
inductive SkbSink where
  | netifRx (dev : NetDev) (skb : SkBuff)
  | queueXmit (dev : NetDev) (skb : SkBuff)
  | udpTunnelXmit (daddr : U32) (skb : SkBuff)
  | iptunnelXmit (daddr : U32) (skb : SkBuff)

/-- An operation on a buffer. A `look` reads its fields and leaves it as it is, an `edit`
may change them, `cow` is `skb_cow_head`. -/
inductive SkbOp where
  | load (skb : SkBuff) (offset size : ℕ)
  | look
  | edit
  | pull (skb : SkBuff) (n : ℕ)
  | push (n : ℕ)
  | cow (n : ℕ)
  | free
  | give (sink : SkbSink)

namespace SkbOp

/-- The operation stays inside the linear data. -/
def Inside : SkbOp → Prop
  | load skb offset size => offset + size ≤ skb.data.length
  | pull skb n => n ≤ skb.data.length
  | _ => True

/-- The operation does not change the buffer. -/
def Reads : SkbOp → Prop
  | load _ _ _ => True
  | look => True
  | _ => False

/-- The operation gives the buffer up. -/
def Consumes : SkbOp → Prop
  | free => True
  | give _ => True
  | _ => False

theorem Reads.not_consumes {op : SkbOp} (h : op.Reads) : ¬ op.Consumes := by
  cases op with
  | free => exact h.elim
  | give _ => exact h.elim
  | _ => exact not_false

def sink? : SkbOp → Option SkbSink
  | give sink => some sink
  | _ => none

end SkbOp

def sinks (trace : List SkbOp) : List SkbSink := trace.filterMap SkbOp.sink?

theorem sinks_bind {α β : Type} {x : Traced SkbOp α} {f : α → Traced SkbOp β} {a : α}
    (h : x.result = .ok a) : sinks (x >>= f).trace = sinks x.trace ++ sinks (f a).trace := by
  rw [Traced.trace_bind_ok h, sinks, List.filterMap_append]
  rfl

theorem sinks_of_reads {trace : List SkbOp} (h : ∀ op ∈ trace, op.Reads) : sinks trace = [] := by
  refine List.filterMap_eq_nil_iff.mpr fun op hop => ?_
  cases op with
  | give sink => exact (h _ hop).elim
  | _ => rfl

/-- The buffer is freed or handed on exactly once, and left alone from then on. -/
abbrev Disposed (trace : List SkbOp) : Prop := ConsumedOnce SkbOp.Consumes trace

/-- Every load and every pull stays inside the buffer. -/
abbrev StaysInside (trace : List SkbOp) : Prop := ∀ op ∈ trace, op.Inside

/-- What `__pskb_pull_tail` leaves if it succeeds: `n` bytes of the buffer are linear, those
that were missing from the front of its fragments. -/
structure PulledTail (skb : SkBuff) (n : ℕ) where
  skb' : SkBuff
  linear : skb'.data.length = n
  keeps : skb.data <+: skb'.data
  len_eq : skb'.len = skb.len

/-- `pskb_may_pull`. When the bytes lie in fragments, `pulled` is what `__pskb_pull_tail`
comes to. -/
def pskbMayPull (skb : SkBuff) (n : ℕ) (pulled : Option (PulledTail skb n)) : Option SkBuff :=
  if n ≤ skb.data.length then some skb
  else if n > skb.len then none
  else pulled.map PulledTail.skb'

theorem pskbMayPull_linear {skb s : SkBuff} {n : ℕ} {pulled : Option (PulledTail skb n)}
    (h : pskbMayPull skb n pulled = some s) : n ≤ s.data.length := by
  unfold pskbMayPull at h
  split_ifs at h with hlinear hshort
  · exact Option.some.inj h ▸ hlinear
  · obtain ⟨t, -, rfl⟩ := Option.map_eq_some_iff.mp h
    exact t.linear.ge

/-- What `eth_type_trans` leaves of a frame whose header it steps over. -/
def ethTypeTrans (skb : SkBuff) : Res SkBuff :=
  if skb.len < ETH_HLEN then return skb else skb.pull ETH_HLEN

/-- The receive side of `struct pcpu_sw_netstats`. -/
structure RxStats where
  rxPackets : U64
  rxBytes : U64
  deriving DecidableEq, Repr

end Madcap
