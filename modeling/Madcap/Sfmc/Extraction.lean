import Madcap.Buffers
import Madcap.Sfmc.Encap

/-!
# Loading the identifier

`sfmc_encap_packet` reads one thing from the data of a packet: the eight bytes at
the configured offset. Neither the configuration nor the packet's length is looked
at before.
-/

namespace Madcap

namespace Ops

open Traced

def extractIdFromPacket (skb : SkBuff) (oc : ObjConfig) : Traced SkbOp U64 := do
  perform (.load skb oc.offset.toNat 8)
  return Madcap.extractIdFromPacket skb oc

/-- `sfmc_encap_packet` of either driver. What comes after the load is `encap`. -/
def encapPacket (env : Env) (s : Sfmc) (skb : SkBuff) (encap : Res (ℤ × SkBuff × Sfmc)) :
    Traced SkbOp (ℤ × SkBuff × Sfmc) :=
  if env.madcapEnable && s.acquired skb then do
    let _ ← extractIdFromPacket skb s.oc
    lift encap
  else
    return (0, skb, s)

/-- `sfmc_encap_packet` of the ixgbe driver. -/
def sfmcEncapPacket (env : Env) (s : Sfmc) (skb : SkBuff) : Traced SkbOp (ℤ × SkBuff × Sfmc) :=
  encapPacket env s skb (s.sfmcEncapPacket env skb)

/-- `sfmc_encap_packet` of the e1000 driver. -/
def e1000SfmcEncapPacket (env : Env) (s : Sfmc) (skb : SkBuff) :
    Traced SkbOp (ℤ × SkBuff × Sfmc) :=
  encapPacket env s skb (s.e1000SfmcEncapPacket env skb)

end Ops

variable {env : Env} {s : Sfmc} {skb : SkBuff} {oc : ObjConfig}

theorem Ops.extractIdFromPacket_bind {α : Type} (f : U64 → Traced SkbOp α) :
    (Ops.extractIdFromPacket skb oc >>= f) =
      (Traced.perform (.load skb oc.offset.toNat 8) >>= fun _ =>
        f (Madcap.extractIdFromPacket skb oc)) :=
  rfl

theorem Ops.encapPacket_inside_iff {encap : Res (ℤ × SkBuff × Sfmc)} :
    StaysInside (Ops.encapPacket env s skb encap).trace ↔
      ((env.madcapEnable && s.acquired skb) = true →
        s.oc.offset.toNat + 8 ≤ skb.data.length) := by
  unfold Ops.encapPacket
  cases hacquired : env.madcapEnable && s.acquired skb with
  | false =>
    refine iff_of_true (fun op hop => ?_) (fun h => by cases h)
    cases hop
  | true =>
    rw [if_pos rfl]
    constructor
    · intro h _
      exact h (.load skb s.oc.offset.toNat 8) List.mem_cons_self
    · intro h op hop
      cases List.mem_singleton.mp hop
      exact h rfl

/-- The load of the identifier changes nothing. -/
theorem Ops.sfmcEncapPacket_result :
    (Ops.sfmcEncapPacket env s skb).result = s.sfmcEncapPacket env skb := by
  unfold Ops.sfmcEncapPacket Ops.encapPacket Sfmc.sfmcEncapPacket
  split_ifs
  · rfl
  · rfl

theorem Ops.e1000SfmcEncapPacket_result :
    (Ops.e1000SfmcEncapPacket env s skb).result = s.e1000SfmcEncapPacket env skb := by
  unfold Ops.e1000SfmcEncapPacket Ops.encapPacket Sfmc.e1000SfmcEncapPacket
  split_ifs
  · rfl
  · rfl

end Madcap
