import Madcap.Config
import Madcap.Sfmc.Extraction

/-!
# Transmission through raven

`raven_xmit` frees a packet, loses it, or gives it to `iptunnel_xmit`, and goes on
to count the bytes of a packet it no longer has.
-/

namespace Madcap

/-- What the kernel answers to one call of `raven_xmit`: which routes it has, whether
`skb_cow_head` finds memory, and the result of `iptunnel_xmit`. -/
structure RavenIo where
  routed : U32 → U32 → Bool
  cow : Bool
  xmit : ℤ

/-- The entry for an identifier or the default entry, as `raven_xmit` looks them up. -/
def RavenDev.locator (env : Env) (r : RavenDev) (id : U64) : Option RavenTable :=
  (r.ravenTableFind env id).or (r.ravenTableFind env 0)

namespace Ops

open Traced

/-- The UDP header that `raven_xmit` pushes when it is configured. -/
def ravenPushUdp (ou : ObjUdp) (skb : SkBuff) : Traced SkbOp SkBuff := do
  if ou.encapEnable ≠ 0 then
    perform (.push sizeofUdphdr)
    perform .edit
    return skb.push (udpHeader ou (skb.len + sizeofUdphdr))
  else
    return skb

/-- `raven_xmit` from the routing lookup on. -/
def ravenSend (io : RavenIo) (r : RavenDev) (rt : RavenTable) (skb : SkBuff) :
    Traced SkbOp ℤ := do
  if !io.routed rt.oe.dst r.oc.fields.src then
    perform .free
    return -ENOMEM
  else
    perform (.cow (if r.ou.encapEnable ≠ 0 then 14 + 20 + 16 else 14 + 20))
    if !io.cow then
      perform .free
      return -ENOMEM
    else
      let skb ← ravenPushUdp r.ou skb
      perform (.give (.iptunnelXmit rt.oe.dst skb))
      if io.xmit < 0 then
        return NETDEV_TX_OK
      else
        -- `tx_bytes += skb->len`
        perform .look
        return NETDEV_TX_OK

/-- `raven_xmit`, without the counters of the device. -/
def ravenXmit (env : Env) (dropMode : Bool) (io : RavenIo) (r : RavenDev) (skb : SkBuff) :
    Traced SkbOp ℤ := do
  if dropMode then
    perform .look
    perform .free
    return NETDEV_TX_OK
  else
    perform .edit
    let id ← extractIdFromPacket skb r.oc.fields
    match r.locator env id with
    | none => return NETDEV_TX_OK
    | some rt => ravenSend io r rt skb

end Ops

variable {env : Env} {dropMode : Bool} {io : RavenIo} {r : RavenDev} {rt : RavenTable}
  {skb : SkBuff}

theorem Ops.ravenPushUdp_keeps (ou : ObjUdp) (skb : SkBuff) : ∃ ops skb',
    Ops.ravenPushUdp ou skb = { trace := ops, result := .ok skb' } ∧
      ∀ op ∈ ops, ¬ op.Consumes ∧ op.Inside := by
  unfold Ops.ravenPushUdp
  split_ifs
  · refine ⟨[.push sizeofUdphdr, .edit], _, rfl, fun op hop => ?_⟩
    simp only [List.mem_cons, List.not_mem_nil, or_false] at hop
    rcases hop with rfl | rfl <;> exact ⟨not_false, trivial⟩
  · exact ⟨[], skb, rfl, fun op hop => by cases hop⟩

theorem ravenSend_inside : StaysInside (Ops.ravenSend io r rt skb).trace := by
  have hfree : StaysInside (Traced.perform SkbOp.free >>= fun _ => pure (-ENOMEM)).trace :=
    fun _ hop => List.mem_singleton.mp hop ▸ trivial
  unfold Ops.ravenSend
  cases io.routed rt.oe.dst r.oc.fields.src with
  | false => exact hfree
  | true =>
    refine Traced.forall_trace_perform.mpr ⟨trivial, ?_⟩
    cases io.cow with
    | false => exact hfree
    | true =>
      obtain ⟨ops, skb', hpush, hops⟩ := Ops.ravenPushUdp_keeps r.ou skb
      rw [if_neg (by decide), hpush]
      refine (Traced.forall_trace_bind rfl).mpr ⟨fun op hop => (hops op hop).2, ?_⟩
      refine Traced.forall_trace_perform.mpr ⟨trivial, ?_⟩
      split_ifs
      · exact List.forall_mem_nil _
      · exact fun _ hop => List.mem_singleton.mp hop ▸ trivial

theorem ravenXmit_inside_iff : StaysInside (Ops.ravenXmit env dropMode io r skb).trace ↔
    dropMode = true ∨ r.oc.fields.offset.toNat + 8 ≤ skb.data.length := by
  unfold Ops.ravenXmit
  cases dropMode with
  | true =>
    refine iff_of_true (Traced.forall_trace_perform.mpr ⟨trivial, ?_⟩) (.inl rfl)
    exact fun _ hop => List.mem_singleton.mp hop ▸ trivial
  | false =>
    rw [if_neg (by decide), StaysInside, Traced.forall_trace_perform, Ops.extractIdFromPacket_bind,
      Traced.forall_trace_perform]
    have hrest : ∀ op ∈ (match r.locator env (extractIdFromPacket skb r.oc.fields) with
        | none => pure NETDEV_TX_OK
        | some rt => Ops.ravenSend io r rt skb : Traced SkbOp ℤ).trace, op.Inside := by
      cases r.locator env (extractIdFromPacket skb r.oc.fields) with
      | none =>
        intro op hop
        cases hop
      | some rt => exact ravenSend_inside
    constructor
    · rintro ⟨-, hload, -⟩
      exact .inr hload
    · rintro (h | hload)
      · cases h
      · exact ⟨trivial, hload, hrest⟩

/-- In each of the three drivers the identifier is inside the packet if and only if the packet
passes by the encapsulation or has eight bytes from the configured offset on. -/
theorem extraction_inside_iff (env : Env) (skb : SkBuff) :
    (∀ s : Sfmc, StaysInside (Ops.sfmcEncapPacket env s skb).trace ↔
      ((env.madcapEnable && s.acquired skb) = true →
        s.oc.offset.toNat + 8 ≤ skb.data.length)) ∧
    (∀ s : Sfmc, StaysInside (Ops.e1000SfmcEncapPacket env s skb).trace ↔
      ((env.madcapEnable && s.acquired skb) = true →
        s.oc.offset.toNat + 8 ≤ skb.data.length)) ∧
    ∀ dropMode io (r : RavenDev), StaysInside (Ops.ravenXmit env dropMode io r skb).trace ↔
      dropMode = true ∨ r.oc.fields.offset.toNat + 8 ≤ skb.data.length :=
  ⟨fun _ => Ops.encapPacket_inside_iff, fun _ => Ops.encapPacket_inside_iff,
    fun _ _ _ => ravenXmit_inside_iff⟩

def shortPacket : SkBuff where
  data := List.replicate 60 0
  tail := fun _ => 0
  fragLen := 0
  headroom := 64
  dst := some 1

/-- A fresh device of each driver takes an offset of 1000, and loads from there. -/
theorem offset_not_checked :
    (∃ s, ((sfmcInit 0 (freshZone fun _ => true)).sfmcAcquireDev 1).2.sfmcLltCfg
        (offsetConfig 1000) = (0, s) ∧
      ¬ StaysInside (Ops.sfmcEncapPacket { madcapEnable := true, hash64 := fun _ => 0 } s
        shortPacket).trace) ∧
    ∃ r, ravenSetup.ravenLltCfg { fields := offsetConfig 1000, hole := 0, hole' := 0 } = (0, r) ∧
      ¬ StaysInside (Ops.ravenXmit { madcapEnable := true, hash64 := fun _ => 0 } false
        { routed := fun _ _ => true, cow := true, xmit := 0 } r shortPacket).trace := by
  refine ⟨⟨_, rfl, fun h => ?_⟩, ⟨_, rfl, fun h => ?_⟩⟩
  · have hload : 1008 ≤ 60 := h (.load shortPacket 1000 8) List.mem_cons_self
    omega
  · have hload : 1008 ≤ 60 :=
      h (.load shortPacket 1000 8) (List.mem_cons_of_mem _ List.mem_cons_self)
    omega

end Madcap
