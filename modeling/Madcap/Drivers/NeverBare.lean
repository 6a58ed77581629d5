import Madcap.Drivers.Retry

/-!
# Packets that must not leave bare

A packet of an acquired device is encapsulated or freed. The ixgbe driver looks at
the result of `sfmc_encap_packet` and the e1000 driver does not, so what e1000 does
with a packet it could not encapsulate is up to the ring.
-/

namespace Madcap

namespace Driver

/-- The driver's `sfmc_encap_packet`. -/
def encapPacket (env : Env) : (d : Driver) → Sfmc → SkBuff → Res (ℤ × SkBuff × Sfmc)
  | e1000, s, skb => s.e1000SfmcEncapPacket env skb
  | ixgbe, s, skb => s.sfmcEncapPacket env skb

/-- The driver's choice of an entry and a route. -/
def Uses (env : Env) : (d : Driver) → Sfmc → SkBuff → SfmcTable → Ref → Prop
  | e1000, s, skb => s.E1000Uses env skb
  | ixgbe, s, skb => s.Uses env skb

/-- A frame goes on the ring behind the outer headers of a route, with zeros at its end, and a
packet that the encapsulation failed for is freed. -/
structure NeverBare (env : Env) (d : Driver) (a : d.Adapter) (p : TxPacket) (v : TxVerdict) :
    Prop where
  placed : ∀ q, v = .placed q → ∃ out n, (d.sfmc a).Encaps (d.Uses env (d.sfmc a) p.skb) p.skb out ∧
    q.bytes = (p.withSkb out).bytes ++ List.replicate n 0
  freed : ∀ err out s, d.encapPacket env (d.sfmc a) p.skb = .ok (err, out, s) → err < 0 → v = .freed

end Driver

/-- Padding or pulling fails for a packet, or the ring has room and the mapping fails. -/
def E1000Adapter.Drops (a : E1000Adapter) (io : E1000Io) (len : ℕ) (p : TxPacket) : Prop :=
  ∀ q r n, p.skbPutPadto ETH_ZLEN io.padGrant = some q → a.tsoPull io q len = some (r, n) →
    ¬ a.Refuses io r n ∧ io.mapped = false

variable {env : Env} {a a' : E1000Adapter} {io : E1000Io} {p : TxPacket} {v : TxVerdict}

theorem e1000XmitFrame_freed_iff {err : ℤ} {out : SkBuff} {s : Sfmc}
    (h : e1000XmitFrame env a io p = .ok (a', v))
    (henc : a.sfmc.e1000SfmcEncapPacket env p.skb = .ok (err, out, s)) :
    v = .freed ↔ a.Drops io p.data.length (p.withSkb out) := by
  obtain ⟨err', out', s', henc', hends⟩ := e1000XmitFrame_cases h
  obtain ⟨-, rfl, -⟩ := ok_triple_inj (henc.symm.trans henc')
  cases hends with
  | dropped unready freed =>
    exact iff_of_true freed fun q r n hq hr => absurd hr (unready q r n hq)
  | refused q r n pad pull refuses busy =>
    rw [E1000Adapter.Drops, E1000Adapter.forall_ready_iff pad pull, busy]
    exact iff_of_false (fun h => nomatch h) fun h => h.1 refuses
  | handed q r n pad pull accepts verdict =>
    rw [E1000Adapter.Drops, E1000Adapter.forall_ready_iff pad pull, verdict]
    cases io.mapped with
    | true => exact iff_of_false (fun h => nomatch h) fun h => nomatch h.2
    | false => exact iff_of_true rfl ⟨accepts, rfl⟩

/-- The packet has an entry and a usable route, or e1000 drops it anyway. -/
def Driver.UsableOrDropped (env : Env) : (d : Driver) → d.Adapter → d.Io → TxPacket → Prop
  | .e1000, a, io, p =>
    (∃ out, a.sfmc.Encaps (a.sfmc.E1000Uses env p.skb) p.skb out) ∨ a.Drops io p.data.length p
  | .ixgbe, _, _, _ => True

/-- A packet of an acquired device never leaves bare if and only if, on e1000, there is a
usable route for it or it is dropped for another reason. -/
theorem never_bare_iff (d : Driver) {a a' : d.Adapter} {io : d.Io}
    (hacq : (d.sfmc a).Acquires env p.skb) (h : d.xmitFrame env a io p = .ok (a', v)) :
    d.NeverBare env a p v ↔ d.UsableOrDropped env a io p := by
  cases d with
  | e1000 =>
    obtain ⟨err, out, s, henc, hv⟩ := e1000XmitFrame_follows h
    rcases Sfmc.e1000SfmcEncapPacket_cases henc with
      ⟨-, ⟨rfl, hout⟩ | ⟨hneg, rfl, hnone⟩⟩ | ⟨hno, -⟩
    · refine iff_of_true ⟨?_, ?_⟩ (.inl ⟨out, hout⟩)
      · rintro q rfl
        exact ⟨out, _, hout, hv.2⟩
      · intro err' out' s' henc' hneg
        obtain ⟨rfl, -⟩ := ok_triple_inj (henc.symm.trans henc')
        exact absurd hneg (lt_irrefl 0)
    · have hfreed := e1000XmitFrame_freed_iff h henc
      rw [TxPacket.withSkb_skb] at hfreed
      constructor
      · intro hbare
        exact .inr (hfreed.mp (hbare.freed err _ s henc hneg))
      · intro hdrops
        have hv' := hfreed.mpr (hdrops.resolve_left fun ⟨o, ho⟩ => hnone o ho)
        refine ⟨fun q hq => ?_, fun _ _ _ _ _ => hv'⟩
        cases hv'.symm.trans hq
    · exact absurd hacq hno
  | ixgbe =>
    refine iff_of_true ?_ trivial
    obtain ⟨err, out, s, henc, hv⟩ := ixgbeXmitFrame_follows h
    rcases Sfmc.sfmcEncapPacket_cases henc with
      ⟨-, ⟨rfl, hout⟩ | ⟨hneg, hnone⟩⟩ | ⟨hno, -⟩
    · replace hv := (hv.resolve_left fun h => lt_irrefl 0 h.1).2
      refine ⟨?_, ?_⟩
      · rintro q rfl
        exact ⟨out, _, hout, hv.2⟩
      · intro err' out' s' henc' hneg
        obtain ⟨rfl, -⟩ := ok_triple_inj (henc.symm.trans henc')
        exact absurd hneg (lt_irrefl 0)
    · obtain ⟨-, rfl⟩ := hv.resolve_right fun h => h.1 hneg
      exact ⟨fun _ hq => (nomatch hq), fun _ _ _ _ _ => rfl⟩
    · exact absurd hacq hno

def e1000At (w : World) : E1000Adapter where
  sfmc := w.sfmc
  macType := .other
  busTypePcix := false
  pcix82544 := false
  halfDuplex := false
  txRing := { count := 256, nextToUse := 0, nextToClean := 0, lastTxTso := false }
  txFifoSize := 0
  txFifoHead := 0
  txFifoStall := false

def e1000Attempt : E1000Io where
  padGrant := none
  pullGrant := none
  hdrLen := 0
  tailBit := false
  nextToClean := 0
  mapped := true
  txRing := { count := 256, nextToUse := 3, nextToClean := 0, lastTxTso := false }

/-- On a device with an entry and a resolved route the packet is encapsulated. -/
theorem never_bare_iff_ready : ∃ a' v,
    Driver.e1000.xmitFrame oneBucket (e1000At readyDevice) e1000Attempt retriedPacket =
      .ok (a', v) ∧ Driver.e1000.NeverBare oneBucket (e1000At readyDevice) retriedPacket v := by
  have hacq : readyDevice.sfmc.Acquires oneBucket retriedPacket.skb := ⟨rfl, rfl⟩
  have henc : ∃ out s, readyDevice.sfmc.e1000SfmcEncapPacket oneBucket retriedPacket.skb =
      .ok (0, out, s) := ⟨_, _, rfl⟩
  obtain ⟨out, s, henc⟩ := henc
  have husable := Sfmc.e1000SfmcEncapPacket_emits hacq henc
  exact ⟨_, _, rfl, (never_bare_iff .e1000 hacq rfl).mpr (.inl ⟨out, husable⟩)⟩

/-- Without an entry for it, a packet of an acquired device goes out as it is. -/
theorem e1000_sends_bare : ∃ w a' v, bareDevice.run oneBucket [.acquireDev 0] = .ok w ∧
    w.sfmc.Acquires oneBucket retriedPacket.skb ∧
    Driver.e1000.xmitFrame oneBucket (e1000At w) e1000Attempt retriedPacket = .ok (a', v) ∧
    ¬ Driver.e1000.NeverBare oneBucket (e1000At w) retriedPacket v := by
  refine ⟨_, _, _, rfl, ⟨rfl, rfl⟩, rfl, fun h => ?_⟩
  cases h.freed (-ENOENT) _ _ rfl (by decide)

end Madcap
