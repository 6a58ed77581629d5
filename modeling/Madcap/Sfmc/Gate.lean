import Madcap.Foundation.Slots
import Madcap.Sfmc.Invariant
import Madcap.Sfmc.RouteCache

/-!
# The devices a packet may come from

The vdev table is an array with holes. As a set it holds the devices that have acquired
this one, and only packets from these are encapsulated.
-/

namespace Madcap

/-- What an acquisition should do to the set of devices, with its code. -/
def joinHolders (S : Finset NetDev) (vdev : NetDev) : ℤ × Finset NetDev :=
  if vdev ∈ S then (-EEXIST, S)
  else if S.card = sfmcVdevMax then (-ENOMEM, S)
  else (0, insert vdev S)

/-- What a release should do. -/
def leaveHolders (S : Finset NetDev) (vdev : NetDev) : ℤ × Finset NetDev :=
  if vdev ∈ S then (0, S.erase vdev) else (-ENOENT, S)

def stepHolders (S : Finset NetDev) : Event → Finset NetDev
  | .acquireDev vdev => (joinHolders S vdev).2
  | .releaseDev vdev => (leaveHolders S vdev).2
  | _ => S

def holders (es : List Event) : Finset NetDev := es.foldl stepHolders ∅

namespace Sfmc

/-- The vdev table lists the set, without duplicates. -/
structure HeldBy (s : Sfmc) (S : Finset NetDev) : Prop where
  unique : ∀ m n dev, s.vdev m = some dev → s.vdev n = some dev → m = n
  mem : ∀ dev, dev ∈ S ↔ ∃ n, s.vdev n = some dev

variable {s s' : Sfmc} {S : Finset NetDev} {vdev : NetDev} {n : Fin sfmcVdevMax}

namespace HeldBy

theorem slots (h : s.HeldBy S) : Slots.Ok s.vdev s.vdev where
  paired _ := rfl
  unique := h.unique

theorem coe_eq (h : s.HeldBy S) : (S : Set NetDev) = Slots.domain (Slots.lookup s.vdev s.vdev) := by
  ext dev
  exact (h.mem dev).trans h.slots.lookup_isSome.symm

theorem card_eq_iff (h : s.HeldBy S) : S.card = sfmcVdevMax ↔ Slots.free s.vdev = none := by
  rw [h.slots.free_eq_none_iff, ← h.coe_eq, Set.ncard_coe_finset]

theorem card_le (h : s.HeldBy S) : S.card ≤ sfmcVdevMax := by
  rw [← Set.ncard_coe_finset, h.coe_eq, h.slots.ncard_domain]
  calc {i | s.vdev i ≠ none}.ncard ≤ (Set.univ : Set (Fin sfmcVdevMax)).ncard :=
        Set.ncard_le_ncard (Set.subset_univ _)
    _ = sfmcVdevMax := by rw [Set.ncard_univ, Nat.card_eq_fintype_card, Fintype.card_fin]

theorem any_iff (h : s.HeldBy S) (dev : NetDev) :
    ((List.finRange sfmcVdevMax).any fun n => s.vdev n = some dev) = true ↔ dev ∈ S := by
  rw [h.mem, List.any_eq_true]
  constructor
  · rintro ⟨n, -, hn⟩
    exact ⟨n, of_decide_eq_true hn⟩
  · rintro ⟨n, hn⟩
    exact ⟨n, List.mem_finRange n, decide_eq_true hn⟩

theorem of_vdev_eq (h : s.HeldBy S) (heq : s'.vdev = s.vdev) : s'.HeldBy S := by
  refine ⟨?_, ?_⟩
  · rw [heq]
    exact h.unique
  · rw [heq]
    exact h.mem

theorem acquire (h : s.HeldBy S) (vdev : NetDev) :
    (s.sfmcAcquireDev vdev).1 = (joinHolders S vdev).1 ∧
      (s.sfmcAcquireDev vdev).2.HeldBy (joinHolders S vdev).2 := by
  unfold sfmcAcquireDev joinHolders
  by_cases hmem : vdev ∈ S
  · rw [if_pos hmem, if_pos ((h.any_iff vdev).mpr hmem)]
    exact ⟨rfl, h⟩
  · rw [if_neg hmem, if_neg fun hany => hmem ((h.any_iff vdev).mp hany)]
    have hnew : ∀ i, s.vdev i ≠ some vdev := fun i hi => hmem ((h.mem vdev).mpr ⟨i, hi⟩)
    cases hfree : Slots.free s.vdev with
    | none =>
      rw [if_pos (h.card_eq_iff.mpr hfree)]
      unfold Slots.free at hfree
      rw [hfree]
      exact ⟨rfl, h⟩
    | some n =>
      have hnotfull : S.card ≠ sfmcVdevMax := by
        rw [Ne, h.card_eq_iff, hfree]
        exact Option.some_ne_none n
      have hn := (Slots.free_eq_some hfree).1
      rw [if_neg hnotfull]
      unfold Slots.free at hfree
      rw [hfree]
      refine ⟨rfl, (h.slots.put hnew n vdev).unique, fun dev => ?_⟩
      dsimp only
      rw [Finset.mem_insert, h.mem]
      constructor
      · rintro (rfl | ⟨i, hi⟩)
        · exact ⟨n, Function.update_self ..⟩
        · have hin : i ≠ n := by
            rintro rfl
            rw [hn] at hi
            cases hi
          exact ⟨i, (Function.update_of_ne hin ..).trans hi⟩
      · rintro ⟨i, hi⟩
        by_cases hin : i = n
        · rw [hin, Function.update_self] at hi
          exact .inl (Option.some.inj hi).symm
        · rw [Function.update_of_ne hin] at hi
          exact .inr ⟨i, hi⟩

theorem release (h : s.HeldBy S) (vdev : NetDev) :
    (s.sfmcReleaseDev vdev).1 = (leaveHolders S vdev).1 ∧
      (s.sfmcReleaseDev vdev).2.HeldBy (leaveHolders S vdev).2 := by
  unfold sfmcReleaseDev leaveHolders
  cases hslot : Slots.slotOf s.vdev vdev with
  | none =>
    have hmem : vdev ∉ S := by
      rw [h.mem, not_exists]
      exact Slots.slotOf_eq_none.mp hslot
    rw [if_neg hmem]
    unfold Slots.slotOf at hslot
    rw [hslot]
    exact ⟨rfl, h⟩
  | some n =>
    have hn := Slots.key_of_slotOf hslot
    rw [if_pos ((h.mem vdev).mpr ⟨n, hn⟩)]
    unfold Slots.slotOf at hslot
    rw [hslot]
    refine ⟨rfl, fun i j dev hi hj => ?_, fun dev => ?_⟩
    · dsimp only at hi hj
      by_cases hin : i = n
      · rw [hin, Function.update_self] at hi
        cases hi
      · by_cases hjn : j = n
        · rw [hjn, Function.update_self] at hj
          cases hj
        · rw [Function.update_of_ne hin] at hi
          rw [Function.update_of_ne hjn] at hj
          exact h.unique i j dev hi hj
    · dsimp only
      rw [Finset.mem_erase, h.mem]
      constructor
      · rintro ⟨hne, i, hi⟩
        have hin : i ≠ n := by
          rintro rfl
          rw [hn] at hi
          exact hne (Option.some.inj hi).symm
        exact ⟨i, (Function.update_of_ne hin ..).trans hi⟩
      · rintro ⟨i, hi⟩
        by_cases hin : i = n
        · rw [hin, Function.update_self] at hi
          cases hi
        · rw [Function.update_of_ne hin] at hi
          refine ⟨?_, i, hi⟩
          rintro rfl
          exact hin (h.unique i n dev hi hn)

end HeldBy

section

variable {env : Env} {sf : Ref} {network : U32} {len : ℕ} {skb : SkBuff}

theorem sfmcFibInsert_vdev {res : Option Ref × Sfmc} (h : s.sfmcFibInsert sf = .ok res) :
    res.2.vdev = s.vdev := by
  unfold sfmcFibInsert at h
  obtain ⟨f, -, h⟩ := bind_eq_ok.mp h
  obtain ⟨⟨pfx, tree⟩, -, h⟩ := bind_eq_ok.mp h
  obtain ⟨⟨pn, tree'⟩, -, h⟩ := bind_eq_ok.mp h
  obtain ⟨node, -, h⟩ := bind_eq_ok.mp h
  cases hdata : node.data with
  | some data =>
    simp only [hdata] at h
    obtain rfl := Except.ok.inj h
    rfl
  | none =>
    simp only [hdata] at h
    obtain ⟨tree'', -, h⟩ := bind_eq_ok.mp h
    obtain ⟨fibs, -, h⟩ := bind_eq_ok.mp h
    obtain rfl := Except.ok.inj h
    rfl

theorem sfmcFibCreate_vdev (gateway : U32) (scope : U8) :
    (s.sfmcFibCreate network len gateway scope).2.vdev = s.vdev := by
  unfold sfmcFibCreate
  rw [kmalloc_eq]
  cases s.fibTree.grants s.fibTree.requests <;> rfl

theorem sfmcFibAdd_vdev {gateway : U32} {scope : U8} {res : Option Ref × Sfmc}
    (h : s.sfmcFibAdd network len gateway scope = .ok res) : res.2.vdev = s.vdev := by
  have hcreate : (s.sfmcFibCreate network len gateway scope).2.vdev = s.vdev :=
    sfmcFibCreate_vdev gateway scope
  unfold sfmcFibAdd at h
  cases hc : s.sfmcFibCreate network len gateway scope with
  | mk sf? s₁ =>
    rw [hc] at h hcreate
    cases sf? with
    | none =>
      obtain rfl := Except.ok.inj h
      exact hcreate
    | some sf =>
      obtain ⟨⟨tmp, s₂⟩, hins, h⟩ := bind_eq_ok.mp h
      have hvdev := (sfmcFibInsert_vdev hins).trans hcreate
      cases tmp with
      | none =>
        obtain rfl := Except.ok.inj h
        exact hvdev
      | some _ =>
        obtain rfl := Except.ok.inj h
        exact hvdev

theorem sfmcFibDel_vdev {res : ℤ × Sfmc} (h : s.sfmcFibDel network len = .ok res) :
    res.2.vdev = s.vdev := by
  unfold sfmcFibDel at h
  obtain ⟨sf?, -, h⟩ := bind_eq_ok.mp h
  cases sf? with
  | none =>
    obtain rfl := Except.ok.inj h
    rfl
  | some sf =>
    obtain ⟨s₁, hdel, h⟩ := bind_eq_ok.mp h
    obtain rfl := Except.ok.inj h
    unfold sfmcFibDelete at hdel
    obtain ⟨f, -, hdel⟩ := bind_eq_ok.mp hdel
    cases hpn : f.pn with
    | none =>
      simp only [hpn] at hdel
      cases hdel
    | some pn =>
      simp only [hpn] at hdel
      obtain ⟨tree, -, hdel⟩ := bind_eq_ok.mp hdel
      obtain rfl := Except.ok.inj hdel
      rfl

theorem sfmcNeighWrite_vdev {n : Neighbour} (h : s.sfmcNeighWrite sf n = .ok s') :
    s'.vdev = s.vdev := by
  obtain ⟨fibs, -, h⟩ := bind_eq_ok.mp h
  obtain rfl := Except.ok.inj h
  rfl

theorem neighUpdateLoop_vdev {ip : U32} {n : Neighbour} {list : List Ref}
    (h : neighUpdateLoop ip n list s = .ok s') : s'.vdev = s.vdev := by
  induction list generalizing s with
  | nil =>
    obtain rfl := Except.ok.inj h
    rfl
  | cons sf list ih =>
    unfold neighUpdateLoop at h
    obtain ⟨f, -, h⟩ := bind_eq_ok.mp h
    split_ifs at h
    · obtain ⟨s₁, hwrite, h⟩ := bind_eq_ok.mp h
      exact (ih h).trans (sfmcNeighWrite_vdev hwrite)
    · exact ih h

theorem encapWith_vdev {oe : ObjEntry} {res : ℤ × SkBuff × Sfmc}
    (h : s.encapWith skb oe sf = .ok res) : res.2.2.vdev = s.vdev := by
  unfold encapWith at h
  obtain ⟨f, -, h⟩ := bind_eq_ok.mp h
  split_ifs at h
  · have hcreate : (s.sfmcFibCreate oe.dst 32 oe.dst RT_SCOPE_LINK).2.vdev = s.vdev :=
      sfmcFibCreate_vdev oe.dst RT_SCOPE_LINK
    cases hc : s.sfmcFibCreate oe.dst 32 oe.dst RT_SCOPE_LINK with
    | mk llsf s₁ =>
      rw [hc] at h hcreate
      cases llsf with
      | none => cases h
      | some llsf =>
        obtain rfl := Except.ok.inj h
        exact hcreate
  · obtain rfl := Except.ok.inj h
    rfl
  · obtain rfl := Except.ok.inj h
    rfl

theorem sfmcEncapPacket_vdev {res : ℤ × SkBuff × Sfmc}
    (h : s.sfmcEncapPacket env skb = .ok res) : res.2.2.vdev = s.vdev := by
  unfold sfmcEncapPacket encapCached at h
  split_ifs at h
  · dsimp only at h
    split at h
    · obtain rfl := Except.ok.inj h
      rfl
    · split at h
      · exact encapWith_vdev h
      · obtain ⟨fib, -, h⟩ := bind_eq_ok.mp h
        cases fib with
        | none =>
          obtain rfl := Except.ok.inj h
          rfl
        | some sf => exact encapWith_vdev (s := s.sfmcTableCache env _ (some sf)) h
  · obtain rfl := Except.ok.inj h
    rfl

end

end Sfmc

namespace World

variable {env : Env} {w w' : World} {sf : Ref} {created : Option Neighbour}

theorem sfmcNeighResolve_vdev (h : w.sfmcNeighResolve sf created = .ok w') :
    w'.sfmc.vdev = w.sfmc.vdev := by
  unfold sfmcNeighResolve at h
  obtain ⟨f, -, h⟩ := bind_eq_ok.mp h
  split at h
  · obtain rfl := Except.ok.inj h
    rfl
  · dsimp only at h
    split_ifs at h
    · obtain ⟨s, hwrite, h⟩ := bind_eq_ok.mp h
      obtain rfl := Except.ok.inj h
      exact Sfmc.sfmcNeighWrite_vdev hwrite
    · obtain rfl := Except.ok.inj h
      rfl

theorem addRoute_vdev {fib : SwitchdevIpv4Fib} {res : ℤ × World}
    (h : w.addRoute fib created = .ok res) : res.2.sfmc.vdev = w.sfmc.vdev := by
  unfold addRoute at h
  split_ifs at h
  · obtain rfl := Except.ok.inj h
    rfl
  · obtain ⟨⟨sf, s⟩, hadd, h⟩ := bind_eq_ok.mp h
    have hvdev := Sfmc.sfmcFibAdd_vdev hadd
    cases sf with
    | none =>
      obtain rfl := Except.ok.inj h
      exact hvdev
    | some sf =>
      obtain ⟨w₁, hres, h⟩ := bind_eq_ok.mp h
      obtain rfl := Except.ok.inj h
      exact (sfmcNeighResolve_vdev hres).trans hvdev

theorem runWork_vdev (h : w.runWork sf created = .ok w') : w'.sfmc.vdev = w.sfmc.vdev := by
  unfold runWork at h
  split_ifs at h
  · unfold sfmcLlNeighWork at h
    obtain ⟨⟨tmp, s⟩, hins, h⟩ := bind_eq_ok.mp h
    have hvdev := Sfmc.sfmcFibInsert_vdev hins
    have hresolve := sfmcNeighResolve_vdev h
    dsimp only at hresolve
    split_ifs at hresolve
    · exact hresolve.trans hvdev
    · exact hresolve.trans hvdev
  · obtain rfl := Except.ok.inj h
    rfl

theorem step_heldBy {e : Event} {S : Finset NetDev} (hheld : w.sfmc.HeldBy S)
    (h : w.step env e = .ok w') : w'.sfmc.HeldBy (stepHolders S e) := by
  cases e with
  | acquireDev vdev =>
    obtain rfl := Except.ok.inj h
    exact (hheld.acquire vdev).2
  | releaseDev vdev =>
    obtain rfl := Except.ok.inj h
    exact (hheld.release vdev).2
  | lltCfg oc =>
    obtain rfl := Except.ok.inj h
    refine hheld.of_vdev_eq ?_
    dsimp only
    unfold Sfmc.sfmcLltCfg
    split_ifs <;> rfl
  | lltEntryAdd oe =>
    obtain rfl := Except.ok.inj h
    refine hheld.of_vdev_eq ?_
    dsimp only
    unfold Sfmc.sfmcLltEntryAdd
    rw [Sfmc.kmalloc_eq]
    split
    · rfl
    · cases w.sfmc.fibTree.grants w.sfmc.fibTree.requests <;> rfl
  | lltEntryDel oe =>
    obtain rfl := Except.ok.inj h
    refine hheld.of_vdev_eq ?_
    dsimp only
    unfold Sfmc.sfmcLltEntryDel
    split <;> rfl
  | udpCfg ou =>
    obtain rfl := Except.ok.inj h
    exact hheld.of_vdev_eq rfl
  | portObjAdd phase obj created =>
    obtain ⟨⟨err, w₁⟩, hadd, h⟩ := bind_eq_ok.mp h
    obtain rfl := Except.ok.inj h
    refine hheld.of_vdev_eq ?_
    unfold sfmcPortObjAdd at hadd
    cases phase with
    | commit =>
      cases obj with
      | ipv4Fib fib => exact addRoute_vdev hadd
      | other =>
        obtain ⟨-, rfl⟩ := ok_pair_inj hadd
        rfl
    | _ =>
      obtain ⟨-, rfl⟩ := ok_pair_inj hadd
      rfl
  | portObjDel obj =>
    obtain ⟨⟨err, w₁⟩, hdel, h⟩ := bind_eq_ok.mp h
    obtain rfl := Except.ok.inj h
    refine hheld.of_vdev_eq ?_
    cases obj with
    | ipv4Fib fib =>
      obtain ⟨⟨err', s⟩, hdel', hdel⟩ := bind_eq_ok.mp hdel
      obtain ⟨-, rfl⟩ := ok_pair_inj hdel
      exact Sfmc.sfmcFibDel_vdev hdel'
    | other =>
      obtain ⟨-, rfl⟩ := ok_pair_inj hdel
      rfl
  | llNeighWork sf created => exact hheld.of_vdev_eq (runWork_vdev h)
  | encapPacket skb =>
    obtain ⟨⟨err, skb', s⟩, hencap, h⟩ := bind_eq_ok.mp h
    obtain rfl := Except.ok.inj h
    exact hheld.of_vdev_eq (Sfmc.sfmcEncapPacket_vdev hencap)
  | neighChange ip n =>
    obtain ⟨s, hupd, h⟩ := bind_eq_ok.mp h
    obtain rfl := Except.ok.inj h
    exact hheld.of_vdev_eq (Sfmc.neighUpdateLoop_vdev hupd)
  | neighDrop ip =>
    obtain rfl := Except.ok.inj h
    exact hheld

theorem run_heldBy {es : List Event} {S : Finset NetDev} (hheld : w.sfmc.HeldBy S)
    (h : w.run env es = .ok w') : w'.sfmc.HeldBy (es.foldl stepHolders S) := by
  induction es generalizing w S with
  | nil =>
    obtain rfl := Except.ok.inj h
    exact hheld
  | cons e es ih =>
    obtain ⟨w₁, hstep, hrest⟩ := bind_eq_ok.mp h
    exact ih (step_heldBy hheld hstep) hrest

theorem init_heldBy (permAddr : Mac) (grants : ℕ → Bool) (arp : ArpTable) :
    (init permAddr grants arp).sfmc.HeldBy ∅ where
  unique m n dev hm := by cases hm
  mem dev := by
    constructor
    · intro h
      exact absurd h (Finset.notMem_empty dev)
    · rintro ⟨n, hn⟩
      cases hn

end World

namespace Sfmc

/-- The packet comes from a device of the set, and encapsulation is on. -/
def Admits (env : Env) (S : Finset NetDev) (skb : SkBuff) : Prop :=
  env.madcapEnable = true ∧ ∃ dev ∈ S, skb.dst = some dev

variable {s : Sfmc} {S : Finset NetDev} {env : Env} {skb : SkBuff}

theorem HeldBy.acquired_iff (h : s.HeldBy S) :
    s.acquired skb = true ↔ ∃ dev ∈ S, skb.dst = some dev := by
  unfold acquired
  cases hdst : skb.dst with
  | none => simp
  | some dev => simp only [h.any_iff, Option.some.injEq, exists_eq_right']

theorem HeldBy.passes (h : s.HeldBy S) (hno : ¬ Admits env S skb) :
    s.sfmcEncapPacket env skb = .ok (0, skb, s) := by
  unfold sfmcEncapPacket
  rw [if_neg]
  · rfl
  · intro hgate
    rw [Bool.and_eq_true, h.acquired_iff] at hgate
    exact hno hgate

end Sfmc

/-- After any run of a device the vdev table is the set that its acquisitions and releases
make, each next call answers and acts as on that set, and a packet is changed only when it
comes from a device of the set while encapsulation is on. -/
theorem encapsulation_gated (env : Env) (permAddr : Mac) (grants : ℕ → Bool) (arp : ArpTable)
    (es : List Event) (w : World) (hrun : (World.init permAddr grants arp).run env es = .ok w) :
    w.sfmc.HeldBy (holders es) ∧ (holders es).card ≤ 16 ∧
    (∀ vdev, (w.sfmc.sfmcAcquireDev vdev).1 = (joinHolders (holders es) vdev).1 ∧
      (w.sfmc.sfmcAcquireDev vdev).2.HeldBy (joinHolders (holders es) vdev).2) ∧
    (∀ vdev, (w.sfmc.sfmcReleaseDev vdev).1 = (leaveHolders (holders es) vdev).1 ∧
      (w.sfmc.sfmcReleaseDev vdev).2.HeldBy (leaveHolders (holders es) vdev).2) ∧
    ∀ skb, (∀ code skb' s', w.sfmc.sfmcEncapPacket env skb = .ok (code, skb', s') → skb' ≠ skb →
        Sfmc.Admits env (holders es) skb) ∧
      (¬ Sfmc.Admits env (holders es) skb → w.sfmc.sfmcEncapPacket env skb = .ok (0, skb, w.sfmc)) := by
  have hheld : w.sfmc.HeldBy (holders es) :=
    World.run_heldBy (World.init_heldBy permAddr grants arp) hrun
  refine ⟨hheld, hheld.card_le, hheld.acquire, hheld.release, fun skb => ⟨?_, hheld.passes⟩⟩
  intro code skb' s' hencap hchanged
  by_contra hno
  rw [hheld.passes hno] at hencap
  exact hchanged (ok_triple_inj hencap).2.1.symm

/-- After two acquisitions and a release a packet of the device that has left passes. -/
theorem encapsulation_gated_left : ∃ w,
    (World.init 0 (fun _ => true) fun _ => none).run oneBucket
      [.acquireDev 7, .acquireDev 9, .releaseDev 7] = .ok w ∧ w.sfmc.HeldBy {9} ∧
    w.sfmc.sfmcEncapPacket oneBucket { blankPacket with dst := some 7 } =
      .ok (0, { blankPacket with dst := some 7 }, w.sfmc) := by
  have hgated := encapsulation_gated oneBucket 0 (fun _ => true) (fun _ => none)
    [.acquireDev 7, .acquireDev 9, .releaseDev 7] _ rfl
  have hset : holders [.acquireDev 7, .acquireDev 9, .releaseDev 7] = {9} := by decide
  rw [hset] at hgated
  refine ⟨_, rfl, hgated.1, (hgated.2.2.2.2 _).2 ?_⟩
  rintro ⟨-, dev, hdev, hdst⟩
  rw [Finset.mem_singleton] at hdev
  subst hdev
  exact absurd (Option.some.inj hdst) (by decide)

end Madcap
