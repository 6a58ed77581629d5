import Madcap.Sfmc.Invariant

/-!
# What the encapsulation does to a packet

A packet that is encapsulated gets its outer headers from one entry of the locator
table and one route. Whatever else happens in `sfmc_encap_packet`, the packet stays
as it was.
-/

namespace Madcap

namespace Sfmc

theorem pushHeaders_data (s : Sfmc) (skb : SkBuff) (dst : U32) (mac : Mac) :
    ∃ hdr, hdr ≠ [] ∧ (s.pushHeaders skb dst mac).data = hdr ++ skb.data := by
  unfold pushHeaders
  split_ifs
  · refine ⟨_, ?_, by simp only [SkBuff.push_data, ← List.append_assoc]; rfl⟩
    simp [ethHeader, bytesOf]
  · refine ⟨_, ?_, by simp only [SkBuff.push_data, ← List.append_assoc]; rfl⟩
    simp [ethHeader, bytesOf]

theorem pushHeaders_dest (s : Sfmc) (skb : SkBuff) (dst : U32) (mac : Mac) :
    (s.pushHeaders skb dst mac).data.take 6 = bytesOf 6 mac := by
  simp only [pushHeaders, SkBuff.push_data, ethHeader, List.append_assoc]
  rw [List.take_append_of_le_length (by simp)]
  exact List.take_of_length_le (by simp)

/-- The route `f` carries packets to the locator of `oe`. -/
def Carries (f : SfmcFib) (oe : ObjEntry) : Prop :=
  ¬ (f.scope = RT_SCOPE_LINK ∧ f.gateway ≠ oe.dst) ∧ nudValid f.nudState = true

/-- The packet is encapsulated as `out` with an entry and a route that `U` allows. -/
def Encaps (s : Sfmc) (U : SfmcTable → Ref → Prop) (skb out : SkBuff) : Prop :=
  ∃ st sf f, U st sf ∧ s.fibs.cells sf = some f ∧ Carries f st.oe ∧
    out = s.pushHeaders skb st.oe.dst f.mac

/-- The e1000 driver reaches its use of the route `sf` for the entry `st`. -/
structure E1000Uses (env : Env) (s : Sfmc) (skb : SkBuff) (st : SfmcTable) (sf : Ref) : Prop where
  enabled : env.madcapEnable = true
  acquired : s.acquired skb = true
  entry : s.sfmcTableFind env (extractIdFromPacket skb s.oc) = some st
  route : s.sfmcFibFindBest st.oe.dst 32 = .ok (some sf)

variable {env : Env} {s s' : Sfmc} {skb out : SkBuff} {oe : ObjEntry} {sf : Ref} {err : ℤ}

theorem E1000Uses.unique {st st' : SfmcTable} {sf' : Ref} (h : s.E1000Uses env skb st sf)
    (h' : s.E1000Uses env skb st' sf') : st = st' ∧ sf = sf' := by
  obtain rfl := Option.some.inj (h.entry.symm.trans h'.entry)
  exact ⟨rfl, Option.some.inj (Except.ok.inj (h.route.symm.trans h'.route))⟩

theorem Uses.unique {st st' : SfmcTable} {sf' : Ref} (h : s.Uses env skb st sf)
    (h' : s.Uses env skb st' sf') : st = st' ∧ sf = sf' := by
  obtain rfl := Option.some.inj (h.entry.symm.trans h'.entry)
  refine ⟨rfl, ?_⟩
  rcases h.route with hfib | ⟨hfib, hbest⟩ <;> rcases h'.route with hfib' | ⟨hfib', hbest'⟩
  · exact Option.some.inj (hfib.symm.trans hfib')
  · exact absurd (hfib.symm.trans hfib') (by simp)
  · exact absurd (hfib.symm.trans hfib') (by simp)
  · exact Option.some.inj (Except.ok.inj (hbest.symm.trans hbest'))

section

variable {U : SfmcTable → Ref → Prop} {st : SfmcTable} {table : Fin sfmcHashSize → List SfmcTable}

theorem Encaps.unique (hU : ∀ st sf st' sf', U st sf → U st' sf' → st = st' ∧ sf = sf')
    {out' : SkBuff} (h : s.Encaps U skb out) (h' : s.Encaps U skb out') : out = out' := by
  obtain ⟨st, sf, f, huse, hf, -, rfl⟩ := h
  obtain ⟨st', sf', f', huse', hf', -, rfl⟩ := h'
  obtain ⟨rfl, rfl⟩ := hU _ _ _ _ huse huse'
  obtain rfl := Option.some.inj (hf.symm.trans hf')
  rfl

theorem encapWith_cases (hU : ∀ st sf st' sf', U st sf → U st' sf' → st = st' ∧ sf = sf')
    (huse : U st sf)
    (h : { s with sfmcTable := table }.encapWith skb st.oe sf = .ok (err, out, s')) :
    err = 0 ∧ s.Encaps U skb out ∨ err < 0 ∧ out = skb ∧ ∀ o, ¬ s.Encaps U skb o := by
  unfold encapWith at h
  obtain ⟨f, hread, hrest⟩ := bind_eq_ok.mp h
  have hf : s.fibs.cells sf = some f := Heap.read_eq_ok.mp hread
  have hnone (hc : ¬ Carries f st.oe) : ∀ o, ¬ s.Encaps U skb o := by
    rintro o ⟨st', sf', f', huse', hf', hc', -⟩
    obtain ⟨rfl, rfl⟩ := hU _ _ _ _ huse huse'
    obtain rfl := Option.some.inj (hf.symm.trans hf')
    exact hc hc'
  split_ifs at hrest with hlink hnud
  · right
    split at hrest
    · cases hrest
    · obtain ⟨rfl, rfl, -⟩ := ok_triple_inj hrest
      refine ⟨by decide, rfl, hnone fun hc => hc.1 ?_⟩
      simpa using hlink
  · right
    obtain ⟨rfl, rfl, -⟩ := ok_triple_inj hrest
    refine ⟨by decide, rfl, hnone fun hc => ?_⟩
    rw [hc.2] at hnud
    cases hnud
  · left
    obtain ⟨rfl, rfl, -⟩ := ok_triple_inj hrest
    refine ⟨rfl, st, sf, f, huse, hf, ⟨?_, ?_⟩, rfl⟩
    · simpa using hlink
    · simpa using hnud

end

/-- The packet is from a device that madcap handles. -/
def Acquires (env : Env) (s : Sfmc) (skb : SkBuff) : Prop :=
  env.madcapEnable = true ∧ s.acquired skb = true

/-- The e1000 driver encapsulates a packet or fails, and lets other devices' packets pass. -/
theorem e1000SfmcEncapPacket_cases (h : s.e1000SfmcEncapPacket env skb = .ok (err, out, s')) :
    (s.Acquires env skb ∧ (err = 0 ∧ s.Encaps (s.E1000Uses env skb) skb out ∨
      err < 0 ∧ out = skb ∧ ∀ o, ¬ s.Encaps (s.E1000Uses env skb) skb o)) ∨
    (¬ s.Acquires env skb ∧ err = 0 ∧ out = skb) := by
  unfold e1000SfmcEncapPacket at h
  split_ifs at h with hon
  · left
    have hacq : s.Acquires env skb := Bool.and_eq_true_iff.mp hon
    refine ⟨hacq, ?_⟩
    dsimp only at h
    rw [Option.or_self] at h
    cases hst : s.sfmcTableFind env (extractIdFromPacket skb s.oc) with
    | none =>
      rw [hst] at h
      obtain ⟨rfl, rfl, -⟩ := ok_triple_inj h
      refine .inr ⟨by decide, rfl, ?_⟩
      rintro o ⟨st, sf, f, huse, -⟩
      exact absurd (hst.symm.trans huse.entry) (by simp)
    | some st =>
      rw [hst] at h
      obtain ⟨fib, hbest, hrest⟩ := bind_eq_ok.mp h
      cases fib with
      | none =>
        obtain ⟨rfl, rfl, -⟩ := ok_triple_inj hrest
        refine .inr ⟨by decide, rfl, ?_⟩
        rintro o ⟨st', sf, f, huse, -⟩
        obtain rfl := Option.some.inj (hst.symm.trans huse.entry)
        exact absurd (hbest.symm.trans huse.route) (by simp)
      | some sf =>
        have huse : s.E1000Uses env skb st sf := ⟨hacq.1, hacq.2, hst, hbest⟩
        exact encapWith_cases (fun _ _ _ _ => E1000Uses.unique) huse hrest
  · right
    obtain ⟨rfl, rfl, -⟩ := ok_triple_inj h
    exact ⟨fun hacq => hon (Bool.and_eq_true_iff.mpr hacq), rfl, rfl⟩

/-- The ixgbe driver encapsulates a packet or fails, and lets other devices' packets pass. -/
theorem sfmcEncapPacket_cases (h : s.sfmcEncapPacket env skb = .ok (err, out, s')) :
    (s.Acquires env skb ∧ (err = 0 ∧ s.Encaps (s.Uses env skb) skb out ∨
      err < 0 ∧ ∀ o, ¬ s.Encaps (s.Uses env skb) skb o)) ∨
    (¬ s.Acquires env skb ∧ err = 0 ∧ out = skb) := by
  unfold sfmcEncapPacket at h
  split_ifs at h with hon
  · left
    have hacq : s.Acquires env skb := Bool.and_eq_true_iff.mp hon
    refine ⟨hacq, ?_⟩
    unfold encapCached at h
    dsimp only at h
    cases hst : (s.sfmcTableFind env (extractIdFromPacket skb s.oc)).or
        (s.sfmcTableFind env 0) with
    | none =>
      rw [hst] at h
      obtain ⟨rfl, -⟩ := ok_triple_inj h
      refine .inr ⟨by decide, ?_⟩
      rintro o ⟨st, sf, f, huse, -⟩
      exact absurd (hst.symm.trans huse.entry) (by simp)
    | some st =>
      rw [hst] at h
      simp only at h
      cases hfib : st.fib with
      | some sf =>
        rw [hfib] at h
        have huse : s.Uses env skb st sf := ⟨hacq.1, hacq.2, hst, .inl hfib⟩
        rcases encapWith_cases (fun _ _ _ _ => Uses.unique) huse h with h | h
        · exact .inl h
        · exact .inr ⟨h.1, h.2.2⟩
      | none =>
        rw [hfib] at h
        obtain ⟨fib, hbest, hrest⟩ := bind_eq_ok.mp h
        cases fib with
        | none =>
          obtain ⟨rfl, -⟩ := ok_triple_inj hrest
          refine .inr ⟨by decide, ?_⟩
          rintro o ⟨st', sf, f, huse, -⟩
          obtain rfl := Option.some.inj (hst.symm.trans huse.entry)
          rcases huse.route with hfib' | ⟨-, hbest'⟩
          · exact absurd (hfib.symm.trans hfib') (by simp)
          · exact absurd (hbest.symm.trans hbest') (by simp)
        | some sf =>
          have huse : s.Uses env skb st sf := ⟨hacq.1, hacq.2, hst, .inr ⟨hfib, hbest⟩⟩
          rcases encapWith_cases (fun _ _ _ _ => Uses.unique) huse hrest with h | h
          · exact .inl h
          · exact .inr ⟨h.1, h.2.2⟩
  · right
    obtain ⟨rfl, rfl, -⟩ := ok_triple_inj h
    exact ⟨fun hacq => hon (Bool.and_eq_true_iff.mpr hacq), rfl, rfl⟩

theorem Encaps.acquires {out : SkBuff} (h : s.Encaps (s.Uses env skb) skb out) :
    s.Acquires env skb := by
  obtain ⟨st, sf, f, huse, -⟩ := h
  exact ⟨huse.enabled, huse.acquired⟩

/-- Whatever it returns, the e1000 driver has encapsulated a packet or left it alone. -/
theorem e1000SfmcEncapPacket_leaves (h : s.e1000SfmcEncapPacket env skb = .ok (err, out, s')) :
    s.Encaps (s.E1000Uses env skb) skb out ∨
      out = skb ∧ ∀ o, ¬ s.Encaps (s.E1000Uses env skb) skb o := by
  rcases e1000SfmcEncapPacket_cases h with ⟨-, ⟨-, henc⟩ | ⟨-, hout⟩⟩ | ⟨hno, -, hout⟩
  · exact .inl henc
  · exact .inr hout
  · refine .inr ⟨hout, ?_⟩
    rintro o ⟨st, sf, f, huse, -⟩
    exact hno ⟨huse.enabled, huse.acquired⟩

/-- An encapsulated packet used a route that carries it. -/
theorem sfmcEncapPacket_emits (hacq : s.Acquires env skb)
    (h : s.sfmcEncapPacket env skb = .ok (0, out, s')) : s.Encaps (s.Uses env skb) skb out := by
  rcases sfmcEncapPacket_cases h with ⟨-, ⟨-, henc⟩ | ⟨hneg, -⟩⟩ | ⟨hno, -⟩
  · exact henc
  · exact absurd hneg (lt_irrefl 0)
  · exact absurd hacq hno

theorem e1000SfmcEncapPacket_emits (hacq : s.Acquires env skb)
    (h : s.e1000SfmcEncapPacket env skb = .ok (0, out, s')) :
    s.Encaps (s.E1000Uses env skb) skb out := by
  rcases e1000SfmcEncapPacket_cases h with ⟨-, ⟨-, henc⟩ | ⟨hneg, -⟩⟩ | ⟨hno, -⟩
  · exact henc
  · exact absurd hneg (lt_irrefl 0)
  · exact absurd hacq hno

end Sfmc

end Madcap
