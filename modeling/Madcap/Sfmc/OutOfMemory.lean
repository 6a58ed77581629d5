import Madcap.Patricia.Requests
import Madcap.Sfmc.Emission
import Madcap.Sfmc.RouteCache

/-!
# Insertions that run out of memory

A route that cannot be allocated is reported by `sfmc_port_obj_add` and leaves the FIB
alone. The prefix and the nodes of an insertion are written through whatever the allocator
returned, and the host route of a connected destination is queued unseen.
-/

namespace Madcap

open LongestPrefix

/-- The entry points that insert a route or have one inserted. -/
inductive Insertion where
  | portObjAdd (phase : SwitchdevTrans) (obj : SwitchdevObj) (created : Option Neighbour)
  | llNeighWork (sf : Ref) (created : Option Neighbour)
  | encapPacket (skb : SkBuff)

/-- The code an entry point returns, where it returns one, and the device after it. -/
def Insertion.run (env : Env) (w : World) : Insertion → Res (Option ℤ × World)
  | .portObjAdd phase obj created => do
    let (err, w) ← w.sfmcPortObjAdd phase obj created
    return (some err, w)
  | .llNeighWork sf created => do
    let w ← w.runWork sf created
    return (none, w)
  | .encapPacket skb => do
    let (err, _, s) ← w.sfmc.sfmcEncapPacket env skb
    return (some err, { w with sfmc := s })

namespace Sfmc

/-- A request made between the two states was refused. -/
def Refused (s s' : Sfmc) : Prop :=
  ∃ i, s.fibTree.requests ≤ i ∧ i < s'.fibTree.requests ∧ s.fibTree.grants i = false

/-- The list and the answers of the FIB are the same. -/
structure Undisturbed (s s' : Sfmc) : Prop where
  list : s'.fibList = s.fibList
  exact : ∀ network len, s'.sfmcFibFindExact network len = s.sfmcFibFindExact network len
  best : ∀ network len, s'.sfmcFibFindBest network len = s.sfmcFibFindBest network len

/-- The prefix and the nodes that an insertion needs are granted, from a request on. -/
def SuppliesFrom (s : Sfmc) (first : ℕ) (network : U32) (len : ℕ) : Prop :=
  ∃ k, s.fibTree.newNodes (dst2Prefix network len) = .ok k ∧
    ∀ i < 1 + k, s.fibTree.grants (first + i) = true

/-- `sfmc_encap_packet` finds that the entry's locator is on a connected network. -/
def Connects (env : Env) (s : Sfmc) (skb : SkBuff) : Prop :=
  ∃ st sf f, s.Uses env skb st sf ∧ s.fibs.cells sf = some f ∧ f.scope = RT_SCOPE_LINK ∧
    f.gateway ≠ st.oe.dst

end Sfmc

/-- The insertion faults nowhere, and if a request of it is refused, it says so and leaves the
FIB as it was. -/
def Insertion.Harmless (env : Env) (w : World) (op : Insertion) : Prop :=
  ∃ res, op.run env w = .ok res ∧ (w.sfmc.Refused res.2.sfmc →
    (∃ err < 0, res.1 = some err) ∧ w.sfmc.Undisturbed res.2.sfmc)

/-- Every request of the insertion is granted, but for the route of `sfmc_port_obj_add`,
which may be refused. -/
def Insertion.Supplied (env : Env) (w : World) : Insertion → Prop
  | .portObjAdd .commit (.ipv4Fib fib) _ =>
    (fib.gateway = 0 && fib.scope ≠ RT_SCOPE_LINK) = true ∨
      w.sfmc.fibTree.grants w.sfmc.fibTree.requests = false ∨
      w.sfmc.SuppliesFrom (w.sfmc.fibTree.requests + 1) (htonl fib.dst) fib.dstLen
  | .portObjAdd _ _ _ => True
  | .llNeighWork sf _ => sf ∈ w.sfmc.wq → ∀ f, w.sfmc.fibs.cells sf = some f →
      w.sfmc.SuppliesFrom w.sfmc.fibTree.requests f.network f.len
  | .encapPacket skb => w.sfmc.Connects env skb →
      w.sfmc.fibTree.grants w.sfmc.fibTree.requests = true

namespace Sfmc

instance : Supply Sfmc where
  grants s := s.fibTree.grants
  requests s := s.fibTree.requests
  regrant g s := { s with fibTree := Supply.regrant g s.fibTree }
  grants_regrant _ _ := rfl
  requests_regrant _ _ := rfl
  regrant_regrant _ _ _ := rfl
  regrant_grants _ := rfl

variable {s s' : Sfmc} {sf : Ref} {f : SfmcFib} {pfx : PrefixT} {k : ℕ}

theorem kmallocPrefix_asks {res : Ref × Patricia} (h : s.kmallocPrefix pfx = .ok res) :
    Asks (fun s : Sfmc => s.kmallocPrefix pfx) s 1 res := by
  obtain ⟨hgrant, rfl⟩ := kmallocPrefix_eq_ok h
  refine ⟨h, rfl, rfl, fun i hi => ?_, fun g hg => ?_⟩
  · obtain rfl : i = 0 := by omega
    exact hgrant
  · have hfirst : g s.fibTree.requests = true := hg 0 Nat.one_pos
    unfold kmallocPrefix Patricia.kmalloc
    simp only [Supply.regrant, hfirst]

theorem sfmcFibInsert_asks (inv : s.FibInv) (hf : s.fibs.cells sf = some f) (hlen : f.len ≤ 32)
    {res : Option Ref × Sfmc} (h : s.sfmcFibInsert sf = .ok res) :
    ∃ k, s.fibTree.newNodes (dst2Prefix f.network f.len) = .ok k ∧
      Asks (fun s => s.sfmcFibInsert sf) s (1 + k) res := by
  obtain ⟨q, tree₁, r, tree₂, node, h⟩ := sfmcFibInsert_stages inv hf hlen h
  obtain ⟨k, hk, hlookup⟩ :=
    Patricia.patriciaLookup_asks h.insertable.read h.insertable.counted h.lookup
  rw [h.tree, Patricia.newNodes_alloc inv.tree] at hk
  refine ⟨k, hk, ?_⟩
  unfold sfmcFibInsert
  refine .read (Heap.read_eq hf) (fun _ => rfl) ?_
  refine (kmallocPrefix_asks h.alloc).bind (.pair ?_) (fun _ => rfl) rfl
  dsimp only
  refine hlookup.finish (.pair ?_)
  refine .read h.read (fun _ => rfl) ?_
  rcases h.outcome with ⟨data, hdata, rfl⟩ | ⟨hdata, tree₃, h₃, rfl⟩
  · simp only [hdata]
    exact .of_ok rfl rfl rfl fun _ => rfl
  · simp only [hdata]
    have hset : Asks (fun tree : Patricia => tree.setNode r fun node =>
        { node with data := some sf }) tree₂ 0 tree₃ :=
      Patricia.setNode_asks h₃ fun _ => rfl
    refine hset.andThen ?_
    refine .read (Heap.write_eq hf) (fun _ => rfl) ?_
    exact .of_ok rfl rfl rfl fun _ => rfl

theorem FibInv.regrant (inv : s.FibInv) (g : ℕ → Bool) : (Supply.regrant g s).FibInv := by
  obtain ⟨key, hk⟩ := inv.tree
  obtain ⟨hk', hl⟩ := hk.of_prefixes (Supply.regrant g s.fibTree) rfl rfl rfl fun _ _ _ _ _ => rfl
  exact inv.of_label_eq ⟨key, hk'⟩ hl

theorem sfmcFibInsert_returns (inv : s.FibInv) (hf : s.fibs.cells sf = some f) (hlen : f.len ≤ 32)
    (hnl : sf ∉ s.fibList) (hnw : sf ∉ s.wq) :
    ((∃ res, s.sfmcFibInsert sf = .ok res) ↔
      s.SuppliesFrom s.fibTree.requests f.network f.len) ∧
    ∀ res, s.sfmcFibInsert sf = .ok res → ¬ s.Refused res.2 := by
  obtain ⟨r, hr, -⟩ := (sfmcFibInsert_spec (inv.regrant fun _ => true) hf hlen hnl hnw).exists_ok
    (never_refuses fun _ => rfl)
  obtain ⟨k, hk, hall⟩ := sfmcFibInsert_asks (inv.regrant fun _ => true) hf hlen hr
  have hk' : s.fibTree.newNodes (dst2Prefix f.network f.len) = .ok k := by
    rw [← hk]
    symm
    exact Patricia.newNodes_congr rfl rfl rfl fun _ _ _ => rfl
  have hask : ∀ res, s.sfmcFibInsert sf = .ok res →
      ∃ k, Asks (fun s => s.sfmcFibInsert sf) s k res := by
    intro res hres
    obtain ⟨k, -, h⟩ := sfmcFibInsert_asks inv hf hlen hres
    exact ⟨_, h⟩
  constructor
  · refine (Asks.exists_ok_iff hall hask).trans ⟨fun h => ⟨k, hk', h⟩, ?_⟩
    rintro ⟨k', hk'', h⟩
    obtain rfl := Except.ok.inj (hk'.symm.trans hk'')
    exact h
  · rintro res hres ⟨i, hle, hlt, hno⟩
    obtain ⟨k, h⟩ := hask res hres
    have hcount : res.2.fibTree.requests = s.fibTree.requests + k := h.requests_eq
    have hyes : s.fibTree.grants (s.fibTree.requests + (i - s.fibTree.requests)) = true :=
      h.granted (i - s.fibTree.requests) (by omega)
    rw [Nat.add_sub_cancel' hle, hno] at hyes
    cases hyes

theorem undisturbed_requested (s : Sfmc) : s.Undisturbed s.requested := by
  have hexact : ∀ t, s.requested.fibTree.patriciaSearchExact t = s.fibTree.patriciaSearchExact t :=
    fun _ => by apply Patricia.patriciaSearchExact_congr <;> rfl
  have hbest : ∀ t, s.requested.fibTree.patriciaSearchBest t = s.fibTree.patriciaSearchBest t :=
    fun _ => by apply Patricia.patriciaSearchBest_congr <;> rfl
  refine ⟨rfl, fun network len => ?_, fun network len => ?_⟩
  · rw [sfmcFibFindExact, hexact]
    rfl
  · rw [sfmcFibFindBest, hbest]
    rfl

variable {env : Env} {skb : SkBuff}

theorem encapWith_idle (hf : s.fibs.cells sf = some f) (skb : SkBuff) {oe : ObjEntry}
    (hno : ¬ (f.scope = RT_SCOPE_LINK ∧ f.gateway ≠ oe.dst)) :
    ∃ err out, s.encapWith skb oe sf = .ok (err, out, s) := by
  have hcond : ¬ (decide (f.scope = RT_SCOPE_LINK) && decide (f.gateway ≠ oe.dst)) = true := by
    rwa [Bool.and_eq_true, decide_eq_true_eq, decide_eq_true_eq]
  unfold encapWith
  rw [Heap.read_eq hf]
  simp only [bind, Except.bind, if_neg hcond]
  split_ifs
  · exact ⟨_, _, rfl⟩
  · exact ⟨_, _, rfl⟩

/-- For a connected destination a route is requested and queued. -/
theorem encapWith_connected (hf : s.fibs.cells sf = some f) (skb : SkBuff) {oe : ObjEntry}
    (hscope : f.scope = RT_SCOPE_LINK) (hgw : f.gateway ≠ oe.dst) :
    s.encapWith skb oe sf = if s.fibTree.grants s.fibTree.requests then
      .ok (-ENOENT, skb, { s.created (blankFib oe.dst 32 oe.dst RT_SCOPE_LINK) with
        wq := s.wq ++ [s.fibs.next] })
      else .error .badAccess := by
  have hcond : (decide (f.scope = RT_SCOPE_LINK) && decide (f.gateway ≠ oe.dst)) = true := by
    rw [Bool.and_eq_true, decide_eq_true_eq, decide_eq_true_eq]
    exact ⟨hscope, hgw⟩
  unfold encapWith
  rw [Heap.read_eq hf]
  simp only [bind, Except.bind, if_pos hcond]
  cases hg : s.fibTree.grants s.fibTree.requests with
  | false =>
    rw [sfmcFibCreate_refused hg]
    rfl
  | true =>
    rw [sfmcFibCreate_ok hg]
    rfl

theorem sfmcEncapPacket_idle (inv : s.FibInv) (hno : ∀ st sf, ¬ s.Uses env skb st sf) :
    ∃ err out s', s.sfmcEncapPacket env skb = .ok (err, out, s') ∧ s'.fibTree = s.fibTree := by
  unfold sfmcEncapPacket
  split_ifs with hacq
  · rw [Bool.and_eq_true] at hacq
    unfold encapCached
    dsimp only
    cases hst : (s.sfmcTableFind env (extractIdFromPacket skb s.oc)).or
        (s.sfmcTableFind env 0) with
    | none => exact ⟨_, _, _, rfl, rfl⟩
    | some st =>
      dsimp only
      cases hfib : st.fib with
      | some sf => exact absurd ⟨hacq.1, hacq.2, hst, .inl hfib⟩ (hno st sf)
      | none =>
        dsimp only
        rw [sfmcFibFindBest_eq inv _ (le_refl 32)]
        cases hbest : s.routes.best (maskBits st.oe.dst 32) with
        | none => exact ⟨_, _, _, rfl, rfl⟩
        | some sf =>
          have hfind : s.sfmcFibFindBest st.oe.dst 32 = .ok (some sf) := by
            rw [sfmcFibFindBest_eq inv _ (le_refl 32), hbest]
          exact absurd ⟨hacq.1, hacq.2, hst, .inr ⟨hfib, hfind⟩⟩ (hno st sf)
  · exact ⟨_, _, _, rfl, rfl⟩

end Sfmc

namespace World

variable {env : Env} {w w' : World} {sf : Ref} {f : SfmcFib}

/-- What follows an insertion neither fails nor asks for anything. -/
theorem resolve_after {s₁ s₂ : Sfmc} {tmp : Option Ref} (hr : w.sfmc.Ready sf f s₁)
    (hins : s₁.sfmcFibInsert sf = .ok (tmp, s₂)) (created : Option Neighbour) :
    (∃ t, tmp = some t) ∧ ∃ w', World.sfmcNeighResolve ⟨s₂, w.arp⟩ sf created = .ok w' ∧
      w'.sfmc.fibTree = s₂.fibTree := by
  have hin := hr.inserts.of_eq_ok hins
  obtain ⟨g, hg, -⟩ := hin.cells_self hr.read
  obtain ⟨w', hrun, hres⟩ := sfmcNeighResolve_spec (w := ⟨s₂, w.arp⟩) hg created
  obtain ⟨fibs, heq⟩ := hres.kept.sfmc
  exact ⟨hin.exists_route, w', hrun, by rw [heq]⟩

end World

namespace Insertion

variable {env : Env} {w : World}

theorem harmless_of_idle {op : Insertion} (err : Option ℤ) (w' : World)
    (hrun : op.run env w = .ok (err, w'))
    (hreq : w'.sfmc.fibTree.requests = w.sfmc.fibTree.requests) : op.Harmless env w := by
  refine ⟨_, hrun, ?_⟩
  rintro ⟨i, hle, hlt, -⟩
  dsimp only at hlt
  omega

/-- Once its route is allocated, the insertion of a prefix is harmless exactly when it gets
everything else. -/
theorem addRoute_returns (inv : w.sfmc.FibInv) {fib : SwitchdevIpv4Fib} (created : Option Neighbour)
    (hskip : ¬ (fib.gateway = 0 && fib.scope ≠ RT_SCOPE_LINK) = true)
    (hg : w.sfmc.fibTree.grants w.sfmc.fibTree.requests = true) :
    ((∃ res, w.addRoute fib created = .ok res) ↔
      w.sfmc.SuppliesFrom (w.sfmc.fibTree.requests + 1) (htonl fib.dst) fib.dstLen) ∧
    ∀ res, w.addRoute fib created = .ok res → ¬ w.sfmc.Refused res.2.sfmc := by
  have hlen : (fib.dstLen : ℕ) ≤ 32 := Nat.lt_succ_iff.mp fib.dstLen.isLt
  have hready := inv.ready_create (htonl fib.dst) hlen fib.gateway fib.scope
  set f := Sfmc.blankFib (htonl fib.dst) fib.dstLen fib.gateway fib.scope with hf
  obtain ⟨hret, hgranted⟩ := Sfmc.sfmcFibInsert_returns hready.inv hready.read hready.len_le
    hready.fresh hready.idle
  have hsupply : (w.sfmc.created f).SuppliesFrom (w.sfmc.created f).fibTree.requests f.network f.len ↔
      w.sfmc.SuppliesFrom (w.sfmc.fibTree.requests + 1) (htonl fib.dst) fib.dstLen := by
    have hcount : (w.sfmc.created f).fibTree.newNodes (dst2Prefix f.network f.len) =
        w.sfmc.fibTree.newNodes (dst2Prefix f.network f.len) :=
      Patricia.newNodes_congr rfl rfl rfl fun _ _ _ => rfl
    unfold Sfmc.SuppliesFrom
    rw [hcount]
    rfl
  have hrest : ∀ tmp s₂, (w.sfmc.created f).sfmcFibInsert w.sfmc.fibs.next = .ok (tmp, s₂) →
      ∃ w', w.addRoute fib created = .ok (0, w') ∧ w'.sfmc.fibTree = s₂.fibTree := by
    intro tmp s₂ hins
    obtain ⟨⟨t, rfl⟩, w', hres, htree⟩ := World.resolve_after hready hins created
    refine ⟨w', ?_, htree⟩
    unfold World.addRoute Sfmc.sfmcFibAdd
    rw [if_neg hskip, Sfmc.sfmcFibCreate_ok hg]
    refine bind_eq_ok.mpr ⟨_, bind_eq_ok.mpr ⟨_, hins, rfl⟩, ?_⟩
    exact bind_eq_ok.mpr ⟨w', hres, rfl⟩
  have hfirst : (∃ res, w.addRoute fib created = .ok res) ↔
      ∃ res, (w.sfmc.created f).sfmcFibInsert w.sfmc.fibs.next = .ok res := by
    constructor
    · rintro ⟨res, h⟩
      unfold World.addRoute Sfmc.sfmcFibAdd at h
      rw [if_neg hskip, Sfmc.sfmcFibCreate_ok hg] at h
      obtain ⟨_, hadd, -⟩ := bind_eq_ok.mp h
      obtain ⟨r, hr, -⟩ := bind_eq_ok.mp hadd
      exact ⟨r, hr⟩
    · rintro ⟨⟨tmp, s₂⟩, hins⟩
      obtain ⟨w', hrun, -⟩ := hrest tmp s₂ hins
      exact ⟨_, hrun⟩
  refine ⟨hfirst.trans (hret.trans hsupply), fun res h => ?_⟩
  obtain ⟨⟨tmp, s₂⟩, hins⟩ := hfirst.mp ⟨res, h⟩
  obtain ⟨w', hrun, htree⟩ := hrest tmp s₂ hins
  obtain rfl := Except.ok.inj (hrun.symm.trans h)
  rintro ⟨i, hle, hlt, hno⟩
  rw [htree] at hlt
  by_cases hi : i = w.sfmc.fibTree.requests
  · rw [hi, hg] at hno
    cases hno
  · refine hgranted _ hins ⟨i, ?_, hlt, hno⟩
    change w.sfmc.fibTree.requests + 1 ≤ i
    omega

theorem addRoute_refused {fib : SwitchdevIpv4Fib} (created : Option Neighbour)
    (hskip : ¬ (fib.gateway = 0 && fib.scope ≠ RT_SCOPE_LINK) = true)
    (hg : w.sfmc.fibTree.grants w.sfmc.fibTree.requests = false) :
    w.addRoute fib created = .ok (-ENOMEM, { w with sfmc := w.sfmc.requested }) := by
  unfold World.addRoute Sfmc.sfmcFibAdd
  rw [if_neg hskip, Sfmc.sfmcFibCreate_refused hg]
  rfl

theorem portObjAdd_harmless_iff (inv : w.sfmc.FibInv) (fib : SwitchdevIpv4Fib)
    (created : Option Neighbour) :
    Harmless env w (.portObjAdd .commit (.ipv4Fib fib) created) ↔
      Supplied env w (.portObjAdd .commit (.ipv4Fib fib) created) := by
  by_cases hskip : (fib.gateway = 0 && fib.scope ≠ RT_SCOPE_LINK) = true
  · refine iff_of_true (harmless_of_idle (some 0) w ?_ rfl) (.inl hskip)
    simp only [run, World.sfmcPortObjAdd, World.addRoute, if_pos hskip]
    rfl
  · cases hg : w.sfmc.fibTree.grants w.sfmc.fibTree.requests with
    | false =>
      refine iff_of_true ⟨(some (-ENOMEM), { w with sfmc := w.sfmc.requested }), ?_, fun _ =>
        ⟨⟨-ENOMEM, by decide, rfl⟩, w.sfmc.undisturbed_requested⟩⟩ (.inr (.inl hg))
      simp only [run, World.sfmcPortObjAdd, addRoute_refused created hskip hg]
      rfl
    | true =>
      obtain ⟨hret, hgranted⟩ := addRoute_returns inv created hskip hg
      constructor
      · rintro ⟨res, hrun, -⟩
        obtain ⟨⟨err, w'⟩, hadd, -⟩ := bind_eq_ok.mp hrun
        exact .inr (.inr (hret.mp ⟨_, hadd⟩))
      · rintro (hskip' | hno | hsupply)
        · exact absurd hskip' hskip
        · rw [hg] at hno
          cases hno
        · obtain ⟨⟨err, w'⟩, hadd⟩ := hret.mpr hsupply
          refine ⟨(some err, w'), bind_eq_ok.mpr ⟨_, hadd, rfl⟩, fun href => ?_⟩
          exact absurd href (hgranted _ hadd)

theorem llNeighWork_harmless_iff (inv : w.sfmc.FibInv) (sf : Ref) (created : Option Neighbour) :
    Harmless env w (.llNeighWork sf created) ↔ Supplied env w (.llNeighWork sf created) := by
  by_cases hsf : sf ∈ w.sfmc.wq
  · obtain ⟨f, hready⟩ := inv.ready_queued hsf
    have hf : w.sfmc.fibs.cells sf = some f := hready.read
    obtain ⟨hret, hgranted⟩ := Sfmc.sfmcFibInsert_returns hready.inv hready.read hready.len_le
      hready.fresh hready.idle
    constructor
    · rintro ⟨res, hrun, -⟩ - g hg
      obtain rfl := Option.some.inj (hf.symm.trans hg)
      obtain ⟨w', hwork, -⟩ := bind_eq_ok.mp hrun
      unfold World.runWork at hwork
      rw [if_pos hsf] at hwork
      obtain ⟨r, hr, -⟩ := bind_eq_ok.mp hwork
      exact hret.mp ⟨r, hr⟩
    · intro hsupply
      obtain ⟨⟨tmp, s₂⟩, hins⟩ := hret.mpr (hsupply hsf f hf)
      obtain ⟨⟨t, rfl⟩, w', hres, htree⟩ := World.resolve_after hready hins created
      have hwork : w.runWork sf created = .ok w' := by
        unfold World.runWork
        rw [if_pos hsf]
        refine bind_eq_ok.mpr ⟨_, hins, ?_⟩
        simp only [reduceCtorEq, if_false]
        exact hres
      refine ⟨(none, w'), bind_eq_ok.mpr ⟨w', hwork, rfl⟩, ?_⟩
      rintro ⟨i, hle, hlt, hno⟩
      dsimp only at hlt
      rw [htree] at hlt
      exact absurd ⟨i, hle, hlt, hno⟩ (hgranted _ hins)
  · refine iff_of_true (harmless_of_idle none w ?_ rfl) fun h => absurd h hsf
    simp only [run, World.runWork, if_neg hsf]
    rfl

theorem encapPacket_harmless_iff (inv : w.sfmc.Inv) (skb : SkBuff) :
    Harmless env w (.encapPacket skb) ↔ Supplied env w (.encapPacket skb) := by
  by_cases huse : ∃ st sf, w.sfmc.Uses env skb st sf
  · obtain ⟨st, sf, huse⟩ := huse
    obtain ⟨f, -, hf, -⟩ := inv.fib.listed (huse.listed inv)
    obtain ⟨s₁, hs₁, hencap⟩ := huse.encap
    have hsame : s₁.fibs = w.sfmc.fibs ∧ s₁.fibTree = w.sfmc.fibTree := by
      rcases hs₁ with rfl | rfl <;> exact ⟨rfl, rfl⟩
    have hf₁ : s₁.fibs.cells sf = some f := by rw [hsame.1, hf]
    by_cases hlocal : f.scope = RT_SCOPE_LINK ∧ f.gateway ≠ st.oe.dst
    · have hconnects : w.sfmc.Connects env skb := ⟨st, sf, f, huse, hf, hlocal.1, hlocal.2⟩
      have hrun := Sfmc.encapWith_connected hf₁ skb hlocal.1 hlocal.2
      rw [← hencap, hsame.2] at hrun
      constructor
      · rintro ⟨res, hres, -⟩ -
        obtain ⟨r, hr, -⟩ := bind_eq_ok.mp hres
        rw [hrun] at hr
        split_ifs at hr with hg
        exact hg
      · intro hsupply
        have hg := hsupply hconnects
        rw [if_pos hg] at hrun
        refine ⟨_, bind_eq_ok.mpr ⟨_, hrun, rfl⟩, ?_⟩
        rintro ⟨i, hle, hlt, hno⟩
        have hlt' : i < s₁.fibTree.requests + 1 := hlt
        rw [hsame.2] at hlt'
        obtain rfl : i = w.sfmc.fibTree.requests := by omega
        rw [hg] at hno
        cases hno
    · obtain ⟨err, out, hrun⟩ := Sfmc.encapWith_idle hf₁ skb hlocal
      rw [← hencap] at hrun
      refine iff_of_true (harmless_of_idle (some err) { w with sfmc := s₁ }
        (bind_eq_ok.mpr ⟨_, hrun, rfl⟩) (by rw [hsame.2])) ?_
      rintro ⟨st', sf', f', huse', hf', hscope, hgw⟩
      obtain ⟨rfl, rfl⟩ := huse.unique huse'
      obtain rfl := Option.some.inj (hf.symm.trans hf')
      exact absurd ⟨hscope, hgw⟩ hlocal
  · have hno : ∀ st sf, ¬ w.sfmc.Uses env skb st sf := fun st sf h => huse ⟨st, sf, h⟩
    obtain ⟨err, out, s', hrun, htree⟩ := Sfmc.sfmcEncapPacket_idle inv.fib hno
    refine iff_of_true (harmless_of_idle (some err) { w with sfmc := s' }
      (bind_eq_ok.mpr ⟨_, hrun, rfl⟩) (by rw [htree])) ?_
    rintro ⟨st, sf, -, h, -⟩
    exact absurd h (hno st sf)

theorem harmless_iff (inv : w.sfmc.Inv) (op : Insertion) :
    op.Harmless env w ↔ op.Supplied env w := by
  have hidle : ∀ phase obj created err, w.sfmcPortObjAdd phase obj created = .ok (err, w) →
      Harmless env w (.portObjAdd phase obj created) := fun phase obj created err h =>
    harmless_of_idle (some err) w (bind_eq_ok.mpr ⟨_, h, rfl⟩) rfl
  cases op with
  | portObjAdd phase obj created =>
    cases phase with
    | none => exact iff_of_true (hidle .none obj created _ rfl) trivial
    | prepare => exact iff_of_true (hidle .prepare obj created _ rfl) trivial
    | abort => exact iff_of_true (hidle .abort obj created _ rfl) trivial
    | commit =>
      cases obj with
      | other => exact iff_of_true (hidle .commit .other created _ rfl) trivial
      | ipv4Fib fib => exact portObjAdd_harmless_iff inv.fib fib created
  | llNeighWork sf created => exact llNeighWork_harmless_iff inv.fib sf created
  | encapPacket skb => exact encapPacket_harmless_iff inv skb

end Insertion

/-- In every state a device comes to, whatever its allocator refuses, an insertion is harmless
if and only if all its requests are granted, but for the route of `sfmc_port_obj_add`. -/
theorem insertion_harmless_iff (env : Env) (permAddr : Mac) (grants : ℕ → Bool) (arp : ArpTable)
    (es : List Event) (w : World) (hrun : (World.init permAddr grants arp).run env es = .ok w)
    (op : Insertion) : op.Harmless env w ↔ op.Supplied env w :=
  Insertion.harmless_iff ((World.run_inv env (World.inv_init permAddr grants arp) es).of_eq_ok hrun) op

/-- The commit of a connected route to a network, given in host order. -/
def connectedInsertion (dst : U32) (dstLen : Fin 33) : Insertion :=
  .portObjAdd .commit
    (.ipv4Fib { dst := dst, dstLen := dstLen, gateway := 0, scope := RT_SCOPE_LINK }) none

/-- 10.0.2.0/24 next to 10.0.1.0/24 takes a route, a prefix, a leaf and a glue node; the
requests after these are refused. -/
theorem insertion_harmless_glue : ∃ w, (World.init 0 (fun i => decide (i < 7)) fun _ => none).run
      oneBucket [connectedRoute 0x0A000100 ⟨24, by decide⟩] = .ok w ∧
    (connectedInsertion 0x0A000200 ⟨24, by decide⟩).Harmless oneBucket w := by
  refine ⟨_, rfl, (insertion_harmless_iff oneBucket 0 (fun i => decide (i < 7)) (fun _ => none)
    [connectedRoute 0x0A000100 ⟨24, by decide⟩] _ rfl _).mpr (.inr (.inr ⟨2, rfl, ?_⟩))⟩
  intro i hi
  have hlt : 4 + i < 7 := by omega
  exact decide_eq_true hlt

/-- The prefix of the first route is refused; its leaf is; the host route of a packet is. -/
theorem insertion_faults :
    ¬ (connectedInsertion 0x0A000100 ⟨24, by decide⟩).Harmless oneBucket
      (World.init 0 (fun i => decide (i < 1)) fun _ => none) ∧
    ¬ (connectedInsertion 0x0A000100 ⟨24, by decide⟩).Harmless oneBucket
      (World.init 0 (fun i => decide (i < 2)) fun _ => none) ∧
    ∃ w, (World.init 0 (fun i => decide (i < 4)) fun _ => none).run oneBucket
        [connectedRoute 0x0A000100 ⟨24, by decide⟩, .acquireDev 0, .lltEntryAdd connectedEntry] =
          .ok w ∧ ¬ (Insertion.encapPacket blankPacket).Harmless oneBucket w := by
  have hfault : ∀ (w : World) (op : Insertion), op.run oneBucket w = .error .badAccess →
      ¬ op.Harmless oneBucket w := by
    rintro w op h ⟨res, hres, -⟩
    rw [h] at hres
    cases hres
  exact ⟨hfault _ _ rfl, hfault _ _ rfl, _, rfl, hfault _ _ rfl⟩

end Madcap
