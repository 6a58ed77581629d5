import Madcap.Sfmc.Device
import Madcap.Sfmc.LongestMatch

/-!
# What an event can do

One statement says what any event does to a device that satisfies the device
invariant. The invariants of the claims are case analyses over it.
-/

namespace Madcap

open LongestPrefix

namespace Sfmc

variable {s s' : Sfmc} {sf : Ref} {f : SfmcFib}

/-- The device invariant: the FIB invariant, and caches that hold listed routes. -/
structure Inv (s : Sfmc) : Prop where
  fib : s.FibInv
  cached : ∀ {n st}, st ∈ s.sfmcTable n → st.fib = none ∨ ∃ sf ∈ s.fibList, st.fib = some sf

/-- Configuration leaves the FIB alone and fills no cache. -/
structure Configured (s s' : Sfmc) : Prop where
  inv : s.FibInv → s'.FibInv
  permAddr : s'.permAddr = s.permAddr
  grants : s'.fibTree.grants = s.fibTree.grants
  list : s'.fibList = s.fibList
  fibs : s'.fibs = s.fibs
  wq : s'.wq = s.wq
  table : ∀ {n st}, st ∈ s'.sfmcTable n → st ∈ s.sfmcTable n ∨ st.fib = none

/-- The cache of one entry was filled with the route of its destination. -/
def Cached (env : Env) (s s' : Sfmc) : Prop :=
  s' = s ∨ ∃ st, s.sfmcTableFind env st.oe.id = some st ∧ st.fib = none ∧
    s' = s.sfmcTableCache env st.oe.id (s.routes.best (maskBits st.oe.dst 32))

/-- A host route for a connected destination was queued. -/
def Queued (s s' : Sfmc) : Prop :=
  s' = s ∨ ∃ dst, s' = { s.created (blankFib dst 32 dst RT_SCOPE_LINK) with
    wq := s.wq ++ [s.fibs.next] }

/-- Only the neighbour copies of routes changed, and of queued routes not even these. -/
def NeighOnly (s : Sfmc) (fibs : Heap SfmcFib) : Prop :=
  ∀ ⦃q f⦄, s.fibs.cells q = some f → ∃ mac nud,
    fibs.cells q = some { f with mac := mac, nudState := nud } ∧ (q ∈ s.wq → nud = f.nudState)

theorem FibInv.of_neighOnly (inv : s.FibInv) {fibs : Heap SfmcFib} (h : s.NeighOnly fibs) :
    ({ s with fibs := fibs } : Sfmc).FibInv := by
  refine ⟨inv.tree, ?_, ?_, inv.nodup, ?_, inv.wq_nodup⟩
  · intro sf hsf
    obtain ⟨f, r, hf, hr, hl⟩ := inv.listed hsf
    obtain ⟨mac, nud, hf', -⟩ := h hf
    exact ⟨_, r, hf', hr, hl⟩
  · intro r l hl
    obtain ⟨sf, hsf, f, hf, hr, rfl⟩ := inv.labelled hl
    obtain ⟨mac, nud, hf', -⟩ := h hf
    exact ⟨sf, hsf, _, hf', hr, rfl⟩
  · intro sf hsf
    obtain ⟨hnl, f, hf, hlen, hnud⟩ := inv.queued hsf
    obtain ⟨mac, nud, hf', hq⟩ := h hf
    exact ⟨hnl, _, hf', hlen, (hq hsf).trans hnud⟩

theorem FibInv.routes_neighOnly (inv : s.FibInv) {fibs : Heap SfmcFib} (h : s.NeighOnly fibs) :
    ({ s with fibs := fibs } : Sfmc).routes = s.routes := by
  rw [Sfmc.routes, Sfmc.routes]
  refine List.filterMap_congr fun sf hsf => ?_
  obtain ⟨f, r, hf, -⟩ := inv.listed hsf
  obtain ⟨mac, nud, hf', -⟩ := h hf
  simp [route, hf, hf', SfmcFib.entry]

theorem sfmcTableFind_eq_some {env : Env} {id : U64} {st : SfmcTable}
    (h : s.sfmcTableFind env id = some st) :
    st.oe.id = id ∧ st ∈ s.sfmcTable (env.hash64 id) :=
  ⟨by simpa using List.find?_some h, List.mem_of_find?_eq_some h⟩

theorem mem_cacheFib {fib : Option Ref} {id : U64} {st st' : SfmcTable} :
    ∀ {bucket : List SfmcTable}, (bucket.find? fun st => st.oe.id == id) = some st →
      st' ∈ cacheFib fib id bucket → st' ∈ bucket ∨ st' = { st with fib := fib } := by
  intro bucket
  induction bucket with
  | nil => simp
  | cons a bucket ih =>
    intro hfind hst
    rw [cacheFib] at hst
    by_cases ha : a.oe.id = id
    · rw [if_pos ha] at hst
      have hast : a = st := by simpa [List.find?_cons, ha] using hfind
      rcases List.mem_cons.mp hst with rfl | hst
      · exact .inr (by rw [hast])
      · exact .inl (List.mem_cons_of_mem _ hst)
    · rw [if_neg ha] at hst
      have hfind' : (bucket.find? fun st => st.oe.id == id) = some st := by
        simpa [List.find?_cons, ha] using hfind
      rcases List.mem_cons.mp hst with rfl | hst
      · exact .inl List.mem_cons_self
      · rcases ih hfind' hst with h | h
        · exact .inl (List.mem_cons_of_mem _ h)
        · exact .inr h

theorem mem_sfmcTableCache {env : Env} {fib : Option Ref} {st st' : SfmcTable}
    {n : Fin sfmcHashSize} (h : s.sfmcTableFind env st.oe.id = some st)
    (hst : st' ∈ (s.sfmcTableCache env st.oe.id fib).sfmcTable n) :
    st' ∈ s.sfmcTable n ∨ st' = { st with fib := fib } := by
  simp only [sfmcTableCache] at hst
  by_cases hn : n = env.hash64 st.oe.id
  · subst hn
    rw [Function.update_self] at hst
    exact mem_cacheFib h hst
  · rw [Function.update_of_ne hn] at hst
    exact .inl hst

theorem destroyBucket_eq (bucket : List SfmcTable) : destroyBucket bucket = [] := by
  induction bucket with
  | nil => rfl
  | cons st bucket ih => exact ih

theorem sfmcTableDestroy_table (s : Sfmc) : s.sfmcTableDestroy.sfmcTable = fun _ => [] := by
  simp only [sfmcTableDestroy, destroyBucket_eq]

theorem mem_forgetFib {sf : Ref} {bucket : List SfmcTable} {st : SfmcTable}
    (h : st ∈ forgetFib sf bucket) : st.fib = none ∨ st ∈ bucket ∧ st.fib ≠ some sf := by
  obtain ⟨st', hst', rfl⟩ := List.mem_map.mp h
  by_cases hfib : st'.fib = some sf
  · rw [if_pos hfib]
    exact .inl rfl
  · rw [if_neg hfib]
    exact .inr ⟨hst', hfib⟩

theorem configured_acquire (vdev : NetDev) : s.Configured (s.sfmcAcquireDev vdev).2 := by
  unfold sfmcAcquireDev
  split_ifs
  · exact ⟨id, rfl, rfl, rfl, rfl, rfl, .inl⟩
  · split
    · exact ⟨fun h => ⟨h.tree, h.listed, h.labelled, h.nodup, h.queued, h.wq_nodup⟩, rfl, rfl, rfl,
        rfl, rfl, .inl⟩
    · exact ⟨id, rfl, rfl, rfl, rfl, rfl, .inl⟩

theorem configured_release (vdev : NetDev) : s.Configured (s.sfmcReleaseDev vdev).2 := by
  unfold sfmcReleaseDev
  split
  · exact ⟨fun h => ⟨h.tree, h.listed, h.labelled, h.nodup, h.queued, h.wq_nodup⟩, rfl, rfl, rfl,
      rfl, rfl, .inl⟩
  · exact ⟨id, rfl, rfl, rfl, rfl, rfl, .inl⟩

theorem configured_lltCfg (oc : ObjConfig) : s.Configured (s.sfmcLltCfg oc).2 := by
  unfold sfmcLltCfg
  split_ifs
  · refine ⟨fun h => ⟨h.tree, h.listed, h.labelled, h.nodup, h.queued, h.wq_nodup⟩, rfl, rfl, rfl,
      rfl, rfl, fun {n st} hst => ?_⟩
    simp [sfmcTableDestroy, destroyBucket_eq] at hst
  · exact ⟨id, rfl, rfl, rfl, rfl, rfl, .inl⟩

theorem configured_requested : s.Configured s.requested :=
  ⟨FibInv.requested, rfl, rfl, rfl, rfl, rfl, .inl⟩

theorem configured_entryAdd (env : Env) (oe : ObjEntry) :
    s.Configured (s.sfmcLltEntryAdd env oe).2 := by
  unfold sfmcLltEntryAdd
  rw [kmalloc_eq]
  split
  · exact ⟨id, rfl, rfl, rfl, rfl, rfl, .inl⟩
  · cases s.fibTree.grants s.fibTree.requests with
    | false => exact configured_requested
    | true =>
      refine ⟨fun h => ?_, rfl, rfl, rfl, rfl, rfl, fun {n st} hst => ?_⟩
      · have hr := h.requested
        exact ⟨hr.tree, hr.listed, hr.labelled, hr.nodup, hr.queued, hr.wq_nodup⟩
      · simp only [sfmcTableAdd, requested] at hst
        by_cases hn : n = env.hash64 oe.id
        · subst hn
          rw [Function.update_self] at hst
          rcases List.mem_cons.mp hst with rfl | hst
          · exact .inr rfl
          · exact .inl hst
        · rw [Function.update_of_ne hn] at hst
          exact .inl hst

theorem configured_entryDel (env : Env) (oe : ObjEntry) :
    s.Configured (s.sfmcLltEntryDel env oe).2 := by
  unfold sfmcLltEntryDel
  split
  · exact ⟨id, rfl, rfl, rfl, rfl, rfl, .inl⟩
  · refine ⟨fun h => ⟨h.tree, h.listed, h.labelled, h.nodup, h.queued, h.wq_nodup⟩, rfl, rfl, rfl,
      rfl, rfl, fun {n st} hst => ?_⟩
    simp only [sfmcTableDelete] at hst
    by_cases hn : n = env.hash64 oe.id
    · subst hn
      rw [Function.update_self] at hst
      exact .inl (List.mem_of_mem_eraseP hst)
    · rw [Function.update_of_ne hn] at hst
      exact .inl hst

theorem configured_udpCfg (ou : ObjUdp) : s.Configured (s.sfmcUdpCfg ou).2 :=
  ⟨fun h => ⟨h.tree, h.listed, h.labelled, h.nodup, h.queued, h.wq_nodup⟩, rfl, rfl, rfl, rfl, rfl,
    .inl⟩

end Sfmc

/-- What a change of the neighbour of `ip` writes to one route. -/
def SfmcFib.refresh (ip : U32) (n : Neighbour) (f : SfmcFib) : SfmcFib :=
  if f.gateway = ip then { f with mac := n.ha, nudState := n.nudState } else f

theorem SfmcFib.refresh_refresh (ip : U32) (n : Neighbour) (f : SfmcFib) :
    (f.refresh ip n).refresh ip n = f.refresh ip n := by
  unfold SfmcFib.refresh
  by_cases h : f.gateway = ip
  · simp [h]
  · simp [h]

namespace Sfmc

variable {s s' : Sfmc} {sf : Ref} {f : SfmcFib}

/-- Every listed route was refreshed and no other. -/
def Refreshed (ip : U32) (n : Neighbour) (list : List Ref) (fibs fibs' : Heap SfmcFib) : Prop :=
  ∀ q, fibs'.cells q =
    if q ∈ list then (fibs.cells q).map (SfmcFib.refresh ip n) else fibs.cells q

theorem neighUpdateLoop_spec (ip : U32) (n : Neighbour) (list : List Ref) :
    ∀ s : Sfmc, (∀ q ∈ list, ∃ f, s.fibs.cells q = some f) →
      ∃ fibs, neighUpdateLoop ip n list s = .ok { s with fibs := fibs } ∧
        Refreshed ip n list s.fibs fibs := by
  induction list with
  | nil =>
    intro s _
    exact ⟨s.fibs, rfl, fun q => by simp⟩
  | cons sf list ih =>
    intro s hlist
    obtain ⟨f, hf⟩ := hlist sf List.mem_cons_self
    unfold neighUpdateLoop
    simp only [Heap.read_eq hf, bind, Except.bind]
    by_cases hgw : f.gateway = ip
    · have hwrite : s.sfmcNeighWrite sf n = .ok { s with
          fibs := s.fibs.modify sf fun f => { f with mac := n.ha, nudState := n.nudState } } := by
        simp only [sfmcNeighWrite, Heap.write_eq hf, bind, Except.bind]
        rfl
      rw [if_pos hgw, hwrite]
      obtain ⟨fibs, hrun, hfibs⟩ := ih { s with
          fibs := s.fibs.modify sf fun f => { f with mac := n.ha, nudState := n.nudState } } (by
        intro q hq
        obtain ⟨g, hg⟩ := hlist q (List.mem_cons_of_mem _ hq)
        by_cases hqs : q = sf
        · exact ⟨_, by simp [Heap.modify_cells, hqs, hf]; rfl⟩
        · exact ⟨g, by simp [Heap.modify_cells, hqs, hg]⟩)
      refine ⟨fibs, hrun, fun q => ?_⟩
      rw [hfibs q]
      by_cases hqs : q = sf
      · subst hqs
        have hre : f.refresh ip n = { f with mac := n.ha, nudState := n.nudState } := by
          simp [SfmcFib.refresh, hgw]
        have hmod : (s.fibs.modify q fun f => { f with mac := n.ha, nudState := n.nudState }).cells q
            = some (f.refresh ip n) := by
          simp [Heap.modify_cells, hf, hre]
        simp only [hmod, hf, List.mem_cons_self, if_true, Option.map_some,
          SfmcFib.refresh_refresh, ite_self]
      · simp [Heap.modify_cells, hqs]
    · rw [if_neg hgw]
      obtain ⟨fibs, hrun, hfibs⟩ := ih s fun q hq => hlist q (List.mem_cons_of_mem _ hq)
      refine ⟨fibs, hrun, fun q => ?_⟩
      rw [hfibs q]
      by_cases hqs : q = sf
      · subst hqs
        simp [hf, SfmcFib.refresh, hgw]
      · simp [hqs]

theorem sfmcNeighUpdate_spec (inv : s.FibInv) (ip : U32) (n : Neighbour) :
    ∃ fibs, s.sfmcNeighUpdate ip n = .ok { s with fibs := fibs } ∧
      Refreshed ip n s.fibList s.fibs fibs := by
  apply neighUpdateLoop_spec
  intro q hq
  obtain ⟨f, r, hf, -⟩ := inv.listed hq
  exact ⟨f, hf⟩

/-- A refresh of the listed routes does not reach the queued ones. -/
theorem FibInv.neighOnly_refreshed (inv : s.FibInv) {ip : U32} {n : Neighbour}
    {fibs : Heap SfmcFib} (h : Refreshed ip n s.fibList s.fibs fibs) : s.NeighOnly fibs := by
  intro q f hf
  rw [h q]
  by_cases hq : q ∈ s.fibList
  · have hnw : q ∉ s.wq := fun hw => (inv.queued hw).1 hq
    rw [if_pos hq, hf, Option.map_some]
    by_cases hgw : f.gateway = ip
    · exact ⟨n.ha, n.nudState, by simp [SfmcFib.refresh, hgw], fun hw => absurd hw hnw⟩
    · exact ⟨f.mac, f.nudState, by simp [SfmcFib.refresh, hgw], fun _ => rfl⟩
  · rw [if_neg hq]
    exact ⟨f.mac, f.nudState, hf, fun _ => rfl⟩

theorem neighOnly_modify {n : Neighbour} (hnw : sf ∉ s.wq) : s.NeighOnly
    (s.fibs.modify sf fun f => { f with mac := n.ha, nudState := n.nudState }) := by
  intro q f hf
  by_cases hq : q = sf
  · subst hq
    exact ⟨n.ha, n.nudState, by simp [Heap.modify_cells, hf], fun hw => absurd hw hnw⟩
  · exact ⟨f.mac, f.nudState, by simp [Heap.modify_cells, hq, hf], fun _ => rfl⟩

end Sfmc

/-- `sfmc_neigh_resolve` of the route `sf`: no neighbour, one that is not valid yet, or
a valid one that is copied. -/
inductive Resolved (w : World) (sf : Ref) (gateway : U32) : World → Prop
  | missing (h : w.arp gateway = none) : Resolved w sf gateway w
  | pending (n : Neighbour) (h : w.arp gateway = some n ∨ w.arp gateway = none)
      (hn : nudValid n.nudState = false) :
      Resolved w sf gateway { w with arp := Function.update w.arp gateway (some n) }
  | known (n : Neighbour) (h : w.arp gateway = some n ∨ w.arp gateway = none)
      (hn : nudValid n.nudState = true) :
      Resolved w sf gateway
        { sfmc := { w.sfmc with
            fibs := w.sfmc.fibs.modify sf fun f => { f with mac := n.ha, nudState := n.nudState } }
          arp := Function.update w.arp gateway (some n) }

namespace World

variable {w w' : World} {sf : Ref} {f : SfmcFib}

theorem sfmcNeighResolve_spec (hf : w.sfmc.fibs.cells sf = some f) (created : Option Neighbour) :
    ∃ w', w.sfmcNeighResolve sf created = .ok w' ∧ Resolved w sf f.gateway w' := by
  unfold sfmcNeighResolve
  simp only [Heap.read_eq hf, bind, Except.bind]
  have hgot : ∀ n, (w.arp f.gateway).or created = some n →
      w.arp f.gateway = some n ∨ w.arp f.gateway = none := by
    intro n hn
    cases harp : w.arp f.gateway with
    | none => exact .inr rfl
    | some m =>
      rw [harp, Option.some_or] at hn
      exact .inl hn
  cases hn : (w.arp f.gateway).or created with
  | none => exact ⟨w, rfl, .missing (Option.or_eq_none_iff.mp hn).1⟩
  | some n =>
    cases hv : nudValid n.nudState with
    | false =>
      simp only [hv, Bool.false_eq_true, if_false]
      exact ⟨_, rfl, .pending n (hgot n hn) hv⟩
    | true =>
      simp only [hv, if_true, Sfmc.sfmcNeighWrite, Heap.write_eq hf, bind, Except.bind]
      exact ⟨_, rfl, .known n (hgot n hn) hv⟩

end World

/-- What resolution leaves alone, whatever it found. -/
structure Resolved.Kept (w w' : World) (sf : Ref) : Prop where
  sfmc : ∃ fibs, w'.sfmc = { w.sfmc with fibs := fibs }
  neigh : sf ∉ w.sfmc.wq → w.sfmc.NeighOnly w'.sfmc.fibs

theorem Resolved.kept {w w' : World} {sf : Ref} {gateway : U32} (h : Resolved w sf gateway w') :
    Resolved.Kept w w' sf := by
  have hsame : w.sfmc.NeighOnly w.sfmc.fibs := fun _ f hf => ⟨f.mac, f.nudState, hf, fun _ => rfl⟩
  cases h with
  | missing => exact ⟨⟨_, rfl⟩, fun _ => hsame⟩
  | pending => exact ⟨⟨_, rfl⟩, fun _ => hsame⟩
  | known n => exact ⟨⟨_, rfl⟩, fun hnw => Sfmc.neighOnly_modify hnw⟩

/-- The masked prefix of the route an event tries to link. -/
def Event.links (w : World) : Event → Option (List Bool)
  | .portObjAdd .commit (.ipv4Fib fib) _ =>
    if fib.gateway = 0 && fib.scope ≠ RT_SCOPE_LINK then none
    else some (maskBits (htonl fib.dst) fib.dstLen)
  | .llNeighWork sf _ =>
    if sf ∈ w.sfmc.wq then (w.sfmc.fibs.cells sf).map fun f => maskBits f.network f.len else none
  | _ => none

/-- Everything an event can do to a device. -/
inductive Outcome (env : Env) (w : World) (e : Event) : World → Prop
  | config (s : Sfmc) (h : w.sfmc.Configured s) : Outcome env w e { w with sfmc := s }
  | link (sf : Ref) (f : SfmcFib) (s₁ s₂ : Sfmc) (tmp : Option Ref) (w' : World)
      (ready : w.sfmc.Ready sf f s₁) (inserted : s₁.Inserted sf f (tmp, s₂))
      (links : e.links w = some (maskBits f.network f.len))
      (resolved : Resolved { w with sfmc := s₂ } sf f.gateway w') : Outcome env w e w'
  | delete (sf : Ref) (s : Sfmc) (hsf : sf ∈ w.sfmc.fibList) (h : w.sfmc.Deleted sf s) :
      Outcome env w e { w with sfmc := s }
  | encap (s₁ s₂ : Sfmc) (hc : Sfmc.Cached env w.sfmc s₁) (hq : s₁.Queued s₂) :
      Outcome env w e { w with sfmc := s₂ }
  | neigh (ip : U32) (n : Neighbour) (fibs : Heap SfmcFib)
      (h : Sfmc.Refreshed ip n w.sfmc.fibList w.sfmc.fibs fibs) :
      Outcome env w e { sfmc := { w.sfmc with fibs := fibs }, arp := Function.update w.arp ip (some n) }
  | drop (ip : U32) : Outcome env w e { w with arp := w.arp.drop ip }

theorem Outcome.refl (env : Env) (w : World) (e : Event) : Outcome env w e w :=
  .config w.sfmc ⟨id, rfl, rfl, rfl, rfl, rfl, .inl⟩

namespace Sfmc

variable {s s' : Sfmc} {sf : Ref} {f : SfmcFib}

/-- The use of a route either leaves the device alone or queues a host route. -/
theorem encapWith_spec (hf : s.fibs.cells sf = some f) (skb : SkBuff) (oe : ObjEntry) :
    Ensures s.fibTree.Refuses (s.encapWith skb oe sf) fun res => s.Queued res.2.2 := by
  unfold encapWith
  simp only [Heap.read_eq hf, ensures_bind, ensures_ok]
  split_ifs with hscope hnud
  · cases hg : s.fibTree.grants s.fibTree.requests with
    | false =>
      rw [sfmcFibCreate_refused hg]
      exact ⟨rfl, _, hg⟩
    | true =>
      rw [sfmcFibCreate_ok hg]
      exact .inr ⟨oe.dst, rfl⟩
  · exact .inl rfl
  · exact .inl rfl

theorem sfmcEncapPacket_spec {env : Env} (inv : s.Inv) (skb : SkBuff) :
    Ensures s.fibTree.Refuses (s.sfmcEncapPacket env skb) fun res =>
      ∃ s₁, Cached env s s₁ ∧ s₁.Queued res.2.2 := by
  unfold sfmcEncapPacket
  split_ifs with hacq
  · unfold encapCached
    dsimp only
    cases hst : (s.sfmcTableFind env (extractIdFromPacket skb s.oc)).or
        (s.sfmcTableFind env 0) with
    | none => exact ⟨s, .inl rfl, .inl rfl⟩
    | some st =>
      have hfind : s.sfmcTableFind env st.oe.id = some st := by
        rcases Option.or_eq_some_iff.mp hst with h | ⟨-, h⟩
        · rw [(sfmcTableFind_eq_some h).1, h]
        · rw [(sfmcTableFind_eq_some h).1, h]
      have hmem := (sfmcTableFind_eq_some hfind).2
      simp only
      cases hfib : st.fib with
      | some sf =>
        obtain ⟨sf', hsf', hsome⟩ := (inv.cached hmem).resolve_left (by simp [hfib])
        obtain rfl : sf = sf' := by simpa [hfib] using hsome
        obtain ⟨f, -, hf, -⟩ := inv.fib.listed hsf'
        exact (encapWith_spec hf skb st.oe).mono fun res h => ⟨s, .inl rfl, h⟩
      | none =>
        rw [sfmcFibFindBest_eq inv.fib _ (le_refl 32)]
        simp only [ensures_bind, ensures_ok]
        have hcached : Cached env s
            (s.sfmcTableCache env st.oe.id (s.routes.best (maskBits st.oe.dst 32))) :=
          .inr ⟨st, hfind, hfib, rfl⟩
        cases hbest : s.routes.best (maskBits st.oe.dst 32) with
        | none =>
          rw [hbest] at hcached
          exact ⟨_, hcached, .inl rfl⟩
        | some sf =>
          rw [hbest] at hcached
          obtain ⟨e, he, rfl, -⟩ := (Table.best_eq_some inv.fib.distinct).mp hbest
          obtain ⟨-, f, hf, -⟩ := mem_routes.mp he
          exact (encapWith_spec (s := s.sfmcTableCache env st.oe.id (some e.ref)) hf skb
            st.oe).mono fun res h => ⟨_, hcached, h⟩
  · exact ⟨s, .inl rfl, .inl rfl⟩

end Sfmc

namespace World

variable {env : Env} {w w' : World}

theorem addRoute_outcome (inv : w.sfmc.FibInv) (fib : SwitchdevIpv4Fib)
    (created : Option Neighbour) :
    Ensures w.sfmc.fibTree.Refuses (w.addRoute fib created) fun res =>
      Outcome env w (.portObjAdd .commit (.ipv4Fib fib) created) res.2 := by
  unfold addRoute
  split_ifs with hskip
  · exact Outcome.refl env w _
  · have hlen : (fib.dstLen : ℕ) ≤ 32 := Nat.lt_succ_iff.mp fib.dstLen.isLt
    simp only [ensures_bind]
    refine (Sfmc.sfmcFibAdd_spec inv (htonl fib.dst) hlen fib.gateway fib.scope).mono ?_
    rintro ⟨sf, s⟩ h
    rcases h with ⟨heq, -⟩ | ⟨hsf, tmp, hins⟩
    · obtain ⟨rfl, rfl⟩ := Prod.mk.injEq _ _ _ _ ▸ heq
      exact .config _ Sfmc.configured_requested
    · simp only at hsf
      subst hsf
      have hready := inv.ready_create (htonl fib.dst) hlen fib.gateway fib.scope
      simp only [ensures_bind]
      have hcell := hins.cells_self hready.read
      obtain ⟨g, hg, hgw, -⟩ := hcell
      obtain ⟨w', hrun, hres⟩ := sfmcNeighResolve_spec (w := { w with sfmc := s }) hg created
      rw [hrun]
      refine .link _ _ _ s tmp w' hready hins ?_ (hgw ▸ hres)
      simp only [Event.links, if_neg hskip]
      rfl

theorem runWork_outcome (inv : w.sfmc.FibInv) (sf : Ref) (created : Option Neighbour) :
    Ensures w.sfmc.fibTree.Refuses (w.runWork sf created)
      (Outcome env w (.llNeighWork sf created)) := by
  unfold runWork
  split_ifs with hsf
  · obtain ⟨f, hready⟩ := inv.ready_queued hsf
    unfold sfmcLlNeighWork
    simp only [ensures_bind]
    rw [← hready.frame.refuses]
    refine hready.inserts.mono ?_
    rintro ⟨tmp, s⟩ hins
    obtain ⟨t, rfl⟩ := hins.exists_route
    simp only [reduceCtorEq, if_false]
    obtain ⟨g, hg, hgw, -⟩ := hins.cells_self hready.read
    obtain ⟨w', hrun, hres⟩ := sfmcNeighResolve_spec (w := { w with sfmc := s }) hg created
    rw [hrun]
    refine .link sf f _ s (some t) w' hready hins ?_ (hgw ▸ hres)
    have hf : w.sfmc.fibs.cells sf = some f := hready.read
    simp only [Event.links, if_pos hsf, hf, Option.map_some]
  · exact Outcome.refl env w _

theorem portObjDel_outcome (env : Env) (inv : w.sfmc.FibInv) (obj : SwitchdevObj) :
    ∃ res, w.sfmcPortObjDel obj = .ok res ∧ Outcome env w (.portObjDel obj) res.2 := by
  cases obj with
  | other => exact ⟨_, rfl, Outcome.refl env w _⟩
  | ipv4Fib fib =>
    have hlen : (fib.dstLen : ℕ) ≤ 32 := Nat.lt_succ_iff.mp fib.dstLen.isLt
    obtain ⟨res, hres, h⟩ := Sfmc.sfmcFibDel_spec inv (htonl fib.dst) hlen
    refine ⟨(res.1, { w with sfmc := res.2 }),
      by simp only [sfmcPortObjDel, hres, bind, Except.bind]; rfl, ?_⟩
    rcases h with ⟨-, rfl⟩ | ⟨sf, f, -, hsf, -, -, -, hdel⟩
    · exact Outcome.refl env w _
    · exact .delete sf res.2 hsf hdel

/-- Every event on a device that satisfies the invariant is one of the outcomes. The only
fault is a refused allocation. -/
theorem step_outcome (inv : w.sfmc.Inv) (e : Event) :
    Ensures w.sfmc.fibTree.Refuses (w.step env e) (Outcome env w e) := by
  cases e with
  | acquireDev vdev => exact .config _ (Sfmc.configured_acquire vdev)
  | releaseDev vdev => exact .config _ (Sfmc.configured_release vdev)
  | lltCfg oc => exact .config _ (Sfmc.configured_lltCfg oc)
  | lltEntryAdd oe => exact .config _ (Sfmc.configured_entryAdd env oe)
  | lltEntryDel oe => exact .config _ (Sfmc.configured_entryDel env oe)
  | udpCfg ou => exact .config _ (Sfmc.configured_udpCfg ou)
  | portObjAdd phase obj created =>
    unfold step sfmcPortObjAdd
    cases phase with
    | none => exact Outcome.refl env w _
    | prepare => exact Outcome.refl env w _
    | abort => exact Outcome.refl env w _
    | commit =>
      cases obj with
      | other => exact Outcome.refl env w _
      | ipv4Fib fib =>
        simp only [ensures_bind]
        exact addRoute_outcome inv.fib fib created
  | portObjDel obj =>
    obtain ⟨res, hres, h⟩ := portObjDel_outcome env inv.fib obj
    unfold step
    simp only [hres, ensures_bind, ensures_ok]
    exact h
  | llNeighWork sf created => exact runWork_outcome inv.fib sf created
  | encapPacket skb =>
    unfold step
    simp only [ensures_bind]
    apply (Sfmc.sfmcEncapPacket_spec inv skb).mono
    rintro ⟨err, skb', s⟩ ⟨s₁, hc, hq⟩
    exact .encap s₁ s hc hq
  | neighChange ip n =>
    obtain ⟨fibs, hrun, hfibs⟩ := Sfmc.sfmcNeighUpdate_spec inv.fib ip n
    unfold step
    simp only [hrun, ensures_bind, ensures_ok]
    exact .neigh ip n fibs hfibs
  | neighDrop ip => exact .drop ip

end World

end Madcap
