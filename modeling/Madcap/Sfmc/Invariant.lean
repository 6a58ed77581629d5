import Madcap.Sfmc.Outcome

/-!
# The device invariant

The FIB list, the FIB tree and the route caches stay consistent whatever the
device is asked to do, in any order.
-/

namespace Madcap

open Trie LongestPrefix

namespace Patricia

/-- A node is in the tree when it is reached from the head. -/
inductive InTree (p : Patricia) : Ref → Prop
  | head {r : Ref} (h : p.head = some r) : InTree p r
  | left {r s : Ref} {n : PatriciaNode} (h : InTree p r) (hn : p.nodes.cells r = some n)
      (hs : n.l = some s) : InTree p s
  | right {r s : Ref} {n : PatriciaNode} (h : InTree p r) (hn : p.nodes.cells r = some n)
      (hs : n.r = some s) : InTree p s

variable {p : Patricia} {key : ℕ → Key} {r s : Ref}

theorem Keyed.inTree_of_below (inv : p.Keyed key) (hr : p.InTree r) (h : p.graph.Below r s) :
    p.InTree s := by
  induction h with
  | refl => exact hr
  | @step s q d hd hp _ ih =>
    obtain ⟨m, hm, rfl⟩ := node_of_cell hd
    obtain ⟨n, hn, -⟩ := inv.parent_node hm hp
    have hchild := inv.shape.child_of_parent (graph_cell hn) (graph_cell hm) hp
    cases hb : key s n.toCell.bit with
    | false =>
      rw [hb] at hchild
      exact .left ih hn hchild
    | true =>
      rw [hb] at hchild
      exact .right ih hn hchild

/-- The nodes in memory are the nodes of the tree: none leaks and none dangles. -/
theorem Keyed.inTree_iff (inv : p.Keyed key) : p.InTree r ↔ ∃ n, p.nodes.cells r = some n := by
  constructor
  · intro h
    induction h with
    | head h =>
      obtain ⟨n, hn, -⟩ := inv.head_node h
      exact ⟨n, hn⟩
    | left _ hn hs =>
      obtain ⟨m, hm, -⟩ := inv.child_node hn (b := false) hs
      exact ⟨m, hm⟩
    | right _ hn hs =>
      obtain ⟨m, hm, -⟩ := inv.child_node hn (b := true) hs
      exact ⟨m, hm⟩
  · rintro ⟨n, hn⟩
    obtain ⟨h, hh, hb⟩ := inv.shape.below_root (graph_cell hn)
    exact inv.inTree_of_below (.head hh) hb

end Patricia

namespace Sfmc

variable {s s' : Sfmc} {sf : Ref} {f : SfmcFib}

theorem FibInv.of_table (inv : s.FibInv) (table : Fin sfmcHashSize → List SfmcTable) :
    ({ s with sfmcTable := table } : Sfmc).FibInv :=
  ⟨inv.tree, inv.listed, inv.labelled, inv.nodup, inv.queued, inv.wq_nodup⟩

theorem Configured.preserves (h : s.Configured s') (inv : s.Inv) : s'.Inv := by
  refine ⟨h.inv inv.fib, fun {n st} hst => ?_⟩
  rcases h.table hst with hst | hnone
  · rw [h.list]
    exact inv.cached hst
  · exact .inl hnone

theorem Cached.preserves {env : Env} (h : Cached env s s') (inv : s.Inv) : s'.Inv := by
  rcases h with rfl | ⟨st, hfind, -, rfl⟩
  · exact inv
  · refine ⟨inv.fib.of_table _, fun {n st'} hst' => ?_⟩
    rcases mem_sfmcTableCache hfind hst' with hst' | rfl
    · exact inv.cached hst'
    · cases hbest : s.routes.best (maskBits st.oe.dst 32) with
      | none => exact .inl rfl
      | some sf =>
        obtain ⟨e, he, rfl, -⟩ := (Table.best_eq_some inv.fib.distinct).mp hbest
        exact .inr ⟨e.ref, (mem_routes.mp he).1, rfl⟩

theorem Queued.preserves (h : s.Queued s') (inv : s.Inv) : s'.Inv := by
  rcases h with rfl | ⟨dst, rfl⟩
  · exact inv
  · exact ⟨inv.fib.queue dst (le_refl 32) dst RT_SCOPE_LINK, inv.cached⟩

theorem Deleted.preserves (h : s.Deleted sf s') (inv : s.Inv) : s'.Inv := by
  refine ⟨h.inv, fun {n st} hst => ?_⟩
  rw [h.table] at hst
  rcases mem_forgetFib hst with hnone | ⟨hst, hne⟩
  · exact .inl hnone
  · rcases inv.cached hst with hnone | ⟨sf', hsf', hsome⟩
    · exact .inl hnone
    · have hne' : sf' ≠ sf := fun heq => hne (heq ▸ hsome)
      rw [h.list]
      exact .inr ⟨sf', (inv.fib.nodup.mem_erase_iff).mpr ⟨hne', hsf'⟩, hsome⟩

theorem Inserted.mem_list {res : Option Ref × Sfmc} (h : s.Inserted sf f res) {q : Ref}
    (hq : q ∈ s.fibList) : q ∈ res.2.fibList := by
  rcases h.outcome with ⟨-, -, -, hlist, -⟩ | ⟨-, -, hlist, -⟩ <;> rw [hlist]
  · exact hq
  · exact List.mem_cons_of_mem _ hq

theorem Inserted.preserves {s₁ s₂ : Sfmc} {tmp : Option Ref} (hr : s.Ready sf f s₁)
    (h : s₁.Inserted sf f (tmp, s₂)) (inv : s.Inv) : s₂.Inv := by
  refine ⟨h.inv, fun {n st} hst => ?_⟩
  rw [h.table, hr.table] at hst
  rcases inv.cached hst with hnone | ⟨sf', hsf', hsome⟩
  · exact .inl hnone
  · exact .inr ⟨sf', h.mem_list (hr.list ▸ hsf'), hsome⟩

theorem Inv.of_neighOnly (inv : s.Inv) {fibs : Heap SfmcFib} (h : s.NeighOnly fibs) :
    ({ s with fibs := fibs } : Sfmc).Inv :=
  ⟨inv.fib.of_neighOnly h, inv.cached⟩

end Sfmc

theorem Resolved.preserves {w w' : World} {sf : Ref} {gateway : U32}
    (h : Resolved w sf gateway w') (hnw : sf ∉ w.sfmc.wq) (inv : w.sfmc.Inv) : w'.sfmc.Inv := by
  obtain ⟨fibs, heq⟩ := h.kept.sfmc
  have hneigh := h.kept.neigh hnw
  rw [heq] at hneigh ⊢
  exact inv.of_neighOnly hneigh

theorem Outcome.preserves {env : Env} {w w' : World} {e : Event} (h : Outcome env w e w')
    (inv : w.sfmc.Inv) : w'.sfmc.Inv := by
  cases h with
  | config s h => exact h.preserves inv
  | link sf f s₁ s₂ tmp w' ready inserted links resolved =>
    have hnw : sf ∉ s₂.wq := by
      rw [inserted.wq]
      exact ready.idle
    exact resolved.preserves hnw (inserted.preserves ready inv)
  | delete sf s hsf h => exact h.preserves inv
  | encap s₁ s₂ hc hq => exact hq.preserves (hc.preserves inv)
  | neigh ip n fibs h => exact inv.of_neighOnly (inv.fib.neighOnly_refreshed h)
  | drop ip => exact inv

theorem Outcome.grants {env : Env} {w w' : World} {e : Event} (h : Outcome env w e w') :
    w'.sfmc.fibTree.grants = w.sfmc.fibTree.grants := by
  cases h with
  | config s h => exact h.grants
  | link sf f s₁ s₂ tmp w' ready inserted links resolved =>
    obtain ⟨fibs, heq⟩ := resolved.kept.sfmc
    rw [heq]
    exact inserted.frame.grants.trans ready.frame.grants
  | delete sf s hsf h => exact h.frame.grants
  | encap s₁ s₂ hc hq =>
    have hc' : s₁.fibTree.grants = w.sfmc.fibTree.grants := by
      rcases hc with rfl | ⟨-, -, -, rfl⟩ <;> rfl
    rcases hq with rfl | ⟨dst, rfl⟩ <;> exact hc'
  | neigh ip n fibs h => rfl
  | drop ip => rfl

namespace World

variable {env : Env} {w w' : World}

/-- The invariant rule for runs of a device: one case per outcome. -/
theorem run_rule {P : World → Prop} {C : World → Event → Prop} (hinv : ∀ w, P w → w.sfmc.Inv)
    (hstep : ∀ w e w', P w → C w e → Outcome env w e w' → P w') (hw : P w) {es : List Event}
    (halong : Along (step env) C w es) : Ensures w.sfmc.fibTree.Refuses (w.run env es) P := by
  have hrun : Ensures w.sfmc.fibTree.Refuses (w.run env es) fun w' =>
      P w' ∧ w'.sfmc.fibTree.grants = w.sfmc.fibTree.grants := by
    apply ensures_runSteps (C := C) _ ⟨hw, rfl⟩ halong
    rintro v e ⟨hv, hg⟩ hC
    have hrefuses : v.sfmc.fibTree.Refuses = w.sfmc.fibTree.Refuses := by
      funext fault
      rw [Zone.Refuses, Zone.Refuses, hg]
    rw [← hrefuses]
    apply (step_outcome (hinv v hv) e).mono
    intro v' hout
    exact ⟨hstep v e v' hv hC hout, hout.grants.trans hg⟩
  exact hrun.mono fun _ h => h.1

theorem inv_init (permAddr : Mac) (grants : ℕ → Bool) (arp : ArpTable) :
    (init permAddr grants arp).sfmc.Inv :=
  ⟨Sfmc.fibInv_init permAddr grants, by simp [init, sfmcInit]⟩

/-- Every run keeps the invariant, and only a refused allocation stops one. -/
theorem run_inv (env : Env) (hw : w.sfmc.Inv) (es : List Event) :
    Ensures w.sfmc.fibTree.Refuses (w.run env es) fun w' => w'.sfmc.Inv :=
  run_rule (P := fun w => w.sfmc.Inv) (C := fun _ _ => True) (fun _ h => h)
    (fun _ _ _ h _ hout => hout.preserves h) hw (along_trivial w es)

end World

namespace Sfmc

variable {s s' : Sfmc} {sf : Ref} {f : SfmcFib}

/-- The tree, the list and the route caches agree. -/
structure Coherent (s : Sfmc) : Prop where
  node_of_route : ∀ sf ∈ s.fibList, ∃ f pn node pfx, s.fibs.cells sf = some f ∧ f.pn = some pn ∧
    s.fibTree.InTree pn ∧ s.fibTree.nodes.cells pn = some node ∧ node.pfx = some pfx ∧
    node.data = some sf
  route_of_node : ∀ pn node pfx, s.fibTree.InTree pn → s.fibTree.nodes.cells pn = some node →
    node.pfx = some pfx → ∃ sf ∈ s.fibList, ∃ f, node.data = some sf ∧ s.fibs.cells sf = some f ∧
      f.pn = some pn
  nodup : s.fibList.Nodup
  distinct : ∀ sf ∈ s.fibList, ∀ sf' ∈ s.fibList, ∀ f f', s.fibs.cells sf = some f →
    s.fibs.cells sf' = some f' → maskBits f.network f.len = maskBits f'.network f'.len → sf = sf'
  cached : ∀ n, ∀ st ∈ s.sfmcTable n, st.fib = none ∨ ∃ sf ∈ s.fibList, st.fib = some sf

theorem Inv.coherent (inv : s.Inv) : s.Coherent := by
  obtain ⟨key, hkey⟩ := inv.fib.tree
  refine ⟨fun sf hsf => ?_, fun pn node pfx _ hnode hpfx => ?_, inv.fib.nodup,
    fun sf hsf sf' hsf' f f' hf hf' hmask => ?_, fun n st hst => inv.cached hst⟩
  · obtain ⟨f, pn, hf, hpn, hl⟩ := inv.fib.listed hsf
    obtain ⟨node, pfx, t, hnode, hpfx, -, -, -, hdata, -⟩ := hkey.of_label hl
    exact ⟨f, pn, node, pfx, hf, hpn, hkey.inTree_iff.mpr ⟨node, hnode⟩, hnode, hpfx, hdata⟩
  · obtain ⟨t, -, -, -, -, hl⟩ := hkey.label_of_pfx hnode hpfx
    obtain ⟨sf, hsf, f, hf, hpn, heq⟩ := inv.fib.labelled hl
    exact ⟨sf, hsf, f, congrArg Label.data heq, hf, hpn⟩
  · obtain ⟨hlen, hag⟩ := maskBits_eq_iff.mp hmask
    exact inv.fib.unique hsf hsf' hf hf' hlen hag

/-- `sfmc_encap_packet` reaches its use of the route `sf` for the entry `st`. -/
structure Uses (env : Env) (s : Sfmc) (skb : SkBuff) (st : SfmcTable) (sf : Ref) : Prop where
  enabled : env.madcapEnable = true
  acquired : s.acquired skb = true
  entry : (s.sfmcTableFind env (extractIdFromPacket skb s.oc)).or (s.sfmcTableFind env 0) = some st
  route : st.fib = some sf ∨ st.fib = none ∧ s.sfmcFibFindBest st.oe.dst 32 = .ok (some sf)

variable {env : Env} {skb : SkBuff} {st : SfmcTable}

theorem Uses.mem (h : s.Uses env skb st sf) :
    s.sfmcTableFind env st.oe.id = some st ∧ st ∈ s.sfmcTable (env.hash64 st.oe.id) := by
  rcases Option.or_eq_some_iff.mp h.entry with hst | ⟨-, hst⟩
  · obtain ⟨hid, hmem⟩ := sfmcTableFind_eq_some hst
    rw [hid]
    exact ⟨hst, hmem⟩
  · obtain ⟨hid, hmem⟩ := sfmcTableFind_eq_some hst
    rw [hid]
    exact ⟨hst, hmem⟩

/-- After the cache is filled the packet goes through the route. -/
theorem Uses.encap (h : s.Uses env skb st sf) :
    ∃ s₁, (s₁ = s ∨ s₁ = s.sfmcTableCache env st.oe.id (some sf)) ∧
      s.sfmcEncapPacket env skb = s₁.encapWith skb st.oe sf := by
  unfold sfmcEncapPacket encapCached
  simp only [h.enabled, h.acquired, h.entry, Bool.and_self, if_true]
  rcases h.route with hfib | ⟨hfib, hbest⟩
  · exact ⟨s, .inl rfl, by simp only [hfib]⟩
  · exact ⟨_, .inr rfl, by simp only [hfib, hbest, bind, Except.bind]⟩

theorem Uses.listed (h : s.Uses env skb st sf) (inv : s.Inv) : sf ∈ s.fibList := by
  rcases h.route with hfib | ⟨-, hbest⟩
  · rcases inv.cached h.mem.2 with hnone | ⟨sf', hsf', hsome⟩
    · rw [hfib] at hnone
      cases hnone
    · rw [hfib] at hsome
      exact Option.some.inj hsome ▸ hsf'
  · rw [sfmcFibFindBest_eq inv.fib _ (le_refl 32)] at hbest
    obtain ⟨e, he, rfl, -⟩ := (Table.best_eq_some inv.fib.distinct).mp (Except.ok.inj hbest)
    exact (mem_routes.mp he).1

end Sfmc

/-- Whatever happens to a fresh device while allocations succeed, in any order: nothing
faults, its structures agree, and a packet only ever uses a listed route. -/
theorem World.run_coherent (env : Env) (permAddr : Mac) (arp : ArpTable) (es : List Event) :
    ∃ w, (init permAddr (fun _ => true) arp).run env es = .ok w ∧ w.sfmc.Coherent ∧
      ∀ skb st sf, w.sfmc.Uses env skb st sf → sf ∈ w.sfmc.fibList := by
  have hrun := run_inv env (inv_init permAddr (fun _ => true) arp) es
  obtain ⟨w, hw, inv⟩ := hrun.exists_ok (Sfmc.never_refuses fun _ => rfl)
  exact ⟨w, hw, inv.coherent, fun skb st sf huse => huse.listed inv⟩

end Madcap
