import Madcap.Patricia.Ownership
import Madcap.Sfmc.RouteCache

/-!
# Where the objects of the FIB go

A route is created by an insertion or for a connected destination, waits in the work
queue, is linked and is freed; its prefix is referenced by the tree and by the linked
route. An insertion that finds its prefix present drops the new route, and a removal
drops only the tree's reference to the prefix, so these two lose an object each time.
Nothing else does.
-/

namespace Madcap

open Trie LongestPrefix

theorem Patricia.InTree.head_ne_none {p : Patricia} {r : Ref} (h : p.InTree r) : p.head ≠ none := by
  induction h with
  | head h =>
    rw [h]
    exact Option.some_ne_none _
  | left _ _ _ ih => exact ih
  | right _ _ _ ih => exact ih

/-- Where a route is. -/
inductive FibPlace where
  | pending
  | linked
  | freed
  deriving DecidableEq, Repr

def SfmcFib.refs (f : SfmcFib) : Option Ref × Option Ref := (f.pn, f.pfx)

/-- The masked prefix of the route an event deletes. -/
def Event.unlinks : Event → Option (List Bool)
  | .portObjDel (.ipv4Fib fib) => some (maskBits (htonl fib.dst) fib.dstLen)
  | _ => none

/-- No prefix that the event links or deletes is listed before it. -/
def LosesNothing (w : World) (e : Event) : Prop :=
  ∀ p, e.links w = some p ∨ e.unlinks = some p → w.sfmc.routes.exact p = none

namespace Sfmc

def IsAt (s : Sfmc) (sf : Ref) : FibPlace → Prop
  | .pending => sf ∈ s.wq
  | .linked => sf ∈ s.fibList
  | .freed => s.fibs.cells sf = none

/-- A node of the tree or a linked route refers to the prefix. -/
def Referenced (s : Sfmc) (q : Ref) : Prop :=
  (∃ r n, s.fibTree.InTree r ∧ s.fibTree.nodes.cells r = some n ∧ n.pfx = some q) ∨
    ∃ sf ∈ s.fibList, ∃ f, s.fibs.cells sf = some f ∧ f.pfx = some q

/-- Every route that was ever allocated is in one place, and a prefix that nothing refers
to is freed. -/
structure Conserved (s : Sfmc) : Prop where
  routes : ∀ sf < s.fibs.next, ∃! place, s.IsAt sf place
  prefixes : ∀ q, ¬ s.Referenced q → s.fibTree.prefixes.cells q = none

/-- A linked route refers to the prefix its node carries. -/
def Backed (s : Sfmc) : Prop :=
  ∀ sf ∈ s.fibList, ∀ f, s.fibs.cells sf = some f → f.pn.bind s.fibTree.owned = f.pfx

/-- Every allocated route is queued, linked or in the hands of the running function, and
every allocated prefix is carried by a node. -/
structure Accounted (s : Sfmc) (hands : List Ref) : Prop where
  routes : ∀ sf, s.fibs.cells sf ≠ none → sf ∈ hands ∨ sf ∈ s.wq ∨ sf ∈ s.fibList
  prefixes : ∀ q, s.fibTree.prefixes.cells q ≠ none → ∃ r, s.fibTree.owned r = some q

variable {s s' : Sfmc} {sf sf' : Ref} {f : SfmcFib} {hands : List Ref}

theorem FibInv.isAt_unique (inv : s.FibInv) {place place' : FibPlace} (h : s.IsAt sf place)
    (h' : s.IsAt sf place') : place = place' := by
  have hqueued : sf ∈ s.wq → sf ∉ s.fibList ∧ s.fibs.cells sf ≠ none := by
    intro hq
    obtain ⟨hnl, f, hf, -⟩ := inv.queued hq
    exact ⟨hnl, by rw [hf]; exact Option.some_ne_none f⟩
  have hlisted : sf ∈ s.fibList → s.fibs.cells sf ≠ none := by
    intro hl
    obtain ⟨f, -, hf, -⟩ := inv.listed hl
    rw [hf]
    exact Option.some_ne_none f
  cases place <;> cases place'
  · rfl
  · exact absurd h' (hqueued h).1
  · exact absurd h' (hqueued h).2
  · exact absurd h (hqueued h').1
  · rfl
  · exact absurd h' (hlisted h)
  · exact absurd h (hqueued h').2
  · exact absurd h (hlisted h')
  · rfl

theorem Backed.referenced_iff (h : s.Backed) (inv : s.FibInv) {q : Ref} :
    s.Referenced q ↔ ∃ r, s.fibTree.owned r = some q := by
  obtain ⟨key, hkey⟩ := inv.tree
  constructor
  · rintro (⟨r, n, -, hn, hq⟩ | ⟨sf, hsf, f, hf, hq⟩)
    · exact ⟨r, by rw [Patricia.owned, hn]; exact hq⟩
    · have hback := h sf hsf f hf
      rw [hq, Option.bind_eq_some_iff] at hback
      obtain ⟨r, -, hr⟩ := hback
      exact ⟨r, hr⟩
  · rintro ⟨r, hr⟩
    obtain ⟨n, hn, hq⟩ := Option.bind_eq_some_iff.mp hr
    exact .inl ⟨r, n, hkey.inTree_iff.mpr ⟨n, hn⟩, hn, hq⟩

theorem Backed.conserved_iff (h : s.Backed) (inv : s.FibInv) :
    s.Conserved ↔ s.Accounted [] := by
  constructor
  · intro hc
    refine ⟨fun sf hsf => .inr ?_, fun q hq => ?_⟩
    · obtain ⟨f, hf⟩ := Option.ne_none_iff_exists'.mp hsf
      obtain ⟨place, hplace, -⟩ := hc.routes sf (Heap.lt_next hf)
      cases place with
      | pending => exact .inl hplace
      | linked => exact .inr hplace
      | freed => exact absurd hplace hsf
    · by_contra hnone
      exact hq (hc.prefixes q fun href => hnone ((h.referenced_iff inv).mp href))
  · intro ha
    refine ⟨fun sf _ => ?_, fun q hq => ?_⟩
    · have hplace : ∃ place, s.IsAt sf place := by
        by_cases hfree : s.fibs.cells sf = none
        · exact ⟨.freed, hfree⟩
        · rcases ha.routes sf hfree with hnil | hq | hl
          · exact absurd hnil List.not_mem_nil
          · exact ⟨.pending, hq⟩
          · exact ⟨.linked, hl⟩
      obtain ⟨place, hplace⟩ := hplace
      exact ⟨place, hplace, fun place' h' => inv.isAt_unique h' hplace⟩
    · by_contra hcell
      exact hq ((h.referenced_iff inv).mpr (ha.prefixes q hcell))

/-- Nothing is allocated, linked or freed, and every reference is where it was. -/
structure Settled (s s' : Sfmc) : Prop where
  owned : s'.fibTree.owned = s.fibTree.owned
  prefixes : s'.fibTree.prefixes.cells = s.fibTree.prefixes.cells
  list : s'.fibList = s.fibList
  wq : s'.wq = s.wq
  refs : ∀ sf, (s'.fibs.cells sf).map SfmcFib.refs = (s.fibs.cells sf).map SfmcFib.refs

theorem Settled.refl (s : Sfmc) : s.Settled s := ⟨rfl, rfl, rfl, rfl, fun _ => rfl⟩

theorem Settled.backed (h : s.Settled s') (hb : s.Backed) : s'.Backed := by
  intro sf hsf f' hf'
  rw [h.list] at hsf
  have hrefs := h.refs sf
  rw [hf', Option.map_some] at hrefs
  obtain ⟨f, hf, heq⟩ := Option.map_eq_some_iff.mp hrefs.symm
  obtain ⟨hpn, hpfx⟩ := Prod.mk.inj heq
  rw [h.owned, ← hpn, ← hpfx]
  exact hb sf hsf f hf

theorem Settled.accounted_iff (h : s.Settled s') : s'.Accounted hands ↔ s.Accounted hands := by
  have hlive : ∀ sf, s'.fibs.cells sf ≠ none ↔ s.fibs.cells sf ≠ none := by
    intro sf
    have hrefs := congrArg Option.isSome (h.refs sf)
    rw [Option.isSome_map, Option.isSome_map] at hrefs
    rw [← Option.isSome_iff_ne_none, ← Option.isSome_iff_ne_none, hrefs]
  constructor
  · intro ha
    refine ⟨fun sf hsf => ?_, fun q hq => ?_⟩
    · rw [← h.wq, ← h.list]
      exact ha.routes sf ((hlive sf).mpr hsf)
    · rw [← h.owned]
      exact ha.prefixes q (by rwa [h.prefixes])
  · intro ha
    refine ⟨fun sf hsf => ?_, fun q hq => ?_⟩
    · rw [h.wq, h.list]
      exact ha.routes sf ((hlive sf).mp hsf)
    · rw [h.owned]
      exact ha.prefixes q (by rwa [h.prefixes] at hq)

/-- After a step of the device its routes are backed, and the books balance exactly when
the step loses nothing. -/
def Balances (s' : Sfmc) (C : Prop) : Prop := s'.Backed ∧ (s'.Accounted [] ↔ C)

theorem Settled.balances {C : Prop} (h : s.Settled s') (hb : s.Backed) (ha : s.Accounted [])
    (hC : C) : s'.Balances C :=
  ⟨h.backed hb, fun _ => hC, fun _ => h.accounted_iff.mpr ha⟩

theorem Settled.balances_of {C : Prop} (h : s.Settled s') (hs : s.Balances C) : s'.Balances C :=
  ⟨h.backed hs.1, h.accounted_iff.trans hs.2⟩

theorem created_accounted (hb : s.Backed) (ha : s.Accounted []) (inv : s.FibInv) (f : SfmcFib) :
    (s.created f).Backed ∧ (s.created f).Accounted [s.fibs.next] := by
  refine ⟨fun sf hsf g hg => ?_, fun sf hsf => ?_, ha.prefixes⟩
  · obtain ⟨f', -, hf', -⟩ := inv.listed hsf
    have hne : sf ≠ s.fibs.next := Nat.ne_of_lt (Heap.lt_next hf')
    have hcell : (s.fibs.alloc f).cells sf = some g := hg
    rw [Heap.alloc_cells, if_neg hne] at hcell
    exact hb sf hsf g hcell
  · by_cases hne : sf = s.fibs.next
    · exact .inl (List.mem_singleton.mpr hne)
    · have hcell : (s.fibs.alloc f).cells sf ≠ none := hsf
      rw [Heap.alloc_cells, if_neg hne] at hcell
      exact .inr ((ha.routes sf hcell).resolve_left List.not_mem_nil)

theorem Queued.balances (h : s.Queued s') (hb : s.Backed) (ha : s.Accounted []) (inv : s.FibInv)
    {C : Prop} (hC : C) : s'.Balances C := by
  rcases h with rfl | ⟨dst, rfl⟩
  · exact (Settled.refl s').balances hb ha hC
  · obtain ⟨hback, hacc⟩ := created_accounted hb ha inv (blankFib dst 32 dst RT_SCOPE_LINK)
    refine ⟨hback, fun _ => hC, fun _ => ⟨fun sf hsf => .inr ?_, hacc.prefixes⟩⟩
    rcases hacc.routes sf hsf with hnew | hq | hl
    · exact .inl (List.mem_append_right _ hnew)
    · exact .inl (List.mem_append_left _ hq)
    · exact .inr hl

theorem settled_requested (s : Sfmc) : s.Settled s.requested := ⟨rfl, rfl, rfl, rfl, fun _ => rfl⟩

theorem settled_table (s : Sfmc) (table : Fin sfmcHashSize → List SfmcTable) :
    s.Settled { s with sfmcTable := table } := ⟨rfl, rfl, rfl, rfl, fun _ => rfl⟩

theorem settled_acquire (s : Sfmc) (vdev : NetDev) : s.Settled (s.sfmcAcquireDev vdev).2 := by
  unfold sfmcAcquireDev
  split_ifs
  · exact .refl s
  · split
    · exact ⟨rfl, rfl, rfl, rfl, fun _ => rfl⟩
    · exact .refl s

theorem settled_release (s : Sfmc) (vdev : NetDev) : s.Settled (s.sfmcReleaseDev vdev).2 := by
  unfold sfmcReleaseDev
  split
  · exact ⟨rfl, rfl, rfl, rfl, fun _ => rfl⟩
  · exact .refl s

theorem settled_lltCfg (s : Sfmc) (oc : ObjConfig) : s.Settled (s.sfmcLltCfg oc).2 := by
  unfold sfmcLltCfg
  split_ifs
  · exact ⟨rfl, rfl, rfl, rfl, fun _ => rfl⟩
  · exact .refl s

theorem settled_entryAdd (env : Env) (s : Sfmc) (oe : ObjEntry) :
    s.Settled (s.sfmcLltEntryAdd env oe).2 := by
  unfold sfmcLltEntryAdd
  rw [kmalloc_eq]
  split
  · exact .refl s
  · cases s.fibTree.grants s.fibTree.requests with
    | false => exact settled_requested s
    | true => exact ⟨rfl, rfl, rfl, rfl, fun _ => rfl⟩

theorem settled_entryDel (env : Env) (s : Sfmc) (oe : ObjEntry) :
    s.Settled (s.sfmcLltEntryDel env oe).2 := by
  unfold sfmcLltEntryDel
  split
  · exact .refl s
  · exact settled_table s _

theorem settled_udpCfg (s : Sfmc) (ou : ObjUdp) : s.Settled (s.sfmcUdpCfg ou).2 :=
  ⟨rfl, rfl, rfl, rfl, fun _ => rfl⟩

theorem settled_refreshed {ip : U32} {n : Neighbour} {list : List Ref} {fibs : Heap SfmcFib}
    (h : Refreshed ip n list s.fibs fibs) : s.Settled { s with fibs := fibs } := by
  refine ⟨rfl, rfl, rfl, rfl, fun sf => ?_⟩
  dsimp only
  rw [h sf]
  split_ifs
  · cases s.fibs.cells sf with
    | none => rfl
    | some f =>
      simp only [Option.map_some, SfmcFib.refresh, SfmcFib.refs]
      split_ifs <;> rfl
  · rfl

/-- What an insertion does to the references: the prefix was present and nothing changed,
or a new prefix went to a node and to the route. -/
inductive Places (s : Sfmc) (sf : Ref) (s' : Sfmc) : Prop
  | present (owned : s'.fibTree.owned = s.fibTree.owned)
      (prefixes : s'.fibTree.prefixes.cells = s.fibTree.prefixes.cells)
      (list : s'.fibList = s.fibList) (fibs : s'.fibs = s.fibs)
  | linked (r q : Ref) (bare : s.fibTree.owned r = none)
      (owned : s'.fibTree.owned = Function.update s.fibTree.owned r (some q))
      (prefixes : ∀ q' ≠ q, s'.fibTree.prefixes.cells q' = s.fibTree.prefixes.cells q')
      (list : s'.fibList = sf :: s.fibList)
      (fibs : s'.fibs = s.fibs.modify sf fun f => { f with pn := some r, pfx := some q })

theorem sfmcFibInsert_places (inv : s.FibInv) (hf : s.fibs.cells sf = some f) (hlen : f.len ≤ 32)
    {res : Option Ref × Sfmc} (h : s.sfmcFibInsert sf = .ok res) : s.Places sf res.2 := by
  obtain ⟨q, tree₁, r, tree₂, node, h⟩ := sfmcFibInsert_stages inv hf hlen h
  have hcells₁ : ∀ q' ≠ q, tree₁.prefixes.cells q' = s.fibTree.prefixes.cells q' := by
    intro q' hne
    rw [h.tree]
    dsimp only
    rw [Heap.alloc_cells, if_neg (h.fresh ▸ hne)]
  have howned₁ : tree₁.owned = s.fibTree.owned := by
    rw [h.tree]
    rfl
  rcases (Patricia.patriciaLookup_spec h.inv h.insertable).of_eq_ok h.lookup with
    ⟨hsame, l, hl, -⟩ | hnew
  · dsimp only at hsame hl
    subst hsame
    obtain ⟨n, hn, hdata⟩ := Patricia.read_label h.inv hl
    rw [h.label] at hl
    obtain ⟨sf₀, -, f₀, -, -, rfl⟩ := inv.labelled hl
    obtain rfl := Except.ok.inj (hn.symm.trans h.read)
    rcases h.outcome with ⟨data, -, rfl⟩ | ⟨hnone, -⟩
    · refine .present howned₁ (funext fun q' => ?_) rfl rfl
      change (tree₂.prefixes.free q).cells q' = _
      rw [Heap.free_cells]
      split_ifs with hqq
      · rw [hqq, h.fresh, Heap.cells_next]
      · exact hcells₁ q' hqq
    · rw [hdata] at hnone
      cases hnone
  · have hand := Patricia.patriciaLookup_handles h.insertable.read h.insertable.counted h.lookup
    obtain ⟨hbare, howned⟩ := hnew.owned h.inv hand
    obtain ⟨hinv₂, -, -, hl₂⟩ := hnew
    dsimp only at hand hbare howned hl₂
    have hself : tree₂.label r = some { add := f.network, bitlen := f.len, data := none } := by
      rw [hl₂, Function.update_self]
      rfl
    obtain ⟨n, hn, hdata⟩ := Patricia.read_label hinv₂ hself
    obtain rfl := Except.ok.inj (hn.symm.trans h.read)
    rcases h.outcome with ⟨data, hsome, -⟩ | ⟨-, tree₃, h₃, rfl⟩
    · rw [hdata] at hsome
      cases hsome
    · refine .linked r q ?_ ?_ (fun q' hne => ?_) rfl rfl
      · rw [← howned₁]
        exact hbare
      · change tree₃.owned = _
        rw [Patricia.setNode_owned_eq h₃ fun _ => rfl, howned, howned₁]
      · change tree₃.prefixes.cells q' = _
        rw [Patricia.setNode_eq_ok h₃]
        exact (hand.prefixes q' hne).trans (hcells₁ q' hne)

/-- A node that carries no prefix is not the node of a listed route. -/
theorem FibInv.owned_listed (inv : s.FibInv) (hsf : sf ∈ s.fibList)
    (hf : s.fibs.cells sf = some f) : ∃ r q, f.pn = some r ∧ s.fibTree.owned r = some q ∧
      s.fibTree.label r = some { add := f.network, bitlen := f.len, data := some sf } := by
  obtain ⟨g, r, hg, hr, hl⟩ := inv.listed hsf
  obtain rfl : f = g := by simpa [hf] using hg
  obtain ⟨key, hkey⟩ := inv.tree
  have hsome := hkey.owned_isSome r
  rw [hl, Option.isSome_some] at hsome
  obtain ⟨q, hq⟩ := Option.isSome_iff_exists.mp hsome
  exact ⟨r, q, hr, hq, hl⟩

/-- An insertion of a route at hand loses it exactly when its prefix is listed. -/
theorem Inserted.balances {res : Option Ref × Sfmc} (hins : s.Inserted sf f res)
    (h : s.Places sf res.2) (inv : s.FibInv) (hf : s.fibs.cells sf = some f)
    (hnl : sf ∉ s.fibList) (hnw : sf ∉ s.wq) (hb : s.Backed) (ha : s.Accounted [sf]) :
    res.2.Balances (s.routes.exact (maskBits f.network f.len) = none) := by
  cases h with
  | present owned prefixes list fibs =>
    have hsettled : s.Settled res.2 := ⟨owned, prefixes, list, hins.wq, fun sf' => by rw [fibs]⟩
    refine ⟨hsettled.backed hb, fun hacc => ?_, fun hnone => ?_⟩
    · have hcell : res.2.fibs.cells sf ≠ none := by
        rw [fibs, hf]
        exact Option.some_ne_none f
      rcases hacc.routes sf hcell with hnil | hq | hl
      · exact absurd hnil List.not_mem_nil
      · exact absurd (hins.wq ▸ hq) hnw
      · exact absurd (list ▸ hl) hnl
    · rcases hins.outcome with ⟨sf₀, -, hsome, -⟩ | ⟨-, -, hlist, -⟩
      · rw [hnone] at hsome
        cases hsome
      · rw [list] at hlist
        exact absurd (congrArg List.length hlist) (by simp)
  | linked r q bare owned prefixes list fibs =>
    have hnone : s.routes.exact (maskBits f.network f.len) = none := by
      rcases hins.outcome with ⟨-, -, -, hlist, -⟩ | ⟨-, hnone, -⟩
      · rw [list] at hlist
        exact absurd (congrArg List.length hlist) (by simp)
      · exact hnone
    refine ⟨fun sf' hsf' g hg => ?_, fun _ => hnone, fun _ => ⟨fun sf' hsf' => ?_, fun q' hq' => ?_⟩⟩
    · rw [fibs, Heap.modify_cells] at hg
      rw [list] at hsf'
      rw [owned]
      by_cases hne : sf' = sf
      · rw [if_pos hne, hne, hf] at hg
        obtain rfl := Option.some.inj hg
        change Function.update s.fibTree.owned r (some q) r = some q
        rw [Function.update_self]
      · rw [if_neg hne] at hg
        have hlisted := (List.mem_cons.mp hsf').resolve_left hne
        obtain ⟨r', q', hr', hq', -⟩ := inv.owned_listed hlisted hg
        have hrr : r' ≠ r := by
          rintro rfl
          rw [bare] at hq'
          cases hq'
        have hback := hb sf' hlisted g hg
        rw [hr'] at hback ⊢
        rw [← hback]
        exact Function.update_of_ne hrr _ _
    · rw [list, hins.wq]
      have hcell : s.fibs.cells sf' ≠ none := by
        rw [fibs, Heap.modify_cells] at hsf'
        split_ifs at hsf'
        · exact fun hnone => hsf' (by rw [hnone]; rfl)
        · exact hsf'
      rcases ha.routes sf' hcell with hnew | hq | hl
      · exact .inr (.inr (List.mem_cons.mpr (.inl (List.mem_singleton.mp hnew))))
      · exact .inr (.inl hq)
      · exact .inr (.inr (List.mem_cons_of_mem _ hl))
    · rw [owned]
      by_cases hqq : q' = q
      · exact ⟨r, by rw [Function.update_self, hqq]⟩
      · rw [prefixes q' hqq] at hq'
        obtain ⟨r', hr'⟩ := ha.prefixes q' hq'
        have hrr : r' ≠ r := by
          rintro rfl
          rw [bare] at hr'
          cases hr'
        exact ⟨r', by rw [Function.update_of_ne hrr, hr']⟩

/-- A deletion leaves the prefix of its route allocated with nothing that refers to it. -/
theorem sfmcFibDelete_loses (inv : s.FibInv) (hsf : sf ∈ s.fibList) (hb : s.Backed)
    (h : s.sfmcFibDelete sf = .ok s') : s'.Backed ∧ ¬ s'.Accounted [] := by
  obtain ⟨t, ht, hdel⟩ := sfmcFibDelete_spec inv hsf
  obtain rfl := Except.ok.inj (ht.symm.trans h)
  obtain ⟨f, -, hf, -⟩ := inv.listed hsf
  obtain ⟨r, q, hr, hq, hl⟩ := inv.owned_listed hsf hf
  unfold sfmcFibDelete at h
  rw [Heap.read_eq hf] at h
  obtain ⟨f', hf', h⟩ := bind_eq_ok.mp h
  obtain rfl := Except.ok.inj hf'
  simp only [hr] at h
  obtain ⟨tree, htree, h⟩ := bind_eq_ok.mp h
  obtain ⟨tree', htree', hrem⟩ := Patricia.patriciaRemove_spec inv.tree hl
  obtain rfl := Except.ok.inj (htree.symm.trans htree')
  obtain ⟨key, hkey⟩ := inv.tree
  obtain ⟨n, q', u, hn, hnq, hu, -, -, -, -, hcount, -⟩ := hkey.of_label hl
  obtain rfl : q' = q := by
    have heq : s.fibTree.owned r = some q' := by rw [Patricia.owned, hn]; exact hnq
    exact Option.some.inj (heq.symm.trans hq)
  have hand := Patricia.patriciaRemove_handles hn hnq hu hcount htree
  have howned := hrem.owned ⟨key, hkey⟩ hand
  obtain rfl := Except.ok.inj h
  constructor
  · intro sf' hsf' g hg
    obtain ⟨hne, hlisted⟩ := inv.nodup.mem_erase_iff.mp hsf'
    have hcell : (s.fibs.free sf).cells sf' = some g := hg
    rw [Heap.free_cells, if_neg hne] at hcell
    obtain ⟨r', -, hr', -, hl'⟩ := inv.owned_listed hlisted hcell
    have hrr : r' ≠ r := by
      rintro rfl
      have hdata := congrArg Label.data (Option.some.inj (hl.symm.trans hl'))
      exact hne (Option.some.inj hdata).symm
    have hback := hb sf' hlisted g hcell
    rw [hr'] at hback ⊢
    rw [← hback]
    change tree.owned r' = _
    rw [howned, Function.update_of_ne hrr]
    rfl
  · intro hacc
    have halive : tree.prefixes.cells q' ≠ none := hand.alive (by rw [hu]; exact Option.some_ne_none u)
    obtain ⟨r', hr'⟩ := hacc.prefixes q' halive
    change tree.owned r' = some q' at hr'
    rw [howned] at hr'
    by_cases hrr : r' = r
    · rw [hrr, Function.update_self] at hr'
      cases hr'
    · rw [Function.update_of_ne hrr] at hr'
      exact hrr (hkey.owned_inj hr' hq)

end Sfmc

theorem Resolved.settled {w w' : World} {sf : Ref} {gateway : U32}
    (h : Resolved w sf gateway w') : w.sfmc.Settled w'.sfmc := by
  cases h with
  | missing => exact .refl _
  | pending => exact .refl _
  | known n =>
    refine ⟨rfl, rfl, rfl, rfl, fun q => ?_⟩
    dsimp only
    rw [Heap.modify_cells]
    split_ifs
    · cases w.sfmc.fibs.cells q <;> rfl
    · rfl

namespace World

variable {env : Env} {w w' : World} {sf : Ref} {f : SfmcFib}

theorem link_balances {s₁ s₂ : Sfmc} {tmp created : _} (hr : w.sfmc.Ready sf f s₁)
    (hb : s₁.Backed) (ha : s₁.Accounted [sf]) (hins : s₁.sfmcFibInsert sf = .ok (tmp, s₂))
    (hres : World.sfmcNeighResolve { w with sfmc := s₂ } sf created = .ok w') :
    w'.sfmc.Balances (w.sfmc.routes.exact (maskBits f.network f.len) = none) := by
  have hin := hr.inserts.of_eq_ok hins
  have hplaces := Sfmc.sfmcFibInsert_places hr.inv hr.read hr.len_le hins
  have hbal := hin.balances hplaces hr.inv hr.read (hr.list ▸ hr.fresh) hr.idle hb ha
  rw [hr.routes] at hbal
  obtain ⟨g, hg, -⟩ := hin.cells_self hr.read
  obtain ⟨w₁, hw₁, hresolved⟩ := sfmcNeighResolve_spec (w := ⟨s₂, w.arp⟩) hg created
  obtain rfl := Except.ok.inj (hw₁.symm.trans hres)
  exact hresolved.settled.balances_of hbal

theorem losesNothing_of_none {e : Event} (hl : e.links w = none) (hu : e.unlinks = none) :
    LosesNothing w e := by
  rintro p (hp | hp)
  · rw [hl] at hp
    cases hp
  · rw [hu] at hp
    cases hp

theorem losesNothing_links {e : Event} {p : List Bool} (hl : e.links w = some p)
    (hu : e.unlinks = none) : LosesNothing w e ↔ w.sfmc.routes.exact p = none := by
  constructor
  · intro h
    exact h p (.inl hl)
  · rintro h p' (hp | hp)
    · obtain rfl := Option.some.inj (hl.symm.trans hp)
      exact h
    · rw [hu] at hp
      cases hp

theorem addRoute_balances {fib : SwitchdevIpv4Fib} {created : Option Neighbour} {res : ℤ × World}
    (inv : w.sfmc.FibInv) (hb : w.sfmc.Backed) (ha : w.sfmc.Accounted [])
    (hg : ∀ i, w.sfmc.fibTree.grants i = true) (h : w.addRoute fib created = .ok res) :
    res.2.sfmc.Balances (LosesNothing w (.portObjAdd .commit (.ipv4Fib fib) created)) := by
  unfold addRoute at h
  split_ifs at h with hskip
  · obtain rfl := Except.ok.inj h
    refine (Sfmc.Settled.refl _).balances hb ha (losesNothing_of_none ?_ rfl)
    simp only [Event.links, if_pos hskip]
  · have hlinks : Event.links w (.portObjAdd .commit (.ipv4Fib fib) created) =
        some (maskBits (htonl fib.dst) fib.dstLen) := by
      simp only [Event.links, if_neg hskip]
    have hlen : (fib.dstLen : ℕ) ≤ 32 := Nat.lt_succ_iff.mp fib.dstLen.isLt
    obtain ⟨⟨sf, s⟩, hadd, h⟩ := bind_eq_ok.mp h
    unfold Sfmc.sfmcFibAdd at hadd
    rw [Sfmc.sfmcFibCreate_ok (hg _)] at hadd
    obtain ⟨⟨tmp, s₂⟩, hins, hadd⟩ := bind_eq_ok.mp hadd
    have hready := inv.ready_create (htonl fib.dst) hlen fib.gateway fib.scope
    obtain ⟨hb₁, ha₁⟩ := Sfmc.created_accounted hb ha inv
      (Sfmc.blankFib (htonl fib.dst) fib.dstLen fib.gateway fib.scope)
    obtain ⟨t, rfl⟩ := (hready.inserts.of_eq_ok hins).exists_route
    obtain ⟨rfl, rfl⟩ := ok_pair_inj hadd
    obtain ⟨w₂, hres, h⟩ := bind_eq_ok.mp h
    obtain rfl := Except.ok.inj h
    have hbal := link_balances hready hb₁ ha₁ hins hres
    exact ⟨hbal.1, hbal.2.trans (losesNothing_links hlinks rfl).symm⟩

theorem runWork_balances {created : Option Neighbour} (inv : w.sfmc.FibInv) (hb : w.sfmc.Backed)
    (ha : w.sfmc.Accounted []) (h : w.runWork sf created = .ok w') :
    w'.sfmc.Balances (LosesNothing w (.llNeighWork sf created)) := by
  unfold runWork at h
  split_ifs at h with hsf
  · obtain ⟨f, hready⟩ := inv.ready_queued hsf
    have hf : w.sfmc.fibs.cells sf = some f := hready.read
    have hlinks : Event.links w (.llNeighWork sf created) = some (maskBits f.network f.len) := by
      simp only [Event.links, if_pos hsf, hf, Option.map_some]
    obtain ⟨⟨tmp, s₂⟩, hins, hres⟩ := bind_eq_ok.mp h
    obtain ⟨t, rfl⟩ := (hready.inserts.of_eq_ok hins).exists_route
    simp only [reduceCtorEq, if_false] at hres
    have ha₁ : ({ w.sfmc with wq := w.sfmc.wq.erase sf } : Sfmc).Accounted [sf] := by
      refine ⟨fun sf' hsf' => ?_, ha.prefixes⟩
      by_cases hne : sf' = sf
      · exact .inl (List.mem_singleton.mpr hne)
      · rcases (ha.routes sf' hsf').resolve_left List.not_mem_nil with hq | hl
        · exact .inr (.inl ((List.mem_erase_of_ne hne).mpr hq))
        · exact .inr (.inr hl)
    have hbal := link_balances hready hb ha₁ hins hres
    exact ⟨hbal.1, hbal.2.trans (losesNothing_links hlinks rfl).symm⟩
  · obtain rfl := Except.ok.inj h
    refine (Sfmc.Settled.refl _).balances hb ha (losesNothing_of_none ?_ rfl)
    simp only [Event.links, if_neg hsf]

theorem portObjDel_balances {obj : SwitchdevObj} {res : ℤ × World} (inv : w.sfmc.FibInv)
    (hb : w.sfmc.Backed) (ha : w.sfmc.Accounted []) (h : w.sfmcPortObjDel obj = .ok res) :
    res.2.sfmc.Balances (LosesNothing w (.portObjDel obj)) := by
  cases obj with
  | other =>
    obtain rfl := Except.ok.inj h
    exact (Sfmc.Settled.refl _).balances hb ha (losesNothing_of_none rfl rfl)
  | ipv4Fib fib =>
    have hlen : (fib.dstLen : ℕ) ≤ 32 := Nat.lt_succ_iff.mp fib.dstLen.isLt
    have hfind := Sfmc.sfmcFibFindExact_eq inv (htonl fib.dst) hlen
    obtain ⟨⟨err, s⟩, hdel, h⟩ := bind_eq_ok.mp h
    obtain rfl := Except.ok.inj h
    unfold Sfmc.sfmcFibDel at hdel
    rw [hfind] at hdel
    obtain ⟨sf, hex, hdel⟩ := bind_eq_ok.mp hdel
    obtain rfl := Except.ok.inj hex
    cases hsf : w.sfmc.routes.exact (maskBits (htonl fib.dst) fib.dstLen) with
    | none =>
      simp only [hsf] at hdel
      obtain ⟨-, rfl⟩ := ok_pair_inj hdel
      refine (Sfmc.Settled.refl _).balances hb ha ?_
      rintro p (hp | hp)
      · cases hp
      · obtain rfl := Option.some.inj hp
        exact hsf
    | some sf =>
      simp only [hsf] at hdel
      obtain ⟨s', hdelete, hdel⟩ := bind_eq_ok.mp hdel
      obtain ⟨-, rfl⟩ := ok_pair_inj hdel
      obtain ⟨e, he, rfl, -⟩ := (Table.exact_eq_some inv.distinct).mp hsf
      obtain ⟨hback, hlost⟩ := Sfmc.sfmcFibDelete_loses inv (Sfmc.mem_routes.mp he).1 hb hdelete
      refine ⟨hback, fun hacc => absurd hacc hlost, fun hC => ?_⟩
      rw [hC _ (.inr rfl)] at hsf
      cases hsf

/-- What one event does to the books. -/
theorem step_balances {e : Event} (inv : w.sfmc.Inv) (hb : w.sfmc.Backed)
    (ha : w.sfmc.Accounted []) (hg : ∀ i, w.sfmc.fibTree.grants i = true)
    (h : w.step env e = .ok w') : w'.sfmc.Balances (LosesNothing w e) := by
  cases e with
  | acquireDev vdev =>
    obtain rfl := Except.ok.inj h
    exact (Sfmc.settled_acquire _ vdev).balances hb ha (losesNothing_of_none rfl rfl)
  | releaseDev vdev =>
    obtain rfl := Except.ok.inj h
    exact (Sfmc.settled_release _ vdev).balances hb ha (losesNothing_of_none rfl rfl)
  | lltCfg oc =>
    obtain rfl := Except.ok.inj h
    exact (Sfmc.settled_lltCfg _ oc).balances hb ha (losesNothing_of_none rfl rfl)
  | lltEntryAdd oe =>
    obtain rfl := Except.ok.inj h
    exact (Sfmc.settled_entryAdd env _ oe).balances hb ha (losesNothing_of_none rfl rfl)
  | lltEntryDel oe =>
    obtain rfl := Except.ok.inj h
    exact (Sfmc.settled_entryDel env _ oe).balances hb ha (losesNothing_of_none rfl rfl)
  | udpCfg ou =>
    obtain rfl := Except.ok.inj h
    exact (Sfmc.settled_udpCfg _ ou).balances hb ha (losesNothing_of_none rfl rfl)
  | portObjAdd phase obj created =>
    obtain ⟨⟨err, w₁⟩, h₁, h⟩ := bind_eq_ok.mp h
    obtain rfl := Except.ok.inj h
    have hsame : w₁ = w → Event.links w (.portObjAdd phase obj created) = none →
        w₁.sfmc.Balances (LosesNothing w (.portObjAdd phase obj created)) := by
      rintro rfl hlinks
      exact (Sfmc.Settled.refl _).balances hb ha (losesNothing_of_none hlinks rfl)
    cases phase with
    | none => exact hsame (ok_pair_inj h₁).2.symm rfl
    | prepare => exact hsame (ok_pair_inj h₁).2.symm rfl
    | abort => exact hsame (ok_pair_inj h₁).2.symm rfl
    | commit =>
      cases obj with
      | other => exact hsame (ok_pair_inj h₁).2.symm rfl
      | ipv4Fib fib => exact addRoute_balances inv.fib hb ha hg h₁
  | portObjDel obj =>
    obtain ⟨⟨err, w₁⟩, h₁, h⟩ := bind_eq_ok.mp h
    obtain rfl := Except.ok.inj h
    exact portObjDel_balances inv.fib hb ha h₁
  | llNeighWork sf created => exact runWork_balances inv.fib hb ha h
  | encapPacket skb =>
    obtain ⟨⟨err, skb', s⟩, h₁, h⟩ := bind_eq_ok.mp h
    obtain rfl := Except.ok.inj h
    obtain ⟨s₁, hc, hq⟩ := (Sfmc.sfmcEncapPacket_spec inv skb).of_eq_ok h₁
    have hsettled : w.sfmc.Settled s₁ := by
      rcases hc with rfl | ⟨st, -, -, rfl⟩
      · exact .refl _
      · exact Sfmc.settled_table _ _
    exact hq.balances (hsettled.backed hb) (hsettled.accounted_iff.mpr ha) (hc.preserves inv).fib
      (losesNothing_of_none rfl rfl)
  | neighChange ip n =>
    obtain ⟨fibs, hrun, hfibs⟩ := Sfmc.sfmcNeighUpdate_spec inv.fib ip n
    obtain ⟨s₁, h₁, h⟩ := bind_eq_ok.mp h
    obtain rfl := Except.ok.inj h
    obtain rfl := Except.ok.inj (hrun.symm.trans h₁)
    exact (Sfmc.settled_refreshed hfibs).balances hb ha (losesNothing_of_none rfl rfl)
  | neighDrop ip =>
    obtain rfl := Except.ok.inj h
    exact (Sfmc.Settled.refl _).balances hb ha (losesNothing_of_none rfl rfl)

theorem accounted_init (permAddr : Mac) (grants : ℕ → Bool) (arp : ArpTable) :
    (init permAddr grants arp).sfmc.Backed ∧ (init permAddr grants arp).sfmc.Accounted [] :=
  ⟨fun _ h => absurd h List.not_mem_nil, fun _ h => absurd rfl h, fun _ h => absurd rfl h⟩

/-- The state of a device whose allocations succeed and whose objects are conserved. -/
structure Sound (w : World) : Prop where
  inv : w.sfmc.Inv
  backed : w.sfmc.Backed
  conserved : w.sfmc.Conserved
  grants : ∀ i, w.sfmc.fibTree.grants i = true

theorem sound_init (permAddr : Mac) (arp : ArpTable) : (init permAddr (fun _ => true) arp).Sound := by
  obtain ⟨hb, ha⟩ := accounted_init permAddr (fun _ => true) arp
  have inv := inv_init permAddr (fun _ => true) arp
  exact ⟨inv, hb, (hb.conserved_iff inv.fib).mpr ha, fun _ => rfl⟩

/-- An event on a sound device returns, and the device stays sound exactly when the event
loses nothing. -/
theorem Sound.step (h : w.Sound) (env : Env) (e : Event) : ∃ w', w.step env e = .ok w' ∧
    (w'.sfmc.Conserved ↔ LosesNothing w e) ∧ (LosesNothing w e → w'.Sound) := by
  have hall : Ensures _ (w.step env e) (Outcome env w e) := step_outcome h.inv e
  obtain ⟨w', hstep, hout⟩ := hall.exists_ok (Sfmc.never_refuses h.grants)
  have ha := (h.backed.conserved_iff h.inv.fib).mp h.conserved
  obtain ⟨hb, hbal⟩ := step_balances h.inv h.backed ha h.grants hstep
  have inv := hout.preserves h.inv
  have hiff : w'.sfmc.Conserved ↔ LosesNothing w e := (hb.conserved_iff inv.fib).trans hbal
  refine ⟨w', hstep, hiff, fun hC => ⟨inv, hb, hiff.mpr hC, fun i => ?_⟩⟩
  rw [hout.grants]
  exact h.grants i

/-- The objects of a fresh device are conserved throughout a run if and only if no step links
or deletes a prefix that is listed before it. -/
theorem fib_conserved_iff (env : Env) (permAddr : Mac) (arp : ArpTable) (es : List Event) :
    (∀ es', es' <+: es → ∃ w, (init permAddr (fun _ => true) arp).run env es' = .ok w ∧
        w.sfmc.Conserved) ↔
      Along (step env) LosesNothing (init permAddr (fun _ => true) arp) es := by
  have hinit := sound_init permAddr arp
  have hrun : (∀ es', es' <+: es → ∃ w, (init permAddr (fun _ => true) arp).run env es' = .ok w ∧
      w.sfmc.Conserved) ↔ _ := forall_prefix_iff_along (P := fun w : World => w.sfmc.Conserved)
  rw [hrun, and_iff_right hinit.conserved]
  refine along_congr (fun w e (h : w.Sound) => ⟨?_, fun hC => ?_⟩)
    (fun w e w' h hC hstep => ?_) hinit es
  · rintro ⟨w', hstep, hc⟩
    obtain ⟨w₁, hw₁, hiff, -⟩ := h.step env e
    obtain rfl := Except.ok.inj (hw₁.symm.trans hstep)
    exact hiff.mp hc
  · obtain ⟨w', hstep, hiff, -⟩ := h.step env e
    exact ⟨w', hstep, hiff.mpr hC⟩
  · obtain ⟨w₁, hw₁, -, hsound⟩ := h.step env e
    obtain rfl := Except.ok.inj (hw₁.symm.trans hstep)
    exact hsound hC

/-- 10.0.1.0/24 is linked twice; it is linked and deleted; two packets to 10.0.1.2 queue a
host route each. A route, a prefix and a route are left behind. -/
theorem fib_objects_left :
    (∃ w, (init 0 (fun _ => true) fun _ => none).run oneBucket
        [connectedRoute 0x0A000100 ⟨24, by decide⟩, connectedRoute 0x0A000100 ⟨24, by decide⟩] =
          .ok w ∧ ¬ w.sfmc.Conserved) ∧
    (∃ w, (init 0 (fun _ => true) fun _ => none).run oneBucket
        [connectedRoute 0x0A000100 ⟨24, by decide⟩, .portObjDel (.ipv4Fib
          { dst := 0x0A000100, dstLen := ⟨24, by decide⟩, gateway := 0, scope := RT_SCOPE_LINK })] =
          .ok w ∧ ¬ w.sfmc.Conserved) ∧
    ∃ w, (init 0 (fun _ => true) fun _ => none).run oneBucket
        (connectedRun ++ [.encapPacket blankPacket, .llNeighWork 1 none, .llNeighWork 2 none]) =
          .ok w ∧ ¬ w.sfmc.Conserved := by
  have hlost : ∀ (s : Sfmc) (sf : Ref), s.wq = [] → sf ∉ s.fibList → (s.fibs.cells sf).isSome →
      sf < s.fibs.next → ¬ s.Conserved := by
    intro s sf hwq hlist hcell hlt hc
    obtain ⟨place, hplace, -⟩ := hc.routes sf hlt
    cases place with
    | pending =>
      have hmem : sf ∈ s.wq := hplace
      rw [hwq] at hmem
      exact absurd hmem List.not_mem_nil
    | linked => exact hlist hplace
    | freed =>
      rw [show s.fibs.cells sf = none from hplace] at hcell
      cases hcell
  refine ⟨⟨_, rfl, hlost _ 1 rfl (by decide) rfl (by decide)⟩, ⟨_, rfl, fun hc => ?_⟩,
    _, rfl, hlost _ 2 rfl (by decide) rfl (by decide)⟩
  have hfree := hc.prefixes 0 ?_
  · cases hfree
  · rintro (⟨r, n, htree, -⟩ | ⟨sf, hsf, -⟩)
    · exact absurd rfl htree.head_ne_none
    · exact absurd hsf List.not_mem_nil

end World

end Madcap
