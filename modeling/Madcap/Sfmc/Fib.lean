import Madcap.Foundation.LongestPrefix
import Madcap.Patricia.Labels
import Madcap.Patricia.Search
import Madcap.Sfmc.State

/-!
# The outer FIB refines a longest-prefix table

The list of routes and the tree say the same thing: each listed route is the data
of one labelled node and each labelled node has a listed route. Under that
invariant the lookups of the tree are scans of the list, an insertion is an
insertion into the table of masked prefixes and a deletion an erasure from it.
-/

namespace Madcap

open Trie LongestPrefix

/-- The first `len` bits of an address. -/
def maskBits (addr : U32) (len : ℕ) : List Bool := (List.range len).map (addrBit addr)

@[simp] theorem maskBits_length (addr : U32) (len : ℕ) : (maskBits addr len).length = len := by
  simp [maskBits]

theorem maskBits_getElem (addr : U32) {len i : ℕ} (hi : i < (maskBits addr len).length) :
    (maskBits addr len)[i] = addrKey addr i := by
  simp [maskBits, addrKey]

theorem maskBits_eq_iff {a b : U32} {n m : ℕ} :
    maskBits a n = maskBits b m ↔ n = m ∧ Agree n (addrKey a) (addrKey b) := by
  constructor
  · intro h
    have hlen : n = m := by simpa using congrArg List.length h
    subst hlen
    refine ⟨rfl, fun i hi => ?_⟩
    have hbit : (maskBits a n)[i]? = (maskBits b n)[i]? := by rw [h]
    rw [List.getElem?_eq_getElem (by simpa using hi),
      List.getElem?_eq_getElem (by simpa using hi), maskBits_getElem, maskBits_getElem] at hbit
    exact Option.some.inj hbit
  · rintro ⟨rfl, h⟩
    apply List.ext_getElem (by simp)
    intro i hi hi'
    rw [maskBits_getElem, maskBits_getElem]
    exact h i (by simpa using hi)

/-- A masked prefix begins an address exactly when it covers it. -/
theorem maskBits_begins_iff {a d : U32} {n m : ℕ} :
    maskBits a n <+: maskBits d m ↔ n ≤ m ∧ Agree n (addrKey a) (addrKey d) := by
  constructor
  · intro h
    have hle : n ≤ m := by simpa using h.length_le
    refine ⟨hle, fun i hi => ?_⟩
    have hbit := List.IsPrefix.getElem h (by simpa using hi)
    rwa [maskBits_getElem, maskBits_getElem] at hbit
  · rintro ⟨hle, h⟩
    rw [List.prefix_iff_eq_take]
    apply List.ext_getElem (by simp [hle])
    intro i hi hi'
    rw [List.getElem_take, maskBits_getElem, maskBits_getElem]
    exact h i (by simpa using hi)

/-- The route covers an address. -/
def SfmcFib.Covers (f : SfmcFib) (d : U32) : Prop := Agree f.len (addrKey f.network) (addrKey d)

def SfmcFib.entry (f : SfmcFib) (sf : Ref) : Entry Ref Bool :=
  { ref := sf, pfx := maskBits f.network f.len }

namespace Sfmc

def route (s : Sfmc) (sf : Ref) : Option (Entry Ref Bool) :=
  (s.fibs.cells sf).map fun f => f.entry sf

def routes (s : Sfmc) : Table Ref Bool := s.fibList.filterMap s.route

/-- The invariant of the FIB. Queued routes are allocated and untouched. -/
structure FibInv (s : Sfmc) : Prop where
  tree : s.fibTree.Inv
  listed : ∀ {sf}, sf ∈ s.fibList → ∃ f r, s.fibs.cells sf = some f ∧ f.pn = some r ∧
    s.fibTree.label r = some { add := f.network, bitlen := f.len, data := some sf }
  labelled : ∀ {r l}, s.fibTree.label r = some l → ∃ sf ∈ s.fibList, ∃ f,
    s.fibs.cells sf = some f ∧ f.pn = some r ∧
      l = { add := f.network, bitlen := f.len, data := some sf }
  nodup : s.fibList.Nodup
  queued : ∀ {sf}, sf ∈ s.wq → sf ∉ s.fibList ∧ ∃ f, s.fibs.cells sf = some f ∧ f.len ≤ 32 ∧
    f.nudState = 0
  wq_nodup : s.wq.Nodup

/-- What the FIB operations leave alone. -/
structure Frame (s s' : Sfmc) : Prop where
  permAddr : s'.permAddr = s.permAddr
  vdev : s'.vdev = s.vdev
  ou : s'.ou = s.ou
  oc : s'.oc = s.oc
  grants : s'.fibTree.grants = s.fibTree.grants

variable {s s' : Sfmc} {sf sf' : Ref} {f f' : SfmcFib} {network d : U32} {len : ℕ}

theorem Frame.refl (s : Sfmc) : Frame s s := ⟨rfl, rfl, rfl, rfl, rfl⟩

theorem Frame.trans {s'' : Sfmc} (h : Frame s s') (h' : Frame s' s'') : Frame s s'' :=
  ⟨h'.permAddr.trans h.permAddr, h'.vdev.trans h.vdev, h'.ou.trans h.ou, h'.oc.trans h.oc,
    h'.grants.trans h.grants⟩

theorem Frame.refuses (h : Frame s s') : s'.fibTree.Refuses = s.fibTree.Refuses := by
  funext e
  rw [Zone.Refuses, Zone.Refuses, h.grants]

theorem mem_routes {e : Entry Ref Bool} : e ∈ s.routes ↔ e.ref ∈ s.fibList ∧ ∃ f,
    s.fibs.cells e.ref = some f ∧ e.pfx = maskBits f.network f.len := by
  simp only [routes, route, SfmcFib.entry, List.mem_filterMap, Option.map_eq_some_iff]
  constructor
  · rintro ⟨sf, hsf, f, hf, rfl⟩
    exact ⟨hsf, f, hf, rfl⟩
  · rintro ⟨hsf, f, hf, hpfx⟩
    exact ⟨e.ref, hsf, f, hf, by rw [← hpfx]⟩

theorem FibInv.unique (inv : s.FibInv) (hsf : sf ∈ s.fibList) (hsf' : sf' ∈ s.fibList)
    (hf : s.fibs.cells sf = some f) (hf' : s.fibs.cells sf' = some f') (hlen : f.len = f'.len)
    (hag : Agree f.len (addrKey f.network) (addrKey f'.network)) : sf = sf' := by
  obtain ⟨g, r, hg, -, hl⟩ := inv.listed hsf
  obtain ⟨g', r', hg', -, hl'⟩ := inv.listed hsf'
  obtain rfl : f = g := by simpa [hf] using hg
  obtain rfl : f' = g' := by simpa [hf'] using hg'
  obtain rfl : r = r' := inv.tree.label_unique hl hl' hlen hag
  rw [hl] at hl'
  injection hl' with hl'
  injection hl' with _ _ hdata
  exact Option.some.inj hdata

theorem FibInv.len_le (inv : s.FibInv) (hsf : sf ∈ s.fibList) (hf : s.fibs.cells sf = some f) :
    f.len ≤ 32 := by
  obtain ⟨g, r, hg, -, hl⟩ := inv.listed hsf
  obtain rfl : f = g := by simpa [hf] using hg
  exact inv.tree.label_le hl

theorem FibInv.distinct (inv : s.FibInv) : s.routes.Distinct := by
  have hnodup : s.routes.Nodup := by
    refine inv.nodup.filterMap ?_
    intro a a' b hb hb'
    obtain ⟨f, -, rfl⟩ := Option.map_eq_some_iff.mp hb
    obtain ⟨f', -, h⟩ := Option.map_eq_some_iff.mp hb'
    exact (congrArg Entry.ref h).symm
  refine hnodup.map_on ?_
  intro e he e' he' hpfx
  obtain ⟨hsf, f, hf, hp⟩ := mem_routes.mp he
  obtain ⟨hsf', f', hf', hp'⟩ := mem_routes.mp he'
  rw [hp, hp', maskBits_eq_iff] at hpfx
  have href := inv.unique hsf hsf' hf hf' hpfx.1 hpfx.2
  cases e
  cases e'
  simp only at href hp hp' hpfx
  subst href
  obtain rfl : f = f' := by simpa [hf] using hf'
  rw [hp, hp']

theorem FibInv.read_data (inv : s.FibInv) {r : ℕ} {l : Label} (hl : s.fibTree.label r = some l) :
    ∃ n sf f, s.fibTree.nodes.read r = .ok n ∧ n.data = some sf ∧ sf ∈ s.fibList ∧
      s.fibs.cells sf = some f ∧ f.network = l.add ∧ f.len = l.bitlen := by
  obtain ⟨n, hn, hdata⟩ := Patricia.read_label inv.tree hl
  obtain ⟨sf, hsf, f, hf, -, rfl⟩ := inv.labelled hl
  exact ⟨n, sf, f, hn, hdata, hsf, hf, rfl, rfl⟩

/-- `sfmc_fib_find_exact` is a scan for the masked prefix. -/
theorem sfmcFibFindExact_eq (inv : s.FibInv) (network : U32) (hlen : len ≤ 32) :
    s.sfmcFibFindExact network len = .ok (s.routes.exact (maskBits network len)) := by
  obtain ⟨res, hres, hsome, hnone⟩ :=
    (Patricia.patriciaSearchExact_spec inv.tree
      (show (dst2Prefix network len).bitlen ≤ 32 from hlen)).exists_ok
      fun _ h => h
  rw [sfmcFibFindExact, hres]
  cases res with
  | none =>
    have h : s.routes.exact (maskBits network len) = none := by
      refine Table.exact_eq_none.mpr fun e he hpfx => ?_
      obtain ⟨hsf, f, hf, hp⟩ := mem_routes.mp he
      obtain ⟨g, r, hg, -, hl⟩ := inv.listed hsf
      obtain rfl : f = g := by simpa [hf] using hg
      rw [hp, maskBits_eq_iff] at hpfx
      exact hnone rfl r _ hl hpfx.1 hpfx.2
    rw [h]
    rfl
  | some r =>
    obtain ⟨l, hl, hbl, hag⟩ := hsome r rfl
    obtain ⟨n, sf, f, hn, hdata, hsf, hf, hadd, hflen⟩ := inv.read_data hl
    have h : s.routes.exact (maskBits network len) = some sf := by
      refine (Table.exact_eq_some inv.distinct).mpr
        ⟨{ ref := sf, pfx := maskBits f.network f.len }, mem_routes.mpr ⟨hsf, f, hf, rfl⟩, rfl, ?_⟩
      rw [maskBits_eq_iff, hflen, hadd]
      exact ⟨hbl, hag⟩
    rw [h]
    simp only [bind, Except.bind, hn, hdata]
    rfl

/-- `sfmc_fib_find_best` is a scan for the longest listed prefix of the address. -/
theorem sfmcFibFindBest_eq (inv : s.FibInv) (d : U32) (hlen : len ≤ 32) :
    s.sfmcFibFindBest d len = .ok (s.routes.best (maskBits d len)) := by
  obtain ⟨res, hres, hsome, hnone⟩ :=
    (Patricia.patriciaSearchBest_spec inv.tree
      (show (dst2Prefix d len).bitlen ≤ 32 from hlen)).exists_ok
      fun _ h => h
  rw [sfmcFibFindBest, hres]
  cases res with
  | none =>
    have h : s.routes.best (maskBits d len) = none := by
      refine Table.best_eq_none.mpr fun e he hpfx => ?_
      obtain ⟨hsf, f, hf, hp⟩ := mem_routes.mp he
      obtain ⟨g, r, hg, -, hl⟩ := inv.listed hsf
      obtain rfl : f = g := by simpa [hf] using hg
      rw [hp, maskBits_begins_iff] at hpfx
      exact hnone rfl r _ hl hpfx
    rw [h]
    rfl
  | some r =>
    obtain ⟨l, hl, hmatch, hbest⟩ := hsome r rfl
    obtain ⟨n, sf, f, hn, hdata, hsf, hf, hadd, hflen⟩ := inv.read_data hl
    have h : s.routes.best (maskBits d len) = some sf := by
      refine (Table.best_eq_some inv.distinct).mpr
        ⟨{ ref := sf, pfx := maskBits f.network f.len }, mem_routes.mpr ⟨hsf, f, hf, rfl⟩, rfl,
          ?_, fun e he hcov => ?_⟩
      · rw [maskBits_begins_iff, hflen, hadd]
        exact hmatch
      · obtain ⟨hsf', f', hf', hp'⟩ := mem_routes.mp he
        obtain ⟨g, r', hg, -, hl'⟩ := inv.listed hsf'
        obtain rfl : f' = g := by simpa [hf'] using hg
        rw [hp', maskBits_begins_iff] at hcov
        rw [hp', maskBits_length, maskBits_length, hflen]
        exact hbest r' _ hl' hcov
    rw [h]
    simp only [bind, Except.bind, hn, hdata]
    rfl

/-- An insertion links the route, or finds the route that has its prefix. -/
structure Inserted (s : Sfmc) (sf : Ref) (f : SfmcFib) (res : Option Ref × Sfmc) : Prop where
  inv : res.2.FibInv
  frame : Frame s res.2
  table : res.2.sfmcTable = s.sfmcTable
  wq : res.2.wq = s.wq
  outcome : (∃ sf₀, res.1 = some sf₀ ∧
      s.routes.exact (maskBits f.network f.len) = some sf₀ ∧ res.2.fibList = s.fibList ∧
      res.2.fibs = s.fibs) ∨
    (res.1 = some sf ∧ s.routes.exact (maskBits f.network f.len) = none ∧
      res.2.fibList = sf :: s.fibList ∧
      ∃ r q, res.2.fibs = s.fibs.modify sf fun f => { f with pn := some r, pfx := some q })

theorem kmallocPrefix_spec (s : Sfmc) (pfx : PrefixT) :
    Ensures s.fibTree.Refuses (s.kmallocPrefix pfx) fun res =>
      res.1 = s.fibTree.prefixes.next ∧ res.2 = { s.fibTree with
        requests := s.fibTree.requests + 1, prefixes := s.fibTree.prefixes.alloc pfx } := by
  cases h : s.fibTree.grants s.fibTree.requests with
  | true => simp [kmallocPrefix, Patricia.kmalloc, h]
  | false =>
    simp only [kmallocPrefix, Patricia.kmalloc, h, ensures_error]
    exact ⟨rfl, _, h⟩

theorem FibInv.of_label_eq (inv : s.FibInv) {tree : Patricia} (ht : tree.Inv)
    (hl : tree.label = s.fibTree.label) : ({ s with fibTree := tree } : Sfmc).FibInv :=
  ⟨ht, fun h => by rw [hl]; exact inv.listed h, fun h => by rw [hl] at h; exact inv.labelled h,
    inv.nodup, inv.queued, inv.wq_nodup⟩

/-- A route is linked to a node that had no label. -/
theorem FibInv.linked (inv : s.FibInv) (hf : s.fibs.cells sf = some f) (hnl : sf ∉ s.fibList)
    (hnw : sf ∉ s.wq) {tree : Patricia} {pn pfx : Ref} (ht : tree.Inv)
    (hpn : s.fibTree.label pn = none) (hlabel : tree.label = Function.update s.fibTree.label pn
      (some { add := f.network, bitlen := f.len, data := some sf })) :
    ({ s with
      fibTree := tree
      fibs := s.fibs.modify sf fun f => { f with pn := some pn, pfx := some pfx }
      fibList := sf :: s.fibList } : Sfmc).FibInv := by
  have hne {sf' : Ref} (hsf' : sf' ∈ s.fibList) : sf' ≠ sf := fun h => hnl (h ▸ hsf')
  refine ⟨ht, ?_, ?_, ?_, ?_, inv.wq_nodup⟩
  · intro sf' hsf'
    change ∃ f' r, _ ∧ _ ∧ tree.label r = _
    rw [hlabel]
    rcases List.mem_cons.mp hsf' with rfl | hsf'
    · refine ⟨{ f with pn := some pn, pfx := some pfx }, pn, ?_, rfl, ?_⟩
      · simp [Heap.modify_cells, hf]
      · rw [Function.update_self]
    · obtain ⟨f', r, hf', hr, hl⟩ := inv.listed hsf'
      have hrp : r ≠ pn := by
        rintro rfl
        rw [hpn] at hl
        cases hl
      refine ⟨f', r, ?_, hr, ?_⟩
      · simp [Heap.modify_cells, hne hsf', hf']
      · rw [Function.update_of_ne hrp, hl]
  · intro r l hl
    change tree.label r = some l at hl
    rw [hlabel] at hl
    by_cases hrp : r = pn
    · subst hrp
      rw [Function.update_self] at hl
      obtain rfl := Option.some.inj hl
      exact ⟨sf, List.mem_cons_self, { f with pn := some r, pfx := some pfx },
        by simp [Heap.modify_cells, hf], rfl, rfl⟩
    · rw [Function.update_of_ne hrp] at hl
      obtain ⟨sf', hsf', f', hf', hr, rfl⟩ := inv.labelled hl
      exact ⟨sf', List.mem_cons_of_mem _ hsf', f', by simp [Heap.modify_cells, hne hsf', hf'], hr,
        rfl⟩
  · exact List.nodup_cons.mpr ⟨hnl, inv.nodup⟩
  · intro sf' hsf'
    obtain ⟨hnl', f', hf', hlen', hnud⟩ := inv.queued hsf'
    have hne' : sf' ≠ sf := fun h => hnw (h ▸ hsf')
    refine ⟨fun h => ?_, f', by simp [Heap.modify_cells, hne', hf'], hlen', hnud⟩
    rcases List.mem_cons.mp h with h | h
    · exact hne' h
    · exact hnl' h

theorem sfmcFibInsert_spec (inv : s.FibInv) (hf : s.fibs.cells sf = some f) (hlen : f.len ≤ 32)
    (hnl : sf ∉ s.fibList) (hnw : sf ∉ s.wq) :
    Ensures s.fibTree.Refuses (s.sfmcFibInsert sf) (s.Inserted sf f) := by
  simp only [sfmcFibInsert, Heap.read_eq hf, ensures_bind, ensures_ok]
  refine (kmallocPrefix_spec s _).mono ?_
  rintro ⟨pfx, tree₁⟩ ⟨hpfx, htree₁⟩
  simp only at hpfx htree₁
  obtain ⟨hinv₁, hl₁, hins⟩ := Patricia.allocPrefix_spec (t := dst2Prefix f.network f.len)
    inv.tree (by simp [dst2Prefix]) hlen _ htree₁
  rw [← hpfx] at hins
  have hgrants : tree₁.Refuses = s.fibTree.Refuses := by rw [htree₁]; rfl
  rw [← hgrants]
  refine (Patricia.patriciaLookup_spec hinv₁ hins).mono ?_
  rintro ⟨pn, tree₂⟩ hres
  simp only
  rcases hres with ⟨hsame, l, hl, hbl, hag⟩ | ⟨hinv₂, hg₂, hnone, hl₂⟩
  · simp only at hsame hl
    subst hsame
    obtain ⟨n, hn, hdata⟩ := Patricia.read_label hinv₁ hl
    rw [hl₁] at hl
    obtain ⟨sf₀, hsf₀, f₀, hf₀, -, rfl⟩ := inv.labelled hl
    obtain ⟨hinv₃, hl₃⟩ := Patricia.freePrefix_spec hinv₁ hins.unowned rfl
    simp only [hn, hdata, ensures_ok]
    refine ⟨inv.of_label_eq hinv₃ (hl₃.trans hl₁), ⟨rfl, rfl, rfl, rfl, ?_⟩, rfl, rfl,
      .inl ⟨sf₀, rfl, ?_, rfl, rfl⟩⟩
    · rw [htree₁]
    · refine (Table.exact_eq_some inv.distinct).mpr
        ⟨f₀.entry sf₀, mem_routes.mpr ⟨hsf₀, f₀, hf₀, rfl⟩, rfl, ?_⟩
      have hlen₀ : f₀.len = f.len := hbl
      rw [SfmcFib.entry, maskBits_eq_iff, hlen₀]
      exact ⟨rfl, hag⟩
  · simp only at hinv₂ hg₂ hnone hl₂
    have hself : tree₂.label pn = some { add := f.network, bitlen := f.len, data := none } := by
      rw [hl₂, Function.update_self]
      rfl
    obtain ⟨n, hn, hdata⟩ := Patricia.read_label hinv₂ hself
    obtain ⟨tree₃, hset, hinv₃, hg₃, hl₃⟩ := Patricia.setData_spec hinv₂ hself (some sf)
    have hlabel : tree₃.label = Function.update s.fibTree.label pn
        (some { add := f.network, bitlen := f.len, data := some sf }) := by
      rw [hl₃, hl₂, Function.update_idem, hl₁]
    have hpn : s.fibTree.label pn = none := by rw [← hl₁]; exact hnone
    simp only [hn, hdata, hset, Heap.write_eq hf, ensures_bind, ensures_ok]
    refine ⟨inv.linked hf hnl hnw hinv₃ hpn hlabel, ⟨rfl, rfl, rfl, rfl, ?_⟩, rfl, rfl,
      .inr ⟨rfl, ?_, rfl, pn, pfx, rfl⟩⟩
    · change tree₃.grants = _
      rw [hg₃, hg₂, htree₁]
    · refine Table.exact_eq_none.mpr fun e he hpfx => ?_
      obtain ⟨hsf', f', hf', hp'⟩ := mem_routes.mp he
      obtain ⟨g, r, hg, -, hl⟩ := inv.listed hsf'
      obtain rfl : f' = g := by simpa [hf'] using hg
      rw [hp', maskBits_eq_iff] at hpfx
      have hrp : r ≠ pn := by
        rintro rfl
        rw [hpn] at hl
        cases hl
      have hl' : tree₂.label r = some { add := f'.network, bitlen := f'.len, data := some e.ref } := by
        rw [hl₂, Function.update_of_ne hrp, hl₁, hl]
      exact hrp (hinv₂.label_unique hl' hself hpfx.1 hpfx.2)

theorem kmallocPrefix_eq_ok {pfx : PrefixT} {res : Ref × Patricia} (h : s.kmallocPrefix pfx = .ok res) :
    s.fibTree.grants s.fibTree.requests = true ∧ res = (s.fibTree.prefixes.next, { s.fibTree with
      requests := s.fibTree.requests + 1, prefixes := s.fibTree.prefixes.alloc pfx }) := by
  unfold kmallocPrefix Patricia.kmalloc at h
  cases hg : s.fibTree.grants s.fibTree.requests with
  | false =>
    simp only [hg] at h
    cases h
  | true =>
    simp only [hg] at h
    exact ⟨rfl, (Except.ok.inj h).symm⟩

/-- The stages of an insertion that returned: the tree with the new prefix, the node of the
prefix and the tree with that node. -/
structure InsertStages (s : Sfmc) (sf : Ref) (f : SfmcFib) (res : Option Ref × Sfmc) (q : Ref)
    (tree₁ : Patricia) (r : Ref) (tree₂ : Patricia) (node : PatriciaNode) : Prop where
  alloc : s.kmallocPrefix (dst2Prefix f.network f.len) = .ok (q, tree₁)
  fresh : q = s.fibTree.prefixes.next
  tree : tree₁ = { s.fibTree with
    requests := s.fibTree.requests + 1
    prefixes := s.fibTree.prefixes.alloc (dst2Prefix f.network f.len) }
  inv : tree₁.Inv
  label : tree₁.label = s.fibTree.label
  insertable : tree₁.Insertable q (dst2Prefix f.network f.len)
  lookup : tree₁.patriciaLookup q = .ok (r, tree₂)
  read : tree₂.nodes.read r = .ok node
  outcome : (∃ data, node.data = some data ∧
      res = (some data, { s with fibTree := { tree₂ with prefixes := tree₂.prefixes.free q } })) ∨
    node.data = none ∧ ∃ tree₃,
      (tree₂.setNode r fun node => { node with data := some sf }) = .ok tree₃ ∧
      res = (some sf, { s with
        fibTree := tree₃
        fibs := s.fibs.modify sf fun f => { f with pn := some r, pfx := some q }
        fibList := sf :: s.fibList })

theorem sfmcFibInsert_stages (inv : s.FibInv) (hf : s.fibs.cells sf = some f) (hlen : f.len ≤ 32)
    {res : Option Ref × Sfmc} (h : s.sfmcFibInsert sf = .ok res) :
    ∃ q tree₁ r tree₂ node, s.InsertStages sf f res q tree₁ r tree₂ node := by
  unfold sfmcFibInsert at h
  rw [Heap.read_eq hf] at h
  obtain ⟨f', hf', h⟩ := bind_eq_ok.mp h
  obtain rfl := Except.ok.inj hf'
  obtain ⟨⟨q, tree₁⟩, h₁, h⟩ := bind_eq_ok.mp h
  obtain ⟨⟨r, tree₂⟩, h₂, h⟩ := bind_eq_ok.mp h
  obtain ⟨node, hnode, h⟩ := bind_eq_ok.mp h
  obtain ⟨-, hres⟩ := kmallocPrefix_eq_ok h₁
  obtain ⟨hq, htree₁⟩ := Prod.mk.inj hres
  obtain ⟨hinv₁, hl₁, hins⟩ := Patricia.allocPrefix_spec (t := dst2Prefix f.network f.len)
    inv.tree (by simp [dst2Prefix]) hlen _ htree₁
  rw [← hq] at hins
  refine ⟨q, tree₁, r, tree₂, node, h₁, hq, htree₁, hinv₁, hl₁, hins, h₂, hnode, ?_⟩
  cases hdata : node.data with
  | some data =>
    simp only [hdata] at h
    exact .inl ⟨data, rfl, (Except.ok.inj h).symm⟩
  | none =>
    simp only [hdata] at h
    obtain ⟨tree₃, h₃, h⟩ := bind_eq_ok.mp h
    obtain ⟨fibs, hw, h⟩ := bind_eq_ok.mp h
    rw [Heap.write_eq hf] at hw
    obtain rfl := Except.ok.inj hw
    exact .inr ⟨rfl, tree₃, h₃, (Except.ok.inj h).symm⟩

theorem Inserted.routes {res : Option Ref × Sfmc} (h : s.Inserted sf f res)
    (hf : s.fibs.cells sf = some f) (hnl : sf ∉ s.fibList) :
    res.2.routes = s.routes.insert (f.entry sf) := by
  rcases h.outcome with ⟨sf₀, -, hex, hlist, hfibs⟩ | ⟨-, hex, hlist, r, q, hfibs⟩
  · have hroute : res.2.route = s.route := by
      funext sf'
      simp [route, hfibs]
    rw [Sfmc.routes, Sfmc.routes, hlist, hroute, Table.insert]
    have hsome : (Table.exact (s.fibList.filterMap s.route) (f.entry sf).pfx).isSome := by
      have h : s.routes.exact (f.entry sf).pfx = some sf₀ := hex
      rw [Sfmc.routes] at h
      rw [h]
      rfl
    rw [if_pos hsome]
  · have hnew : res.2.route sf = some (f.entry sf) := by
      simp [route, hfibs, Heap.modify_cells, hf, SfmcFib.entry]
    have hold : ∀ sf' ∈ s.fibList, res.2.route sf' = s.route sf' := by
      intro sf' hsf'
      have hne : sf' ≠ sf := fun h => hnl (h ▸ hsf')
      simp [route, hfibs, Heap.modify_cells, hne]
    have hnone : (s.routes.exact (f.entry sf).pfx).isSome = false := by
      have h : s.routes.exact (f.entry sf).pfx = none := hex
      rw [h]
      rfl
    rw [Table.insert, if_neg (by simp [hnone]), Sfmc.routes, hlist,
      List.filterMap_cons_some hnew, Sfmc.routes]
    congr 1
    exact List.filterMap_congr hold

theorem Inserted.list_eq {res : Option Ref × Sfmc} (h : s.Inserted sf f res) : res.2.fibList =
    if (s.routes.exact (maskBits f.network f.len)).isSome then s.fibList else sf :: s.fibList := by
  rcases h.outcome with ⟨sf₀, -, hex, hlist, -⟩ | ⟨-, hex, hlist, -⟩
  · simp [hex, hlist]
  · simp [hex, hlist]

theorem Inserted.next_eq {res : Option Ref × Sfmc} (h : s.Inserted sf f res) :
    res.2.fibs.next = s.fibs.next := by
  rcases h.outcome with ⟨-, -, -, -, hfibs⟩ | ⟨-, -, -, r, q, hfibs⟩ <;> rw [hfibs]
  rfl

theorem Inserted.cells_of_ne {res : Option Ref × Sfmc} (h : s.Inserted sf f res) (hne : sf' ≠ sf) :
    res.2.fibs.cells sf' = s.fibs.cells sf' := by
  rcases h.outcome with ⟨-, -, -, -, hfibs⟩ | ⟨-, -, -, r, q, hfibs⟩ <;> rw [hfibs]
  simp [Heap.modify_cells, hne]

theorem Inserted.exists_route {res : Option Ref × Sfmc} (h : s.Inserted sf f res) :
    ∃ t, res.1 = some t := by
  rcases h.outcome with ⟨sf₀, h, -⟩ | ⟨h, -⟩
  · exact ⟨sf₀, h⟩
  · exact ⟨sf, h⟩

theorem Inserted.cells_self {res : Option Ref × Sfmc} (h : s.Inserted sf f res)
    (hf : s.fibs.cells sf = some f) : ∃ g, res.2.fibs.cells sf = some g ∧
      g.gateway = f.gateway ∧ g.scope = f.scope ∧ g.network = f.network ∧ g.len = f.len ∧
      g.nudState = f.nudState := by
  rcases h.outcome with ⟨-, -, -, -, hfibs⟩ | ⟨-, -, -, r, q, hfibs⟩ <;> rw [hfibs]
  · exact ⟨f, hf, rfl, rfl, rfl, rfl, rfl⟩
  · exact ⟨{ f with pn := some r, pfx := some q }, by simp [Heap.modify_cells, hf], rfl, rfl, rfl,
      rfl, rfl⟩

/-- What `sfmc_fib_delete` of a listed route does. -/
structure Deleted (s : Sfmc) (sf : Ref) (s' : Sfmc) : Prop where
  inv : s'.FibInv
  frame : Frame s s'
  table : s'.sfmcTable = fun n => forgetFib sf (s.sfmcTable n)
  wq : s'.wq = s.wq
  list : s'.fibList = s.fibList.erase sf
  fibs : s'.fibs = s.fibs.free sf

theorem sfmcFibDelete_spec (inv : s.FibInv) (hsf : sf ∈ s.fibList) :
    ∃ s', s.sfmcFibDelete sf = .ok s' ∧ s.Deleted sf s' := by
  obtain ⟨f, r, hf, hr, hl⟩ := inv.listed hsf
  obtain ⟨tree, hrem, htree, hgrants, hlabel⟩ := Patricia.patriciaRemove_spec inv.tree hl
  have hmem : ∀ {sf'}, sf' ∈ s.fibList.erase sf ↔ sf' ≠ sf ∧ sf' ∈ s.fibList :=
    inv.nodup.mem_erase_iff
  refine ⟨{ s with
      fibTree := tree
      fibList := s.fibList.erase sf
      sfmcTable := fun n => forgetFib sf (s.sfmcTable n)
      fibs := s.fibs.free sf },
    by simp only [sfmcFibDelete, Heap.read_eq hf, hr, hrem, bind, Except.bind]; rfl,
    ⟨⟨htree, ?_, ?_, inv.nodup.erase sf, ?_, inv.wq_nodup⟩,
      ⟨rfl, rfl, rfl, rfl, hgrants⟩, rfl, rfl, rfl, rfl⟩⟩
  · intro sf' hsf'
    obtain ⟨hne, hsf'⟩ := hmem.mp hsf'
    obtain ⟨f', r', hf', hr', hl'⟩ := inv.listed hsf'
    have hrr : r' ≠ r := by
      rintro rfl
      rw [hl] at hl'
      injection hl' with hl'
      injection hl' with _ _ hdata
      exact hne (Option.some.inj hdata).symm
    refine ⟨f', r', ?_, hr', ?_⟩
    · simp [Heap.free_cells, hne, hf']
    · change tree.label r' = _
      rw [hlabel, Function.update_of_ne hrr, hl']
  · intro r' l hl'
    change tree.label r' = some l at hl'
    rw [hlabel] at hl'
    by_cases hrr : r' = r
    · subst hrr
      rw [Function.update_self] at hl'
      cases hl'
    · rw [Function.update_of_ne hrr] at hl'
      obtain ⟨sf', hsf', f', hf', hr', rfl⟩ := inv.labelled hl'
      have hne : sf' ≠ sf := by
        rintro rfl
        obtain rfl : f = f' := by simpa [hf] using hf'
        rw [hr] at hr'
        exact hrr (Option.some.inj hr').symm
      exact ⟨sf', hmem.mpr ⟨hne, hsf'⟩, f', by simp [Heap.free_cells, hne, hf'], hr', rfl⟩
  · intro sf' hsf'
    obtain ⟨hnl, f', hf', hlen, hnud⟩ := inv.queued hsf'
    have hne : sf' ≠ sf := fun h => hnl (h ▸ hsf)
    exact ⟨fun h => hnl (hmem.mp h).2, f', by simp [Heap.free_cells, hne, hf'], hlen, hnud⟩

theorem Deleted.routes (h : s.Deleted sf s') (inv : s.FibInv) (hsf : sf ∈ s.fibList)
    (hf : s.fibs.cells sf = some f) : s'.routes = s.routes.erase (f.entry sf).pfx := by
  have hroute : ∀ sf' ∈ s.fibList.erase sf, s'.route sf' = s.route sf' := by
    intro sf' hsf'
    obtain ⟨hne, -⟩ := inv.nodup.mem_erase_iff.mp hsf'
    simp [route, h.fibs, Heap.free_cells, hne]
  rw [Sfmc.routes, h.list, List.filterMap_congr hroute, inv.nodup.erase_eq_filter, Sfmc.routes,
    Table.erase, List.filter_filterMap, List.filterMap_filter]
  refine List.filterMap_congr fun sf' hsf' => ?_
  obtain ⟨f', r, hf', -⟩ := inv.listed hsf'
  have hroute' : s.route sf' = some (f'.entry sf') := by simp [route, hf']
  by_cases hne : sf' = sf
  · subst hne
    obtain rfl : f = f' := by simpa [hf] using hf'
    simp [hroute', Option.filter]
  · have hpfx : (f'.entry sf').pfx ≠ (f.entry sf).pfx := by
      intro heq
      obtain ⟨hlen, hag⟩ := maskBits_eq_iff.mp heq
      exact hne (inv.unique hsf' hsf hf' hf hlen hag)
    simp [hroute', Option.filter, hne, hpfx]

/-- A route straight from `sfmc_fib_create`. -/
def blankFib (network : U32) (len : ℕ) (gateway : U32) (scope : U8) : SfmcFib where
  pn := none
  pfx := none
  network := network
  len := len
  scope := scope
  gateway := gateway
  mac := 0
  nudState := 0

/-- The device after an allocation request that changed nothing else. -/
def requested (s : Sfmc) : Sfmc :=
  { s with fibTree := { s.fibTree with requests := s.fibTree.requests + 1 } }

theorem kmalloc_eq (s : Sfmc) : s.kmalloc = (s.fibTree.grants s.fibTree.requests, s.requested) := rfl

theorem FibInv.requested (inv : s.FibInv) : s.requested.FibInv := by
  obtain ⟨key, hk⟩ := inv.tree
  obtain ⟨hk', hl⟩ := hk.of_prefixes
    { s.fibTree with requests := s.fibTree.requests + 1 } rfl rfl rfl fun _ _ _ _ _ => rfl
  exact inv.of_label_eq ⟨key, hk'⟩ hl

theorem FibInv.alloc (inv : s.FibInv) (f : SfmcFib) :
    ({ s with fibs := s.fibs.alloc f } : Sfmc).FibInv ∧ s.fibs.next ∉ s.fibList ∧
      s.fibs.next ∉ s.wq := by
  have hlist : ∀ sf ∈ s.fibList, sf ≠ s.fibs.next := fun sf hsf => by
    obtain ⟨f, -, hf, -⟩ := inv.listed hsf
    exact Nat.ne_of_lt (Heap.lt_next hf)
  have hwq : ∀ sf ∈ s.wq, sf ≠ s.fibs.next := fun sf hsf => by
    obtain ⟨-, f, hf, -⟩ := inv.queued hsf
    exact Nat.ne_of_lt (Heap.lt_next hf)
  refine ⟨⟨inv.tree, ?_, ?_, inv.nodup, ?_, inv.wq_nodup⟩, fun h => hlist _ h rfl,
    fun h => hwq _ h rfl⟩
  · intro sf hsf
    obtain ⟨f', r, hf', hr, hl⟩ := inv.listed hsf
    exact ⟨f', r, by simp [Heap.alloc_cells, hlist sf hsf, hf'], hr, hl⟩
  · intro r l hl
    obtain ⟨sf, hsf, f', hf', hr, rfl⟩ := inv.labelled hl
    exact ⟨sf, hsf, f', by simp [Heap.alloc_cells, hlist sf hsf, hf'], hr, rfl⟩
  · intro sf hsf
    obtain ⟨hnl, f', hf', hlen, hnud⟩ := inv.queued hsf
    exact ⟨hnl, f', by simp [Heap.alloc_cells, hwq sf hsf, hf'], hlen, hnud⟩

/-- A device with a route that is about to be linked. -/
structure Ready (s : Sfmc) (sf : Ref) (f : SfmcFib) (s₁ : Sfmc) : Prop where
  inv : s₁.FibInv
  frame : Frame s s₁
  table : s₁.sfmcTable = s.sfmcTable
  list : s₁.fibList = s.fibList
  read : s₁.fibs.cells sf = some f
  len_le : f.len ≤ 32
  nud : f.nudState = 0
  fresh : sf ∉ s.fibList
  idle : sf ∉ s₁.wq
  same : ∀ sf' ∈ s.fibList, s₁.fibs.cells sf' = s.fibs.cells sf'

theorem routes_congr (hl : s'.fibList = s.fibList)
    (hf : ∀ sf ∈ s.fibList, s'.fibs.cells sf = s.fibs.cells sf) : s'.routes = s.routes := by
  rw [Sfmc.routes, Sfmc.routes, hl]
  exact List.filterMap_congr fun sf hsf => by rw [route, route, hf sf hsf]

theorem Ready.routes {s₁ : Sfmc} (h : s.Ready sf f s₁) : s₁.routes = s.routes :=
  routes_congr h.list h.same

theorem Ready.inserts {s₁ : Sfmc} (h : s.Ready sf f s₁) :
    Ensures s₁.fibTree.Refuses (s₁.sfmcFibInsert sf) (s₁.Inserted sf f) :=
  sfmcFibInsert_spec h.inv h.read h.len_le (h.list ▸ h.fresh) h.idle

/-- The device after a granted `sfmc_fib_create` of the route `f`. -/
def created (s : Sfmc) (f : SfmcFib) : Sfmc := { s.requested with fibs := s.fibs.alloc f }

theorem sfmcFibCreate_ok (hg : s.fibTree.grants s.fibTree.requests = true) (gateway : U32)
    (scope : U8) : s.sfmcFibCreate network len gateway scope = (some s.fibs.next,
      s.created (blankFib network len gateway scope)) := by
  rw [sfmcFibCreate, kmalloc_eq, hg]
  rfl

theorem sfmcFibCreate_refused (hg : s.fibTree.grants s.fibTree.requests = false) (gateway : U32)
    (scope : U8) : s.sfmcFibCreate network len gateway scope = (none, s.requested) := by
  rw [sfmcFibCreate, kmalloc_eq, hg]

theorem FibInv.ready_create (inv : s.FibInv) (network : U32) (hlen : len ≤ 32) (gateway : U32) (scope : U8) :
    s.Ready s.fibs.next (blankFib network len gateway scope)
      (s.created (blankFib network len gateway scope)) := by
  obtain ⟨hinv, hfresh, hidle⟩ :=
    inv.requested.alloc (blankFib network len gateway scope)
  refine ⟨hinv, ⟨rfl, rfl, rfl, rfl, rfl⟩, rfl, rfl, ?_, hlen, rfl, hfresh, hidle,
    fun sf hsf => ?_⟩
  · simp [created, Heap.alloc_cells]
  · have hne : sf ≠ s.fibs.next := fun h => hfresh (h ▸ hsf)
    simp [created, Heap.alloc_cells, hne]

/-- `sfmc_fib_add` hands back the route it created, linked or not. -/
theorem sfmcFibAdd_spec (inv : s.FibInv) (network : U32) (hlen : len ≤ 32) (gateway : U32)
    (scope : U8) :
    Ensures s.fibTree.Refuses (s.sfmcFibAdd network len gateway scope) fun res =>
      (res = (none, s.requested) ∧ ∃ i, s.fibTree.grants i = false) ∨
      res.1 = some s.fibs.next ∧ ∃ tmp, (s.created (blankFib network len gateway scope)).Inserted
        s.fibs.next (blankFib network len gateway scope) (tmp, res.2) := by
  rw [sfmcFibAdd]
  cases hg : s.fibTree.grants s.fibTree.requests with
  | false =>
    rw [sfmcFibCreate_refused hg]
    exact .inl ⟨rfl, _, hg⟩
  | true =>
    rw [sfmcFibCreate_ok hg]
    have hr := inv.ready_create network hlen gateway scope
    simp only [ensures_bind]
    rw [← hr.frame.refuses]
    refine hr.inserts.mono ?_
    rintro ⟨tmp, s₂⟩ hins
    obtain ⟨t, rfl⟩ := hins.exists_route
    exact .inr ⟨rfl, some t, hins⟩

theorem sfmcFibDel_spec (inv : s.FibInv) (network : U32) (hlen : len ≤ 32) :
    ∃ res, s.sfmcFibDel network len = .ok res ∧
      ((s.routes.exact (maskBits network len) = none ∧ res = (-ENOENT, s)) ∨
        ∃ sf f, s.routes.exact (maskBits network len) = some sf ∧ sf ∈ s.fibList ∧
          s.fibs.cells sf = some f ∧ (f.entry sf).pfx = maskBits network len ∧ res.1 = 0 ∧
          s.Deleted sf res.2) := by
  have hfind := sfmcFibFindExact_eq inv network hlen
  cases hex : s.routes.exact (maskBits network len) with
  | none =>
    rw [hex] at hfind
    exact ⟨_, by simp only [sfmcFibDel, hfind, bind, Except.bind]; rfl, .inl ⟨rfl, rfl⟩⟩
  | some sf =>
    rw [hex] at hfind
    obtain ⟨e, he, rfl, hpfx⟩ := (Table.exact_eq_some inv.distinct).mp hex
    obtain ⟨hsf, f, hf, hp⟩ := mem_routes.mp he
    obtain ⟨s', hs', hdel⟩ := sfmcFibDelete_spec inv hsf
    refine ⟨(0, s'), by simp only [sfmcFibDel, hfind, hs', bind, Except.bind]; rfl,
      .inr ⟨e.ref, f, rfl, hsf, hf, ?_, rfl, hdel⟩⟩
    rw [← hpfx, hp]
    rfl

theorem fibInv_init (permAddr : Mac) (grants : ℕ → Bool) :
    (sfmcInit permAddr (freshZone grants)).FibInv := by
  have htree : (sfmcInit permAddr (freshZone grants)).fibTree.Inv :=
    Patricia.inv_newPatricia _ fun _ => rfl
  refine ⟨htree, by simp [sfmcInit], ?_, List.nodup_nil, by simp [sfmcInit], List.nodup_nil⟩
  intro r l hl
  obtain ⟨key, hk⟩ := htree
  rw [hk.label_eq_none rfl] at hl
  cases hl

end Sfmc

end Madcap
