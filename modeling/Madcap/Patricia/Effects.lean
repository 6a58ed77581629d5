import Madcap.Patricia.Invariant

/-!
# The primitive writes

What each write of the tree code does to the links, to the contents and to the
prefixes. The insertion and removal proofs chain these effects and never look at
the memory again.
-/

namespace Madcap

open Trie

namespace Patricia

/-- `p'` came from `p` and now has the given links, contents and prefixes. -/
structure Effect (p p' : Patricia) (g : CellGraph ℕ) (c : ℕ → Option Content)
    (t : ℕ → Option PrefixT) : Prop where
  graph : p'.graph = g
  content : p'.content = c
  prefixes : p'.prefixes.cells = t
  maxbits : p'.maxbits = p.maxbits
  grants : p'.grants = p.grants

theorem Effect.refuses {p p' : Patricia} {g : CellGraph ℕ} {c : ℕ → Option Content}
    {t : ℕ → Option PrefixT} (h : Effect p p' g c t) : p'.Refuses = p.Refuses := by
  funext f
  rw [Zone.Refuses, Zone.Refuses, h.grants]

variable {p : Patricia} {r : ℕ} {n : PatriciaNode} {t : PrefixT} {q : Ref}

theorem toCell_setChild (m : PatriciaNode) (b : Bool) (z : Option Ref) :
    (if b then { m with r := z } else { m with l := z }).toCell = m.toCell.setChild b z := by
  cases b <;> rfl

theorem toCell_replace (m : PatriciaNode) (old : ℕ) (z : Option Ref) :
    (if m.r = some old then { m with r := z } else { m with l := z }).toCell =
      m.toCell.replace old z := by
  by_cases h : m.r = some old <;> simp [PatriciaNode.toCell, Cell.replace, h]

theorem setNode_eq {f : PatriciaNode → PatriciaNode} (hr : p.nodes.cells r = some n) :
    p.setNode r f = .ok { p with nodes := p.nodes.modify r f } := by
  simp only [setNode, Heap.write_eq hr]
  rfl

theorem setNode_spec {f : PatriciaNode → PatriciaNode} (g : Cell ℕ → Cell ℕ)
    (k : Content → Content) (hr : p.graph.cell r ≠ none)
    (hg : ∀ m, (f m).toCell = g m.toCell) (hk : ∀ m, (f m).content = k m.content) :
    ∃ p', p.setNode r f = .ok p' ∧ Effect p p'
      ⟨fun y => if y = r then (p.graph.cell y).map g else p.graph.cell y, p.graph.root⟩
      (fun y => if y = r then (p.content y).map k else p.content y) p.prefixes.cells := by
  obtain ⟨c, hc⟩ := Option.ne_none_iff_exists'.mp hr
  obtain ⟨n, hn, -⟩ := node_of_cell hc
  refine ⟨_, setNode_eq hn, ⟨?_, ?_, rfl, rfl, rfl⟩⟩
  · simp only [graph, Heap.modify_cells, CellGraph.mk.injEq, and_true]
    funext y
    split_ifs
    · cases p.nodes.cells y <;> simp [hg]
    · rfl
  · funext y
    simp only [content, Heap.modify_cells]
    split_ifs
    · cases p.nodes.cells y <;> simp [hk]
    · rfl

theorem setNode_links {f : PatriciaNode → PatriciaNode} (g : Cell ℕ → Cell ℕ)
    (hr : p.graph.cell r ≠ none) (hg : ∀ m, (f m).toCell = g m.toCell)
    (hk : ∀ m, (f m).content = m.content) :
    ∃ p', p.setNode r f = .ok p' ∧ Effect p p'
      ⟨fun y => if y = r then (p.graph.cell y).map g else p.graph.cell y, p.graph.root⟩
      p.content p.prefixes.cells := by
  obtain ⟨p', hp', he⟩ := setNode_spec g id hr hg hk
  refine ⟨p', hp', ⟨he.graph, ?_, he.prefixes, he.maxbits, he.grants⟩⟩
  rw [he.content]
  funext y
  simp

theorem setNode_content {f : PatriciaNode → PatriciaNode} (k : Content → Content)
    (hr : p.graph.cell r ≠ none) (hg : ∀ m, (f m).toCell = m.toCell)
    (hk : ∀ m, (f m).content = k m.content) :
    ∃ p', p.setNode r f = .ok p' ∧ Effect p p' p.graph
      (fun y => if y = r then (p.content y).map k else p.content y) p.prefixes.cells := by
  obtain ⟨p', hp', he⟩ := setNode_spec id k hr hg hk
  refine ⟨p', hp', ⟨?_, he.content, he.prefixes, he.maxbits, he.grants⟩⟩
  rw [he.graph]
  simp

theorem replaceUnder_spec (old : ℕ) (z : Option ℕ) {parent : Option ℕ}
    (hp : ∀ r, parent = some r → p.graph.cell r ≠ none) :
    ∃ p', p.replaceUnder parent old z = .ok p' ∧
      Effect p p' (p.graph.relink parent old z) p.content p.prefixes.cells := by
  cases parent with
  | none => exact ⟨{ p with head := z }, rfl, ⟨rfl, rfl, rfl, rfl, rfl⟩⟩
  | some r =>
    refine setNode_links _ (hp r rfl) (fun m => toCell_replace m old z) fun m => ?_
    split_ifs <;> rfl

theorem kmallocNode_spec (p : Patricia) (node : PatriciaNode) :
    Ensures p.Refuses (p.kmallocNode node) fun res =>
      p.graph.cell res.1 = none ∧ p.content res.1 = none ∧ Effect p res.2
        ⟨fun y => if y = res.1 then some node.toCell else p.graph.cell y, p.graph.root⟩
        (fun y => if y = res.1 then some node.content else p.content y) p.prefixes.cells := by
  cases h : p.grants p.requests with
  | true =>
    simp only [kmallocNode, kmalloc, h, ensures_ok]
    refine ⟨by simp [graph, Heap.cells_next], by simp [content, Heap.cells_next],
      ⟨?_, ?_, rfl, rfl, rfl⟩⟩
    · simp only [graph, Heap.alloc_cells, CellGraph.mk.injEq, and_true]
      funext y
      split_ifs <;> rfl
    · funext y
      simp only [content, Heap.alloc_cells]
      split_ifs <;> rfl
  | false =>
    simp only [kmallocNode, kmalloc, h, ensures_error]
    exact ⟨rfl, _, h⟩

theorem kmallocNode_eq_ok {node : PatriciaNode} {res : Ref × Patricia}
    (h : p.kmallocNode node = .ok res) : p.grants p.requests = true ∧
      res = (p.nodes.next, { p with requests := p.requests + 1, nodes := p.nodes.alloc node }) := by
  unfold kmallocNode kmalloc at h
  cases hg : p.grants p.requests with
  | false =>
    simp only [hg] at h
    cases h
  | true =>
    simp only [hg] at h
    exact ⟨rfl, (Except.ok.inj h).symm⟩

def counted (cells : ℕ → Option PrefixT) (q : ℕ) (d : ℤ) (y : ℕ) : Option PrefixT :=
  if y = q then (cells y).map fun t => { t with refCount := t.refCount + d } else cells y

theorem counted_of_ne {cells : ℕ → Option PrefixT} {q y : ℕ} {d : ℤ} (h : y ≠ q) :
    counted cells q d y = cells y := if_neg h

theorem counted_self {cells : ℕ → Option PrefixT} {q : ℕ} {d : ℤ} {t : PrefixT}
    (h : cells q = some t) :
    counted cells q d q = some { t with refCount := t.refCount + d } := by
  simp [counted, h]

theorem refPrefix_spec (hq : p.prefixes.cells q = some t) (ht : 0 < t.refCount) :
    ∃ p', p.refPrefix q = .ok (some q, p') ∧
      Effect p p' p.graph p.content (counted p.prefixes.cells q 1) := by
  have hne : t.refCount ≠ 0 := by omega
  refine ⟨{ p with
    prefixes := p.prefixes.modify q fun t => { t with refCount := t.refCount + 1 } }, ?_,
    ⟨rfl, rfl, ?_, rfl, rfl⟩⟩
  · simp only [refPrefix, Heap.read_eq hq, Heap.write_eq hq, bind, Except.bind, if_neg hne]
    rfl
  · funext y
    exact Heap.modify_cells

/-- A prefix counted at least twice outlives a `Deref_Prefix`. -/
theorem derefPrefix_spec (hq : p.prefixes.cells q = some t) (ht : 1 < t.refCount) :
    ∃ p', p.derefPrefix (some q) = .ok p' ∧
      Effect p p' p.graph p.content (counted p.prefixes.cells q (-1)) := by
  have hread : (p.prefixes.modify q fun t => { t with refCount := t.refCount - 1 }).read q =
      .ok { t with refCount := t.refCount - 1 } :=
    Heap.read_eq (by simp [Heap.modify_cells, hq])
  have hpos : ¬ t.refCount - 1 ≤ 0 := by omega
  refine ⟨{ p with
    prefixes := p.prefixes.modify q fun t => { t with refCount := t.refCount - 1 } }, ?_,
    ⟨rfl, rfl, ?_, rfl, rfl⟩⟩
  · simp only [derefPrefix, Heap.write_eq hq, bind, Except.bind, hread, if_neg hpos]
    rfl
  · funext y
    exact Heap.modify_cells

theorem deleteNode_spec (p : Patricia) (r : ℕ) : Effect p (p.deleteNode r)
    ⟨fun y => if y = r then none else p.graph.cell y, p.graph.root⟩
    (fun y => if y = r then none else p.content y) p.prefixes.cells := by
  refine ⟨?_, ?_, rfl, rfl, rfl⟩
  · simp only [graph, deleteNode, Heap.free_cells, CellGraph.mk.injEq, and_true]
    funext y
    split_ifs <;> rfl
  · funext y
    simp only [content, deleteNode, Heap.free_cells]
    split_ifs <;> rfl

/-- A new leaf that nothing links to yet, holding one reference to its prefix. -/
theorem newNode_spec {bitlen : ℕ} (hq : p.prefixes.cells q = some t) (ht : 0 < t.refCount) :
    Ensures p.Refuses (p.newNode q bitlen) fun res =>
      p.graph.cell res.1 = none ∧ p.content res.1 = none ∧ Effect p res.2
        ⟨fun y => if y = res.1 then some ⟨bitlen, none, none, none⟩ else p.graph.cell y,
          p.graph.root⟩
        (fun y => if y = res.1 then some ⟨bitlen, some q, none⟩ else p.content y)
        (counted p.prefixes.cells q 1) := by
  rw [newNode, ensures_bind]
  refine (kmallocNode_spec p _).mono ?_
  rintro ⟨x, p₁⟩ ⟨hxg, hxc, h₁⟩
  obtain ⟨p₂, hp₂, h₂⟩ := refPrefix_spec (p := p₁) (h₁.prefixes ▸ hq) ht
  obtain ⟨p₃, hp₃, h₃⟩ := setNode_content (p := p₂) (r := x) (fun c => { c with pfx := some q })
    (f := fun n => { n with pfx := some q }) (by simp [h₂.graph, h₁.graph]) (fun _ => rfl)
    (fun _ => rfl)
  simp only [ensures_bind, ensures_ok, hp₂, hp₃, ensures_pure]
  refine ⟨hxg, hxc, ⟨?_, ?_, ?_, ?_, ?_⟩⟩
  · change p₃.graph = _
    rw [h₃.graph, h₂.graph, h₁.graph]
    rfl
  · change p₃.content = _
    rw [h₃.content, h₂.content, h₁.content]
    funext y
    by_cases hy : y = x <;> simp [hy, PatriciaNode.content]
  · change p₃.prefixes.cells = _
    rw [h₃.prefixes, h₂.prefixes, h₁.prefixes]
  · exact h₃.maxbits.trans (h₂.maxbits.trans h₁.maxbits)
  · exact h₃.grants.trans (h₂.grants.trans h₁.grants)

end Patricia

end Madcap
