import Madcap.Patricia.Effects

/-!
# Removing from the tree

`patricia_remove` takes a label away. A node with two children stays as a glue
node; any other node leaves the tree, and a glue node that is left with one child
leaves with it.
-/

namespace Madcap

open Trie

namespace Patricia

variable {p : Patricia} {key : ℕ → Key} {r : ℕ} {n : PatriciaNode} {l : Label} {q : Ref}

/-- The label of a node is gone and nothing else changed. -/
def Removed (p : Patricia) (r : ℕ) (p' : Patricia) : Prop :=
  p'.Inv ∧ p'.grants = p.grants ∧ p'.label = Function.update p.label r none

/-- The prefix of `r` is dropped; a glue node may go along. -/
theorem Keyed.erase (inv : p.Keyed key) {p' : Patricia} {g : CellGraph ℕ} {c' : ℕ → Option Content}
    {c : Content} (he : Effect p p' g c' (counted p.prefixes.cells q (-1)))
    (hr : p.content r = some c) (hq : c.pfx = some q) (hshape : g.WellFormed key)
    (hself : c' r = none ∨ c' r = some ⟨c.bit, none, none⟩ ∧ g.Full r)
    (hold : ∀ s ≠ r, c' s = p.content s ∨ c' s = none ∧ ∃ d, p.content s = some d ∧ d.pfx = none)
    (hfull : ∀ s d, c' s = some d → d.pfx = none → s ≠ r → p.graph.Full s → g.Full s) :
    p.Removed r p' := by
  have hown : ∀ {s d q'}, p.content s = some d → d.pfx = some q' → s ≠ r → q' ≠ q := by
    rintro s d q' hs hd hsr rfl
    exact hsr (inv.owner hs hr hd hq)
  have hold' : ∀ {s d}, c' s = some d → s ≠ r → p.content s = some d := by
    intro s d hs hsr
    rcases hold s hsr with h | ⟨h, -⟩
    · rw [← h, hs]
    · rw [h] at hs
      cases hs
  have hbare : ∀ {d}, c' r = some d → d = ⟨c.bit, none, none⟩ ∧ g.Full r := by
    intro d hd
    rcases hself with h | ⟨h, hf⟩
    · rw [h] at hd
      cases hd
    · rw [h] at hd
      exact ⟨(Option.some.inj hd).symm, hf⟩
  refine ⟨⟨key, he.maxbits.trans inv.maxbits, he.graph ▸ hshape, ?_, ?_, ?_, ?_⟩, he.grants, ?_⟩
  · intro s d hs
    rw [he.content] at hs
    by_cases hsr : s = r
    · subst hsr
      obtain ⟨rfl, -⟩ := hbare hs
      exact (inv.bit_le hr : c.bit ≤ 32)
    · exact inv.bit_le (hold' hs hsr)
  · intro s d q' hs hd
    rw [he.content] at hs
    rw [he.prefixes]
    by_cases hsr : s = r
    · subst hsr
      obtain ⟨rfl, -⟩ := hbare hs
      cases hd
    · rw [counted_of_ne (hown (hold' hs hsr) hd hsr)]
      exact inv.labelled (hold' hs hsr) hd
  · intro s d hs hd
    rw [he.content] at hs
    rw [he.graph]
    by_cases hsr : s = r
    · subst hsr
      obtain ⟨rfl, hf⟩ := hbare hs
      exact ⟨rfl, hf⟩
    · obtain ⟨hdata, hf⟩ := inv.glue (hold' hs hsr) hd
      exact ⟨hdata, hfull s d hs hd hsr hf⟩
  · intro s s' d d' q' hs hs' hd hd'
    rw [he.content] at hs hs'
    by_cases hsr : s = r
    · subst hsr
      obtain ⟨rfl, -⟩ := hbare hs
      cases hd
    · by_cases hsr' : s' = r
      · subst hsr'
        obtain ⟨rfl, -⟩ := hbare hs'
        cases hd'
      · exact inv.owner (hold' hs hsr) (hold' hs' hsr') hd hd'
  · funext s
    by_cases hsr : s = r
    · subst hsr
      rw [Function.update_self]
      rcases hself with h | ⟨h, -⟩ <;> simp [label, he.content, h]
    · rw [Function.update_of_ne hsr]
      rcases hold s hsr with h | ⟨h, d, hd, hdp⟩
      · simp only [label, he.content, he.prefixes, h]
        cases hs : p.content s with
        | none => rfl
        | some d =>
          cases hd : d.pfx with
          | none => simp [hd]
          | some q' => simp [hd, counted_of_ne (hown hs hd hsr)]
      · simp [label, he.content, h, hd, hdp]

theorem removeFull_spec (inv : p.Keyed key) (hn : p.nodes.cells r = some n) (hq : n.pfx = some q)
    (hfull : p.graph.Full r) :
    ∃ p₁ p₂, p.derefPrefix n.pfx = .ok p₁ ∧
      (p₁.setNode r fun m => { m with pfx := none, data := none }) = .ok p₂ ∧
      p.Removed r p₂ := by
  obtain ⟨t, ht, -, href, -⟩ := inv.labelled (content_eq hn) hq
  obtain ⟨p₁, hp₁, h₁⟩ := derefPrefix_spec ht href
  obtain ⟨p₂, hp₂, h₂⟩ := setNode_content (p := p₁) (r := r)
    (fun c => { c with pfx := none, data := none })
    (f := fun m => { m with pfx := none, data := none })
    (by simp [h₁.graph, graph_cell hn]) (fun _ => rfl) (fun _ => rfl)
  have he : Effect p p₂ p.graph
      (fun y => if y = r then some ⟨n.bit, none, none⟩ else p.content y)
      (counted p.prefixes.cells q (-1)) := by
    refine ⟨h₂.graph.trans h₁.graph, ?_, h₂.prefixes.trans h₁.prefixes,
      h₂.maxbits.trans h₁.maxbits, h₂.grants.trans h₁.grants⟩
    rw [h₂.content, h₁.content]
    funext y
    by_cases hy : y = r
    · subst hy
      simp [content_eq hn, PatriciaNode.content]
    · simp [hy]
  exact ⟨p₁, p₂, hq ▸ hp₁, hp₂, inv.erase he (content_eq hn) hq inv.shape
    (.inr ⟨if_pos rfl, hfull⟩) (fun s hs => .inl (if_neg hs)) fun s d _ _ _ h => h⟩

/-- A node with one child hands its place to the child. -/
theorem removeInner_spec (inv : p.Keyed key) (hn : p.nodes.cells r = some n) (hq : n.pfx = some q)
    {b : Bool} {child : ℕ} (hc : n.toCell.child b = some child)
    (hc' : n.toCell.child (!b) = none) :
    ∃ p', p.removeInner r n child = .ok p' ∧ p.Removed r p' := by
  have hcell := graph_cell hn
  obtain ⟨m, hm, hpm, hlt, -, -⟩ := inv.child_node hn hc
  obtain ⟨t, ht, -, href, -⟩ := inv.labelled (content_eq hn) hq
  have hself : n.parent ≠ some r := inv.shape.cell_parent_ne hcell
  have hrc : r ≠ child := by
    rintro rfl
    obtain rfl : n = m := by simpa [hn] using hm
    exact lt_irrefl _ hlt
  have hup : n.parent ≠ some child := by
    intro h
    obtain ⟨k, hk, hlt', -⟩ := inv.parent_node hn h
    obtain rfl : m = k := by simpa [hm] using hk
    omega
  obtain ⟨p₁, hp₁, h₁⟩ := setNode_links (p := p) (r := child)
    (f := fun c => { c with parent := n.parent }) (fun c => { c with parent := n.parent })
    (by simp [graph_cell hm]) (fun _ => rfl) (fun _ => rfl)
  obtain ⟨p₂, hp₂, h₂⟩ := derefPrefix_spec (p := p₁) (h₁.prefixes ▸ ht) href
  have h₃ := deleteNode_spec p₂ r
  have hpar : ∀ s, n.parent = some s → (p₂.deleteNode r).graph.cell s ≠ none := by
    intro s hs
    obtain ⟨k, hk, -⟩ := inv.parent_node hn hs
    have hsr : s ≠ r := fun h => hself (h ▸ hs)
    have hsc : s ≠ child := fun h => hup (h ▸ hs)
    simp [h₃.graph, h₂.graph, h₁.graph, hsr, hsc, graph_cell hk]
  obtain ⟨p₄, hp₄, h₄⟩ := replaceUnder_spec (p := p₂.deleteNode r) r (some child) hpar
  have he : Effect p p₄ (p.graph.contract r n.parent child)
      (fun y => if y = r then none else p.content y) (counted p.prefixes.cells q (-1)) := by
    refine ⟨?_, ?_, ?_, ?_, ?_⟩
    · rw [h₄.graph, h₃.graph, h₂.graph, h₁.graph]
      apply CellGraph.ext
      · funext y
        simp only [CellGraph.contract, CellGraph.relink_cell]
        by_cases hy : y = r
        · subst hy
          simp
        · by_cases hyc : y = child
          · subst hyc
            simp [hy, hup]
          · simp [hy, hyc]
      · simp [CellGraph.contract, CellGraph.relink_root]
    · rw [h₄.content, h₃.content, h₂.content, h₁.content]
    · rw [h₄.prefixes, h₃.prefixes, h₂.prefixes, h₁.prefixes]
    · exact h₄.maxbits.trans (h₃.maxbits.trans (h₂.maxbits.trans h₁.maxbits))
    · exact h₄.grants.trans (h₃.grants.trans (h₂.grants.trans h₁.grants))
  refine ⟨p₄, ?_, inv.erase he (content_eq hn) hq (inv.shape.contract hcell hc hc')
    (.inl (if_pos rfl)) (fun s hs => .inl (if_neg hs)) fun s d _ _ hs h => h.contract hs⟩
  simp only [removeInner, hp₁, hq, hp₂, hp₄, bind, Except.bind]

theorem unlinkLeaf_spec (inv : p.Keyed key) (hn : p.nodes.cells r = some n) (hq : n.pfx = some q)
    {pr : ℕ} {m : PatriciaNode} (hpn : n.parent = some pr) (hm : p.nodes.cells pr = some m) :
    ∃ p₁ p₃, p.derefPrefix n.pfx = .ok p₁ ∧ (p₁.deleteNode r).nodes.cells pr = some m ∧
      (p₁.deleteNode r).replaceUnder (some pr) r none = .ok p₃ ∧
      Effect p p₃ (p.graph.detach r n.parent)
        (fun y => if y = r then none else p.content y) (counted p.prefixes.cells q (-1)) := by
  obtain ⟨t, ht, -, href, -⟩ := inv.labelled (content_eq hn) hq
  obtain ⟨p₁, hp₁, h₁⟩ := derefPrefix_spec ht href
  have h₂ := deleteNode_spec p₁ r
  have hself : n.parent ≠ some r := inv.shape.cell_parent_ne (graph_cell hn)
  have hne : pr ≠ r := fun h => hself (h ▸ hpn)
  have hm₂ : (p₁.deleteNode r).nodes.cells pr = some m :=
    cells_eq (by simp [h₂.graph, h₁.graph, hne, graph_cell hm])
      (by simp [h₂.content, h₁.content, hne, content_eq hm])
  have hpar : ∀ s, n.parent = some s → (p₁.deleteNode r).graph.cell s ≠ none := by
    intro s hs
    obtain rfl : pr = s := by simpa [hpn] using hs
    simp [h₂.graph, h₁.graph, hne, graph_cell hm]
  obtain ⟨p₃, hp₃, h₃⟩ := replaceUnder_spec (p := p₁.deleteNode r) r none hpar
  have he : Effect p p₃ (p.graph.detach r n.parent)
      (fun y => if y = r then none else p.content y) (counted p.prefixes.cells q (-1)) := by
    refine ⟨?_, ?_, ?_, ?_, ?_⟩
    · rw [h₃.graph, h₂.graph, h₁.graph]
      apply CellGraph.ext
      · funext y
        simp only [CellGraph.detach, CellGraph.relink_cell]
        by_cases hy : y = r <;> simp [hy, hself]
      · simp [CellGraph.detach, CellGraph.relink_root]
    · rw [h₃.content, h₂.content, h₁.content]
    · rw [h₃.prefixes, h₂.prefixes, h₁.prefixes]
    · exact h₃.maxbits.trans (h₂.maxbits.trans h₁.maxbits)
    · exact h₃.grants.trans (h₂.grants.trans h₁.grants)
  rw [hpn] at hp₃
  exact ⟨p₁, p₃, hq ▸ hp₁, hm₂, hp₃, he⟩

/-- A glue node whose leaf `r` has been unlinked hands its place to its other child. -/
theorem dropGlue_spec (inv : p.Keyed key) (hn : p.nodes.cells r = some n)
    (hleaf : ∀ b, n.toCell.child b = none) {pr : ℕ} {m : PatriciaNode} (hpn : n.parent = some pr)
    (hm : p.nodes.cells pr = some m) (hmq : m.pfx = none) {p₃ : Patricia} {c : ℕ → Option Content}
    {t : ℕ → Option PrefixT} (he : Effect p p₃ (p.graph.detach r n.parent) c t) :
    ∃ s p₄ p₅, (if m.r = some r then m.l else m.r) = some s ∧
      p₃.replaceUnder m.parent pr (some s) = .ok p₄ ∧
      (p₄.setNode s fun c => { c with parent := m.parent }) = .ok p₅ ∧
      ((p.graph.detach r n.parent).contract pr m.parent s).WellFormed key ∧
      Effect p (p₅.deleteNode pr) ((p.graph.detach r n.parent).contract pr m.parent s)
        (fun y => if y = pr then none else c y) t := by
  have hcell := graph_cell hn
  have hmcell := graph_cell hm
  have hshape : (p.graph.detach r n.parent).WellFormed key := inv.shape.detach hcell hleaf
  have hslot : m.toCell.child (key r m.bit) = some r := inv.shape.child_of_parent hmcell hcell hpn
  have hself : n.parent ≠ some r := inv.shape.cell_parent_ne hcell
  have hne : pr ≠ r := fun h => hself (h ▸ hpn)
  obtain ⟨-, d, hd, hfull⟩ := inv.glue (content_eq hm) hmq
  obtain rfl : m.toCell = d := by simpa [hmcell] using hd
  set b := key r m.bit with hb
  obtain ⟨s, hs⟩ := Option.ne_none_iff_exists'.mp (hfull !b)
  have hother : m.toCell.child (!b) ≠ some r := inv.shape.other_child hmcell hslot
  have hchild : (if m.r = some r then m.l else m.r) = some s := by
    rw [← hs]
    cases hbv : b with
    | true =>
      rw [hbv] at hslot
      exact if_pos hslot
    | false =>
      rw [hbv] at hother
      exact if_neg hother
  have hcell₃ : (p.graph.detach r n.parent).cell pr = some (m.toCell.replace r none) := by
    simp [CellGraph.detach, CellGraph.relink_cell, hne, hpn, hmcell]
  have hkeep : (m.toCell.replace r none).child (!b) = some s := by
    rw [Cell.replace_child hslot hother, if_neg (by cases b <;> simp), hs]
  have hgone : (m.toCell.replace r none).child (!!b) = none := by
    rw [Cell.replace_child hslot hother, if_pos (by simp)]
  obtain ⟨e, hse, hpe, hlte, -, -⟩ := hshape.child_cell hcell₃ hkeep
  have hpar₄ : ∀ t, m.parent = some t → p₃.graph.cell t ≠ none := by
    intro t ht
    obtain ⟨k, hk, -⟩ := hshape.of_parent hcell₃ (by rw [Cell.replace_parent]; exact ht)
    simp [he.graph, hk]
  have hups : m.parent ≠ some s := by
    intro h
    obtain ⟨k, hk, hlt', -⟩ := hshape.of_parent hcell₃ (by rw [Cell.replace_parent]; exact h)
    obtain rfl : e = k := by simpa [hse] using hk
    omega
  obtain ⟨p₄, hp₄, h₄⟩ := replaceUnder_spec (p := p₃) pr (some s) hpar₄
  obtain ⟨p₅, hp₅, h₅⟩ := setNode_links (p := p₄) (r := s)
    (f := fun c => { c with parent := m.parent }) (fun c => { c with parent := m.parent })
    (by simp [h₄.graph, he.graph, CellGraph.relink_cell, hups, hse]) (fun _ => rfl) (fun _ => rfl)
  have h₆ := deleteNode_spec p₅ pr
  have hshape' : ((p.graph.detach r n.parent).contract pr m.parent s).WellFormed key := by
    have h := hshape.contract hcell₃ hkeep hgone
    rwa [Cell.replace_parent] at h
  refine ⟨s, p₄, p₅, hchild, hp₄, hp₅, hshape', ?_, ?_, ?_, ?_, ?_⟩
  · rw [h₆.graph, h₅.graph, h₄.graph, he.graph]
    apply CellGraph.ext
    · funext y
      simp only [CellGraph.contract, CellGraph.relink_cell]
      by_cases hy : y = pr
      · simp [hy]
      · by_cases hys : y = s
        · subst hys
          simp [hy, hups]
        · simp [hy, hys]
    · simp [CellGraph.contract, CellGraph.relink_root]
  · rw [h₆.content, h₅.content, h₄.content, he.content]
  · rw [h₆.prefixes, h₅.prefixes, h₄.prefixes, he.prefixes]
  · exact h₆.maxbits.trans (h₅.maxbits.trans (h₄.maxbits.trans he.maxbits))
  · exact h₆.grants.trans (h₅.grants.trans (h₄.grants.trans he.grants))

theorem removeRoot_spec (inv : p.Keyed key) (hn : p.nodes.cells r = some n) (hq : n.pfx = some q)
    (hleaf : ∀ b, n.toCell.child b = none) (hpn : n.parent = none) :
    ∃ p', p.removeLeaf r n = .ok p' ∧ p.Removed r p' := by
  obtain ⟨t, ht, -, href, -⟩ := inv.labelled (content_eq hn) hq
  obtain ⟨p₁, hp₁, h₁⟩ := derefPrefix_spec ht href
  have h₂ := deleteNode_spec p₁ r
  have he : Effect p { p₁.deleteNode r with head := none } (p.graph.detach r n.parent)
      (fun y => if y = r then none else p.content y) (counted p.prefixes.cells q (-1)) := by
    refine ⟨?_, ?_, h₂.prefixes.trans h₁.prefixes, h₂.maxbits.trans h₁.maxbits,
      h₂.grants.trans h₁.grants⟩
    · have hg := h₂.graph
      rw [h₁.graph] at hg
      have hcells := congrArg CellGraph.cell hg
      simp only [graph] at hcells ⊢
      simp [CellGraph.detach, CellGraph.relink_cell, CellGraph.relink_root, hpn, hcells]
    · change (p₁.deleteNode r).content = _
      rw [h₂.content, h₁.content]
  refine ⟨_, ?_, inv.erase he (content_eq hn) hq (inv.shape.detach (graph_cell hn) hleaf)
    (.inl (if_pos rfl)) (fun s hs => .inl (if_neg hs))
    fun s d _ _ hs h => h.detach hs (by simp [hpn])⟩
  simp only [removeLeaf, hq, hp₁, hpn, bind, Except.bind]
  rfl

/-- A leaf leaves the tree, and its parent follows if only the glue held it. -/
theorem removeLeaf_spec (inv : p.Keyed key) (hn : p.nodes.cells r = some n) (hq : n.pfx = some q)
    (hleaf : ∀ b, n.toCell.child b = none) :
    ∃ p', p.removeLeaf r n = .ok p' ∧ p.Removed r p' := by
  cases hpn : n.parent with
  | none => exact removeRoot_spec inv hn hq hleaf hpn
  | some pr =>
    obtain ⟨m, hm, -, -⟩ := inv.parent_node hn hpn
    obtain ⟨p₁, p₃, hp₁, hm₂, hp₃, he⟩ := unlinkLeaf_spec inv hn hq hpn hm
    have hrest : ∀ s d, (if s = r then none else p.content s) = some d → d.pfx = none → s ≠ r →
        s ≠ pr → p.graph.Full s → (p.graph.detach r n.parent).Full s := by
      intro s d _ _ hsr hsp h
      exact h.detach hsr (by rw [hpn]; simpa using hsp.symm)
    cases hmq : m.pfx with
    | some q' =>
      refine ⟨p₃, ?_, inv.erase he (content_eq hn) hq (inv.shape.detach (graph_cell hn) hleaf)
        (.inl (if_pos rfl)) (fun s hs => .inl (if_neg hs))
        fun s d hs hd hsr hf => hrest s d hs hd hsr ?_ hf⟩
      · simp only [removeLeaf, hp₁, hpn, Heap.read_eq hm₂, hp₃, hmq, bind, Except.bind]
        rfl
      · rintro rfl
        rw [if_neg hsr, content_eq hm] at hs
        obtain rfl := Option.some.inj hs
        have h : m.pfx = none := hd
        rw [hmq] at h
        cases h
    | none =>
      obtain ⟨s, p₄, p₅, hchild, hp₄, hp₅, hshape', he'⟩ :=
        dropGlue_spec inv hn hleaf hpn hm hmq he
      refine ⟨p₅.deleteNode pr, ?_, inv.erase he' (content_eq hn) hq
        hshape' (.inl (by simp)) (fun t ht => ?_)
        fun t d ht hd htr hf => ?_⟩
      · simp only [removeLeaf, hp₁, hpn, Heap.read_eq hm₂, hp₃, hmq, hchild, hp₄, hp₅, bind,
          Except.bind]
        rfl
      · by_cases htp : t = pr
        · subst htp
          exact .inr ⟨if_pos rfl, m.content, content_eq hm, hmq⟩
        · exact .inl (by rw [if_neg htp, if_neg ht])
      · have htp : t ≠ pr := by
          rintro rfl
          rw [if_pos rfl] at ht
          cases ht
        rw [if_neg htp] at ht
        exact (hrest t d ht hd htr htp hf).contract htp

/-- `patrica_remove` of a node with a label takes exactly that label away. -/
theorem patriciaRemove_spec (inv : p.Inv) (hl : p.label r = some l) :
    ∃ p', p.patriciaRemove r = .ok p' ∧ p.Removed r p' := by
  obtain ⟨key, inv⟩ := inv
  obtain ⟨n, q, -, hn, hq, -⟩ := inv.of_label hl
  have hread := Heap.read_eq hn
  cases hright : n.r with
  | none =>
    cases hleft : n.l with
    | none =>
      obtain ⟨p', hp', hrem⟩ := removeLeaf_spec inv hn hq fun b => by
        cases b
        · exact hleft
        · exact hright
      exact ⟨p', by simp only [patriciaRemove, hread, hright, hleft, bind, Except.bind, hp'], hrem⟩
    | some child =>
      obtain ⟨p', hp', hrem⟩ := removeInner_spec inv hn hq (b := false) hleft hright
      exact ⟨p', by simp only [patriciaRemove, hread, hright, hleft, bind, Except.bind, hp'], hrem⟩
  | some child =>
    cases hleft : n.l with
    | none =>
      obtain ⟨p', hp', hrem⟩ := removeInner_spec inv hn hq (b := true) hright hleft
      exact ⟨p', by simp only [patriciaRemove, hread, hright, hleft, bind, Except.bind, hp'], hrem⟩
    | some child' =>
      obtain ⟨p₁, p₂, hp₁, hp₂, hrem⟩ := removeFull_spec inv hn hq
        ⟨_, graph_cell hn, fun b => by
          cases b
          · exact Option.ne_none_iff_exists'.mpr ⟨child', hleft⟩
          · exact Option.ne_none_iff_exists'.mpr ⟨child, hright⟩⟩
      exact ⟨p₂, by simp only [patriciaRemove, hread, hright, hleft, bind, Except.bind, hp₁, hp₂],
        hrem⟩

end Patricia

end Madcap
