import Madcap.Patricia.Tree

/-!
# What a Patricia tree stands for

A tree is read in two ways. Its links form a trie in the sense of
`Madcap.Trie`; its contents say which node carries a prefix and which data. The
invariant ties the two together with a key for every node, and the labels of the
tree are what its callers reason about.
-/

namespace Madcap

open Trie

def PatriciaNode.toCell (n : PatriciaNode) : Cell ℕ where
  bit := n.bit
  left := n.l
  right := n.r
  parent := n.parent

/-- What a node says apart from its links. -/
structure Content where
  bit : ℕ
  pfx : Option Ref
  data : Option Ref

def PatriciaNode.content (n : PatriciaNode) : Content where
  bit := n.bit
  pfx := n.pfx
  data := n.data

/-- What a node with a prefix stands for. -/
structure Label where
  add : U32
  bitlen : ℕ
  data : Option Ref

/-- The label's prefix covers an address, among the prefixes up to a length. -/
def Label.Matches (l : Label) (addr : U32) (bound : ℕ) : Prop :=
  l.bitlen ≤ bound ∧ Agree l.bitlen (addrKey l.add) (addrKey addr)

/-- A refused request of a zone makes its caller write through a null pointer. -/
def Zone.Refuses (z : Zone) (f : Fault) : Prop :=
  f = .badAccess ∧ ∃ i, z.grants i = false

namespace Patricia

def graph (p : Patricia) : CellGraph ℕ where
  cell r := (p.nodes.cells r).map PatriciaNode.toCell
  root := p.head

def content (p : Patricia) (r : ℕ) : Option Content :=
  (p.nodes.cells r).map PatriciaNode.content

/-- The prefix and the data a node carries, if it carries a prefix. -/
def label (p : Patricia) (r : ℕ) : Option Label := do
  let c ← p.content r
  let q ← c.pfx
  let t ← p.prefixes.cells q
  return { add := t.add, bitlen := t.bitlen, data := c.data }

/-- The invariant with the key of every node. A prefix belongs to one node and is
counted at least twice, so that dropping it never frees it. -/
structure Keyed (p : Patricia) (key : ℕ → Key) : Prop where
  maxbits : p.maxbits = 32
  shape : p.graph.WellFormed key
  bit_le : ∀ {r c}, p.content r = some c → c.bit ≤ 32
  labelled : ∀ {r c q}, p.content r = some c → c.pfx = some q →
    ∃ t, p.prefixes.cells q = some t ∧ t.bitlen = c.bit ∧ 1 < t.refCount ∧
      Agree c.bit (addrKey t.add) (key r)
  glue : ∀ {r c}, p.content r = some c → c.pfx = none →
    c.data = none ∧ p.graph.Full r
  owner : ∀ {r s c d q}, p.content r = some c → p.content s = some d → c.pfx = some q →
    d.pfx = some q → r = s

def Inv (p : Patricia) : Prop := ∃ key, p.Keyed key

variable {p : Patricia} {key : ℕ → Key} {r s : ℕ} {n m : PatriciaNode} {l : Label}

theorem graph_cell (hr : p.nodes.cells r = some n) : p.graph.cell r = some n.toCell := by
  simp [graph, hr]

theorem content_eq (hr : p.nodes.cells r = some n) : p.content r = some n.content := by
  simp [content, hr]

theorem cells_eq (hg : p.graph.cell r = some n.toCell) (hc : p.content r = some n.content) :
    p.nodes.cells r = some n := by
  obtain ⟨m, hm, hmn⟩ : ∃ m, p.nodes.cells r = some m ∧ m.toCell = n.toCell := by
    simpa [graph] using hg
  have hcont : m.content = n.content := by simpa [content, hm] using hc
  rw [hm, Option.some.injEq]
  cases m
  cases n
  simp_all [PatriciaNode.toCell, PatriciaNode.content]

theorem node_of_cell {c : Cell ℕ} (hr : p.graph.cell r = some c) :
    ∃ n, p.nodes.cells r = some n ∧ n.toCell = c := by
  simpa [graph] using hr

theorem node_of_content {c : Content} (hr : p.content r = some c) :
    ∃ n, p.nodes.cells r = some n ∧ n.content = c := by
  simpa [content] using hr

theorem label_eq_some : p.label r = some l ↔ ∃ c q t, p.content r = some c ∧ c.pfx = some q ∧
    p.prefixes.cells q = some t ∧ l = { add := t.add, bitlen := t.bitlen, data := c.data } := by
  simp only [label, Option.bind_eq_bind, Option.bind_eq_some_iff, Option.pure_def,
    Option.some.injEq]
  constructor
  · rintro ⟨c, hc, q, hq, t, ht, rfl⟩
    exact ⟨c, q, t, hc, hq, ht, rfl⟩
  · rintro ⟨c, q, t, hc, hq, ht, rfl⟩
    exact ⟨c, hc, q, hq, t, ht, rfl⟩

theorem Keyed.label_of_pfx (inv : p.Keyed key) (hr : p.nodes.cells r = some n) {q : Ref}
    (hq : n.pfx = some q) :
    ∃ t, p.prefixes.cells q = some t ∧ t.bitlen = n.bit ∧ 1 < t.refCount ∧
      Agree n.bit (addrKey t.add) (key r) ∧
      p.label r = some { add := t.add, bitlen := t.bitlen, data := n.data } := by
  obtain ⟨t, ht, hbit, href, hag⟩ := inv.labelled (content_eq hr) hq
  exact ⟨t, ht, hbit, href, hag, label_eq_some.mpr ⟨_, q, t, content_eq hr, hq, ht, rfl⟩⟩

theorem Keyed.label_isSome (inv : p.Keyed key) (hr : p.nodes.cells r = some n) :
    (p.label r).isSome = n.pfx.isSome := by
  cases hq : n.pfx with
  | none => simp [label, content_eq hr, PatriciaNode.content, hq]
  | some q =>
    obtain ⟨t, -, -, -, -, hl⟩ := inv.label_of_pfx hr hq
    simp [hl]

/-- The node behind a label tests the bit after the prefix and covers its addresses. -/
theorem Keyed.of_label (inv : p.Keyed key) (hl : p.label r = some l) :
    ∃ n q t, p.nodes.cells r = some n ∧ n.pfx = some q ∧ p.prefixes.cells q = some t ∧
      t.add = l.add ∧ t.bitlen = l.bitlen ∧ n.data = l.data ∧ n.bit = l.bitlen ∧ 1 < t.refCount ∧
      Agree l.bitlen (addrKey l.add) (key r) := by
  obtain ⟨c, q, t, hc, hq, ht, rfl⟩ := label_eq_some.mp hl
  obtain ⟨n, hn, rfl⟩ := node_of_content hc
  obtain ⟨t', ht', hbit, href, hag⟩ := inv.labelled hc hq
  obtain rfl : t = t' := by simpa [ht] using ht'
  exact ⟨n, q, t, hn, hq, ht, rfl, rfl, rfl, hbit.symm, href, hbit ▸ hag⟩

theorem Keyed.label_le (inv : p.Keyed key) (hl : p.label r = some l) : l.bitlen ≤ 32 := by
  obtain ⟨n, q, t, hn, -, -, -, -, -, hbit, -, -⟩ := inv.of_label hl
  rw [← hbit]
  exact inv.bit_le (content_eq hn)

theorem Keyed.label_eq_none (inv : p.Keyed key) (h : p.head = none) : p.label s = none := by
  have hs : p.graph.cell s = none := inv.shape.cell_eq_none h s
  have hc : p.content s = none := by simpa [graph, content] using hs
  simp [label, hc]

theorem Inv.label_unique (inv : p.Inv) {m : Label} (hr : p.label r = some l)
    (hs : p.label s = some m) (hlen : l.bitlen = m.bitlen)
    (hag : Agree l.bitlen (addrKey l.add) (addrKey m.add)) : r = s := by
  obtain ⟨key, inv⟩ := inv
  obtain ⟨n, -, -, hn, -, -, -, -, -, hbit, -, hkey⟩ := inv.of_label hr
  obtain ⟨n', -, -, hn', -, -, -, -, -, hbit', -, hkey'⟩ := inv.of_label hs
  have hbits : n.toCell.bit = n'.toCell.bit := (hbit.trans hlen).trans hbit'.symm
  refine inv.shape.unique (graph_cell hn) (graph_cell hn') hbits ?_
  have h : Agree l.bitlen (key r) (key s) := (hkey.symm.trans hag).trans (hlen ▸ hkey')
  rwa [← hbit] at h

theorem next_child (n : PatriciaNode) (b : Bool) :
    (if b then n.r else n.l) = n.toCell.child b := by
  cases b <;> rfl

theorem Keyed.child_node (inv : p.Keyed key) (hr : p.nodes.cells r = some n) {b : Bool}
    (hs : n.toCell.child b = some s) :
    ∃ m, p.nodes.cells s = some m ∧ m.parent = some r ∧ n.bit < m.bit ∧
      Agree n.bit (key r) (key s) ∧ key s n.bit = b := by
  obtain ⟨d, hd, hp, hlt, hag, hb⟩ := inv.shape.child_cell (graph_cell hr) hs
  obtain ⟨m, hm, rfl⟩ := node_of_cell hd
  exact ⟨m, hm, hp, hlt, hag, hb⟩

theorem Keyed.parent_node (inv : p.Keyed key) (hs : p.nodes.cells s = some m)
    (hp : m.parent = some r) :
    ∃ n, p.nodes.cells r = some n ∧ n.bit < m.bit ∧ Agree n.bit (key r) (key s) := by
  obtain ⟨c, hc, hlt, hag⟩ := inv.shape.of_parent (graph_cell hs) hp
  obtain ⟨n, hn, rfl⟩ := node_of_cell hc
  exact ⟨n, hn, hlt, hag⟩

theorem Keyed.head_node (inv : p.Keyed key) (hr : p.head = some r) :
    ∃ n, p.nodes.cells r = some n ∧ n.parent = none := by
  obtain ⟨k, hk⟩ := inv.shape.root_iff.mp hr
  obtain ⟨c, hc, -, hp⟩ := CellGraph.link_eq_some.mp hk
  obtain ⟨n, hn, rfl⟩ := node_of_cell hc
  exact ⟨n, hn, hp⟩

theorem Keyed.below_head (inv : p.Keyed key) (hs : p.nodes.cells s = some m)
    (hr : p.head = some r) : p.graph.Below r s := by
  obtain ⟨r', hr', hb⟩ := inv.shape.below_root (graph_cell hs)
  obtain rfl : r = r' := by simpa [graph, hr] using hr'
  exact hb

theorem inv_newPatricia (z : Zone) (hz : ∀ r, z.nodes.cells r = none) :
    (newPatricia z 32).Inv := by
  have hc : ∀ r, (newPatricia z 32).content r = none := fun r => by
    simp [content, newPatricia, hz]
  have hl : ∀ r, (newPatricia z 32).graph.link r = none := fun r => by
    simp [CellGraph.link, graph, newPatricia, hz]
  refine ⟨fun _ _ => false, rfl, ⟨?_, ?_, ?_⟩, ?_, ?_, ?_, ?_⟩
  · intro r
    rw [hl]
    simp [graph, newPatricia]
  · intro r c b s hr
    simp [graph, newPatricia, hz] at hr
  · intro s k r hs
    rw [hl] at hs
    cases hs
  all_goals
    intros
    simp_all

end Patricia

end Madcap
