import Mathlib.Tactic

/-!
# Path-compressed binary tries with parent links

The nodes of a trie are cells that refer to each other by address. A cell tests
one bit of a key and sends it to one of two children; cells in between that
would have a single child are skipped. Each address carries a key that says
which part of the key space the subtree under it covers. With that key the
invariant is local: it relates a cell to its children and to its parent only,
and every fact about paths follows by climbing parent links.
-/

namespace Madcap.Trie

/-- Keys are bit sequences, the bit tested first coming first. -/
abbrev Key := ℕ → Bool

/-- The first `n` bits coincide. -/
def Agree (n : ℕ) (a b : Key) : Prop := ∀ i < n, a i = b i

theorem Agree.refl (n : ℕ) (a : Key) : Agree n a a := fun _ _ => rfl

theorem Agree.symm {n : ℕ} {a b : Key} (h : Agree n a b) : Agree n b a :=
  fun i hi => (h i hi).symm

theorem Agree.trans {n : ℕ} {a b c : Key} (h : Agree n a b) (h' : Agree n b c) : Agree n a c :=
  fun i hi => (h i hi).trans (h' i hi)

theorem Agree.mono {m n : ℕ} {a b : Key} (hmn : m ≤ n) (h : Agree n a b) : Agree m a b :=
  fun i hi => h i (lt_of_lt_of_le hi hmn)

theorem Agree.bit {n i : ℕ} {a b : Key} (h : Agree n a b) (hi : i < n) : a i = b i := h i hi

/-- The links of one node. -/
structure Cell (R : Type*) where
  bit : ℕ
  left : Option R
  right : Option R
  parent : Option R

namespace Cell

variable {R : Type*}

def child (c : Cell R) (b : Bool) : Option R := if b then c.right else c.left

def setChild (c : Cell R) (b : Bool) (x : Option R) : Cell R :=
  if b then { c with right := x } else { c with left := x }

/-- Put `x` where `old` stands; a cell that is not the right child is the left one. -/
def replace [DecidableEq R] (c : Cell R) (old : R) (x : Option R) : Cell R :=
  if c.right = some old then { c with right := x } else { c with left := x }

@[simp] theorem child_true (c : Cell R) : c.child true = c.right := rfl

@[simp] theorem child_false (c : Cell R) : c.child false = c.left := rfl

@[simp] theorem setChild_bit (c : Cell R) (b : Bool) (x : Option R) :
    (c.setChild b x).bit = c.bit := by
  cases b <;> rfl

@[simp] theorem setChild_parent (c : Cell R) (b : Bool) (x : Option R) :
    (c.setChild b x).parent = c.parent := by
  cases b <;> rfl

theorem setChild_child (c : Cell R) (b b' : Bool) (x : Option R) :
    (c.setChild b x).child b' = if b' = b then x else c.child b' := by
  cases b <;> cases b' <;> rfl

variable [DecidableEq R]

@[simp] theorem replace_bit (c : Cell R) (old : R) (x : Option R) :
    (c.replace old x).bit = c.bit := by
  unfold replace
  split_ifs <;> rfl

@[simp] theorem replace_parent (c : Cell R) (old : R) (x : Option R) :
    (c.replace old x).parent = c.parent := by
  unfold replace
  split_ifs <;> rfl

theorem replace_child {c : Cell R} {old : R} {b : Bool} (h : c.child b = some old)
    (h' : c.child (!b) ≠ some old) (b' : Bool) (x : Option R) :
    (c.replace old x).child b' = if b' = b then x else c.child b' := by
  cases b <;> cases b' <;> simp_all [replace, child]

end Cell

/-- Cells by address, with the entry point of the trie. -/
@[ext] structure CellGraph (R : Type*) where
  cell : R → Option (Cell R)
  root : Option R

namespace CellGraph

variable {R : Type*}

/-- The tested bit and the parent link of an address: the forest of the trie. -/
def link (g : CellGraph R) (r : R) : Option (ℕ × Option R) :=
  (g.cell r).map fun c => (c.bit, c.parent)

/-- The local invariant. The parent links make a forest in which tested bits
increase downwards and a child's key continues its parent's key; the root and
the child links are exactly what the parent links and the keys dictate. -/
structure WellFormed (g : CellGraph R) (key : R → Key) : Prop where
  root_iff : ∀ {r}, g.root = some r ↔ ∃ n, g.link r = some (n, none)
  child_iff : ∀ {r c b s}, g.cell r = some c → (c.child b = some s ↔
    ∃ n, g.link s = some (n, some r) ∧ key s c.bit = b)
  of_link : ∀ {s n r}, g.link s = some (n, some r) →
    ∃ m p, g.link r = some (m, p) ∧ m < n ∧ Agree m (key r) (key s)

/-- Both children are there. -/
def Full (g : CellGraph R) (r : R) : Prop := ∃ c, g.cell r = some c ∧ ∀ b, c.child b ≠ none

/-- Reached from `r` by following child links downwards. -/
inductive Below (g : CellGraph R) (r : R) : R → Prop
  | refl : Below g r r
  | step {s p : R} {d : Cell R} : g.cell s = some d → d.parent = some p → Below g r p → Below g r s

variable {g : CellGraph R} {key : R → Key} {r s t : R} {c d e : Cell R}

theorem link_eq (hr : g.cell r = some c) : g.link r = some (c.bit, c.parent) := by
  simp [link, hr]

theorem link_eq_some {n : ℕ} {p : Option R} :
    g.link r = some (n, p) ↔ ∃ c, g.cell r = some c ∧ c.bit = n ∧ c.parent = p := by
  simp [link]

theorem link_eq_none : g.link r = none ↔ g.cell r = none := by
  simp [link]

theorem WellFormed.of_parent (wf : g.WellFormed key) (hs : g.cell s = some d)
    (hp : d.parent = some r) :
    ∃ c, g.cell r = some c ∧ c.bit < d.bit ∧ Agree c.bit (key r) (key s) := by
  obtain ⟨m, p, hr, hlt, hag⟩ := wf.of_link (hp ▸ link_eq hs)
  obtain ⟨c, hc, rfl, -⟩ := link_eq_some.mp hr
  exact ⟨c, hc, hlt, hag⟩

theorem WellFormed.child_cell (wf : g.WellFormed key) {b : Bool} (hr : g.cell r = some c)
    (hs : c.child b = some s) :
    ∃ d, g.cell s = some d ∧ d.parent = some r ∧ c.bit < d.bit ∧
      Agree c.bit (key r) (key s) ∧ key s c.bit = b := by
  obtain ⟨n, hn, hb⟩ := (wf.child_iff hr).mp hs
  obtain ⟨d, hd, rfl, hp⟩ := link_eq_some.mp hn
  obtain ⟨c', hc', hlt, hag⟩ := wf.of_parent hd hp
  obtain rfl : c = c' := by simpa [hr] using hc'
  exact ⟨d, hd, hp, hlt, hag, hb⟩

theorem WellFormed.child_of_parent (wf : g.WellFormed key) (hr : g.cell r = some c)
    (hs : g.cell s = some d) (hp : d.parent = some r) : c.child (key s c.bit) = some s :=
  (wf.child_iff hr).mpr ⟨d.bit, hp ▸ link_eq hs, rfl⟩

theorem WellFormed.other_child (wf : g.WellFormed key) {b : Bool} (hr : g.cell r = some c)
    (hb : c.child b = some s) : c.child (!b) ≠ some s := by
  intro hb'
  obtain ⟨_, -, -, -, -, h⟩ := wf.child_cell hr hb
  obtain ⟨_, -, -, -, -, h'⟩ := wf.child_cell hr hb'
  cases b <;> simp_all

theorem Below.parent (h : Below g r s) (hne : s ≠ r) (hs : g.cell s = some d)
    (hp : d.parent = some t) : Below g r t := by
  cases h with
  | refl => exact absurd rfl hne
  | @step _ p d' hs' hp' hb =>
    obtain rfl : d = d' := by simpa [hs] using hs'
    obtain rfl : t = p := by simpa [hp] using hp'
    exact hb

theorem Below.trans (h : Below g r s) (h' : Below g s t) : Below g r t := by
  induction h' with
  | refl => exact h
  | step ht hp _ ih => exact .step ht hp ih

/-- Going down, the tested bit grows and the key is continued. -/
theorem Below.spec (wf : g.WellFormed key) (h : Below g r s) (hr : g.cell r = some c) :
    ∀ {d}, g.cell s = some d → Agree c.bit (key r) (key s) ∧ (s = r ∨ c.bit < d.bit) := by
  induction h with
  | refl => exact fun _ => ⟨Agree.refl _ _, .inl rfl⟩
  | @step s p d hs hp _ ih =>
    intro d' hd'
    obtain rfl : d' = d := by simpa [hs] using hd'.symm
    obtain ⟨e, he, hlt, hag⟩ := wf.of_parent hs hp
    obtain ⟨hag', hor⟩ := ih he
    have hle : c.bit ≤ e.bit := by
      rcases hor with rfl | hlt'
      · obtain rfl : e = c := by simpa [hr] using he.symm
        exact le_rfl
      · exact hlt'.le
    exact ⟨hag'.trans (hag.mono hle), .inr (lt_of_le_of_lt hle hlt)⟩

theorem Below.bit_le (wf : g.WellFormed key) (h : Below g r s) (hr : g.cell r = some c)
    (hs : g.cell s = some d) : c.bit ≤ d.bit := by
  rcases (h.spec wf hr hs).2 with rfl | hlt
  · obtain rfl : c = d := by simpa [hr] using hs
    exact le_rfl
  · exact hlt.le

theorem Below.child (wf : g.WellFormed key) (h : Below g r s) (hr : g.cell r = some c)
    (hne : s ≠ r) : ∃ t, c.child (key s c.bit) = some t ∧ Below g t s := by
  induction h with
  | refl => exact absurd rfl hne
  | @step s p d hs hp hb ih =>
    obtain ⟨e, he, -, hag⟩ := wf.of_parent hs hp
    by_cases hpr : p = r
    · subst hpr
      obtain rfl : e = c := by simpa [hr] using he.symm
      exact ⟨s, wf.child_of_parent hr hs hp, .refl⟩
    · obtain ⟨t, ht, hbt⟩ := ih hpr
      have hlt : c.bit < e.bit := ((hb.spec wf hr he).2).resolve_left hpr
      refine ⟨t, ?_, .step hs hp hbt⟩
      rwa [← hag.bit hlt]

/-- One step of a search that follows a key agreeing with a node's key stays above
that node. -/
theorem Below.descend (wf : g.WellFormed key) (h : Below g r s) (hr : g.cell r = some c)
    (hs : g.cell s = some d) (hlt : c.bit < d.bit) {probe : Key}
    (hk : key s c.bit = probe c.bit) :
    ∃ t, c.child (probe c.bit) = some t ∧ Below g t s := by
  have hne : s ≠ r := by
    rintro rfl
    obtain rfl : c = d := by simpa [hr] using hs
    exact lt_irrefl _ hlt
  rw [← hk]
  exact h.child wf hr hne

theorem WellFormed.below_root (wf : g.WellFormed key) :
    ∀ {s d}, g.cell s = some d → ∃ r, g.root = some r ∧ Below g r s := by
  suffices ∀ n, ∀ {s d}, g.cell s = some d → d.bit = n → ∃ r, g.root = some r ∧ Below g r s from
    fun {_ _} hs => this _ hs rfl
  intro n
  induction n using Nat.strong_induction_on with
  | _ n ih =>
    intro s d hs hn
    cases hp : d.parent with
    | none => exact ⟨s, wf.root_iff.mpr ⟨d.bit, hp ▸ link_eq hs⟩, .refl⟩
    | some p =>
      obtain ⟨c, hc, hlt, -⟩ := wf.of_parent hs hp
      obtain ⟨r, hr, hb⟩ := ih c.bit (hn ▸ hlt) hc rfl
      exact ⟨r, hr, .step hs hp hb⟩

theorem Below.eq_of_agree (wf : g.WellFormed key) (hs : g.cell s = some d) (ht : g.cell t = some e)
    (hbit : d.bit = e.bit) (hag : Agree d.bit (key s) (key t)) :
    ∀ {r c}, g.cell r = some c → Below g r s → Below g r t → s = t := by
  suffices ∀ n, ∀ {r c}, g.cell r = some c → d.bit - c.bit = n → Below g r s → Below g r t → s = t
    from fun {_ _} hr => this _ hr rfl
  intro n
  induction n using Nat.strong_induction_on with
  | _ n ih =>
    intro r c hr hn hbs hbt
    rcases (hbs.spec wf hr hs).2 with rfl | hlt
    · rcases (hbt.spec wf hr ht).2 with h | hlt
      · exact h.symm
      · obtain rfl : c = d := by simpa [hr] using hs
        omega
    · obtain ⟨u, hu, hbu⟩ := hbs.descend wf hr hs hlt rfl
      obtain ⟨v, hv, hbv⟩ := hbt.descend wf hr ht (hbit ▸ hlt) (hag.bit hlt).symm
      obtain rfl : u = v := by simpa [hu] using hv
      obtain ⟨f, hf, -, hlt', -, -⟩ := wf.child_cell hr hu
      have hle := hbu.bit_le wf hf hs
      exact ih (d.bit - f.bit) (by omega) hf rfl hbu hbv

/-- Two nodes that test the same bit and cover the same keys are the same node. -/
theorem WellFormed.unique (wf : g.WellFormed key) (hs : g.cell s = some d)
    (ht : g.cell t = some e) (hbit : d.bit = e.bit) (hag : Agree d.bit (key s) (key t)) :
    s = t := by
  obtain ⟨r, hr, hbs⟩ := wf.below_root hs
  obtain ⟨r', hr', hbt⟩ := wf.below_root ht
  obtain rfl : r = r' := by simpa [hr] using hr'
  obtain ⟨n, hn⟩ := wf.root_iff.mp hr
  obtain ⟨c, hc, -, -⟩ := link_eq_some.mp hn
  exact Below.eq_of_agree wf hs ht hbit hag hc hbs hbt

theorem WellFormed.cell_eq_none (wf : g.WellFormed key) (h : g.root = none) (s : R) :
    g.cell s = none := by
  cases hs : g.cell s with
  | none => rfl
  | some d =>
    obtain ⟨r, hr, -⟩ := wf.below_root hs
    rw [h] at hr
    cases hr

theorem WellFormed.parent_ne (wf : g.WellFormed key) (hr : g.cell r = none) {m : ℕ} (s : R) :
    g.link s ≠ some (m, some r) := by
  intro hs
  obtain ⟨_, _, h, -⟩ := wf.of_link hs
  rw [link_eq_none.mpr hr] at h
  cases h

theorem WellFormed.link_ne_self (wf : g.WellFormed key) {m : ℕ} : g.link r ≠ some (m, some r) := by
  intro h
  obtain ⟨m', p, h', hlt, -⟩ := wf.of_link h
  obtain ⟨rfl, -⟩ : m = m' ∧ some r = p := by simpa [h] using h'
  exact lt_irrefl _ hlt

theorem WellFormed.cell_parent_ne (wf : g.WellFormed key) (hr : g.cell r = some c) :
    c.parent ≠ some r := by
  intro h
  exact wf.link_ne_self (h ▸ link_eq hr)

theorem WellFormed.cell_parent_ne_of_none (wf : g.WellFormed key) (hr : g.cell r = some c)
    (hs : g.cell s = none) : c.parent ≠ some s := by
  intro h
  exact wf.parent_ne hs r (h ▸ link_eq hr)

section Operations

variable [DecidableEq R] {x : R} {n : ℕ} {b : Bool} {k : Key}

/-- The trie with the single node `x`. -/
def single (x : R) (n : ℕ) : CellGraph R where
  cell := fun y => if y = x then some ⟨n, none, none, none⟩ else none
  root := some x

/-- Put `x` in the place `old` has under `parent`, or at the root. -/
def relink (g : CellGraph R) (parent : Option R) (old : R) (x : Option R) : CellGraph R :=
  match parent with
  | none => { g with root := x }
  | some p => { g with cell := fun y =>
      if y = p then (g.cell y).map fun c => c.replace old x else g.cell y }

/-- A new leaf `x` on the free side `b` of `p`. -/
def attach (g : CellGraph R) (p : R) (b : Bool) (x : R) (n : ℕ) : CellGraph R where
  cell := fun y =>
    if y = x then some ⟨n, none, none, some p⟩
    else if y = p then (g.cell y).map fun c => c.setChild b (some x)
    else g.cell y
  root := g.root

/-- A new node `x` between `r` and its parent, with `r` on side `b`. -/
def splice (g : CellGraph R) (r : R) (parent : Option R) (b : Bool) (x : R) (n : ℕ) : CellGraph R where
  cell := fun y =>
    if y = x then some (Cell.setChild ⟨n, none, none, parent⟩ b (some r))
    else if y = r then (g.cell y).map fun c => { c with parent := some x }
    else (g.relink parent r (some x)).cell y
  root := (g.relink parent r (some x)).root

/-- Remove the leaf `r`. -/
def detach (g : CellGraph R) (r : R) (parent : Option R) : CellGraph R where
  cell := fun y => if y = r then none else (g.relink parent r none).cell y
  root := (g.relink parent r none).root

/-- Remove `r`, whose only child is `t`, and let `t` take its place. -/
def contract (g : CellGraph R) (r : R) (parent : Option R) (t : R) : CellGraph R where
  cell := fun y =>
    if y = r then none
    else if y = t then (g.cell y).map fun c => { c with parent := parent }
    else (g.relink parent r (some t)).cell y
  root := (g.relink parent r (some t)).root

theorem relink_cell (parent : Option R) (old : R) (z : Option R) (y : R) :
    (g.relink parent old z).cell y =
      if parent = some y then (g.cell y).map fun c => c.replace old z else g.cell y := by
  cases parent with
  | none => rfl
  | some p =>
    simp only [relink, Option.some.injEq]
    by_cases h : y = p
    · simp [h]
    · simp [h, Ne.symm h]

theorem relink_root (parent : Option R) (old : R) (z : Option R) :
    (g.relink parent old z).root = if parent = none then z else g.root := by
  cases parent <;> simp [relink]

theorem relink_link (parent : Option R) (old : R) (z : Option R) (y : R) :
    (g.relink parent old z).link y = g.link y := by
  simp only [link, relink_cell]
  split_ifs
  · cases g.cell y <;> simp
  · rfl

/-- Relinking at the parent changes exactly the child slot that held the node. -/
theorem WellFormed.relink_cell (wf : g.WellFormed key) (hr : g.cell r = some c) {z : Option R}
    {y : R} {e' : Cell R} (hy : (g.relink c.parent r z).cell y = some e') :
    ∃ e, g.cell y = some e ∧ e'.bit = e.bit ∧ ∀ b,
      e'.child b = if c.parent = some y ∧ b = key r e.bit then z else e.child b := by
  rw [CellGraph.relink_cell] at hy
  split_ifs at hy with hp
  · obtain ⟨e, he, rfl⟩ := Option.map_eq_some_iff.mp hy
    have hc := wf.child_of_parent he hr hp
    refine ⟨e, he, e.replace_bit _ _, fun b => ?_⟩
    rw [Cell.replace_child hc (wf.other_child he hc)]
    simp [hp]
  · refine ⟨e', hy, rfl, fun b => ?_⟩
    rw [if_neg]
    rintro ⟨h, -⟩
    exact hp h

theorem wellFormed_single (x : R) (n : ℕ) (key : R → Key) : (single x n).WellFormed key := by
  have hl : ∀ y, (single x n).link y = if y = x then some (n, none) else none := by
    intro y
    by_cases h : y = x <;> simp [link, single, h]
  have hroot : (single x n).root = some x := rfl
  constructor
  · intro r
    rw [hroot, hl]
    by_cases h : r = x
    · simp [h]
    · simp [h, Ne.symm h]
  · intro r c b s hr
    rw [hl]
    simp only [single] at hr
    split_ifs at hr
    obtain rfl : _ = c := Option.some.inj hr
    cases b <;> grind [Cell.child]
  · intro s m r hs
    rw [hl] at hs
    split_ifs at hs
    cases hs

theorem attach_link (hr : g.cell r = some c) (y : R) :
    (g.attach r b x n).link y = if y = x then some (n, some r) else g.link y := by
  simp only [link, CellGraph.attach]
  split_ifs with h h'
  · rfl
  · simp [h', hr]
  · rfl

theorem WellFormed.attach (wf : g.WellFormed key) (hr : g.cell r = some c)
    (hfree : c.child b = none) (hx : g.cell x = none) (hlt : c.bit < n)
    (hag : Agree c.bit (key r) k) (hkb : k c.bit = b) :
    (g.attach r b x n).WellFormed (Function.update key x k) := by
  have hlx := link_eq_none.mpr hx
  have hlr := link_eq hr
  have hne : r ≠ x := by
    rintro rfl
    simp [hr] at hx
  have hl := fun y => attach_link (b := b) (x := x) (n := n) hr y
  constructor
  · intro y
    have hroot : (g.attach r b x n).root = g.root := rfl
    rw [hroot, wf.root_iff, hl]
    grind
  · intro y c' b' s hy
    rw [hl]
    have hnx := fun m => wf.parent_ne hx (m := m) s
    simp only [CellGraph.attach] at hy
    split_ifs at hy with hyx hyr
    · subst hyx
      obtain rfl : _ = c' := Option.some.inj hy
      cases b' <;> grind [Cell.child]
    · subst hyr
      rw [hr] at hy
      obtain rfl : c.setChild b (some x) = c' := by simpa using hy
      rw [Cell.setChild_child, Cell.setChild_bit]
      have hold := wf.child_iff (b := b') (s := s) hr
      by_cases hs : s = x
      · subst hs
        simp only [Function.update_self]
        grind
      · rw [Function.update_of_ne hs, if_neg hs]
        grind
    · have hold := wf.child_iff (b := b') (s := s) hy
      by_cases hs : s = x
      · subst hs
        grind
      · rw [Function.update_of_ne hs, if_neg hs, hold]
  · intro s m p hs
    rw [hl] at hs
    rw [hl]
    split_ifs at hs with hsx
    · subst hsx
      obtain ⟨rfl, rfl⟩ : n = m ∧ r = p := by simpa using hs
      rw [if_neg hne, Function.update_self, Function.update_of_ne hne]
      exact ⟨c.bit, c.parent, hlr, hlt, hag⟩
    · obtain ⟨m', p', hp, hlt', hag'⟩ := wf.of_link hs
      have hpx : p ≠ x := by
        rintro rfl
        simp [hlx] at hp
      rw [if_neg hpx, Function.update_of_ne hpx, Function.update_of_ne hsx]
      exact ⟨m', p', hp, hlt', hag'⟩

theorem splice_link (hr : g.cell r = some c) (y : R) :
    (g.splice r c.parent b x n).link y =
      if y = x then some (n, c.parent) else if y = r then some (c.bit, some x) else g.link y := by
  have hrel : (g.relink c.parent r (some x)).link y = g.link y := relink_link _ _ _ _
  simp only [link] at hrel ⊢
  simp only [splice]
  split_ifs with h h'
  · cases b <;> rfl
  · simp [h', hr]
  · exact hrel

theorem WellFormed.splice (wf : g.WellFormed key) (hr : g.cell r = some c)
    (hx : g.cell x = none) (hlt : n < c.bit) (hag : Agree n k (key r)) (hkb : key r n = b)
    (hup : ∀ {p e}, c.parent = some p → g.cell p = some e → e.bit < n) :
    (g.splice r c.parent b x n).WellFormed (Function.update key x k) := by
  have hlx := link_eq_none.mpr hx
  have hlr := link_eq hr
  have hne : r ≠ x := by
    rintro rfl
    simp [hr] at hx
  have hpx : c.parent ≠ some x := by
    intro h
    exact wf.parent_ne hx r (h ▸ hlr)
  have hl := fun y => splice_link (b := b) (x := x) (n := n) hr y
  have hnx := fun m s => wf.parent_ne hx (m := m) s
  constructor
  · intro y
    have hroot : (g.splice r c.parent b x n).root = if c.parent = none then some x else g.root :=
      relink_root _ _ _
    have hold := wf.root_iff (r := y)
    have hold' := wf.root_iff (r := r)
    rw [hroot, hl]
    by_cases hp : c.parent = none
    · grind
    · grind
  · intro y c' b' s hy
    rw [hl]
    simp only [CellGraph.splice] at hy
    split_ifs at hy with hyx hyr
    · subst hyx
      obtain rfl : _ = c' := Option.some.inj hy
      rw [Cell.setChild_child, Cell.setChild_bit]
      by_cases hs : s = y
      · subst hs
        cases b' <;> grind [Cell.child]
      · rw [Function.update_of_ne hs]
        cases b' <;> grind [Cell.child]
    · subst hyr
      rw [hr] at hy
      obtain rfl : _ = c' := by simpa using hy
      have hold := wf.child_iff (b := b') (s := s) hr
      have hself : ∀ m, g.link y ≠ some (m, some y) := fun m => wf.link_ne_self
      have hch : Cell.child { c with parent := some x } b' = c.child b' := rfl
      by_cases hs : s = x
      · subst hs
        grind
      · rw [Function.update_of_ne hs, if_neg hs, hch]
        grind
    · obtain ⟨e, he, hbit, hch⟩ := wf.relink_cell hr hy
      have hold := wf.child_iff (b := b') (s := s) he
      rw [hch, hbit]
      by_cases hs : s = x
      · subst hs
        rw [Function.update_self, if_pos rfl]
        have hke : c.parent = some y → k e.bit = key r e.bit := fun h => hag _ (hup h he)
        grind
      · rw [Function.update_of_ne hs, if_neg hs]
        have hslot : c.parent = some y → e.child (key r e.bit) = some r :=
          wf.child_of_parent he hr
        grind
  · intro s m p hs
    rw [hl] at hs
    rw [hl]
    split_ifs at hs with hsx hsr
    · subst hsx
      obtain ⟨rfl, hp⟩ : n = m ∧ c.parent = some p := by simpa using hs
      obtain ⟨e, he, hlt', hag'⟩ := wf.of_parent hr hp
      have hen := hup hp he
      have hps : p ≠ s := fun h => hpx (h ▸ hp)
      have hpr : p ≠ r := by
        rintro rfl
        obtain rfl : c = e := by simpa [hr] using he
        omega
      rw [if_neg hps, if_neg hpr, Function.update_self, Function.update_of_ne hps]
      exact ⟨e.bit, e.parent, link_eq he, hen, hag'.trans (hag.symm.mono hen.le)⟩
    · subst hsr
      obtain ⟨rfl, rfl⟩ : c.bit = m ∧ x = p := by simpa using hs
      rw [if_pos rfl, Function.update_self, Function.update_of_ne hsx]
      exact ⟨n, c.parent, rfl, hlt, hag⟩
    · obtain ⟨m', p', hp, hlt', hag'⟩ := wf.of_link hs
      have hpx : p ≠ x := by
        rintro rfl
        simp [hlx] at hp
      rw [if_neg hpx, Function.update_of_ne hpx, Function.update_of_ne hsx]
      by_cases hpr : p = r
      · subst hpr
        rw [hlr] at hp
        obtain ⟨rfl, rfl⟩ : c.bit = m' ∧ c.parent = p' := by simpa using hp
        exact ⟨c.bit, some x, by simp, hlt', hag'⟩
      · exact ⟨m', p', by simpa [hpr] using hp, hlt', hag'⟩

theorem detach_link (y : R) :
    (g.detach r c.parent).link y = if y = r then none else g.link y := by
  have hrel : (g.relink c.parent r none).link y = g.link y := relink_link _ _ _ _
  simp only [link] at hrel ⊢
  simp only [detach]
  split_ifs with h
  · rfl
  · exact hrel

theorem WellFormed.detach (wf : g.WellFormed key) (hr : g.cell r = some c)
    (hleaf : ∀ b, c.child b = none) : (g.detach r c.parent).WellFormed key := by
  have hlr := link_eq hr
  have hl := fun y => detach_link (g := g) (r := r) (c := c) y
  have hno : ∀ m s, g.link s ≠ some (m, some r) := by
    intro m s hs
    have h := (wf.child_iff hr).mpr ⟨m, hs, rfl⟩
    rw [hleaf] at h
    cases h
  constructor
  · intro y
    have hroot : (g.detach r c.parent).root = if c.parent = none then none else g.root :=
      relink_root _ _ _
    have hold := wf.root_iff (r := y)
    have hold' := wf.root_iff (r := r)
    rw [hroot, hl]
    grind
  · intro y c' b' s hy
    rw [hl]
    simp only [CellGraph.detach] at hy
    split_ifs at hy with hyr
    obtain ⟨e, he, hbit, hch⟩ := wf.relink_cell hr hy
    have hold := wf.child_iff (b := b') (s := s) he
    have hslot : c.parent = some y → e.child (key r e.bit) = some r := wf.child_of_parent he hr
    rw [hch, hbit]
    grind
  · intro s m p hs
    rw [hl] at hs
    rw [hl]
    split_ifs at hs with hsr
    obtain ⟨m', p', hp, hlt, hag⟩ := wf.of_link hs
    have hpr : p ≠ r := by
      rintro rfl
      exact hno m s hs
    exact ⟨m', p', by rw [if_neg hpr, hp], hlt, hag⟩

theorem contract_link (ht : g.cell t = some d) (y : R) :
    (g.contract r c.parent t).link y =
      if y = r then none else if y = t then some (d.bit, c.parent) else g.link y := by
  have hrel : (g.relink c.parent r (some t)).link y = g.link y := relink_link _ _ _ _
  simp only [link] at hrel ⊢
  simp only [contract]
  split_ifs with h h'
  · rfl
  · simp [h', ht]
  · exact hrel

theorem WellFormed.contract (wf : g.WellFormed key) (hr : g.cell r = some c)
    (hch : c.child b = some t) (hch' : c.child (!b) = none) :
    (g.contract r c.parent t).WellFormed key := by
  obtain ⟨d, ht, hpt, hlt, hag, hkb⟩ := wf.child_cell hr hch
  have hlr := link_eq hr
  have hlt' := link_eq ht
  have hl := fun y => contract_link (r := r) (c := c) ht y
  have honly : ∀ m s, g.link s = some (m, some r) → s = t := by
    intro m s hs
    have h := (wf.child_iff hr).mpr ⟨m, hs, rfl⟩
    generalize key s c.bit = b' at h
    cases b <;> cases b' <;> simp_all
  have hrt : r ≠ t := by
    rintro rfl
    obtain rfl : c = d := by simpa [hr] using ht
    exact lt_irrefl _ hlt
  have hup : c.parent ≠ some t := by
    intro h
    obtain ⟨e, he, hlt'', -⟩ := wf.of_parent hr h
    obtain rfl : d = e := by simpa [ht] using he
    omega
  constructor
  · intro y
    have hroot : (g.contract r c.parent t).root = if c.parent = none then some t else g.root :=
      relink_root _ _ _
    have hold := wf.root_iff (r := y)
    have hold' := wf.root_iff (r := r)
    rw [hroot, hl]
    grind
  · intro y c' b' s hy
    rw [hl]
    simp only [CellGraph.contract] at hy
    split_ifs at hy with hyr hyt
    · subst hyt
      rw [ht] at hy
      obtain rfl : _ = c' := by simpa using hy
      have hold := wf.child_iff (b := b') (s := s) ht
      have hself : ∀ m, g.link y ≠ some (m, some y) := fun m => wf.link_ne_self
      have hsame : Cell.child { d with parent := c.parent } b' = d.child b' := rfl
      rw [hsame]
      grind
    · obtain ⟨e, he, hbit, hch⟩ := wf.relink_cell hr hy
      have hold := wf.child_iff (b := b') (s := s) he
      have hslot : c.parent = some y → e.child (key r e.bit) = some r := wf.child_of_parent he hr
      have hke : c.parent = some y → key r e.bit = key t e.bit := by
        intro h
        obtain ⟨e', he', hlt'', -⟩ := wf.of_parent hr h
        obtain rfl : e = e' := by simpa [he] using he'
        exact hag.bit hlt''
      rw [hch, hbit]
      grind
  · intro s m p hs
    rw [hl] at hs
    rw [hl]
    split_ifs at hs with hsr hst
    · subst hst
      obtain ⟨rfl, hp⟩ : d.bit = m ∧ c.parent = some p := by simpa using hs
      obtain ⟨e, he, hlt'', hag'⟩ := wf.of_parent hr hp
      have hpr : p ≠ r := by
        rintro rfl
        exact wf.link_ne_self (hp ▸ hlr)
      have hps : p ≠ s := fun h => hup (h ▸ hp)
      rw [if_neg hpr, if_neg hps]
      exact ⟨e.bit, e.parent, link_eq he, by omega, hag'.trans (hag.mono hlt''.le)⟩
    · obtain ⟨m', p', hp, hlt'', hag'⟩ := wf.of_link hs
      have hpr : p ≠ r := by
        rintro rfl
        exact hst (honly m s hs)
      rw [if_neg hpr]
      by_cases hpt' : p = t
      · subst hpt'
        obtain ⟨rfl, -⟩ : d.bit = m' ∧ d.parent = p' := by simpa [hlt'] using hp
        exact ⟨d.bit, c.parent, by simp, hlt'', hag'⟩
      · exact ⟨m', p', by rw [if_neg hpt', hp], hlt'', hag'⟩

/-! Nodes with two children keep them, except for the parent of a removed leaf. -/

theorem Full.relink {parent : Option R} {old z : R} (h : g.Full s) :
    (g.relink parent old (some z)).Full s := by
  obtain ⟨d, hd, hch⟩ := h
  by_cases hp : parent = some s
  · refine ⟨d.replace old (some z), by rw [relink_cell, if_pos hp, hd]; rfl, fun b => ?_⟩
    have hleft : d.left ≠ none := hch false
    have hright : d.right ≠ none := hch true
    unfold Cell.replace
    split_ifs <;> cases b <;> simp [hleft, hright]
  · exact ⟨d, by rw [relink_cell, if_neg hp, hd], hch⟩

theorem Full.attach (h : g.Full s) (hx : g.cell x = none) : (g.attach r b x n).Full s := by
  obtain ⟨d, hd, hch⟩ := h
  have hsx : s ≠ x := by
    rintro rfl
    simp [hx] at hd
  by_cases hs : s = r
  · refine ⟨d.setChild b (some x), by simp only [CellGraph.attach, if_neg hsx, if_pos hs, hd]; rfl, ?_⟩
    intro b'
    rw [Cell.setChild_child]
    split_ifs
    · simp
    · exact hch b'
  · exact ⟨d, by simp only [CellGraph.attach, if_neg hsx, if_neg hs, hd], hch⟩

theorem Full.splice {parent : Option R} (h : g.Full s) (hx : g.cell x = none) :
    (g.splice r parent b x n).Full s := by
  obtain ⟨d, hd, hch⟩ : (g.relink parent r (some x)).Full s := h.relink
  obtain ⟨e, he, hch'⟩ := h
  have hsx : s ≠ x := by
    rintro rfl
    simp [hx] at he
  by_cases hs : s = r
  · exact ⟨{ e with parent := some x },
      by simp only [CellGraph.splice, if_neg hsx, if_pos hs, he]; rfl, hch'⟩
  · exact ⟨d, by simp only [CellGraph.splice, if_neg hsx, if_neg hs, hd], hch⟩

theorem Full.contract {parent : Option R} (h : g.Full s) (hne : s ≠ r) :
    (g.contract r parent t).Full s := by
  obtain ⟨d, hd, hch⟩ : (g.relink parent r (some t)).Full s := h.relink
  obtain ⟨e, he, hch'⟩ := h
  by_cases hs : s = t
  · exact ⟨{ e with parent := parent },
      by simp only [CellGraph.contract, if_neg hne, if_pos hs, he]; rfl, hch'⟩
  · exact ⟨d, by simp only [CellGraph.contract, if_neg hne, if_neg hs, hd], hch⟩

theorem Full.detach {parent : Option R} (h : g.Full s) (hne : s ≠ r) (hp : parent ≠ some s) :
    (g.detach r parent).Full s := by
  obtain ⟨d, hd, hch⟩ := h
  refine ⟨d, ?_, hch⟩
  simp only [CellGraph.detach, if_neg hne, relink_cell, if_neg hp, hd]

end Operations

end CellGraph

end Madcap.Trie
