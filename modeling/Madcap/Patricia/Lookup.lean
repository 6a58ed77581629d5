import Madcap.Patricia.Effects

/-!
# Inserting into the tree

`patricia_lookup` returns the node of a prefix, making one if there is none. The
two loops before the insertion find the place; each of the insertion shapes is
then one change of shape of the trie together with one new label.
-/

namespace Madcap

open Trie

namespace Patricia

variable {p : Patricia} {key : ℕ → Key} {r s cur x : ℕ} {n m : PatriciaNode} {l : Label}
variable {addr : U32} {bitlen fuel : ℕ}

theorem takeRight_eq (h32 : p.maxbits = 32) {bit : ℕ} (hb : bit < 32) :
    p.takeRight addr bit = addrBit addr bit := by
  simp [takeRight, h32, hb]

/-- Every bit tested on the way to a node was tested as the address has it. -/
def OnPath (p : Patricia) (key : ℕ → Key) (addr : U32) (cur : ℕ) : Prop :=
  ∀ s m, p.nodes.cells s = some m → p.graph.Below s cur → s ≠ cur →
    addrKey addr m.bit = key cur m.bit

theorem OnPath.child (inv : p.Keyed key) (hpath : p.OnPath key addr cur)
    (hn : p.nodes.cells cur = some n) (hc : n.toCell.child (addrBit addr n.bit) = some s) :
    p.OnPath key addr s := by
  obtain ⟨m, hm, hp, hlt, hag, hb⟩ := inv.child_node hn hc
  intro r k hk hbelow hne
  have hup : p.graph.Below r cur := hbelow.parent hne.symm (graph_cell hm) hp
  by_cases hr : r = cur
  · subst hr
    obtain rfl : n = k := by simpa [hn] using hk
    exact hb.symm
  · rw [hpath r k hk hup hr]
    rcases (hup.spec inv.shape (graph_cell hk) (graph_cell hn)).2 with h | h
    · exact absurd h.symm hr
    · exact hag.bit h

/-- The first loop stops at a node with a prefix, where it either used up the
searched prefix or ran out of children. -/
theorem lookupDescend_spec (inv : p.Keyed key) (hlen : bitlen ≤ 32) :
    ∀ fuel {cur n}, p.nodes.cells cur = some n → 32 < fuel + n.bit → p.OnPath key addr cur →
      Ensures (fun _ => False) (p.lookupDescend addr bitlen fuel cur) fun node =>
        ∃ m, p.nodes.cells node = some m ∧ m.pfx ≠ none ∧ p.OnPath key addr node ∧
          (m.bit < bitlen → m.toCell.child (addrBit addr m.bit) = none) := by
  intro fuel
  induction fuel with
  | zero =>
    intro cur n hn hfuel
    have h : n.bit ≤ 32 := inv.bit_le (content_eq hn)
    omega
  | succ fuel ih =>
    intro cur n hn hfuel hpath
    have hbit : n.bit ≤ 32 := inv.bit_le (content_eq hn)
    rw [lookupDescend, Heap.read_eq hn]
    simp only [ensures_bind, ensures_ok]
    rw [next_child]
    split_ifs with hgo
    · have hglue : n.pfx = none → ∀ b, n.toCell.child b ≠ none := by
        intro hq
        obtain ⟨-, d, hd, hch⟩ := inv.glue (content_eq hn) hq
        obtain rfl : n.toCell = d := by simpa [graph_cell hn] using hd
        exact hch
      have hlt : n.bit < 32 := by
        by_contra hge
        cases hq : n.pfx with
        | some q =>
          simp only [hq, Option.isNone_some, Bool.or_false, decide_eq_true_eq] at hgo
          omega
        | none =>
          obtain ⟨t, ht⟩ := Option.ne_none_iff_exists'.mp (hglue hq true)
          obtain ⟨k, hk, -, hlt', -⟩ := inv.child_node hn ht
          have h : k.bit ≤ 32 := inv.bit_le (content_eq hk)
          omega
      rw [takeRight_eq inv.maxbits hlt]
      cases hc : n.toCell.child (addrBit addr n.bit) with
      | none =>
        refine ⟨n, hn, fun hq => hglue hq _ hc, hpath, fun _ => hc⟩
      | some next =>
        obtain ⟨n', hn', -, hlt', -⟩ := inv.child_node hn hc
        exact ih hn' (by omega) (hpath.child inv hn hc)
    · simp only [Bool.or_eq_true, decide_eq_true_eq, not_or, Option.isNone_iff_eq_none] at hgo
      exact ⟨n, hn, hgo.2, hpath, fun h => absurd h hgo.1⟩

/-- The second loop stops at the highest node that tests no bit before `differBit`. -/
theorem lookupAscend_spec (inv : p.Keyed key) {differBit : ℕ} :
    ∀ fuel {cur n}, p.nodes.cells cur = some n → n.bit < fuel → differBit ≤ n.bit →
      Ensures (fun _ => False) (p.lookupAscend differBit fuel cur) fun node =>
        ∃ m, p.nodes.cells node = some m ∧ p.graph.Below node cur ∧ differBit ≤ m.bit ∧
          ∀ t k, m.parent = some t → p.nodes.cells t = some k → k.bit < differBit := by
  intro fuel
  induction fuel with
  | zero => exact fun _ h => absurd h (Nat.not_lt_zero _)
  | succ fuel ih =>
    intro cur n hn hfuel hle
    rw [lookupAscend, Heap.read_eq hn]
    simp only [ensures_bind, ensures_ok]
    cases hp : n.parent with
    | none =>
      exact ⟨n, hn, .refl, hle, fun t k h => by rw [hp] at h; cases h⟩
    | some parent =>
      obtain ⟨k, hk, hlt, -⟩ := inv.parent_node hn hp
      simp only [Heap.read_eq hk, ensures_bind, ensures_ok]
      split_ifs with hge
      · refine (ih hk (by omega) hge).mono ?_
        rintro node ⟨m, hm, hb, hm', htop⟩
        exact ⟨m, hm, .step (graph_cell hn) hp hb, hm', htop⟩
      · refine ⟨n, hn, .refl, hle, fun t k' h hk' => ?_⟩
        obtain rfl : parent = t := by simpa [hp] using h
        obtain rfl : k = k' := by simpa [hk] using hk'
        omega

/-- No node carries the prefix at an address. -/
def Unowned (p : Patricia) (q : Ref) : Prop := ∀ r c, p.content r = some c → c.pfx ≠ some q

/-- A prefix that no node carries, allocated and counted, is given to `x`; a glue
node may come along. -/
theorem Keyed.insert (inv : p.Keyed key) {p' : Patricia} {g : CellGraph ℕ} {c' : ℕ → Option Content}
    {q : Ref} {t : PrefixT} (he : Effect p p' g c' (counted p.prefixes.cells q 1))
    (hq : p.prefixes.cells q = some t) (href : 0 < t.refCount) (hlen : t.bitlen ≤ 32)
    (hfree : p.Unowned q) {key' : ℕ → Key} (hshape : g.WellFormed key')
    (hx : c' x = some ⟨t.bitlen, some q, none⟩)
    (hkx : Agree t.bitlen (addrKey t.add) (key' x))
    (hold : ∀ r ≠ x, (c' r = p.content r ∧ key' r = key r) ∨
      ∃ d ≤ 32, c' r = some ⟨d, none, none⟩ ∧ p.content r = none ∧ g.Full r)
    (hfull : ∀ r, p.graph.Full r → g.Full r) :
    p'.Keyed key' ∧
      p'.label = Function.update p.label x (some { add := t.add, bitlen := t.bitlen, data := none }) := by
  have hold' : ∀ {r c}, c' r = some c → c.pfx ≠ none → r ≠ x → p.content r = some c ∧ key' r = key r := by
    intro r c hc hne hr
    rcases hold r hr with ⟨h, hk⟩ | ⟨d, -, h, -⟩
    · exact ⟨h ▸ hc, hk⟩
    · rw [h] at hc
      obtain rfl := Option.some.inj hc
      exact absurd rfl hne
  refine ⟨⟨he.maxbits.trans inv.maxbits, he.graph ▸ hshape, ?_, ?_, ?_, ?_⟩, ?_⟩
  · intro r c hc
    rw [he.content] at hc
    by_cases hr : r = x
    · subst hr
      obtain rfl : _ = c := by simpa [hx] using hc
      exact hlen
    · rcases hold r hr with ⟨h, -⟩ | ⟨d, hd, h, -⟩
      · exact inv.bit_le (h ▸ hc)
      · obtain rfl : _ = c := by simpa [h] using hc
        exact hd
  · intro r c q' hc hq'
    rw [he.content] at hc
    rw [he.prefixes]
    by_cases hr : r = x
    · subst hr
      obtain rfl : _ = c := by simpa [hx] using hc
      obtain rfl : q = q' := by simpa using hq'
      exact ⟨_, counted_self hq, rfl, by simpa using href, hkx⟩
    · obtain ⟨h, hk⟩ := hold' hc (by simp [hq']) hr
      have hne : q' ≠ q := fun h' => hfree r c h (h' ▸ hq')
      rw [counted_of_ne hne, hk]
      exact inv.labelled h hq'
  · intro r c hc hnone
    rw [he.content] at hc
    rw [he.graph]
    by_cases hr : r = x
    · subst hr
      obtain rfl : _ = c := by simpa [hx] using hc
      cases hnone
    · rcases hold r hr with ⟨h, -⟩ | ⟨d, -, h, -, hf⟩
      · obtain ⟨hdata, hf⟩ := inv.glue (h ▸ hc) hnone
        exact ⟨hdata, hfull r hf⟩
      · obtain rfl : _ = c := by simpa [h] using hc
        exact ⟨rfl, hf⟩
  · intro r s c d q' hc hd hcq hdq
    rw [he.content] at hc hd
    by_cases hr : r = x <;> by_cases hs : s = x
    · rw [hr, hs]
    · subst hr
      obtain rfl : _ = c := by simpa [hx] using hc
      obtain rfl : q = q' := by simpa using hcq
      exact absurd hdq (hfree s d (hold' hd (by simp [hdq]) hs).1)
    · subst hs
      obtain rfl : _ = d := by simpa [hx] using hd
      obtain rfl : q = q' := by simpa using hdq
      exact absurd hcq (hfree r c (hold' hc (by simp [hcq]) hr).1)
    · exact inv.owner (hold' hc (by simp [hcq]) hr).1 (hold' hd (by simp [hdq]) hs).1 hcq hdq
  · funext r
    by_cases hr : r = x
    · subst hr
      rw [Function.update_self, label_eq_some]
      exact ⟨_, q, _, by rw [he.content, hx], rfl, by rw [he.prefixes, counted_self hq], rfl⟩
    · rw [Function.update_of_ne hr]
      rcases hold r hr with ⟨h, -⟩ | ⟨d, -, h, h', -⟩
      · simp only [label, he.content, he.prefixes, h]
        cases hc : p.content r with
        | none => rfl
        | some c =>
          cases hq' : c.pfx with
          | none => simp [hq']
          | some q' =>
            have hne : q' ≠ q := fun h' => hfree r c hc (h' ▸ hq')
            simp [hq', counted_of_ne hne]
      · simp [label, he.content, h, h']

/-- What the two loops know about the place they found. -/
structure Place (p : Patricia) (key : ℕ → Key) (addr testAddr : U32) (bitlen differBit : ℕ)
    (node : ℕ) (n : PatriciaNode) : Prop where
  read : p.nodes.cells node = some n
  le_bit : differBit ≤ n.bit
  le_len : differBit ≤ bitlen
  agree : Agree differBit (addrKey addr) (key node)
  test : Agree n.bit (addrKey testAddr) (key node)
  top : ∀ {s m}, n.parent = some s → p.nodes.cells s = some m → m.bit < differBit
  free : n.bit = differBit → differBit < bitlen → n.toCell.child (addrBit addr n.bit) = none
  differ : differBit < bitlen → differBit < n.bit → addrKey addr differBit ≠ key node differBit

/-- The tree gained a label without data at a node that had none. -/
def Inserted (p : Patricia) (t : PrefixT) (res : Ref × Patricia) : Prop :=
  res.2.Inv ∧ res.2.grants = p.grants ∧ p.label res.1 = none ∧ res.2.label =
    Function.update p.label res.1 (some { add := t.add, bitlen := t.bitlen, data := none })

/-- A prefix ready to be inserted. -/
structure Insertable (p : Patricia) (q : Ref) (t : PrefixT) : Prop where
  read : p.prefixes.cells q = some t
  counted : 0 < t.refCount
  le : t.bitlen ≤ 32
  unowned : p.Unowned q

variable {q : Ref} {t : PrefixT}

theorem label_of_content_none (h : p.content r = none) : p.label r = none := by
  simp [label, h]

theorem insertHead_spec (inv : p.Keyed key) (hq : p.Insertable q t) (hh : p.head = none) :
    Ensures p.Refuses (p.newNode q t.bitlen) fun res =>
      p.Inserted t (res.1, { res.2 with head := some res.1 }) := by
  refine (newNode_spec hq.read hq.counted).mono ?_
  rintro ⟨x, p₁⟩ ⟨hxg, hxc, h₁⟩
  have hnone : ∀ y, p.graph.cell y = none := inv.shape.cell_eq_none hh
  have he : Effect p { p₁ with head := some x } (CellGraph.single x t.bitlen)
      (fun y => if y = x then some ⟨t.bitlen, some q, none⟩ else p.content y)
      (counted p.prefixes.cells q 1) := by
    refine ⟨?_, h₁.content, h₁.prefixes, h₁.maxbits, h₁.grants⟩
    have hcell := congrArg CellGraph.cell h₁.graph
    simp only [graph] at hcell hnone ⊢
    simp [CellGraph.single, hcell, hnone]
  have hold : ∀ r ≠ x, ((if r = x then some ⟨t.bitlen, some q, none⟩ else p.content r) =
      p.content r ∧ Function.update key x (addrKey t.add) r = key r) := fun r hr =>
    ⟨if_neg hr, Function.update_of_ne hr _ _⟩
  have hfull : ∀ r, p.graph.Full r → (CellGraph.single x t.bitlen).Full r := by
    intro r hr
    obtain ⟨d, hd, -⟩ := hr
    rw [hnone] at hd
    cases hd
  obtain ⟨hk, hl⟩ := inv.insert he hq.read hq.counted hq.le hq.unowned
    (CellGraph.wellFormed_single x t.bitlen (Function.update key x (addrKey t.add))) (if_pos rfl)
    (by rw [Function.update_self]; exact Agree.refl _ _) (fun r hr => .inl (hold r hr)) hfull
  exact ⟨⟨_, hk⟩, h₁.grants, label_of_content_none hxc, hl⟩

theorem insertMod_spec (inv : p.Keyed key) (hq : p.Insertable q t) {testAddr : U32} {node : ℕ}
    {n : PatriciaNode} (hp : p.Place key t.add testAddr t.bitlen t.bitlen node n)
    (hbit : n.bit = t.bitlen) (hnone : n.pfx = none) :
    ∃ p₁ p₂, p.refPrefix q = .ok (some q, p₁) ∧
      (p₁.setNode node fun n => { n with pfx := some q }) = .ok p₂ ∧ p.Inserted t (node, p₂) := by
  obtain ⟨p₁, hp₁, h₁⟩ := refPrefix_spec hq.read hq.counted
  obtain ⟨p₂, hp₂, h₂⟩ := setNode_content (p := p₁) (r := node)
    (fun c => { c with pfx := some q }) (f := fun n => { n with pfx := some q })
    (by simp [h₁.graph, graph_cell hp.read]) (fun _ => rfl) (fun _ => rfl)
  obtain ⟨hdata, -⟩ := inv.glue (content_eq hp.read) hnone
  have hlabel : p.label node = none := by
    have h := inv.label_isSome hp.read
    rw [hnone] at h
    simpa using h
  have hcontent : n.content = ⟨t.bitlen, none, none⟩ := by
    have hdata' : n.data = none := hdata
    simp [PatriciaNode.content, hbit, hnone, hdata']
  have he : Effect p p₂ p.graph
      (fun y => if y = node then some ⟨t.bitlen, some q, none⟩ else p.content y)
      (Patricia.counted p.prefixes.cells q 1) := by
    refine ⟨h₂.graph.trans h₁.graph, ?_, h₂.prefixes.trans h₁.prefixes,
      h₂.maxbits.trans h₁.maxbits, h₂.grants.trans h₁.grants⟩
    rw [h₂.content, h₁.content]
    funext y
    by_cases hy : y = node
    · subst hy
      simp [content_eq hp.read, hcontent]
    · simp [hy]
  obtain ⟨hk, hl⟩ := inv.insert he hq.read hq.counted hq.le hq.unowned inv.shape (if_pos rfl)
    hp.agree (fun r hr => .inl ⟨if_neg hr, rfl⟩) (fun r h => h)
  exact ⟨p₁, p₂, hp₁, hp₂, ⟨_, hk⟩, he.grants, hlabel, hl⟩

theorem insertChild_spec (inv : p.Keyed key) (hq : p.Insertable q t) {testAddr : U32}
    {differBit node : ℕ} {n : PatriciaNode}
    (hp : p.Place key t.add testAddr t.bitlen differBit node n) (hbit : n.bit = differBit)
    (hlt : differBit < t.bitlen) {x : ℕ} {p₁ : Patricia} (hxg : p.graph.cell x = none)
    (hxc : p.content x = none) (h₁ : Effect p p₁
      ⟨fun y => if y = x then some ⟨t.bitlen, none, none, none⟩ else p.graph.cell y, p.graph.root⟩
      (fun y => if y = x then some ⟨t.bitlen, some q, none⟩ else p.content y)
      (Patricia.counted p.prefixes.cells q 1)) :
    ∃ p₂ p₃, (p₁.setNode x fun m => { m with parent := some node }) = .ok p₂ ∧
      (p₂.setNode node fun m => if p₂.takeRight t.add n.bit then { m with r := some x }
        else { m with l := some x }) = .ok p₃ ∧ p.Inserted t (x, p₃) := by
  have hnx : node ≠ x := by
    rintro rfl
    rw [graph_cell hp.read] at hxg
    cases hxg
  obtain ⟨p₂, hp₂, h₂⟩ := setNode_links (p := p₁) (r := x)
    (f := fun m => { m with parent := some node }) (fun c => { c with parent := some node })
    (by simp [h₁.graph]) (fun _ => rfl) (fun _ => rfl)
  obtain ⟨p₃, hp₃, h₃⟩ := setNode_links (p := p₂) (r := node)
    (f := fun m => if p₂.takeRight t.add n.bit then { m with r := some x }
      else { m with l := some x }) (fun c => c.setChild (p₂.takeRight t.add n.bit) (some x))
    (by simp [h₂.graph, h₁.graph, hnx, graph_cell hp.read])
    (fun m => toCell_setChild m (p₂.takeRight t.add n.bit) (some x))
    (fun m => by split_ifs <;> rfl)
  have h32 : p₂.maxbits = 32 := (h₂.maxbits.trans h₁.maxbits).trans inv.maxbits
  have hside : p₂.takeRight t.add n.bit = addrBit t.add n.bit :=
    takeRight_eq h32 (by have := hq.le; omega)
  have he : Effect p p₃ (p.graph.attach node (addrBit t.add n.bit) x t.bitlen)
      (fun y => if y = x then some ⟨t.bitlen, some q, none⟩ else p.content y)
      (Patricia.counted p.prefixes.cells q 1) := by
    refine ⟨?_, h₃.content.trans (h₂.content.trans h₁.content),
      h₃.prefixes.trans (h₂.prefixes.trans h₁.prefixes),
      h₃.maxbits.trans (h₂.maxbits.trans h₁.maxbits),
      h₃.grants.trans (h₂.grants.trans h₁.grants)⟩
    rw [h₃.graph, h₂.graph, h₁.graph, hside]
    simp only [CellGraph.attach, CellGraph.mk.injEq, and_true]
    funext y
    by_cases hy : y = x
    · subst hy
      simp [hnx.symm]
    · simp [hy]
  have hcell := graph_cell hp.read
  have hshape := inv.shape.attach (x := x) (n := t.bitlen) (k := addrKey t.add) hcell
    (hp.free hbit hlt) hxg (hbit.trans_lt hlt) (by
      have h := hp.agree.symm
      rwa [← hbit] at h) rfl
  obtain ⟨hk, hl⟩ := inv.insert he hq.read hq.counted hq.le hq.unowned hshape (if_pos rfl)
    (by rw [Function.update_self]; exact Agree.refl _ _)
    (fun r hr => .inl ⟨if_neg hr, Function.update_of_ne hr _ _⟩) (fun r h => h.attach hxg)
  exact ⟨p₂, p₃, hp₂, hp₃, ⟨_, hk⟩, he.grants, label_of_content_none hxc, hl⟩

/-- The new node takes the place of the node, which becomes its child. -/
theorem insertAbove_spec (inv : p.Keyed key) (hq : p.Insertable q t) {testAddr : U32}
    {node : ℕ} {n : PatriciaNode} (hp : p.Place key t.add testAddr t.bitlen t.bitlen node n)
    (hlt : t.bitlen < n.bit) {x : ℕ} {p₁ : Patricia} (hxg : p.graph.cell x = none)
    (hxc : p.content x = none) (h₁ : Effect p p₁
      ⟨fun y => if y = x then some ⟨t.bitlen, none, none, none⟩ else p.graph.cell y, p.graph.root⟩
      (fun y => if y = x then some ⟨t.bitlen, some q, none⟩ else p.content y)
      (Patricia.counted p.prefixes.cells q 1)) :
    ∃ p₂, p₁.insertAbove x node n testAddr t.bitlen = .ok p₂ ∧ p.Inserted t (x, p₂) := by
  have hcell := graph_cell hp.read
  have hn32 : n.bit ≤ 32 := inv.bit_le (content_eq hp.read)
  have hnx : node ≠ x := by
    rintro rfl
    rw [hcell] at hxg
    cases hxg
  have hself : n.parent ≠ some node := inv.shape.cell_parent_ne hcell
  have hup : n.parent ≠ some x := inv.shape.cell_parent_ne_of_none hcell hxg
  have hside : p₁.takeRight testAddr t.bitlen = addrBit testAddr t.bitlen :=
    takeRight_eq (h₁.maxbits.trans inv.maxbits) (by omega)
  obtain ⟨p₂, hp₂, h₂⟩ := setNode_links (p := p₁) (r := x)
    (f := fun m => if p₁.takeRight testAddr t.bitlen then
      { m with r := some node, parent := n.parent } else { m with l := some node, parent := n.parent })
    (fun c => { c.setChild (p₁.takeRight testAddr t.bitlen) (some node) with parent := n.parent })
    (by simp [h₁.graph]) (fun m => by cases p₁.takeRight testAddr t.bitlen <;> rfl)
    (fun m => by split_ifs <;> rfl)
  have hpar : ∀ s, n.parent = some s → p₂.graph.cell s ≠ none := by
    intro s hs
    obtain ⟨m, hm, -⟩ := inv.parent_node hp.read hs
    simp only [h₂.graph, h₁.graph]
    by_cases hsx : s = x <;> simp [hsx, graph_cell hm]
  obtain ⟨p₃, hp₃, h₃⟩ := replaceUnder_spec (p := p₂) node (some x) hpar
  obtain ⟨p₄, hp₄, h₄⟩ := setNode_links (p := p₃) (r := node)
    (f := fun m => { m with parent := some x }) (fun c => { c with parent := some x })
    (by simp [h₃.graph, h₂.graph, h₁.graph, CellGraph.relink_cell, hself, hnx, hcell])
    (fun _ => rfl) (fun _ => rfl)
  have he : Effect p p₄ (p.graph.splice node n.parent (addrBit testAddr t.bitlen) x t.bitlen)
      (fun y => if y = x then some ⟨t.bitlen, some q, none⟩ else p.content y)
      (Patricia.counted p.prefixes.cells q 1) := by
    refine ⟨?_, h₄.content.trans (h₃.content.trans (h₂.content.trans h₁.content)),
      h₄.prefixes.trans (h₃.prefixes.trans (h₂.prefixes.trans h₁.prefixes)),
      h₄.maxbits.trans (h₃.maxbits.trans (h₂.maxbits.trans h₁.maxbits)),
      h₄.grants.trans (h₃.grants.trans (h₂.grants.trans h₁.grants))⟩
    rw [h₄.graph, h₃.graph, h₂.graph, h₁.graph, hside]
    simp only [CellGraph.splice, CellGraph.relink_cell, CellGraph.relink_root, CellGraph.mk.injEq, and_true]
    funext y
    by_cases hy : y = x
    · subst hy
      cases addrBit testAddr t.bitlen <;> simp [hnx.symm, hup, Cell.setChild]
    · by_cases hyn : y = node
      · subst hyn
        simp [hy, hself]
      · simp [hy, hyn]
  have hshape := inv.shape.splice (x := x) (n := t.bitlen) (k := addrKey t.add) hcell hxg hlt
    hp.agree (hp.test.bit hlt).symm (fun hs he => by
      obtain ⟨m, hm, rfl⟩ := node_of_cell he
      exact hp.top hs hm)
  obtain ⟨hk, hl⟩ := inv.insert he hq.read hq.counted hq.le hq.unowned hshape (if_pos rfl)
    (by rw [Function.update_self]; exact Agree.refl _ _)
    (fun r hr => .inl ⟨if_neg hr, Function.update_of_ne hr _ _⟩) (fun r h => h.splice hxg)
  refine ⟨p₄, ?_, ⟨_, hk⟩, he.grants, label_of_content_none hxc, hl⟩
  simp only [insertAbove, hp₂, hp₃, hp₄, bind, Except.bind]

/-- With a glue node at the differing bit that holds the node and a new leaf the trie is
still well formed. -/
theorem Place.glue {testAddr : U32} {differBit node : ℕ} {n : PatriciaNode} (inv : p.Keyed key)
    (hp : p.Place key t.add testAddr t.bitlen differBit node n) (hlen : differBit < t.bitlen)
    (hlt : differBit < n.bit) {x glue : ℕ} (hxg : p.graph.cell x = none)
    (hgg : p.graph.cell glue = none) (hgx : glue ≠ x) {b : Bool} (hb : b = addrBit t.add differBit) :
    (p.graph.splice node n.parent (!b) glue differBit).cell x = none ∧
    ((p.graph.splice node n.parent (!b) glue differBit).attach glue b x t.bitlen).WellFormed
      (Function.update (Function.update key glue (addrKey t.add)) x (addrKey t.add)) ∧
    ((p.graph.splice node n.parent (!b) glue differBit).attach glue b x t.bitlen).Full glue := by
  have hcell := graph_cell hp.read
  have hnx : node ≠ x := by
    rintro rfl
    rw [hcell] at hxg
    cases hxg
  have hup : n.parent ≠ some x := inv.shape.cell_parent_ne_of_none hcell hxg
  have hside : key node differBit = !b := by
    have h : b ≠ key node differBit := hb ▸ hp.differ hlen hlt
    revert h
    cases b <;> cases key node differBit <;> decide
  have hsplice := inv.shape.splice (x := glue) (n := differBit) (k := addrKey t.add) hcell hgg
    hlt hp.agree hside (fun hs he => by
      obtain ⟨m, hm, rfl⟩ := node_of_cell he
      exact hp.top hs hm)
  have hglue : (p.graph.splice node n.parent (!b) glue differBit).cell glue =
      some (Cell.setChild ⟨differBit, none, none, n.parent⟩ (!b) (some node)) := if_pos rfl
  have hfresh : (p.graph.splice node n.parent (!b) glue differBit).cell x = none := by
    simp [CellGraph.splice, CellGraph.relink_cell, hgx.symm, hnx.symm, hup, hxg]
  have hshape := hsplice.attach (x := x) (n := t.bitlen) (k := addrKey t.add) (b := b) hglue
    (by rw [Cell.setChild_child]; cases b <;> simp [Cell.child]) hfresh
    (by rw [Cell.setChild_bit]; exact hlen)
    (by rw [Function.update_self]; exact Agree.refl _ _)
    (by rw [Cell.setChild_bit]; exact hb.symm)
  refine ⟨hfresh, hshape, _, by simp only [CellGraph.attach, if_neg hgx, hglue]; rfl, fun b' => ?_⟩
  rw [Cell.setChild_child, Cell.setChild_child]
  cases b <;> cases b' <;> simp

/-- A glue node at the differing bit takes the place of the node and holds both. -/
theorem insertGlue_spec (inv : p.Keyed key) (hq : p.Insertable q t) {testAddr : U32}
    {differBit node : ℕ} {n : PatriciaNode}
    (hp : p.Place key t.add testAddr t.bitlen differBit node n) (hlen : differBit < t.bitlen)
    (hlt : differBit < n.bit) {x : ℕ} {p₁ : Patricia} (hxg : p.graph.cell x = none)
    (hxc : p.content x = none) (h₁ : Effect p p₁
      ⟨fun y => if y = x then some ⟨t.bitlen, none, none, none⟩ else p.graph.cell y, p.graph.root⟩
      (fun y => if y = x then some ⟨t.bitlen, some q, none⟩ else p.content y)
      (Patricia.counted p.prefixes.cells q 1)) :
    Ensures p.Refuses (p₁.insertGlue x node n t.add differBit) fun p₂ => p.Inserted t (x, p₂) := by
  have hcell := graph_cell hp.read
  have hle := hq.le
  have hnx : node ≠ x := by
    rintro rfl
    rw [hcell] at hxg
    cases hxg
  have hself : n.parent ≠ some node := inv.shape.cell_parent_ne hcell
  have hup : n.parent ≠ some x := inv.shape.cell_parent_ne_of_none hcell hxg
  have hside : p₁.takeRight t.add differBit = addrBit t.add differBit :=
    takeRight_eq (h₁.maxbits.trans inv.maxbits) (by omega)
  rw [insertGlue, hside, ensures_bind, ← h₁.refuses]
  refine (kmallocNode_spec p₁ _).mono ?_
  rintro ⟨glue, p₂⟩ ⟨hgg, hgc, h₂⟩
  simp only at hgg hgc h₂
  have hgx : glue ≠ x := by
    rintro rfl
    simp [h₁.graph] at hgg
  have hgg' : p.graph.cell glue = none := by simpa [h₁.graph, hgx] using hgg
  have hgc' : p.content glue = none := by simpa [h₁.content, hgx] using hgc
  have hng : node ≠ glue := by
    rintro rfl
    rw [hcell] at hgg'
    cases hgg'
  have hupg : n.parent ≠ some glue := inv.shape.cell_parent_ne_of_none hcell hgg'
  simp only [ensures_bind]
  set p₂' : Patricia := { p₂ with numActiveNode := p₂.numActiveNode + 1 } with hp₂'
  have h₂' : Effect p₁ p₂' _ _ _ := ⟨h₂.graph, h₂.content, h₂.prefixes, h₂.maxbits, h₂.grants⟩
  obtain ⟨p₃, hp₃, h₃⟩ := setNode_links (p := p₂') (r := x)
    (f := fun m => { m with parent := some glue }) (fun c => { c with parent := some glue })
    (by simp [h₂'.graph, h₁.graph, hgx.symm]) (fun _ => rfl) (fun _ => rfl)
  have hpar : ∀ s, n.parent = some s → p₃.graph.cell s ≠ none := by
    intro s hs
    obtain ⟨m, hm, -⟩ := inv.parent_node hp.read hs
    have hsx : s ≠ x := fun h => hup (h ▸ hs)
    have hsg : s ≠ glue := fun h => hupg (h ▸ hs)
    simp [h₃.graph, h₂'.graph, h₁.graph, hsx, hsg, graph_cell hm]
  obtain ⟨p₄, hp₄, h₄⟩ := replaceUnder_spec (p := p₃) node (some glue) hpar
  obtain ⟨p₅, hp₅, h₅⟩ := setNode_links (p := p₄) (r := node)
    (f := fun m => { m with parent := some glue }) (fun c => { c with parent := some glue })
    (by simp [h₄.graph, h₃.graph, h₂'.graph, h₁.graph, CellGraph.relink_cell, hself, hnx, hng, hcell])
    (fun _ => rfl) (fun _ => rfl)
  set b := addrBit t.add differBit with hb
  have he : Effect p p₅
      ((p.graph.splice node n.parent (!b) glue differBit).attach glue b x t.bitlen)
      (fun y => if y = glue then some ⟨differBit, none, none⟩
        else if y = x then some ⟨t.bitlen, some q, none⟩ else p.content y)
      (Patricia.counted p.prefixes.cells q 1) := by
    refine ⟨?_, ?_, ?_, ?_, ?_⟩
    · rw [h₅.graph, h₄.graph, h₃.graph, h₂'.graph, h₁.graph]
      simp only [CellGraph.attach, CellGraph.splice, CellGraph.relink_cell, CellGraph.relink_root, CellGraph.mk.injEq,
        and_true]
      funext y
      by_cases hyx : y = x
      · subst hyx
        simp [hnx.symm, hup, hgx.symm]
      · by_cases hyg : y = glue
        · subst hyg
          cases b <;> simp [hyx, hng.symm, hupg, Cell.setChild, PatriciaNode.toCell]
        · by_cases hyn : y = node
          · subst hyn
            simp [hyx, hyg, hself]
          · simp [hyx, hyg, hyn]
    · rw [h₅.content, h₄.content, h₃.content, h₂'.content, h₁.content]
      rfl
    · rw [h₅.prefixes, h₄.prefixes, h₃.prefixes, h₂'.prefixes, h₁.prefixes]
    · exact h₅.maxbits.trans (h₄.maxbits.trans (h₃.maxbits.trans (h₂'.maxbits.trans h₁.maxbits)))
    · exact h₅.grants.trans (h₄.grants.trans (h₃.grants.trans (h₂'.grants.trans h₁.grants)))
  obtain ⟨hfresh, hshape, hfull⟩ := hp.glue inv hlen hlt hxg hgg' hgx hb
  obtain ⟨hk, hl⟩ := inv.insert (x := x) he hq.read hq.counted hq.le hq.unowned hshape
    (by simp [hgx.symm]) (by rw [Function.update_self]; exact Agree.refl _ _)
    (fun r hr => by
      by_cases hrg : r = glue
      · subst hrg
        exact .inr ⟨differBit, by omega, if_pos rfl, hgc', hfull⟩
      · exact .inl ⟨by rw [if_neg hrg, if_neg hr], by
          rw [Function.update_of_ne hr, Function.update_of_ne hrg]⟩)
    (fun r h => (h.splice hgg').attach hfresh)
  simp only [hp₃, hp₄, hp₅, ensures_ok]
  exact ⟨⟨_, hk⟩, he.grants, label_of_content_none hxc, hl⟩

/-- The result of a lookup: a label that was there, or a new one. -/
def LookedUp (p : Patricia) (t : PrefixT) (res : Ref × Patricia) : Prop :=
  (res.2 = p ∧ ∃ l, p.label res.1 = some l ∧ l.bitlen = t.bitlen ∧
    Agree t.bitlen (addrKey l.add) (addrKey t.add)) ∨ p.Inserted t res

theorem lookupInsert_spec (inv : p.Keyed key) (hq : p.Insertable q t) {testAddr : U32}
    {differBit node : ℕ} {n : PatriciaNode}
    (hp : p.Place key t.add testAddr t.bitlen differBit node n) :
    Ensures p.Refuses (p.lookupInsert q t.add testAddr t.bitlen differBit node) (p.LookedUp t) := by
  have hle := hp.le_bit
  have hlen := hp.le_len
  simp only [lookupInsert, Heap.read_eq hp.read, ensures_bind, ensures_ok]
  by_cases hhere : differBit = t.bitlen ∧ n.bit = t.bitlen
  · obtain ⟨rfl, hbit⟩ := hhere
    rw [if_pos (by simp [hbit])]
    cases hpfx : n.pfx with
    | some q' =>
      obtain ⟨t', -, htb, -, hag, hl⟩ := inv.label_of_pfx hp.read hpfx
      refine .inl ⟨rfl, _, hl, htb.trans hbit, ?_⟩
      rw [hbit] at hag
      exact hag.trans hp.agree.symm
    | none =>
      obtain ⟨p₁, p₂, hp₁, hp₂, hins⟩ := insertMod_spec inv hq hp hbit hpfx
      simp only [Option.isSome_none, Bool.false_eq_true, if_false, hp₁, hp₂, ensures_bind,
        ensures_ok]
      exact .inr hins
  · rw [if_neg (by simpa using hhere), ensures_bind]
    refine (newNode_spec hq.read hq.counted).mono ?_
    rintro ⟨x, p₁⟩ ⟨hxg, hxc, h₁⟩
    simp only at hxg hxc h₁ ⊢
    split_ifs with hbit hlast
    · obtain ⟨p₂, p₃, hp₂, hp₃, hins⟩ := insertChild_spec inv hq hp hbit (by omega) hxg hxc h₁
      simp only [hp₂, hp₃, ensures_bind, ensures_ok]
      exact .inr hins
    · subst hlast
      obtain ⟨p₂, hp₂, hins⟩ := insertAbove_spec inv hq hp (by omega) hxg hxc h₁
      simp only [hp₂, ensures_bind, ensures_ok]
      exact .inr hins
    · rw [ensures_bind]
      exact (insertGlue_spec inv hq hp (by omega) (by omega) hxg hxc h₁).mono fun _ h => .inr h

theorem place (inv : p.Keyed key) {low node : ℕ} {m n : PatriciaNode} {test : PrefixT}
    (hm : p.nodes.cells low = some m) (hn : p.nodes.cells node = some n)
    (hpath : p.OnPath key t.add low)
    (hstop : m.bit < t.bitlen → m.toCell.child (addrBit t.add m.bit) = none)
    (htest : Agree m.bit (addrKey test.add) (key low)) (hbelow : p.graph.Below node low)
    {d : ℕ} (hd : d = firstDifferBit t.add test.add (min m.bit t.bitlen)) (hdn : d ≤ n.bit)
    (htop : ∀ s k, n.parent = some s → p.nodes.cells s = some k → k.bit < d) :
    p.Place key t.add test.add t.bitlen d node n := by
  have hcheck : d ≤ min m.bit t.bitlen := hd ▸ firstDifferBit_le _ _ _
  have hagd : Agree d (addrKey t.add) (addrKey test.add) := hd ▸ firstDifferBit_agree _ _ _
  have hdm : d ≤ m.bit := hcheck.trans (Nat.min_le_left _ _)
  have hbm : n.bit ≤ m.bit := hbelow.bit_le inv.shape (graph_cell hn) (graph_cell hm)
  have hkeys : Agree n.bit (key node) (key low) :=
    (hbelow.spec inv.shape (graph_cell hn) (graph_cell hm)).1
  have htestn : Agree n.bit (addrKey test.add) (key node) := (htest.mono hbm).trans hkeys.symm
  -- below `check_bit` the first differing bit really differs
  have hdiff : d < min m.bit t.bitlen → addrKey t.add d ≠ addrKey test.add d := fun h => by
    rw [hd] at h ⊢
    exact firstDifferBit_ne h
  refine ⟨hn, hdn, hcheck.trans (Nat.min_le_right _ _), hagd.trans (htestn.mono hdn), htestn,
    fun hs hk => htop _ _ hs hk, fun hbit hlt => ?_, fun hlt hlt' h => ?_⟩
  · by_cases heq : node = low
    · subst heq
      obtain rfl : m = n := by simpa [hm] using hn
      exact hstop (by omega)
    · have hltm : n.bit < m.bit :=
        ((hbelow.spec inv.shape (graph_cell hn) (graph_cell hm)).2).resolve_left (Ne.symm heq)
      refine absurd ?_ (hdiff (by omega))
      rw [← hbit, hpath node n hn hbelow heq]
      exact (htest.bit hltm).symm
  · refine hdiff (by omega) ?_
    rw [h]
    exact (htestn.bit hlt').symm

/-- `patricia_lookup` returns the node with the prefix, and makes one if there is none. -/
theorem patriciaLookup_spec (inv : p.Inv) (hq : p.Insertable q t) :
    Ensures p.Refuses (p.patriciaLookup q) (p.LookedUp t) := by
  obtain ⟨key, inv⟩ := inv
  have hnof : ∀ e, False → p.Refuses e := fun _ h => h.elim
  simp only [patriciaLookup, Heap.read_eq hq.read, ensures_bind, ensures_ok]
  cases hh : p.head with
  | none =>
    simp only [ensures_bind]
    exact (insertHead_spec inv hq hh).mono fun res h => .inr h
  | some head =>
    obtain ⟨n, hn, hroot⟩ := inv.head_node hh
    have hpath : p.OnPath key t.add head := by
      intro s m hm hb hne
      cases hb with
      | refl => exact absurd rfl hne
      | step hc hp _ =>
        obtain ⟨n', hn', rfl⟩ := node_of_cell hc
        obtain rfl : n = n' := by simpa [hn] using hn'
        have h : n.parent = some _ := hp
        rw [hroot] at h
        cases h
    simp only [ensures_bind]
    refine ((lookupDescend_spec inv hq.le _ hn (by rw [inv.maxbits]; omega) hpath).weaken hnof).mono
      ?_
    rintro low ⟨m, hm, hpfx, hpath', hstop⟩
    obtain ⟨q', hq'⟩ := Option.ne_none_iff_exists'.mp hpfx
    obtain ⟨test, htest, -, -, hag, -⟩ := inv.label_of_pfx hm hq'
    simp only [Heap.read_eq hm, hq', Heap.readPtr_some, Heap.read_eq htest, ensures_ok]
    have hcheck : (if m.bit < t.bitlen then m.bit else t.bitlen) = min m.bit t.bitlen := by
      split_ifs <;> omega
    rw [hcheck]
    have hm32 : m.bit ≤ 32 := inv.bit_le (content_eq hm)
    have hle := firstDifferBit_le t.add test.add (min m.bit t.bitlen)
    refine ((lookupAscend_spec inv _ hm (by rw [inv.maxbits]; omega) (by omega)).weaken hnof).mono
      ?_
    rintro node ⟨k, hk, hbelow, hdk, htop⟩
    exact lookupInsert_spec inv hq (place inv hm hk hpath' hstop hag hbelow rfl hdk htop)

end Patricia

end Madcap
