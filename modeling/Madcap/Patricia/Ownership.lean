import Madcap.Patricia.Labels

/-!
# Who holds which prefix

An insertion gives its prefix to one node and a removal takes a prefix away from one.
In between the tree is rewired by many writes, and each of them leaves the prefix of a
node as it was or sets it to the one that is given. With the labels before and after
this says which node it was.
-/

namespace Madcap

open Trie

namespace Patricia

def owned (p : Patricia) (r : Ref) : Option Ref := (p.nodes.cells r).bind PatriciaNode.pfx

/-- The prefix of every node is what it was or `z`, and no prefix but `q`, which stays
allocated, has been written. -/
structure Handles (q : Ref) (z : Option Ref) (p p' : Patricia) : Prop where
  owned : ∀ r, p'.owned r = p.owned r ∨ p'.owned r = z
  prefixes : ∀ q' ≠ q, p'.prefixes.cells q' = p.prefixes.cells q'
  alive : p.prefixes.cells q ≠ none → p'.prefixes.cells q ≠ none

variable {p p' p'' : Patricia} {key : ℕ → Key} {r s : ℕ} {n : PatriciaNode} {l : Label} {q : Ref}
  {t : PrefixT} {z : Option Ref} {res : Ref × Patricia}

theorem Handles.refl (q : Ref) (z : Option Ref) (p : Patricia) : Handles q z p p :=
  ⟨fun _ => .inl rfl, fun _ _ => rfl, id⟩

theorem Handles.trans (h : Handles q z p p') (h' : Handles q z p' p'') : Handles q z p p'' := by
  refine ⟨fun r => ?_, fun q' hq' => ?_, fun hq => h'.alive (h.alive hq)⟩
  · rcases h'.owned r with hr | hr
    · rw [hr]
      exact h.owned r
    · exact .inr hr
  · rw [h'.prefixes q' hq', h.prefixes q' hq']

theorem Handles.of_owned (hn : ∀ r, p'.owned r = p.owned r ∨ p'.owned r = z)
    (ht : p'.prefixes.cells = p.prefixes.cells) : Handles q z p p' :=
  ⟨hn, fun q' _ => by rw [ht], fun h => by rwa [ht]⟩

theorem owned_eq_content (p : Patricia) (r : Ref) : p.owned r = (p.content r).bind Content.pfx := by
  unfold owned content
  cases p.nodes.cells r <;> rfl

theorem setNode_eq_ok {f : PatriciaNode → PatriciaNode} (h : p.setNode r f = .ok p') :
    p' = { p with nodes := p.nodes.modify r f } := by
  obtain ⟨nodes, hw, hp'⟩ := bind_eq_ok.mp h
  obtain rfl := Except.ok.inj hp'
  cases hr : p.nodes.cells r with
  | none =>
    simp only [Heap.write, hr] at hw
    cases hw
  | some m =>
    rw [Heap.write_eq hr] at hw
    obtain rfl := Except.ok.inj hw
    rfl

theorem setNode_owned {f : PatriciaNode → PatriciaNode} (h : p.setNode r f = .ok p') (s : Ref) :
    p'.owned s = if s = r then (p.nodes.cells s).bind fun m => (f m).pfx else p.owned s := by
  rw [setNode_eq_ok h]
  unfold owned
  dsimp only
  rw [Heap.modify_cells]
  split_ifs
  · cases p.nodes.cells s <;> rfl
  · rfl

theorem setNode_owned_eq {f : PatriciaNode → PatriciaNode} (h : p.setNode r f = .ok p')
    (hf : ∀ m, (f m).pfx = m.pfx) : p'.owned = p.owned := by
  funext s
  rw [setNode_owned h]
  simp only [hf, ite_eq_right_iff]
  exact fun _ => rfl

theorem setNode_handles {f : PatriciaNode → PatriciaNode} (h : p.setNode r f = .ok p')
    (hf : ∀ m, (f m).pfx = m.pfx) : Handles q z p p' := by
  refine .of_owned (fun s => .inl ?_) ?_
  · rw [setNode_owned_eq h hf]
  · rw [setNode_eq_ok h]

theorem setPfx_handles {f : PatriciaNode → PatriciaNode} (h : p.setNode r f = .ok p')
    (hf : ∀ m, (f m).pfx = z) : Handles q z p p' := by
  refine .of_owned (fun s => ?_) ?_
  · rw [setNode_owned h]
    split_ifs
    · unfold owned
      cases hs : p.nodes.cells s with
      | none => exact .inl rfl
      | some m => exact .inr (hf m)
    · exact .inl rfl
  · rw [setNode_eq_ok h]

theorem replaceUnder_handles {parent node : Option Ref} {old : Ref}
    (h : p.replaceUnder parent old node = .ok p') : Handles q z p p' := by
  cases parent with
  | none =>
    obtain rfl := Except.ok.inj h
    exact .of_owned (fun _ => .inl rfl) rfl
  | some parent =>
    refine setNode_handles h fun m => ?_
    split_ifs <;> rfl

theorem kmallocNode_handles {node : PatriciaNode} (hnode : node.pfx = none)
    (h : p.kmallocNode node = .ok res) : Handles q z p res.2 := by
  obtain ⟨-, rfl⟩ := kmallocNode_eq_ok h
  refine .of_owned (fun s => .inl ?_) rfl
  unfold owned
  dsimp only
  rw [Heap.alloc_cells]
  split_ifs with hs
  · rw [hs, Heap.cells_next]
    exact hnode
  · rfl

theorem deleteNode_handles (p : Patricia) (r : Ref) : Handles q none p (p.deleteNode r) := by
  refine .of_owned (fun s => ?_) rfl
  unfold owned deleteNode
  dsimp only
  rw [Heap.free_cells]
  split_ifs
  · exact .inr rfl
  · exact .inl rfl

theorem Effect.handles {g : CellGraph ℕ} {d : ℤ}
    (he : Effect p p' g p.content (counted p.prefixes.cells q d)) : Handles q z p p' := by
  refine ⟨fun r => .inl ?_, fun q' hq' => ?_, fun hq => ?_⟩
  · rw [owned_eq_content, owned_eq_content, he.content]
  · rw [he.prefixes, counted_of_ne hq']
  · obtain ⟨t, ht⟩ := Option.ne_none_iff_exists'.mp hq
    rw [he.prefixes, counted_self ht]
    exact Option.some_ne_none _

theorem refPrefix_handles (hq : p.prefixes.cells q = some t) (ht : 0 < t.refCount)
    {res : Option Ref × Patricia} (h : p.refPrefix q = .ok res) :
    res.1 = some q ∧ Handles q z p res.2 := by
  obtain ⟨p', hp', he⟩ := refPrefix_spec hq ht
  obtain rfl := Except.ok.inj (hp'.symm.trans h)
  exact ⟨rfl, he.handles⟩

theorem derefPrefix_handles (hq : p.prefixes.cells q = some t) (ht : 1 < t.refCount)
    (h : p.derefPrefix (some q) = .ok p') : Handles q z p p' := by
  obtain ⟨p₁, hp₁, he⟩ := derefPrefix_spec hq ht
  obtain rfl := Except.ok.inj (hp₁.symm.trans h)
  exact he.handles

theorem newNode_handles {bitlen : ℕ} (hq : p.prefixes.cells q = some t) (ht : 0 < t.refCount)
    (h : p.newNode q bitlen = .ok res) : Handles q (some q) p res.2 := by
  obtain ⟨⟨x, p₁⟩, h₁, h⟩ := bind_eq_ok.mp h
  obtain ⟨⟨q', p₂⟩, h₂, h⟩ := bind_eq_ok.mp h
  obtain ⟨p₃, h₃, h⟩ := bind_eq_ok.mp h
  obtain rfl := Except.ok.inj h
  have hk : Handles q (some q) p p₁ := kmallocNode_handles rfl h₁
  have hq₁ : p₁.prefixes.cells q = some t := by
    rw [((kmallocNode_spec p _).of_eq_ok h₁).2.2.prefixes, hq]
  obtain ⟨rfl, hr⟩ := refPrefix_handles (z := some q) hq₁ ht h₂
  have hs : Handles q (some q) p₂ p₃ := setPfx_handles h₃ fun m => rfl
  have hall := (hk.trans hr).trans hs
  exact ⟨hall.owned, hall.prefixes, hall.alive⟩

theorem insertAbove_handles {newNode node : Ref} {testAddr : U32} {bitlen : ℕ}
    (h : p.insertAbove newNode node n testAddr bitlen = .ok p') : Handles q z p p' := by
  obtain ⟨p₁, h₁, h⟩ := bind_eq_ok.mp h
  obtain ⟨p₂, h₂, h₃⟩ := bind_eq_ok.mp h
  refine ((setNode_handles h₁ fun m => ?_).trans (replaceUnder_handles h₂)).trans
    (setNode_handles h₃ fun m => rfl)
  split_ifs <;> rfl

theorem insertGlue_handles {newNode node : Ref} {addr : U32} {differBit : ℕ}
    (h : p.insertGlue newNode node n addr differBit = .ok p') : Handles q z p p' := by
  obtain ⟨⟨glue, p₁⟩, h₁, h⟩ := bind_eq_ok.mp h
  obtain ⟨p₂, h₂, h⟩ := bind_eq_ok.mp h
  obtain ⟨p₃, h₃, h₄⟩ := bind_eq_ok.mp h
  have hk : Handles q z p p₁ := kmallocNode_handles rfl h₁
  have hcount : Handles q z p { p₁ with numActiveNode := p₁.numActiveNode + 1 } :=
    ⟨hk.owned, hk.prefixes, hk.alive⟩
  exact ((hcount.trans (setNode_handles h₂ fun m => rfl)).trans
    (replaceUnder_handles h₃)).trans (setNode_handles h₄ fun m => rfl)

theorem lookupInsert_handles {addr testAddr : U32} {bitlen differBit : ℕ} {node : Ref}
    (hq : p.prefixes.cells q = some t) (ht : 0 < t.refCount)
    (h : p.lookupInsert q addr testAddr bitlen differBit node = .ok res) :
    Handles q (some q) p res.2 := by
  obtain ⟨n, -, h⟩ := bind_eq_ok.mp h
  split_ifs at h with hhere hpfx hbit hlast
  · obtain rfl := Except.ok.inj h
    exact .refl _ _ _
  · obtain ⟨⟨q', p₁⟩, h₁, h⟩ := bind_eq_ok.mp h
    obtain ⟨p₂, h₂, h⟩ := bind_eq_ok.mp h
    obtain rfl := Except.ok.inj h
    obtain ⟨rfl, hr⟩ := refPrefix_handles (z := some q) hq ht h₁
    exact hr.trans (setPfx_handles h₂ fun m => rfl)
  · obtain ⟨⟨x, p₁⟩, h₁, h⟩ := bind_eq_ok.mp h
    obtain ⟨p₂, h₂, h⟩ := bind_eq_ok.mp h
    obtain ⟨p₃, h₃, h⟩ := bind_eq_ok.mp h
    obtain rfl := Except.ok.inj h
    refine ((newNode_handles hq ht h₁).trans (setNode_handles h₂ fun m => rfl)).trans
      (setNode_handles h₃ fun m => ?_)
    split_ifs <;> rfl
  · obtain ⟨⟨x, p₁⟩, h₁, h⟩ := bind_eq_ok.mp h
    obtain ⟨p₂, h₂, h⟩ := bind_eq_ok.mp h
    obtain rfl := Except.ok.inj h
    exact (newNode_handles hq ht h₁).trans (insertAbove_handles h₂)
  · obtain ⟨⟨x, p₁⟩, h₁, h⟩ := bind_eq_ok.mp h
    obtain ⟨p₂, h₂, h⟩ := bind_eq_ok.mp h
    obtain rfl := Except.ok.inj h
    exact (newNode_handles hq ht h₁).trans (insertGlue_handles h₂)

theorem patriciaLookup_handles (hq : p.prefixes.cells q = some t) (ht : 0 < t.refCount)
    (h : p.patriciaLookup q = .ok res) : Handles q (some q) p res.2 := by
  unfold patriciaLookup at h
  obtain ⟨t', -, h⟩ := bind_eq_ok.mp h
  cases hh : p.head with
  | none =>
    simp only [hh] at h
    obtain ⟨⟨x, p₁⟩, h₁, h⟩ := bind_eq_ok.mp h
    obtain rfl := Except.ok.inj h
    have hnew := newNode_handles hq ht h₁
    exact ⟨hnew.owned, hnew.prefixes, hnew.alive⟩
  | some head =>
    simp only [hh] at h
    obtain ⟨low, -, h⟩ := bind_eq_ok.mp h
    obtain ⟨n, -, h⟩ := bind_eq_ok.mp h
    obtain ⟨test, -, h⟩ := bind_eq_ok.mp h
    obtain ⟨node, -, h⟩ := bind_eq_ok.mp h
    exact lookupInsert_handles hq ht h

theorem removeLeaf_handles (hn : n.pfx = some q) (hq : p.prefixes.cells q = some t)
    (ht : 1 < t.refCount) (h : p.removeLeaf r n = .ok p') : Handles q none p p' := by
  obtain ⟨p₁, h₁, h⟩ := bind_eq_ok.mp h
  rw [hn] at h₁
  have hdel : Handles q none p (p₁.deleteNode r) :=
    (derefPrefix_handles hq ht h₁).trans (deleteNode_handles p₁ r)
  cases hp : n.parent with
  | none =>
    simp only [hp] at h
    obtain rfl := Except.ok.inj h
    exact ⟨hdel.owned, hdel.prefixes, hdel.alive⟩
  | some parent =>
    simp only [hp] at h
    obtain ⟨m, -, h⟩ := bind_eq_ok.mp h
    obtain ⟨p₂, h₂, h⟩ := bind_eq_ok.mp h
    have hcut := hdel.trans (replaceUnder_handles h₂)
    generalize (if m.r = some r then m.l else m.r) = child at h
    split_ifs at h with hpfx
    · obtain rfl := Except.ok.inj h
      exact hcut
    · obtain ⟨p₃, h₃, h⟩ := bind_eq_ok.mp h
      have hup := hcut.trans (replaceUnder_handles h₃)
      cases child with
      | none => cases h
      | some child =>
        obtain ⟨p₄, h₄, h⟩ := bind_eq_ok.mp h
        obtain rfl := Except.ok.inj h
        exact (hup.trans (setNode_handles h₄ fun m => rfl)).trans
          (deleteNode_handles p₄ parent)

theorem removeInner_handles {child : Ref} (hn : n.pfx = some q) (hq : p.prefixes.cells q = some t)
    (ht : 1 < t.refCount) (h : p.removeInner r n child = .ok p') : Handles q none p p' := by
  obtain ⟨p₁, h₁, h⟩ := bind_eq_ok.mp h
  obtain ⟨p₂, h₂, h₃⟩ := bind_eq_ok.mp h
  have hset : p₁.prefixes = p.prefixes := by rw [setNode_eq_ok h₁]
  rw [hn] at h₂
  exact (((setNode_handles h₁ fun m => rfl).trans
    (derefPrefix_handles (hset ▸ hq) ht h₂)).trans (deleteNode_handles p₂ r)).trans
    (replaceUnder_handles h₃)

theorem patriciaRemove_handles (hr : p.nodes.cells r = some n) (hn : n.pfx = some q)
    (hq : p.prefixes.cells q = some t) (ht : 1 < t.refCount) (h : p.patriciaRemove r = .ok p') :
    Handles q none p p' := by
  unfold patriciaRemove at h
  rw [Heap.read_eq hr] at h
  obtain ⟨m, hm, h⟩ := bind_eq_ok.mp h
  obtain rfl := Except.ok.inj hm
  cases hright : n.r with
  | none =>
    cases hleft : n.l with
    | none =>
      simp only [hright, hleft] at h
      exact removeLeaf_handles hn hq ht h
    | some child =>
      simp only [hright, hleft] at h
      exact removeInner_handles hn hq ht h
  | some child =>
    cases hleft : n.l with
    | none =>
      simp only [hright, hleft] at h
      exact removeInner_handles hn hq ht h
    | some child' =>
      simp only [hright, hleft] at h
      obtain ⟨p₁, h₁, h₂⟩ := bind_eq_ok.mp h
      rw [hn] at h₁
      exact (derefPrefix_handles hq ht h₁).trans (setPfx_handles h₂ fun m => rfl)

theorem Keyed.owned_isSome (inv : p.Keyed key) (r : Ref) :
    (p.owned r).isSome = (p.label r).isSome := by
  cases hr : p.nodes.cells r with
  | none => simp [owned, label, content, hr]
  | some n =>
    rw [inv.label_isSome hr]
    simp [owned, hr]

theorem Keyed.owned_inj (inv : p.Keyed key) (hr : p.owned r = some q) (hs : p.owned s = some q) :
    r = s := by
  rw [owned_eq_content, Option.bind_eq_some_iff] at hr hs
  obtain ⟨c, hc, hcq⟩ := hr
  obtain ⟨d, hd, hdq⟩ := hs
  exact inv.owner hc hd hcq hdq

theorem Inserted.owned (h : p.Inserted t res) (inv : p.Inv) (hand : Handles q (some q) p res.2) :
    p.owned res.1 = none ∧ res.2.owned = Function.update p.owned res.1 (some q) := by
  obtain ⟨key, hkey⟩ := inv
  obtain ⟨⟨key', hkey'⟩, -, hnone, hlabel⟩ := h
  have hbefore : p.owned res.1 = none := by
    have hsome := hkey.owned_isSome res.1
    rw [hnone] at hsome
    simpa using hsome
  have hafter : res.2.owned res.1 = some q := by
    have hsome := hkey'.owned_isSome res.1
    rw [hlabel, Function.update_self] at hsome
    rcases hand.owned res.1 with heq | heq
    · rw [heq, hbefore] at hsome
      cases hsome
    · exact heq
  refine ⟨hbefore, funext fun r => ?_⟩
  by_cases hr : r = res.1
  · rw [hr, Function.update_self, hafter]
  · rw [Function.update_of_ne hr]
    rcases hand.owned r with heq | heq
    · exact heq
    · exact absurd (hkey'.owned_inj heq hafter) hr

theorem Removed.owned (h : p.Removed r p') (inv : p.Inv) (hand : Handles q none p p') :
    p'.owned = Function.update p.owned r none := by
  obtain ⟨key, hkey⟩ := inv
  obtain ⟨⟨key', hkey'⟩, -, hlabel⟩ := h
  funext s
  have hsome := hkey'.owned_isSome s
  rw [hlabel] at hsome
  by_cases hs : s = r
  · subst hs
    rw [Function.update_self] at hsome ⊢
    simpa using hsome
  · rw [Function.update_of_ne hs] at hsome ⊢
    rcases hand.owned s with heq | heq
    · exact heq
    · rw [heq, ← hkey.owned_isSome] at hsome
      rw [heq]
      cases hp : p.owned s with
      | none => rfl
      | some q' =>
        rw [hp] at hsome
        cases hsome

end Patricia

end Madcap
