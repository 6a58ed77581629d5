import Madcap.Patricia.Lookup
import Madcap.Patricia.Remove

/-!
# What callers do to a tree

Between its calls into the tree a caller allocates and frees prefixes and sets
the data of a node. None of this disturbs the invariant.
-/

namespace Madcap

namespace Patricia

open Trie

variable {p : Patricia} {key : ℕ → Key} {r : ℕ} {l : Label} {q : Ref} {t : PrefixT}

/-- Prefixes that no node carries may change freely. -/
theorem Keyed.of_prefixes (inv : p.Keyed key) (p' : Patricia) (hg : p'.graph = p.graph)
    (hc : p'.content = p.content) (hm : p'.maxbits = p.maxbits)
    (hp : ∀ r c q, p.content r = some c → c.pfx = some q →
      p'.prefixes.cells q = p.prefixes.cells q) : p'.Keyed key ∧ p'.label = p.label := by
  refine ⟨⟨hm.trans inv.maxbits, hg ▸ inv.shape, ?_, ?_, ?_, ?_⟩, ?_⟩
  · intro r c hr
    rw [hc] at hr
    exact inv.bit_le hr
  · intro r c q hr hq
    rw [hc] at hr
    rw [hp r c q hr hq]
    exact inv.labelled hr hq
  · intro r c hr hq
    rw [hc] at hr
    rw [hg]
    exact inv.glue hr hq
  · intro r s c d q hr hs hcq hdq
    rw [hc] at hr hs
    exact inv.owner hr hs hcq hdq
  · funext r
    simp only [label, hc]
    cases hr : p.content r with
    | none => rfl
    | some c =>
      cases hq : c.pfx with
      | none => simp [hq]
      | some q => simp [hq, hp r c q hr hq]

theorem Keyed.prefix_ne_next (inv : p.Keyed key) {c : Content} (hr : p.content r = some c)
    (hq : c.pfx = some q) : q ≠ p.prefixes.next := by
  obtain ⟨t, ht, -⟩ := inv.labelled hr hq
  exact Nat.ne_of_lt (Heap.lt_next ht)

/-- A prefix straight from the allocator can be inserted. -/
theorem allocPrefix_spec (inv : p.Inv) (hcount : 0 < t.refCount) (hlen : t.bitlen ≤ 32)
    (requests : ℕ) {p' : Patricia}
    (hp' : p' = { p with requests := requests, prefixes := p.prefixes.alloc t }) :
    p'.Inv ∧ p'.label = p.label ∧ p'.Insertable p.prefixes.next t := by
  obtain ⟨key, inv⟩ := inv
  subst hp'
  obtain ⟨hk, hl⟩ := inv.of_prefixes
    { p with requests := requests, prefixes := p.prefixes.alloc t } rfl rfl rfl
    fun r c q hr hq => by
      rw [Heap.alloc_cells, if_neg (inv.prefix_ne_next hr hq)]
  refine ⟨⟨key, hk⟩, hl, ⟨?_, hcount, hlen, fun r c hr hq => ?_⟩⟩
  · rw [Heap.alloc_cells, if_pos rfl]
  · exact inv.prefix_ne_next hr hq rfl

theorem freePrefix_spec (inv : p.Inv) (hq : p.Unowned q) {p' : Patricia}
    (hp' : p' = { p with prefixes := p.prefixes.free q }) :
    p'.Inv ∧ p'.label = p.label := by
  obtain ⟨key, inv⟩ := inv
  subst hp'
  obtain ⟨hk, hl⟩ := inv.of_prefixes { p with prefixes := p.prefixes.free q } rfl rfl rfl
    fun r c q' hr hq' => by
      have hne : q' ≠ q := fun h => hq r c hr (h ▸ hq')
      rw [Heap.free_cells, if_neg hne]
  exact ⟨⟨key, hk⟩, hl⟩

/-- Setting the data of a labelled node changes its label's data only. -/
theorem setData_spec (inv : p.Inv) (hl : p.label r = some l) (data : Option Ref) :
    ∃ p', (p.setNode r fun node => { node with data := data }) = .ok p' ∧ p'.Inv ∧
      p'.grants = p.grants ∧ p'.label = Function.update p.label r (some { l with data := data }) := by
  obtain ⟨key, inv⟩ := inv
  obtain ⟨n, q, t, hn, hq, ht, hadd, hlen, -, hbit, -, -⟩ := inv.of_label hl
  obtain ⟨p', hp', he⟩ := setNode_content (p := p) (r := r)
    (f := fun node => { node with data := data }) (fun c => { c with data := data })
    (by simp [graph_cell hn]) (fun _ => rfl) (fun _ => rfl)
  have hcontent : ∀ s c, p'.content s = some c → ∃ d, p.content s = some d ∧ d.bit = c.bit ∧
      d.pfx = c.pfx ∧ (c.pfx = none → s ≠ r ∧ d = c) := by
    intro s c hs
    rw [he.content] at hs
    beta_reduce at hs
    by_cases hsr : s = r
    · subst hsr
      rw [if_pos rfl, content_eq hn] at hs
      obtain rfl := Option.some.inj hs
      refine ⟨n.content, content_eq hn, rfl, rfl, fun h => ?_⟩
      have h' : n.pfx = none := h
      rw [hq] at h'
      cases h'
    · rw [if_neg hsr] at hs
      exact ⟨c, hs, rfl, rfl, fun _ => ⟨hsr, rfl⟩⟩
  refine ⟨p', hp', ⟨key, he.maxbits.trans inv.maxbits, he.graph ▸ inv.shape, ?_, ?_, ?_, ?_⟩,
    he.grants, ?_⟩
  · intro s c hs
    obtain ⟨d, hd, hb, -⟩ := hcontent s c hs
    exact hb ▸ inv.bit_le hd
  · intro s c q' hs hq'
    obtain ⟨d, hd, hb, hp, -⟩ := hcontent s c hs
    rw [he.prefixes, ← hb]
    exact inv.labelled hd (hp.trans hq')
  · intro s c hs hnone
    obtain ⟨d, hd, -, hp, hsame⟩ := hcontent s c hs
    obtain ⟨-, rfl⟩ := hsame hnone
    rw [he.graph]
    exact inv.glue hd hnone
  · intro s s' c c' q' hs hs' hcq hcq'
    obtain ⟨d, hd, -, hp, -⟩ := hcontent s c hs
    obtain ⟨d', hd', -, hp', -⟩ := hcontent s' c' hs'
    exact inv.owner hd hd' (hp.trans hcq) (hp'.trans hcq')
  · funext s
    by_cases hsr : s = r
    · subst hsr
      rw [Function.update_self, label_eq_some]
      refine ⟨{ n.content with data := data }, q, t, ?_, hq, by rw [he.prefixes, ht], ?_⟩
      · rw [he.content]
        simp [content_eq hn]
      · rw [hadd, hlen]
    · rw [Function.update_of_ne hsr]
      simp only [label, he.content, he.prefixes, if_neg hsr]

theorem read_label (inv : p.Inv) (hl : p.label r = some l) :
    ∃ n, p.nodes.read r = .ok n ∧ n.data = l.data := by
  obtain ⟨key, inv⟩ := inv
  obtain ⟨n, -, -, hn, -, -, -, -, hdata, -⟩ := inv.of_label hl
  exact ⟨n, Heap.read_eq hn, hdata⟩

theorem Inv.label_le (inv : p.Inv) (hl : p.label r = some l) : l.bitlen ≤ 32 := by
  obtain ⟨key, inv⟩ := inv
  exact inv.label_le hl

end Patricia

end Madcap
