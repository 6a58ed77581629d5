import Madcap.Patricia.Invariant

/-!
# Searching the tree

The exact search and the best-match search return what a scan over all labels
would return. A descent skips bits, so what it keeps is a statement about the
nodes it has not passed by: every node the searched address could belong to is
below the current one.
-/

namespace Madcap

open Trie

namespace Patricia

variable {p : Patricia} {key : ℕ → Key} {r s cur : ℕ} {n m : PatriciaNode} {l : Label}
variable {addr : U32} {bitlen fuel : ℕ}

/-- The nodes that test a bit up to `bitlen` and whose key continues to agree with
the address: the nodes a search for the address may end at. -/
def Candidate (p : Patricia) (key : ℕ → Key) (addr : U32) (bitlen : ℕ) (s : ℕ) : Prop :=
  ∃ m, p.nodes.cells s = some m ∧ m.bit ≤ bitlen ∧ Agree m.bit (key s) (addrKey addr)

/-- A candidate below the current node is that node or lies below the child the
address selects. -/
theorem Candidate.descend (inv : p.Keyed key) (hs : p.Candidate key addr bitlen s)
    (hn : p.nodes.cells cur = some n) (hb : p.graph.Below cur s) :
    s = cur ∨ ∃ t, n.toCell.child (addrBit addr n.bit) = some t ∧ p.graph.Below t s := by
  obtain ⟨m, hm, -, hag⟩ := hs
  rcases (hb.spec inv.shape (graph_cell hn) (graph_cell hm)).2 with rfl | hlt
  · exact .inl rfl
  · exact .inr (hb.descend inv.shape (graph_cell hn) (graph_cell hm) hlt (hag.bit hlt))

/-- A candidate below a node that tests no bit before `bitlen` is that node. -/
theorem Candidate.eq_of_le (inv : p.Keyed key) (hs : p.Candidate key addr bitlen s)
    (hn : p.nodes.cells cur = some n) (hb : p.graph.Below cur s) (hle : bitlen ≤ n.bit) :
    s = cur := by
  obtain ⟨m, hm, hbit, -⟩ := hs
  rcases (hb.spec inv.shape (graph_cell hn) (graph_cell hm)).2 with rfl | hlt
  · rfl
  · have hlt' : n.bit < m.bit := hlt
    omega

theorem Keyed.candidate (inv : p.Keyed key) (hl : p.label s = some l)
    (hmatch : l.Matches addr bitlen) : p.Candidate key addr bitlen s := by
  obtain ⟨m, -, -, hm, -, -, -, -, -, hbit, -, hag⟩ := inv.of_label hl
  refine ⟨m, hm, hbit ▸ hmatch.1, ?_⟩
  rw [hbit]
  exact hag.symm.trans hmatch.2

theorem searchExactLoop_spec (inv : p.Keyed key) :
    ∀ fuel {cur n}, p.nodes.cells cur = some n → 0 < fuel → bitlen < fuel + n.bit →
      Ensures (fun _ => False) (p.searchExactLoop addr bitlen fuel cur) fun res =>
        (∀ node, res = some node → ∃ m, p.nodes.cells node = some m ∧ bitlen ≤ m.bit) ∧
        ∀ s m, p.nodes.cells s = some m → m.bit = bitlen → p.Candidate key addr bitlen s →
          p.graph.Below cur s → res = some s := by
  intro fuel
  induction fuel with
  | zero => exact fun _ h => absurd h (by decide)
  | succ fuel ih =>
    intro cur n hn _ hfuel
    rw [searchExactLoop, Heap.read_eq hn]
    simp only [ensures_bind, ensures_ok]
    rw [next_child]
    split_ifs with hlt
    · cases hc : n.toCell.child (addrBit addr n.bit) with
      | none =>
        refine ⟨by simp, fun s m hm hbit hcand hb => ?_⟩
        rcases hcand.descend inv hn hb with rfl | ⟨t, ht, -⟩
        · obtain rfl : n = m := by simpa [hn] using hm
          omega
        · rw [hc] at ht
          cases ht
      | some next =>
        obtain ⟨n', hn', -, hlt', -⟩ := inv.child_node hn hc
        refine (ih hn' (by omega) (by omega)).mono fun res hres => ⟨hres.1, ?_⟩
        intro s m hm hbit hcand hb
        rcases hcand.descend inv hn hb with rfl | ⟨t, ht, hbt⟩
        · obtain rfl : n = m := by simpa [hn] using hm
          omega
        · obtain rfl : next = t := by simpa [hc] using ht
          exact hres.2 s m hm hbit hcand hbt
    · refine ⟨fun node hnode => ⟨n, ?_, by omega⟩, fun s m _ _ hcand hb => ?_⟩
      · obtain rfl : cur = node := by simpa using hnode
        exact hn
      · rw [hcand.eq_of_le inv hn hb (by omega)]

/-- The exact search finds the label with the searched prefix. -/
theorem patriciaSearchExact_spec (inv : p.Inv) {pfx : PrefixT} (hlen : pfx.bitlen ≤ 32) :
    Ensures (fun _ => False) (p.patriciaSearchExact pfx) fun res =>
      (∀ node, res = some node → ∃ l, p.label node = some l ∧ l.bitlen = pfx.bitlen ∧
        Agree l.bitlen (addrKey l.add) (addrKey pfx.add)) ∧
      (res = none → ∀ s l, p.label s = some l → l.bitlen = pfx.bitlen →
        ¬ Agree l.bitlen (addrKey l.add) (addrKey pfx.add)) := by
  obtain ⟨key, inv⟩ := inv
  rw [patriciaSearchExact]
  cases hh : p.head with
  | none =>
    refine ⟨by simp, fun _ s l hl => ?_⟩
    rw [inv.label_eq_none hh] at hl
    cases hl
  | some head =>
    obtain ⟨n, hn, -⟩ := inv.head_node hh
    simp only [ensures_bind]
    refine (searchExactLoop_spec inv (p.maxbits + 1) hn (by omega)
      (by rw [inv.maxbits]; omega)).mono ?_
    rintro res ⟨hok, hall⟩
    have hfind : ∀ s l, p.label s = some l → l.bitlen = pfx.bitlen →
        Agree l.bitlen (addrKey l.add) (addrKey pfx.add) → res = some s := by
      intro s l hl hlen' hag
      obtain ⟨m, -, -, hm, -, -, -, -, -, hbit, -⟩ := inv.of_label hl
      exact hall s m hm (hbit.trans hlen') (inv.candidate hl ⟨hlen'.le, hag⟩)
        (inv.below_head hm hh)
    cases res with
    | none =>
      refine ⟨by simp, fun _ s l hl hlen' hag => ?_⟩
      exact absurd (hfind s l hl hlen' hag) (by simp)
    | some node =>
      obtain ⟨m, hm, hle⟩ := hok node rfl
      simp only [Heap.read_eq hm, ensures_bind, ensures_ok]
      cases hq : m.pfx with
      | none =>
        rw [if_pos (by simp)]
        refine ⟨by simp, fun _ s l hl hlen' hag => ?_⟩
        obtain rfl : node = s := by simpa using hfind s l hl hlen' hag
        have hsome := inv.label_isSome hm
        simp [hl, hq] at hsome
      | some q =>
        obtain ⟨t, ht, hbit, -, -, hl⟩ := inv.label_of_pfx hm hq
        have hmine : ∀ s l, p.label s = some l → l.bitlen = pfx.bitlen →
            Agree l.bitlen (addrKey l.add) (addrKey pfx.add) →
            t.bitlen = pfx.bitlen ∧ Agree t.bitlen (addrKey t.add) (addrKey pfx.add) := by
          intro s l' hl' hlen' hag
          obtain rfl : node = s := by simpa using hfind s l' hl' hlen' hag
          obtain rfl : _ = l' := by simpa [hl] using hl'
          exact ⟨hlen', hag⟩
        by_cases hgt : m.bit > pfx.bitlen
        · rw [if_pos (by simp [hgt])]
          refine ⟨by simp, fun _ s l' hl' hlen' hag => ?_⟩
          have h := (hmine s l' hl' hlen' hag).1
          omega
        · have hlen' : t.bitlen = pfx.bitlen := by omega
          rw [if_neg (by simp [hgt])]
          simp only [Heap.readPtr_some, Heap.read_eq ht, ensures_bind, ensures_ok]
          split_ifs with hc
          · refine ⟨fun node' hnode => ?_, by simp⟩
            obtain rfl : node = node' := by simpa using hnode
            exact ⟨_, hl, hlen', by simpa [hlen'] using (compWithMask_iff _ _ _).mp hc⟩
          · refine ⟨by simp, fun _ s l' hl' hlen'' hag => hc ?_⟩
            rw [compWithMask_iff, ← hlen']
            exact (hmine s l' hl' hlen'' hag).2

/-- The stack of a search: labelled nodes, those with longer prefixes on top. -/
def Stacked (p : Patricia) (stack : List ℕ) : Prop :=
  (∀ r ∈ stack, ∃ l, p.label r = some l) ∧
    stack.Pairwise fun r s => ∀ l m, p.label r = some l → p.label s = some m → m.bitlen < l.bitlen

/-- Every label on the stack is shorter than `bound`, and so is the stack. -/
def StackBound (p : Patricia) (stack : List ℕ) (bound : ℕ) : Prop :=
  stack.length ≤ bound ∧ ∀ r ∈ stack, ∀ l, p.label r = some l → l.bitlen < bound

theorem pushIf_spec (inv : p.Keyed key) {stack : List ℕ} (hn : p.nodes.cells cur = some n)
    (hst : p.Stacked stack) (hbd : p.StackBound stack n.bit) :
    Ensures (fun _ => False) (pushIf n.pfx.isSome stack cur) fun stack' =>
      p.Stacked stack' ∧ p.StackBound stack' (n.bit + 1) ∧ (∀ r ∈ stack, r ∈ stack') ∧
        (n.pfx.isSome → cur ∈ stack') := by
  have hbit := inv.bit_le (content_eq hn)
  cases hq : n.pfx with
  | some q =>
    obtain ⟨t, -, htb, -, -, hl⟩ := inv.label_of_pfx hn hq
    have hlen : stack.length < patriciaMaxbits + 1 := by
      have h : n.content.bit = n.bit := rfl
      have := hbd.1
      simp only [patriciaMaxbits]
      omega
    simp only [pushIf, Option.isSome_some, Bool.not_true, Bool.false_eq_true, if_false, hlen,
      if_true]
    refine ⟨⟨?_, ?_⟩, ⟨?_, ?_⟩, fun r hr => List.mem_cons_of_mem _ hr, fun _ => List.mem_cons_self⟩
    · rintro r (_ | ⟨_, hr⟩)
      · exact ⟨_, hl⟩
      · exact hst.1 r hr
    · refine List.pairwise_cons.mpr ⟨fun s hs l' m hl' hm => ?_, hst.2⟩
      obtain rfl : _ = l' := by simpa [hl] using hl'
      have := hbd.2 s hs m hm
      simpa [htb] using this
    · have := hbd.1
      simp only [List.length_cons]
      omega
    · rintro r (_ | ⟨_, hr⟩) l' hl'
      · obtain rfl : _ = l' := by simpa [hl] using hl'
        simp [htb]
      · exact Nat.lt_succ_of_lt (hbd.2 r hr l' hl')
  | none =>
    refine ⟨hst, ⟨?_, ?_⟩, fun r hr => hr, by simp⟩
    · exact Nat.le_succ_of_le hbd.1
    · exact fun r hr l' hl' => Nat.lt_succ_of_lt (hbd.2 r hr l' hl')

theorem StackBound.mono {stack : List ℕ} {b b' : ℕ} (h : p.StackBound stack b) (hle : b ≤ b') :
    p.StackBound stack b' :=
  ⟨h.1.trans hle, fun r hr l hl => (h.2 r hr l hl).trans_le hle⟩

/-- The descent stacks every label the address could belong to, except for those
at or below the node it stops at. -/
theorem searchBestLoop_spec (inv : p.Keyed key) :
    ∀ fuel {cur n} {stack : List ℕ}, p.nodes.cells cur = some n → 0 < fuel →
      bitlen < fuel + n.bit → p.Stacked stack → p.StackBound stack n.bit →
      Ensures (fun _ => False) (p.searchBestLoop addr bitlen fuel cur stack) fun res =>
        p.Stacked res.2 ∧ (∀ r ∈ stack, r ∈ res.2) ∧
        (∀ node, res.1 = some node → ∃ m, p.nodes.cells node = some m ∧ bitlen ≤ m.bit ∧
          p.StackBound res.2 m.bit) ∧
        ∀ s l, p.label s = some l → p.Candidate key addr bitlen s → p.graph.Below cur s →
          s ∈ res.2 ∨ res.1 = some s := by
  intro fuel
  induction fuel with
  | zero => exact fun _ h => absurd h (by decide)
  | succ fuel ih =>
    intro cur n stack hn _ hfuel hst hbd
    rw [searchBestLoop, Heap.read_eq hn]
    simp only [ensures_bind, ensures_ok]
    rw [next_child]
    split_ifs with hlt
    · rw [ensures_bind]
      refine (pushIf_spec inv hn hst hbd).mono ?_
      rintro stack' ⟨hst', hbd', hsub, hcur⟩
      have hmem : ∀ l, p.label cur = some l → cur ∈ stack' := fun l hl =>
        hcur (by rw [← inv.label_isSome hn, hl]; rfl)
      cases hc : n.toCell.child (addrBit addr n.bit) with
      | none =>
        refine ⟨hst', hsub, by simp, fun s l hl hcand hb => ?_⟩
        rcases hcand.descend inv hn hb with rfl | ⟨t, ht, -⟩
        · exact .inl (hmem l hl)
        · rw [hc] at ht
          cases ht
      | some next =>
        obtain ⟨n', hn', -, hlt', -⟩ := inv.child_node hn hc
        refine (ih hn' (by omega) (by omega) hst' (hbd'.mono hlt')).mono ?_
        rintro res ⟨hst'', hsub', hnode, hall⟩
        refine ⟨hst'', fun r hr => hsub' r (hsub r hr), hnode, fun s l hl hcand hb => ?_⟩
        rcases hcand.descend inv hn hb with rfl | ⟨t, ht, hbt⟩
        · exact .inl (hsub' _ (hmem l hl))
        · obtain rfl : next = t := by simpa [hc] using ht
          exact hall s l hl hcand hbt
    · refine ⟨hst, fun r hr => hr, fun node hnode => ⟨n, ?_, by omega, hbd⟩,
        fun s l _ hcand hb => ?_⟩
      · obtain rfl : cur = node := by simpa using hnode
        exact hn
      · rw [hcand.eq_of_le inv hn hb (by omega)]
        exact .inr rfl

/-- Unwinding the stack finds the longest stacked label that matches. -/
theorem searchBestPop_spec (inv : p.Keyed key) {pfx : PrefixT} :
    ∀ {stack : List ℕ}, p.Stacked stack →
      Ensures (fun _ => False) (p.searchBestPop pfx stack) fun res =>
        (∀ node, res = some node → ∃ l, p.label node = some l ∧ l.Matches pfx.add pfx.bitlen ∧
          ∀ s ∈ stack, ∀ m, p.label s = some m → m.Matches pfx.add pfx.bitlen →
            m.bitlen ≤ l.bitlen) ∧
        (res = none → ∀ s ∈ stack, ∀ m, p.label s = some m → ¬ m.Matches pfx.add pfx.bitlen) := by
  intro stack
  induction stack with
  | nil => exact fun _ => ⟨by simp, by simp⟩
  | cons r stack ih =>
    intro hst
    obtain ⟨l, hl⟩ := hst.1 r List.mem_cons_self
    obtain ⟨n, q, t, hn, hq, ht, hadd, hbl, -, -, -, -⟩ := inv.of_label hl
    obtain ⟨hlt, htail⟩ := List.pairwise_cons.mp hst.2
    have hst' : p.Stacked stack := ⟨fun s hs => hst.1 s (List.mem_cons_of_mem _ hs), htail⟩
    have hiff : (compWithMask t.add pfx.add t.bitlen && t.bitlen ≤ pfx.bitlen) = true ↔
        l.Matches pfx.add pfx.bitlen := by
      rw [Bool.and_eq_true, compWithMask_iff, decide_eq_true_eq, hadd, hbl]
      exact and_comm
    rw [searchBestPop, Heap.read_eq hn]
    simp only [ensures_bind, ensures_ok, hq, Heap.readPtr_some, Heap.read_eq ht]
    split_ifs with hc
    · refine ⟨fun node hnode => ?_, by simp⟩
      obtain rfl : r = node := by simpa using hnode
      refine ⟨l, hl, hiff.mp hc, ?_⟩
      rintro s (_ | ⟨_, hs⟩) m hm -
      · obtain rfl : l = m := by simpa [hl] using hm
        exact le_rfl
      · exact (hlt s hs l m hl hm).le
    · refine (ih hst').mono ?_
      rintro res ⟨hsome, hnone⟩
      refine ⟨fun node hnode => ?_, fun hres => ?_⟩
      · obtain ⟨l', hl', hmatch, hbest⟩ := hsome node hnode
        refine ⟨l', hl', hmatch, ?_⟩
        rintro s (_ | ⟨_, hs⟩) m hm hmm
        · obtain rfl : l = m := by simpa [hl] using hm
          exact absurd (hiff.mpr hmm) hc
        · exact hbest s hs m hm hmm
      · rintro s (_ | ⟨_, hs⟩) m hm hmm
        · obtain rfl : l = m := by simpa [hl] using hm
          exact absurd (hiff.mpr hmm) hc
        · exact hnone hres s hs m hm hmm

/-- The best-match search finds the longest label that covers the address. -/
theorem patriciaSearchBest_spec (inv : p.Inv) {pfx : PrefixT} (hlen : pfx.bitlen ≤ 32) :
    Ensures (fun _ => False) (p.patriciaSearchBest pfx) fun res =>
      (∀ node, res = some node → ∃ l, p.label node = some l ∧ l.Matches pfx.add pfx.bitlen ∧
        ∀ s m, p.label s = some m → m.Matches pfx.add pfx.bitlen → m.bitlen ≤ l.bitlen) ∧
      (res = none → ∀ s m, p.label s = some m → ¬ m.Matches pfx.add pfx.bitlen) := by
  obtain ⟨key, inv⟩ := inv
  rw [patriciaSearchBest, patriciaSearchBest2]
  cases hh : p.head with
  | none =>
    refine ⟨by simp, fun _ s l hl => ?_⟩
    rw [inv.label_eq_none hh] at hl
    cases hl
  | some head =>
    obtain ⟨n, hn, -⟩ := inv.head_node hh
    have hempty : p.Stacked [] := ⟨by simp, .nil⟩
    simp only [ensures_bind, Bool.true_and]
    refine (searchBestLoop_spec inv (p.maxbits + 1) hn (by omega)
      (by rw [inv.maxbits]; omega) hempty ⟨by simp, by simp⟩).mono ?_
    rintro ⟨last, stack⟩ ⟨hst, -, hlast, hall⟩
    -- whatever the final stack is, it holds every label that matches
    have hpop : ∀ stack', p.Stacked stack' → (∀ r ∈ stack, r ∈ stack') →
        (∀ s l, p.label s = some l → last = some s → s ∈ stack') →
        Ensures (fun _ => False) (p.searchBestPop pfx stack') fun res =>
          (∀ node, res = some node → ∃ l, p.label node = some l ∧
            l.Matches pfx.add pfx.bitlen ∧ ∀ s m, p.label s = some m →
              m.Matches pfx.add pfx.bitlen → m.bitlen ≤ l.bitlen) ∧
          (res = none → ∀ s m, p.label s = some m → ¬ m.Matches pfx.add pfx.bitlen) := by
      intro stack' hst' hsub hlast'
      have hin : ∀ s l, p.label s = some l → l.Matches pfx.add pfx.bitlen → s ∈ stack' := by
        intro s l hl hmatch
        obtain ⟨m, -, -, hm, -⟩ := inv.of_label hl
        rcases hall s l hl (inv.candidate hl hmatch) (inv.below_head hm hh) with h | h
        · exact hsub s h
        · exact hlast' s l hl h
      refine (searchBestPop_spec inv hst').mono fun res hres => ⟨fun node hnode => ?_, ?_⟩
      · obtain ⟨l, hl, hmatch, hbest⟩ := hres.1 node hnode
        exact ⟨l, hl, hmatch, fun s m hm hmm => hbest s (hin s m hm hmm) m hm hmm⟩
      · exact fun hnone s m hm hmm => hres.2 hnone s (hin s m hm hmm) m hm hmm
    cases last with
    | none => exact hpop stack hst (fun r hr => hr) (by simp)
    | some node =>
      obtain ⟨m, hm, -, hbd⟩ := hlast node rfl
      simp only [Heap.read_eq hm, ensures_bind, ensures_ok]
      refine (pushIf_spec inv hm hst hbd).mono ?_
      rintro stack' ⟨hst', -, hsub, hcur⟩
      refine hpop stack' hst' hsub fun s l hl hs => ?_
      obtain rfl : node = s := by simpa using hs
      exact hcur (by rw [← inv.label_isSome hm, hl]; rfl)

end Patricia

end Madcap
