import Madcap.Foundation.Supply
import Madcap.Patricia.Labels

/-!
# What an insertion asks for

`patricia_lookup` asks for no node, for a leaf, or for a leaf and a glue node, and writes
through what it gets. It returns exactly when it gets as many nodes as it needs.
-/

namespace Madcap

open Trie

namespace Patricia

/-- The nodes that `patricia_lookup` allocates once it found its place: none if the node has
the prefix's length, a leaf below or above the node, or a leaf and a glue node. -/
def newNodesAt (n : PatriciaNode) (bitlen differBit : ℕ) : ℕ :=
  if differBit = bitlen && n.bit = bitlen then 0
  else if n.bit = differBit || bitlen = differBit then 1
  else 2

/-- The nodes that `patricia_lookup` allocates for a prefix. -/
def newNodes (p : Patricia) (t : PrefixT) : Res ℕ :=
  match p.head with
  | none => return 1
  | some head => do
    let node ← p.lookupDescend t.add t.bitlen (p.maxbits + 1) head
    let n ← p.nodes.read node
    let test ← p.prefixes.readPtr n.pfx
    let checkBit := if n.bit < t.bitlen then n.bit else t.bitlen
    let differBit := firstDifferBit t.add test.add checkBit
    let node ← p.lookupAscend differBit (p.maxbits + 1) node
    let n ← p.nodes.read node
    return newNodesAt n t.bitlen differBit

instance : Supply Patricia where
  grants p := p.grants
  requests p := p.requests
  regrant g p := { p with grants := g }
  grants_regrant _ _ := rfl
  requests_regrant _ _ := rfl
  regrant_regrant _ _ _ := rfl
  regrant_grants _ := rfl

variable {p p' : Patricia} {key : ℕ → Key} {r : Ref} {n : PatriciaNode} {q : Ref} {t : PrefixT}
  {res : Ref × Patricia}

theorem kmallocNode_asks {node : Patricia → PatriciaNode} (h : p.kmallocNode (node p) = .ok res)
    (hn : ∀ g, node (Supply.regrant g p) = node p) :
    Asks (fun p => p.kmallocNode (node p)) p 1 res := by
  obtain ⟨hgrant, rfl⟩ := kmallocNode_eq_ok h
  refine ⟨h, rfl, rfl, fun i hi => ?_, fun g hg => ?_⟩
  · obtain rfl : i = 0 := by omega
    exact hgrant
  · have hfirst : g p.requests = true := hg 0 Nat.one_pos
    rw [hn g]
    unfold kmallocNode kmalloc
    simp only [Supply.regrant, hfirst]

theorem setNode_asks {f : Patricia → PatriciaNode → PatriciaNode} (h : p.setNode r (f p) = .ok p')
    (hf : ∀ g, f (Supply.regrant g p) = f p) : Asks (fun p => p.setNode r (f p)) p 0 p' := by
  obtain ⟨nodes, hw, hp'⟩ := bind_eq_ok.mp h
  obtain rfl := Except.ok.inj hp'
  refine .of_ok h rfl rfl fun g => ?_
  rw [hf g]
  exact bind_eq_ok.mpr ⟨nodes, hw, rfl⟩

theorem replaceUnder_asks {parent node : Option Ref} {old : Ref}
    (h : p.replaceUnder parent old node = .ok p') :
    Asks (fun p => p.replaceUnder parent old node) p 0 p' := by
  cases parent with
  | none =>
    obtain rfl := Except.ok.inj h
    exact .of_ok rfl rfl rfl fun _ => rfl
  | some parent => exact setNode_asks h fun _ => rfl

theorem refPrefix_asks (hq : p.prefixes.cells q = some t) (ht : 0 < t.refCount)
    {res : Option Ref × Patricia} (h : p.refPrefix q = .ok res) :
    Asks (fun p => p.refPrefix q) p 0 res := by
  have hne : t.refCount ≠ 0 := by omega
  have hrun : ∀ g, (Supply.regrant g p).refPrefix q = .ok (some q, Supply.regrant g { p with
      prefixes := p.prefixes.modify q fun t => { t with refCount := t.refCount + 1 } }) := by
    intro g
    simp only [refPrefix, Supply.regrant, Heap.read_eq hq, Heap.write_eq hq, bind, Except.bind,
      if_neg hne]
    rfl
  have hself := hrun p.grants
  change p.refPrefix q = _ at hself
  obtain rfl := Except.ok.inj (hself.symm.trans h)
  exact .of_ok h rfl rfl hrun

theorem newNode_asks {bitlen : ℕ} (hq : p.prefixes.cells q = some t) (ht : 0 < t.refCount)
    (h : p.newNode q bitlen = .ok res) : Asks (fun p => p.newNode q bitlen) p 1 res := by
  obtain ⟨⟨x, p₁⟩, h₁, h⟩ := bind_eq_ok.mp h
  obtain ⟨⟨q', p₂⟩, h₂, h⟩ := bind_eq_ok.mp h
  obtain ⟨p₃, h₃, h⟩ := bind_eq_ok.mp h
  obtain rfl := Except.ok.inj h
  have hq₁ : p₁.prefixes.cells q = some t := by
    rw [((kmallocNode_spec p _).of_eq_ok h₁).2.2.prefixes, hq]
  unfold newNode
  refine (kmallocNode_asks h₁ fun _ => rfl).finish (.pair ?_)
  refine (refPrefix_asks hq₁ ht h₂).andThen (.pair ?_)
  exact (setNode_asks h₃ fun _ => rfl).andThen (.of_ok rfl rfl rfl fun _ => rfl)

theorem insertAbove_asks {newNode node : Ref} {testAddr : U32} {bitlen : ℕ}
    (h : p.insertAbove newNode node n testAddr bitlen = .ok p') :
    Asks (fun p => p.insertAbove newNode node n testAddr bitlen) p 0 p' := by
  obtain ⟨p₁, h₁, h⟩ := bind_eq_ok.mp h
  obtain ⟨p₂, h₂, h₃⟩ := bind_eq_ok.mp h
  unfold insertAbove
  refine (setNode_asks h₁ fun _ => rfl).andThen ?_
  exact (replaceUnder_asks h₂).andThen (setNode_asks h₃ fun _ => rfl)

theorem insertGlue_asks {newNode node : Ref} {addr : U32} {differBit : ℕ}
    (h : p.insertGlue newNode node n addr differBit = .ok p') :
    Asks (fun p => p.insertGlue newNode node n addr differBit) p 1 p' := by
  obtain ⟨⟨glue, p₁⟩, h₁, h⟩ := bind_eq_ok.mp h
  obtain ⟨p₂, h₂, h⟩ := bind_eq_ok.mp h
  obtain ⟨p₃, h₃, h₄⟩ := bind_eq_ok.mp h
  unfold insertGlue
  refine (kmallocNode_asks h₁ fun _ => rfl).finish (.pair ?_)
  have hlink : Asks (fun p => p.setNode newNode fun m => { m with parent := some glue })
      { p₁ with numActiveNode := p₁.numActiveNode + 1 } 0 p₂ := setNode_asks h₂ fun _ => rfl
  have hset : Asks (fun p : Patricia => ({ p with numActiveNode := p.numActiveNode + 1 } :
      Patricia).setNode newNode fun m => { m with parent := some glue }) p₁ 0 p₂ :=
    ⟨h₂, hlink.grants_eq, hlink.requests_eq, hlink.granted, hlink.replay⟩
  refine hset.andThen ?_
  exact (replaceUnder_asks h₃).andThen (setNode_asks h₄ fun _ => rfl)

theorem lookupInsert_asks {addr testAddr : U32} {bitlen differBit : ℕ} {node : Ref}
    (hq : p.prefixes.cells q = some t) (ht : 0 < t.refCount) (hn : p.nodes.cells node = some n)
    (h : p.lookupInsert q addr testAddr bitlen differBit node = .ok res) :
    Asks (fun p => p.lookupInsert q addr testAddr bitlen differBit node) p
      (newNodesAt n bitlen differBit) res := by
  unfold lookupInsert at h ⊢
  rw [Heap.read_eq hn] at h
  obtain ⟨n', hn', h⟩ := bind_eq_ok.mp h
  obtain rfl := Except.ok.inj hn'
  refine .read (Heap.read_eq hn) (fun _ => rfl) ?_
  unfold newNodesAt
  by_cases hhere : (decide (differBit = bitlen) && decide (n.bit = bitlen)) = true
  · simp only [if_pos hhere] at h ⊢
    by_cases hpfx : n.pfx.isSome = true
    · simp only [if_pos hpfx] at h ⊢
      obtain rfl := Except.ok.inj h
      exact .of_ok rfl rfl rfl fun _ => rfl
    · simp only [if_neg hpfx] at h ⊢
      obtain ⟨⟨q', p₁⟩, h₁, h⟩ := bind_eq_ok.mp h
      obtain ⟨p₂, h₂, h⟩ := bind_eq_ok.mp h
      obtain rfl := Except.ok.inj h
      refine (refPrefix_asks hq ht h₁).andThen (.pair ?_)
      exact (setNode_asks h₂ fun _ => rfl).andThen (.of_ok rfl rfl rfl fun _ => rfl)
  · simp only [if_neg hhere] at h ⊢
    obtain ⟨⟨x, p₁⟩, h₁, h⟩ := bind_eq_ok.mp h
    have hnew := newNode_asks hq ht h₁
    by_cases hbit : n.bit = differBit
    · have hone : (decide (n.bit = differBit) || decide (bitlen = differBit)) = true := by
        simp [hbit]
      simp only [if_pos hbit, if_pos hone] at h ⊢
      obtain ⟨p₂, h₂, h⟩ := bind_eq_ok.mp h
      obtain ⟨p₃, h₃, h⟩ := bind_eq_ok.mp h
      obtain rfl := Except.ok.inj h
      have hlink : Asks (fun p => p.setNode node fun m => if p.takeRight addr n.bit
          then { m with r := some x } else { m with l := some x }) p₂ 0 p₃ :=
        setNode_asks h₃ fun _ => rfl
      have hup : Asks (fun p => p.setNode x fun m => { m with parent := some node }) p₁ 0 p₂ :=
        setNode_asks h₂ fun _ => rfl
      refine hnew.finish (.pair ?_)
      dsimp only
      refine hup.andThen ?_
      refine hlink.andThen ?_
      exact .of_ok rfl rfl rfl fun _ => rfl
    · simp only [if_neg hbit] at h ⊢
      by_cases hlast : bitlen = differBit
      · have hone : (decide (n.bit = differBit) || decide (bitlen = differBit)) = true := by
          simp [hlast]
        simp only [if_pos hlast, if_pos hone] at h ⊢
        obtain ⟨p₂, h₂, h⟩ := bind_eq_ok.mp h
        obtain rfl := Except.ok.inj h
        refine hnew.finish (.pair ?_)
        dsimp only
        refine (insertAbove_asks h₂).andThen ?_
        exact .of_ok rfl rfl rfl fun _ => rfl
      · have htwo : ¬ (decide (n.bit = differBit) || decide (bitlen = differBit)) = true := by
          simp [hbit, hlast]
        simp only [if_neg hlast, if_neg htwo] at h ⊢
        obtain ⟨p₂, h₂, h⟩ := bind_eq_ok.mp h
        obtain rfl := Except.ok.inj h
        have hglue : Asks (fun p => p.insertGlue x node n addr differBit) p₁ 1 p₂ :=
          insertGlue_asks h₂
        have hrest : Asks (fun p => p.insertGlue x node n addr differBit >>= fun p =>
            (.ok (x, p) : Res (Ref × Patricia))) p₁ 1 (x, p₂) :=
          hglue.finish (.of_ok rfl rfl rfl fun _ => rfl)
        exact hnew.bind (.pair hrest) (fun _ => rfl) rfl

theorem lookupDescend_congr (hn : p'.nodes = p.nodes) (hm : p'.maxbits = p.maxbits) {addr : U32}
    {bitlen fuel : ℕ} {node : Ref} :
    p'.lookupDescend addr bitlen fuel node = p.lookupDescend addr bitlen fuel node := by
  have htake : p'.takeRight = p.takeRight := by
    funext addr bit
    rw [takeRight, takeRight, hm]
  induction fuel generalizing node with
  | zero => rfl
  | succ fuel ih => simp only [lookupDescend, htake, hn, ih]

theorem lookupAscend_congr (hn : p'.nodes = p.nodes) {differBit fuel : ℕ} {node : Ref} :
    p'.lookupAscend differBit fuel node = p.lookupAscend differBit fuel node := by
  induction fuel generalizing node with
  | zero => rfl
  | succ fuel ih => simp only [lookupAscend, hn, ih]

theorem patriciaLookup_asks (hq : p.prefixes.cells q = some t) (ht : 0 < t.refCount)
    (h : p.patriciaLookup q = .ok res) :
    ∃ k, p.newNodes t = .ok k ∧ Asks (fun p => p.patriciaLookup q) p k res := by
  unfold patriciaLookup at h
  rw [Heap.read_eq hq] at h
  obtain ⟨t', ht', h⟩ := bind_eq_ok.mp h
  obtain rfl := Except.ok.inj ht'
  cases hh : p.head with
  | none =>
    simp only [hh] at h
    obtain ⟨⟨x, p₁⟩, h₁, h⟩ := bind_eq_ok.mp h
    obtain rfl := Except.ok.inj h
    have hask : Asks (fun p : Patricia => p.prefixes.read q >>= fun t =>
        p.newNode q t.bitlen >>= fun res =>
          (.ok (res.1, { res.2 with head := some res.1 }) : Res (Ref × Patricia)))
        p 1 (x, { p₁ with head := some x }) := by
      refine .read (Heap.read_eq hq) (fun _ => rfl) ?_
      exact (newNode_asks hq ht h₁).finish (.of_ok rfl rfl rfl fun _ => rfl)
    refine ⟨1, by simp only [newNodes, hh]; rfl, hask.congr ?_ fun g => ?_⟩
    · unfold patriciaLookup
      simp only [hh]
      rfl
    · unfold patriciaLookup
      simp only [Supply.regrant, hh]
      rfl
  | some head =>
    simp only [hh] at h
    obtain ⟨low, hlow, h⟩ := bind_eq_ok.mp h
    obtain ⟨n, hn, h⟩ := bind_eq_ok.mp h
    obtain ⟨test, htest, h⟩ := bind_eq_ok.mp h
    obtain ⟨node, hnode, h⟩ := bind_eq_ok.mp h
    obtain ⟨m, hm, -⟩ := bind_eq_ok.mp h
    have hask : Asks (fun p : Patricia => do
        let t ← p.prefixes.read q
        let low ← p.lookupDescend t.add t.bitlen (p.maxbits + 1) head
        let n ← p.nodes.read low
        let test ← p.prefixes.readPtr n.pfx
        let checkBit := if n.bit < t.bitlen then n.bit else t.bitlen
        let differBit := firstDifferBit t.add test.add checkBit
        let node ← p.lookupAscend differBit (p.maxbits + 1) low
        p.lookupInsert q t.add test.add t.bitlen differBit node) p (newNodesAt m t.bitlen
          (firstDifferBit t.add test.add (if n.bit < t.bitlen then n.bit else t.bitlen))) res := by
      refine .read (Heap.read_eq hq) (fun _ => rfl) ?_
      refine .read hlow (fun _ => by apply lookupDescend_congr <;> rfl) ?_
      refine .read hn (fun _ => rfl) ?_
      refine .read htest (fun _ => rfl) ?_
      refine .read hnode (fun _ => by apply lookupAscend_congr; rfl) ?_
      exact lookupInsert_asks hq ht (Heap.read_eq_ok.mp hm) h
    refine ⟨_, ?_, hask.congr ?_ fun g => ?_⟩
    · unfold newNodes
      simp only [hh, hlow, hn, htest, hnode, hm, bind, Except.bind]
      rfl
    · unfold patriciaLookup
      simp only [hh]
    · unfold patriciaLookup
      simp only [Supply.regrant, hh]

theorem newNodes_congr (hh : p'.head = p.head) (hn : p'.nodes = p.nodes)
    (hm : p'.maxbits = p.maxbits) (hp : ∀ r n, p.nodes.read r = .ok n →
      p'.prefixes.readPtr n.pfx = p.prefixes.readPtr n.pfx) : p'.newNodes t = p.newNodes t := by
  unfold newNodes
  rw [hh]
  cases p.head with
  | none => rfl
  | some head =>
    simp only [lookupDescend_congr hn hm, lookupAscend_congr hn, hn, hm]
    cases p.lookupDescend t.add t.bitlen (p.maxbits + 1) head with
    | error e => rfl
    | ok low =>
      simp only [bind, Except.bind]
      cases hr : p.nodes.read low with
      | error e => rfl
      | ok n => simp only [hp low n hr]

theorem newNodes_alloc (inv : p.Inv) (u : PrefixT) (requests : ℕ) :
    ({ p with requests := requests, prefixes := p.prefixes.alloc u } : Patricia).newNodes t =
      p.newNodes t := by
  obtain ⟨key, hkey⟩ := inv
  refine newNodes_congr rfl rfl rfl fun r n hr => ?_
  cases hq : n.pfx with
  | none => rfl
  | some q =>
    have hne := hkey.prefix_ne_next (content_eq (Heap.read_eq_ok.mp hr)) hq
    simp only [Heap.readPtr_some, Heap.read, Heap.alloc_cells, if_neg hne]

theorem searchExactLoop_congr (hn : p'.nodes = p.nodes) {addr : U32} {bitlen fuel : ℕ} {node : Ref} :
    p'.searchExactLoop addr bitlen fuel node = p.searchExactLoop addr bitlen fuel node := by
  induction fuel generalizing node with
  | zero => rfl
  | succ fuel ih => simp only [searchExactLoop, hn, ih]

theorem searchBestLoop_congr (hn : p'.nodes = p.nodes) {addr : U32} {bitlen fuel : ℕ} {node : Ref}
    {stack : List Ref} : p'.searchBestLoop addr bitlen fuel node stack =
      p.searchBestLoop addr bitlen fuel node stack := by
  induction fuel generalizing node stack with
  | zero => rfl
  | succ fuel ih => simp only [searchBestLoop, hn, ih]

theorem searchBestPop_congr (hn : p'.nodes = p.nodes) (hp : p'.prefixes = p.prefixes)
    {stack : List Ref} : p'.searchBestPop t stack = p.searchBestPop t stack := by
  induction stack with
  | nil => rfl
  | cons node stack ih => simp only [searchBestPop, hn, hp, ih]

theorem patriciaSearchExact_congr (hh : p'.head = p.head) (hn : p'.nodes = p.nodes)
    (hp : p'.prefixes = p.prefixes) (hm : p'.maxbits = p.maxbits) :
    p'.patriciaSearchExact t = p.patriciaSearchExact t := by
  simp only [patriciaSearchExact, hh, hm, hp, hn, searchExactLoop_congr hn]

theorem patriciaSearchBest_congr (hh : p'.head = p.head) (hn : p'.nodes = p.nodes)
    (hp : p'.prefixes = p.prefixes) (hm : p'.maxbits = p.maxbits) :
    p'.patriciaSearchBest t = p.patriciaSearchBest t := by
  simp only [patriciaSearchBest, patriciaSearchBest2, hh, hm, hn, searchBestLoop_congr hn,
    searchBestPop_congr hn hp]

end Patricia

end Madcap
