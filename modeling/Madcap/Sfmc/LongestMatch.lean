import Madcap.Foundation.Runs
import Madcap.Sfmc.Fib

/-!
# Longest-prefix match of the outer FIB

Runs of FIB operations on a fresh device, and what the two lookups return after
them. A second run that differs in host bits only is followed in lockstep: the
abstract tables of the two devices stay equal.
-/

namespace Madcap

open Trie LongestPrefix

/-- The FIB operations. A route for the work queue is queued first and inserted
later, as `sfmc_encap_packet` and `sfmc_ll_neigh_work` do. -/
inductive FibOp where
  | add (network : U32) (len : Fin 33) (gateway : U32) (scope : U8)
  | queue (dst : U32)
  | insert (sf : Ref)
  | del (network : U32) (len : Fin 33)
  | delete (sf : Ref)

/-- The operations are the same up to host bits. -/
inductive FibOp.SameMask : FibOp → FibOp → Prop
  | add {network network' : U32} {len : Fin 33} (gateway : U32) (scope : U8)
      (h : Agree len (addrKey network) (addrKey network')) :
      SameMask (.add network len gateway scope) (.add network' len gateway scope)
  | queue (dst : U32) : SameMask (.queue dst) (.queue dst)
  | insert (sf : Ref) : SameMask (.insert sf) (.insert sf)
  | del {network network' : U32} {len : Fin 33}
      (h : Agree len (addrKey network) (addrKey network')) :
      SameMask (.del network len) (.del network' len)
  | delete (sf : Ref) : SameMask (.delete sf) (.delete sf)

theorem FibOp.SameMask.refl (op : FibOp) : op.SameMask op := by
  cases op with
  | add network len gateway scope => exact .add gateway scope (Agree.refl _ _)
  | queue dst => exact .queue dst
  | insert sf => exact .insert sf
  | del network len => exact .del (Agree.refl _ _)
  | delete sf => exact .delete sf

namespace Sfmc

def fibStep (s : Sfmc) : FibOp → Res Sfmc
  | .add network len gateway scope => do
    let (_, s) ← s.sfmcFibAdd network len gateway scope
    return s
  | .queue dst =>
    match s.sfmcFibCreate dst 32 dst RT_SCOPE_LINK with
    | (none, _) => throw .badAccess
    | (some sf, s) => return { s with wq := s.wq ++ [sf] }
  | .insert sf =>
    if sf ∈ s.wq then do
      let (_, s) ← { s with wq := s.wq.erase sf }.sfmcFibInsert sf
      return s
    else
      return s
  | .del network len => do
    let (_, s) ← s.sfmcFibDel network len
    return s
  | .delete sf => if sf ∈ s.fibList then s.sfmcFibDelete sf else return s

def fibRun (s : Sfmc) (ops : List FibOp) : Res Sfmc := runSteps fibStep s ops

variable {s s' : Sfmc} {sf sf' : Ref} {f f' : SfmcFib} {network d : U32} {len : ℕ}

theorem FibInv.queue (inv : s.FibInv) (network : U32) (hlen : len ≤ 32) (gateway : U32) (scope : U8) :
    ({ s.created (blankFib network len gateway scope) with
      wq := s.wq ++ [s.fibs.next] } : Sfmc).FibInv := by
  have hr := inv.ready_create network hlen gateway scope
  refine ⟨hr.inv.tree, hr.inv.listed, hr.inv.labelled, hr.inv.nodup, ?_, ?_⟩
  · intro sf hsf
    rcases List.mem_append.mp hsf with h | h
    · exact hr.inv.queued h
    · obtain rfl := List.mem_singleton.mp h
      exact ⟨hr.fresh, _, hr.read, hlen, rfl⟩
  · refine List.nodup_append.mpr ⟨inv.wq_nodup, List.nodup_singleton _, ?_⟩
    rintro a ha b hb rfl
    obtain rfl := List.mem_singleton.mp hb
    exact hr.idle ha

/-- A queued route that leaves the queue is ready to be linked. -/
theorem FibInv.ready_queued (inv : s.FibInv) (hsf : sf ∈ s.wq) :
    ∃ f, s.Ready sf f { s with wq := s.wq.erase sf } := by
  obtain ⟨hnl, f, hf, hlen, hnud⟩ := inv.queued hsf
  refine ⟨f, ⟨inv.tree, inv.listed, inv.labelled, inv.nodup, fun h => ?_,
    inv.wq_nodup.erase sf⟩, ⟨rfl, rfl, rfl, rfl, rfl⟩, rfl, rfl, hf, hlen, hnud, hnl, fun h => ?_,
    fun _ _ => rfl⟩
  · exact inv.queued (List.mem_of_mem_erase h)
  · exact (inv.wq_nodup.mem_erase_iff.mp h).1 rfl

/-- Two devices that differ in host bits at most. -/
structure Alike (s s' : Sfmc) : Prop where
  inv : s.FibInv
  inv' : s'.FibInv
  grants : ∀ i, s.fibTree.grants i = true
  grants' : ∀ i, s'.fibTree.grants i = true
  list : s'.fibList = s.fibList
  wq : s'.wq = s.wq
  next : s'.fibs.next = s.fibs.next
  routes : s'.routes = s.routes
  queued : ∀ sf ∈ s.wq, s'.route sf = s.route sf

theorem never_refuses (hg : ∀ i, s.fibTree.grants i = true) (e : Fault) :
    ¬ s.fibTree.Refuses e := by
  rintro ⟨-, i, hi⟩
  rw [hg] at hi
  cases hi

theorem Alike.refl (inv : s.FibInv) (hg : ∀ i, s.fibTree.grants i = true) : s.Alike s :=
  ⟨inv, inv, hg, hg, rfl, rfl, rfl, rfl, fun _ _ => rfl⟩

theorem Alike.inserted {tmp tmp' : Option Ref} {t t' : Sfmc} (h : s.Alike s')
    (hins : s.Inserted sf f (tmp, t)) (hins' : s'.Inserted sf f' (tmp', t')) (hf : s.fibs.cells sf = some f)
    (hf' : s'.fibs.cells sf = some f') (hentry : f'.entry sf = f.entry sf)
    (hnl : sf ∉ s.fibList) (hnw : sf ∉ s.wq) : t.Alike t' := by
  have hmask : maskBits f'.network f'.len = maskBits f.network f.len :=
    congrArg Entry.pfx hentry
  refine ⟨hins.inv, hins'.inv, fun i => ?_, fun i => ?_, ?_, ?_, ?_, ?_, fun sf' hsf' => ?_⟩
  · exact (congrFun hins.frame.grants i).trans (h.grants i)
  · exact (congrFun hins'.frame.grants i).trans (h.grants' i)
  · have hl := hins.list_eq
    have hl' := hins'.list_eq
    rw [hmask, h.routes, h.list] at hl'
    exact hl'.trans hl.symm
  · exact (hins'.wq.trans h.wq).trans hins.wq.symm
  · exact (hins'.next_eq.trans h.next).trans hins.next_eq.symm
  · have hr := hins.routes hf hnl
    have hr' := hins'.routes hf' (h.list ▸ hnl)
    rw [hentry, h.routes] at hr'
    exact hr'.trans hr.symm
  · have hq' : sf' ∈ s.wq := hins.wq ▸ hsf'
    have hne : sf' ≠ sf := fun heq => hnw (heq ▸ hq')
    have hq := h.queued sf' hq'
    have hc := hins.cells_of_ne hne
    have hc' := hins'.cells_of_ne hne
    simp only [route] at hq hc hc' ⊢
    rw [hc, hc', hq]

theorem Alike.created (h : s.Alike s') (network network' gateway : U32) (scope : U8)
    (hlen : len ≤ 32) :
    (s.created (blankFib network len gateway scope)).Alike
      (s'.created (blankFib network' len gateway scope)) := by
  have hr := h.inv.ready_create network hlen gateway scope
  have hr' := h.inv'.ready_create network' hlen gateway scope
  refine ⟨hr.inv, hr'.inv, h.grants, h.grants', h.list, h.wq, ?_, ?_, fun sf hsf => ?_⟩
  · exact congrArg (· + 1) h.next
  · rw [hr.routes, hr'.routes, h.routes]
  · have hsf' : sf ∈ s.wq := hsf
    have hne : sf ≠ s.fibs.next := fun heq => hr.idle (heq ▸ hsf')
    have hne' : sf ≠ s'.fibs.next := h.next ▸ hne
    have hq := h.queued sf hsf'
    simp only [route, Sfmc.created, Heap.alloc_cells, if_neg hne, if_neg hne'] at hq ⊢
    exact hq

theorem Alike.deleted {t t' : Sfmc} (h : s.Alike s') (hsf : sf ∈ s.fibList)
    (hdel : s.Deleted sf t) (hdel' : s'.Deleted sf t') : t.Alike t' := by
  have hsf' : sf ∈ s'.fibList := h.list ▸ hsf
  obtain ⟨f, -, hf, -⟩ := h.inv.listed hsf
  obtain ⟨f', -, hf', -⟩ := h.inv'.listed hsf'
  have hentry : f'.entry sf = f.entry sf := by
    have hmem : f'.entry sf ∈ s'.routes := mem_routes.mpr ⟨hsf', f', hf', rfl⟩
    rw [h.routes] at hmem
    obtain ⟨-, g, hg, hpfx⟩ := mem_routes.mp hmem
    obtain rfl : f = g := by simpa [SfmcFib.entry, hf] using hg
    rw [SfmcFib.entry, SfmcFib.entry, Entry.mk.injEq]
    exact ⟨rfl, hpfx⟩
  refine ⟨hdel.inv, hdel'.inv, fun i => ?_, fun i => ?_, ?_, ?_, ?_, ?_, fun q hq => ?_⟩
  · rw [hdel.frame.grants, h.grants]
  · rw [hdel'.frame.grants, h.grants']
  · rw [hdel.list, hdel'.list, h.list]
  · rw [hdel.wq, hdel'.wq, h.wq]
  · rw [hdel.fibs, hdel'.fibs]
    exact h.next
  · rw [hdel.routes h.inv hsf hf, hdel'.routes h.inv' hsf' hf', hentry, h.routes]
  · rw [hdel.wq] at hq
    have hne : q ≠ sf := fun heq => (h.inv.queued hq).1 (heq ▸ hsf)
    have hroute := h.queued q hq
    simp only [route, hdel.fibs, hdel'.fibs, Heap.free_cells, if_neg hne] at hroute ⊢
    exact hroute

theorem Alike.fibStep (h : s.Alike s') {op op' : FibOp} (hop : op.SameMask op') :
    ∃ t t', s.fibStep op = .ok t ∧ s'.fibStep op' = .ok t' ∧ t.Alike t' := by
  have hno := never_refuses h.grants
  have hno' := never_refuses h.grants'
  cases hop with
  | @add network network' len gateway scope hag =>
    have hlen : (len : ℕ) ≤ 32 := Nat.lt_succ_iff.mp len.isLt
    obtain ⟨res, hres, hpost⟩ := (sfmcFibAdd_spec h.inv network hlen gateway
      scope).exists_ok hno
    obtain ⟨res', hres', hpost'⟩ := (sfmcFibAdd_spec h.inv' network' hlen gateway
      scope).exists_ok hno'
    refine ⟨res.2, res'.2, by simp only [Sfmc.fibStep, hres, bind, Except.bind]; rfl,
      by simp only [Sfmc.fibStep, hres', bind, Except.bind]; rfl, ?_⟩
    rcases hpost with ⟨-, i, hi⟩ | ⟨-, tmp, hins⟩
    · exact absurd ⟨rfl, i, hi⟩ (hno .badAccess)
    rcases hpost' with ⟨-, i, hi⟩ | ⟨-, tmp', hins'⟩
    · exact absurd ⟨rfl, i, hi⟩ (hno' .badAccess)
    have hr := h.inv.ready_create network hlen gateway scope
    have hr' := h.inv'.ready_create network' hlen gateway scope
    rw [h.next] at hins' hr'
    refine (h.created network network' gateway scope hlen).inserted hins hins' hr.read hr'.read ?_ hr.fresh hr.idle
    rw [SfmcFib.entry, SfmcFib.entry, Entry.mk.injEq]
    exact ⟨rfl, maskBits_eq_iff.mpr ⟨rfl, hag.symm⟩⟩
  | queue dst =>
    have halike := h.created dst dst dst RT_SCOPE_LINK (le_refl 32)
    have hq := h.inv.queue dst (le_refl 32) dst RT_SCOPE_LINK
    have hq' := h.inv'.queue dst (le_refl 32) dst RT_SCOPE_LINK
    refine ⟨_, _, by rw [Sfmc.fibStep, sfmcFibCreate_ok (h.grants _)]; rfl,
      by rw [Sfmc.fibStep, sfmcFibCreate_ok (h.grants' _)]; rfl, hq, hq', h.grants, h.grants',
      h.list, ?_, halike.next, halike.routes, ?_⟩
    · simp only [h.wq, h.next]
    · intro sf hsf
      rcases List.mem_append.mp hsf with hsf | hsf
      · exact halike.queued sf hsf
      · obtain rfl := List.mem_singleton.mp hsf
        simp [route, Sfmc.created, Heap.alloc_cells, h.next]
  | insert sf =>
    by_cases hsf : sf ∈ s.wq
    · have hsf' : sf ∈ s'.wq := h.wq ▸ hsf
      obtain ⟨f, hr⟩ := h.inv.ready_queued hsf
      obtain ⟨f', hr'⟩ := h.inv'.ready_queued hsf'
      obtain ⟨⟨tmp, t⟩, hres, hins⟩ := hr.inserts.exists_ok hno
      obtain ⟨⟨tmp', t'⟩, hres', hins'⟩ := hr'.inserts.exists_ok hno'
      refine ⟨t, t',
        by simp only [Sfmc.fibStep, if_pos hsf, hres, bind, Except.bind]; rfl,
        by simp only [Sfmc.fibStep, if_pos hsf', hres', bind, Except.bind]; rfl, ?_⟩
      have hentry : f'.entry sf = f.entry sf := by
        have hq := h.queued sf hsf
        have hf : s.fibs.cells sf = some f := hr.read
        have hf' : s'.fibs.cells sf = some f' := hr'.read
        simpa [route, hf, hf'] using hq
      have halike : ({ s with wq := s.wq.erase sf } : Sfmc).Alike
          { s' with wq := s'.wq.erase sf } :=
        ⟨hr.inv, hr'.inv, h.grants, h.grants', h.list, by rw [h.wq], h.next, h.routes,
          fun q hq => h.queued q (List.mem_of_mem_erase hq)⟩
      exact halike.inserted hins hins' hr.read hr'.read hentry hr.fresh hr.idle
    · have hsf' : sf ∉ s'.wq := h.wq ▸ hsf
      exact ⟨s, s', if_neg hsf, if_neg hsf', h⟩
  | @del network network' len hag =>
    have hlen : (len : ℕ) ≤ 32 := Nat.lt_succ_iff.mp len.isLt
    obtain ⟨res, hres, hpost⟩ := sfmcFibDel_spec h.inv network hlen
    obtain ⟨res', hres', hpost'⟩ := sfmcFibDel_spec h.inv' network' hlen
    refine ⟨res.2, res'.2, by simp only [Sfmc.fibStep, hres, bind, Except.bind]; rfl,
      by simp only [Sfmc.fibStep, hres', bind, Except.bind]; rfl, ?_⟩
    have hmask : maskBits network' len = maskBits network len :=
      maskBits_eq_iff.mpr ⟨rfl, hag.symm⟩
    rw [hmask, h.routes] at hpost'
    rcases hpost with ⟨hex, rfl⟩ | ⟨sf, f, hex, hsf, -, -, -, hdel⟩
    · rcases hpost' with ⟨-, rfl⟩ | ⟨sf', f', hex', -⟩
      · exact h
      · rw [hex] at hex'
        cases hex'
    · rcases hpost' with ⟨hex', -⟩ | ⟨sf', f', hex', -, -, -, -, hdel'⟩
      · rw [hex] at hex'
        cases hex'
      · obtain rfl : sf = sf' := by simpa [hex] using hex'
        exact h.deleted hsf hdel hdel'
  | delete sf =>
    by_cases hsf : sf ∈ s.fibList
    · have hsf' : sf ∈ s'.fibList := h.list ▸ hsf
      obtain ⟨t, ht, hdel⟩ := sfmcFibDelete_spec h.inv hsf
      obtain ⟨t', ht', hdel'⟩ := sfmcFibDelete_spec h.inv' hsf'
      exact ⟨t, t', by rw [Sfmc.fibStep, if_pos hsf, ht], by rw [Sfmc.fibStep, if_pos hsf', ht'],
        h.deleted hsf hdel hdel'⟩
    · have hsf' : sf ∉ s'.fibList := h.list ▸ hsf
      exact ⟨s, s', if_neg hsf, if_neg hsf', h⟩

theorem Alike.fibRun {ops ops' : List FibOp} (hops : List.Forall₂ FibOp.SameMask ops ops') :
    ∀ {s s' : Sfmc}, s.Alike s' →
      ∃ t t', s.fibRun ops = .ok t ∧ s'.fibRun ops' = .ok t' ∧ t.Alike t' := by
  induction hops with
  | nil => exact fun h => ⟨_, _, rfl, rfl, h⟩
  | cons hop _ ih =>
    intro s s' h
    obtain ⟨t, t', ht, ht', halike⟩ := h.fibStep hop
    obtain ⟨u, u', hu, hu', halike'⟩ := ih halike
    exact ⟨u, u', (runSteps_cons ht).trans hu, (runSteps_cons ht').trans hu', halike'⟩

/-- `res` is the listed route that covers `d` with the greatest length, or null when
no listed route covers it. -/
def IsLongestMatch (s : Sfmc) (d : U32) : Option Ref → Prop
  | none => ∀ sf ∈ s.fibList, ∃ f, s.fibs.cells sf = some f ∧ ¬ f.Covers d
  | some sf => sf ∈ s.fibList ∧ ∃ f, s.fibs.cells sf = some f ∧ f.Covers d ∧
      ∀ sf' ∈ s.fibList, ∃ f', s.fibs.cells sf' = some f' ∧
        (f'.Covers d → sf' = sf ∨ f'.len < f.len)

/-- `res` is the listed route with that length and the same first bits, or null when
there is none. -/
def IsExactMatch (s : Sfmc) (network : U32) (len : ℕ) : Option Ref → Prop
  | none => ∀ sf ∈ s.fibList, ∃ f, s.fibs.cells sf = some f ∧ ¬ (f.len = len ∧ f.Covers network)
  | some sf => sf ∈ s.fibList ∧ ∃ f, s.fibs.cells sf = some f ∧ f.len = len ∧ f.Covers network

theorem FibInv.begins_iff (inv : s.FibInv) (hsf : sf ∈ s.fibList) (hf : s.fibs.cells sf = some f) :
    (f.entry sf).pfx <+: maskBits d 32 ↔ f.Covers d := by
  rw [SfmcFib.entry, maskBits_begins_iff]
  exact and_iff_right (inv.len_le hsf hf)

theorem FibInv.isLongestMatch (inv : s.FibInv) (d : U32) :
    s.IsLongestMatch d (s.routes.best (maskBits d 32)) := by
  cases h : s.routes.best (maskBits d 32) with
  | none =>
    intro sf hsf
    obtain ⟨f, -, hf, -⟩ := inv.listed hsf
    have hmem : f.entry sf ∈ s.routes := mem_routes.mpr ⟨hsf, f, hf, rfl⟩
    exact ⟨f, hf, fun hc => Table.best_eq_none.mp h _ hmem ((inv.begins_iff hsf hf).mpr hc)⟩
  | some sf =>
    obtain ⟨e, he, rfl, hcov, hmax⟩ := (Table.best_eq_some inv.distinct).mp h
    obtain ⟨hsf, f, hf, hp⟩ := mem_routes.mp he
    have hcov' : f.Covers d := (inv.begins_iff hsf hf).mp (by rwa [hp] at hcov)
    refine ⟨hsf, f, hf, hcov', fun sf' hsf' => ?_⟩
    obtain ⟨f', -, hf', -⟩ := inv.listed hsf'
    refine ⟨f', hf', fun hc => ?_⟩
    have hle := hmax (f'.entry sf') (mem_routes.mpr ⟨hsf', f', hf', rfl⟩)
      ((inv.begins_iff hsf' hf').mpr hc)
    rw [hp, SfmcFib.entry, maskBits_length, maskBits_length] at hle
    rcases hle.lt_or_eq with hlt | heq
    · exact .inr hlt
    · have hag : Agree f'.len (addrKey f'.network) (addrKey f.network) :=
        Agree.trans hc (heq ▸ Agree.symm hcov')
      exact .inl (inv.unique hsf' hsf hf' hf heq hag)

theorem FibInv.isExactMatch (inv : s.FibInv) (network : U32) (len : ℕ) :
    s.IsExactMatch network len (s.routes.exact (maskBits network len)) := by
  have hiff : ∀ f : SfmcFib, maskBits f.network f.len = maskBits network len ↔
      f.len = len ∧ f.Covers network := fun f => maskBits_eq_iff
  cases h : s.routes.exact (maskBits network len) with
  | none =>
    intro sf hsf
    obtain ⟨f, -, hf, -⟩ := inv.listed hsf
    have hmem : f.entry sf ∈ s.routes := mem_routes.mpr ⟨hsf, f, hf, rfl⟩
    exact ⟨f, hf, fun hc => Table.exact_eq_none.mp h _ hmem ((hiff f).mpr hc)⟩
  | some sf =>
    obtain ⟨e, he, rfl, hpfx⟩ := (Table.exact_eq_some inv.distinct).mp h
    obtain ⟨hsf, f, hf, hp⟩ := mem_routes.mp he
    exact ⟨hsf, f, hf, (hiff f).mp (hp ▸ hpfx)⟩

/-- After any run of FIB operations on a fresh device the lookups answer as a scan of
the list does, and host bits of the prefixes never matter. -/
theorem fib_longest_prefix_match (permAddr : Mac) (ops : List FibOp) :
    ∃ s, (sfmcInit permAddr (freshZone fun _ => true)).fibRun ops = .ok s ∧
      (∀ d, ∃ res, s.sfmcFibFindBest d 32 = .ok res ∧ s.IsLongestMatch d res) ∧
      (∀ network (len : Fin 33), ∃ res, s.sfmcFibFindExact network len = .ok res ∧
        s.IsExactMatch network len res) ∧
      ∀ ops', List.Forall₂ FibOp.SameMask ops ops' →
        ∃ s', (sfmcInit permAddr (freshZone fun _ => true)).fibRun ops' = .ok s' ∧
          (∀ d, s'.sfmcFibFindBest d 32 = s.sfmcFibFindBest d 32) ∧
          ∀ network network' (len : Fin 33), Agree len (addrKey network) (addrKey network') →
            s'.sfmcFibFindExact network' len = s.sfmcFibFindExact network len := by
  have hstart : (sfmcInit permAddr (freshZone fun _ => true)).Alike
      (sfmcInit permAddr (freshZone fun _ => true)) :=
    Alike.refl (fibInv_init _ _) fun _ => rfl
  have hsame : List.Forall₂ FibOp.SameMask ops ops := List.forall₂_same.mpr fun op _ => .refl op
  obtain ⟨s, s₀, hs, -, halike⟩ := Alike.fibRun hsame hstart
  have hlen : ∀ len : Fin 33, (len : ℕ) ≤ 32 := fun len => Nat.lt_succ_iff.mp len.isLt
  refine ⟨s, hs, fun d => ?_, fun network len => ?_, fun ops' hops => ?_⟩
  · exact ⟨_, sfmcFibFindBest_eq halike.inv d (le_refl 32), halike.inv.isLongestMatch d⟩
  · exact ⟨_, sfmcFibFindExact_eq halike.inv network (hlen len), halike.inv.isExactMatch network len⟩
  · obtain ⟨t, s', ht, hs', h⟩ := Alike.fibRun hops hstart
    obtain rfl : s = t := by
      rw [hs] at ht
      exact Except.ok.inj ht
    refine ⟨s', hs', fun d => ?_, fun network network' len hag => ?_⟩
    · rw [sfmcFibFindBest_eq h.inv d (le_refl 32), sfmcFibFindBest_eq h.inv' d (le_refl 32),
        h.routes]
    · have hmask : maskBits network' len = maskBits network len :=
        maskBits_eq_iff.mpr ⟨rfl, hag.symm⟩
      rw [sfmcFibFindExact_eq h.inv network (hlen len),
        sfmcFibFindExact_eq h.inv' network' (hlen len), h.routes, hmask]

end Sfmc

end Madcap
