import Madcap.Sfmc.Invariant

/-!
# The route cache of the ixgbe data path

A cached route is dropped when its route is deleted and never when a better one
is installed. The cache therefore agrees with the lookup along the runs in which
no new route is a longer match for an entry that has a cached route.
-/

namespace Madcap

open LongestPrefix

/-- The event links no new route that matches the destination of an entry better than the
route its cache holds. -/
def KeepsBest (w : World) (e : Event) : Prop :=
  ∀ p, e.links w = some p → w.sfmc.routes.exact p = none →
    ∀ n, ∀ st ∈ w.sfmc.sfmcTable n, ∀ sf f, st.fib = some sf → w.sfmc.fibs.cells sf = some f →
      p <+: maskBits st.oe.dst 32 → p.length ≤ f.len

namespace Sfmc

variable {s s' : Sfmc} {sf : Ref} {f : SfmcFib}

/-- The cached routes are the ones a lookup finds. -/
def CacheFresh (s : Sfmc) : Prop :=
  ∀ n, ∀ st ∈ s.sfmcTable n, ∀ sf, st.fib = some sf →
    s.routes.best (maskBits st.oe.dst 32) = some sf

theorem CacheFresh.of_routes (h : s.CacheFresh) (hroutes : s'.routes = s.routes)
    (htable : ∀ {n st}, st ∈ s'.sfmcTable n → st ∈ s.sfmcTable n ∨ st.fib = none) :
    s'.CacheFresh := by
  intro n st hst sf hfib
  rw [hroutes]
  rcases htable hst with hst | hnone
  · exact h n st hst sf hfib
  · rw [hnone] at hfib
    cases hfib

theorem CacheFresh.cached {env : Env} (h : s.CacheFresh) (hc : Cached env s s') :
    s'.CacheFresh := by
  rcases hc with rfl | ⟨st, hfind, -, rfl⟩
  · exact h
  · intro n st' hst' sf hfib
    rcases mem_sfmcTableCache hfind hst' with hst' | rfl
    · exact h n st' hst' sf hfib
    · exact hfib

theorem CacheFresh.queued (h : s.CacheFresh) (inv : s.FibInv) (hq : s.Queued s') :
    s'.CacheFresh := by
  rcases hq with rfl | ⟨dst, rfl⟩
  · exact h
  · have hr := inv.ready_create dst (le_refl 32) dst RT_SCOPE_LINK
    exact h.of_routes (routes_congr hr.list hr.same) .inl

theorem CacheFresh.deleted (h : s.CacheFresh) (inv : s.FibInv) (hsf : sf ∈ s.fibList)
    (hdel : s.Deleted sf s') : s'.CacheFresh := by
  obtain ⟨f, -, hf, -⟩ := inv.listed hsf
  intro n st hst sf' hfib
  rw [hdel.table] at hst
  rcases mem_forgetFib hst with hnone | ⟨hst, hne⟩
  · rw [hnone] at hfib
    cases hfib
  · rw [hdel.routes inv hsf hf]
    apply Table.best_erase inv.distinct (h n st hst sf' hfib)
    rintro e he rfl hpfx
    have hmem : f.entry sf ∈ s.routes := mem_routes.mpr ⟨hsf, f, hf, rfl⟩
    have heq := inv.distinct.eq he hmem hpfx
    rw [heq] at hfib
    exact hne hfib

/-- An insertion keeps the cached routes best unless it is a better match for one. -/
theorem CacheFresh.inserted {s₁ s₂ : Sfmc} {tmp : Option Ref} (h : s.CacheFresh) (inv : s.FibInv)
    (hr : s.Ready sf f s₁) (hins : s₁.Inserted sf f (tmp, s₂))
    (hkeep : s.routes.exact (maskBits f.network f.len) = none →
      ∀ n, ∀ st ∈ s.sfmcTable n, ∀ q g, st.fib = some q → s.fibs.cells q = some g →
        maskBits f.network f.len <+: maskBits st.oe.dst 32 →
          (maskBits f.network f.len).length ≤ g.len) : s₂.CacheFresh := by
  intro n st hst q hfib
  rw [hins.table, hr.table] at hst
  rw [hins.routes hr.read (hr.list ▸ hr.fresh), hr.routes]
  apply Table.best_insert inv.distinct (h n st hst q hfib)
  rintro e' he' rfl hnone hcov
  obtain ⟨-, g, hg, hpfx⟩ := mem_routes.mp he'
  rw [hpfx, maskBits_length]
  exact hkeep hnone n st hst e'.ref g hfib hg hcov

end Sfmc

theorem Resolved.cacheFresh {w w' : World} {sf : Ref} {gateway : U32}
    (h : Resolved w sf gateway w') (inv : w.sfmc.FibInv) (hnw : sf ∉ w.sfmc.wq)
    (hw : w.sfmc.CacheFresh) : w'.sfmc.CacheFresh := by
  obtain ⟨fibs, heq⟩ := h.kept.sfmc
  have hneigh := h.kept.neigh hnw
  rw [heq] at hneigh ⊢
  exact hw.of_routes (inv.routes_neighOnly hneigh) .inl

theorem Outcome.cacheFresh {env : Env} {w w' : World} {e : Event} (h : Outcome env w e w')
    (inv : w.sfmc.Inv) (hw : w.sfmc.CacheFresh) (hkeep : KeepsBest w e) :
    w'.sfmc.CacheFresh := by
  cases h with
  | config s h =>
    refine hw.of_routes (Sfmc.routes_congr h.list fun sf _ => ?_) h.table
    rw [h.fibs]
  | link sf f s₁ s₂ tmp w' ready inserted links resolved =>
    have hnw : sf ∉ s₂.wq := by
      rw [inserted.wq]
      exact ready.idle
    exact resolved.cacheFresh inserted.inv hnw
      (hw.inserted inv.fib ready inserted (hkeep _ links))
  | delete sf s hsf h => exact hw.deleted inv.fib hsf h
  | encap s₁ s₂ hc hq => exact (hw.cached hc).queued (hc.preserves inv).fib hq
  | neigh ip n fibs h =>
    exact hw.of_routes (inv.fib.routes_neighOnly (inv.fib.neighOnly_refreshed h)) .inl
  | drop ip => exact hw

/-- Along every run in which no step links a better match for a cached entry, the data path
uses the route that a lookup finds. -/
theorem cached_route_is_best (env : Env) (permAddr : Mac) (grants : ℕ → Bool) (arp : ArpTable)
    (es : List Event) (w : World)
    (hkeep : Along (World.step env) KeepsBest (World.init permAddr grants arp) es)
    (hrun : (World.init permAddr grants arp).run env es = .ok w) :
    ∀ skb st sf, w.sfmc.Uses env skb st sf → w.sfmc.sfmcFibFindBest st.oe.dst 32 = .ok (some sf) := by
  have hfresh : Ensures (World.init permAddr grants arp).sfmc.fibTree.Refuses
      ((World.init permAddr grants arp).run env es) fun w => w.sfmc.Inv ∧ w.sfmc.CacheFresh := by
    refine World.run_rule (fun _ h => h.1) (fun v e v' hv hC hout => ?_)
      ⟨World.inv_init permAddr grants arp, ?_⟩ hkeep
    · exact ⟨hout.preserves hv.1, hout.cacheFresh hv.1 hv.2 hC⟩
    · intro n st hst
      simp [World.init, sfmcInit] at hst
  obtain ⟨inv, hbest⟩ := hfresh.of_eq_ok hrun
  intro skb st sf huse
  rcases huse.route with hfib | ⟨-, hfind⟩
  · rw [Sfmc.sfmcFibFindBest_eq inv.fib _ (le_refl 32), hbest _ st huse.mem.2 sf hfib]
  · exact hfind

/-- A driver with madcap enabled and a hash that has one bucket. -/
def oneBucket : Env where
  madcapEnable := true
  hash64 := fun _ => Fin.last 255

def blankPacket : SkBuff where
  data := List.replicate 60 0
  tail := fun _ => 0
  fragLen := 0
  headroom := 64
  dst := some 0

def connectedEntry : ObjEntry where
  obj := { id := MADCAP_OBJ_ID_LLT_ENTRY, tbId := 0 }
  id := 0
  dst := 0x0201000A

def connectedRoute (dst : U32) (dstLen : Fin 33) : Event :=
  .portObjAdd .commit
    (.ipv4Fib { dst := dst, dstLen := dstLen, gateway := 0, scope := RT_SCOPE_LINK }) none

/-- 10.0.1.0/24 is connected and the first packet to 10.0.1.2 fills the cache. -/
def connectedRun : List Event :=
  [connectedRoute 0x0A000100 ⟨24, by decide⟩, .acquireDev 0, .lltEntryAdd connectedEntry,
    .encapPacket blankPacket]

/-- The packet queued a host route. Once the work item links it, the cache is stale. -/
theorem cached_route_goes_stale : ¬ ∀ (env : Env) (permAddr : Mac) (grants : ℕ → Bool)
    (arp : ArpTable) (es : List Event) (w : World),
    (World.init permAddr grants arp).run env es = .ok w → ∀ skb st sf,
      w.sfmc.Uses env skb st sf → w.sfmc.sfmcFibFindBest st.oe.dst 32 = .ok (some sf) := by
  intro h
  have hbest := h oneBucket 0 (fun _ => true) (fun _ => none)
    (connectedRun ++ [.llNeighWork 1 none]) _ rfl blankPacket
    { oe := connectedEntry, fib := some 0 } 0 ⟨rfl, by decide, by rfl, .inl rfl⟩
  exact absurd (hbest.symm.trans (by rfl : _ = .ok (some 1))) (by decide)

/-- A less specific route that comes later leaves the cached route best. -/
theorem cached_route_is_best_connected : ∃ w,
    (World.init 0 (fun _ => true) fun _ => none).run oneBucket
      (connectedRun ++ [connectedRoute 0 0]) = .ok w ∧
    w.sfmc.sfmcFibFindBest connectedEntry.dst 32 = .ok (some 0) := by
  refine ⟨_, rfl, ?_⟩
  refine cached_route_is_best oneBucket 0 (fun _ => true) (fun _ => none)
    (connectedRun ++ [connectedRoute 0 0]) _ ?_ rfl blankPacket
    { oe := connectedEntry, fib := some 0 } 0 ⟨rfl, by decide, by rfl, .inl rfl⟩
  have hidle : ∀ w e, e.links w = none → KeepsBest w e := by
    intro w e he p hp
    rw [he] at hp
    cases hp
  refine along_cons ?_ rfl (along_cons (hidle _ _ rfl) rfl (along_cons (hidle _ _ rfl) rfl
    (along_cons (hidle _ _ rfl) rfl (along_cons ?_ rfl trivial))))
  · intro p hp _ n st hst
    cases hst
  · intro p hp _ n st _ sf f _ _ _
    obtain rfl : [] = p := Option.some.inj hp
    exact Nat.zero_le _

end Madcap
