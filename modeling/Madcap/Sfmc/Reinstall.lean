import Madcap.Sfmc.Invariant

/-!
# Installing a route that is already there

`sfmc_fib_insert` returns the route a prefix already has, which its callers take
for success. A committed route therefore takes effect exactly when its prefix was
not installed before.
-/

namespace Madcap

open LongestPrefix

namespace Sfmc

variable {s s' : Sfmc} {sf : Ref} {f : SfmcFib} {network : U32} {len : ℕ}

/-- A listed route has the masked prefix. -/
def Installed (s : Sfmc) (network : U32) (len : ℕ) : Prop :=
  ∃ sf ∈ s.fibList, ∃ f, s.fibs.cells sf = some f ∧ f.len = len ∧ f.Covers network

theorem installed_iff : s.Installed network len ↔ s.routes.exact (maskBits network len) ≠ none := by
  constructor
  · rintro ⟨sf, hsf, f, hf, hlen, hcov⟩ hnone
    have hmem : f.entry sf ∈ s.routes := mem_routes.mpr ⟨hsf, f, hf, rfl⟩
    exact Table.exact_eq_none.mp hnone _ hmem (maskBits_eq_iff.mpr ⟨hlen, hcov⟩)
  · intro h
    by_contra hno
    apply h
    rw [Table.exact_eq_none]
    intro e he hpfx
    obtain ⟨hsf, f, hf, hp⟩ := mem_routes.mp he
    rw [hp, maskBits_eq_iff] at hpfx
    exact hno ⟨e.ref, hsf, f, hf, hpfx⟩

/-- A created route is found after its insertion unless its prefix was installed. -/
theorem exact_inserted {s₁ s₂ : Sfmc} {tmp : Option Ref} (hr : s.Ready sf f s₁)
    (hins : s₁.Inserted sf f (tmp, s₂)) :
    s₂.routes.exact (maskBits f.network f.len) = some sf ↔
      ¬ s.Installed f.network f.len := by
  rw [installed_iff, not_not, ← hr.routes]
  constructor
  · intro h
    rcases hins.outcome with ⟨sf₀, -, hex, hlist, hfibs⟩ | ⟨-, hex, -⟩
    · obtain ⟨e, he, rfl, -⟩ := (Table.exact_eq_some hins.inv.distinct).mp h
      have hmem := (mem_routes.mp he).1
      rw [hlist, hr.list] at hmem
      exact absurd hmem hr.fresh
    · exact hex
  · intro hnone
    rw [Table.exact_eq_some hins.inv.distinct, hins.routes hr.read (hr.list ▸ hr.fresh)]
    exact ⟨f.entry sf, Table.mem_insert.mpr (.inr ⟨rfl, hnone⟩), rfl, rfl⟩

end Sfmc

/-- A committed route took effect: the route that was created and whose gateway was resolved
is the one found for the prefix, with the gateway and scope that were asked for. -/
def TakesEffect (w w' : World) (fib : SwitchdevIpv4Fib) (created : Option Neighbour) : Prop :=
  ∃ sf s f, w.sfmc.sfmcFibAdd (htonl fib.dst) fib.dstLen fib.gateway fib.scope = .ok (some sf, s) ∧
    { w with sfmc := s }.sfmcNeighResolve sf created = .ok w' ∧
    w'.sfmc.sfmcFibFindExact (htonl fib.dst) fib.dstLen = .ok (some sf) ∧
    w'.sfmc.fibs.cells sf = some f ∧ f.gateway = fib.gateway ∧ f.scope = fib.scope

namespace World

variable {w w' : World} {fib : SwitchdevIpv4Fib} {created : Option Neighbour}

theorem sfmcPortObjAdd_eq_zero (hskip : ¬ (fib.gateway = 0 ∧ fib.scope ≠ RT_SCOPE_LINK))
    (hadd : w.sfmcPortObjAdd .commit (.ipv4Fib fib) created = .ok (0, w')) :
    ∃ sf s, w.sfmc.sfmcFibAdd (htonl fib.dst) fib.dstLen fib.gateway fib.scope = .ok (some sf, s) ∧
      { w with sfmc := s }.sfmcNeighResolve sf created = .ok w' := by
  change w.addRoute fib created = .ok (0, w') at hadd
  unfold addRoute at hadd
  rw [if_neg (by simpa using hskip)] at hadd
  obtain ⟨⟨res, s⟩, hfib, hrest⟩ := bind_eq_ok.mp hadd
  cases res with
  | none =>
    have herr : -ENOMEM = 0 := (ok_pair_inj hrest).1
    exact absurd herr (by decide)
  | some sf =>
    obtain ⟨v, hres, hv⟩ := bind_eq_ok.mp hrest
    obtain rfl : v = w' := (ok_pair_inj hv).2
    exact ⟨sf, s, hfib, hres⟩

theorem takesEffect_iff (inv : w.sfmc.FibInv)
    (hskip : ¬ (fib.gateway = 0 ∧ fib.scope ≠ RT_SCOPE_LINK))
    (hadd : w.sfmcPortObjAdd .commit (.ipv4Fib fib) created = .ok (0, w')) :
    TakesEffect w w' fib created ↔ ¬ w.sfmc.Installed (htonl fib.dst) fib.dstLen := by
  have hlen : (fib.dstLen : ℕ) ≤ 32 := Nat.lt_succ_iff.mp fib.dstLen.isLt
  obtain ⟨sf, s, hfib, hres⟩ := sfmcPortObjAdd_eq_zero hskip hadd
  have hpost := (Sfmc.sfmcFibAdd_spec inv (htonl fib.dst) hlen fib.gateway fib.scope).of_eq_ok hfib
  rcases hpost with ⟨hnone, -⟩ | ⟨hsf, tmp, hins⟩
  · cases hnone
  obtain rfl : sf = w.sfmc.fibs.next := Option.some.inj hsf
  have hready := inv.ready_create (htonl fib.dst) hlen fib.gateway fib.scope
  obtain ⟨g, hg, hgw, hscope, -⟩ := hins.cells_self hready.read
  obtain ⟨v, hv, hresolved⟩ := sfmcNeighResolve_spec (w := { w with sfmc := s }) hg created
  obtain rfl : v = w' := Except.ok.inj (hv.symm.trans hres)
  have hnw : w.sfmc.fibs.next ∉ s.wq := by
    rw [hins.wq]
    exact hready.idle
  obtain ⟨fibs, heq⟩ := hresolved.kept.sfmc
  have hneigh := hresolved.kept.neigh hnw
  rw [heq] at hneigh
  have hfind : v.sfmc.sfmcFibFindExact (htonl fib.dst) fib.dstLen =
      .ok (s.routes.exact (maskBits (htonl fib.dst) fib.dstLen)) := by
    rw [heq, Sfmc.sfmcFibFindExact_eq (hins.inv.of_neighOnly hneigh) _ hlen,
      hins.inv.routes_neighOnly hneigh]
  have hexact := Sfmc.exact_inserted hready hins
  constructor
  · rintro ⟨sf', s', f, hfib', -, hfound, -⟩
    rw [hfib] at hfib'
    obtain ⟨rfl, rfl⟩ : w.sfmc.fibs.next = sf' ∧ s = s' := by simpa using hfib'
    rw [hfind] at hfound
    exact hexact.mp (Except.ok.inj hfound)
  · intro hnot
    obtain ⟨mac, nud, hf, -⟩ := hneigh hg
    refine ⟨_, s, { g with mac := mac, nudState := nud }, hfib, hres, ?_, ?_, hgw, hscope⟩
    · rw [hfind]
      exact congrArg Except.ok (hexact.mpr hnot)
    · rw [heq]
      exact hf

/-- In every reachable state an accepted commit that is not skipped takes effect exactly when
no route with its masked prefix is listed before. -/
theorem commit_takes_effect_iff (env : Env) (permAddr : Mac) (grants : ℕ → Bool) (arp : ArpTable)
    (es : List Event) (w w' : World) (fib : SwitchdevIpv4Fib) (created : Option Neighbour)
    (hrun : (init permAddr grants arp).run env es = .ok w)
    (hskip : ¬ (fib.gateway = 0 ∧ fib.scope ≠ RT_SCOPE_LINK))
    (hadd : w.sfmcPortObjAdd .commit (.ipv4Fib fib) created = .ok (0, w')) :
    TakesEffect w w' fib created ↔ ¬ w.sfmc.Installed (htonl fib.dst) fib.dstLen := by
  have inv := (run_inv env (inv_init permAddr grants arp) es).of_eq_ok hrun
  exact takesEffect_iff inv.fib hskip hadd

/-- 10.0.0.0/24 through a gateway, in the scope of routed destinations. -/
def routeVia (gateway : U32) : SwitchdevIpv4Fib where
  dst := 0x0A000000
  dstLen := 24
  gateway := gateway
  scope := 0

/-- A route replaced by a second add keeps its old gateway. -/
theorem replaced_route_keeps_gateway : ¬ ∀ (env : Env) (permAddr : Mac) (grants : ℕ → Bool)
    (arp : ArpTable) (es : List Event) (w w' : World) (fib : SwitchdevIpv4Fib)
    (created : Option Neighbour), (init permAddr grants arp).run env es = .ok w →
    ¬ (fib.gateway = 0 ∧ fib.scope ≠ RT_SCOPE_LINK) →
    w.sfmcPortObjAdd .commit (.ipv4Fib fib) created = .ok (0, w') →
    TakesEffect w w' fib created := by
  intro h
  obtain ⟨sf, s, f, hfib, -, hfound, -⟩ :=
    h { madcapEnable := true, hash64 := fun _ => 0 } 0 (fun _ => true) (fun _ => none)
      [.portObjAdd .commit (.ipv4Fib (routeVia 0x01010101)) none] _ _ (routeVia 0x02020202) none
      rfl (by decide) rfl
  have hnew : some sf = some 1 := (ok_pair_inj hfib).1.symm
  have hold : some sf = some 0 := (Except.ok.inj hfound).symm
  exact absurd (hnew.symm.trans hold) (by decide)

/-- 10.0.0.0/16, which covers it. -/
def coveringRoute : SwitchdevIpv4Fib :=
  { routeVia 0x02020202 with dstLen := 16 }

/-- 10.0.1.0/24, beside it. -/
def adjacentRoute : SwitchdevIpv4Fib :=
  { routeVia 0x03030303 with dst := 0x0A000100 }

/-- The next of two that are there and one that covers it. -/
theorem commit_takes_effect_iff_first : ∃ w w',
    (init 0 (fun _ => true) fun _ => none).run { madcapEnable := true, hash64 := fun _ => 0 }
      [.portObjAdd .commit (.ipv4Fib (routeVia 0x01010101)) none,
        .portObjAdd .commit (.ipv4Fib coveringRoute) none] = .ok w ∧
    w.sfmc.fibList = [1, 0] ∧ TakesEffect w w' adjacentRoute none := by
  refine ⟨_, _, rfl, rfl, (commit_takes_effect_iff { madcapEnable := true, hash64 := fun _ => 0 } 0
    (fun _ => true) (fun _ => none) [.portObjAdd .commit (.ipv4Fib (routeVia 0x01010101)) none,
      .portObjAdd .commit (.ipv4Fib coveringRoute) none] _ _ adjacentRoute none rfl (by decide) rfl).mpr ?_⟩
  rintro ⟨sf, hsf, f, hf, hlen, hcovers⟩
  rcases List.mem_cons.mp hsf with rfl | hsf
  · obtain rfl := Option.some.inj hf
    exact absurd hlen (by decide)
  · obtain rfl := List.mem_singleton.mp hsf
    obtain rfl := Option.some.inj hf
    exact absurd (hcovers 23 (by decide)) (by decide)

end World

end Madcap
