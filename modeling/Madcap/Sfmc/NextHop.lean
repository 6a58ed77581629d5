import Madcap.Sfmc.Emission
import Madcap.Sfmc.RouteCache

/-!
# The copied neighbour of a route

A route copies the hardware address and the state of its gateway's neighbour when
it is resolved and whenever that neighbour changes. A copy that claims to be valid
is therefore the neighbour table's current entry.
-/

namespace Madcap

/-- Every listed route that looks valid has the hardware address its gateway has now. -/
def NeighCurrent (w : World) : Prop :=
  ∀ sf ∈ w.sfmc.fibList, ∀ f, w.sfmc.fibs.cells sf = some f → nudValid f.nudState = true →
    ∃ n, w.arp f.gateway = some n ∧ nudValid n.nudState = true ∧ n.ha = f.mac

theorem nudValid_zero : nudValid 0 = false := by decide

variable {env : Env} {w w' : World} {sf : Ref} {f : SfmcFib}

theorem NeighCurrent.of_cells (h : NeighCurrent w) {s : Sfmc}
    (hold : ∀ q ∈ s.fibList, ∀ g, s.fibs.cells q = some g → nudValid g.nudState = true →
      q ∈ w.sfmc.fibList ∧ w.sfmc.fibs.cells q = some g) :
    NeighCurrent { w with sfmc := s } := by
  intro q hq g hg hv
  obtain ⟨hq', hg'⟩ := hold q hq g hg hv
  exact h q hq' g hg' hv

theorem NeighCurrent.of_arp (h : NeighCurrent w) {gateway : U32} {n : Neighbour}
    (hn : w.arp gateway = some n ∨ w.arp gateway = none) :
    NeighCurrent { w with arp := Function.update w.arp gateway (some n) } := by
  intro q hq g hg hv
  obtain ⟨m, hm, hvm, hha⟩ := h q hq g hg hv
  refine ⟨m, ?_, hvm, hha⟩
  by_cases hgw : g.gateway = gateway
  · rw [hgw] at hm ⊢
    rcases hn with hn | hn
    · simp [Function.update_self, ← hn, hm]
    · rw [hm] at hn
      cases hn
  · simp [Function.update_of_ne hgw, hm]

/-- Resolution copies the current neighbour or nothing. -/
theorem NeighCurrent.resolved (h : NeighCurrent w) (hf : w.sfmc.fibs.cells sf = some f)
    (hres : Resolved w sf f.gateway w') : NeighCurrent w' := by
  cases hres with
  | missing => exact h
  | pending n hn hv => exact h.of_arp hn
  | known n hn hv =>
    intro q hq g hg hvg
    by_cases hqs : q = sf
    · subst hqs
      have hcell : { f with mac := n.ha, nudState := n.nudState } = g := by
        simpa [Heap.modify_cells, hf] using hg
      subst hcell
      exact ⟨n, Function.update_self _ _ _, hv, rfl⟩
    · have hg' : w.sfmc.fibs.cells q = some g := by
        simpa [Heap.modify_cells, hqs] using hg
      exact h.of_arp hn q hq g hg' hvg

/-- A linked route has not copied anything yet. -/
theorem NeighCurrent.inserted {s₁ s₂ : Sfmc} {tmp : Option Ref} (h : NeighCurrent w)
    (hr : w.sfmc.Ready sf f s₁) (hins : s₁.Inserted sf f (tmp, s₂)) :
    NeighCurrent { w with sfmc := s₂ } := by
  apply h.of_cells
  intro q hq g hg hv
  obtain ⟨g', hg', -, -, -, -, hnud⟩ := hins.cells_self hr.read
  have hqs : q ≠ sf := by
    rintro rfl
    obtain rfl : g = g' := by simpa [hg] using hg'
    rw [hnud, hr.nud, nudValid_zero] at hv
    cases hv
  have hq' : q ∈ w.sfmc.fibList := by
    have hmem : q ∈ s₁.fibList := by
      rcases hins.outcome with ⟨-, -, -, hlist, -⟩ | ⟨-, -, hlist, -⟩
      · exact hlist ▸ hq
      · have hcons : q ∈ sf :: s₁.fibList := hlist ▸ hq
        exact (List.mem_cons.mp hcons).resolve_left hqs
    exact hr.list ▸ hmem
  refine ⟨hq', ?_⟩
  rw [← hr.same q hq', ← hins.cells_of_ne hqs]
  exact hg

theorem NeighCurrent.queued {s₁ s₂ : Sfmc} (h : NeighCurrent { w with sfmc := s₁ })
    (inv : s₁.FibInv) (hq : s₁.Queued s₂) : NeighCurrent { w with sfmc := s₂ } := by
  rcases hq with rfl | ⟨dst, rfl⟩
  · exact h
  · have hr := inv.ready_create dst (le_refl 32) dst RT_SCOPE_LINK
    apply h.of_cells
    intro q hq g hg _
    have hsame := hr.same q hq
    exact ⟨hq, hsame.symm.trans hg⟩

theorem NeighCurrent.refreshed (h : NeighCurrent w) {ip : U32} {n : Neighbour}
    {fibs : Heap SfmcFib} (hfibs : Sfmc.Refreshed ip n w.sfmc.fibList w.sfmc.fibs fibs) :
    NeighCurrent { sfmc := { w.sfmc with fibs := fibs }, arp := Function.update w.arp ip (some n) } := by
  intro q hq g hg hv
  have hcell := hfibs q
  rw [if_pos hq] at hcell
  obtain ⟨f, hf, rfl⟩ := Option.map_eq_some_iff.mp (hcell.symm.trans hg)
  by_cases hgw : f.gateway = ip
  · subst hgw
    simp only [SfmcFib.refresh, if_true] at hv ⊢
    exact ⟨n, Function.update_self _ _ _, hv, rfl⟩
  · simp only [SfmcFib.refresh, if_neg hgw] at hv ⊢
    rw [Function.update_of_ne hgw]
    exact h q hq f hf hv

theorem NeighCurrent.dropped (h : NeighCurrent w) (ip : U32) :
    NeighCurrent { w with arp := w.arp.drop ip } := by
  intro q hq g hg hv
  obtain ⟨n, hn, hvn, hha⟩ := h q hq g hg hv
  refine ⟨n, ?_, hvn, hha⟩
  unfold ArpTable.drop
  by_cases hgw : g.gateway = ip
  · subst hgw
    simp [hn, hvn]
  · cases hip : w.arp ip with
    | none => exact hn
    | some m =>
      simp only
      split_ifs
      · exact hn
      · rw [Function.update_of_ne hgw]
        exact hn

theorem Outcome.neighCurrent {e : Event} (h : Outcome env w e w') (inv : w.sfmc.Inv)
    (hw : NeighCurrent w) : NeighCurrent w' := by
  cases h with
  | config s h =>
    apply hw.of_cells
    intro q hq g hg _
    exact ⟨h.list ▸ hq, h.fibs ▸ hg⟩
  | link sf f s₁ s₂ tmp w' ready inserted links resolved =>
    obtain ⟨g, hg, hgw, -⟩ := inserted.cells_self ready.read
    exact (hw.inserted ready inserted).resolved hg (hgw ▸ resolved)
  | delete sf s hsf h =>
    apply hw.of_cells
    intro q hq g hg _
    have hq' : q ∈ w.sfmc.fibList.erase sf := h.list ▸ hq
    have hne : q ≠ sf := (inv.fib.nodup.mem_erase_iff.mp hq').1
    have hg' : (w.sfmc.fibs.free sf).cells q = some g := h.fibs ▸ hg
    exact ⟨List.mem_of_mem_erase hq', by simpa [Heap.free_cells, hne] using hg'⟩
  | encap s₁ s₂ hc hq =>
    have hcached : NeighCurrent { w with sfmc := s₁ } := by
      rcases hc with rfl | ⟨-, -, -, rfl⟩
      · exact hw
      · exact hw
    exact hcached.queued (hc.preserves inv).fib hq
  | neigh ip n fibs h => exact hw.refreshed h
  | drop ip => exact hw.dropped ip

/-- In every state a run reaches, listed routes that look valid have the current address of
their gateway, and an encapsulated frame goes to the current address of the gateway of the
route it used. -/
theorem next_hop_mac_current (env : Env) (permAddr : Mac) (grants : ℕ → Bool) (arp : ArpTable)
    (es : List Event) (w : World) (hrun : (World.init permAddr grants arp).run env es = .ok w) :
    (∀ sf ∈ w.sfmc.fibList, ∃ f, w.sfmc.fibs.cells sf = some f ∧ (nudValid f.nudState = true →
      ∃ n, w.arp f.gateway = some n ∧ f.mac = n.ha)) ∧
    ∀ skb skb' s, env.madcapEnable = true → w.sfmc.acquired skb = true →
      w.sfmc.sfmcEncapPacket env skb = .ok (0, skb', s) →
        ∃ st sf f n, w.sfmc.Uses env skb st sf ∧ sf ∈ w.sfmc.fibList ∧
          w.sfmc.fibs.cells sf = some f ∧ w.arp f.gateway = some n ∧
          skb' = w.sfmc.pushHeaders skb st.oe.dst n.ha ∧ skb'.data.take 6 = bytesOf 6 n.ha := by
  have hcurrent : Ensures (World.init permAddr grants arp).sfmc.fibTree.Refuses
      ((World.init permAddr grants arp).run env es) fun w => w.sfmc.Inv ∧ NeighCurrent w := by
    refine World.run_rule (C := fun _ _ => True) (fun _ h => h.1) (fun v e v' hv _ hout => ?_)
      ⟨World.inv_init permAddr grants arp, ?_⟩ (along_trivial _ es)
    · exact ⟨hout.preserves hv.1, hout.neighCurrent hv.1 hv.2⟩
    · intro sf hsf
      cases hsf
  obtain ⟨inv, hw⟩ := hcurrent.of_eq_ok hrun
  constructor
  · intro sf hsf
    obtain ⟨f, -, hf, -⟩ := inv.fib.listed hsf
    refine ⟨f, hf, fun hv => ?_⟩
    obtain ⟨n, hn, -, hha⟩ := hw sf hsf f hf hv
    exact ⟨n, hn, hha.symm⟩
  · intro skb skb' s hon hacq henc
    obtain ⟨st, sf, f, huse, hf, hc, hskb⟩ := Sfmc.sfmcEncapPacket_emits ⟨hon, hacq⟩ henc
    have hsf := huse.listed inv
    obtain ⟨n, hn, -, hha⟩ := hw sf hsf f hf hc.2
    refine ⟨st, sf, f, n, huse, hsf, hf, hn, hha ▸ hskb, ?_⟩
    rw [hskb, hha]
    exact w.sfmc.pushHeaders_dest skb st.oe.dst f.mac

/-- The gateway 10.0.0.1 becomes reachable after the route through it was installed. -/
theorem next_hop_mac_current_resolved : ∃ w f n,
    (World.init 0 (fun _ => true) fun _ => none).run oneBucket
      [.portObjAdd .commit
        (.ipv4Fib { dst := 0x0A000100, dstLen := 24, gateway := 0x0100000A, scope := 0 }) none,
       .neighChange 0x0100000A { ha := 0x665544332202, nudState := NUD_REACHABLE }] = .ok w ∧
    w.sfmc.fibs.cells 0 = some f ∧ nudValid f.nudState = true ∧ w.arp f.gateway = some n ∧
    f.mac = n.ha := by
  have hcurrent := (next_hop_mac_current oneBucket 0 (fun _ => true) (fun _ => none)
    [.portObjAdd .commit
      (.ipv4Fib { dst := 0x0A000100, dstLen := 24, gateway := 0x0100000A, scope := 0 }) none,
     .neighChange 0x0100000A { ha := 0x665544332202, nudState := NUD_REACHABLE }] _ rfl).1
  obtain ⟨f, hf, hmac⟩ := hcurrent 0 (by decide)
  have hv : nudValid f.nudState = true := by
    obtain rfl := Option.some.inj hf
    rfl
  obtain ⟨n, hn, hha⟩ := hmac hv
  exact ⟨_, f, n, rfl, hf, hv, hn, hha⟩

end Madcap
