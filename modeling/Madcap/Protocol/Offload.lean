import Madcap.Protocol.Acquisition

/-!
# Where tunnels hand their packets

A tunnel decides for each packet whether a madcap device encapsulates it: a vxlan device
by a pointer it has kept, the others by their link. A software device only encapsulates
for the devices in its slots.
-/

namespace Madcap

namespace TunnelNet

/-- The device that `vxlan_xmit`, `__gre_xmit` or `ipip_tunnel_xmit` hands a packet to with
`madcap_queue_xmit`. -/
def offloadDev (w : TunnelNet) (env : TunnelEnv) (t : Tunnel) : Option NetDev :=
  match t.kind with
  | .vxlan => if env.vxlanEnable then t.mcdev else none
  | .gre | .gretap =>
    if env.greEnable then (env.devGetByIndex t.link).filter w.capable else none
  | .ipip => if env.ipipEnable then (env.devGetByIndex t.link).filter w.capable else none

def allEnabled (devGetByIndex : ℕ → Option NetDev) (ipv6 : Bool) : TunnelEnv where
  devGetByIndex := devGetByIndex
  ipv6 := ipv6
  vxlanEnable := true
  greEnable := true
  ipipEnable := true

def IsSfmc (w : TunnelNet) (p : NetDev) : Prop := ∃ s, w.lower p = some (.sfmc s)

/-- A software device that the tunnel offloads to has a slot for it. -/
def Holds (w : TunnelNet) (env : TunnelEnv) (dev : NetDev) (t : Tunnel) : Prop :=
  ∀ p, w.offloadDev env t = some p → w.IsSfmc p → ∃ n, w.vdev p n = some dev

/-- That is so for every tunnel. -/
def OffloadsHeld (w : TunnelNet) (env : TunnelEnv) : Prop :=
  ∀ dev t, w.tunnels dev = some t → w.Holds env dev t

/-- A request to change a tunnel gets through. -/
def Changes (t : Tunnel) (a : IpLink) (badDaddr : Bool) : Prop :=
  t.kind ≠ .vxlan ∧ 0 ≤ a.encapErr ∧ ¬ (t.kind = .ipip ∧ badDaddr = true) ∧ a.err = 0

/-- A new tunnel over a software device finds a free slot, or one with its address. A
tunnel that comes from the ioctl or gets another link has a slot where its packets go. -/
def FindsSlot (env : TunnelEnv) (w : TunnelNet) : Event → Prop
  | .newlink dev a => w.tunnels dev = none → ¬ Fails env a → ∀ p, w.acquires env a = some p →
    w.IsSfmc p → ∃ n, w.vdev p n = none ∨ w.vdev p n = some dev
  | .dellink _ => True
  | .changelink dev a badDaddr => ∀ t, w.tunnels dev = some t → Changes t a badDaddr →
    w.Holds env dev { t with link := a.link }
  | .ioctlAdd dev kind valid link err => w.tunnels dev = none → valid = true → err = 0 →
    w.Holds env dev { kind := kind.tunnel, mcdev := none, link := link }
  | .ioctlChg dev valid link err => ∀ t, w.tunnels dev = some t → t.kind ≠ .vxlan →
    valid = true → err = 0 → w.Holds env dev { t with link := link }

variable {env : TunnelEnv} {w : TunnelNet} {dev : NetDev} {t : Tunnel} {a : LinkArgs}

theorem Holds.congr {w' : TunnelNet} (hcapable : w'.capable = w.capable)
    (hsfmc : ∀ p, w'.IsSfmc p → w.IsSfmc p)
    (hvdev : ∀ p n, w.vdev p n = some dev → w'.vdev p n = some dev) (h : w.Holds env dev t) :
    w'.Holds env dev t := by
  intro p hp hs
  unfold offloadDev at hp
  rw [hcapable] at hp
  obtain ⟨n, hn⟩ := h p hp (hsfmc p hs)
  exact ⟨n, hvdev p n hn⟩

theorem offloadsHeld_addTunnel_iff (h : w.OffloadsHeld env) :
    (w.addTunnel dev t).OffloadsHeld env ↔ w.Holds env dev t := by
  constructor
  · intro hall
    exact (hall dev t addTunnel_self).congr rfl (fun _ => id) fun _ _ => id
  · intro hdev d t' ht'
    by_cases hd : d = dev
    · subst hd
      obtain rfl := Option.some.inj (addTunnel_self.symm.trans ht')
      exact hdev.congr rfl (fun _ => id) fun _ _ => id
    · rw [addTunnel_of_ne hd] at ht'
      exact (h d t' ht').congr rfl (fun _ => id) fun _ _ => id

theorem madcapAcquireDev_kind (p q : NetDev) :
    (w.madcapAcquireDev p dev).2.capable q = w.capable q ∧
      ((w.madcapAcquireDev p dev).2.IsSfmc q ↔ w.IsSfmc q) := by
  unfold capable IsSfmc
  by_cases hq : q = p
  · subst hq
    unfold madcapAcquireDev
    split
    · exact ⟨rfl, Iff.rfl⟩
    · next r hr =>
      dsimp only
      rw [Function.update_self, hr]
      refine ⟨rfl, iff_of_false ?_ ?_⟩ <;> rintro ⟨s, hs⟩ <;> cases hs
    · next s hs =>
      dsimp only
      rw [Function.update_self, hs]
      exact ⟨rfl, iff_of_true ⟨_, rfl⟩ ⟨_, rfl⟩⟩
  · rw [madcapAcquireDev_lower_of_ne hq]
    exact ⟨rfl, Iff.rfl⟩

theorem acquired_capable : (w.acquired env dev a).capable = w.capable := by
  funext q
  unfold acquired
  split
  · exact (madcapAcquireDev_kind _ q).1
  · rfl

theorem acquired_isSfmc (q : NetDev) : (w.acquired env dev a).IsSfmc q ↔ w.IsSfmc q := by
  unfold acquired
  split
  · exact (madcapAcquireDev_kind _ q).2
  · exact Iff.rfl

theorem acquired_keeps {p d : NetDev} {n : Fin sfmcVdevMax} (h : w.vdev p n = some d) :
    (w.acquired env dev a).vdev p n = some d := by
  rcases w.acquired_vdev env dev a with ⟨q, m, -, -, hfree, -, hslots⟩ | ⟨-, hsame⟩
  · rcases hslots p n with ⟨rfl, rfl⟩ | hold
    · rw [hfree] at h
      cases h
    · rw [hold, h]
  · rw [hsame, h]

theorem OffloadsHeld.acquired (h : w.OffloadsHeld env) :
    (w.acquired env dev a).OffloadsHeld env := by
  intro d t ht
  rw [acquired_tunnels] at ht
  exact (h d t ht).congr acquired_capable (fun p => (acquired_isSfmc p).mp)
    fun p n => acquired_keeps

theorem acquired_holds_iff {p : NetDev} (hacq : w.acquires env a = some p) (hs : w.IsSfmc p) :
    (∃ n, (w.acquired env dev a).vdev p n = some dev) ↔
      ∃ n, w.vdev p n = none ∨ w.vdev p n = some dev := by
  rcases w.acquired_vdev env dev a with ⟨q, m, hq, -, hfree, htaken, -⟩ | ⟨hno, hsame⟩
  · obtain rfl := Option.some.inj (hacq.symm.trans hq)
    exact iff_of_true ⟨m, htaken⟩ ⟨m, .inl hfree⟩
  · rw [hsame]
    constructor
    · rintro ⟨n, hn⟩
      exact ⟨n, .inr hn⟩
    · rintro ⟨n, hfree | hn⟩
      · by_contra habsent
        exact hno p hacq ⟨hs, ⟨n, hfree⟩, fun m hm => habsent ⟨m, hm⟩⟩
      · exact ⟨n, hn⟩

section

variable (devGetByIndex : ℕ → Option NetDev) (ipv6 : Bool)

theorem offloadDev_created (w : TunnelNet) {a : LinkArgs}
    (hok : ¬ Fails (allEnabled devGetByIndex ipv6) a) :
    w.offloadDev (allEnabled devGetByIndex ipv6) (w.created (allEnabled devGetByIndex ipv6) a) =
      w.acquires (allEnabled devGetByIndex ipv6) a := by
  cases a with
  | vxlan a => rfl
  | gre a | gretap a | ipip a =>
    have hencap : 0 ≤ a.encapErr := by
      by_contra hneg
      exact hok (.inl (by omega))
    exact (if_pos ⟨hencap, rfl⟩).symm

theorem newlink_offloads_iff (h : w.OffloadsHeld (allEnabled devGetByIndex ipv6)) (dev : NetDev)
    (a : LinkArgs) :
    (w.step (allEnabled devGetByIndex ipv6) (.newlink dev a)).2.OffloadsHeld
        (allEnabled devGetByIndex ipv6) ↔
      FindsSlot (allEnabled devGetByIndex ipv6) w (.newlink dev a) := by
  by_cases hnew : (w.tunnels dev).isSome = true
  · have hstep : w.step (allEnabled devGetByIndex ipv6) (.newlink dev a) = (-EEXIST, w) := if_pos hnew
    rw [hstep]
    apply iff_of_true h
    intro hnone
    rw [hnone] at hnew
    cases hnew
  · have hnone := Option.not_isSome_iff_eq_none.mp hnew
    have hstep : w.step (allEnabled devGetByIndex ipv6) (.newlink dev a) =
      w.newlink (allEnabled devGetByIndex ipv6) dev a := if_neg hnew
    rw [hstep]
    rcases w.newlink_outcome (allEnabled devGetByIndex ipv6) dev a with ⟨hfails, -, hnext⟩ | ⟨hok, hres⟩
    · rw [hnext]
      exact iff_of_true h.acquired fun _ hok => absurd hfails hok
    · rw [hres, offloadsHeld_addTunnel_iff h.acquired]
      have hoffload : (w.acquired (allEnabled devGetByIndex ipv6) dev a).offloadDev
            (allEnabled devGetByIndex ipv6) (w.created (allEnabled devGetByIndex ipv6) a) =
          w.acquires (allEnabled devGetByIndex ipv6) a := by
        rw [← offloadDev_created devGetByIndex ipv6 w hok]
        unfold offloadDev
        rw [acquired_capable]
      unfold Holds
      rw [hoffload]
      constructor
      · intro hholds _ _ p hp hs
        exact (acquired_holds_iff hp hs).mp (hholds p hp ((acquired_isSfmc p).mpr hs))
      · intro hfinds p hp hs
        have hs' := (acquired_isSfmc p).mp hs
        exact (acquired_holds_iff hp hs').mpr (hfinds hnone hok p hp hs')

end

/-- A tunnel gets another link if the condition `C` on it is met. -/
def Relinks (w : TunnelNet) (dev : NetDev) (link : ℕ) (C : Tunnel → Prop) (w' : TunnelNet) : Prop :=
  (∃ t, w.tunnels dev = some t ∧ C t ∧ w' = w.addTunnel dev { t with link := link }) ∨
    ((∀ t, w.tunnels dev = some t → ¬ C t) ∧ w' = w)

theorem Relinks.offloads_iff {w' : TunnelNet} {link : ℕ} {C : Tunnel → Prop}
    (hrelinks : w.Relinks dev link C w') (h : w.OffloadsHeld env) : w'.OffloadsHeld env ↔
      ∀ t, w.tunnels dev = some t → C t → w.Holds env dev { t with link := link } := by
  rcases hrelinks with ⟨t, ht, hC, rfl⟩ | ⟨hno, rfl⟩
  · rw [offloadsHeld_addTunnel_iff h]
    constructor
    · intro hholds t' ht' _
      obtain rfl := Option.some.inj (ht.symm.trans ht')
      exact hholds
    · intro hall
      exact hall t ht hC
  · exact iff_of_true h fun t ht hC => absurd hC (hno t ht)

theorem relinks_none {link : ℕ} {C : Tunnel → Prop} (ht : w.tunnels dev = none) :
    w.Relinks dev link C w := by
  refine .inr ⟨fun t h => ?_, rfl⟩
  rw [ht] at h
  cases h

theorem relinks_refused {link : ℕ} {C : Tunnel → Prop} (ht : w.tunnels dev = some t) (hC : ¬ C t) :
    w.Relinks dev link C w := by
  refine .inr ⟨fun t' ht' => ?_, rfl⟩
  obtain rfl := Option.some.inj (ht.symm.trans ht')
  exact hC

theorem changelink_relinks (w : TunnelNet) (dev : NetDev) (a : IpLink) (badDaddr : Bool) :
    w.Relinks dev a.link (Changes · a badDaddr) (w.changelink dev a badDaddr).2 := by
  unfold changelink
  split
  · next ht => exact relinks_none ht
  · next t ht =>
    split_ifs with hkind hencap hdaddr herr
    · exact relinks_refused ht fun h => h.1 hkind
    · exact relinks_refused ht fun h => absurd h.2.1 (by omega)
    · exact relinks_refused ht fun h => h.2.2.1 (by simpa using hdaddr)
    · exact relinks_refused ht fun h => herr h.2.2.2
    · exact .inl ⟨t, ht, ⟨hkind, by omega, by simpa using hdaddr, by simpa using herr⟩, rfl⟩

theorem ioctlChg_relinks (w : TunnelNet) (dev : NetDev) (valid : Bool) (link : ℕ) (err : ℤ) :
    w.Relinks dev link (fun t => t.kind ≠ .vxlan ∧ valid = true ∧ err = 0)
      (w.ioctlChg dev valid link err).2 := by
  unfold ioctlChg
  split
  · next ht => exact relinks_none ht
  · next t ht =>
    split_ifs with hkind hvalid herr
    · exact relinks_refused ht fun h => h.1 hkind
    · refine relinks_refused ht fun h => ?_
      rw [h.2.1] at hvalid
      cases hvalid
    · exact relinks_refused ht fun h => herr h.2.2
    · exact .inl ⟨t, ht, ⟨hkind, by simpa using hvalid, by simpa using herr⟩, rfl⟩

theorem ioctlAdd_offloads_iff (h : w.OffloadsHeld env) (dev : NetDev) (kind : IoctlKind)
    (valid : Bool) (link : ℕ) (err : ℤ) :
    (w.step env (.ioctlAdd dev kind valid link err)).2.OffloadsHeld env ↔
      FindsSlot env w (.ioctlAdd dev kind valid link err) := by
  by_cases hnew : (w.tunnels dev).isSome = true
  · have hstep : w.step env (.ioctlAdd dev kind valid link err) = (-EEXIST, w) := if_pos hnew
    rw [hstep]
    apply iff_of_true h
    intro hnone
    rw [hnone] at hnew
    cases hnew
  · have hnone := Option.not_isSome_iff_eq_none.mp hnew
    have hstep : w.step env (.ioctlAdd dev kind valid link err) =
      w.ioctlAdd dev kind.tunnel valid link err := if_neg hnew
    rw [hstep]
    unfold ioctlAdd
    split_ifs with hvalid herr
    · apply iff_of_true h
      intro _ hv
      rw [hv] at hvalid
      cases hvalid
    · exact iff_of_true h fun _ _ herr' => absurd herr' herr
    · rw [offloadsHeld_addTunnel_iff h]
      exact ⟨fun hholds _ _ _ => hholds,
        fun hfinds => hfinds hnone (by simpa using hvalid) (by simpa using herr)⟩

theorem dellink_offloads (h : w.OffloadsHeld env) (dev : NetDev) :
    (w.step env (.dellink dev)).2.OffloadsHeld env := by
  intro d t ht
  change Function.update w.tunnels dev none d = some t at ht
  by_cases hd : d = dev
  · subst hd
    rw [Function.update_self] at ht
    cases ht
  · rw [Function.update_of_ne hd] at ht
    exact (h d t ht).congr rfl (fun _ => id) fun _ _ => id

/-- After the step, every tunnel that offloads to a software device has a slot there. -/
def OffloadsAfter (env : TunnelEnv) (w : TunnelNet) (e : Event) : Prop :=
  (w.step env e).2.OffloadsHeld env

theorem offloadsAfter_iff (devGetByIndex : ℕ → Option NetDev) (ipv6 : Bool)
    (h : w.OffloadsHeld (allEnabled devGetByIndex ipv6)) (e : Event) :
    OffloadsAfter (allEnabled devGetByIndex ipv6) w e ↔
      FindsSlot (allEnabled devGetByIndex ipv6) w e := by
  cases e with
  | newlink dev a => exact newlink_offloads_iff devGetByIndex ipv6 h dev a
  | dellink dev => exact iff_of_true (dellink_offloads h dev) trivial
  | changelink dev a badDaddr => exact (w.changelink_relinks dev a badDaddr).offloads_iff h
  | ioctlAdd dev kind valid link err => exact ioctlAdd_offloads_iff h dev kind valid link err
  | ioctlChg dev valid link err =>
    have hiff := (w.ioctlChg_relinks dev valid link err).offloads_iff h
    simp only [and_imp] at hiff
    exact hiff

theorem offloadsHeld_init (env : TunnelEnv) (lower : NetDev → Option FreshMadcap) :
    (init lower).OffloadsHeld env := by
  intro d t ht
  cases ht

/-- Along a run of requests with madcap enabled everywhere, a tunnel that offloads to a
software device always has a slot there exactly when each request finds its slot. -/
theorem offloads_held_iff (devGetByIndex : ℕ → Option NetDev) (ipv6 : Bool)
    (lower : NetDev → Option FreshMadcap) (es : List Event) :
    Each (step (allEnabled devGetByIndex ipv6)) (OffloadsAfter (allEnabled devGetByIndex ipv6))
        (init lower) es ↔
      Each (step (allEnabled devGetByIndex ipv6)) (FindsSlot (allEnabled devGetByIndex ipv6))
        (init lower) es := by
  exact each_congr (fun w e hw => offloadsAfter_iff (w := w) devGetByIndex ipv6 hw e)
    (fun _ _ _ => id) (offloadsHeld_init _ lower) es

/-- A gre device created by the ioctl over the software device. -/
theorem ioctl_tunnel_has_no_slot : ¬ ∀ (devGetByIndex : ℕ → Option NetDev) (ipv6 : Bool)
    (lower : NetDev → Option FreshMadcap) (es : List Event),
    Each (step (allEnabled devGetByIndex ipv6)) (OffloadsAfter (allEnabled devGetByIndex ipv6))
      (init lower) es := by
  intro h
  obtain ⟨hheld, -⟩ := h enabledEnv.devGetByIndex true oneLower [.ioctlAdd 1 .gre true 2 0]
  obtain ⟨n, hn⟩ := hheld 1 { kind := .gre, mcdev := none, link := 2 } rfl 0 (by rfl) ⟨_, rfl⟩
  cases hn

end TunnelNet

end Madcap
