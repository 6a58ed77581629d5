import Madcap.Foundation.Runs
import Madcap.Protocol.Tunnels

/-!
# Which tunnels hold a slot

A tunnel takes a slot of its lower device when it is created and nothing ever gives the
slot back. The slots are those of existing tunnels as long as no creation fails after it
has taken a slot and no tunnel that has one is deleted.
-/

namespace Madcap

namespace Sfmc

theorem sfmcAcquireDev_vdev (s : Sfmc) (vdev : NetDev) :
    ((s.sfmcAcquireDev vdev).2.vdev = s.vdev ∧ ((∃ n, s.vdev n = some vdev) ∨ ∀ n, s.vdev n ≠ none)) ∨
    ∃ n, s.vdev n = none ∧ (∀ m, s.vdev m ≠ some vdev) ∧
      (s.sfmcAcquireDev vdev).2.vdev = Function.update s.vdev n (some vdev) := by
  unfold sfmcAcquireDev
  by_cases hany : ((List.finRange sfmcVdevMax).any fun n => s.vdev n = some vdev) = true
  · left
    rw [if_pos hany]
    obtain ⟨n, -, hn⟩ := List.any_eq_true.mp hany
    exact ⟨rfl, .inl ⟨n, by simpa using hn⟩⟩
  · rw [if_neg hany]
    have hnew : ∀ m, s.vdev m ≠ some vdev := by
      intro m hm
      exact hany (List.any_eq_true.mpr ⟨m, List.mem_finRange m, by simpa using hm⟩)
    cases hfind : (List.finRange sfmcVdevMax).find? fun n => s.vdev n = none with
    | none =>
      left
      refine ⟨rfl, .inr fun n hn => ?_⟩
      have hfull := List.find?_eq_none.mp hfind n (List.mem_finRange n)
      exact hfull (decide_eq_true hn)
    | some n =>
      right
      have hfree : s.vdev n = none := by simpa using List.find?_some hfind
      exact ⟨n, hfree, hnew, rfl⟩

end Sfmc

namespace TunnelNet

/-- The slots of the software device at `p`. -/
def vdev (w : TunnelNet) (p : NetDev) (n : Fin sfmcVdevMax) : Option NetDev :=
  match w.lower p with
  | some (.sfmc s) => s.vdev n
  | _ => none

/-- The device at `p` is a software device with a free slot, and has none for `dev`. -/
def Takes (w : TunnelNet) (p dev : NetDev) : Prop :=
  (∃ s, w.lower p = some (.sfmc s)) ∧ (∃ n, w.vdev p n = none) ∧ ∀ n, w.vdev p n ≠ some dev

variable {env : TunnelEnv} {w : TunnelNet} {p dev : NetDev}

@[simp] theorem madcapAcquireDev_tunnels : (w.madcapAcquireDev p dev).2.tunnels = w.tunnels := by
  unfold madcapAcquireDev
  split <;> rfl

@[simp] theorem addTunnel_vdev (t : Tunnel) : (w.addTunnel dev t).vdev = w.vdev := rfl

theorem vdev_of_sfmc {s : Sfmc} (h : w.lower p = some (.sfmc s)) : w.vdev p = s.vdev := by
  funext n
  simp only [vdev, h]

theorem vdev_of_not_sfmc (h : ∀ s, w.lower p ≠ some (.sfmc s)) : w.vdev p = fun _ => none := by
  funext n
  unfold vdev
  split
  · next s hs => exact absurd hs (h s)
  · rfl

theorem madcapAcquireDev_of_not_capable (h : ¬ w.capable p = true) :
    (w.madcapAcquireDev p dev).2 = w := by
  have hnone : w.lower p = none := by simpa [capable] using h
  unfold madcapAcquireDev
  rw [hnone]

theorem madcapAcquireDev_lower_of_ne {q : NetDev} (hq : q ≠ p) :
    (w.madcapAcquireDev p dev).2.lower q = w.lower q := by
  unfold madcapAcquireDev
  split
  · rfl
  · exact Function.update_of_ne hq ..
  · exact Function.update_of_ne hq ..

theorem madcapAcquireDev_vdev_of_ne {q : NetDev} (hq : q ≠ p) :
    (w.madcapAcquireDev p dev).2.vdev q = w.vdev q := by
  funext n
  unfold vdev
  rw [madcapAcquireDev_lower_of_ne hq]

theorem madcapAcquireDev_vdev (w : TunnelNet) (p dev : NetDev) :
    (w.Takes p dev ∧ ∃ n, w.vdev p n = none ∧
      (w.madcapAcquireDev p dev).2.vdev p = Function.update (w.vdev p) n (some dev)) ∨
    (¬ w.Takes p dev ∧ (w.madcapAcquireDev p dev).2.vdev p = w.vdev p) := by
  unfold madcapAcquireDev
  cases hp : w.lower p with
  | none =>
    right
    refine ⟨?_, rfl⟩
    rintro ⟨⟨s, hs⟩, -⟩
    rw [hp] at hs
    cases hs
  | some priv =>
    cases priv with
    | raven r =>
      right
      have hraven : ∀ s, w.lower p ≠ some (.sfmc s) := by
        intro s hs
        rw [hp] at hs
        cases hs
      constructor
      · rintro ⟨⟨s, hs⟩, -⟩
        exact hraven s hs
      · rw [vdev_of_not_sfmc hraven]
        apply vdev_of_not_sfmc
        intro s hs
        dsimp only at hs
        rw [Function.update_self] at hs
        cases hs
    | sfmc s =>
      have hnext : (TunnelNet.mk (Function.update w.lower p (some (.sfmc (s.sfmcAcquireDev dev).2)))
          w.tunnels).vdev p = (s.sfmcAcquireDev dev).2.vdev :=
        vdev_of_sfmc (Function.update_self ..)
      have hprev := vdev_of_sfmc hp
      rcases s.sfmcAcquireDev_vdev dev with ⟨hsame, hheld⟩ | ⟨n, hfree, hnew, htake⟩
      · right
        constructor
        · rintro ⟨-, ⟨n, hn⟩, hnew⟩
          rw [hprev] at hn hnew
          rcases hheld with ⟨m, hm⟩ | hfull
          · exact hnew m hm
          · exact hfull n hn
        · exact hnext.trans (hsame.trans hprev.symm)
      · left
        rw [← hprev] at hfree hnew htake
        exact ⟨⟨⟨s, hp⟩, ⟨n, hfree⟩, hnew⟩, n, hfree, hnext.trans htake⟩

def acquires (w : TunnelNet) (env : TunnelEnv) : LinkArgs → Option NetDev
  | .vxlan a =>
    if a.id = true ∧ (a.useIpv6 = true → env.ipv6 = true) ∧ a.link ≠ 0 then
      (env.devGetByIndex a.link).filter w.capable
    else none
  | .gre a | .gretap a =>
    if 0 ≤ a.encapErr ∧ env.greEnable = true then (env.devGetByIndex a.link).filter w.capable
    else none
  | .ipip a =>
    if 0 ≤ a.encapErr ∧ env.ipipEnable = true then (env.devGetByIndex a.link).filter w.capable
    else none

/-- One of the last checks of `vxlan_newlink` fails. -/
def VxlanFailsLate (a : VxlanLink) : Prop :=
  a.duplicateVni = true ∨ (a.remoteAny = false ∧ a.fdbErr ≠ 0) ∨ a.registerErr ≠ 0

/-- The request for a new link fails. -/
def Fails (env : TunnelEnv) : LinkArgs → Prop
  | .vxlan a =>
    a.id = false ∨ (a.useIpv6 = true ∧ env.ipv6 = false) ∨
      (a.link ≠ 0 ∧ (env.devGetByIndex a.link = none ∨ (a.useIpv6 = true ∧ a.ipv6Disabled = true))) ∨
      VxlanFailsLate a
  | .gre a | .gretap a | .ipip a => a.encapErr < 0 ∨ a.err ≠ 0

def acquired (w : TunnelNet) (env : TunnelEnv) (dev : NetDev) (a : LinkArgs) : TunnelNet :=
  match w.acquires env a with
  | some p => (w.madcapAcquireDev p dev).2
  | none => w

def created (w : TunnelNet) (env : TunnelEnv) : LinkArgs → Tunnel
  | .vxlan a => { kind := .vxlan, mcdev := w.acquires env (.vxlan a), link := a.link }
  | .gre a => { kind := .gre, mcdev := none, link := a.link }
  | .gretap a => { kind := .gretap, mcdev := none, link := a.link }
  | .ipip a => { kind := .ipip, mcdev := none, link := a.link }

theorem vxlanRegister_cases (w : TunnelNet) (dev : NetDev) (a : VxlanLink) (mcdev : Option NetDev) :
    (VxlanFailsLate a ∧ (w.vxlanRegister dev a mcdev).1 ≠ 0 ∧ (w.vxlanRegister dev a mcdev).2 = w) ∨
    (¬ VxlanFailsLate a ∧ w.vxlanRegister dev a mcdev =
      (0, w.addTunnel dev { kind := .vxlan, mcdev := mcdev, link := a.link })) := by
  unfold vxlanRegister
  split_ifs with hdup hfdb hreg
  · exact .inl ⟨.inl hdup, show -EEXIST ≠ 0 by decide, rfl⟩
  · have hfdb' : a.remoteAny = false ∧ a.fdbErr ≠ 0 := by simpa using hfdb
    exact .inl ⟨.inr (.inl hfdb'), hfdb'.2, rfl⟩
  · exact .inl ⟨.inr (.inr hreg), hreg, rfl⟩
  · refine .inr ⟨?_, rfl⟩
    rintro (h | h | h)
    · exact hdup h
    · exact hfdb (by simpa using h)
    · exact hreg h

/-- A request fails after its acquisition, or before it has acquired anything, or succeeds. -/
def LinkOutcome (w : TunnelNet) (env : TunnelEnv) (dev : NetDev) (a : LinkArgs)
    (res : ℤ × TunnelNet) : Prop :=
  (Fails env a ∧ res.1 ≠ 0 ∧ res.2 = w.acquired env dev a) ∨
    (¬ Fails env a ∧ res = (0, (w.acquired env dev a).addTunnel dev (w.created env a)))

theorem vxlanRegister_outcome {a : VxlanLink} {w' : TunnelNet}
    (hacquired : w.acquired env dev (.vxlan a) = w') {mcdev : Option NetDev}
    (hmcdev : w.acquires env (.vxlan a) = mcdev)
    (hfails : Fails env (.vxlan a) ↔ VxlanFailsLate a) :
    w.LinkOutcome env dev (.vxlan a) (w'.vxlanRegister dev a mcdev) := by
  unfold LinkOutcome
  rw [hfails, hacquired, created, hmcdev]
  exact vxlanRegister_cases w' dev a mcdev

theorem vxlan_acquires {a : VxlanLink} (hid : a.id = true)
    (hv6 : ¬ (a.useIpv6 = true ∧ env.ipv6 = false)) (hlink : a.link ≠ 0) :
    w.acquires env (.vxlan a) = (env.devGetByIndex a.link).filter w.capable := by
  have hready : a.id = true ∧ (a.useIpv6 = true → env.ipv6 = true) ∧ a.link ≠ 0 := by
    refine ⟨hid, fun huse => ?_, hlink⟩
    by_contra hno
    exact hv6 ⟨huse, by simpa using hno⟩
  exact if_pos hready

theorem vxlan_fails_iff {a : VxlanLink} (hid : a.id = true)
    (hv6 : ¬ (a.useIpv6 = true ∧ env.ipv6 = false)) :
    Fails env (.vxlan a) ↔
      (a.link ≠ 0 ∧ (env.devGetByIndex a.link = none ∨ (a.useIpv6 = true ∧ a.ipv6Disabled = true))) ∨
        VxlanFailsLate a := by
  simp only [Fails, hid, Bool.true_eq_false, false_or, hv6]

theorem vxlanNewlink_outcome (w : TunnelNet) (env : TunnelEnv) (dev : NetDev) (a : VxlanLink) :
    w.LinkOutcome env dev (.vxlan a) (w.vxlanNewlink env dev a) := by
  unfold vxlanNewlink
  by_cases hid : a.id = true
  swap
  · have hid' : a.id = false := by simpa using hid
    rw [if_pos (by simpa using hid)]
    refine .inl ⟨.inl hid', show -EINVAL ≠ 0 by decide, ?_⟩
    simp [acquired, acquires, hid']
  rw [if_neg (by simpa using hid)]
  by_cases hv6 : a.useIpv6 = true ∧ env.ipv6 = false
  · rw [if_pos (by simpa using hv6)]
    refine .inl ⟨.inr (.inl hv6), show -EPFNOSUPPORT ≠ 0 by decide, ?_⟩
    simp [acquired, acquires, hv6]
  rw [if_neg (by simpa using hv6)]
  have hfails := vxlan_fails_iff hid hv6
  by_cases hlink : a.link = 0
  · have hacquires : w.acquires env (.vxlan a) = none := by simp [acquires, hlink]
    rw [if_neg (not_not.mpr hlink)]
    apply vxlanRegister_outcome _ hacquires
    · rw [hfails]
      simp [hlink]
    · rw [acquired, hacquires]
  rw [if_pos hlink]
  have hacquires := vxlan_acquires (w := w) hid hv6 hlink
  cases hdev : env.devGetByIndex a.link with
  | none =>
    rw [hdev] at hacquires
    refine .inl ⟨hfails.mpr (.inl ⟨hlink, .inl hdev⟩), show -ENODEV ≠ 0 by decide, ?_⟩
    rw [acquired, hacquires]
    rfl
  | some lowerdev =>
    rw [hdev, Option.filter_some] at hacquires
    rw [hdev] at hfails
    dsimp only
    by_cases hdisabled : a.useIpv6 = true ∧ a.ipv6Disabled = true
    · have hfail := hfails.mpr (.inl ⟨hlink, .inr hdisabled⟩)
      have hand : (a.useIpv6 && a.ipv6Disabled) = true := Bool.and_eq_true_iff.mpr hdisabled
      rw [if_pos hand, if_pos hand]
      left
      refine ⟨hfail, ?_, ?_⟩
      · split_ifs <;> exact show -EPERM ≠ 0 by decide
      · rw [acquired, hacquires]
        split_ifs <;> rfl
    · have hlate : Fails env (.vxlan a) ↔ VxlanFailsLate a := by
        rw [hfails]
        simp [hdisabled]
      have hand : ¬ (a.useIpv6 && a.ipv6Disabled) = true :=
        fun h => hdisabled (Bool.and_eq_true_iff.mp h)
      rw [if_neg hand, if_neg hand]
      split_ifs with hcapable
      · rw [if_pos hcapable] at hacquires
        apply vxlanRegister_outcome _ hacquires hlate
        rw [acquired, hacquires]
      · rw [if_neg hcapable] at hacquires
        apply vxlanRegister_outcome _ hacquires hlate
        rw [acquired, hacquires]

theorem ipTunnelNewlink_outcome {a : IpLink} {args : LinkArgs} {kind : TunnelKind} {w' : TunnelNet}
    (hacquired : w.acquired env dev args = w')
    (hcreated : w.created env args = { kind := kind, mcdev := none, link := a.link })
    (hfails : Fails env args ↔ a.err ≠ 0) :
    w.LinkOutcome env dev args (w'.ipTunnelNewlink dev kind a) := by
  unfold LinkOutcome ipTunnelNewlink
  rw [hfails, hacquired, hcreated]
  split_ifs with herr
  · exact .inl ⟨herr, herr, rfl⟩
  · exact .inr ⟨herr, rfl⟩

theorem ipgreNewlink_outcome (w : TunnelNet) (env : TunnelEnv) (dev : NetDev) (a : IpLink)
    {args : LinkArgs} (kind : TunnelKind)
    (hacquires : w.acquires env args =
      if 0 ≤ a.encapErr ∧ env.greEnable = true then (env.devGetByIndex a.link).filter w.capable
      else none)
    (hcreated : w.created env args = { kind := kind, mcdev := none, link := a.link })
    (hfails : Fails env args = (a.encapErr < 0 ∨ a.err ≠ 0)) :
    w.LinkOutcome env dev args (w.ipgreNewlink env dev kind a) := by
  unfold ipgreNewlink
  split_ifs with hencap henable
  · refine .inl ⟨hfails ▸ .inl hencap, by dsimp only; omega, ?_⟩
    rw [acquired, hacquires, if_neg (by omega)]
  · apply ipTunnelNewlink_outcome _ hcreated
    · rw [hfails]
      exact or_iff_right hencap
    · rw [acquired, hacquires, if_pos ⟨by omega, henable⟩]
      cases env.devGetByIndex a.link with
      | none => rfl
      | some mcdev =>
        dsimp only
        rw [Option.filter_some]
        split_ifs <;> rfl
  · apply ipTunnelNewlink_outcome _ hcreated
    · rw [hfails]
      exact or_iff_right hencap
    · rw [acquired, hacquires, if_neg fun h => henable h.2]

theorem ipipNewlink_outcome (w : TunnelNet) (env : TunnelEnv) (dev : NetDev) (a : IpLink) :
    w.LinkOutcome env dev (.ipip a) (w.ipipNewlink env dev a) := by
  unfold ipipNewlink
  split_ifs with hencap henable
  · refine .inl ⟨.inl hencap, by dsimp only; omega, ?_⟩
    rw [acquired, acquires, if_neg (by omega)]
  · apply ipTunnelNewlink_outcome _ rfl
    · exact or_iff_right hencap
    · rw [acquired, acquires, if_pos ⟨by omega, henable⟩]
      cases env.devGetByIndex a.link with
      | none => rfl
      | some mcdev =>
        dsimp only
        rw [Option.filter_some]
        split_ifs with hcapable
        · rfl
        · exact (madcapAcquireDev_of_not_capable hcapable).symm
  · apply ipTunnelNewlink_outcome _ rfl
    · exact or_iff_right hencap
    · rw [acquired, acquires, if_neg fun h => henable h.2]

theorem newlink_outcome (w : TunnelNet) (env : TunnelEnv) (dev : NetDev) (a : LinkArgs) :
    w.LinkOutcome env dev a (w.newlink env dev a) := by
  cases a with
  | vxlan a => exact w.vxlanNewlink_outcome env dev a
  | gre a => exact w.ipgreNewlink_outcome env dev a .gre rfl rfl rfl
  | gretap a => exact w.ipgreNewlink_outcome env dev a .gretap rfl rfl rfl
  | ipip a => exact w.ipipNewlink_outcome env dev a

theorem acquired_tunnels (a : LinkArgs) : (w.acquired env dev a).tunnels = w.tunnels := by
  unfold acquired
  split
  · exact madcapAcquireDev_tunnels
  · rfl

theorem acquired_vdev (w : TunnelNet) (env : TunnelEnv) (dev : NetDev) (a : LinkArgs) :
    (∃ p n, w.acquires env a = some p ∧ w.Takes p dev ∧ w.vdev p n = none ∧
      (w.acquired env dev a).vdev p n = some dev ∧
      ∀ q m, (q = p ∧ m = n) ∨ (w.acquired env dev a).vdev q m = w.vdev q m) ∨
    ((∀ p, w.acquires env a = some p → ¬ w.Takes p dev) ∧ (w.acquired env dev a).vdev = w.vdev) := by
  unfold acquired
  cases hacq : w.acquires env a with
  | none =>
    right
    refine ⟨fun p hp => ?_, rfl⟩
    cases hp
  | some p =>
    dsimp only
    rcases w.madcapAcquireDev_vdev p dev with ⟨htakes, n, hfree, htake⟩ | ⟨hno, hsame⟩
    · left
      refine ⟨p, n, rfl, htakes, hfree, ?_, fun q m => ?_⟩
      · rw [htake, Function.update_self]
      · by_cases hq : q = p
        · subst hq
          rw [htake]
          by_cases hm : m = n
          · exact .inl ⟨rfl, hm⟩
          · exact .inr (Function.update_of_ne hm ..)
        · rw [madcapAcquireDev_vdev_of_ne hq]
          exact .inr rfl
    · right
      constructor
      · intro p' hp'
        obtain rfl := Option.some.inj hp'
        exact hno
      · funext q
        by_cases hq : q = p
        · rw [hq, hsame]
        · exact madcapAcquireDev_vdev_of_ne hq

/-- The slots of the software devices hold tunnels that exist. -/
def SlotsLive (w : TunnelNet) : Prop := ∀ p n dev, w.vdev p n = some dev → (w.tunnels dev).isSome = true

/-- A step that fails leaves the slots as they were, and after the step they hold tunnels
that exist. -/
def KeepsSlots (env : TunnelEnv) (w : TunnelNet) (e : Event) : Prop :=
  ((w.step env e).1 ≠ 0 → (w.step env e).2.vdev = w.vdev) ∧ (w.step env e).2.SlotsLive

/-- No slot is left behind: a creation that fails has not taken one, and a tunnel that is
deleted has none. -/
def LeavesNoSlot (env : TunnelEnv) (w : TunnelNet) : Event → Prop
  | .newlink dev a => w.tunnels dev = none → Fails env a →
    ∀ p, w.acquires env a = some p → ¬ w.Takes p dev
  | .dellink dev => ∀ p n, w.vdev p n ≠ some dev
  | _ => True

theorem slotsLive_init (lower : NetDev → Option FreshMadcap) : (init lower).SlotsLive := by
  intro p n dev hdev
  unfold vdev init at hdev
  dsimp only at hdev
  cases hp : lower p with
  | none =>
    rw [hp] at hdev
    cases hdev
  | some fresh =>
    rw [hp] at hdev
    cases fresh <;> cases hdev

theorem keepsSlots_of_same {e : Event} (hw : w.SlotsLive) (hvdev : (w.step env e).2.vdev = w.vdev)
    (htunnels : ∀ d, (w.tunnels d).isSome = true → ((w.step env e).2.tunnels d).isSome = true) :
    KeepsSlots env w e := by
  refine ⟨fun _ => hvdev, fun p n d hd => ?_⟩
  rw [hvdev] at hd
  exact htunnels d (hw p n d hd)

/-- A creation takes its slot for a device that exists afterwards, unless it fails. -/
theorem newlink_keepsSlots_iff (hw : w.SlotsLive) (dev : NetDev) (a : LinkArgs) :
    KeepsSlots env w (.newlink dev a) ↔ LeavesNoSlot env w (.newlink dev a) := by
  by_cases hnew : (w.tunnels dev).isSome = true
  · have hstep : w.step env (.newlink dev a) = (-EEXIST, w) := if_pos hnew
    apply iff_of_true
    · apply keepsSlots_of_same hw
      · rw [hstep]
      · rw [hstep]
        exact fun _ => id
    · intro hnone
      rw [hnone] at hnew
      cases hnew
  · have hnone := Option.not_isSome_iff_eq_none.mp hnew
    have hstep : w.step env (.newlink dev a) = w.newlink env dev a := if_neg hnew
    rcases w.newlink_outcome env dev a with ⟨hfails, hcode, hnext⟩ | ⟨hok, hres⟩
    · rw [← hstep] at hcode hnext
      rcases w.acquired_vdev env dev a with ⟨p, n, hacq, htakes, hfree, htaken, -⟩ | ⟨hno, hsame⟩
      · apply iff_of_false
        · intro hkeeps
          have hvdev := hkeeps.1 hcode
          rw [hnext] at hvdev
          rw [hvdev, hfree] at htaken
          cases htaken
        · intro hleaves
          exact hleaves hnone hfails p hacq htakes
      · apply iff_of_true
        · apply keepsSlots_of_same hw
          · rw [hnext, hsame]
          · rw [hnext, acquired_tunnels]
            exact fun _ => id
        · exact fun _ _ => hno
    · apply iff_of_true
      · rw [← hstep] at hres
        unfold KeepsSlots
        rw [hres]
        refine ⟨fun hcode => absurd rfl hcode, fun p n d hd => ?_⟩
        apply addTunnel_isSome
        rw [acquired_tunnels]
        rw [addTunnel_vdev] at hd
        rcases w.acquired_vdev env dev a with ⟨q, m, -, -, -, htaken, hslots⟩ | ⟨-, hsame⟩
        · rcases hslots p n with ⟨rfl, rfl⟩ | hold
          · exact .inl (Option.some.inj (hd.symm.trans htaken))
          · exact .inr (hw p n d (hold ▸ hd))
        · rw [hsame] at hd
          exact .inr (hw p n d hd)
      · exact fun _ hfails => absurd hfails hok

theorem dellink_keepsSlots_iff (hw : w.SlotsLive) (dev : NetDev) :
    KeepsSlots env w (.dellink dev) ↔ LeavesNoSlot env w (.dellink dev) := by
  constructor
  · rintro ⟨-, hlive⟩ p n hdev
    have hsome := hlive p n dev hdev
    change (Function.update w.tunnels dev none dev).isSome = true at hsome
    rw [Function.update_self] at hsome
    cases hsome
  · intro hnone
    refine ⟨fun _ => rfl, fun p n d hd => ?_⟩
    have hne : d ≠ dev := by
      rintro rfl
      exact hnone p n hd
    change (Function.update w.tunnels dev none d).isSome = true
    rw [Function.update_of_ne hne]
    exact hw p n d hd

theorem update_keepsSlots (hw : w.SlotsLive) {res : ℤ × TunnelNet} {e : Event}
    (hstep : w.step env e = res)
    (hres : res.2 = w ∨ ∃ dev t, res.2 = w.addTunnel dev t) : KeepsSlots env w e := by
  apply keepsSlots_of_same hw
  · rw [hstep]
    rcases hres with h | ⟨dev, t, h⟩
    · rw [h]
    · rw [h]
      rfl
  · intro d hd
    rw [hstep]
    rcases hres with h | ⟨dev, t, h⟩
    · rwa [h]
    · rw [h]
      exact addTunnel_isSome (.inr hd)

theorem changelink_result (w : TunnelNet) (dev : NetDev) (a : IpLink) (badDaddr : Bool) :
    (w.changelink dev a badDaddr).2 = w ∨ ∃ d t, (w.changelink dev a badDaddr).2 = w.addTunnel d t := by
  unfold changelink
  split
  · exact .inl rfl
  · split_ifs
    all_goals first | exact .inl rfl | exact .inr ⟨_, _, rfl⟩

theorem ioctlAdd_result (w : TunnelNet) (dev : NetDev) (kind : TunnelKind) (valid : Bool) (link : ℕ)
    (err : ℤ) : (w.ioctlAdd dev kind valid link err).2 = w ∨
      ∃ d t, (w.ioctlAdd dev kind valid link err).2 = w.addTunnel d t := by
  unfold ioctlAdd
  split_ifs
  · exact .inl rfl
  · exact .inl rfl
  · exact .inr ⟨_, _, rfl⟩

theorem ioctlChg_result (w : TunnelNet) (dev : NetDev) (valid : Bool) (link : ℕ) (err : ℤ) :
    (w.ioctlChg dev valid link err).2 = w ∨
      ∃ d t, (w.ioctlChg dev valid link err).2 = w.addTunnel d t := by
  unfold ioctlChg
  split
  · exact .inl rfl
  · split_ifs
    all_goals first | exact .inl rfl | exact .inr ⟨_, _, rfl⟩

theorem keepsSlots_iff (hw : w.SlotsLive) (e : Event) : KeepsSlots env w e ↔ LeavesNoSlot env w e := by
  cases e with
  | newlink dev a => exact newlink_keepsSlots_iff hw dev a
  | dellink dev => exact dellink_keepsSlots_iff hw dev
  | changelink dev a badDaddr =>
    exact iff_of_true (update_keepsSlots hw rfl (w.changelink_result dev a badDaddr)) trivial
  | ioctlAdd dev kind valid link err =>
    apply iff_of_true _ trivial
    by_cases hnew : (w.tunnels dev).isSome = true
    · exact update_keepsSlots hw (if_pos hnew) (.inl rfl)
    · exact update_keepsSlots hw (if_neg hnew) (w.ioctlAdd_result dev kind.tunnel valid link err)
  | ioctlChg dev valid link err =>
    exact iff_of_true (update_keepsSlots hw rfl (w.ioctlChg_result dev valid link err)) trivial

/-- Along a run of requests the slots hold existing tunnels, and failed requests leave them
alone, exactly when no request leaves a slot behind. -/
theorem slots_follow_tunnels_iff (env : TunnelEnv) (lower : NetDev → Option FreshMadcap)
    (es : List Event) :
    Each (step env) (KeepsSlots env) (init lower) es ↔
      Each (step env) (LeavesNoSlot env) (init lower) es := by
  apply each_congr _ _ (slotsLive_init lower)
  · exact fun w e hw => keepsSlots_iff hw e
  · exact fun w e hw hkeeps => hkeeps.2

def oneLower (dev : NetDev) : Option FreshMadcap :=
  if dev = 0 then some (.sfmc 0 (freshZone fun _ => true)) else none

def enabledEnv : TunnelEnv where
  devGetByIndex := fun link => if link = 2 then some 0 else none
  ipv6 := true
  vxlanEnable := true
  greEnable := true
  ipipEnable := true

def greCycle : List Event :=
  [.newlink 1 (.gre { encapErr := 0, link := 2, err := 0 }), .dellink 1]

/-- The deleted device keeps its slot. -/
theorem deleted_tunnel_keeps_slot : ¬ ∀ (env : TunnelEnv) (lower : NetDev → Option FreshMadcap)
    (es : List Event), Each (step env) (KeepsSlots env) (init lower) es := by
  intro h
  obtain ⟨-, ⟨-, hlive⟩, -⟩ := h enabledEnv oneLower greCycle
  have hsome := hlive 0 0 1 (by rfl)
  exact Bool.false_ne_true hsome

end TunnelNet

end Madcap
