import Madcap.Core.Registry

/-!
# The netevent notifier

The software devices of a driver share one notifier for neighbour updates, and a flag
that says whether it is on the kernel's chain. A device that comes registers it if the
flag is down; a device that goes takes it away.
-/

namespace Madcap

/-- The blocks on the netevent chain: the one of the driver and those of other modules. -/
inductive NotifierBlock where
  | sfmcNetevent
  | other (id : ℕ)
  deriving DecidableEq, Repr

/-- A netevent. A neighbour belongs to a table (`arp` says whether to `arp_tbl`) and a device. -/
inductive Netevent where
  | neighUpdate (arp : Bool) (dev : NetDev) (ip : U32) (n : Neighbour)
  | other
  deriving DecidableEq, Repr

/-- The driver: `netevent_registered`, the chain, the registry of madcap devices and the
software devices that have been initialised. -/
structure SfmcDriver where
  neteventRegistered : Bool
  neteventChain : List NotifierBlock
  net : MadcapNet
  devs : NetDev → Option Sfmc

/-- What `sfmc_init` finds: the hardware address, the memory and whether
`alloc_workqueue` succeeds. -/
structure Probe where
  permAddr : Mac
  zone : Zone
  wq : Bool

namespace SfmcDriver

def registerNeteventNotifier (d : SfmcDriver) (nb : NotifierBlock) : SfmcDriver :=
  { d with neteventChain := d.neteventChain ++ [nb] }

def unregisterNeteventNotifier (d : SfmcDriver) (nb : NotifierBlock) : SfmcDriver :=
  { d with neteventChain := d.neteventChain.erase nb }

/-- `sfmc_neigh_update_event`. The devices with `sfmc_switchdev_ops` are those of the driver. -/
def sfmcNeighUpdateEvent (d : SfmcDriver) : Netevent → Res SfmcDriver
  | .neighUpdate arp dev ip n =>
    if !arp then return d
    else
      match d.devs dev with
      | none => return d
      | some s => do
        let s ← s.sfmcNeighUpdate ip n
        return { d with devs := Function.update d.devs dev (some s) }
  | .other => return d

/-- `call_netevent_notifiers`. The blocks of other modules do not touch the driver. -/
def callNeteventNotifiers (e : Netevent) : List NotifierBlock → SfmcDriver → Res SfmcDriver
  | [], d => return d
  | .sfmcNetevent :: chain, d => do
    let d ← d.sfmcNeighUpdateEvent e
    callNeteventNotifiers e chain d
  | .other _ :: chain, d => callNeteventNotifiers e chain d

variable (madcapEnable : Bool)

/-- `sfmc_init`. A device whose set-up fails is none of the driver's devices. -/
def sfmcInit (d : SfmcDriver) (dev : NetDev) (p : Probe) : ℤ × SfmcDriver :=
  if !p.wq then (-ENOMEM, d)
  else
    let (err, net) :=
      if madcapEnable then d.net.madcapRegisterDevice dev .sfmc else (0, d.net)
    if err < 0 then (err, { d with net := net })
    else
      let d := { d with
        net := net
        devs := Function.update d.devs dev (some (Madcap.sfmcInit p.permAddr p.zone)) }
      if !d.neteventRegistered then
        (0, { d.registerNeteventNotifier .sfmcNetevent with neteventRegistered := true })
      else (0, d)

/-- `sfmc_exit`. The tables go with the device. -/
def sfmcExit (d : SfmcDriver) (dev : NetDev) : ℤ × SfmcDriver :=
  let d :=
    if d.neteventRegistered then
      { d.unregisterNeteventNotifier .sfmcNetevent with neteventRegistered := false }
    else d
  let d := { d with devs := Function.update d.devs dev none }
  (0, if madcapEnable then { d with net := (d.net.madcapUnregisterDevice dev).2 } else d)

inductive Event where
  | init (dev : NetDev) (p : Probe)
  | exit (dev : NetDev)

def step (d : SfmcDriver) : Event → ℤ × SfmcDriver
  | .init dev p => d.sfmcInit madcapEnable dev p
  | .exit dev => d.sfmcExit madcapEnable dev

/-- The driver when its module is loaded, with other modules on the chain. -/
def load (others : List ℕ) : SfmcDriver where
  neteventRegistered := false
  neteventChain := others.map .other
  net := madcapInitNet
  devs := fun _ => none

def registrations (d : SfmcDriver) : ℕ := d.neteventChain.count .sfmcNetevent

variable {d : SfmcDriver} {dev : NetDev}

theorem callNeteventNotifiers_zero {e : Netevent} {chain : List NotifierBlock}
    (h : chain.count .sfmcNetevent = 0) : callNeteventNotifiers e chain d = .ok d := by
  induction chain with
  | nil => rfl
  | cons nb chain ih =>
    cases nb with
    | sfmcNetevent => simp at h
    | other id => exact ih (by simpa using h)

theorem callNeteventNotifiers_one {e : Netevent} {chain : List NotifierBlock}
    (h : chain.count .sfmcNetevent = 1) :
    callNeteventNotifiers e chain d = d.sfmcNeighUpdateEvent e := by
  induction chain with
  | nil => cases h
  | cons nb chain ih =>
    cases nb with
    | sfmcNetevent =>
      have hrest : chain.count .sfmcNetevent = 0 := by simpa using h
      unfold callNeteventNotifiers
      cases d.sfmcNeighUpdateEvent e with
      | error f => rfl
      | ok d' => exact callNeteventNotifiers_zero hrest
    | other id => exact ih (by simpa using h)

/-- With the notifier registered once, an update of a neighbour of a live device gets to
its routes, once. -/
theorem neighUpdate_reaches {s s' : Sfmc} {ip : U32} {n : Neighbour} (hreg : d.registrations = 1)
    (hs : d.devs dev = some s) (hs' : s.sfmcNeighUpdate ip n = .ok s') :
    callNeteventNotifiers (.neighUpdate true dev ip n) d.neteventChain d =
      .ok { d with devs := Function.update d.devs dev (some s') } := by
  rw [callNeteventNotifiers_one hreg]
  simp only [sfmcNeighUpdateEvent, Bool.not_true, Bool.false_eq_true, if_false, hs, hs']
  rfl

/-- Without it the device keeps its stale address. -/
theorem neighUpdate_missed (hreg : d.registrations = 0) (e : Netevent) :
    callNeteventNotifiers e d.neteventChain d = .ok d :=
  callNeteventNotifiers_zero hreg

/-- The flag tells whether the notifier is on the chain. -/
def FlagRight (d : SfmcDriver) : Prop := d.registrations = if d.neteventRegistered then 1 else 0

def Live (d : SfmcDriver) : Prop := ∃ dev, (d.devs dev).isSome = true

/-- The notifier is registered once while a device lives, and not otherwise. -/
structure Notified (d : SfmcDriver) : Prop where
  live : d.Live → d.registrations = 1
  left : ¬ d.Live → d.registrations = 0

theorem flagRight_load (others : List ℕ) : (load others).FlagRight := by
  change (others.map NotifierBlock.other).count .sfmcNetevent = 0
  rw [List.count_eq_zero, List.mem_map]
  rintro ⟨id, -, h⟩
  cases h

theorem notified_load (others : List ℕ) : (load others).Notified where
  live := by
    rintro ⟨dev, h⟩
    cases h
  left := fun _ => flagRight_load others

theorem sfmcInit_cases (hflag : d.FlagRight) (dev : NetDev) (p : Probe) :
    ((d.sfmcInit madcapEnable dev p).2.devs = d.devs ∧
      (d.sfmcInit madcapEnable dev p).2.neteventRegistered = d.neteventRegistered ∧
      (d.sfmcInit madcapEnable dev p).2.neteventChain = d.neteventChain) ∨
    ((d.sfmcInit madcapEnable dev p).2.Live ∧
      (d.sfmcInit madcapEnable dev p).2.neteventRegistered = true ∧
      (d.sfmcInit madcapEnable dev p).2.registrations = 1) := by
  have hlives : ∀ s, ((Function.update d.devs dev (some s)) dev).isSome = true := by
    intro s
    rw [Function.update_self]
    rfl
  unfold FlagRight at hflag
  unfold sfmcInit
  generalize (if madcapEnable = true then d.net.madcapRegisterDevice dev .sfmc else (0, d.net)) = res
  dsimp only
  split_ifs with hwq herr hreg
  · exact .inl ⟨rfl, rfl, rfl⟩
  · exact .inl ⟨rfl, rfl, rfl⟩
  · rw [Bool.not_eq_true'] at hreg
    rw [hreg] at hflag
    right
    refine ⟨⟨dev, hlives _⟩, rfl, ?_⟩
    change (d.neteventChain ++ [NotifierBlock.sfmcNetevent]).count .sfmcNetevent = 1
    rw [List.count_append]
    exact congrArg (· + 1) hflag
  · rw [Bool.not_eq_true', Bool.not_eq_false] at hreg
    rw [hreg] at hflag
    exact .inr ⟨⟨dev, hlives _⟩, hreg, hflag⟩

theorem sfmcExit_chain (hflag : d.FlagRight) (dev : NetDev) :
    (d.sfmcExit madcapEnable dev).2.neteventRegistered = false ∧
      (d.sfmcExit madcapEnable dev).2.registrations = 0 := by
  unfold FlagRight registrations at hflag
  unfold sfmcExit registrations
  cases hreg : d.neteventRegistered with
  | true =>
    rw [hreg] at hflag
    have hcount : (d.neteventChain.erase NotifierBlock.sfmcNetevent).count .sfmcNetevent = 0 := by
      rw [List.count_erase_self, hflag]
      rfl
    cases madcapEnable with
    | true => exact ⟨rfl, hcount⟩
    | false => exact ⟨rfl, hcount⟩
  | false =>
    rw [hreg] at hflag
    cases madcapEnable with
    | true => exact ⟨hreg, hflag⟩
    | false => exact ⟨hreg, hflag⟩

theorem sfmcExit_devs (d : SfmcDriver) (dev : NetDev) :
    (d.sfmcExit madcapEnable dev).2.devs = Function.update d.devs dev none := by
  unfold sfmcExit
  cases d.neteventRegistered <;> cases madcapEnable <;> rfl

theorem step_flagRight (hflag : d.FlagRight) (e : Event) : (d.step madcapEnable e).2.FlagRight := by
  cases e with
  | init dev p =>
    rcases sfmcInit_cases madcapEnable hflag dev p with ⟨-, hreg, hchain⟩ | ⟨-, hreg, hcount⟩
    · unfold step FlagRight registrations
      rw [hreg, hchain]
      exact hflag
    · unfold step FlagRight
      rw [hreg, hcount]
      rfl
  | exit dev =>
    obtain ⟨hreg, hcount⟩ := sfmcExit_chain madcapEnable hflag dev
    unfold step FlagRight
    rw [hreg, hcount]
    rfl

def NotifiedAfter (d : SfmcDriver) (e : Event) : Prop := (d.step madcapEnable e).2.Notified

/-- Only the last device goes. -/
def LastLeaves (d : SfmcDriver) : Event → Prop
  | .init _ _ => True
  | .exit dev => ∀ other, other ≠ dev → d.devs other = none

theorem exit_notifiedAfter_iff (hflag : d.FlagRight) (dev : NetDev) :
    NotifiedAfter madcapEnable d (.exit dev) ↔ ∀ other, other ≠ dev → d.devs other = none := by
  have hdevs := d.sfmcExit_devs madcapEnable dev
  obtain ⟨-, hcount⟩ := sfmcExit_chain madcapEnable hflag dev
  constructor
  · intro h other hne
    by_contra hsome
    have hlive : (d.sfmcExit madcapEnable dev).2.Live := by
      use other
      rw [hdevs, Function.update_of_ne hne]
      exact Option.isSome_iff_ne_none.mpr hsome
    have hone := h.live hlive
    exact Nat.zero_ne_one (hcount.symm.trans hone)
  · intro hlast
    refine ⟨?_, fun _ => hcount⟩
    rintro ⟨other, hother⟩
    change ((d.sfmcExit madcapEnable dev).2.devs other).isSome = true at hother
    rw [hdevs] at hother
    by_cases hne : other = dev
    · rw [hne, Function.update_self] at hother
      cases hother
    · rw [Function.update_of_ne hne, hlast other hne] at hother
      cases hother

theorem notifiedAfter_iff (h : d.FlagRight ∧ d.Notified) (e : Event) :
    NotifiedAfter madcapEnable d e ↔ LastLeaves d e := by
  obtain ⟨hflag, hnotified⟩ := h
  cases e with
  | init dev p =>
    apply iff_of_true _ trivial
    rcases sfmcInit_cases madcapEnable hflag dev p with ⟨hdevs, -, hchain⟩ | ⟨hlive, -, hcount⟩
    · unfold NotifiedAfter
      constructor
      · rintro ⟨other, hother⟩
        unfold step at hother ⊢
        rw [hdevs] at hother
        unfold registrations
        rw [hchain]
        exact hnotified.live ⟨other, hother⟩
      · intro hnone
        unfold step registrations
        rw [hchain]
        apply hnotified.left
        rintro ⟨other, hother⟩
        apply hnone
        use other
        unfold step
        rwa [hdevs]
    · exact ⟨fun _ => hcount, fun hnone => absurd hlive hnone⟩
  | exit dev => exact exit_notifiedAfter_iff madcapEnable hflag dev

/-- Along a run the notifier is registered exactly while devices live, if and only if every
device that goes is the last one. -/
theorem notified_along_iff (madcapEnable : Bool) (others : List ℕ) (es : List Event) :
    Each (step madcapEnable) (NotifiedAfter madcapEnable) (load others) es ↔
      Each (step madcapEnable) LastLeaves (load others) es := by
  have hinit : (load others).FlagRight ∧ (load others).Notified :=
    ⟨flagRight_load others, notified_load others⟩
  exact each_congr (fun d e h => notifiedAfter_iff (d := d) madcapEnable h e)
    (fun _ e h hafter => ⟨step_flagRight madcapEnable h.1 e, hafter⟩) hinit es

/-- The calls of a driver that sets its devices up successfully, one probe and one removal
at a time. -/
def Paired (d : SfmcDriver) : Event → Prop
  | .init dev p => d.devs dev = none ∧ (d.sfmcInit madcapEnable dev p).1 = 0
  | .exit dev => (d.devs dev).isSome = true

def goodProbe : Probe where
  permAddr := 0
  zone := freshZone fun _ => true
  wq := true

/-- Two devices come and the first one goes: the other is left without the notifier. -/
theorem first_exit_unregisters : ¬ ∀ (madcapEnable : Bool) (others : List ℕ) (es : List Event),
    Each (step madcapEnable) (Paired madcapEnable) (load others) es →
      Each (step madcapEnable) (NotifiedAfter madcapEnable) (load others) es := by
  intro h
  have hpaired : Each (step true) (Paired true) (load [])
      [.init 0 goodProbe, .init 1 goodProbe, .exit 0] :=
    ⟨⟨rfl, by rfl⟩, ⟨rfl, by rfl⟩, by rfl, trivial⟩
  obtain ⟨-, -, ⟨hlive, -⟩, -⟩ := h true [] _ hpaired
  have hone := hlive ⟨1, by rfl⟩
  cases hone

end SfmcDriver

end Madcap
