import Madcap.Core.Registry

/-!
# The registry as a map

Whatever devices come and go in between, the table of slots is a finite map from
devices to operations with room for sixteen of them.
-/

namespace Madcap

/-- The calls of the drivers, with the operations a driver registers its device with. -/
inductive RegistryCall (Ops : Type) where
  | register (dev : NetDev) (ops : Ops)
  | unregister (dev : NetDev)

/-- What the registry is for: a map from devices to operations. -/
abbrev OpsMap (Ops : Type) := NetDev → Option Ops

section

variable {Ops : Type}

open Classical in
/-- The calls on the map. The code of an unregistration says nothing. -/
noncomputable def OpsMap.step (m : OpsMap Ops) : RegistryCall Ops → ℤ × OpsMap Ops
  | .register dev ops =>
    if (m dev).isSome then (-EEXIST, m)
    else if (Slots.domain m).ncard = madcapdevPernetNum then (-ENOMEM, m)
    else (0, Function.update m dev (some ops))
  | .unregister dev => (-ENOENT, Function.update m dev none)

/-- One call and its code, in a log that keeps the operations of the last successful
registration of `dev` that was not followed by its unregistration. -/
def registered (dev : NetDev) (last : Option Ops) : RegistryCall Ops × ℤ → Option Ops
  | (.register d ops, err) => if d = dev ∧ err = 0 then some ops else last
  | (.unregister d, _) => if d = dev then none else last

def lastRegistered (log : List (RegistryCall Ops × ℤ)) : OpsMap Ops := fun dev =>
  log.foldl (registered dev) none

theorem OpsMap.step_registered (m : OpsMap Ops) (call : RegistryCall Ops) (dev : NetDev) :
    (m.step call).2 dev = registered dev (m dev) (call, (m.step call).1) := by
  cases call with
  | register d ops =>
    simp only [step]
    split_ifs with hsome hfull
    · have hfail : ¬ (d = dev ∧ -EEXIST = 0) := fun h => absurd h.2 (by decide)
      rw [registered, if_neg hfail]
    · have hfail : ¬ (d = dev ∧ -ENOMEM = 0) := fun h => absurd h.2 (by decide)
      rw [registered, if_neg hfail]
    · simp only [registered, Function.update_apply, eq_comm, and_true]
  | unregister d =>
    simp only [step, registered, Function.update_apply, eq_comm]

theorem OpsMap.answers_registered (m : OpsMap Ops) (calls : List (RegistryCall Ops))
    (dev : NetDev) : (answers step m calls).2 dev =
      (calls.zip (answers step m calls).1).foldl (registered dev) (m dev) := by
  induction calls generalizing m with
  | nil => rfl
  | cons call calls ih =>
    rw [answers, List.zip_cons_cons, List.foldl_cons, ← step_registered]
    exact ih (m.step call).2

end

namespace MadcapNet

variable {Ops : Type}

def call (net : MadcapNet Ops) : RegistryCall Ops → ℤ × MadcapNet Ops
  | .register dev ops => net.madcapRegisterDevice dev ops
  | .unregister dev => net.madcapUnregisterDevice dev

/-- The devices of the slots and their operations. -/
def SlotsOk (net : MadcapNet Ops) : Prop := Slots.Ok net.dev net.ops

variable {net : MadcapNet Ops} {dev : NetDev} {ops : Ops}

theorem SlotsOk.call (h : net.SlotsOk) (c : RegistryCall Ops) : (net.call c).2.SlotsOk := by
  cases c with
  | register dev ops =>
    simp only [MadcapNet.call]
    rcases net.madcapRegisterDevice_cases dev ops with
      ⟨-, heq⟩ | ⟨-, -, heq⟩ | ⟨hnone, n, -, heq⟩
    · rw [heq]
      exact h
    · rw [heq]
      exact h
    · rw [heq]
      rw [getMadcapOps_eq, Slots.Ok.lookup_eq_none h] at hnone
      exact Slots.Ok.put h hnone n ops
  | unregister dev =>
    simp only [MadcapNet.call]
    rw [madcapUnregisterDevice_eq]
    exact Slots.Ok.drop h dev

/-- One call on the slots is the call on the map. -/
theorem SlotsOk.call_refines (h : net.SlotsOk) (c : RegistryCall Ops) :
    (net.call c).1 = (OpsMap.step net.getMadcapOps c).1 ∧
      (net.call c).2.getMadcapOps = (OpsMap.step net.getMadcapOps c).2 := by
  have hlookup : ∀ net : MadcapNet Ops, net.getMadcapOps = Slots.lookup net.dev net.ops :=
    fun net => funext net.getMadcapOps_eq
  have hfull := Slots.Ok.free_eq_none_iff h
  rw [← hlookup] at hfull
  cases c with
  | register dev ops =>
    simp only [MadcapNet.call, OpsMap.step]
    rcases net.madcapRegisterDevice_cases dev ops with
      ⟨hsome, heq⟩ | ⟨hnone, hfree, heq⟩ | ⟨hnone, n, hfree, heq⟩
    · rw [heq, if_pos hsome]
      exact ⟨rfl, rfl⟩
    · rw [heq, hnone, if_neg (by simp), if_pos (hfull.mp hfree)]
      exact ⟨rfl, rfl⟩
    · have hroom : ¬ (Slots.domain net.getMadcapOps).ncard = madcapdevPernetNum := by
        rw [← hfull, hfree]
        exact Option.some_ne_none n
      rw [heq, hnone, if_neg (by simp), if_neg hroom]
      refine ⟨rfl, ?_⟩
      rw [getMadcapOps_eq, Slots.Ok.lookup_eq_none h] at hnone
      rw [hlookup, hlookup]
      exact Slots.Ok.lookup_put h hnone (Slots.free_eq_some hfree).1 ops
  | unregister dev =>
    simp only [MadcapNet.call, OpsMap.step]
    rw [madcapUnregisterDevice_eq]
    refine ⟨rfl, ?_⟩
    rw [hlookup, hlookup]
    exact Slots.Ok.lookup_drop h dev

/-- The registry is in order and holds the map `m`: no device has two slots, a slot has
operations exactly when it has a device, a registration is answered as by a map with room for
sixteen devices, and a refused one changes nothing. A new device goes to the first free slot. -/
structure HoldsMap (net : MadcapNet Ops) (m : OpsMap Ops) : Prop where
  unique : ∀ i j dev, net.dev i = some dev → net.dev j = some dev → i = j
  paired : ∀ i, (net.ops i).isSome = (net.dev i).isSome
  get : ∀ dev, net.getMadcapOps dev = m dev
  exist : ∀ dev ops, (net.madcapRegisterDevice dev ops).1 = -EEXIST ↔ (m dev).isSome = true
  full : ∀ dev ops, (net.madcapRegisterDevice dev ops).1 = -ENOMEM ↔
    m dev = none ∧ {other | other ≠ dev ∧ (m other).isSome = true}.ncard = madcapdevPernetNum
  accepts : ∀ dev ops, (net.madcapRegisterDevice dev ops).1 = 0 ↔
    m dev = none ∧ {other | other ≠ dev ∧ (m other).isSome = true}.ncard ≠ madcapdevPernetNum
  refused : ∀ dev ops, (net.madcapRegisterDevice dev ops).1 ≠ 0 →
    (net.madcapRegisterDevice dev ops).2 = net
  reused : ∀ dev ops, (net.madcapRegisterDevice dev ops).1 = 0 → ∃ n, net.dev n = none ∧
    (∀ j < n, net.dev j ≠ none) ∧
    (net.madcapRegisterDevice dev ops).2.dev = Function.update net.dev n (some dev) ∧
    (net.madcapRegisterDevice dev ops).2.ops = Function.update net.ops n (some ops)

theorem others_eq {m : OpsMap Ops} (h : m dev = none) :
    {other | other ≠ dev ∧ (m other).isSome = true} = Slots.domain m := by
  ext other
  constructor
  · exact fun hother => hother.2
  · intro hother
    refine ⟨?_, hother⟩
    rintro rfl
    have hsome : (m other).isSome = true := hother
    rw [h] at hsome
    cases hsome

theorem SlotsOk.holdsMap (h : net.SlotsOk) : net.HoldsMap net.getMadcapOps := by
  have hfull : Slots.free net.dev = none ↔
      (Slots.domain net.getMadcapOps).ncard = madcapdevPernetNum := by
    rw [Slots.Ok.free_eq_none_iff h, ← funext net.getMadcapOps_eq]
  refine ⟨h.unique, h.paired, fun dev => rfl, ?_, ?_, ?_, ?_, ?_⟩ <;> intro dev ops <;>
    rcases net.madcapRegisterDevice_cases dev ops with
      ⟨hsome, heq⟩ | ⟨hnone, hfree, heq⟩ | ⟨hnone, n, hfree, heq⟩
  · rw [heq]
    exact iff_of_true rfl hsome
  · rw [heq, hnone]
    exact iff_of_false (show ¬ -ENOMEM = -EEXIST by decide) (by simp)
  · rw [heq, hnone]
    exact iff_of_false (show ¬ (0 : ℤ) = -EEXIST by decide) (by simp)
  · rw [heq]
    refine iff_of_false (show ¬ -EEXIST = -ENOMEM by decide) fun hall => ?_
    rw [hall.1] at hsome
    cases hsome
  · rw [heq, others_eq hnone]
    exact iff_of_true rfl ⟨hnone, hfull.mp hfree⟩
  · rw [heq, others_eq hnone, ← hfull, hfree]
    exact iff_of_false (show ¬ (0 : ℤ) = -ENOMEM by decide) fun hall => nomatch hall.2
  · rw [heq]
    refine iff_of_false (show ¬ -EEXIST = 0 by decide) fun hall => ?_
    rw [hall.1] at hsome
    cases hsome
  · rw [heq, others_eq hnone]
    exact iff_of_false (show ¬ -ENOMEM = 0 by decide) fun hall => hall.2 (hfull.mp hfree)
  · rw [heq, others_eq hnone, ne_eq, ← hfull, hfree]
    exact iff_of_true rfl ⟨hnone, Option.some_ne_none n⟩
  · rw [heq]
    exact fun _ => rfl
  · rw [heq]
    exact fun _ => rfl
  · rw [heq]
    exact fun herr => absurd rfl herr
  · rw [heq]
    exact fun herr => absurd herr (show ¬ -EEXIST = 0 by decide)
  · rw [heq]
    exact fun herr => absurd herr (show ¬ -ENOMEM = 0 by decide)
  · rw [heq]
    obtain ⟨hn, hbefore⟩ := Slots.free_eq_some hfree
    exact fun _ => ⟨n, hn, hbefore, rfl, rfl⟩

theorem answers_refines (calls : List (RegistryCall Ops)) :
    (answers call madcapInitNet calls).1 = (answers OpsMap.step (fun _ => none) calls).1 ∧
    (answers call madcapInitNet calls).2.SlotsOk ∧
    (answers call madcapInitNet calls).2.getMadcapOps =
      lastRegistered (calls.zip (answers call madcapInitNet calls).1) := by
  have hstep : ∀ (net : MadcapNet Ops) (m : OpsMap Ops) (c : RegistryCall Ops),
      net.SlotsOk ∧ net.getMadcapOps = m → (net.call c).1 = (m.step c).1 ∧
        (net.call c).2.SlotsOk ∧ (net.call c).2.getMadcapOps = (m.step c).2 := by
    rintro net m c ⟨hnet, rfl⟩
    obtain ⟨hcode, hnext⟩ := hnet.call_refines c
    exact ⟨hcode, hnet.call c, hnext⟩
  have hempty : (madcapInitNet : MadcapNet Ops).SlotsOk := Slots.Ok.empty
  have hinit : (madcapInitNet : MadcapNet Ops).SlotsOk ∧
      (madcapInitNet : MadcapNet Ops).getMadcapOps = fun _ => none := by
    refine ⟨hempty, funext fun dev => ?_⟩
    rw [getMadcapOps_eq, Slots.Ok.lookup_eq_none hempty]
    exact fun i hi => nomatch hi
  obtain ⟨hcodes, hok, hlast⟩ := answers_simulation hstep hinit calls
  refine ⟨hcodes, hok, funext fun dev => ?_⟩
  rw [hlast, OpsMap.answers_registered, ← hcodes]
  rfl

/-- After every list of calls the registry answers as a map with room for sixteen devices
has answered, and it holds the operations of the last successful registration of each device
that was not followed by its unregistration. -/
theorem registry_refines_map (calls : List (RegistryCall Ops)) :
    (answers call madcapInitNet calls).1 = (answers OpsMap.step (fun _ => none) calls).1 ∧
    (answers call madcapInitNet calls).2.HoldsMap
      (lastRegistered (calls.zip (answers call madcapInitNet calls).1)) := by
  obtain ⟨hcodes, hok, hmap⟩ := answers_refines calls
  refine ⟨hcodes, ?_⟩
  rw [← hmap]
  exact hok.holdsMap

/-- An unregistration from a registry that holds the map `m` says whether the device was
registered, takes it out and leaves the others as they are. -/
structure ReportsRemoval (net : MadcapNet Ops) (m : OpsMap Ops) (dev : NetDev) : Prop where
  found : (m dev).isSome = true → (net.madcapUnregisterDevice dev).1 = 0
  missing : m dev = none → (net.madcapUnregisterDevice dev).1 = -ENOENT
  removed : (net.madcapUnregisterDevice dev).2.getMadcapOps dev = none
  others : ∀ other ≠ dev, (net.madcapUnregisterDevice dev).2.getMadcapOps other = m other
  slots : ∀ n, net.dev n ≠ some dev → (net.madcapUnregisterDevice dev).2.dev n = net.dev n ∧
    (net.madcapUnregisterDevice dev).2.ops n = net.ops n

theorem madcapUnregisterDevice_slot {n : Fin madcapdevPernetNum} (hn : net.dev n ≠ some dev) :
    (net.madcapUnregisterDevice dev).2.dev n = net.dev n ∧
      (net.madcapUnregisterDevice dev).2.ops n = net.ops n := by
  rw [madcapUnregisterDevice_eq]
  exact ⟨if_neg hn, if_neg hn⟩

theorem SlotsOk.unregistered (h : net.SlotsOk) (dev : NetDev) :
    (net.madcapUnregisterDevice dev).2.getMadcapOps =
      Function.update net.getMadcapOps dev none :=
  (h.call_refines (.unregister dev)).2

/-- A registry in order is right about the devices and wrong about a removal that worked. -/
theorem SlotsOk.reportsRemoval_iff (h : net.SlotsOk) (dev : NetDev) :
    net.ReportsRemoval net.getMadcapOps dev ↔ net.getMadcapOps dev = none := by
  constructor
  · intro hreports
    by_contra hne
    have hzero := hreports.found (Option.isSome_iff_ne_none.mpr hne)
    rw [madcapUnregisterDevice_eq] at hzero
    cases hzero
  · intro hnone
    refine ⟨fun hsome => ?_, fun _ => ?_, ?_, fun other hother => ?_, fun n hn => ?_⟩
    · rw [hnone] at hsome
      cases hsome
    · rw [madcapUnregisterDevice_eq]
    · rw [h.unregistered, Function.update_self]
    · rw [h.unregistered, Function.update_of_ne hother]
    · exact madcapUnregisterDevice_slot hn

/-- After every list of calls, the unregistration of a device reports what it did if and only
if the device is not registered. -/
theorem removal_reported_iff (calls : List (RegistryCall Ops)) (dev : NetDev) :
    (answers call madcapInitNet calls).2.ReportsRemoval
        (lastRegistered (calls.zip (answers call madcapInitNet calls).1)) dev ↔
      lastRegistered (calls.zip (answers call madcapInitNet calls).1) dev = none := by
  obtain ⟨-, hok, hmap⟩ := answers_refines calls
  rw [← hmap]
  exact hok.reportsRemoval_iff dev

/-- A device is registered and unregistered, which fails. -/
theorem removal_not_reported : ¬ ∀ (calls : List (RegistryCall MadcapOps)) (dev : NetDev),
    (answers call madcapInitNet calls).2.ReportsRemoval
      (lastRegistered (calls.zip (answers call madcapInitNet calls).1)) dev := by
  intro h
  have hzero := (h [.register 1 .raven] 1).found (by decide)
  rw [madcapUnregisterDevice_eq] at hzero
  cases hzero

end MadcapNet

end Madcap
