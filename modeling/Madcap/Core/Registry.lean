import Madcap.Foundation.Slots
import Madcap.Raven.Device
import Madcap.Sfmc.Device

/-!
# The registry of madcap devices

`madcap.c` keeps, for each network namespace, a table of sixteen slots that maps a
device to the operations of its driver.
-/

namespace Madcap

abbrev madcapdevPernetNum : ℕ := 16

/-- `struct madcap_ops`, by the driver whose operations it lists. -/
inductive MadcapOps where
  | raven
  | sfmc
  deriving DecidableEq, Repr

/-- `struct madcap_net`. The registry does not look into the operations it keeps. -/
structure MadcapNet (Ops : Type := MadcapOps) where
  ops : Fin madcapdevPernetNum → Option Ops
  dev : Fin madcapdevPernetNum → Option NetDev

def madcapInitNet {Ops : Type} : MadcapNet Ops where
  ops := fun _ => none
  dev := fun _ => none

/-- What `netdev_priv` points to. -/
inductive MadcapPriv where
  | raven (r : RavenDev)
  | sfmc (s : Sfmc)

def MadcapPriv.ops : MadcapPriv → MadcapOps
  | .raven _ => .raven
  | .sfmc _ => .sfmc

/-- A device of one of the drivers. The kernel numbers devices from one. -/
structure MadcapDev where
  ifindex : U32
  ifindex_ne : ifindex ≠ 0
  priv : MadcapPriv

def freshSfmc : MadcapDev where
  ifindex := 2
  ifindex_ne := by decide
  priv := .sfmc (sfmcInit 0 (freshZone fun _ => true))

namespace MadcapNet

section

variable {Ops : Type}

def getMadcapOps (net : MadcapNet Ops) (dev : NetDev) : Option Ops :=
  match (List.finRange madcapdevPernetNum).find? fun n => net.dev n = some dev with
  | some n => net.ops n
  | none => none

def madcapRegisterDevice (net : MadcapNet Ops) (dev : NetDev) (ops : Ops) : ℤ × MadcapNet Ops :=
  match net.getMadcapOps dev with
  | some _ => (-EEXIST, net)
  | none =>
    match (List.finRange madcapdevPernetNum).find? fun n => net.dev n = none with
    | some n =>
      (0, { ops := Function.update net.ops n (some ops)
            dev := Function.update net.dev n (some dev) })
    | none => (-ENOMEM, net)

/-- The loop of `madcap_unregister_device` over the slots that are left, with its counter. It does
not stop at the device. -/
def unregisterLoop (dev : NetDev) :
    List (Fin madcapdevPernetNum) → ℕ → MadcapNet Ops → ℕ × MadcapNet Ops
  | [], n, net => (n, net)
  | k :: ks, n, net =>
    if net.dev k = some dev then
      unregisterLoop dev ks (n + 1)
        { ops := Function.update net.ops k none
          dev := Function.update net.dev k none }
    else unregisterLoop dev ks (n + 1) net

def madcapUnregisterDevice (net : MadcapNet Ops) (dev : NetDev) : ℤ × MadcapNet Ops :=
  let (n, net) := unregisterLoop dev (List.finRange madcapdevPernetNum) 0 net
  if ¬ n < madcapdevPernetNum then (-ENOENT, net) else (0, net)

theorem unregisterLoop_eq (dev : NetDev) (ks : List (Fin madcapdevPernetNum)) (n : ℕ)
    (net : MadcapNet Ops) : unregisterLoop dev ks n net = (n + ks.length,
      { ops := fun m => if m ∈ ks ∧ net.dev m = some dev then none else net.ops m
        dev := fun m => if m ∈ ks ∧ net.dev m = some dev then none else net.dev m }) := by
  induction ks generalizing n net with
  | nil => simp [unregisterLoop]
  | cons k ks ih =>
    have hcount : n + 1 + ks.length = n + (k :: ks).length := by
      rw [List.length_cons]
      omega
    rw [unregisterLoop]
    split_ifs with hk
    · rw [ih, hcount]
      congr 2 <;> funext m
      · by_cases hm : m = k
        · simp [hm, hk]
        · simp [hm]
      · by_cases hm : m = k
        · simp [hm, hk]
        · simp [hm]
    · rw [ih, hcount]
      congr 2 <;> funext m
      · by_cases hm : m = k
        · simp [hm, hk]
        · simp [hm]
      · by_cases hm : m = k
        · simp [hm, hk]
        · simp [hm]

/-- The counter is always at the number of slots, so the device is never reported as found. -/
theorem madcapUnregisterDevice_eq (net : MadcapNet Ops) (dev : NetDev) :
    net.madcapUnregisterDevice dev = (-ENOENT,
      { ops := fun n => if net.dev n = some dev then none else net.ops n
        dev := fun n => if net.dev n = some dev then none else net.dev n }) := by
  unfold madcapUnregisterDevice
  rw [unregisterLoop_eq]
  simp

theorem getMadcapOps_eq (net : MadcapNet Ops) (dev : NetDev) :
    net.getMadcapOps dev = Slots.lookup net.dev net.ops dev := by
  unfold getMadcapOps Slots.lookup Slots.slotOf
  cases (List.finRange madcapdevPernetNum).find? fun n => net.dev n = some dev <;> rfl

/-- A device that is there is refused, one that is not goes to the first free slot. -/
theorem madcapRegisterDevice_cases (net : MadcapNet Ops) (dev : NetDev) (ops : Ops) :
    ((net.getMadcapOps dev).isSome = true ∧
      net.madcapRegisterDevice dev ops = (-EEXIST, net)) ∨
    (net.getMadcapOps dev = none ∧ Slots.free net.dev = none ∧
      net.madcapRegisterDevice dev ops = (-ENOMEM, net)) ∨
    (net.getMadcapOps dev = none ∧ ∃ n, Slots.free net.dev = some n ∧
      net.madcapRegisterDevice dev ops =
        (0, { ops := Function.update net.ops n (some ops)
              dev := Function.update net.dev n (some dev) })) := by
  unfold madcapRegisterDevice
  cases hops : net.getMadcapOps dev with
  | some o => exact .inl ⟨rfl, rfl⟩
  | none =>
    right
    cases hfree : Slots.free net.dev with
    | none =>
      unfold Slots.free at hfree
      exact .inl ⟨rfl, rfl, by simp only [hfree]⟩
    | some n =>
      unfold Slots.free at hfree
      exact .inr ⟨rfl, n, rfl, by simp only [hfree]⟩

/-- A registration of the device would be accepted. -/
def Admits (net : MadcapNet Ops) (dev : NetDev) : Prop :=
  net.getMadcapOps dev = none ∧ ∃ n, net.dev n = none

theorem madcapRegisterDevice_refused {net : MadcapNet Ops} {dev : NetDev} (h : ¬ net.Admits dev)
    (ops : Ops) : ∃ err < 0, net.madcapRegisterDevice dev ops = (err, net) := by
  rcases net.madcapRegisterDevice_cases dev ops with
    ⟨-, heq⟩ | ⟨-, -, heq⟩ | ⟨hnone, n, hfree, -⟩
  · exact ⟨-EEXIST, by decide, heq⟩
  · exact ⟨-ENOMEM, by decide, heq⟩
  · exact absurd ⟨hnone, n, (Slots.free_eq_some hfree).1⟩ h

theorem madcapRegisterDevice_admitted {net : MadcapNet Ops} {dev : NetDev} (h : net.Admits dev)
    (ops : Ops) : ∃ n, net.dev n = none ∧ net.madcapRegisterDevice dev ops =
      (0, { ops := Function.update net.ops n (some ops)
            dev := Function.update net.dev n (some dev) }) := by
  obtain ⟨hnone, m, hm⟩ := h
  rcases net.madcapRegisterDevice_cases dev ops with
    ⟨hsome, -⟩ | ⟨-, hfull, -⟩ | ⟨-, n, hfree, heq⟩
  · rw [hnone] at hsome
    cases hsome
  · exact absurd hm (Slots.free_eq_none.mp hfull m)
  · exact ⟨n, (Slots.free_eq_some hfree).1, heq⟩

end

/-- The drivers' calls: a driver registers a device with its own operations. -/
inductive Event where
  | register (dev : NetDev)
  | unregister (dev : NetDev)
  deriving DecidableEq, Repr

variable (devs : NetDev → MadcapDev)

def step (net : MadcapNet) : Event → MadcapNet
  | .register dev => (net.madcapRegisterDevice dev (devs dev).priv.ops).2
  | .unregister dev => (net.madcapUnregisterDevice dev).2

def run (es : List Event) : MadcapNet := es.foldl (step devs) madcapInitNet

/-- A slot with a device has the operations of its driver, and no device has two slots. -/
structure Ok (net : MadcapNet) : Prop where
  ops : ∀ n, net.ops n = (net.dev n).map fun dev => (devs dev).priv.ops
  unique : ∀ m n dev, net.dev m = some dev → net.dev n = some dev → m = n

variable {devs} {net : MadcapNet} {dev : NetDev} {n : Fin madcapdevPernetNum}

theorem ok_init : Ok devs madcapInitNet where
  ops n := rfl
  unique m n dev hm := by cases hm

namespace Ok

theorem slots (h : Ok devs net) : Slots.Ok net.dev net.ops where
  paired n := by rw [h.ops n, Option.isSome_map]
  unique := h.unique

theorem getMadcapOps (h : Ok devs net) (hn : net.dev n = some dev) :
    net.getMadcapOps dev = some (devs dev).priv.ops := by
  rw [getMadcapOps_eq, h.slots.lookup_eq hn, h.ops n, hn]
  rfl

theorem register (h : Ok devs net) (dev : NetDev) :
    Ok devs (net.madcapRegisterDevice dev (devs dev).priv.ops).2 := by
  rcases net.madcapRegisterDevice_cases dev (devs dev).priv.ops with
    ⟨-, heq⟩ | ⟨-, -, heq⟩ | ⟨hnone, k, -, heq⟩
  · rw [heq]
    exact h
  · rw [heq]
    exact h
  · rw [getMadcapOps_eq, h.slots.lookup_eq_none] at hnone
    rw [heq]
    refine ⟨fun n => ?_, (h.slots.put hnone k (devs dev).priv.ops).unique⟩
    by_cases hn : n = k
    · subst hn
      simp only [Function.update_self, Option.map_some]
    · simp only [Function.update_of_ne hn]
      exact h.ops n

theorem unregister (h : Ok devs net) (dev : NetDev) :
    Ok devs (net.madcapUnregisterDevice dev).2 := by
  rw [madcapUnregisterDevice_eq]
  refine ⟨fun n => ?_, (h.slots.drop dev).unique⟩
  dsimp only
  split_ifs
  · rfl
  · exact h.ops n

end Ok

/-- Whatever the drivers do, the registry stays in order. -/
theorem ok_run (devs : NetDev → MadcapDev) (es : List Event) : Ok devs (run devs es) := by
  unfold run
  induction es using List.reverseRecOn with
  | nil => exact ok_init
  | append_singleton es e ih =>
    rw [List.foldl_append]
    cases e with
    | register dev => exact ih.register dev
    | unregister dev => exact ih.unregister dev

def devices (net : MadcapNet) : List NetDev := (List.finRange madcapdevPernetNum).filterMap net.dev

theorem Ok.devices_nodup (h : Ok devs net) : net.devices.Nodup := by
  unfold devices
  apply List.Nodup.filterMap _ (List.nodup_finRange madcapdevPernetNum)
  intro m n dev hm hn
  exact h.unique m n dev hm hn

end MadcapNet

end Madcap
