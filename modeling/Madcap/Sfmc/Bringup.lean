import Madcap.Sfmc.Notifier

/-!
# Setting a device up

`sfmc_init` acquires a tree, a work queue, the switchdev operations, a slot of the registry
and the notifier, one after the other. Where one of them is refused it returns, and keeps
what it has.
-/

namespace Madcap

/-- The operations that `dev->switchdev_ops` points to. -/
inductive SwitchdevOps where
  | sfmcSwitchdevOps
  | other (id : ℕ)
  deriving DecidableEq, Repr

/-- The members of a device's `struct sfmc` that `sfmc_init` gives a value of its own. -/
structure SfmcPriv where
  fibTree : Option Ref
  sfmcWq : Option Ref
  id : Mac
  deriving DecidableEq, Repr

/-- The driver with the devices' operations and members, the trees and the work queues, which
have the names of devices. The flag of the notifier is right. -/
structure SfmcHost extends SfmcDriver where
  switchdevOps : NetDev → Option SwitchdevOps
  priv : NetDev → SfmcPriv
  trees : Heap Patricia
  wqs : Heap NetDev
  flagRight : toSfmcDriver.FlagRight

namespace SfmcHost

def setPriv (h : SfmcHost) (dev : NetDev) (f : SfmcPriv → SfmcPriv) : SfmcHost :=
  { h with priv := Function.update h.priv dev (f (h.priv dev)) }

/-- The `memset` of the members. -/
def clearPriv (h : SfmcHost) (dev : NetDev) : SfmcHost :=
  h.setPriv dev fun _ => { fibTree := none, sfmcWq := none, id := 0 }

def withTree (h : SfmcHost) (dev : NetDev) (zone : Zone) : SfmcHost :=
  { h.setPriv dev fun s => { s with fibTree := some h.trees.next } with
    trees := h.trees.alloc (Madcap.newPatricia zone 32) }

/-- `New_Patricia`, which writes to what its `kmalloc` returns. -/
def newPatricia (h : SfmcHost) (dev : NetDev) (zone : Zone) (granted : Bool) : Res SfmcHost :=
  if granted then .ok (h.withTree dev zone) else .error .badAccess

/-- `alloc_workqueue`, when there is memory. -/
def allocWorkqueue (h : SfmcHost) (dev : NetDev) : SfmcHost :=
  { h.setPriv dev fun s => { s with sfmcWq := some h.wqs.next } with wqs := h.wqs.alloc dev }

def initSwitchdev (h : SfmcHost) (dev : NetDev) (permAddr : Mac) : SfmcHost :=
  { h.setPriv dev fun s => { s with id := permAddr } with
    switchdevOps := Function.update h.switchdevOps dev (some .sfmcSwitchdevOps) }

theorem flagRight_congr {d d' : SfmcDriver} (hflag : d.FlagRight)
    (hreg : d'.neteventRegistered = d.neteventRegistered)
    (hchain : d'.neteventChain = d.neteventChain) : d'.FlagRight := by
  unfold SfmcDriver.FlagRight SfmcDriver.registrations
  rw [hreg, hchain]
  exact hflag

def registerMadcap (madcapEnable : Bool) (h : SfmcHost) (dev : NetDev) : ℤ × SfmcHost :=
  if madcapEnable then
    let (err, net) := h.net.madcapRegisterDevice dev .sfmc
    (err, { h with net := net, flagRight := flagRight_congr h.flagRight rfl rfl })
  else
    (0, h)

/-- The device is one of the driver's from here on. -/
def start (h : SfmcHost) (dev : NetDev) (p : Probe) : SfmcHost :=
  { h with
    devs := Function.update h.devs dev (some (Madcap.sfmcInit p.permAddr p.zone))
    flagRight := flagRight_congr h.flagRight rfl rfl }

theorem flagRight_register {d : SfmcDriver} (hflag : d.FlagRight)
    (hreg : d.neteventRegistered = false) : SfmcDriver.FlagRight
      { d.registerNeteventNotifier .sfmcNetevent with neteventRegistered := true } := by
  unfold SfmcDriver.FlagRight SfmcDriver.registrations at hflag ⊢
  rw [hreg] at hflag
  change (d.neteventChain ++ [NotifierBlock.sfmcNetevent]).count .sfmcNetevent = 1
  rw [List.count_append, hflag]
  rfl

/-- The notifier is registered unless it is. -/
def registerNotifier (h : SfmcHost) : SfmcHost :=
  if hreg : h.neteventRegistered = false then
    { h with
      toSfmcDriver :=
        { h.registerNeteventNotifier .sfmcNetevent with neteventRegistered := true }
      flagRight := flagRight_register h.flagRight hreg }
  else
    h

/-- `sfmc_init`, with what the allocations of the tree and the work queue return. -/
def sfmcInit (madcapEnable : Bool) (h : SfmcHost) (dev : NetDev) (p : Probe) (tree : Bool) :
    Res (ℤ × SfmcHost) := do
  let h ← (h.clearPriv dev).newPatricia dev p.zone tree
  if !p.wq then return (-ENOMEM, h)
  else
    let h := (h.allocWorkqueue dev).initSwitchdev dev p.permAddr
    let (err, h) := h.registerMadcap madcapEnable dev
    if err < 0 then return (err, h)
    else return (0, (h.start dev p).registerNotifier)

/-- What the device has once the tree is there, and what it has before madcap is asked. -/
def planted (h : SfmcHost) (dev : NetDev) (p : Probe) : SfmcHost :=
  (h.clearPriv dev).withTree dev p.zone

def equipped (h : SfmcHost) (dev : NetDev) (p : Probe) : SfmcHost :=
  ((h.planted dev p).allocWorkqueue dev).initSwitchdev dev p.permAddr

variable {madcapEnable : Bool} {h : SfmcHost} {dev : NetDev} {p : Probe}

@[simp] theorem planted_trees :
    (h.planted dev p).trees = h.trees.alloc (Madcap.newPatricia p.zone 32) := rfl

@[simp] theorem equipped_trees :
    (h.equipped dev p).trees = h.trees.alloc (Madcap.newPatricia p.zone 32) := rfl

@[simp] theorem equipped_driver : (h.equipped dev p).toSfmcDriver = h.toSfmcDriver := rfl

@[simp] theorem equipped_switchdevOps :
    (h.equipped dev p).switchdevOps dev = some .sfmcSwitchdevOps := Function.update_self ..

theorem sfmcInit_noWq (hwq : p.wq = false) :
    h.sfmcInit madcapEnable dev p true = .ok (-ENOMEM, h.planted dev p) := by
  unfold sfmcInit newPatricia
  rw [hwq]
  rfl

theorem sfmcInit_wq (hwq : p.wq = true) :
    h.sfmcInit madcapEnable dev p true =
      .ok (if ((h.equipped dev p).registerMadcap madcapEnable dev).1 < 0 then
        (h.equipped dev p).registerMadcap madcapEnable dev
      else
        (0, (((h.equipped dev p).registerMadcap madcapEnable dev).2.start dev p).registerNotifier)) := by
  unfold sfmcInit newPatricia
  rw [hwq]
  change (if ((h.equipped dev p).registerMadcap madcapEnable dev).1 < 0 then _ else _) = _
  split_ifs
  · rfl
  · rfl

theorem registerMadcap_refused (henable : madcapEnable = true) (hfull : ¬ h.net.Admits dev) :
    ∃ err < 0, h.registerMadcap madcapEnable dev = (err, h) := by
  obtain ⟨err, hneg, heq⟩ := MadcapNet.madcapRegisterDevice_refused hfull .sfmc
  refine ⟨err, hneg, ?_⟩
  unfold registerMadcap
  rw [if_pos henable, heq]

theorem registerMadcap_accepted (hroom : madcapEnable = true → h.net.Admits dev) :
    ∃ h', h.registerMadcap madcapEnable dev = (0, h') ∧ h'.switchdevOps = h.switchdevOps ∧
      (madcapEnable = true → ∃ n, h'.net.dev n = some dev ∧ h'.net.ops n = some .sfmc) := by
  unfold registerMadcap
  cases madcapEnable with
  | false => exact ⟨h, rfl, rfl, fun henable => nomatch henable⟩
  | true =>
    obtain ⟨n, -, heq⟩ := MadcapNet.madcapRegisterDevice_admitted (hroom rfl) .sfmc
    rw [if_pos rfl, heq]
    exact ⟨_, rfl, rfl, fun _ => ⟨n, Function.update_self .., Function.update_self ..⟩⟩

/-- A device that madcap refuses keeps its operations, so that routes come to it, and the chain
is as it was. -/
theorem sfmcInit_refused (hwq : p.wq = true) (henable : madcapEnable = true)
    (hfull : ¬ h.net.Admits dev) :
    ∃ err < 0, h.sfmcInit madcapEnable dev p true = .ok (err, h.equipped dev p) := by
  obtain ⟨err, hneg, heq⟩ := registerMadcap_refused (h := h.equipped dev p) henable hfull
  refine ⟨err, hneg, ?_⟩
  rw [sfmcInit_wq hwq, heq, if_pos hneg]

theorem registerNotifier_registered (h : SfmcHost) :
    h.registerNotifier.neteventRegistered = true := by
  unfold registerNotifier
  split_ifs with hreg
  · rfl
  · exact Bool.not_eq_false _ ▸ hreg

theorem registerNotifier_mem (h : SfmcHost) : .sfmcNetevent ∈ h.registerNotifier.neteventChain := by
  have hflag := h.registerNotifier.flagRight
  unfold SfmcDriver.FlagRight SfmcDriver.registrations at hflag
  rw [registerNotifier_registered, if_pos rfl] at hflag
  apply List.count_pos_iff.mp
  rw [hflag]
  exact Nat.one_pos

theorem registerNotifier_net (h : SfmcHost) : h.registerNotifier.net = h.net := by
  unfold registerNotifier
  split_ifs
  · rfl
  · rfl

theorem registerNotifier_switchdevOps (h : SfmcHost) :
    h.registerNotifier.switchdevOps = h.switchdevOps := by
  unfold registerNotifier
  split_ifs
  · rfl
  · rfl

theorem registerNotifier_driver (h : SfmcHost) : h.registerNotifier.toSfmcDriver =
    if !h.neteventRegistered then
      { h.registerNeteventNotifier .sfmcNetevent with neteventRegistered := true }
    else h.toSfmcDriver := by
  unfold registerNotifier
  by_cases hreg : h.neteventRegistered = false
  · rw [dif_pos hreg, hreg]
    rfl
  · have htrue : h.neteventRegistered = true := by simpa using hreg
    rw [dif_neg hreg, htrue]
    rfl

theorem registerMadcap_driver (madcapEnable : Bool) (h : SfmcHost) (dev : NetDev) :
    ((h.registerMadcap madcapEnable dev).1, (h.registerMadcap madcapEnable dev).2.toSfmcDriver) =
      let res := if madcapEnable then h.net.madcapRegisterDevice dev .sfmc else (0, h.net)
      (res.1, { h.toSfmcDriver with net := res.2 }) := by
  cases madcapEnable with
  | false => rfl
  | true => rfl

/-- What the driver as a whole sees of `sfmc_init`. -/
theorem sfmcInit_driver {tree : Bool} {err : ℤ} {h' : SfmcHost}
    (hok : h.sfmcInit madcapEnable dev p tree = .ok (err, h')) :
    h.toSfmcDriver.sfmcInit madcapEnable dev p = (err, h'.toSfmcDriver) := by
  cases tree with
  | false => cases hok
  | true =>
    unfold SfmcDriver.sfmcInit
    cases hwq : p.wq with
    | false =>
      rw [sfmcInit_noWq hwq] at hok
      obtain ⟨rfl, rfl⟩ := ok_pair_inj hok
      rfl
    | true =>
      have hmadcap := registerMadcap_driver madcapEnable (h.equipped dev p) dev
      rw [sfmcInit_wq hwq] at hok
      rw [equipped_driver] at hmadcap
      generalize (h.equipped dev p).registerMadcap madcapEnable dev = res at hok hmadcap
      generalize (if madcapEnable = true then h.net.madcapRegisterDevice dev .sfmc else (0, h.net)) =
        res' at hmadcap ⊢
      obtain ⟨code, host⟩ := res
      obtain ⟨code', net⟩ := res'
      obtain ⟨rfl, hdriver⟩ := Prod.mk.inj hmadcap
      dsimp only at hok hdriver ⊢
      rw [Bool.not_true, if_neg Bool.false_ne_true]
      by_cases hneg : code < 0
      · rw [if_pos hneg] at hok ⊢
        obtain ⟨rfl, rfl⟩ := ok_pair_inj hok
        rw [hdriver]
      · rw [if_neg hneg] at hok ⊢
        obtain ⟨rfl, rfl⟩ := ok_pair_inj hok
        have hstart : (host.start dev p).toSfmcDriver = { h.toSfmcDriver with
            net := net
            devs := Function.update h.devs dev (some (Madcap.sfmcInit p.permAddr p.zone)) } := by
          change { host.toSfmcDriver with
            devs := Function.update host.devs dev (some (Madcap.sfmcInit p.permAddr p.zone)) } = _
          rw [hdriver]
        rw [registerNotifier_driver, hstart]
        split_ifs
        · rfl
        · rfl

/-- The operations are as before, and what is allocated was allocated before. -/
structure Undone (before after : SfmcHost) (dev : NetDev) : Prop where
  switchdevOps : after.switchdevOps dev = before.switchdevOps dev
  trees : ∀ r, (after.trees.cells r).isSome = true → (before.trees.cells r).isSome = true
  wqs : ∀ r, (after.wqs.cells r).isSome = true → (before.wqs.cells r).isSome = true

/-- The device is registered with madcap and has the operations, and the notifier is on the
chain. -/
structure SetUp (madcapEnable : Bool) (h : SfmcHost) (dev : NetDev) : Prop where
  registered : madcapEnable = true → ∃ n, h.net.dev n = some dev ∧ h.net.ops n = some .sfmc
  switchdevOps : h.switchdevOps dev = some .sfmcSwitchdevOps
  notifier : .sfmcNetevent ∈ h.neteventChain

/-- Whatever `sfmc_init` returns, it has done all of it or nothing. -/
def AllOrNothing (madcapEnable : Bool) (h : SfmcHost) (dev : NetDev) (p : Probe) (tree : Bool) :
    Prop :=
  ∀ err h', h.sfmcInit madcapEnable dev p tree = .ok (err, h') →
    (err < 0 → Undone h h' dev) ∧ (err = 0 → SetUp madcapEnable h' dev)

/-- The tree of the call is not taken back. -/
theorem not_undone_of_trees {h' : SfmcHost} {t : Patricia} (htrees : h'.trees = h.trees.alloc t) :
    ¬ Undone h h' dev := by
  intro hundone
  have hnew : ((h.trees.alloc t).cells h.trees.next).isSome = true := by
    rw [Heap.alloc_cells, if_pos rfl]
    rfl
  have hold := hundone.trees h.trees.next (htrees ▸ hnew)
  rw [Heap.cells_next] at hold
  cases hold

/-- Whatever the registry, `sfmc_init` does all or nothing if and only if, unless the tree is
refused and the call faults, there is a work queue for it and madcap, when it is enabled, takes
the device. -/
theorem init_all_or_nothing_iff (madcapEnable : Bool) (h : SfmcHost) (dev : NetDev) (p : Probe)
    (tree : Bool) : AllOrNothing madcapEnable h dev p tree ↔
      (tree = true → p.wq = true ∧ (madcapEnable = true → h.net.Admits dev)) := by
  unfold AllOrNothing
  cases tree with
  | false => exact iff_of_true (fun err h' hok => nomatch hok) fun htree => nomatch htree
  | true =>
    cases hwq : p.wq with
    | false =>
      refine iff_of_false (fun hall => ?_) fun hcond => nomatch (hcond rfl).1
      have hundone := (hall (-ENOMEM) _ (sfmcInit_noWq hwq)).1 (by decide)
      exact not_undone_of_trees planted_trees hundone
    | true =>
      by_cases hroom : madcapEnable = true → h.net.Admits dev
      · refine iff_of_true (fun err h' hok => ?_) fun _ => ⟨rfl, hroom⟩
        rw [sfmcInit_wq hwq] at hok
        obtain ⟨h'', heq, hops, hslot⟩ := registerMadcap_accepted (h := h.equipped dev p) hroom
        rw [heq, if_neg (lt_irrefl 0)] at hok
        obtain ⟨rfl, rfl⟩ := ok_pair_inj hok
        refine ⟨fun hneg => absurd hneg (lt_irrefl 0), fun _ => ⟨?_, ?_, registerNotifier_mem _⟩⟩
        · rw [registerNotifier_net]
          exact hslot
        · rw [registerNotifier_switchdevOps]
          exact (congrFun hops dev).trans equipped_switchdevOps
      · obtain ⟨henable, hfull⟩ := not_forall.mp hroom
        obtain ⟨err, hneg, heq⟩ := sfmcInit_refused hwq henable hfull
        refine iff_of_false (fun hall => ?_) fun hcond => hroom (hcond rfl).2
        exact not_undone_of_trees equipped_trees ((hall err _ heq).1 hneg)

/-- The host when the module is loaded, with other modules on the chain and a registry that is
in use. -/
def load (others : List ℕ) (net : MadcapNet) : SfmcHost where
  toSfmcDriver := { SfmcDriver.load others with net := net }
  switchdevOps := fun _ => none
  priv := fun _ => { fibTree := none, sfmcWq := none, id := 0 }
  trees := Heap.empty
  wqs := Heap.empty
  flagRight := flagRight_congr (SfmcDriver.flagRight_load others) rfl rfl

/-- With sixteen devices in the registry the next one is refused, and keeps the operations. -/
theorem refused_device_keeps_ops : ¬ ∀ (madcapEnable : Bool) (others : List ℕ)
    (es : List MadcapNet.Event) (dev : NetDev) (p : Probe) (tree : Bool), AllOrNothing madcapEnable
      (load others (MadcapNet.run (fun _ => freshSfmc) es)) dev p tree := by
  intro h
  let net := MadcapNet.run (fun _ => freshSfmc) ((List.range 16).map .register)
  have hfull : ¬ net.Admits 16 := by
    rintro ⟨-, n, hn⟩
    revert n
    decide
  obtain ⟨err, hneg, heq⟩ := sfmcInit_refused (h := load [] net) (p := SfmcDriver.goodProbe) rfl
    rfl hfull
  have hundone := (h true [] _ 16 SfmcDriver.goodProbe true err _ heq).1 hneg
  cases equipped_switchdevOps.symm.trans hundone.switchdevOps

end SfmcHost

end Madcap
