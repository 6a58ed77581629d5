import Madcap.Core.Registry

/-!
# Raven links

`raven_newlink` makes three registrations one after the other: with the kernel, on the
driver's list and with madcap. The third can be refused, for the registry is shared with
other drivers.
-/

namespace Madcap

/-- A namespace: its network devices with their indexes, the `dev_list` of `struct raven_net`,
the state of the raven devices with the physical devices they are bound to, and the registry
of madcap devices. -/
structure RavenNet where
  netdevs : List NetDev
  ifindex : NetDev → U32
  devList : List NetDev
  priv : NetDev → RavenDev
  pdev : NetDev → Option NetDev
  madnet : MadcapNet

/-- What `register_netdevice` meets: whether there is memory for the statistics of the device,
the index it gets, and what comes of the rest. -/
structure RegisterIo where
  tstats : Bool
  ifindex : U32
  err : ℤ

def ravenInit (tstats : Bool) : ℤ := if tstats then 0 else -ENOMEM

/-- The result of `register_netdevice`, which calls `ndo_init`. -/
def RegisterIo.code (io : RegisterIo) : ℤ :=
  if ravenInit io.tstats ≠ 0 then ravenInit io.tstats else io.err

namespace RavenNet

def ravenInitNet : RavenNet where
  netdevs := []
  ifindex := fun _ => 0
  devList := []
  priv := fun _ => ravenSetup
  pdev := fun _ => none
  madnet := madcapInitNet

def devGetByIndex (net : RavenNet) (ifindex : U32) : Option NetDev :=
  net.netdevs.find? fun dev => net.ifindex dev = ifindex

/-- `register_netdevice`. A device that it fails for is not registered. -/
def registerNetdevice (net : RavenNet) (dev : NetDev) (io : RegisterIo) : ℤ × RavenNet :=
  if io.code ≠ 0 then (io.code, net)
  else
    (0, { net with
      netdevs := net.netdevs ++ [dev]
      ifindex := Function.update net.ifindex dev io.ifindex })

def unregisterNetdevice (net : RavenNet) (dev : NetDev) : RavenNet :=
  { net with netdevs := net.netdevs.filter fun d => d ≠ dev }

/-- `raven_setup` of a device, which is then bound to the physical device that is asked for,
if there is one. -/
def bound (net : RavenNet) (dev : NetDev) (physical : Option U32) : RavenNet :=
  { net with
    priv := Function.update net.priv dev ravenSetup
    pdev := Function.update net.pdev dev (physical.bind net.devGetByIndex) }

/-- `raven_newlink`, with the attribute of the request and what comes of `register_netdevice`. -/
def ravenNewlink (net : RavenNet) (dev : NetDev) (physical : Option U32) (io : RegisterIo) :
    ℤ × RavenNet :=
  let net := net.bound dev physical
  let (err, net) := net.registerNetdevice dev io
  if err ≠ 0 then (err, net)
  else
    let net := { net with devList := net.devList ++ [dev] }
    let (err, madnet) := net.madnet.madcapRegisterDevice dev .raven
    let net := { net with madnet := madnet }
    if err < 0 then (err, net) else (0, net)

/-- `raven_dellink` with the unregistration it asks for. -/
def ravenDellink (net : RavenNet) (dev : NetDev) : RavenNet :=
  let net := { net with
    priv := Function.update net.priv dev (net.priv dev).ravenTableDestroy
    devList := net.devList.erase dev
    madnet := (net.madnet.madcapUnregisterDevice dev).2 }
  net.unregisterNetdevice dev

variable {net : RavenNet} {dev : NetDev} {io : RegisterIo}

/-- The namespace with the device registered with the kernel and on the list, and the registry
as madcap leaves it. -/
def listed (net : RavenNet) (dev : NetDev) (physical : Option U32) (io : RegisterIo) : RavenNet :=
  { net.bound dev physical with
    netdevs := net.netdevs ++ [dev]
    ifindex := Function.update net.ifindex dev io.ifindex
    devList := net.devList ++ [dev]
    madnet := (net.madnet.madcapRegisterDevice dev .raven).2 }

@[simp] theorem bound_madnet (physical : Option U32) :
    (net.bound dev physical).madnet = net.madnet := rfl

theorem ravenNewlink_unregistered (physical : Option U32) (h : io.code ≠ 0) :
    net.ravenNewlink dev physical io = (io.code, net.bound dev physical) := by
  unfold ravenNewlink registerNetdevice
  dsimp only
  rw [if_pos h]
  dsimp only
  rw [if_pos h]

theorem ravenNewlink_registered (physical : Option U32) (h : io.code = 0) :
    net.ravenNewlink dev physical io =
      ((net.madnet.madcapRegisterDevice dev .raven).1, net.listed dev physical io) := by
  unfold ravenNewlink registerNetdevice
  dsimp only
  rw [if_neg (not_not.mpr h)]
  dsimp only
  rw [if_neg (not_not.mpr rfl), bound_madnet]
  by_cases hroom : net.madnet.Admits dev
  · obtain ⟨n, -, heq⟩ := MadcapNet.madcapRegisterDevice_admitted hroom .raven
    unfold listed
    rw [heq, if_neg (lt_irrefl 0)]
    rfl
  · obtain ⟨err, hneg, heq⟩ := MadcapNet.madcapRegisterDevice_refused hroom .raven
    unfold listed
    rw [heq, if_pos hneg]
    rfl

/-- Of the three registrations of the device, none is there because of the call. The core of
rtnetlink only frees the memory of a device that was never registered. -/
structure NothingLeft (before after : RavenNet) (dev : NetDev) : Prop where
  netdevs : dev ∈ after.netdevs → dev ∈ before.netdevs
  devList : dev ∉ after.devList
  madnet : ∀ n, after.madnet.dev n ≠ some dev

/-- When the call fails it has undone what it did. -/
def Undoes (net : RavenNet) (dev : NetDev) (physical : Option U32) (io : RegisterIo) : Prop :=
  (net.ravenNewlink dev physical io).1 < 0 →
    NothingLeft net (net.ravenNewlink dev physical io).2 dev

theorem undoes_iff (net : RavenNet) (dev : NetDev) (physical : Option U32) (io : RegisterIo) :
    net.Undoes dev physical io ↔ (io.code = 0 → net.madnet.Admits dev) ∧
      (io.code < 0 → dev ∉ net.devList ∧ ∀ n, net.madnet.dev n ≠ some dev) := by
  unfold Undoes
  by_cases hcode : io.code = 0
  · rw [ravenNewlink_registered physical hcode, hcode]
    by_cases hroom : net.madnet.Admits dev
    · obtain ⟨n, -, heq⟩ := MadcapNet.madcapRegisterDevice_admitted hroom .raven
      rw [heq]
      exact iff_of_true (fun hneg => absurd hneg (lt_irrefl 0))
        ⟨fun _ => hroom, fun hneg => absurd hneg (lt_irrefl 0)⟩
    · obtain ⟨err, hneg, heq⟩ := MadcapNet.madcapRegisterDevice_refused hroom .raven
      rw [heq]
      refine iff_of_false (fun hundone => ?_) fun hall => hroom (hall.1 rfl)
      exact (hundone hneg).devList (List.mem_append_right _ (List.mem_singleton_self dev))
  · rw [ravenNewlink_unregistered physical hcode]
    constructor
    · intro hundone
      exact ⟨fun hzero => absurd hzero hcode, fun hneg => ⟨(hundone hneg).devList,
        (hundone hneg).madnet⟩⟩
    · rintro ⟨-, hnew⟩ hneg
      exact ⟨id, (hnew hneg).1, (hnew hneg).2⟩

/-- What happens in a namespace: links of this driver come and go, and so do the devices of
the drivers below it. -/
inductive LinkEvent where
  | newlink (dev : NetDev) (physical : Option U32) (io : RegisterIo)
  | dellink (dev : NetDev)
  | lowerRegister (dev : NetDev) (io : RegisterIo)
  | lowerUnregister (dev : NetDev)

/-- A device of another driver comes, which does not look at what madcap says. -/
def lowerRegister (net : RavenNet) (dev : NetDev) (io : RegisterIo) : ℤ × RavenNet :=
  let (err, net) := net.registerNetdevice dev io
  if err ≠ 0 then (err, net)
  else (0, { net with madnet := (net.madnet.madcapRegisterDevice dev .sfmc).2 })

def lowerUnregister (net : RavenNet) (dev : NetDev) : RavenNet :=
  { net.unregisterNetdevice dev with madnet := (net.madnet.madcapUnregisterDevice dev).2 }

/-- The core hands over new devices, and removes a device through its own driver. -/
def step (net : RavenNet) : LinkEvent → ℤ × RavenNet
  | .newlink dev physical io =>
    if dev ∈ net.netdevs then (-EEXIST, net) else net.ravenNewlink dev physical io
  | .dellink dev => if dev ∈ net.devList then (0, net.ravenDellink dev) else (-ENOENT, net)
  | .lowerRegister dev io =>
    if dev ∈ net.netdevs then (-EEXIST, net) else net.lowerRegister dev io
  | .lowerUnregister dev =>
    if dev ∈ net.devList then (-ENOENT, net) else (0, net.lowerUnregister dev)

/-- The list and the registry have registered devices only. -/
structure Inv (net : RavenNet) : Prop where
  devList : ∀ dev ∈ net.devList, dev ∈ net.netdevs
  madnet : ∀ n dev, net.madnet.dev n = some dev → dev ∈ net.netdevs
  nodup : net.devList.Nodup

theorem inv_init : ravenInitNet.Inv where
  devList _ hdev := by cases hdev
  madnet _ _ hdev := by cases hdev
  nodup := List.nodup_nil

theorem Inv.new (h : net.Inv) (hdev : dev ∉ net.netdevs) :
    dev ∉ net.devList ∧ ∀ n, net.madnet.dev n ≠ some dev :=
  ⟨fun hlist => hdev (h.devList dev hlist), fun n hn => hdev (h.madnet n dev hn)⟩

theorem Inv.admits_iff (h : net.Inv) (hdev : dev ∉ net.netdevs) :
    net.madnet.Admits dev ↔ ∃ n, net.madnet.dev n = none := by
  have hnone : net.madnet.getMadcapOps dev = none := by
    rw [MadcapNet.getMadcapOps_eq, Slots.lookup, Slots.slotOf_eq_none.mpr (h.new hdev).2]
    rfl
  exact and_iff_right hnone

/-- The slot that a registration fills has a device of the namespace. -/
theorem Inv.registered (h : net.Inv) (dev : NetDev) (ops : MadcapOps)
    (n : Fin madcapdevPernetNum) (d : NetDev)
    (hd : (net.madnet.madcapRegisterDevice dev ops).2.dev n = some d) :
    d ∈ net.netdevs ++ [dev] := by
  by_cases hroom : net.madnet.Admits dev
  · obtain ⟨m, -, heq⟩ := MadcapNet.madcapRegisterDevice_admitted hroom ops
    rw [heq] at hd
    dsimp only at hd
    by_cases hnm : n = m
    · rw [hnm, Function.update_self] at hd
      exact List.mem_append_right _ (Option.some.inj hd ▸ List.mem_singleton_self dev)
    · rw [Function.update_of_ne hnm] at hd
      exact List.mem_append_left _ (h.madnet n d hd)
  · obtain ⟨err, -, heq⟩ := MadcapNet.madcapRegisterDevice_refused hroom ops
    rw [heq] at hd
    exact List.mem_append_left _ (h.madnet n d hd)

theorem Inv.listed (h : net.Inv) (hdev : dev ∉ net.netdevs) (physical : Option U32)
    (io : RegisterIo) : (net.listed dev physical io).Inv where
  devList d hd := by
    rcases List.mem_append.mp hd with hd | hd
    · exact List.mem_append_left _ (h.devList d hd)
    · exact List.mem_append_right _ hd
  madnet := h.registered dev .raven
  nodup := List.nodup_append_comm.mp (List.nodup_cons.mpr ⟨(h.new hdev).1, h.nodup⟩)

theorem Inv.newlink (h : net.Inv) (hdev : dev ∉ net.netdevs) (physical : Option U32)
    (io : RegisterIo) : (net.ravenNewlink dev physical io).2.Inv := by
  by_cases hcode : io.code = 0
  · rw [ravenNewlink_registered physical hcode]
    exact h.listed hdev physical io
  · rw [ravenNewlink_unregistered physical hcode]
    exact ⟨h.devList, h.madnet, h.nodup⟩

theorem Inv.unregistered (h : net.Inv) {n : Fin madcapdevPernetNum} {d : NetDev}
    (hd : (net.madnet.madcapUnregisterDevice dev).2.dev n = some d) :
    d ∈ net.netdevs.filter fun d => d ≠ dev := by
  rw [MadcapNet.madcapUnregisterDevice_eq] at hd
  dsimp only at hd
  split_ifs at hd with hn
  refine List.mem_filter.mpr ⟨h.madnet n d hd, decide_eq_true fun hne => hn ?_⟩
  rw [hd, hne]

theorem Inv.dellink (h : net.Inv) (dev : NetDev) : (net.ravenDellink dev).Inv where
  devList d hd := by
    have hmem := (h.nodup.mem_erase_iff).mp hd
    exact List.mem_filter.mpr ⟨h.devList d hmem.2, decide_eq_true hmem.1⟩
  madnet _ _ hd := h.unregistered hd
  nodup := h.nodup.erase dev

theorem Inv.lowerRegister (h : net.Inv) (dev : NetDev) (io : RegisterIo) :
    (net.lowerRegister dev io).2.Inv := by
  unfold RavenNet.lowerRegister registerNetdevice
  by_cases hcode : io.code = 0
  · rw [if_neg (not_not.mpr hcode)]
    exact ⟨fun d hd => List.mem_append_left _ (h.devList d hd), h.registered dev .sfmc, h.nodup⟩
  · rw [if_pos hcode]
    dsimp only
    rw [if_pos hcode]
    exact h

theorem Inv.lowerUnregister (h : net.Inv) (hdev : dev ∉ net.devList) :
    (net.lowerUnregister dev).Inv where
  devList d hd := by
    refine List.mem_filter.mpr ⟨h.devList d hd, decide_eq_true fun hne => hdev ?_⟩
    exact hne ▸ hd
  madnet _ _ hd := h.unregistered hd
  nodup := h.nodup

theorem Inv.step (h : net.Inv) (e : LinkEvent) : (net.step e).2.Inv := by
  cases e with
  | newlink dev physical io =>
    simp only [RavenNet.step]
    split_ifs with hdev
    · exact h
    · exact h.newlink hdev physical io
  | dellink dev =>
    simp only [RavenNet.step]
    split_ifs with hdev
    · exact h.dellink dev
    · exact h
  | lowerRegister dev io =>
    simp only [RavenNet.step]
    split_ifs with hdev
    · exact h
    · exact h.lowerRegister dev io
  | lowerUnregister dev =>
    simp only [RavenNet.step]
    split_ifs with hdev
    · exact h
    · exact h.lowerUnregister hdev

/-- A creation that fails leaves nothing behind. -/
def UndoesAt (net : RavenNet) : LinkEvent → Prop
  | .newlink dev physical io => dev ∉ net.netdevs → net.Undoes dev physical io
  | _ => True

/-- A device that the kernel registers finds a free slot. -/
def FindsSlot (net : RavenNet) : LinkEvent → Prop
  | .newlink dev _ io => dev ∉ net.netdevs → io.code = 0 → ∃ n, net.madnet.dev n = none
  | _ => True

theorem Inv.undoesAt_iff (h : net.Inv) (e : LinkEvent) : net.UndoesAt e ↔ net.FindsSlot e := by
  cases e with
  | newlink dev physical io =>
    refine imp_congr_right fun hdev => (undoes_iff net dev physical io).trans ?_
    rw [h.admits_iff hdev]
    exact and_iff_left fun _ => h.new hdev
  | _ => exact Iff.rfl

/-- In every namespace, a creation that fails leaves nothing behind if and only if the registry
would take the device when the kernel does, and when the kernel does not, the device was not on
the list or in the registry before. Along every run of links and of other drivers' devices that
means that every device the kernel registers finds a free slot. -/
theorem newlink_undone_iff (net : RavenNet) (dev : NetDev) (physical : Option U32)
    (io : RegisterIo) (es : List LinkEvent) :
    (net.Undoes dev physical io ↔ (io.code = 0 → net.madnet.Admits dev) ∧
      (io.code < 0 → dev ∉ net.devList ∧ ∀ n, net.madnet.dev n ≠ some dev)) ∧
    (Each step UndoesAt ravenInitNet es ↔ Each step FindsSlot ravenInitNet es) :=
  ⟨undoes_iff net dev physical io,
    each_congr (fun (net : RavenNet) e (h : net.Inv) => h.undoesAt_iff e)
      (fun (net : RavenNet) e (h : net.Inv) _ => h.step e) inv_init es⟩

/-- With sixteen devices of another driver in the registry, a link is refused and stays on the
list. -/
theorem refused_link_stays : ¬ ∀ (es : List LinkEvent) (dev : NetDev) (physical : Option U32)
    (io : RegisterIo), dev ∉ (answers step ravenInitNet es).2.netdevs →
      (answers step ravenInitNet es).2.Undoes dev physical io := by
  intro h
  let io : RegisterIo := { tstats := true, ifindex := 0, err := 0 }
  have hundone := h ((List.range 16).map fun dev => .lowerRegister dev io) 16 none io (by decide)
  have hlist := (hundone (by decide)).devList
  exact absurd hlist (by decide)

end RavenNet

end Madcap
