import Madcap.Protocol.NshRecord

/-!
# The devices of a namespace

A device is named by its ifindex in requests and records, and the driver goes by its address.
No two devices have one ifindex, so a name that is recorded leads back to the device.
-/

namespace Madcap

namespace NshWorld

section

variable {env : NshEnv} {w w' : NshWorld} {a : NshAttrs} {mem : NshMem}

theorem DstSet.netdevs {res : ℤ × NshWorld} (h : DstSet env w a mem res) :
    res.2.netdevs = w.netdevs := by
  cases h with
  | refused => rfl
  | leaked => rfl
  | stored m n =>
    dsimp only
    unfold withEntry
    split <;> rfl

theorem nshChangeMtuForPath_keeps {P : NshWorld → Prop} {dev : NetDev} (hw : P w)
    (hmtu : ∀ newMtu, P (w.ethChangeMtu dev newMtu).2) (nt : NshTable) :
    Ensures (fun _ => True) (w.nshChangeMtuForPath dev nt) P := by
  unfold NshWorld.nshChangeMtuForPath
  generalize (if nt.mdtype = NSH_BASE_MDTYPE1 then (NSH_MDTYPE1_HLEN : ℤ) else NSH_MDTYPE2_0_HLEN) =
    hlen
  dsimp only
  split_ifs
  · exact hmtu _
  · split
    · trivial
    · split
      · trivial
      · exact hmtu _
  · exact hw

/-- What looks neither at an MTU nor at the keys of devices is kept when a device is put on a
path. -/
theorem nshNlCmdDevPathSet_keeps {P : NshWorld → Prop}
    (hmtu : ∀ w dev newMtu, P w → P (NshWorld.ethChangeMtu w dev newMtu).2)
    (hkey : ∀ (w : NshWorld) (nnet : NshNet), nnet.nshTable = w.nnet.nshTable → P w →
      P { w with nnet := nnet }) (hw : P w) (a : NshAttrs) :
    Ensures (fun _ => True) (w.nshNlCmdDevPathSet env a) fun res => P res.2 := by
  unfold nshNlCmdDevPathSet
  split
  · dsimp only
    split
    · exact hw
    · next dev hdev =>
      split
      · exact hw
      · split
        · next nt _ =>
          apply (nshChangeMtuForPath_keeps hw (fun newMtu => hmtu w dev.dev newMtu hw) nt).bind
          exact fun w₁ hw₁ => hkey w₁ _ rfl hw₁
        · exact hkey w _ rfl hw
  · exact hw

/-- No two devices have one ifindex. -/
def Indexed (w : NshWorld) : Prop := (w.netdevs.map NetDevice.ifindex).Nodup

theorem Indexed.registerNetdevice (h : w.Indexed) (d : NetDevice) (err : ℤ) :
    (w.registerNetdevice d err).2.Indexed := by
  unfold NshWorld.registerNetdevice
  split_ifs with herr hbusy
  · exact h
  · exact h
  · have hnew : d.ifindex ∉ w.netdevs.map NetDevice.ifindex := by
      intro hmem
      obtain ⟨e, he, heq⟩ := List.mem_map.mp hmem
      apply hbusy
      unfold devGetByIndex
      rw [List.find?_isSome]
      exact ⟨e, he, decide_eq_true heq⟩
    unfold Indexed
    dsimp only
    rw [List.map_append, List.map_singleton]
    refine List.nodup_append.mpr ⟨h, List.nodup_singleton _, fun i hi j hj heq => hnew ?_⟩
    rw [← List.mem_singleton.mp hj, ← heq]
    exact hi

theorem Indexed.unregisterNetdevice (h : w.Indexed) (dev : NetDev) :
    (w.unregisterNetdevice dev).Indexed :=
  List.Nodup.sublist (List.filter_sublist.map _) h

theorem Indexed.ethChangeMtu (h : w.Indexed) (dev : NetDev) (newMtu : ℤ) :
    (w.ethChangeMtu dev newMtu).2.Indexed := by
  unfold NshWorld.ethChangeMtu
  split_ifs
  · exact h
  · unfold Indexed
    dsimp only
    rw [List.map_map]
    have hsame : (NetDevice.ifindex ∘ fun d => if d.dev = dev then { d with mtu := newMtu } else d) =
        NetDevice.ifindex := by
      funext d
      rw [Function.comp_apply]
      split <;> rfl
    rw [hsame]
    exact h

theorem Indexed.nshNewlink (h : w.Indexed) (dev : NetDev) (ifindex : U32) (spi : Option U32)
    (si : Option U8) (err : ℤ) : (w.nshNewlink dev ifindex spi si err).2.Indexed := by
  have hreg (key : U32) := Indexed.registerNetdevice (w := { w with nnet := { w.nnet with
    devKey := Function.update w.nnet.devKey dev key } }) h
    { dev := dev, ifindex := ifindex, nsh := true, mtu := DEFAULT_MTU } err
  unfold NshWorld.nshNewlink
  dsimp only
  split
  · split <;> exact hreg _
  · split <;> exact hreg _

theorem Indexed.step (h : w.Indexed) (e : Event) :
    Ensures (fun _ => True) (w.step env e) fun res => res.2.Indexed := by
  unfold NshWorld.step
  cases e with
  | newlink dev ifindex spi si err =>
    dsimp only
    rw [ensures_pure]
    split
    · exact h
    · exact h.nshNewlink dev ifindex spi si err
  | dellink dev =>
    dsimp only
    rw [ensures_pure]
    split
    · exact Indexed.unregisterNetdevice (w := { w.nshSweep fun nt => nt.rdev = some dev with
        devList := w.devList.erase dev }) h dev
    · exact h
  | pathDstSet a mem =>
    dsimp only
    rw [ensures_pure, Indexed, (nshNlCmdPathDstSet_ends env w a mem).netdevs]
    exact h
  | pathDstUnset a =>
    dsimp only
    rw [ensures_pure]
    unfold nshNlCmdPathDstUnset
    split
    · split
      · exact h
      · exact h
    · exact h
  | devPathSet a =>
    exact nshNlCmdDevPathSet_keeps (fun _ dev newMtu hw => hw.ethChangeMtu dev newMtu)
      (fun _ _ _ hw => hw) h a
  | devPathUnset a =>
    dsimp only
    rw [ensures_pure]
    unfold nshNlCmdDevPathUnset
    split
    · exact h
    · split
      · exact h
      · split <;> exact h
  | lowerRegister dev ifindex mtu priv =>
    dsimp only
    rw [ensures_pure]
    split
    · exact h
    · have hreg := h.registerNetdevice { dev := dev, ifindex := ifindex, nsh := false, mtu := mtu } 0
      unfold NshWorld.lowerRegister
      dsimp only
      split
      · exact hreg
      · exact hreg
  | lowerUnregister dev =>
    dsimp only
    rw [ensures_pure]
    split
    · exact h.unregisterNetdevice dev
    · exact h

theorem Indexed.devGetByIndex (h : w.Indexed) {d : NetDevice} (hd : d ∈ w.netdevs) :
    w.devGetByIndex d.ifindex = some d := by
  unfold NshWorld.devGetByIndex
  cases he : w.netdevs.find? fun e => e.ifindex = d.ifindex with
  | none => exact absurd (decide_eq_true rfl) (List.find?_eq_none.mp he d hd)
  | some e =>
    have hindex : e.ifindex = d.ifindex := by simpa using List.find?_some he
    exact congrArg some (List.inj_on_of_nodup_map h (List.mem_of_find?_eq_some he) hd hindex)

theorem Indexed.of_kind (h : w.Indexed) (hinv : w.Inv env) {dev : NetDev} {nsh : Bool}
    (hkind : (dev, nsh) ∈ w.kinds) : ∃ ifindex d, w.ifindexAt dev = .ok ifindex ∧
      w.devGetByIndex ifindex = some d ∧ d.nsh = nsh := by
  obtain ⟨d, hd, hsame⟩ := List.mem_map.mp hkind
  obtain ⟨rfl, rfl⟩ := Prod.mk.inj hsame
  refine ⟨d.ifindex, d, ?_, h.devGetByIndex hd, rfl⟩
  exact hinv.ifindexAt rfl (h.devGetByIndex hd)

/-- What is known of a device besides its MTU. -/
def identity (d : NetDevice) : NetDev × U32 × Bool := (d.dev, d.ifindex, d.nsh)

/-- Two namespaces have the same devices. -/
def SameDevices (w' w : NshWorld) : Prop := w'.netdevs.map identity = w.netdevs.map identity

theorem SameDevices.of_netdevs (h : w'.netdevs = w.netdevs) : w'.SameDevices w := by
  unfold SameDevices
  rw [h]

theorem SameDevices.find (h : w'.SameDevices w) (p : NetDev × U32 × Bool → Bool) :
    (w'.netdevs.find? (p ∘ identity)).map identity = (w.netdevs.find? (p ∘ identity)).map identity := by
  rw [← List.find?_map, ← List.find?_map, h]

theorem SameDevices.found (h : w'.SameDevices w) {ifindex : U32} {d : NetDevice}
    (hd : w.devGetByIndex ifindex = some d) :
    ∃ d', w'.devGetByIndex ifindex = some d' ∧ d'.dev = d.dev ∧ d'.nsh = d.nsh := by
  have hsame : (w'.devGetByIndex ifindex).map identity = (w.devGetByIndex ifindex).map identity :=
    h.find fun k => k.2.1 = ifindex
  rw [hd] at hsame
  obtain ⟨d', hd', hidentity⟩ := Option.map_eq_some_iff.mp hsame
  exact ⟨d', hd', congrArg Prod.fst hidentity, congrArg (fun k => k.2.2) hidentity⟩

theorem SameDevices.devGetByIndex (h : w'.SameDevices w) {ifindex : U32} {d : NetDevice}
    (hd : w.devGetByIndex ifindex = some d) :
    ∃ d', w'.devGetByIndex ifindex = some d' ∧ d'.nsh = d.nsh := by
  obtain ⟨d', hd', -, hkind⟩ := h.found hd
  exact ⟨d', hd', hkind⟩

theorem SameDevices.ifindexAt (h : w'.SameDevices w) : w'.ifindexAt = w.ifindexAt := by
  funext dev
  have hsame : (w'.netdevs.find? fun d => d.dev = dev).map identity =
      (w.netdevs.find? fun d => d.dev = dev).map identity := h.find fun k => k.1 = dev
  unfold NshWorld.ifindexAt
  cases hd : w.netdevs.find? fun d => d.dev = dev with
  | none =>
    rw [hd] at hsame
    rw [Option.map_eq_none_iff.mp hsame]
  | some d =>
    rw [hd] at hsame
    obtain ⟨d', hd', hidentity⟩ := Option.map_eq_some_iff.mp hsame
    rw [hd']
    exact congrArg (fun k => Except.ok k.2.1) hidentity

theorem ethChangeMtu_same (dev : NetDev) (newMtu : ℤ) : (w.ethChangeMtu dev newMtu).2.SameDevices w := by
  unfold NshWorld.ethChangeMtu SameDevices
  split
  · rfl
  · dsimp only
    rw [List.map_map]
    apply List.map_congr_left
    intro d _
    rw [Function.comp_apply]
    split <;> rfl

/-- A request for a device that is there puts it on the path that is named, and changes no other
device. -/
theorem nshNlCmdDevPathSet_key {ifindex spi : U32} {si : U8} {d : NetDevice}
    (hifindex : a.ifindex = some ifindex) (hspi : a.spi = some spi) (hsi : a.si = some si)
    (hd : w.devGetByIndex ifindex = some d) (hnsh : d.nsh = true) :
    Ensures (fun _ => True) (w.nshNlCmdDevPathSet env a) fun res =>
      res.1 = 0 ∧ res.2.nnet.devKey = Function.update w.nnet.devKey d.dev (nshKey spi si) ∧
        res.2.SameDevices w := by
  unfold nshNlCmdDevPathSet
  rw [hifindex, hspi, hsi]
  dsimp only
  rw [hd]
  dsimp only
  rw [if_neg (by simp [hnsh])]
  split
  · next nt _ =>
    have hmtu (newMtu : ℤ) : (w.ethChangeMtu d.dev newMtu).2.nnet.devKey = w.nnet.devKey ∧
        (w.ethChangeMtu d.dev newMtu).2.SameDevices w := by
      refine ⟨?_, ethChangeMtu_same d.dev newMtu⟩
      unfold NshWorld.ethChangeMtu
      split <;> rfl
    have hkeeps : Ensures (fun _ => True) (w.nshChangeMtuForPath d.dev nt) fun w₁ =>
        w₁.nnet.devKey = w.nnet.devKey ∧ w₁.SameDevices w :=
      nshChangeMtuForPath_keeps ⟨rfl, rfl⟩ hmtu nt
    apply hkeeps.bind
    rintro w₁ ⟨hkey, hsame⟩
    refine ⟨rfl, ?_, hsame⟩
    rw [← hkey]
  · exact ⟨rfl, rfl, rfl⟩

end

end NshWorld

end Madcap
