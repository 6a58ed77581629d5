import Madcap.Protocol.Acquisition
import Madcap.Protocol.NshTargets

/-!
# Setting up the offload of nsh devices

A madcap device only encapsulates for the devices that have acquired it. The nsh driver
acquires the lower device of a VXLAN path when the path is set, for the devices that
exist at that moment. A device that is created later, or whose path is set before it
exists, has to wait for another path over the same lower device.
-/

namespace Madcap

/-- The device is in the vdev table. -/
def MadcapPriv.HasVdev : MadcapPriv → NetDev → Prop
  | .raven r, vdev => r.vdev = some vdev
  | .sfmc s, vdev => ∃ n, s.vdev n = some vdev

theorem RavenDev.ravenAcquireDev_vdev {r : RavenDev} {vdev : NetDev}
    (h : (r.ravenAcquireDev vdev).1 = 0) : (r.ravenAcquireDev vdev).2.vdev = some vdev := by
  unfold ravenAcquireDev at h ⊢
  cases hr : r.vdev with
  | none => rfl
  | some d =>
    rw [hr] at h
    exact absurd h (show ¬ -EINVAL = 0 by decide)

theorem Sfmc.sfmcAcquireDev_held {s : Sfmc} {vdev : NetDev} (h : (s.sfmcAcquireDev vdev).1 = 0) :
    ∃ n, (s.sfmcAcquireDev vdev).2.vdev n = some vdev := by
  unfold sfmcAcquireDev at h ⊢
  split_ifs at h ⊢
  · exact absurd h (show ¬ -EEXIST = 0 by decide)
  · split at h
    · next n _ => exact ⟨n, Function.update_self ..⟩
    · exact absurd h (show ¬ -ENOMEM = 0 by decide)

namespace TunnelNet

def HasVdev (m : TunnelNet) (p vdev : NetDev) : Prop :=
  ∃ priv, m.lower p = some priv ∧ priv.HasVdev vdev

variable {m : TunnelNet} {p q vdev d : NetDev}

theorem hasVdev_update {lower : NetDev → Option MadcapPriv} {priv : MadcapPriv} :
    (TunnelNet.mk (Function.update lower p (some priv)) m.tunnels).HasVdev q d ↔
      if q = p then priv.HasVdev d else (TunnelNet.mk lower m.tunnels).HasVdev q d := by
  unfold HasVdev
  dsimp only
  split_ifs with hq
  · subst hq
    rw [Function.update_self]
    simp
  · rw [Function.update_of_ne hq]

theorem hasVdev_of_acquire (h : (m.madcapAcquireDev p vdev).2.HasVdev q d) :
    m.HasVdev q d ∨ q = p ∧ d = vdev := by
  unfold madcapAcquireDev at h
  split at h
  · exact .inl h
  · next r hr =>
    rw [hasVdev_update] at h
    split_ifs at h with hq
    · subst hq
      unfold RavenDev.ravenAcquireDev at h
      split at h
      · exact .inl ⟨_, hr, h⟩
      · exact .inr ⟨rfl, (Option.some.inj h).symm⟩
    · exact .inl h
  · next s hs =>
    rw [hasVdev_update] at h
    split_ifs at h with hq
    · subst hq
      obtain ⟨n, hn⟩ := h
      rcases s.sfmcAcquireDev_vdev vdev with ⟨hsame, -⟩ | ⟨k, -, -, htake⟩
      · rw [hsame] at hn
        exact .inl ⟨_, hs, n, hn⟩
      · rw [htake] at hn
        by_cases hk : n = k
        · subst hk
          rw [Function.update_self] at hn
          exact .inr ⟨rfl, (Option.some.inj hn).symm⟩
        · rw [Function.update_of_ne hk] at hn
          exact .inl ⟨_, hs, n, hn⟩
    · exact .inl h

theorem HasVdev.acquire (h : m.HasVdev q d) : (m.madcapAcquireDev p vdev).2.HasVdev q d := by
  unfold madcapAcquireDev
  split
  · exact h
  · next r hr =>
    rw [hasVdev_update]
    split_ifs with hq
    · subst hq
      obtain ⟨priv, hpriv, hd⟩ := h
      obtain rfl := Option.some.inj (hr.symm.trans hpriv)
      change r.vdev = some d at hd
      unfold RavenDev.ravenAcquireDev
      rw [hd]
      exact hd
    · exact h
  · next s hs =>
    rw [hasVdev_update]
    split_ifs with hq
    · subst hq
      obtain ⟨priv, hpriv, hd⟩ := h
      obtain rfl := Option.some.inj (hs.symm.trans hpriv)
      obtain ⟨n, hn⟩ := hd
      use n
      rcases s.sfmcAcquireDev_vdev vdev with ⟨hsame, -⟩ | ⟨k, hfree, -, htake⟩
      · rwa [hsame]
      · rw [htake, Function.update_of_ne]
        · exact hn
        · rintro rfl
          rw [hfree] at hn
          cases hn
    · exact h

theorem hasVdev_acquired (h : (m.madcapAcquireDev p vdev).1 = 0) :
    (m.madcapAcquireDev p vdev).2.HasVdev p vdev := by
  unfold madcapAcquireDev at h ⊢
  cases hp : m.lower p with
  | none =>
    rw [hp] at h
    exact absurd h (show ¬ -EOPNOTSUPP = 0 by decide)
  | some priv =>
    rw [hp] at h
    cases priv with
    | raven r =>
      rw [hasVdev_update, if_pos rfl]
      exact RavenDev.ravenAcquireDev_vdev h
    | sfmc s =>
      rw [hasVdev_update, if_pos rfl]
      exact Sfmc.sfmcAcquireDev_held h

/-- There is a slot for every device: each acquisition succeeds, or is not needed. -/
def SlotsSuffice (m : TunnelNet) (p : NetDev) : List NetDev → Prop
  | [] => True
  | vdev :: vdevs => ((m.madcapAcquireDev p vdev).1 = 0 ∨ m.HasVdev p vdev) ∧
      SlotsSuffice (m.madcapAcquireDev p vdev).2 p vdevs

variable {vdevs : List NetDev}

theorem HasVdev.acquireAll (h : m.HasVdev q d) : (NshWorld.acquireAll m p vdevs).HasVdev q d := by
  induction vdevs generalizing m with
  | nil => exact h
  | cons vdev vdevs ih => exact ih h.acquire

theorem hasVdev_of_acquireAll (h : (NshWorld.acquireAll m p vdevs).HasVdev q d) :
    m.HasVdev q d ∨ q = p ∧ d ∈ vdevs := by
  induction vdevs generalizing m with
  | nil => exact .inl h
  | cons vdev vdevs ih =>
    rcases ih h with hm | ⟨hq, hd⟩
    · rcases hasVdev_of_acquire hm with hm | ⟨hq, rfl⟩
      · exact .inl hm
      · exact .inr ⟨hq, List.mem_cons_self⟩
    · exact .inr ⟨hq, List.mem_cons_of_mem _ hd⟩

theorem hasVdev_acquireAll (h : m.SlotsSuffice p vdevs) (hd : d ∈ vdevs) :
    (NshWorld.acquireAll m p vdevs).HasVdev p d := by
  induction vdevs generalizing m with
  | nil => cases hd
  | cons vdev vdevs ih =>
    obtain ⟨hfirst, hrest⟩ := h
    rcases List.mem_cons.mp hd with rfl | hd
    · have hnow : (m.madcapAcquireDev p d).2.HasVdev p d := by
        rcases hfirst with hok | hhas
        · exact hasVdev_acquired hok
        · exact hhas.acquire
      exact hnow.acquireAll
    · exact ih hrest hd

end TunnelNet

theorem FreshMadcap.not_hasVdev (f : FreshMadcap) (vdev : NetDev) : ¬ f.priv.HasVdev vdev := by
  cases f with
  | raven =>
    intro h
    cases h
  | sfmc permAddr zone =>
    rintro ⟨n, hn⟩
    cases hn

theorem TunnelNet.hasVdev_register {m : TunnelNet} {dev q d : NetDev} {priv : Option FreshMadcap} :
    TunnelNet.HasVdev { m with
      lower := Function.update m.lower dev (priv.map FreshMadcap.priv) } q d ↔
      q ≠ dev ∧ m.HasVdev q d := by
  unfold HasVdev
  dsimp only
  by_cases hq : q = dev
  · subst hq
    rw [Function.update_self]
    apply iff_of_false
    · rintro ⟨p, hp, hd⟩
      obtain ⟨f, -, rfl⟩ := Option.map_eq_some_iff.mp hp
      exact f.not_hasVdev d hd
    · exact fun h => h.1 rfl
  · rw [Function.update_of_ne hq]
    exact (and_iff_right hq).symm

namespace NshWorld

/-- A command of a set-up: a device is created or assigned to a path, or a VXLAN path is
set over a madcap device that has slots for all devices. -/
def InSetUp (w : NshWorld) : Event → Prop
  | .newlink .. | .devPathSet _ | .lowerRegister .. => True
  | .pathDstSet a mem => mem.table = true ∧ a.encap = some NSH_ENCAP_TYPE_VXLAN ∧
      ∃ ifindex d, a.ifindex = some ifindex ∧ w.devGetByIndex ifindex = some d ∧
        w.madcap.capable d.dev = true ∧ w.madcap.SlotsSuffice d.dev w.devList
  | _ => False

/-- The command is one of a set-up, and succeeds. -/
def SetUpStep (env : NshEnv) (w : NshWorld) (e : Event) : Prop :=
  w.InSetUp e ∧ ∃ w', w.step env e = .ok (0, w')

/-- Every device whose key resolves to a path over a lower device is in the table of that
lower device. -/
def Offloaded (env : NshEnv) (w : NshWorld) : Prop :=
  ∀ dev ∈ w.devList, ∀ nt rdst lowerdev,
    w.nnet.nshFindTable env (w.nnet.devKey dev) = some nt → nt.rdst = some rdst →
      rdst.lowerdev = some lowerdev → w.madcap.HasVdev lowerdev dev

def linkKey : Option U32 → Option U8 → U32
  | some spi, some si => nshKey spi si
  | _, _ => 0

/-- What can be read off the commands so far: the key of each nsh device, by its ifindex;
the ifindex of the lower device of each path; and over which lower devices a path has been
set since the device was created. -/
structure SetUpLog where
  keys : U32 → Option U32
  paths : U32 → Option U32
  since : U32 → List U32

namespace SetUpLog

def empty : SetUpLog where
  keys := fun _ => none
  paths := fun _ => none
  since := fun _ => []

def read (l : SetUpLog) : Event → SetUpLog
  | .newlink _ ifindex spi si _ =>
    { l with
      keys := Function.update l.keys ifindex (some (linkKey spi si))
      since := Function.update l.since ifindex [] }
  | .devPathSet a =>
    match a.ifindex with
    | some ifindex => { l with keys := Function.update l.keys ifindex (some (linkKey a.spi a.si)) }
    | none => l
  | .pathDstSet a _ =>
    match a.ifindex with
    | some ifindex =>
      { l with
        paths := Function.update l.paths (linkKey a.spi a.si) (some ifindex)
        since := fun i => ifindex :: l.since i }
    | none => l
  | _ => l

/-- Since each device was created a path has been set over the lower device that its own
path has in the end. -/
def InOrder (l : SetUpLog) : Prop :=
  ∀ ifindex key lower, l.keys ifindex = some key → l.paths key = some lower →
    lower ∈ l.since ifindex

end SetUpLog

/-- The ifindex, the address and the kind of each registered device. -/
def index (w : NshWorld) : List (U32 × NetDev × Bool) :=
  w.netdevs.map fun d => (d.ifindex, d.dev, d.nsh)

variable {env : NshEnv} {w w' : NshWorld} {l : SetUpLog} {a : NshAttrs} {mem : NshMem}
  {i j : U32} {dev lowerdev : NetDev} {d : NetDevice}

theorem index_kinds : w.index.map Prod.snd = w.kinds := by
  unfold index kinds
  rw [List.map_map]
  rfl

theorem mem_kinds_of_index {nsh : Bool} (h : (i, dev, nsh) ∈ w.index) : (dev, nsh) ∈ w.kinds := by
  rw [← index_kinds]
  exact List.mem_map_of_mem h

theorem mem_index_of_get (h : w.devGetByIndex i = some d) : (i, d.dev, d.nsh) ∈ w.index := by
  have hi : d.ifindex = i := by simpa using List.find?_some h
  rw [← hi]
  exact List.mem_map_of_mem (List.mem_of_find?_eq_some h)

theorem not_mem_index_of_get (h : w.devGetByIndex i = none) : i ∉ w.index.map Prod.fst := by
  unfold devGetByIndex at h
  rw [List.find?_eq_none] at h
  unfold index
  rw [List.map_map, List.mem_map]
  rintro ⟨d, hd, hi⟩
  exact h d hd (decide_eq_true hi)

theorem ethChangeMtu_index (newMtu : ℤ) : (w.ethChangeMtu dev newMtu).2.index = w.index := by
  unfold ethChangeMtu
  split
  · rfl
  · unfold index
    dsimp only
    rw [List.map_map]
    apply List.map_congr_left
    intro d _
    rw [Function.comp_apply]
    split <;> rfl

/-- The commands have told of all devices, paths and acquisitions. -/
structure Reads (env : NshEnv) (l : SetUpLog) (w : NshWorld) : Prop where
  inv : w.Inv env
  indexes : (w.index.map Prod.fst).Nodup
  key : ∀ i dev, (i, dev, true) ∈ w.index → l.keys i = some (w.nnet.devKey dev)
  device : ∀ i key, l.keys i = some key → ∃ dev, (i, dev, true) ∈ w.index
  noPath : ∀ key, l.paths key = none → w.nnet.nshFindTable env key = none
  path : ∀ key j, l.paths key = some j → ∃ nt rdst lowerdev,
    w.nnet.nshFindTable env key = some nt ∧ nt.rdst = some rdst ∧
      rdst.lowerdev = some lowerdev ∧ (j, lowerdev, false) ∈ w.index
  lower : ∀ i dev, (i, dev, true) ∈ w.index → ∀ j ∈ l.since i, ∃ lowerdev,
    (j, lowerdev, false) ∈ w.index
  held : ∀ i dev j lowerdev, (i, dev, true) ∈ w.index → (j, lowerdev, false) ∈ w.index →
    (w.madcap.HasVdev lowerdev dev ↔ j ∈ l.since i)
  listed : ∀ lowerdev dev, w.madcap.HasVdev lowerdev dev → dev ∈ w.devList

namespace Reads

theorem init (env : NshEnv) : Reads env .empty init where
  inv := inv_init
  indexes := List.nodup_nil
  key i dev h := by cases h
  device i key h := by cases h
  noPath key h := rfl
  path key j h := by cases h
  lower i dev h := by cases h
  held i dev j lowerdev h := by cases h
  listed lowerdev dev h := by
    obtain ⟨priv, hpriv, -⟩ := h
    cases hpriv

theorem index_eq (h : Reads env l w) {a b : Bool} (ha : (i, dev, a) ∈ w.index)
    (hb : (j, dev, b) ∈ w.index) : i = j := by
  have hnodup : (w.index.map fun x => x.2.1).Nodup := by
    have hunique := h.inv.unique
    rwa [← index_kinds, List.map_map] at hunique
  exact congrArg Prod.fst (List.inj_on_of_nodup_map hnodup ha hb rfl)

theorem dev_eq (h : Reads env l w) {dev' : NetDev} {a b : Bool} (ha : (i, dev, a) ∈ w.index)
    (hb : (i, dev', b) ∈ w.index) : dev = dev' ∧ a = b := by
  have heq := List.inj_on_of_nodup_map h.indexes ha hb rfl
  exact ⟨congrArg (fun x => x.2.1) heq, congrArg (fun x => x.2.2) heq⟩

end Reads

theorem newlink_succeeds {spi : Option U32} {si : Option U8} {err : ℤ}
    (h : w.step env (.newlink dev i spi si err) = .ok (0, w')) :
    dev ∉ w.kinds.map Prod.fst ∧ i ∉ w.index.map Prod.fst ∧
      w' = { w with
        nnet := { w.nnet with
          devKey := Function.update w.nnet.devKey dev (linkKey spi si) }
        netdevs := w.netdevs ++ [{ dev := dev, ifindex := i, nsh := true, mtu := DEFAULT_MTU }]
        devList := w.devList ++ [dev] } := by
  have hres := Except.ok.inj h
  split_ifs at hres with hreg
  · exact absurd (congrArg Prod.fst hres) (show ¬ -EEXIST = 0 by decide)
  · unfold nshNewlink at hres
    dsimp only at hres
    rcases registerNetdevice_cases _ _ err with ⟨code, hcode, hr⟩ | ⟨hindex, hr⟩
    · rw [hr, if_pos hcode] at hres
      exact absurd (congrArg Prod.fst hres) hcode
    · rw [hr] at hres
      exact ⟨not_registered_iff.mp hreg, not_mem_index_of_get hindex, (congrArg Prod.snd hres).symm⟩

theorem lowerRegister_succeeds {mtu : ℤ} {priv : Option FreshMadcap}
    (h : w.step env (.lowerRegister dev i mtu priv) = .ok (0, w')) :
    dev ∉ w.kinds.map Prod.fst ∧ i ∉ w.index.map Prod.fst ∧
      w' = { w with
        netdevs := w.netdevs ++ [{ dev := dev, ifindex := i, nsh := false, mtu := mtu }]
        madcap := { w.madcap with
          lower := Function.update w.madcap.lower dev (priv.map FreshMadcap.priv) } } := by
  have hres := Except.ok.inj h
  split_ifs at hres with hreg
  · exact absurd (congrArg Prod.fst hres) (show ¬ -EEXIST = 0 by decide)
  · unfold lowerRegister at hres
    rcases registerNetdevice_cases w _ 0 with ⟨code, hcode, hr⟩ | ⟨hindex, hr⟩
    · rw [hr] at hres
      dsimp only at hres
      rw [if_pos hcode] at hres
      exact absurd (congrArg Prod.fst hres) hcode
    · rw [hr] at hres
      exact ⟨not_registered_iff.mp hreg, not_mem_index_of_get hindex, (congrArg Prod.snd hres).symm⟩

theorem pathDstSetVxlan_succeeds {key : U32} {mdtype : U8}
    (h : w.pathDstSetVxlan env a key mdtype mem = (0, w')) (hmem : mem.table = true)
    (hi : a.ifindex = some i) (hd : w.devGetByIndex i = some d) :
    d.nsh = false ∧ ∃ nt rdst n, nt.key = key ∧ nt.rdst = some rdst ∧
      rdst.lowerdev = some d.dev ∧ w' = { w with
        nnet := { w.nnet with
          nshTable := Buckets.insert env.hash32 NshTable.key w.nnet.nshTable nt }
        madcap := acquireAll w.madcap d.dev w.devList
        dsts := n } := by
  unfold devGetByIndex at hd
  unfold pathDstSetVxlan at h
  split at h
  · split at h
    · exact absurd (congrArg Prod.fst h) (show ¬ -ENOMEM = 0 by decide)
    · simp only [hi, devGetByIndex, hd] at h
      split_ifs at h with hnsh
      · exact absurd (congrArg Prod.fst h) (show ¬ -EINVAL = 0 by decide)
      · refine ⟨by simpa using hnsh, ?_⟩
        have hw := congrArg Prod.snd h
        rcases nshAddTable_cases env _ key mdtype NSH_ENCAP_TYPE_VXLAN none _ mem.table with
          ⟨hnone, -⟩ | ⟨nt, hkey, -, -, hrdst, hadd⟩
        · rw [hmem] at hnone
          cases hnone
        · exact ⟨nt, _, _, hkey, hrdst, rfl, hw.symm.trans hadd⟩
  · exact absurd (congrArg Prod.fst h) (show ¬ -EINVAL = 0 by decide)

theorem pathDstSet_succeeds (h : w.nshNlCmdPathDstSet env a mem = (0, w')) (hmem : mem.table = true)
    (hencap : a.encap = some NSH_ENCAP_TYPE_VXLAN) (hi : a.ifindex = some i)
    (hd : w.devGetByIndex i = some d) : d.nsh = false ∧ ∃ nt rdst n,
      nt.key = linkKey a.spi a.si ∧ nt.rdst = some rdst ∧ rdst.lowerdev = some d.dev ∧
        w' = { w with
          nnet := { w.nnet with
            nshTable := Buckets.insert env.hash32 NshTable.key w.nnet.nshTable nt }
          madcap := acquireAll w.madcap d.dev w.devList
          dsts := n } := by
  unfold nshNlCmdPathDstSet at h
  split at h
  · next spi si hspi hsi =>
    dsimp only at h
    split at h
    · exact absurd (congrArg Prod.fst h) (show ¬ -EEXIST = 0 by decide)
    · rw [hencap] at h
      rw [hspi, hsi]
      exact pathDstSetVxlan_succeeds h hmem hi hd
  · exact absurd (congrArg Prod.fst h) (show ¬ -EINVAL = 0 by decide)

/-- Changing the MTU changes nothing else. -/
structure MtuOnly (w w' : NshWorld) : Prop where
  nnet : w'.nnet = w.nnet
  devList : w'.devList = w.devList
  madcap : w'.madcap = w.madcap
  index : w'.index = w.index

theorem ethChangeMtu_mtuOnly (newMtu : ℤ) : MtuOnly w (w.ethChangeMtu dev newMtu).2 := by
  refine ⟨?_, ?_, ?_, ethChangeMtu_index newMtu⟩
  all_goals
    unfold ethChangeMtu
    split <;> rfl

theorem nshChangeMtuForPath_mtuOnly {nt : NshTable} (h : w.nshChangeMtuForPath dev nt = .ok w') :
    MtuOnly w w' := by
  unfold nshChangeMtuForPath at h
  dsimp only at h
  split at h
  · exact Except.ok.inj h ▸ ethChangeMtu_mtuOnly _
  · split at h
    · split at h
      · cases h
      · split at h
        · cases h
        · exact Except.ok.inj h ▸ ethChangeMtu_mtuOnly _
    · exact Except.ok.inj h ▸ ⟨rfl, rfl, rfl, rfl⟩

/-- An assignment that succeeds finds an nsh device, fits its MTU to the entry of the path if
there is one, and records the path. -/
theorem devPathSet_cases (h : w.nshNlCmdDevPathSet env a = .ok (0, w')) :
    ∃ i d w₁, a.ifindex = some i ∧ w.devGetByIndex i = some d ∧ d.nsh = true ∧
      (w.nnet.nshFindTable env (linkKey a.spi a.si) = none ∧ w₁ = w ∨
        ∃ nt, w.nnet.nshFindTable env (linkKey a.spi a.si) = some nt ∧
          w.nshChangeMtuForPath d.dev nt = .ok w₁) ∧
      w' = { w₁ with nnet := { w₁.nnet with
        devKey := Function.update w₁.nnet.devKey d.dev (linkKey a.spi a.si) } } := by
  unfold nshNlCmdDevPathSet at h
  split at h
  · next i spi si hi hspi hsi =>
    dsimp only at h
    split at h
    · exact absurd (congrArg Prod.fst (Except.ok.inj h)) (show ¬ -ENODEV = 0 by decide)
    · next d hd =>
      split_ifs at h with hnsh
      · exact absurd (congrArg Prod.fst (Except.ok.inj h)) (show ¬ -EINVAL = 0 by decide)
      · have hnsh' : d.nsh = true := by simpa using hnsh
        rw [hspi, hsi, linkKey]
        split at h
        · next nt hnt =>
          obtain ⟨w₁, hw₁, hw'⟩ := bind_eq_ok.mp h
          exact ⟨i, d, w₁, hi, hd, hnsh', .inr ⟨nt, hnt, hw₁⟩,
            (congrArg Prod.snd (Except.ok.inj hw')).symm⟩
        · next hnone =>
          exact ⟨i, d, w, hi, hd, hnsh', .inl ⟨hnone, rfl⟩,
            (congrArg Prod.snd (Except.ok.inj h)).symm⟩
  · exact absurd (congrArg Prod.fst (Except.ok.inj h)) (show ¬ -EINVAL = 0 by decide)

theorem devPathSet_succeeds (h : w.nshNlCmdDevPathSet env a = .ok (0, w')) :
    ∃ i d w₁, a.ifindex = some i ∧ w.devGetByIndex i = some d ∧ d.nsh = true ∧ MtuOnly w w₁ ∧
      w' = { w₁ with nnet := { w₁.nnet with
        devKey := Function.update w₁.nnet.devKey d.dev (linkKey a.spi a.si) } } := by
  obtain ⟨i, d, w₁, hi, hd, hnsh, hfit, hw'⟩ := devPathSet_cases h
  refine ⟨i, d, w₁, hi, hd, hnsh, ?_, hw'⟩
  rcases hfit with ⟨-, rfl⟩ | ⟨nt, -, hw₁⟩
  · exact ⟨rfl, rfl, rfl, rfl⟩
  · exact nshChangeMtuForPath_mtuOnly hw₁

namespace Reads

theorem ne_of_mem (hi : i ∉ w.index.map Prod.fst) (hdev : dev ∉ w.kinds.map Prod.fst) {d : NetDev}
    {nsh : Bool} (hd : (j, d, nsh) ∈ w.index) : j ≠ i ∧ d ≠ dev := by
  constructor
  · rintro rfl
    exact hi (List.mem_map_of_mem hd)
  · rintro rfl
    exact hdev (List.mem_map_of_mem (mem_kinds_of_index hd))

theorem indexes_append (h : Reads env l w) {nsh : Bool} (hi : i ∉ w.index.map Prod.fst) :
    ((w.index ++ [(i, dev, nsh)]).map Prod.fst).Nodup := by
  rw [List.map_append]
  exact List.nodup_append_comm.mp (List.nodup_cons.mpr ⟨hi, h.indexes⟩)

theorem path_mono (h : Reads env l w) (htable : w'.nnet.nshTable = w.nnet.nshTable)
    (hindex : ∀ x ∈ w.index, x ∈ w'.index) (key : U32) (j : U32) (hpath : l.paths key = some j) :
    ∃ nt rdst lowerdev, w'.nnet.nshFindTable env key = some nt ∧ nt.rdst = some rdst ∧
      rdst.lowerdev = some lowerdev ∧ (j, lowerdev, false) ∈ w'.index := by
  obtain ⟨nt, rdst, lowerdev, hfind, hrdst, hlower, hj⟩ := h.path key j hpath
  rw [← nshFindTable_congr htable] at hfind
  exact ⟨nt, rdst, lowerdev, hfind, hrdst, hlower, hindex _ hj⟩

theorem newlink (h : Reads env l w) {spi : Option U32} {si : Option U8} {err : ℤ}
    (hinv : w'.Inv env) (hstep : w.step env (.newlink dev i spi si err) = .ok (0, w')) :
    Reads env (l.read (.newlink dev i spi si err)) w' := by
  obtain ⟨hdev, hi, rfl⟩ := newlink_succeeds hstep
  have happend : NshWorld.index { w with
      nnet := { w.nnet with devKey := Function.update w.nnet.devKey dev (linkKey spi si) }
      netdevs := w.netdevs ++ [{ dev := dev, ifindex := i, nsh := true, mtu := DEFAULT_MTU }]
      devList := w.devList ++ [dev] } = w.index ++ [(i, dev, true)] := List.map_append ..
  have hcases {x : U32 × NetDev × Bool} (hx : x ∈ w.index ++ [(i, dev, true)]) :
      x ∈ w.index ∨ x = (i, dev, true) := by simpa using hx
  constructor
  case inv => exact hinv
  case indexes =>
    rw [happend]
    exact h.indexes_append hi
  case key =>
    rw [happend]
    intro j d hd
    change Function.update l.keys i (some (linkKey spi si)) j =
      some (Function.update w.nnet.devKey dev (linkKey spi si) d)
    rcases hcases hd with hd | heq
    · obtain ⟨hj, hne⟩ := ne_of_mem hi hdev hd
      rw [Function.update_of_ne hj, Function.update_of_ne hne]
      exact h.key j d hd
    · cases heq
      rw [Function.update_self, Function.update_self]
  case device =>
    rw [happend]
    intro j key hkey
    change Function.update l.keys i (some (linkKey spi si)) j = some key at hkey
    by_cases hj : j = i
    · subst hj
      exact ⟨dev, List.mem_append_right _ List.mem_cons_self⟩
    · rw [Function.update_of_ne hj] at hkey
      obtain ⟨d, hd⟩ := h.device j key hkey
      exact ⟨d, List.mem_append_left _ hd⟩
  case noPath => exact h.noPath
  case path =>
    exact h.path_mono rfl fun x hx => happend ▸ List.mem_append_left _ hx
  case lower =>
    rw [happend]
    intro i' d hd j hj
    change j ∈ Function.update l.since i [] i' at hj
    rcases hcases hd with hd | heq
    · rw [Function.update_of_ne (ne_of_mem hi hdev hd).1] at hj
      obtain ⟨lowerdev, hlower⟩ := h.lower i' d hd j hj
      exact ⟨lowerdev, List.mem_append_left _ hlower⟩
    · cases heq
      rw [Function.update_self] at hj
      cases hj
  case held =>
    rw [happend]
    intro i' d j lowerdev hd hj
    change w.madcap.HasVdev lowerdev d ↔ j ∈ Function.update l.since i [] i'
    rcases hcases hd with hd | heq
    · rw [Function.update_of_ne (ne_of_mem hi hdev hd).1]
      rcases hcases hj with hj | heq
      · exact h.held i' d j lowerdev hd hj
      · cases heq
    · cases heq
      rw [Function.update_self]
      apply iff_of_false _ List.not_mem_nil
      intro hhas
      have hkind := (h.inv.listed dev).mp (h.listed lowerdev dev hhas)
      exact hdev (List.mem_map_of_mem hkind)
  case listed =>
    intro lowerdev d hhas
    exact List.mem_append_left _ (h.listed lowerdev d hhas)

theorem lowerRegister (h : Reads env l w) {mtu : ℤ} {priv : Option FreshMadcap}
    (hinv : w'.Inv env) (hstep : w.step env (.lowerRegister dev i mtu priv) = .ok (0, w')) :
    Reads env (l.read (.lowerRegister dev i mtu priv)) w' := by
  obtain ⟨hdev, hi, rfl⟩ := lowerRegister_succeeds hstep
  have happend : NshWorld.index { w with
      netdevs := w.netdevs ++ [{ dev := dev, ifindex := i, nsh := false, mtu := mtu }]
      madcap := { w.madcap with
        lower := Function.update w.madcap.lower dev (priv.map FreshMadcap.priv) } } =
      w.index ++ [(i, dev, false)] := List.map_append ..
  have hcases {x : U32 × NetDev × Bool} (hx : x ∈ w.index ++ [(i, dev, false)]) :
      x ∈ w.index ∨ x = (i, dev, false) := by simpa using hx
  constructor
  case inv => exact hinv
  case indexes =>
    rw [happend]
    exact h.indexes_append hi
  case key =>
    rw [happend]
    intro j d hd
    rcases hcases hd with hd | heq
    · exact h.key j d hd
    · cases heq
  case device =>
    rw [happend]
    intro j key hkey
    obtain ⟨d, hd⟩ := h.device j key hkey
    exact ⟨d, List.mem_append_left _ hd⟩
  case noPath => exact h.noPath
  case path =>
    exact h.path_mono rfl fun x hx => happend ▸ List.mem_append_left _ hx
  case lower =>
    rw [happend]
    intro i' d hd j hj
    rcases hcases hd with hd | heq
    · obtain ⟨lowerdev, hlower⟩ := h.lower i' d hd j hj
      exact ⟨lowerdev, List.mem_append_left _ hlower⟩
    · cases heq
  case held =>
    rw [happend]
    intro i' d j lowerdev hd hj
    rw [TunnelNet.hasVdev_register]
    rcases hcases hd with hd | heq
    · rcases hcases hj with hj | heq
      · rw [and_iff_right (ne_of_mem hi hdev hj).2]
        exact h.held i' d j lowerdev hd hj
      · cases heq
        apply iff_of_false (fun hhas => hhas.1 rfl)
        intro hmem
        obtain ⟨lowerdev, hlower⟩ := h.lower i' d hd i hmem
        exact hi (List.mem_map_of_mem hlower)
    · cases heq
  case listed =>
    intro lowerdev d hhas
    rw [TunnelNet.hasVdev_register] at hhas
    exact h.listed lowerdev d hhas.2

theorem devPathSet (h : Reads env l w) (hinv : w'.Inv env)
    (hstep : w.nshNlCmdDevPathSet env a = .ok (0, w')) : Reads env (l.read (.devPathSet a)) w' := by
  obtain ⟨i, d, w₁, hi, hd, hnsh, hmtu, rfl⟩ := devPathSet_succeeds hstep
  have hdev := mem_index_of_get hd
  rw [hnsh] at hdev
  have hread : l.read (.devPathSet a) =
      { l with keys := Function.update l.keys i (some (linkKey a.spi a.si)) } := by
    simp only [SetUpLog.read, hi]
  have hindex : NshWorld.index { w₁ with nnet := { w₁.nnet with
      devKey := Function.update w₁.nnet.devKey d.dev (linkKey a.spi a.si) } } = w.index := hmtu.index
  have htable : w₁.nnet.nshTable = w.nnet.nshTable := congrArg NshNet.nshTable hmtu.nnet
  rw [hread]
  constructor
  case inv => exact hinv
  case indexes =>
    rw [hindex]
    exact h.indexes
  case key =>
    rw [hindex]
    intro j e he
    change Function.update l.keys i _ j = some (Function.update w₁.nnet.devKey d.dev _ e)
    by_cases hj : j = i
    · subst hj
      rw [(h.dev_eq he hdev).1, Function.update_self, Function.update_self]
    · rw [Function.update_of_ne hj, Function.update_of_ne, hmtu.nnet]
      · exact h.key j e he
      · rintro rfl
        exact hj (h.index_eq he hdev)
  case device =>
    rw [hindex]
    intro j key hkey
    change Function.update l.keys i _ j = some key at hkey
    by_cases hj : j = i
    · subst hj
      exact ⟨d.dev, hdev⟩
    · rw [Function.update_of_ne hj] at hkey
      exact h.device j key hkey
  case noPath =>
    intro key hkey
    exact (nshFindTable_congr htable).trans (h.noPath key hkey)
  case path =>
    exact h.path_mono htable fun x hx => hindex ▸ hx
  case lower =>
    rw [hindex]
    exact h.lower
  case held =>
    rw [hindex]
    change ∀ i dev j lowerdev, _ → _ → (w₁.madcap.HasVdev lowerdev dev ↔ j ∈ l.since i)
    rw [hmtu.madcap]
    exact h.held
  case listed =>
    change ∀ lowerdev dev, w₁.madcap.HasVdev lowerdev dev → dev ∈ w₁.devList
    rw [hmtu.madcap, hmtu.devList]
    exact h.listed

theorem pathDstSet (h : Reads env l w) (hinv : w'.Inv env) (hset : w.InSetUp (.pathDstSet a mem))
    (hstep : w.nshNlCmdPathDstSet env a mem = (0, w')) :
    Reads env (l.read (.pathDstSet a mem)) w' := by
  obtain ⟨hmem, hencap, i, d, hi, hd, -, hslots⟩ := hset
  obtain ⟨hnsh, nt, rdst, n, hkey, hrdst, hlower, rfl⟩ := pathDstSet_succeeds hstep hmem hencap hi hd
  have hdev := mem_index_of_get hd
  rw [hnsh] at hdev
  have hread : l.read (.pathDstSet a mem) =
      { l with
        paths := Function.update l.paths (linkKey a.spi a.si) (some i)
        since := fun k => i :: l.since k } := by
    simp only [SetUpLog.read, hi]
  rw [hread]
  constructor
  case inv => exact hinv
  case indexes => exact h.indexes
  case key => exact h.key
  case device => exact h.device
  case noPath =>
    intro key hnone
    change Function.update l.paths (linkKey a.spi a.si) (some i) key = none at hnone
    by_cases hk : key = linkKey a.spi a.si
    · rw [hk, Function.update_self] at hnone
      cases hnone
    · rw [Function.update_of_ne hk] at hnone
      rw [nshFindTable_insert, hkey, if_neg (Ne.symm hk)]
      exact h.noPath key hnone
  case path =>
    intro key j hpath
    change Function.update l.paths (linkKey a.spi a.si) (some i) key = some j at hpath
    by_cases hk : key = linkKey a.spi a.si
    · rw [hk, Function.update_self] at hpath
      cases hpath
      refine ⟨nt, rdst, d.dev, ?_, hrdst, hlower, hdev⟩
      rw [nshFindTable_insert, hkey, if_pos hk.symm]
    · rw [Function.update_of_ne hk] at hpath
      rw [nshFindTable_insert, hkey, if_neg (Ne.symm hk)]
      exact h.path key j hpath
  case lower =>
    intro k e he j hj
    rcases List.mem_cons.mp hj with rfl | hj
    · exact ⟨d.dev, hdev⟩
    · exact h.lower k e he j hj
  case held =>
    intro k e j lowerdev he hj
    change (acquireAll w.madcap d.dev w.devList).HasVdev lowerdev e ↔ j ∈ i :: l.since k
    rw [List.mem_cons]
    constructor
    · intro hhas
      rcases TunnelNet.hasVdev_of_acquireAll hhas with hhas | ⟨rfl, -⟩
      · exact .inr ((h.held k e j lowerdev he hj).mp hhas)
      · exact .inl (h.index_eq hj hdev)
    · rintro (rfl | hmem)
      · rw [(h.dev_eq hj hdev).1]
        have hlisted := (h.inv.listed e).mpr (mem_kinds_of_index he)
        exact TunnelNet.hasVdev_acquireAll hslots hlisted
      · exact ((h.held k e j lowerdev he hj).mpr hmem).acquireAll
  case listed =>
    intro lowerdev e hhas
    rcases TunnelNet.hasVdev_of_acquireAll hhas with hhas | ⟨-, hmem⟩
    · exact h.listed lowerdev e hhas
    · exact hmem

theorem step (h : Reads env l w) {e : Event} (hset : SetUpStep env w e) :
    ∃ w', w.next env e = .ok w' ∧ Reads env (l.read e) w' := by
  obtain ⟨hin, w', hstep⟩ := hset
  have hinv : w'.Inv env := (h.inv.step e).of_eq_ok hstep
  have hnext : w.next env e = .ok w' := by
    unfold next
    rw [hstep]
    rfl
  refine ⟨w', hnext, ?_⟩
  cases e with
  | newlink dev i spi si err => exact h.newlink hinv hstep
  | devPathSet a => exact h.devPathSet hinv hstep
  | pathDstSet a mem => exact h.pathDstSet hinv hin (Except.ok.inj hstep)
  | lowerRegister dev i mtu priv => exact h.lowerRegister hinv hstep
  | dellink => exact hin.elim
  | pathDstUnset => exact hin.elim
  | devPathUnset => exact hin.elim
  | lowerUnregister => exact hin.elim

theorem offloaded_iff (h : Reads env l w) : w.Offloaded env ↔ l.InOrder := by
  constructor
  · intro hall i key j hkey hpath
    obtain ⟨dev, hdev⟩ := h.device i key hkey
    obtain ⟨nt, rdst, lowerdev, hfind, hrdst, hlower, hj⟩ := h.path key j hpath
    have hdevKey : w.nnet.devKey dev = key :=
      Option.some.inj ((h.key i dev hdev).symm.trans hkey)
    have hlisted := (h.inv.listed dev).mpr (mem_kinds_of_index hdev)
    rw [← hdevKey] at hfind
    exact (h.held i dev j lowerdev hdev hj).mp
      (hall dev hlisted nt rdst lowerdev hfind hrdst hlower)
  · intro horder dev hlisted nt rdst lowerdev hfind hrdst hlower
    have hkind := (h.inv.listed dev).mp hlisted
    rw [← index_kinds] at hkind
    obtain ⟨⟨i, dev', nsh⟩, hdev, heq⟩ := List.mem_map.mp hkind
    cases heq
    have hkey := h.key i dev hdev
    cases hpath : l.paths (w.nnet.devKey dev) with
    | none =>
      rw [h.noPath _ hpath] at hfind
      cases hfind
    | some j =>
      obtain ⟨nt', rdst', lowerdev', hfind', hrdst', hlower', hj⟩ := h.path _ j hpath
      obtain rfl := Option.some.inj (hfind.symm.trans hfind')
      obtain rfl := Option.some.inj (hrdst.symm.trans hrdst')
      obtain rfl := Option.some.inj (hlower.symm.trans hlower')
      exact (h.held i dev j lowerdev hdev hj).mpr (horder i _ j hkey hpath)

end Reads

/-- After a set-up, in whatever order its commands came, all devices with a path are in the
tables of their lower devices exactly when each of them was created before the last path
over its lower device was set. -/
theorem offload_set_up_iff (env : NshEnv) (es : List Event)
    (h : Along (next env) (SetUpStep env) init es) :
    ∃ w, run env init es = .ok w ∧
      (w.Offloaded env ↔ (es.foldl SetUpLog.read .empty).InOrder) := by
  have hstep : ∀ l w e, Reads env l w → SetUpStep env w e →
      ∃ w', w.next env e = .ok w' ∧ Reads env (l.read e) w' :=
    fun _ _ _ hreads hset => hreads.step hset
  obtain ⟨w, hrun, hreads⟩ := runSteps_replay hstep (Reads.init env) h
  exact ⟨w, hrun, hreads.offloaded_iff⟩

def plainEnv : NshEnv where
  madcapEnable := true
  hash32 := fun _ => ⟨0, by decide⟩
  madcapOps := fun dev => dev == 0
  devAddr := fun _ => 0
  routed := fun _ _ _ => true

def lowerEvent : Event := .lowerRegister 0 2 1500 (some (.sfmc 0 (freshZone fun _ => true)))

def pathEvent : Event :=
  .pathDstSet
    { ifindex := some 2, spi := some 1, si := some 1, mdtype := none,
      encap := some NSH_ENCAP_TYPE_VXLAN, remote := some 0x0100000a, localIp := none, vni := none,
      ethaddr := none }
    { dst := some { remoteIp := 0, localIp := 0, vni := 0, lowerdev := none, ethAddr := 0 },
      table := true }

def deviceEvent : Event := .newlink 1 3 (some 1) (some 1) 0

/-- The device first, then its path. -/
theorem offload_set_up_device_first :
    ∃ w, run plainEnv init [lowerEvent, deviceEvent, pathEvent] = .ok w ∧ w.Offloaded plainEnv := by
  have hsteps : Along (next plainEnv) (SetUpStep plainEnv) init
      [lowerEvent, deviceEvent, pathEvent] := by
    apply along_cons ⟨trivial, _, rfl⟩ rfl
    apply along_cons ⟨trivial, _, rfl⟩ rfl
    exact ⟨⟨⟨rfl, rfl, 2, _, rfl, rfl, rfl, .inl rfl, trivial⟩, _, rfl⟩, fun _ _ => trivial⟩
  obtain ⟨w, hrun, hiff⟩ := offload_set_up_iff plainEnv _ hsteps
  refine ⟨w, hrun, hiff.mpr ?_⟩
  intro i key lower _ hpath
  change Function.update (fun _ => none) (nshKey 1 1) (some (2 : U32)) key = some lower at hpath
  have hlower : lower = 2 := by
    by_cases hk : key = nshKey 1 1
    · rw [hk, Function.update_self] at hpath
      exact (Option.some.inj hpath).symm
    · rw [Function.update_of_ne hk] at hpath
      cases hpath
  rw [hlower]
  exact List.mem_cons_self

/-- The path first, then the device: the lower device does not have it. -/
theorem path_first_not_offloaded : ¬ ∀ (env : NshEnv) (es : List Event),
    Along (next env) (SetUpStep env) init es →
      ∀ w, run env init es = .ok w → w.Offloaded env := by
  intro h
  have hsteps : Along (next plainEnv) (SetUpStep plainEnv) init
      [lowerEvent, pathEvent, deviceEvent] := by
    apply along_cons ⟨trivial, _, rfl⟩ rfl
    apply along_cons ⟨⟨rfl, rfl, 2, _, rfl, rfl, rfl, trivial⟩, _, rfl⟩ rfl
    exact ⟨⟨trivial, _, rfl⟩, fun _ _ => trivial⟩
  obtain ⟨priv, hpriv, hhas⟩ := h plainEnv _ hsteps _ rfl 1 (by decide) _ _ 0 rfl rfl rfl
  cases hpriv
  obtain ⟨n, hn⟩ := hhas
  cases hn

end NshWorld

end Madcap
