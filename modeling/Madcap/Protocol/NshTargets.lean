import Madcap.Foundation.Buckets
import Madcap.Foundation.Runs
import Madcap.Protocol.NshPaths

/-!
# What the entries of the path table point to

An entry for a device points to a device of the driver, and one for a neighbour to a
registered device of another driver, for as long as it is in the table: what goes takes
its entries with it.
-/

namespace Madcap

namespace NshWorld

/-- The registered devices, each with whether it is an nsh device. -/
def kinds (w : NshWorld) : List (NetDev × Bool) := w.netdevs.map fun d => (d.dev, d.nsh)

/-- The target of an entry fits its encap type and exists. -/
inductive Target (w : NshWorld) (nt : NshTable) : Prop
  | none (dev : NetDev) (hencap : nt.encapType = NSH_ENCAP_TYPE_NONE) (hrdst : nt.rdst = none)
      (hrdev : nt.rdev = some dev) (hdev : dev ∈ w.devList)
  | vxlan (rdst : NshDst) (hencap : nt.encapType = NSH_ENCAP_TYPE_VXLAN)
      (hrdev : nt.rdev = .none) (hrdst : nt.rdst = some rdst)
  | ether (rdst : NshDst) (lowerdev : NetDev) (hencap : nt.encapType = NSH_ENCAP_TYPE_ETHER)
      (hrdev : nt.rdev = .none) (hrdst : nt.rdst = some rdst)
      (hlower : rdst.lowerdev = some lowerdev) (hreg : (lowerdev, false) ∈ w.kinds)

/-- The path table is in order. -/
structure PathTable (env : NshEnv) (w : NshWorld) : Prop where
  placed : ∀ n, ∀ nt ∈ w.nnet.nshTable n, env.hash32 nt.key = n
  nodup : (((List.finRange nshHashSize).flatMap w.nnet.nshTable).map NshTable.key).Nodup
  targets : ∀ n, ∀ nt ∈ w.nnet.nshTable n, w.Target nt

/-- What every event keeps: besides the table, the driver's list has the registered nsh
devices, and no two devices have one address. -/
structure Inv (env : NshEnv) (w : NshWorld) : Prop where
  buckets : Buckets.Ok env.hash32 NshTable.key w.nnet.nshTable
  targets : ∀ n, ∀ nt ∈ w.nnet.nshTable n, w.Target nt
  listed : ∀ dev, dev ∈ w.devList ↔ (dev, true) ∈ w.kinds
  nodup : w.devList.Nodup
  unique : (w.kinds.map Prod.fst).Nodup

variable {env : NshEnv} {w w' : NshWorld} {dev : NetDev} {nt : NshTable}

theorem Inv.pathTable (h : w.Inv env) : w.PathTable env where
  placed := h.buckets.placed
  nodup := h.buckets.nodup (List.nodup_finRange _)
  targets := h.targets

theorem inv_init : init.Inv env where
  buckets := .empty
  targets n nt hnt := by cases hnt
  listed dev := by simp [init, kinds]
  nodup := List.nodup_nil
  unique := List.nodup_nil

theorem nshFindTable_eq (nnet : NshNet) (key : U32) : nnet.nshFindTable env key =
    Buckets.find env.hash32 NshTable.key nnet.nshTable key := by
  simp only [NshNet.nshFindTable, Buckets.find, BEq.comm]

theorem nshFindTable_congr {nnet nnet' : NshNet} (h : nnet'.nshTable = nnet.nshTable) {key : U32} :
    nnet'.nshFindTable env key = nnet.nshFindTable env key := by
  rw [nshFindTable_eq, nshFindTable_eq, h]

theorem nshFindTable_insert {nnet : NshNet} {key : U32} : NshNet.nshFindTable env { nnet with
    nshTable := Buckets.insert env.hash32 NshTable.key nnet.nshTable nt } key =
    if nt.key = key then some nt else nnet.nshFindTable env key := by
  rw [nshFindTable_eq, nshFindTable_eq, Buckets.find_insert]

theorem Inv.found (h : w.Inv env) {key : U32} (hfind : w.nnet.nshFindTable env key = some nt) :
    w.Target nt := by
  rw [nshFindTable_eq] at hfind
  exact h.targets _ nt (Buckets.find_eq_some hfind).2

theorem mem_kinds_of_find {p : NetDevice → Bool} {d : NetDevice} (h : w.netdevs.find? p = some d) :
    (d.dev, d.nsh) ∈ w.kinds :=
  List.mem_map_of_mem (List.mem_of_find?_eq_some h)

theorem not_registered_iff : ¬ w.isRegistered dev = true ↔ dev ∉ w.kinds.map Prod.fst := by
  simp [isRegistered, kinds]

theorem Inv.kind_eq (h : w.Inv env) {a b : Bool} (ha : (dev, a) ∈ w.kinds)
    (hb : (dev, b) ∈ w.kinds) : a = b :=
  congrArg Prod.snd (List.inj_on_of_nodup_map h.unique ha hb rfl)

theorem Inv.find_dev (h : w.Inv env) {d : NetDevice} (hd : d ∈ w.netdevs) :
    w.netdevs.find? (fun e => e.dev = d.dev) = some d := by
  have hunique : (w.netdevs.map NetDevice.dev).Nodup := by
    have hnodup := h.unique
    unfold kinds at hnodup
    rwa [List.map_map] at hnodup
  cases he : w.netdevs.find? fun e => e.dev = d.dev with
  | none => exact absurd (decide_eq_true rfl) (List.find?_eq_none.mp he d hd)
  | some e =>
    have hdev : e.dev = d.dev := by simpa using List.find?_some he
    exact congrArg some (List.inj_on_of_nodup_map hunique (List.mem_of_find?_eq_some he) hd hdev)

theorem Target.mono (h : w.Target nt) (hlist : ∀ dev ∈ w.devList, dev ∈ w'.devList)
    (hkinds : ∀ lowerdev, (lowerdev, false) ∈ w.kinds → (lowerdev, false) ∈ w'.kinds) :
    w'.Target nt := by
  cases h with
  | none dev hencap hrdst hrdev hdev => exact .none dev hencap hrdst hrdev (hlist dev hdev)
  | vxlan rdst hencap hrdev hrdst => exact .vxlan rdst hencap hrdev hrdst
  | ether rdst lowerdev hencap hrdev hrdst hlower hreg =>
    exact .ether rdst lowerdev hencap hrdev hrdst hlower (hkinds lowerdev hreg)

theorem Inv.congr (h : w.Inv env) (htable : w'.nnet.nshTable = w.nnet.nshTable)
    (hlist : w'.devList = w.devList) (hkinds : w'.kinds = w.kinds) : w'.Inv env where
  buckets := by
    rw [htable]
    exact h.buckets
  targets n nt hnt := by
    rw [htable] at hnt
    apply (h.targets n nt hnt).mono
    · rw [hlist]
      exact fun _ => id
    · rw [hkinds]
      exact fun _ => id
  listed dev := by
    rw [hlist, hkinds]
    exact h.listed dev
  nodup := by
    rw [hlist]
    exact h.nodup
  unique := by
    rw [hkinds]
    exact h.unique

theorem ethChangeMtu_kinds (newMtu : ℤ) : (w.ethChangeMtu dev newMtu).2.kinds = w.kinds := by
  unfold ethChangeMtu
  split
  · rfl
  · unfold kinds
    dsimp only
    rw [List.map_map]
    apply List.map_congr_left
    intro d _
    rw [Function.comp_apply]
    split <;> rfl

theorem Inv.ethChangeMtu (h : w.Inv env) (newMtu : ℤ) : (w.ethChangeMtu dev newMtu).2.Inv env := by
  apply h.congr _ _ (ethChangeMtu_kinds newMtu)
  all_goals
    unfold NshWorld.ethChangeMtu
    split <;> rfl

theorem nshAddTable_cases (env : NshEnv) (w : NshWorld) (key : U32) (mdtype encapType : U8)
    (rdev : Option NetDev) (rdst : Option NshDst) (granted : Bool) :
    (granted = false ∧ (w.nshAddTable env key mdtype encapType rdev rdst granted).2 = w) ∨
    ∃ nt : NshTable, nt.key = key ∧ nt.encapType = encapType ∧ nt.rdev = rdev ∧ nt.rdst = rdst ∧
      (w.nshAddTable env key mdtype encapType rdev rdst granted).2 = { w with nnet := { w.nnet with
        nshTable := Buckets.insert env.hash32 NshTable.key w.nnet.nshTable nt } } := by
  unfold nshAddTable
  cases granted with
  | false => exact .inl ⟨rfl, rfl⟩
  | true =>
    right
    use ⟨key, htonl key >>> 8, (htonl key &&& 0xFF).setWidth 8, mdtype, encapType, rdev, rdst⟩
    exact ⟨rfl, rfl, rfl, rfl, rfl⟩

theorem Inv.nshAddTable (h : w.Inv env) {key : U32} (hnone : w.nnet.nshFindTable env key = none)
    {mdtype encapType : U8} {rdev : Option NetDev} {rdst : Option NshDst} (granted : Bool)
    (htarget : ∀ nt : NshTable, nt.encapType = encapType → nt.rdev = rdev → nt.rdst = rdst →
      w.Target nt) : (w.nshAddTable env key mdtype encapType rdev rdst granted).2.Inv env := by
  rcases nshAddTable_cases env w key mdtype encapType rdev rdst granted with
    ⟨-, hsame⟩ | ⟨nt, rfl, hencap, hrdev, hrdst, hadd⟩
  · rwa [hsame]
  · rw [hadd]
    rw [nshFindTable_eq] at hnone
    have hnew := htarget nt hencap hrdev hrdst
    refine ⟨h.buckets.insert hnone, ?_, h.listed, h.nodup, h.unique⟩
    intro n e he
    have htarget : w.Target e := by
      rcases Buckets.mem_insert he with rfl | he
      · exact hnew
      · exact h.targets n e he
    exact htarget.mono (fun _ => id) fun _ => id

section

variable {a : NshAttrs} {key : U32} {mdtype : U8} {mem : NshMem}

theorem Inv.pathDstSetNone (h : w.Inv env) (hnone : w.nnet.nshFindTable env key = none) :
    (w.pathDstSetNone env a key mdtype mem).2.Inv env := by
  unfold NshWorld.pathDstSetNone
  split
  · exact h
  · split
    · exact h
    · next d hd =>
      split
      · exact h
      · next hnsh =>
        have hkind := mem_kinds_of_find hd
        simp only [Bool.not_eq_true', Bool.not_eq_false] at hnsh
        rw [hnsh, ← h.listed] at hkind
        apply h.nshAddTable hnone
        exact fun nt hencap hrdev hrdst => .none d.dev hencap hrdst hrdev hkind

theorem Inv.pathDstSetVxlan (h : w.Inv env) (hnone : w.nnet.nshFindTable env key = none) :
    (w.pathDstSetVxlan env a key mdtype mem).2.Inv env := by
  unfold NshWorld.pathDstSetVxlan
  split
  · split
    · exact h
    · dsimp only
      split
      · apply Inv.nshAddTable
        · exact h.congr rfl rfl rfl
        · exact hnone
        · exact fun nt hencap hrdev hrdst => .vxlan _ hencap hrdev hrdst
      · split
        · exact h.congr rfl rfl rfl
        · split
          · exact h.congr rfl rfl rfl
          · apply Inv.nshAddTable
            · exact h.congr rfl rfl rfl
            · exact hnone
            · exact fun nt hencap hrdev hrdst => .vxlan _ hencap hrdev hrdst
  · exact h

theorem Inv.pathDstSetEther (h : w.Inv env) (hnone : w.nnet.nshFindTable env key = none) :
    (w.pathDstSetEther env a key mdtype mem).2.Inv env := by
  unfold NshWorld.pathDstSetEther
  split
  · split
    · exact h
    · next lowerdev hlower =>
      split
      · exact h
      · next hnsh =>
        have hkind := mem_kinds_of_find hlower
        rw [Bool.not_eq_true] at hnsh
        rw [hnsh] at hkind
        split
        · exact h
        · apply Inv.nshAddTable
          · exact h.congr rfl rfl rfl
          · exact hnone
          · exact fun nt hencap hrdev hrdst => .ether _ _ hencap hrdev hrdst rfl hkind
  · exact h

theorem Inv.pathDstSet (h : w.Inv env) (a : NshAttrs) (mem : NshMem) :
    (w.nshNlCmdPathDstSet env a mem).2.Inv env := by
  unfold nshNlCmdPathDstSet
  split
  · dsimp only
    split
    · exact h
    · next hnone =>
      split_ifs
      · exact h.pathDstSetNone hnone
      · exact h.pathDstSetVxlan hnone
      · exact h.pathDstSetEther hnone
      · exact h
  · exact h

end

theorem Inv.pathDstUnset (h : w.Inv env) (a : NshAttrs) :
    (w.nshNlCmdPathDstUnset env a).2.Inv env := by
  unfold nshNlCmdPathDstUnset
  split
  · split
    · exact h
    · next nt hnt =>
      have herase : (w.nshDeleteTable env nt).nnet.nshTable =
          Buckets.erase env.hash32 NshTable.key w.nnet.nshTable nt.key := by
        simp only [nshDeleteTable, freeDsts, Buckets.erase, BEq.comm]
      refine ⟨?_, ?_, h.listed, h.nodup, h.unique⟩
      · rw [herase]
        exact h.buckets.erase nt.key
      · intro n e he
        rw [herase] at he
        have hmem : e ∈ w.nnet.nshTable n := Buckets.mem_of_mem_erase he
        exact (h.targets n e hmem).mono (fun _ => id) fun _ => id
  · exact h

/-- What is left after a device has gone, when no entry that is kept points to it. -/
theorem Inv.removed (h : w.Inv env) (dev : NetDev) (keep : NshTable → Bool)
    (htable : w'.nnet.nshTable = fun n => (w.nnet.nshTable n).filter keep)
    (hrdev : ∀ n, ∀ nt ∈ w.nnet.nshTable n, keep nt = true → nt.rdev ≠ some dev)
    (hlower : ∀ nt rdst, keep nt = true → nt.rdst = some rdst → rdst.lowerdev ≠ some dev)
    (hlist : w'.devList = w.devList.erase dev)
    (hkinds : w'.kinds = w.kinds.filter fun k => k.1 ≠ dev) : w'.Inv env where
  buckets := by
    rw [htable]
    exact h.buckets.filter keep
  targets n nt hnt := by
    rw [htable] at hnt
    obtain ⟨hmem, hkeep⟩ := List.mem_filter.mp hnt
    cases h.targets n nt hmem with
    | none d hencap hrdst hd hlisted =>
      apply Target.none d hencap hrdst hd
      have hne : d ≠ dev := by
        rintro rfl
        exact hrdev n nt hmem hkeep hd
      rw [hlist]
      exact (List.mem_erase_of_ne hne).mpr hlisted
    | vxlan rdst hencap hrdev hrdst => exact .vxlan rdst hencap hrdev hrdst
    | ether rdst lowerdev hencap hrdev hrdst hl hreg =>
      apply Target.ether rdst lowerdev hencap hrdev hrdst hl
      have hne : lowerdev ≠ dev := by
        rintro rfl
        exact hlower nt rdst hkeep hrdst hl
      rw [hkinds]
      exact List.mem_filter.mpr ⟨hreg, by simpa using hne⟩
  listed d := by
    rw [hlist, hkinds, h.nodup.mem_erase_iff, List.mem_filter, h.listed]
    simp [and_comm]
  nodup := by
    rw [hlist]
    exact h.nodup.erase dev
  unique := by
    rw [hkinds]
    exact h.unique.sublist (List.filter_sublist.map _)

theorem unregister_kinds : (w.unregisterNetdevice dev).kinds =
    w.kinds.filter fun k => k.1 ≠ dev := by
  change (w.netdevs.filter fun d => d.dev ≠ dev).map _ = _
  unfold kinds
  rw [List.filter_map]
  rfl

theorem ne_of_not_goesOver {rdst : NshDst} (h : (!nt.goesOver dev) = true)
    (hrdst : nt.rdst = some rdst) : rdst.lowerdev ≠ some dev := by
  unfold NshTable.goesOver at h
  rw [hrdst] at h
  simpa using h

theorem Inv.nshDellink (h : w.Inv env) (dev : NetDev) : (w.nshDellink dev).2.Inv env := by
  apply h.removed dev (fun nt => !decide (nt.rdev = some dev) && !nt.goesOver dev)
  · funext n
    change (((w.nnet.nshTable n).filter _).filter _) = _
    rw [List.filter_filter]
    apply List.filter_congr
    intro nt _
    exact Bool.and_comm ..
  · intro n nt _ hkeep
    simpa using (Bool.and_eq_true_iff.mp hkeep).1
  · intro nt rdst hkeep hrdst
    exact ne_of_not_goesOver (Bool.and_eq_true_iff.mp hkeep).2 hrdst
  · rfl
  · exact unregister_kinds

theorem Inv.lowerUnregister (h : w.Inv env) (hlower : (dev, false) ∈ w.kinds) :
    (w.unregisterNetdevice dev).Inv env := by
  have hout : dev ∉ w.devList := by
    intro hdev
    have hkind := h.kind_eq hlower ((h.listed dev).mp hdev)
    cases hkind
  apply h.removed dev (fun nt => !nt.goesOver dev)
  · rfl
  · intro n nt hnt _ hrdev
    cases h.targets n nt hnt with
    | none d _ _ hd hlisted =>
      obtain rfl := Option.some.inj (hd.symm.trans hrdev)
      exact hout hlisted
    | vxlan _ _ hnone => exact Option.some_ne_none dev (hrdev.symm.trans hnone)
    | ether _ _ _ hnone => exact Option.some_ne_none dev (hrdev.symm.trans hnone)
  · exact fun nt rdst => ne_of_not_goesOver
  · exact (List.erase_of_not_mem hout).symm
  · exact unregister_kinds

/-- A device that was not registered joins the namespace, and the driver's list if it is
an nsh device. -/
theorem Inv.registered (h : w.Inv env) {nsh : Bool} (hnew : ¬ w.isRegistered dev = true)
    (htable : w'.nnet.nshTable = w.nnet.nshTable)
    (hlist : w'.devList = if nsh then w.devList ++ [dev] else w.devList)
    (hkinds : w'.kinds = w.kinds ++ [(dev, nsh)]) : w'.Inv env := by
  rw [not_registered_iff] at hnew
  have hout : dev ∉ w.devList := by
    intro hdev
    exact hnew (List.mem_map_of_mem ((h.listed dev).mp hdev))
  constructor
  case buckets =>
    rw [htable]
    exact h.buckets
  case targets =>
    intro n nt hnt
    rw [htable] at hnt
    apply (h.targets n nt hnt).mono
    · intro d hd
      rw [hlist]
      split
      · exact List.mem_append_left _ hd
      · exact hd
    · intro d hd
      rw [hkinds]
      exact List.mem_append_left _ hd
  case listed =>
    intro d
    rw [hlist, hkinds, List.mem_append, ← h.listed]
    cases nsh <;> simp
  case nodup =>
    rw [hlist]
    split
    · exact List.nodup_append_comm.mp (List.nodup_cons.mpr ⟨hout, h.nodup⟩)
    · exact h.nodup
  case unique =>
    rw [hkinds, List.map_append]
    exact List.nodup_append_comm.mp (List.nodup_cons.mpr ⟨hnew, h.unique⟩)

theorem registerNetdevice_cases (w : NshWorld) (d : NetDevice) (err : ℤ) :
    (∃ code, code ≠ 0 ∧ w.registerNetdevice d err = (code, w)) ∨
    (w.devGetByIndex d.ifindex = none ∧
      w.registerNetdevice d err = (0, { w with netdevs := w.netdevs ++ [d] })) := by
  unfold registerNetdevice
  split_ifs with herr hindex
  · exact .inl ⟨err, herr, rfl⟩
  · exact .inl ⟨-EBUSY, by decide, rfl⟩
  · exact .inr ⟨by simpa using hindex, rfl⟩

theorem Inv.nshNewlink (h : w.Inv env) (hnew : ¬ w.isRegistered dev = true) (ifindex : U32)
    (spi : Option U32) (si : Option U8) (err : ℤ) :
    (w.nshNewlink dev ifindex spi si err).2.Inv env := by
  unfold NshWorld.nshNewlink
  dsimp only
  rcases registerNetdevice_cases _ _ err with ⟨code, hcode, hres⟩ | ⟨-, hres⟩
  · rw [hres, if_pos hcode]
    exact h.congr rfl rfl rfl
  · rw [hres]
    exact h.registered hnew rfl rfl (List.map_append ..)

theorem Inv.lowerRegister (h : w.Inv env) (hnew : ¬ w.isRegistered dev = true) (ifindex : U32)
    (mtu : ℤ) (priv : Option FreshMadcap) : (w.lowerRegister dev ifindex mtu priv).2.Inv env := by
  unfold NshWorld.lowerRegister
  rcases registerNetdevice_cases w _ 0 with ⟨code, hcode, hres⟩ | ⟨-, hres⟩
  · rw [hres]
    dsimp only
    rwa [if_pos hcode]
  · rw [hres]
    exact h.registered hnew rfl rfl (List.map_append ..)

/-- The lower device that the function reads is there. -/
theorem Inv.nshChangeMtuForPath (h : w.Inv env) (hnt : w.Target nt) (dev : NetDev) :
    Ensures (fun _ => False) (w.nshChangeMtuForPath dev nt) (Inv env) := by
  unfold NshWorld.nshChangeMtuForPath
  cases hnt with
  | none _ hencap =>
    rw [hencap]
    exact h
  | vxlan _ hencap =>
    rw [hencap]
    exact h.ethChangeMtu _
  | ether rdst lowerdev hencap _ hrdst hlower hreg =>
    have hfind : (w.netdevs.find? fun d => d.dev = lowerdev).isSome = true := by
      obtain ⟨d, hd, hkind⟩ := List.mem_map.mp hreg
      rw [List.find?_isSome]
      exact ⟨d, hd, decide_eq_true (congrArg Prod.fst hkind)⟩
    obtain ⟨d, hd⟩ := Option.isSome_iff_exists.mp hfind
    simp only [hencap, hrdst, hlower, hd, Option.bind_some]
    exact h.ethChangeMtu _

theorem Inv.devPathSet (h : w.Inv env) (a : NshAttrs) :
    Ensures (fun _ => False) (w.nshNlCmdDevPathSet env a) fun res => res.2.Inv env := by
  unfold nshNlCmdDevPathSet
  split
  · dsimp only
    split
    · exact h
    · next d hd =>
      split
      · exact h
      · split
        · next nt hnt =>
          apply (h.nshChangeMtuForPath (h.found hnt) d.dev).bind
          intro w₁ h₁
          exact h₁.congr rfl rfl rfl
        · exact h.congr rfl rfl rfl
  · exact h

theorem Inv.devPathUnset (h : w.Inv env) (a : NshAttrs) : (w.nshNlCmdDevPathUnset a).2.Inv env := by
  unfold nshNlCmdDevPathUnset
  split
  · exact h
  · split
    · exact h
    · split
      · exact h
      · exact h.congr rfl rfl rfl

/-- One event keeps the table in order and does not touch memory that is gone. -/
theorem Inv.step (h : w.Inv env) (e : Event) :
    Ensures (fun _ => False) (w.step env e) fun res => res.2.Inv env := by
  unfold NshWorld.step
  cases e with
  | newlink dev ifindex spi si err =>
    dsimp only
    rw [ensures_pure]
    split
    · exact h
    · next hnew => exact h.nshNewlink hnew ifindex spi si err
  | dellink dev =>
    dsimp only
    rw [ensures_pure]
    split
    · exact h.nshDellink dev
    · exact h
  | pathDstSet a mem => exact h.pathDstSet a mem
  | pathDstUnset a => exact h.pathDstUnset a
  | devPathSet a => exact h.devPathSet a
  | devPathUnset a => exact h.devPathUnset a
  | lowerRegister dev ifindex mtu priv =>
    dsimp only
    rw [ensures_pure]
    split
    · exact h
    · next hnew => exact h.lowerRegister hnew ifindex mtu priv
  | lowerUnregister dev =>
    dsimp only
    rw [ensures_pure]
    split
    · next hlower =>
      apply h.lowerUnregister
      obtain ⟨d, hd, hkind⟩ := List.any_eq_true.mp hlower
      simp only [Bool.and_eq_true, decide_eq_true_eq, Bool.not_eq_true'] at hkind
      exact List.mem_map.mpr ⟨d, hd, Prod.ext hkind.1 hkind.2⟩
    · exact h

theorem Inv.run (h : w.Inv env) (es : List Event) :
    Ensures (fun _ => False) (w.run env es) (Inv env) := by
  apply ensures_runSteps (C := fun _ _ => True) _ h (along_trivial w es)
  intro w e hw _
  exact (hw.step e).bind fun _ hres => hres

theorem delivered_found {nnet : NshNet} {skb out : SkBuff}
    (h : nshRecv env nnet skb = .delivered dev out) :
    ∃ key nt, nnet.nshFindTable env key = some nt ∧ nt.rdev = some dev := by
  unfold nshRecv at h
  dsimp only at h
  split at h
  · cases h
  · split at h
    · cases h
    · split at h
      · cases h
      · split at h
        · cases h
        · split at h
          · cases h
          · next nt hnt =>
            split at h
            · cases h
            · next d hd =>
              split at h
              · cases h
              · cases h
                exact ⟨_, nt, hnt, hd⟩

theorem Inv.delivers (h : w.Inv env) {skb out : SkBuff}
    (hrecv : nshRecv env w.nnet skb = .delivered dev out) :
    dev ∈ w.devList ∧ (dev, true) ∈ w.kinds := by
  obtain ⟨key, nt, hfind, hrdev⟩ := delivered_found hrecv
  have hdev : dev ∈ w.devList := by
    cases h.found hfind with
    | none d _ _ hd hlisted =>
      obtain rfl := Option.some.inj (hd.symm.trans hrdev)
      exact hlisted
    | vxlan _ _ hnone => exact absurd (hrdev.symm.trans hnone) (Option.some_ne_none dev)
    | ether _ _ _ hnone => exact absurd (hrdev.symm.trans hnone) (Option.some_ne_none dev)
  exact ⟨hdev, (h.listed dev).mp hdev⟩

/-- After every run of events the path table is in order, and a packet is delivered to a
device that exists. -/
theorem path_table_in_order (env : NshEnv) (es : List Event) : ∃ w, run env init es = .ok w ∧
    w.PathTable env ∧ ∀ skb dev out, nshRecv env w.nnet skb = .delivered dev out →
      dev ∈ w.devList ∧ (dev, true) ∈ w.kinds := by
  obtain ⟨w, hrun, hinv⟩ := (inv_init.run es).exists_ok fun _ => id
  exact ⟨w, hrun, hinv.pathTable, fun _ _ _ => hinv.delivers⟩

end NshWorld

end Madcap
