import Madcap.Core.EntryDump
import Madcap.Foundation.Drain
import Madcap.Protocol.NshRequest

/-!
# The dumps of the nsh driver

A record has the attributes of a path or of a device. A dump counts through the buckets
of the path table, or through the list of devices, and puts one record into the buffer
of each call; the buffer has room for it.
-/

namespace Madcap

def nshRecordHead (nt : NshTable) : NshAttrs where
  ifindex := none
  spi := some (htonl nt.key >>> 8)
  si := some ((htonl nt.key &&& 0xFF).setWidth 8)
  mdtype := some nt.mdtype
  encap := some nt.encapType
  remote := none
  localIp := none
  vni := none
  ethaddr := none

/-- `nsh_nl_table_send`, with what is read as the ifindex of the device at an address. -/
def nshNlTableSend (ifindexAt : NetDev → Res U32) (nt : NshTable) : Res NshAttrs :=
  if nt.encapType = NSH_ENCAP_TYPE_NONE then
    match nt.rdev with
    | none => throw .badAccess
    | some dev => do
      let ifindex ← ifindexAt dev
      return { nshRecordHead nt with ifindex := some ifindex }
  else if nt.encapType = NSH_ENCAP_TYPE_VXLAN then
    match nt.rdst with
    | none => throw .badAccess
    | some dst =>
      let record := { nshRecordHead nt with
        remote := some dst.remoteIp
        vni := some dst.vni
        localIp := if dst.localIp ≠ 0 then some dst.localIp else none }
      match dst.lowerdev with
      | none => return record
      | some lowerdev => do
        let ifindex ← ifindexAt lowerdev
        return { record with ifindex := some ifindex }
  else if nt.encapType = NSH_ENCAP_TYPE_ETHER then
    match nt.rdst with
    | none => throw .badAccess
    | some dst =>
      match dst.lowerdev with
      | none => throw .badAccess
      | some lowerdev => do
        let ifindex ← ifindexAt lowerdev
        return { nshRecordHead nt with ifindex := some ifindex, ethaddr := some dst.ethAddr }
  else return nshRecordHead nt

namespace NshWorld

/-- The ifindex of the device at an address. Nothing can be read where there is none. -/
def ifindexAt (w : NshWorld) (dev : NetDev) : Res U32 :=
  match w.netdevs.find? fun d => d.dev = dev with
  | none => throw .badAccess
  | some d => return d.ifindex

def nshNlDevSend (w : NshWorld) (ndev : NetDev) : Res NshAttrs := do
  let key := w.nnet.devKey ndev
  let ifindex ← w.ifindexAt ndev
  return {
    ifindex := some ifindex
    spi := some (htonl key >>> 8)
    si := some ((htonl key &&& 0xFF).setWidth 8)
    mdtype := none
    encap := none
    remote := none
    localIp := none
    vni := none
    ethaddr := none }

def nshNlCmdPathDump (w : NshWorld) (cb : Callback) : Res (Option NshAttrs × Callback) :=
  match bucketsDump cb.args0 ((List.finRange nshHashSize).map w.nnet.nshTable) 0 with
  | (none, cnt) => return (none, { cb with args0 := cnt + 1 })
  | (some nt, cnt) => do
    let record ← nshNlTableSend w.ifindexAt nt
    return (some record, { cb with args0 := cnt + 1 })

def nshNlCmdDevDump (w : NshWorld) (cb : Callback) : Res (Option NshAttrs × Callback) :=
  match chainDump cb.args0 w.devList 0 with
  | (none, cnt) => return (none, { cb with args0 := cnt + 1 })
  | (some ndev, cnt) => do
    let record ← w.nshNlDevSend ndev
    return (some record, { cb with args0 := cnt + 1 })

def paths (w : NshWorld) : List NshTable := (List.finRange nshHashSize).flatMap w.nnet.nshTable

variable {env : NshEnv} {w : NshWorld} {nt : NshTable} {dev : NetDev}

theorem mem_paths : nt ∈ w.paths ↔ ∃ n, nt ∈ w.nnet.nshTable n := by
  simp [paths, List.mem_flatMap]

theorem callTakes_count {α : Type} {call : Callback → Res (Option NshAttrs × Callback)}
    {items : List α} {send : α → Res NshAttrs}
    (hnone : ∀ cb, items[cb.args0]? = none → ∃ cb', call cb = .ok (none, cb'))
    (hsome : ∀ cb a, items[cb.args0]? = some a →
      call cb = send a >>= fun m => .ok (some m, { cb with args0 := cb.args0 + 1 })) (cb : Callback) :
    CallTakes call (fun cb => items.drop cb.args0) send cb := by
  unfold CallTakes
  dsimp only
  by_cases hlt : cb.args0 < items.length
  · rw [List.drop_eq_getElem_cons hlt]
    exact ⟨{ cb with args0 := cb.args0 + 1 }, rfl, hsome cb _ (List.getElem?_eq_getElem hlt)⟩
  · rw [List.drop_of_length_le (Nat.le_of_not_lt hlt)]
    exact hnone cb (List.getElem?_eq_none (Nat.le_of_not_lt hlt))

theorem nshNlCmdPathDump_takes (w : NshWorld) (cb : Callback) :
    CallTakes w.nshNlCmdPathDump (fun cb => w.paths.drop cb.args0) (nshNlTableSend w.ifindexAt) cb := by
  have hwalk (cb : Callback) : bucketsDump cb.args0 ((List.finRange nshHashSize).map w.nnet.nshTable) 0 =
      (w.paths[cb.args0]?, min cb.args0 w.paths.length) := by
    rw [bucketsDump_eq _ _ 0 (Nat.zero_le _), ← List.flatMap_def, Nat.sub_zero, Nat.zero_add]
    rfl
  apply callTakes_count
  · intro cb hnone
    unfold nshNlCmdPathDump
    rw [hwalk, hnone]
    exact ⟨_, rfl⟩
  · intro cb nt hnt
    have hlt := (List.getElem?_eq_some_iff.mp hnt).1
    unfold nshNlCmdPathDump
    rw [hwalk, hnt, Nat.min_eq_left (Nat.le_of_lt hlt)]
    rfl

theorem nshNlCmdDevDump_takes (w : NshWorld) (cb : Callback) :
    CallTakes w.nshNlCmdDevDump (fun cb => w.devList.drop cb.args0) w.nshNlDevSend cb := by
  have hwalk (cb : Callback) : chainDump cb.args0 w.devList 0 =
      (w.devList[cb.args0]?, min cb.args0 w.devList.length) := by
    rw [chainDump_eq _ _ 0 (Nat.zero_le _), Nat.sub_zero, Nat.zero_add]
  apply callTakes_count
  · intro cb hnone
    unfold nshNlCmdDevDump
    rw [hwalk, hnone]
    exact ⟨_, rfl⟩
  · intro cb ndev hndev
    have hlt := (List.getElem?_eq_some_iff.mp hndev).1
    unfold nshNlCmdDevDump
    rw [hwalk, hndev, Nat.min_eq_left (Nat.le_of_lt hlt)]
    rfl

/-- A dump sends one record for each of `items`, in order, and ends, once it is given
enough calls. -/
def DumpsEach {α : Type} (call : Callback → Res (Option NshAttrs × Callback))
    (send : α → Res NshAttrs) (items : List α) : Prop :=
  ∃ records, List.Forall₂ (fun a record => send a = .ok record) items records ∧
    ∀ calls, items.length < calls → drain call calls { args0 := 0, args1 := 0 } = .ok records

/-- A dump that counts through its items is complete exactly when each can be sent. -/
theorem dumpsEach_iff {α : Type} {call : Callback → Res (Option NshAttrs × Callback)}
    {send : α → Res NshAttrs} {items : List α}
    (hcall : ∀ cb, CallTakes call (fun cb => items.drop cb.args0) send cb) :
    DumpsEach call send items ↔ ∀ a ∈ items, ∃ record, send a = .ok record := by
  rw [← sendEach_ok_iff]
  constructor
  · rintro ⟨records, hrecords, -⟩
    exact ⟨records, sendEach_eq_ok.mpr hrecords⟩
  · rintro ⟨records, hrecords⟩
    refine ⟨records, sendEach_eq_ok.mp hrecords, fun calls hcalls => ?_⟩
    rw [drain_eq hcall calls { args0 := 0, args1 := 0 } hcalls]
    exact hrecords

theorem ifindexAt_ok_iff : (∃ ifindex, w.ifindexAt dev = .ok ifindex) ↔ w.isRegistered dev = true := by
  unfold ifindexAt isRegistered
  rw [List.any_eq_true, ← List.find?_isSome]
  cases w.netdevs.find? fun d => d.dev = dev with
  | none => simp [throw, throwThe, MonadExceptOf.throw]
  | some d => simp [pure, Except.pure]

theorem registered_of_mem {nsh : Bool} (h : (dev, nsh) ∈ w.kinds) : w.isRegistered dev = true := by
  by_contra hno
  exact not_registered_iff.mp hno (List.mem_map_of_mem h)

/-- The lower device of each VXLAN entry is null or a registered device. -/
def LinksExist (w : NshWorld) : Prop :=
  ∀ nt ∈ w.paths, nt.encapType = NSH_ENCAP_TYPE_VXLAN → ∀ rdst lowerdev, nt.rdst = some rdst →
    rdst.lowerdev = some lowerdev → w.isRegistered lowerdev = true

theorem Inv.target_of_mem (h : w.Inv env) (hnt : nt ∈ w.paths) : w.Target nt := by
  obtain ⟨n, hn⟩ := mem_paths.mp hnt
  exact h.targets n nt hn

/-- The record of an entry that is in order needs no more than the VXLAN link. -/
theorem Inv.tableSend_iff (h : w.Inv env) (hnt : w.Target nt) :
    (∃ record, nshNlTableSend w.ifindexAt nt = .ok record) ↔
      (nt.encapType = NSH_ENCAP_TYPE_VXLAN → ∀ rdst lowerdev, nt.rdst = some rdst →
        rdst.lowerdev = some lowerdev → w.isRegistered lowerdev = true) := by
  cases hnt with
  | none dev hencap hrdst hrdev hdev =>
    obtain ⟨ifindex, hindex⟩ := ifindexAt_ok_iff.mpr (registered_of_mem ((h.listed dev).mp hdev))
    apply iff_of_true
    · unfold nshNlTableSend
      rw [if_pos hencap, hrdev]
      simp only [hindex]
      exact ⟨_, rfl⟩
    · intro hvxlan
      exact absurd (hencap.symm.trans hvxlan) (by decide)
  | vxlan rdst hencap hrdev hrdst =>
    have hne : ¬ nt.encapType = NSH_ENCAP_TYPE_NONE := by
      rw [hencap]
      decide
    unfold nshNlTableSend
    rw [if_neg hne, if_pos hencap, hrdst]
    dsimp only
    cases hlower : rdst.lowerdev with
    | none =>
      apply iff_of_true ⟨_, rfl⟩
      rintro - dst lowerdev hdst hlow
      obtain rfl := Option.some.inj hdst
      rw [hlower] at hlow
      cases hlow
    | some lowerdev =>
      dsimp only
      constructor
      · rintro ⟨record, hrecord⟩ - dst p hdst hp
        obtain rfl := Option.some.inj hdst
        obtain rfl := Option.some.inj (hlower.symm.trans hp)
        obtain ⟨ifindex, hindex, -⟩ := bind_eq_ok.mp hrecord
        exact ifindexAt_ok_iff.mp ⟨ifindex, hindex⟩
      · intro hreg
        obtain ⟨ifindex, hindex⟩ := ifindexAt_ok_iff.mpr (hreg hencap rdst lowerdev rfl hlower)
        rw [hindex]
        exact ⟨_, rfl⟩
  | ether rdst lowerdev hencap hrdev hrdst hlower hreg =>
    have hne : ¬ nt.encapType = NSH_ENCAP_TYPE_NONE := by
      rw [hencap]
      decide
    have hne' : ¬ nt.encapType = NSH_ENCAP_TYPE_VXLAN := by
      rw [hencap]
      decide
    obtain ⟨ifindex, hindex⟩ := ifindexAt_ok_iff.mpr (registered_of_mem hreg)
    apply iff_of_true
    · unfold nshNlTableSend
      rw [if_neg hne, if_neg hne', if_pos hencap, hrdst]
      simp only [hlower, hindex]
      exact ⟨_, rfl⟩
    · exact fun hvxlan => absurd hvxlan hne'

theorem Inv.devSend (h : w.Inv env) (hdev : dev ∈ w.devList) :
    ∃ record, w.nshNlDevSend dev = .ok record := by
  obtain ⟨ifindex, hindex⟩ := ifindexAt_ok_iff.mpr (registered_of_mem ((h.listed dev).mp hdev))
  unfold nshNlDevSend
  rw [hindex]
  exact ⟨_, rfl⟩

/-- After every run of events both dumps send each entry and each device once and end,
exactly when the links of the VXLAN entries are null or lead to devices. -/
theorem dumps_complete_iff (env : NshEnv) (es : List Event) (w : NshWorld)
    (hrun : run env init es = .ok w) :
    (DumpsEach w.nshNlCmdPathDump (nshNlTableSend w.ifindexAt) w.paths ∧
      DumpsEach w.nshNlCmdDevDump w.nshNlDevSend w.devList) ↔ w.LinksExist := by
  have hinv : w.Inv env := (inv_init.run es).of_eq_ok hrun
  rw [dumpsEach_iff w.nshNlCmdPathDump_takes, dumpsEach_iff w.nshNlCmdDevDump_takes]
  constructor
  · rintro ⟨hpaths, -⟩ nt hnt
    exact (hinv.tableSend_iff (hinv.target_of_mem hnt)).mp (hpaths nt hnt)
  · intro hlinks
    refine ⟨fun nt hnt => ?_, fun dev => hinv.devSend⟩
    exact (hinv.tableSend_iff (hinv.target_of_mem hnt)).mpr (hlinks nt hnt)

def linklessEntry (lowerdev : Option NetDev) : NshTable where
  key := nshKey 1 1
  spi := 1
  si := 1
  mdtype := NSH_BASE_MDTYPE1
  encapType := NSH_ENCAP_TYPE_VXLAN
  rdev := none
  rdst := some { remoteIp := 0x0100000a, localIp := 0, vni := 0, lowerdev := lowerdev, ethAddr := 0 }

def localEntry : NshTable where
  key := nshKey 2 2
  spi := 2
  si := 2
  mdtype := NSH_BASE_MDTYPE1
  encapType := NSH_ENCAP_TYPE_NONE
  rdev := some 7
  rdst := none

def spreadNsh : NshEnv :=
  { plainNsh with
    hash32 := fun key => ⟨(htonl key).toNat % nshHashSize, Nat.mod_lt _ (by decide)⟩ }

/-- A device, a VXLAN path without a link, and a path to the device. -/
def twoChains : List Event :=
  [.newlink 7 3 (some 1) (some 1) 0,
    .pathDstSet linklessRequest (heldMemory none),
    .pathDstSet { linklessRequest with
      ifindex := some 3, spi := some 2, si := some 2, encap := none } (heldMemory none)]

theorem dumps_complete_clean : ∃ w, run spreadNsh init twoChains = .ok w ∧
    w.nnet.nshTable 1 = [linklessEntry none] ∧ w.nnet.nshTable 2 = [localEntry] ∧ w.devList = [7] ∧
      DumpsEach w.nshNlCmdPathDump (nshNlTableSend w.ifindexAt) w.paths ∧
      DumpsEach w.nshNlCmdDevDump w.nshNlDevSend w.devList := by
  have hdumps := dumps_complete_iff spreadNsh twoChains _ rfl
  refine ⟨_, rfl, rfl, rfl, rfl, hdumps.mpr ?_⟩
  intro nt hnt hencap rdst lowerdev hrdst hlower
  obtain ⟨n, hn⟩ := mem_paths.mp hnt
  have hentry : nt = localEntry ∨ nt = linklessEntry none := by
    change nt ∈ Buckets.insert spreadNsh.hash32 NshTable.key
      (Buckets.insert spreadNsh.hash32 NshTable.key (fun _ => []) (linklessEntry none)) localEntry n at hn
    apply (Buckets.mem_insert hn).imp id
    intro hold
    exact (Buckets.mem_insert hold).resolve_right List.not_mem_nil
  rcases hentry with rfl | rfl
  · cases hrdst
  · obtain rfl := Option.some.inj hrdst
    cases hlower

/-- From memory with the address of no device in it the dump stops at a fault. -/
theorem dump_of_stale_memory_fails : ¬ ∀ (env : NshEnv) (es : List Event) (w : NshWorld),
    run env init es = .ok w →
      DumpsEach w.nshNlCmdPathDump (nshNlTableSend w.ifindexAt) w.paths ∧
        DumpsEach w.nshNlCmdDevDump w.nshNlDevSend w.devList := by
  intro h
  have hdumps := h plainNsh [.pathDstSet linklessRequest (heldMemory (some 7))] _ rfl
  have hsent := (dumpsEach_iff (nshNlCmdPathDump_takes _)).mp hdumps.1
  obtain ⟨record, hrecord⟩ := hsent (linklessEntry (some 7))
    (mem_paths.mpr ⟨0, List.mem_cons_self⟩)
  cases hrecord

end NshWorld

end Madcap
