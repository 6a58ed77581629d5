import Madcap.Core.Netlink
import Madcap.Foundation.Cursor
import Madcap.Sfmc.RouteCache

/-!
# The dump of the locator tables

The position of a dump is kept in two counters: the registry counts devices and the
driver counts the entries of one device. What is left to send after a call is a list
that the two counters determine, and each call takes its first element.
-/

namespace Madcap

section

variable {V : Type*}

/-- The inner loop of the drivers' `llt_entry_dump`. -/
def chainDump (idx : ℕ) : List V → ℕ → Option V × ℕ
  | [], cnt => (none, cnt)
  | v :: chain, cnt => if idx > cnt then chainDump idx chain (cnt + 1) else (some v, cnt)

/-- Its outer loop over the buckets, left at the first entry that is found. -/
def bucketsDump (idx : ℕ) : List (List V) → ℕ → Option V × ℕ
  | [], cnt => (none, cnt)
  | chain :: chains, cnt =>
    match chainDump idx chain cnt with
    | (some v, cnt) => (some v, cnt)
    | (none, cnt) => bucketsDump idx chains cnt

theorem chainDump_eq (idx : ℕ) (chain : List V) (cnt : ℕ) (hcnt : cnt ≤ idx) :
    chainDump idx chain cnt = (chain[idx - cnt]?, min idx (cnt + chain.length)) := by
  induction chain generalizing cnt with
  | nil =>
    rw [chainDump, List.getElem?_nil, List.length_nil, Nat.add_zero, Nat.min_eq_right hcnt]
  | cons v chain ih =>
    rw [chainDump]
    split_ifs with hlt
    · rw [ih (cnt + 1) hlt, List.length_cons, show idx - cnt = idx - (cnt + 1) + 1 by omega,
        List.getElem?_cons_succ, Nat.add_right_comm, Nat.add_assoc]
    · have heq : idx = cnt := by omega
      subst heq
      rw [Nat.sub_self, List.getElem?_cons_zero, Nat.min_eq_left (by omega)]

theorem bucketsDump_eq (idx : ℕ) (chains : List (List V)) (cnt : ℕ) (hcnt : cnt ≤ idx) :
    bucketsDump idx chains cnt =
      (chains.flatten[idx - cnt]?, min idx (cnt + chains.flatten.length)) := by
  induction chains generalizing cnt with
  | nil =>
    rw [bucketsDump, List.flatten_nil, List.getElem?_nil, List.length_nil, Nat.add_zero,
      Nat.min_eq_right hcnt]
  | cons chain chains ih =>
    rw [bucketsDump, chainDump_eq idx chain cnt hcnt, List.flatten_cons, List.length_append]
    by_cases hlt : idx - cnt < chain.length
    · rw [List.getElem?_eq_getElem hlt, List.getElem?_append_left hlt, List.getElem?_eq_getElem hlt]
      simp only [Prod.mk.injEq, true_and]
      omega
    · rw [List.getElem?_eq_none (by omega), List.getElem?_append_right (by omega)]
      have hmin : min idx (cnt + chain.length) = cnt + chain.length := by omega
      simp only [hmin]
      rw [ih _ (by omega), Nat.sub_sub, Nat.add_assoc]

end

def Sfmc.sfmcLltEntryDump (s : Sfmc) (cb : Callback) : Option ObjEntry × Callback :=
  let (st, cnt) := bucketsDump cb.args0 ((List.finRange sfmcHashSize).map s.sfmcTable) 0
  (st.map SfmcTable.oe, { cb with args0 := cnt + 1 })

def RavenDev.ravenLltEntryDump (r : RavenDev) (cb : Callback) : Option ObjEntry × Callback :=
  let (rt, cnt) := bucketsDump cb.args0 ((List.finRange ravenHashSize).map r.ravenTable) 0
  (rt.map RavenTable.oe, { cb with args0 := cnt + 1 })

section

variable (net : MadcapNet) (devs : NetDev → MadcapDev)

/-- `madcap_llt_entry_dump`. Another driver's operations would misread the device. -/
def madcapLltEntryDump (dev : NetDev) (cb : Callback) : Res (Option ObjEntry × Callback) :=
  match net.getMadcapOps dev with
  | none => return (none, cb)
  | some ops =>
    match ops, (devs dev).priv with
    | .raven, .raven r => return r.ravenLltEntryDump cb
    | .sfmc, .sfmc s => return s.sfmcLltEntryDump cb
    | _, _ => throw .badAccess

/-- The loop of `madcap_nl_cmd_llt_entry_dump`. A device that has nothing more to send
starts it again at the first slot. The first argument bounds its rounds. -/
def entryDumpLoop (ifindex : U32) :
    ℕ → ℕ → ℕ → ℕ → Callback → Res (Option (ObjEntry × U32) × Callback)
  | 0, _, _, _, _ => throw .outOfFuel
  | fuel + 1, n, cnt, idx, cb =>
    if hn : n < madcapdevPernetNum then
      match net.dumped devs ifindex ⟨n, hn⟩ with
      | none => entryDumpLoop ifindex fuel (n + 1) cnt idx cb
      | some dev =>
        if idx > cnt then entryDumpLoop ifindex fuel (n + 1) (cnt + 1) idx cb
        else do
          let (obj, cb) ← madcapLltEntryDump net devs dev cb
          match obj with
          | none => entryDumpLoop ifindex fuel 0 0 (idx + 1) { args0 := 0, args1 := idx + 1 }
          | some oe => return (some (oe, (devs dev).ifindex), cb)
    else return (none, cb)

/-- `madcap_nl_cmd_llt_entry_dump`, with the value of the attribute for the ifindex. -/
def madcapNlCmdLltEntryDump (attr : Option U32) (cb : Callback) :
    Res (DumpReply ObjEntry × Callback) := do
  let (obj, cb) ← entryDumpLoop net devs (attr.getD 0) (17 * 17) 0 0 cb.args1 cb
  match obj with
  | none => return (.empty, cb)
  | some (oe, sendIfindex) =>
    return (dumpReply (genlMadcapObjSend .lltEntryGet oe.obj.id oe sendIfindex), cb)

end

def MadcapDev.entries (d : MadcapDev) : List ObjEntry :=
  match d.priv with
  | .raven r => ((List.finRange ravenHashSize).flatMap r.ravenTable).map RavenTable.oe
  | .sfmc s => ((List.finRange sfmcHashSize).flatMap s.sfmcTable).map SfmcTable.oe

theorem Sfmc.sfmcLltEntryDump_eq (s : Sfmc) (cb : Callback) :
    s.sfmcLltEntryDump cb =
      ((((List.finRange sfmcHashSize).flatMap s.sfmcTable).map SfmcTable.oe)[cb.args0]?,
        { cb with args0 := min cb.args0 ((List.finRange sfmcHashSize).flatMap s.sfmcTable).length + 1 }) := by
  unfold sfmcLltEntryDump
  rw [bucketsDump_eq cb.args0 _ 0 (Nat.zero_le _), ← List.flatMap_def, Nat.sub_zero, Nat.zero_add,
    List.getElem?_map]

theorem RavenDev.ravenLltEntryDump_eq (r : RavenDev) (cb : Callback) :
    r.ravenLltEntryDump cb =
      ((((List.finRange ravenHashSize).flatMap r.ravenTable).map RavenTable.oe)[cb.args0]?,
        { cb with args0 := min cb.args0 ((List.finRange ravenHashSize).flatMap r.ravenTable).length + 1 }) := by
  unfold ravenLltEntryDump
  rw [bucketsDump_eq cb.args0 _ 0 (Nat.zero_le _), ← List.flatMap_def, Nat.sub_zero, Nat.zero_add,
    List.getElem?_map]

section

variable {net : MadcapNet} {devs : NetDev → MadcapDev} {ifindex : U32} {dev : NetDev}

theorem madcapLltEntryDump_eq (h : MadcapNet.Ok devs net) {n : Fin madcapdevPernetNum}
    (hn : net.dev n = some dev) (cb : Callback) :
    madcapLltEntryDump net devs dev cb = .ok ((devs dev).entries[cb.args0]?,
      { cb with args0 := min cb.args0 (devs dev).entries.length + 1 }) := by
  unfold madcapLltEntryDump MadcapDev.entries
  rw [h.getMadcapOps hn]
  cases hpriv : (devs dev).priv with
  | raven r =>
    simp only [MadcapPriv.ops, RavenDev.ravenLltEntryDump_eq, List.length_map]
    rfl
  | sfmc s =>
    simp only [MadcapPriv.ops, Sfmc.sfmcLltEntryDump_eq, List.length_map]
    rfl

theorem dumped_dev {n : Fin madcapdevPernetNum} (h : net.dumped devs ifindex n = some dev) :
    net.dev n = some dev := by
  unfold MadcapNet.dumped at h
  split at h
  · next hdev =>
    split_ifs at h
    rw [hdev, h]
  · cases h

/-- The devices of a dump from the slot `n` on. -/
def dumpedFrom (net : MadcapNet) (devs : NetDev → MadcapDev) (ifindex : U32) (n : ℕ) : List NetDev :=
  ((List.finRange madcapdevPernetNum).drop n).filterMap (net.dumped devs ifindex)

theorem dumpedFrom_of_lt {n : ℕ} (hn : n < madcapdevPernetNum) :
    dumpedFrom net devs ifindex n =
      match net.dumped devs ifindex ⟨n, hn⟩ with
      | none => dumpedFrom net devs ifindex (n + 1)
      | some dev => dev :: dumpedFrom net devs ifindex (n + 1) := by
  have hdrop : (List.finRange madcapdevPernetNum).drop n =
      ⟨n, hn⟩ :: (List.finRange madcapdevPernetNum).drop (n + 1) := by
    rw [List.drop_eq_getElem_cons (by simpa using hn), List.getElem_finRange]
    rfl
  unfold dumpedFrom
  rw [hdrop, List.filterMap_cons]
  split <;> simp_all

theorem dumpedFrom_of_ge {n : ℕ} (hn : ¬ n < madcapdevPernetNum) :
    dumpedFrom net devs ifindex n = [] := by
  unfold dumpedFrom
  rw [List.drop_of_length_le (by simpa using hn), List.filterMap_nil]

/-- The entries of a dump, each with the ifindex of its device. -/
def dumpedEntries (net : MadcapNet) (devs : NetDev → MadcapDev) (ifindex : U32) :
    List (List (ObjEntry × U32)) :=
  (dumpedFrom net devs ifindex 0).map fun dev =>
    (devs dev).entries.map fun oe => (oe, (devs dev).ifindex)

/-- A call takes the first of what is left, or finds that nothing is left. -/
def Serves (ls : List (List (ObjEntry × U32))) (cb : Callback) (out : Option (ObjEntry × U32))
    (cb' : Callback) : Prop :=
  Cursor.remaining ls cb.args1 cb.args0 =
    match out with
    | none => []
    | some a => a :: Cursor.remaining ls cb'.args1 cb'.args0

/-- The loop serves the dump from any slot on at which the device it looks for is still to
come. Each round brings it closer to the end of the slots, or past one more device. -/
theorem entryDumpLoop_serves (h : MadcapNet.Ok devs net) (fuel n cnt : ℕ) (cb : Callback)
    (hcnt : cnt ≤ cb.args1)
    (htarget : (dumpedFrom net devs ifindex n)[cb.args1 - cnt]? =
      (dumpedFrom net devs ifindex 0)[cb.args1]?)
    (hfuel : ((dumpedFrom net devs ifindex 0).length - cb.args1) * 17 + (16 - n) < fuel) :
    ∃ out cb', entryDumpLoop net devs ifindex fuel n cnt cb.args1 cb = .ok (out, cb') ∧
      Serves (dumpedEntries net devs ifindex) cb out cb' := by
  induction fuel generalizing n cnt cb with
  | zero => omega
  | succ fuel ih =>
    unfold entryDumpLoop
    by_cases hn : n < madcapdevPernetNum
    · have hn16 : n < 16 := hn
      rw [dif_pos hn]
      rw [dumpedFrom_of_lt hn] at htarget
      cases hdump : net.dumped devs ifindex ⟨n, hn⟩ with
      | none =>
        rw [hdump] at htarget
        exact ih (n + 1) cnt cb hcnt htarget (by omega)
      | some dev =>
        rw [hdump] at htarget
        dsimp only at htarget ⊢
        by_cases hlt : cb.args1 > cnt
        · rw [if_pos hlt]
          apply ih (n + 1) (cnt + 1) cb hlt _ (by omega)
          rw [← htarget, show cb.args1 - cnt = cb.args1 - (cnt + 1) + 1 by omega,
            List.getElem?_cons_succ]
        · rw [if_neg hlt, madcapLltEntryDump_eq h (dumped_dev hdump) cb]
          have hidx : (dumpedFrom net devs ifindex 0)[cb.args1]? = some dev := by
            rw [← htarget, show cb.args1 - cnt = 0 by omega, List.getElem?_cons_zero]
          have hlen := (List.getElem?_eq_some_iff.mp hidx).1
          have hlist : (dumpedEntries net devs ifindex)[cb.args1]? =
              some ((devs dev).entries.map fun oe => (oe, (devs dev).ifindex)) := by
            unfold dumpedEntries
            rw [List.getElem?_map, hidx, Option.map_some]
          cases hoe : (devs dev).entries[cb.args0]? with
          | none =>
            obtain ⟨out, cb', hloop, hserves⟩ := ih 0 0 { args0 := 0, args1 := cb.args1 + 1 }
              (Nat.zero_le _) rfl (by dsimp only; omega)
            refine ⟨out, cb', hloop, ?_⟩
            unfold Serves
            rw [Cursor.remaining_next hlist (by rw [List.getElem?_map, hoe, Option.map_none])]
            exact hserves
          | some oe =>
            have hpos := (List.getElem?_eq_some_iff.mp hoe).1
            refine ⟨some (oe, (devs dev).ifindex), _, rfl, ?_⟩
            unfold Serves
            rw [Cursor.remaining_cons hlist (by rw [List.getElem?_map, hoe, Option.map_some])]
            dsimp only
            rw [Nat.min_eq_left (Nat.le_of_lt hpos)]
    · rw [dif_neg hn]
      refine ⟨none, cb, rfl, ?_⟩
      rw [dumpedFrom_of_ge hn, List.getElem?_nil] at htarget
      have hend : (dumpedEntries net devs ifindex)[cb.args1]? = none := by
        unfold dumpedEntries
        rw [List.getElem?_map, ← htarget, Option.map_none]
      exact Cursor.remaining_end hend

/-- What the dump sends for an entry and the ifindex of its device. -/
def sendEntry (a : ObjEntry × U32) : Option (ObjMsg ObjEntry) :=
  (genlMadcapObjSend .lltEntryGet a.1.obj.id a.1 a.2).2

theorem dumpedFrom_zero (h : MadcapNet.Ok devs net) :
    dumpedFrom net devs ifindex 0 = net.selected devs ifindex := h.dumped_eq ifindex

theorem selected_length_le (net : MadcapNet) (devs : NetDev → MadcapDev) (ifindex : U32) : (net.selected devs ifindex).length ≤ 16 := by
  unfold MadcapNet.selected MadcapNet.devices
  have hfilter := List.length_filter_le (fun dev => decide (ifindex = 0 ∨ (devs dev).ifindex = ifindex))
    ((List.finRange madcapdevPernetNum).filterMap net.dev)
  have hmap := List.length_filterMap_le net.dev (List.finRange madcapdevPernetNum)
  rw [List.length_finRange] at hmap
  exact hfilter.trans hmap

theorem entryDumpLoop_returns (h : MadcapNet.Ok devs net) (ifindex : U32) (cb : Callback) :
    ∃ out cb', entryDumpLoop net devs ifindex (17 * 17) 0 0 cb.args1 cb = .ok (out, cb') ∧
      Serves (dumpedEntries net devs ifindex) cb out cb' := by
  apply entryDumpLoop_serves h (17 * 17) 0 0 cb (Nat.zero_le _) rfl
  have hlen := selected_length_le net devs ifindex
  rw [dumpedFrom_zero h]
  omega

theorem madcapNlCmdLltEntryDump_sends (h : MadcapNet.Ok devs net) (attr : Option U32)
    (cb : Callback) : CallSends (madcapNlCmdLltEntryDump net devs attr)
      (fun cb => Cursor.remaining (dumpedEntries net devs (attr.getD 0)) cb.args1 cb.args0)
      sendEntry cb := by
  obtain ⟨out, cb', hloop, hserves⟩ := entryDumpLoop_returns h (attr.getD 0) cb
  unfold Serves at hserves
  cases out with
  | none =>
    refine ⟨.empty, cb', ?_, ?_⟩
    · unfold madcapNlCmdLltEntryDump
      rw [hloop]
      rfl
    · dsimp only
      rw [hserves]
  | some a =>
    obtain ⟨oe, sendIfindex⟩ := a
    have hcall : madcapNlCmdLltEntryDump net devs attr cb =
        .ok (dumpReply (genlMadcapObjSend .lltEntryGet oe.obj.id oe sendIfindex), cb') := by
      unfold madcapNlCmdLltEntryDump
      rw [hloop]
      rfl
    refine ⟨_, cb', hcall, ?_⟩
    dsimp only
    rw [hserves, dumpReply_send]
    dsimp only [sendEntry]
    cases (genlMadcapObjSend .lltEntryGet oe.obj.id oe sendIfindex).2 with
    | none => rfl
    | some msg => exact ⟨rfl, rfl⟩

/-- The messages for the entries of the selected devices, device by device. -/
def entryMessages (net : MadcapNet) (devs : NetDev → MadcapDev) (ifindex : U32) :
    List (ObjMsg ObjEntry) :=
  (net.selected devs ifindex).flatMap fun dev => (devs dev).entries.map fun oe =>
    { cmd := .lltEntryGet, attr := .objEntry, obj := oe, ifindex := some (devs dev).ifindex }

def entryMsg (a : ObjEntry × U32) : ObjMsg ObjEntry :=
  { cmd := .lltEntryGet, attr := .objEntry, obj := a.1, ifindex := some a.2 }

theorem entryMessages_eq (h : MadcapNet.Ok devs net) :
    entryMessages net devs ifindex = (dumpedEntries net devs ifindex).flatten.map entryMsg := by
  unfold entryMessages dumpedEntries
  rw [dumpedFrom_zero h, List.map_flatten, List.map_map, List.flatMap_def]
  simp only [Function.comp_def, List.map_map]
  rfl

theorem sendEntry_eq {a : ObjEntry × U32} (hid : a.1.obj.id = MADCAP_OBJ_ID_LLT_ENTRY)
    (hne : a.2 ≠ 0) : sendEntry a = some (entryMsg a) := by
  have hattr : objAttr a.1.obj.id = some .objEntry := by
    rw [hid]
    rfl
  simp only [sendEntry, genlMadcapObjSend, hattr, if_pos hne]
  rfl

theorem sendAll_entries (h : MadcapNet.Ok devs net) (ifindex : U32)
    (hids : ∀ dev ∈ net.devices, ∀ oe ∈ (devs dev).entries, oe.obj.id = MADCAP_OBJ_ID_LLT_ENTRY) :
    sendAll sendEntry (dumpedEntries net devs ifindex).flatten =
      (entryMessages net devs ifindex, 0) := by
  have hsend : ∀ a ∈ (dumpedEntries net devs ifindex).flatten, sendEntry a = some (entryMsg a) := by
    intro a ha
    obtain ⟨l, hl, hal⟩ := List.mem_flatten.mp ha
    unfold dumpedEntries at hl
    obtain ⟨dev, hdev, rfl⟩ := List.mem_map.mp hl
    obtain ⟨oe, hoe, rfl⟩ := List.mem_map.mp hal
    rw [dumpedFrom_zero h] at hdev
    exact sendEntry_eq (hids dev (List.mem_of_mem_filter hdev) oe hoe) (devs dev).ifindex_ne
  rw [sendAll_of_all fun a ha => by rw [hsend a ha]; rfl, List.filterMap_congr hsend,
    List.filterMap_eq_map', entryMessages_eq h]

/-- A dump of the locator tables returns from every call and sends each entry of each
registered device that passes the filter once, with the ifindex of the device. -/
theorem entry_dump_complete (devs : NetDev → MadcapDev) (es : List MadcapNet.Event)
    (attr : Option U32) (hids : ∀ dev ∈ (MadcapNet.run devs es).devices,
      ∀ oe ∈ (devs dev).entries, oe.obj.id = MADCAP_OBJ_ID_LLT_ENTRY) :
    (MadcapNet.run devs es).devices.Nodup ∧
    (∀ cb, ∃ res, madcapNlCmdLltEntryDump (MadcapNet.run devs es) devs attr cb = .ok res) ∧
    ∀ calls, (entryMessages (MadcapNet.run devs es) devs (attr.getD 0)).length < calls →
      netlinkDump (madcapNlCmdLltEntryDump (MadcapNet.run devs es) devs attr) calls
        { args0 := 0, args1 := 0 } =
          .ok (entryMessages (MadcapNet.run devs es) devs (attr.getD 0), 0) := by
  have h := MadcapNet.ok_run devs es
  refine ⟨h.devices_nodup, fun cb => ?_, fun calls hcalls => ?_⟩
  · obtain ⟨reply, cb', hcall, -⟩ := madcapNlCmdLltEntryDump_sends h attr cb
    exact ⟨_, hcall⟩
  · have hall := sendAll_entries h (attr.getD 0) hids
    have hrun := netlinkDump_eq (madcapNlCmdLltEntryDump_sends h attr) calls
      { args0 := 0, args1 := 0 }
    dsimp only at hrun
    rw [Cursor.remaining_start, hall] at hrun
    apply hrun
    rwa [entryMessages_eq h, List.length_map] at hcalls

end

/-- A software device with an empty table and a raven device with two entries in one bucket. -/
def twoDevices (dev : NetDev) : MadcapDev :=
  if dev = 0 then freshSfmc
  else
    { ifindex := 3, ifindex_ne := by decide
      priv := .raven (ravenSetup.run oneBucket [.lltEntryAdd connectedEntry true,
        .lltEntryAdd { connectedEntry with id := 1 } true]) }

def holeRun : List MadcapNet.Event := [.register 0, .register 2, .register 1, .unregister 2]

/-- Both entries of the raven device are sent. -/
theorem entry_dump_complete_hole :
    netlinkDump (madcapNlCmdLltEntryDump (MadcapNet.run twoDevices holeRun) twoDevices none) 3
      { args0 := 0, args1 := 0 } =
        .ok ([entryMsg ({ connectedEntry with id := 1 }, 3), entryMsg (connectedEntry, 3)], 0) := by
  have hmsgs : entryMessages (MadcapNet.run twoDevices holeRun) twoDevices 0 =
      [entryMsg ({ connectedEntry with id := 1 }, 3), entryMsg (connectedEntry, 3)] := by
    decide +kernel
  have hdump := (entry_dump_complete twoDevices holeRun none (by decide +kernel)).2.2 3
  rw [Option.getD_none, hmsgs] at hdump
  exact hdump (by decide)

end Madcap
