import Madcap.Config
import Madcap.Iproute.Session
import Madcap.Iproute.Show
import Madcap.Raven.Table
import Madcap.Sfmc.Frame

/-!
# Locator tables that are printed and read back

What `ip madcap show` prints is given back to `ip madcap add`, line by line, when the devices
have been set up anew. A table is filled in the order in which its chains are printed, so that
entries of one identifier come to lie in opposite order.
-/

namespace Madcap

/-- A device that has just been set up. -/
inductive MadcapPriv.Fresh : MadcapPriv → Prop
  | ravenSetup : Fresh (.raven ravenSetup)
  | sfmcInit (permAddr : Mac) : Fresh (.sfmc (sfmcInit permAddr (freshZone fun _ => true)))

/-- An entry as the tool sends it. -/
structure ObjEntry.Sent (oe : ObjEntry) : Prop where
  obj : oe.obj = { id := MADCAP_OBJ_ID_LLT_ENTRY, tbId := 0 }
  given : ¬ (oe.id = 0 ∧ oe.dst = 0)

/-- What the tool adds are entries that it sends. -/
def Action.Sent : Action → Prop
  | .lltEntryAdd _ oe => oe.Sent
  | _ => True

theorem MadcapParam.entryAction_sent {p : MadcapParam} {a : Action} {act : U32 → ObjEntry → Action}
    (h : p.entryAction act = .ok a) (hact : ∀ ifindex oe, oe.Sent → (act ifindex oe).Sent) :
    a.Sent := by
  unfold entryAction at h
  split_ifs at h with hgiven
  obtain rfl := Except.ok.inj h
  exact hact _ _ ⟨rfl, fun hzero => hgiven (.inl hzero)⟩

theorem MadcapParam.setAction_sent {p : MadcapParam} {a : Action} (h : p.setAction = .ok a) :
    a.Sent := by
  unfold setAction at h
  split_ifs at h
  · obtain rfl := Except.ok.inj h
    trivial
  · obtain rfl := Except.ok.inj h
    trivial

theorem commandAction_sent {tool : ToolEnv} {argv : List CString} {a : Action}
    (h : commandAction tool argv = .ok a) : a.Sent := by
  cases argv with
  | nil => cases h
  | cons word argv =>
    unfold commandAction at h
    cases hargs : parseArgs tool argv with
    | error e =>
      simp only [hargs] at h
      split_ifs at h <;> cases h
    | ok p =>
      simp only [hargs] at h
      split_ifs at h
      · exact p.entryAction_sent h fun _ _ hoe => hoe
      · exact p.entryAction_sent h fun _ _ _ => trivial
      · exact p.setAction_sent h
      · obtain rfl := Except.ok.inj h
        trivial

/-- Entries are in their buckets and as the tool sends them. A software device has each
identifier once, and memory for more. -/
def MadcapPriv.Kept (env : Env) : MadcapPriv → Prop
  | .raven r => ∀ n, ∀ rt ∈ r.ravenTable n, env.hash64 rt.oe.id = n ∧ rt.oe.Sent
  | .sfmc s => s.TableReady env ∧ ∀ n, ∀ st ∈ s.sfmcTable n, st.oe.Sent

section

variable {env : Env} {r : RavenDev} {s : Sfmc} {a : Action} {granted : Bool}

theorem MadcapPriv.Fresh.kept {priv : MadcapPriv} (h : priv.Fresh) (env : Env) : priv.Kept env := by
  cases h with
  | ravenSetup => exact fun n rt hrt => absurd hrt List.not_mem_nil
  | sfmcInit permAddr =>
    exact ⟨Sfmc.tableReady_init env permAddr, fun n st hst => absurd hst List.not_mem_nil⟩

theorem RavenDev.kept_act (h : (MadcapPriv.raven r).Kept env) (ha : a.Sent) :
    (MadcapPriv.raven (r.act env granted a).2).Kept env := by
  cases a with
  | lltConfig ifindex oc =>
    change (MadcapPriv.raven (r.ravenLltCfg oc).2).Kept env
    unfold ravenLltCfg
    split_ifs
    · intro n rt hrt
      rw [show (r.ravenTableDestroy).ravenTable n = [] from destroyBucket_nil _] at hrt
      cases hrt
    · exact h
  | lltEntryAdd ifindex oe =>
    change (MadcapPriv.raven (r.ravenLltEntryAdd env oe granted).2).Kept env
    cases granted with
    | false => exact h
    | true =>
      have htable : (r.ravenLltEntryAdd env oe true).2.ravenTable =
          Buckets.insert env.hash64 (fun rt : RavenTable => rt.oe.id) r.ravenTable { oe := oe } := rfl
      intro n rt hrt
      rw [htable] at hrt
      have hplaced := Buckets.placed_insert (fun n rt hrt => (h n rt hrt).1) n rt hrt
      rcases Buckets.mem_insert hrt with rfl | hrt
      · exact ⟨hplaced, ha⟩
      · exact h n rt hrt
  | lltEntryDel ifindex oe =>
    change (MadcapPriv.raven (r.ravenLltEntryDel env oe).2).Kept env
    unfold ravenLltEntryDel
    cases r.ravenTableFind env oe.id with
    | none => exact h
    | some rt =>
      have htable : (r.ravenTableDelete env oe.id).ravenTable =
          Buckets.erase env.hash64 (fun rt : RavenTable => rt.oe.id) r.ravenTable oe.id := by
        simp only [ravenTableDelete, Buckets.erase, BEq.comm]
      intro n rt' hrt
      dsimp only at hrt
      rw [htable] at hrt
      exact h n rt' (Buckets.mem_of_mem_erase hrt)
  | udpConfig ifindex ou => exact h
  | dump cmd ifindex => exact h

theorem Sfmc.kept_act (h : (MadcapPriv.sfmc s).Kept env) (ha : a.Sent) :
    (MadcapPriv.sfmc (s.act env a).2).Kept env := by
  cases a with
  | lltConfig ifindex oc =>
    change (MadcapPriv.sfmc (s.sfmcLltCfg oc.fields).2).Kept env
    unfold sfmcLltCfg
    split_ifs
    · have hready := h.1.next .destroy
      refine ⟨hready, fun n st hst => ?_⟩
      change st ∈ s.sfmcTableDestroy.sfmcTable n at hst
      rw [sfmcTableDestroy_table] at hst
      cases hst
    · exact h
  | lltEntryAdd ifindex oe =>
    have hready := h.1.next (.add oe)
    refine ⟨hready, fun n st hst => ?_⟩
    change st ∈ (s.sfmcLltEntryAdd env oe).2.sfmcTable n at hst
    rcases s.sfmcLltEntryAdd_cases h.1.2 env oe with ⟨-, heq⟩ | ⟨-, heq⟩
    · rw [heq] at hst
      exact h.2 n st hst
    · rw [heq] at hst
      dsimp only at hst
      rw [sfmcTableAdd_table] at hst
      rcases Buckets.mem_insert hst with rfl | hst
      · exact ha
      · exact h.2 n st hst
  | lltEntryDel ifindex oe =>
    have hready := h.1.next (.del oe)
    refine ⟨hready, fun n st hst => ?_⟩
    change st ∈ (s.sfmcLltEntryDel env oe).2.sfmcTable n at hst
    rcases s.sfmcLltEntryDel_cases env oe with ⟨-, heq⟩ | ⟨-, heq⟩
    · rw [heq] at hst
      exact h.2 n st (Buckets.mem_of_mem_erase hst)
    · rw [heq] at hst
      exact h.2 n st hst
  | udpConfig ifindex ou => exact h
  | dump cmd ifindex => exact h

theorem MadcapDev.kept_act {d : MadcapDev} (h : d.priv.Kept env) (ha : a.Sent) :
    (d.act env granted a).2.priv.Kept env := by
  unfold act
  cases hpriv : d.priv with
  | raven r =>
    rw [hpriv] at h
    exact RavenDev.kept_act h ha
  | sfmc s =>
    rw [hpriv] at h
    exact Sfmc.kept_act h ha

end

/-- The entries for an identifier. A lookup finds the first. -/
def MadcapDev.held (env : Env) (d : MadcapDev) (id : U64) : List ObjEntry :=
  match d.priv with
  | .raven r => (r.stack env id).map RavenTable.oe
  | .sfmc s => (Buckets.stack env.hash64 (fun st : SfmcTable => st.oe.id) s.sfmcTable id).map SfmcTable.oe

section

variable {env : Env} {d : MadcapDev} {id : U64}

theorem map_filter_oe {α : Type} (oe : α → ObjEntry) (l : List α) (id : U64) :
    (l.map oe).filter (fun e => e.id == id) = (l.filter fun a => (oe a).id == id).map oe := by
  rw [List.filter_map]
  rfl

theorem filter_entries (h : d.priv.Kept env) (id : U64) :
    (d.entries.filter fun oe => oe.id == id) = d.held env id := by
  unfold MadcapDev.entries MadcapDev.held
  cases hpriv : d.priv with
  | raven r =>
    rw [hpriv] at h
    rw [map_filter_oe]
    congr 1
    exact Buckets.filter_flatMap (fun n rt hrt => (h n rt hrt).1) (List.nodup_finRange _)
      (List.mem_finRange _)
  | sfmc s =>
    rw [hpriv] at h
    rw [map_filter_oe]
    congr 1
    exact Buckets.filter_flatMap h.1.1.placed (List.nodup_finRange _) (List.mem_finRange _)

theorem entries_sent (h : d.priv.Kept env) : ∀ oe ∈ d.entries, oe.Sent := by
  unfold MadcapDev.entries
  intro oe hoe
  cases hpriv : d.priv with
  | raven r =>
    rw [hpriv] at h hoe
    obtain ⟨rt, hrt, rfl⟩ := List.mem_map.mp hoe
    obtain ⟨n, -, hn⟩ := List.mem_flatMap.mp hrt
    exact (h n rt hn).2
  | sfmc s =>
    rw [hpriv] at h hoe
    obtain ⟨st, hst, rfl⟩ := List.mem_map.mp hoe
    obtain ⟨n, -, hn⟩ := List.mem_flatMap.mp hst
    exact h.2 n st hn

theorem nodup_entries (h : d.priv.Kept env) (hsfmc : d.priv.ops = .sfmc) :
    (d.entries.map ObjEntry.id).Nodup := by
  unfold MadcapDev.entries
  cases hpriv : d.priv with
  | raven r =>
    rw [hpriv] at hsfmc
    cases hsfmc
  | sfmc s =>
    rw [hpriv] at h
    rw [List.map_map]
    exact h.1.actsAsMap.nodup

theorem held_reverse (h : d.priv.Kept env) (hsfmc : d.priv.ops = .sfmc) (id : U64) :
    (d.held env id).reverse = d.held env id := by
  have hnodup := (nodup_entries h hsfmc).filter fun id' => id' == id
  rw [List.filter_map] at hnodup
  change ((d.entries.filter fun oe => oe.id == id).map ObjEntry.id).Nodup at hnodup
  rw [filter_entries h] at hnodup
  have hids : ∀ oe ∈ d.held env id, oe.id = id := by
    intro oe hoe
    rw [← filter_entries h] at hoe
    exact beq_iff_eq.mp (List.mem_filter.mp hoe).2
  match hheld : d.held env id with
  | [] => rfl
  | [oe] => rfl
  | oe :: oe' :: oes =>
    rw [hheld] at hnodup hids
    have hne := (List.nodup_cons.mp hnodup).1
    rw [List.map_cons, hids oe List.mem_cons_self,
      hids oe' (List.mem_cons_of_mem _ List.mem_cons_self)] at hne
    exact absurd List.mem_cons_self hne

/-- The next add of an identifier succeeds. -/
def MadcapPriv.Accepts (env : Env) (id : U64) : MadcapPriv → Prop
  | .raven _ => True
  | .sfmc s => s.Granted ∧ s.sfmcTableFind env id = none

theorem MadcapDev.act_add (ifindex : U32) {oe : ObjEntry} (h : d.priv.Accepts env oe.id) :
    (d.act env true (.lltEntryAdd ifindex oe)).1 = 0 ∧
    (∀ id, (d.act env true (.lltEntryAdd ifindex oe)).2.held env id =
      if oe.id = id then oe :: d.held env id else d.held env id) ∧
    ∀ id, (d.priv.ops = .sfmc → oe.id ≠ id) → d.priv.Accepts env id →
      (d.act env true (.lltEntryAdd ifindex oe)).2.priv.Accepts env id := by
  cases hpriv : d.priv with
  | raven r =>
    have hact : d.act env true (.lltEntryAdd ifindex oe) =
        (0, { d with priv := .raven (r.ravenLltEntryAdd env oe true).2 }) := by
      unfold act
      rw [hpriv]
      rfl
    rw [hact]
    refine ⟨rfl, fun id => ?_, fun id _ _ => trivial⟩
    unfold held
    rw [hpriv]
    dsimp only
    rw [RavenDev.stack_add]
    split_ifs <;> rfl
  | sfmc s =>
    rw [hpriv] at h
    obtain ⟨hg, hnone⟩ := h
    rcases s.sfmcLltEntryAdd_cases hg env oe with ⟨hsome, -⟩ | ⟨-, heq⟩
    · rw [hnone] at hsome
      cases hsome
    have hact : d.act env true (.lltEntryAdd ifindex oe) =
        (0, { d with priv := .sfmc (s.requested.sfmcTableAdd env oe) }) := by
      unfold act
      rw [hpriv]
      dsimp only [Sfmc.act]
      rw [heq]
    rw [hact]
    refine ⟨rfl, fun id => ?_, fun id hne hid => ⟨hg, ?_⟩⟩
    · unfold held
      rw [hpriv]
      dsimp only
      rw [Sfmc.sfmcTableAdd_table, Buckets.stack_insert]
      dsimp only
      split_ifs <;> rfl
    · rw [Sfmc.find_add, if_neg (hne rfl)]
      exact hid.2

theorem answers_adds (env : Env) (ifindex : U32) (oes : List ObjEntry) (d : MadcapDev)
    (haccepts : ∀ oe ∈ oes, d.priv.Accepts env oe.id)
    (hnodup : d.priv.ops = .sfmc → (oes.map ObjEntry.id).Nodup) :
    (∀ code ∈ (answers (fun d (told : Action × Bool) => MadcapDev.act env told.2 d told.1) d
      (oes.map fun oe => (.lltEntryAdd ifindex oe, true))).1, code = 0) ∧
    ∀ id, (answers (fun d (told : Action × Bool) => MadcapDev.act env told.2 d told.1) d
      (oes.map fun oe => (.lltEntryAdd ifindex oe, true))).2.held env id =
        (oes.filter fun oe => oe.id == id).reverse ++ d.held env id := by
  induction oes generalizing d with
  | nil => exact ⟨fun code hcode => absurd hcode List.not_mem_nil, fun id => rfl⟩
  | cons oe oes ih =>
    obtain ⟨hcode, hheld, hkeep⟩ := MadcapDev.act_add ifindex
      (haccepts oe List.mem_cons_self)
    have hops := (d.act_ops env true (.lltEntryAdd ifindex oe)).1
    obtain ⟨hcodes, hrest⟩ := ih (d.act env true (.lltEntryAdd ifindex oe)).2
      (fun oe' hoe' => hkeep oe'.id
        (fun hsfmc heq => (List.nodup_cons.mp (hnodup hsfmc)).1
          (heq ▸ List.mem_map_of_mem hoe'))
        (haccepts oe' (List.mem_cons_of_mem oe hoe')))
      (fun hsfmc => (List.nodup_cons.mp (hnodup (hops.symm.trans hsfmc))).2)
    rw [List.map_cons, answers]
    refine ⟨List.forall_mem_cons.mpr ⟨hcode, hcodes⟩, fun id => ?_⟩
    dsimp only
    rw [hrest id, hheld, List.filter_cons]
    by_cases hid : oe.id = id
    · rw [if_pos hid, if_pos (beq_iff_eq.mpr hid), List.reverse_cons, List.append_assoc]
      rfl
    · rw [if_neg hid, if_neg (by simpa using hid)]

theorem MadcapPriv.Fresh.accepts {priv : MadcapPriv} (h : priv.Fresh) (id : U64) :
    priv.Accepts env id := by
  cases h with
  | ravenSetup => trivial
  | sfmcInit permAddr => exact ⟨fun _ => rfl, rfl⟩

theorem MadcapPriv.Fresh.held (h : d.priv.Fresh) (id : U64) : d.held env id = [] := by
  unfold MadcapDev.held
  cases hpriv : d.priv with
  | raven r =>
    rw [hpriv] at h
    cases h
    rfl
  | sfmc s =>
    rw [hpriv] at h
    cases h
    rfl

end

/-- A device is known by one name, which is one word of a line. -/
structure Named (tool : ToolEnv) (devGetByIndex : U32 → Option NetDev) (ifindex : U32)
    (dev : NetDev) : Prop where
  isWord : IsWord (devName tool ifindex)
  nametoindex : tool.ifs.nametoindex (devName tool ifindex) = ifindex
  getByIndex : devGetByIndex ifindex = some dev

/-- The words of `ip madcap add` and a line. -/
def addLine (line : CString) : List CString := "add".toList :: lineWords line

def deviceLine (tool : ToolEnv) (devs : NetDev → MadcapDev) (p : NetDev × ObjEntry) : CString :=
  entryLine (devName tool (devs p.1).ifindex) p.2.id p.2.dst

/-- The entries of the registered devices, in the order of the dump. -/
def savedEntries (net : MadcapNet) (devs : NetDev → MadcapDev) : List (NetDev × ObjEntry) :=
  net.devices.flatMap fun dev => (devs dev).entries.map fun oe => (dev, oe)

section

variable {env : Env} {net : MadcapNet} {devs : NetDev → MadcapDev}
  {devGetByIndex : U32 → Option NetDev} {nlmsgParse : List U8 → Option GenlInfo} {tool : ToolEnv}

theorem entryMessages_saved : entryMessages net devs 0 = (savedEntries net devs).map fun p =>
    entryMsg (p.2, (devs p.1).ifindex) := by
  unfold entryMessages savedEntries MadcapNet.selected
  rw [List.filter_eq_self.mpr fun dev _ => decide_eq_true (.inl rfl), List.map_flatMap]
  simp only [List.map_map]
  rfl

theorem entryDump_saved (h : MadcapNet.Ok devs net) (hkept : ∀ dev, (devs dev).priv.Kept env)
    (calls : ℕ) (hcalls : (entryMessages net devs 0).length < calls) :
    netlinkDump (madcapNlCmdLltEntryDump net devs none) calls { args0 := 0, args1 := 0 } =
      .ok (entryMessages net devs 0, 0) := by
  have hids : ∀ dev ∈ net.devices, ∀ oe ∈ (devs dev).entries, oe.obj.id = MADCAP_OBJ_ID_LLT_ENTRY := by
    intro dev _ oe hoe
    rw [(entries_sent (hkept dev) oe hoe).obj]
  have hrun := netlinkDump_eq (madcapNlCmdLltEntryDump_sends h none) calls { args0 := 0, args1 := 0 }
  dsimp only at hrun
  rw [Cursor.remaining_start, Option.getD_none, sendAll_entries h 0 hids] at hrun
  apply hrun
  rwa [entryMessages_eq h, List.length_map] at hcalls

theorem mapM_objEntryNlmsg {ps : List (NetDev × ObjEntry)} {ms : List (List U8)}
    (h : List.Forall₂ (ObjMsg.CarriedBy (fun b => (EntryObject.read b).fields) sizeofObjEntry)
      (ps.map fun p => entryMsg (p.2, (devs p.1).ifindex)) ms) :
    ms.mapM (objEntryNlmsg tool) = .ok ((ps.map (deviceLine tool devs)).map fun line => (0, line)) := by
  induction ps generalizing ms with
  | nil =>
    cases h
    rfl
  | cons p ps ih =>
    cases h with
    | cons hp hps =>
      rw [List.mapM_cons, objEntryNlmsg_carriedBy hp rfl rfl]
      simp only [bind, Except.bind]
      rw [ih hps]
      rfl

theorem commandAction_deviceLine {dev : NetDev} {oe : ObjEntry}
    (hname : Named tool devGetByIndex (devs dev).ifindex dev) (herange : tool.erange = false)
    (hoe : oe.Sent) : commandAction tool (addLine (deviceLine tool devs (dev, oe))) =
      .ok (.lltEntryAdd (devs dev).ifindex oe) := by
  have hprinted : printedEntry oe = oe := by
    unfold printedEntry
    rw [← hoe.obj]
  unfold addLine deviceLine
  rw [commandAction_entryLine hname.isWord hname.nametoindex (devs dev).ifindex_ne herange,
    if_neg hoe.given, hprinted]

theorem getMadcapOps_of_mem (h : MadcapNet.Ok devs net) {dev : NetDev} (hdev : dev ∈ net.devices) :
    (net.getMadcapOps dev).isSome := by
  obtain ⟨n, -, hn⟩ := List.mem_filterMap.mp hdev
  rw [h.getMadcapOps hn]
  rfl

theorem toldTo_lines (h : MadcapNet.Ok devs net) (herange : tool.erange = false) (dev : NetDev)
    {ps : List (NetDev × ObjEntry)} (hps : ∀ p ∈ ps, p.1 ∈ net.devices ∧ p.2.Sent ∧
      Named tool devGetByIndex (devs p.1).ifindex p.1) {cs : List Command}
    (hcs : cs.map Command.argv = ps.map fun p => addLine (deviceLine tool devs p))
    (hgranted : ∀ c ∈ cs, c.granted = true) :
    toldTo net devGetByIndex tool dev cs = (ps.filter fun p => p.1 = dev).map fun p =>
      (.lltEntryAdd (devs p.1).ifindex p.2, true) := by
  induction ps generalizing cs with
  | nil =>
    rw [List.map_nil, List.map_eq_nil_iff] at hcs
    rw [hcs]
    rfl
  | cons p ps ih =>
    obtain ⟨c, cs, rfl, hc, hcs⟩ := List.map_eq_cons_iff.mp hcs
    obtain ⟨hmem, hsent, hname⟩ := hps p List.mem_cons_self
    have hrest := ih (fun q hq => hps q (List.mem_cons_of_mem p hq)) hcs
      fun c' hc' => hgranted c' (List.mem_cons_of_mem c hc')
    have hact : commandAction tool c.argv = .ok (.lltEntryAdd (devs p.1).ifindex p.2) := by
      rw [hc]
      exact commandAction_deviceLine hname herange hsent
    have hdevice : (Action.lltEntryAdd (devs p.1).ifindex p.2).device.bind devGetByIndex = some p.1 :=
      hname.getByIndex
    unfold toldTo at hrest ⊢
    by_cases hdev : p.1 = dev
    · rw [List.filter_cons_of_pos (by simpa using hdev), List.map_cons, ← hrest,
        List.filterMap_cons_some]
      rw [hact]
      dsimp only
      rw [if_pos ⟨by rw [hdevice, hdev], hdev ▸ getMadcapOps_of_mem h hmem⟩,
        hgranted c List.mem_cons_self]
    · rw [List.filter_cons_of_neg (by simpa using hdev), ← hrest, List.filterMap_cons_none]
      rw [hact]
      dsimp only
      rw [if_neg]
      rintro ⟨hto, -⟩
      rw [hdevice] at hto
      exact hdev (Option.some.inj hto)

theorem mem_savedEntries {p : NetDev × ObjEntry} (hp : p ∈ savedEntries net devs) :
    p.1 ∈ net.devices ∧ p.2 ∈ (devs p.1).entries := by
  obtain ⟨dev, hdev, hp⟩ := List.mem_flatMap.mp hp
  obtain ⟨oe, hoe, rfl⟩ := List.mem_map.mp hp
  exact ⟨hdev, hoe⟩

theorem filter_savedEntries (h : MadcapNet.Ok devs net) (dev : NetDev) :
    ((savedEntries net devs).filter fun p => p.1 = dev) =
      (if dev ∈ net.devices then (devs dev).entries else []).map fun oe => (dev, oe) := by
  by_cases hdev : dev ∈ net.devices
  · unfold savedEntries
    rw [if_pos hdev, List.filter_flatMap, Buckets.flatMap_eq_of_nodup h.devices_nodup hdev]
    · refine List.filter_eq_self.mpr fun p hp => ?_
      obtain ⟨oe, -, rfl⟩ := List.mem_map.mp hp
      exact decide_eq_true rfl
    · intro dev' _ hne
      refine List.filter_eq_nil_iff.mpr fun p hp => ?_
      obtain ⟨oe, -, rfl⟩ := List.mem_map.mp hp
      simpa using hne
  · rw [if_neg hdev]
    refine List.filter_eq_nil_iff.mpr fun p hp heq => hdev ?_
    rw [← of_decide_eq_true heq]
    exact (mem_savedEntries hp).1

/-- Devices that were fresh, after the runs of a number of command lines. -/
structure Saved (env : Env) (devs saved : NetDev → MadcapDev) : Prop where
  kept : ∀ dev, (saved dev).priv.Kept env
  ops : ∀ dev, (saved dev).priv.ops = (devs dev).priv.ops
  ifindex : ∀ dev, (saved dev).ifindex = (devs dev).ifindex

theorem saved_runs (env : Env) (tool : ToolEnv) (devGetByIndex : U32 → Option NetDev)
    (hparse : FollowsPolicy nlmsgParse) (h : MadcapNet.Ok devs net) (hfresh : ∀ dev, (devs dev).priv.Fresh) (cs : List Command) :
    ∃ replies saved,
      ipMadcapRuns env net devs devGetByIndex nlmsgParse tool cs = .ok (replies, saved) ∧
      Saved env devs saved := by
  obtain ⟨replies, saved, hrun, hdev⟩ := ipMadcap_runs env tool devGetByIndex hparse h cs
  have hsaved (dev : NetDev) : saved dev = (answers (fun d (told : Action × Bool) =>
      MadcapDev.act env told.2 d told.1) (devs dev) (toldTo net devGetByIndex tool dev cs)).2 :=
    congrArg Prod.snd (hdev dev)
  have hsent (dev : NetDev) : ∀ told ∈ toldTo net devGetByIndex tool dev cs, told.1.Sent := by
    intro told htold
    obtain ⟨c, -, hc⟩ := List.mem_filterMap.mp htold
    cases hact : commandAction tool c.argv with
    | error e =>
      rw [hact] at hc
      cases hc
    | ok a =>
      rw [hact] at hc
      dsimp only at hc
      split_ifs at hc
      obtain rfl := Option.some.inj hc
      exact commandAction_sent hact
  have hsame (dev : NetDev) : (saved dev).priv.ops = (devs dev).priv.ops ∧
      (saved dev).ifindex = (devs dev).ifindex := by
    rw [hsaved]
    refine answers_invariant (P := fun d : MadcapDev => d.priv.ops = (devs dev).priv.ops ∧
      d.ifindex = (devs dev).ifindex) (fun d told hd => ?_) ⟨rfl, rfl⟩ _
    obtain ⟨hops, hifindex⟩ := d.act_ops env told.2 told.1
    exact ⟨hops.trans hd.1, hifindex.trans hd.2⟩
  refine ⟨replies, saved, hrun, fun dev => ?_, fun dev => (hsame dev).1, fun dev => (hsame dev).2⟩
  rw [hsaved]
  exact answers_keeps (P := fun d : MadcapDev => d.priv.Kept env)
    (C := fun told : Action × Bool => told.1.Sent) (fun d told hsent hd => MadcapDev.kept_act hd hsent) ((hfresh dev).kept env) (hsent dev)

/-- The lines of all entries, given to devices that are fresh again. -/
theorem restored_runs (hparse : FollowsPolicy nlmsgParse) (h : MadcapNet.Ok devs net)
    (hfresh : ∀ dev, (devs dev).priv.Fresh) (herange : tool.erange = false)
    (hnames : ∀ dev ∈ net.devices, Named tool devGetByIndex (devs dev).ifindex dev)
    {saved : NetDev → MadcapDev} (hsaved : Saved env devs saved) {cs : List Command}
    (hcs : cs.map Command.argv =
      (savedEntries net saved).map fun p => addLine (deviceLine tool saved p))
    (hgranted : ∀ c ∈ cs, c.granted = true) :
    ∃ replies restored,
      ipMadcapRuns env net devs devGetByIndex nlmsgParse tool cs = .ok (replies, restored) ∧
      (∀ reply ∈ replies, reply = .acked 0) ∧
      ∀ dev ∈ net.devices, ∀ id,
        (restored dev).held env id = ((saved dev).held env id).reverse := by
  obtain ⟨replies, restored, hrun, hdev⟩ := ipMadcap_runs env tool devGetByIndex hparse h cs
  have hok : MadcapNet.Ok saved net := h.congr hsaved.ops
  have hps : ∀ p ∈ savedEntries net saved, p.1 ∈ net.devices ∧ p.2.Sent ∧
      Named tool devGetByIndex (saved p.1).ifindex p.1 := by
    intro p hp
    obtain ⟨hmem, hoe⟩ := mem_savedEntries hp
    exact ⟨hmem, entries_sent (hsaved.kept p.1) p.2 hoe, hsaved.ifindex p.1 ▸ hnames p.1 hmem⟩
  have htold (dev : NetDev) : toldTo net devGetByIndex tool dev cs =
      (if dev ∈ net.devices then (saved dev).entries else []).map fun oe =>
        (.lltEntryAdd (saved dev).ifindex oe, true) := by
    rw [toldTo_lines hok herange dev hps hcs hgranted, filter_savedEntries hok, List.map_map]
    rfl
  have hadds (dev : NetDev) := answers_adds env (saved dev).ifindex
    (if dev ∈ net.devices then (saved dev).entries else []) (devs dev)
    (fun oe _ => (hfresh dev).accepts oe.id) (fun hsfmc => by
      split_ifs
      · exact nodup_entries (hsaved.kept dev) ((hsaved.ops dev).trans hsfmc)
      · exact List.nodup_nil)
  refine ⟨replies, restored, hrun, ?_, fun dev hmem id => ?_⟩
  · apply (toolFamily env net devGetByIndex tool).forall_of_answersOf (runAnswers_length hrun)
    · intro c hc
      have hargv : c.argv ∈ cs.map Command.argv := List.mem_map_of_mem hc
      rw [hcs] at hargv
      obtain ⟨p, hp, hline⟩ := List.mem_map.mp hargv
      obtain ⟨hmem, hsent, hname⟩ := hps p hp
      have hact : commandAction tool c.argv = .ok (.lltEntryAdd (saved p.1).ifindex p.2) := by
        rw [← hline]
        exact commandAction_deviceLine hname herange hsent
      exact ⟨p.1, (toolFamily_target hact).mpr ⟨hname.getByIndex, getMadcapOps_of_mem hok hmem⟩⟩
    · intro dev reply hreply
      have hanswers := congrArg Prod.fst (hdev dev)
      dsimp only [Prod.map] at hanswers
      rw [hanswers, htold] at hreply
      obtain ⟨code, hcode, rfl⟩ := List.mem_map.mp hreply
      rw [(hadds dev).1 code hcode]
  · have hend : restored dev = (answers (fun d (told : Action × Bool) =>
        MadcapDev.act env told.2 d told.1) (devs dev) (toldTo net devGetByIndex tool dev cs)).2 :=
      congrArg Prod.snd (hdev dev)
    have hheld := (hadds dev).2 id
    rw [hend, htold, hheld, if_pos hmem, filter_entries (hsaved.kept dev), (hfresh dev).held,
      List.append_nil]

end

/-- Whatever command lines have been run for fresh devices, what `show` prints of their tables
can be given to `add`, line by line, when the devices are fresh again. Each add succeeds, and
the entries of each identifier are there again, in opposite order. A software device has one
entry for an identifier at most, and finds for it what it found before. -/
theorem show_add_restores (nlmsgParse : List U8 → Option GenlInfo) (hparse : FollowsPolicy nlmsgParse)
    (env : Env) (tool : ToolEnv) (herange : tool.erange = false) (devs : NetDev → MadcapDev)
    (hfresh : ∀ dev, (devs dev).priv.Fresh) (es : List MadcapNet.Event)
    (devGetByIndex : U32 → Option NetDev) (hnames : ∀ dev ∈ (MadcapNet.run devs es).devices,
      Named tool devGetByIndex (devs dev).ifindex dev) (cs : List Command) :
    ∃ replies saved msgs,
      ipMadcapRuns env (MadcapNet.run devs es) devs devGetByIndex nlmsgParse tool cs =
        .ok (replies, saved) ∧
      (∀ calls, msgs.length < calls → netlinkDump (madcapNlCmdLltEntryDump
        (MadcapNet.run devs es) saved none) calls { args0 := 0, args1 := 0 } = .ok (msgs, 0)) ∧
      ∀ ms, List.Forall₂ (ObjMsg.CarriedBy (fun b => (EntryObject.read b).fields) sizeofObjEntry)
          msgs ms → ∃ lines : List CString,
        ms.mapM (objEntryNlmsg tool) = .ok (lines.map fun line => (0, line)) ∧
        ∀ cs' : List Command, cs'.map Command.argv = lines.map addLine →
          (∀ c ∈ cs', c.granted = true) → ∃ replies' restored,
            ipMadcapRuns env (MadcapNet.run devs es) devs devGetByIndex nlmsgParse tool cs' =
              .ok (replies', restored) ∧
            (∀ reply ∈ replies', reply = .acked 0) ∧
            ∀ dev ∈ (MadcapNet.run devs es).devices, ∀ id,
              (restored dev).held env id = ((saved dev).held env id).reverse ∧
              ((devs dev).priv.ops = .sfmc →
                (restored dev).held env id = (saved dev).held env id) := by
  have h := MadcapNet.ok_run devs es
  obtain ⟨replies, saved, hrun, hsaved⟩ := saved_runs env tool devGetByIndex hparse h hfresh cs
  refine ⟨replies, saved, entryMessages (MadcapNet.run devs es) saved 0, hrun,
    entryDump_saved (h.congr hsaved.ops) hsaved.kept, fun ms hms => ?_⟩
  rw [entryMessages_saved] at hms
  refine ⟨_, mapM_objEntryNlmsg hms, fun cs' hcs hgranted => ?_⟩
  rw [List.map_map] at hcs
  obtain ⟨replies', restored, hrun', hacked, hheld⟩ :=
    restored_runs hparse h hfresh herange hnames hsaved hcs hgranted
  refine ⟨replies', restored, hrun', hacked, fun dev hdev id => ?_⟩
  rw [hheld dev hdev id]
  exact ⟨rfl, fun hsfmc => held_reverse (hsaved.kept dev) ((hsaved.ops dev).trans hsfmc) id⟩

def ravenDevices : NetDev → MadcapDev := fun _ =>
  { ifindex := 1, ifindex_ne := by decide, priv := .raven ravenSetup }

/-- One identifier is added twice, and one entry is refused before it is sent. -/
def addTwice : List Command :=
  ["add id 7 dst 10.0.0.1 dev eth0", "add id 7 dst 10.0.0.2 dev eth0", "add dev eth0 id 0"].map
    fun line => { argv := lineWords line.toList, stack := fun _ => 0, granted := true }

/-- Runs of `ip madcap` on a machine where `eth0` is the one registered device. -/
def eth0Runs (cs : List Command) : Res (List Reply × (NetDev → MadcapDev)) :=
  ipMadcapRuns oneBucket (MadcapNet.run ravenDevices [.register 0]) ravenDevices
    (fun ifindex => if ifindex = 1 then some 0 else none) nlaParse oneInterface cs

def eth0Dump (saved : NetDev → MadcapDev) (calls : ℕ) : Res (List (ObjMsg ObjEntry) × ℤ) :=
  netlinkDump (madcapNlCmdLltEntryDump (MadcapNet.run ravenDevices [.register 0]) saved none) calls
    { args0 := 0, args1 := 0 }

def eth0Entry (dst : U32) : ObjEntry where
  obj := { id := MADCAP_OBJ_ID_LLT_ENTRY, tbId := 0 }
  id := 7
  dst := dst

def entryAttr (oe : ObjEntry) : Attr where
  type := MADCAP_ATTR_OBJ_ENTRY
  data := oe.bytes
  fits := by
    rw [ObjEntry.bytes_length]
    decide

def eth0Message (oe : ObjEntry) : List U8 :=
  List.replicate 4 0 ++ ((entryAttr oe).bytes ++ (ifindexAttr 1).bytes)

theorem eth0Message_carries (oe : ObjEntry) :
    ObjMsg.CarriedBy (fun b => (EntryObject.read b).fields) sizeofObjEntry (entryMsg (oe, 1))
      (eth0Message oe) := by
  have hcarried := carriedBy_bytes (fun b => (EntryObject.read b).fields) (entryAttr oe)
    (entryMsg (oe, 1)) rfl (congrArg EntryObject.fields (EntryObject.read_bytes oe)) rfl
    (by rw [Attr.size, entryAttr, ObjEntry.bytes_length]; decide)
  rwa [entryAttr, ObjEntry.bytes_length] at hcarried

def eth0Entries : List ObjEntry := [eth0Entry 0x0200000a, eth0Entry 0x0100000a]

theorem eth0Dump_saved {replies : List Reply} {saved : NetDev → MadcapDev}
    (hrun : eth0Runs addTwice = .ok (replies, saved)) (calls : ℕ) (hcalls : 2 < calls) :
    eth0Dump saved calls = .ok (eth0Entries.map fun oe => entryMsg (oe, 1), 0) := by
  obtain ⟨_, _, hrun', hsaved⟩ := saved_runs oneBucket oneInterface
    (fun ifindex => if ifindex = 1 then some 0 else none) nlaParse_followsPolicy
    (MadcapNet.ok_run ravenDevices [.register 0]) (fun _ => .ravenSetup) addTwice
  obtain ⟨-, rfl⟩ := Prod.mk.inj (Except.ok.inj (hrun.symm.trans hrun'))
  have hafter : ((eth0Runs addTwice).toOption.map fun r =>
      entryMessages (MadcapNet.run ravenDevices [.register 0]) r.2 0) =
        some (eth0Entries.map fun oe => entryMsg (oe, 1)) := by
    decide +kernel
  rw [hrun] at hafter
  have hmsgs : entryMessages (MadcapNet.run ravenDevices [.register 0]) saved 0 =
      eth0Entries.map fun oe => entryMsg (oe, 1) := Option.some.inj hafter
  have hdump := entryDump_saved ((MadcapNet.ok_run ravenDevices [.register 0]).congr hsaved.ops)
    hsaved.kept calls
  rw [hmsgs] at hdump
  exact hdump hcalls

/-- The lines that `show` prints. -/
def eth0Lines : List CString :=
  ["dev eth0 id 7 dst 10.0.0.2\n".toList, "dev eth0 id 7 dst 10.0.0.1\n".toList]

theorem eth0Lines_printed :
    (eth0Entries.map eth0Message).mapM (objEntryNlmsg oneInterface) =
      .ok (eth0Lines.map fun line => (0, line)) := by
  decide +kernel

def addPrinted : List Command :=
  ["add dev eth0 id 7 dst 10.0.0.2", "add dev eth0 id 7 dst 10.0.0.1"].map
    fun line => { argv := lineWords line.toList, stack := fun _ => 0, granted := true }

theorem addPrinted_argv : addPrinted.map Command.argv = eth0Lines.map addLine := by
  decide +kernel

theorem show_add_restores_eth0 : ∃ replies saved replies' restored,
    eth0Runs addTwice = .ok (replies, saved) ∧
    eth0Dump saved 3 = .ok (eth0Entries.map fun oe => entryMsg (oe, 1), 0) ∧
    (eth0Entries.map eth0Message).mapM (objEntryNlmsg oneInterface) =
      .ok (eth0Lines.map fun line => (0, line)) ∧
    eth0Runs addPrinted = .ok (replies', restored) ∧ (∀ reply ∈ replies', reply = .acked 0) ∧
    (restored 0).held oneBucket 7 = ((saved 0).held oneBucket 7).reverse := by
  have hdevices : (MadcapNet.run ravenDevices [.register 0]).devices = [0] := by decide +kernel
  obtain ⟨replies, saved, msgs, hrun, hdump, hprint⟩ := show_add_restores nlaParse nlaParse_followsPolicy
    oneBucket oneInterface rfl ravenDevices (fun _ => .ravenSetup) [.register 0]
    (fun ifindex => if ifindex = 1 then some 0 else none) (by
      intro dev hdev
      rw [hdevices, List.mem_singleton] at hdev
      subst hdev
      exact ⟨by decide, by decide, rfl⟩) addTwice
  have hmsgs : msgs = eth0Entries.map fun oe => entryMsg (oe, 1) := by
    have hcalls := eth0Dump_saved hrun (max msgs.length 2 + 1) (by omega)
    exact (Prod.mk.inj (Except.ok.inj ((hdump _ (by omega)).symm.trans hcalls))).1
  have hcarried : List.Forall₂ (ObjMsg.CarriedBy (fun b => (EntryObject.read b).fields) sizeofObjEntry)
      msgs (eth0Entries.map eth0Message) := by
    rw [hmsgs, List.forall₂_map_left_iff, List.forall₂_map_right_iff]
    exact List.forall₂_same.mpr fun oe _ => eth0Message_carries oe
  obtain ⟨lines, hlines, hadd⟩ := hprint _ hcarried
  have hprinted : lines = eth0Lines := by
    have hpairs := Except.ok.inj (hlines.symm.trans eth0Lines_printed)
    exact List.map_injective_iff.mpr (fun _ _ h => congrArg Prod.snd h) hpairs
  obtain ⟨replies', restored, hrun', hacked, hheld⟩ := hadd addPrinted (hprinted ▸ addPrinted_argv)
    (by decide +kernel)
  refine ⟨replies, saved, replies', restored, hrun, eth0Dump_saved hrun 3 (by decide),
    eth0Lines_printed, hrun', hacked, (hheld 0 ?_ 7).1⟩
  rw [hdevices]
  exact List.mem_singleton_self 0

namespace Sfmc

/-- The device after `set` with the lines of its configurations, from the state of `sfmc_init`. -/
def reset (env : Env) (s : Sfmc) (zone : Zone) (ifindex : U32) : Sfmc :=
  ((((sfmcInit s.permAddr zone).act env (.lltConfig ifindex (printedConfig s.oc))).2.act env
    (.udpConfig ifindex (printedUdp s.ou))).2)

variable {env : Env} {s : Sfmc} {zone : Zone} {ifindex : U32}

theorem reset_fields : (s.reset env zone ifindex).permAddr = s.permAddr ∧
    (s.reset env zone ifindex).oc = (printedConfig s.oc).fields ∧
    (s.reset env zone ifindex).ou = printedUdp s.ou := by
  have htag : byteAt (printedConfig s.oc).fields.obj.id 0 ≠
      byteAt (sfmcInit s.permAddr zone).oc.obj.id 0 := by
    change byteAt MADCAP_OBJ_ID_LLT_CONFIG 0 ≠ byteAt 0 0
    decide
  unfold reset
  dsimp only [act]
  unfold sfmcLltCfg
  rw [if_pos htag]
  exact ⟨rfl, rfl, rfl⟩

theorem bytesOf_two_injective {x y : U16} (h : bytesOf 2 x = bytesOf 2 y) : x = y := by
  rw [← load16_last x, h, load16_last]

/-- The same UDP headers are written, or none. -/
def SameUdp (ou ou' : ObjUdp) : Prop :=
  (ou.encapEnable = 0 ↔ ou'.encapEnable = 0) ∧
    (ou'.encapEnable ≠ 0 → ou.srcPort = ou'.srcPort ∧ ou.dstPort = ou'.dstPort)

/-- Two devices that differ in nothing but UDP write the same headers exactly when they write
the same UDP headers. -/
theorem pushHeaders_eq_iff {t : Sfmc} (haddr : t.permAddr = s.permAddr)
    (hproto : t.oc.proto = s.oc.proto) (hsrc : t.oc.src = s.oc.src) :
    (∀ skb dst mac, t.pushHeaders skb dst mac = s.pushHeaders skb dst mac) ↔ SameUdp t.ou s.ou := by
  constructor
  · intro h
    have hpushed : (t.pushUdp blankPacket).data = (s.pushUdp blankPacket).data := by
      obtain ⟨check, hlayers, -⟩ := t.pushHeaders_layers blankPacket 0 0
      obtain ⟨check', hlayers', -⟩ := s.pushHeaders_layers blankPacket 0 0
      rw [h blankPacket 0 0, hlayers'] at hlayers
      obtain ⟨-, hrest⟩ := List.append_inj hlayers (by simp [ethHeader])
      exact (List.append_inj hrest (by simp [ipHeader])).2.symm
    unfold pushUdp at hpushed
    by_cases ht : t.ou.encapEnable = 0
    · by_cases hs : s.ou.encapEnable = 0
      · exact ⟨iff_of_true ht hs, fun hne => absurd hs hne⟩
      · rw [if_neg (not_not.mpr ht), if_pos hs] at hpushed
        have hlen := congrArg List.length hpushed
        simp only [SkBuff.push, udpHeader, List.length_append, bytesOf_length] at hlen
        omega
    · by_cases hs : s.ou.encapEnable = 0
      · rw [if_pos ht, if_neg (not_not.mpr hs)] at hpushed
        have hlen := congrArg List.length hpushed
        simp only [SkBuff.push, udpHeader, List.length_append, bytesOf_length] at hlen
        omega
      · rw [if_pos ht, if_pos hs] at hpushed
        refine ⟨iff_of_false ht hs, fun _ => ?_⟩
        unfold SkBuff.push udpHeader at hpushed
        simp only [List.append_assoc] at hpushed
        obtain ⟨hport, hrest⟩ := List.append_inj hpushed (by simp)
        exact ⟨bytesOf_two_injective hport,
          bytesOf_two_injective (List.append_inj hrest (by simp)).1⟩
  · rintro ⟨hon, hports⟩ skb dst mac
    unfold pushHeaders
    rw [haddr, hproto, hsrc]
    by_cases hs : s.ou.encapEnable = 0
    · rw [if_neg (not_not.mpr hs), if_neg (not_not.mpr (hon.mpr hs))]
    · obtain ⟨hsport, hdport⟩ := hports hs
      rw [if_pos hs, if_pos fun ht => hs (hon.mp ht)]
      unfold udpHeader
      rw [hsport, hdport]

/-- What is printed of a UDP configuration writes the same headers, unless it has a port that
is used and not printed. -/
theorem sameUdp_printedUdp {ou : ObjUdp} : SameUdp (printedUdp ou) ou ↔
    ou.encapEnable = 0 ∨ ou.srcHashEnable = 0 ∨ ou.srcPort = 0 := by
  have hone : ¬ (1 : U32) = 0 := by decide
  unfold SameUdp printedUdp
  by_cases hudp : ou.encapEnable = 0
  · rw [if_pos hudp]
    exact iff_of_true ⟨iff_of_true rfl hudp, fun hne => absurd hudp hne⟩ (.inl hudp)
  · rw [if_neg hudp]
    by_cases hhash : ou.srcHashEnable ≠ 0
    · rw [if_pos hhash]
      constructor
      · exact fun h => .inr (.inr (h.2 hudp).1.symm)
      · rintro (hzero | hzero | hport)
        · exact absurd hzero hudp
        · exact absurd hzero hhash
        · exact ⟨iff_of_false hone hudp, fun _ => ⟨hport.symm, rfl⟩⟩
    · rw [if_neg hhash]
      exact iff_of_true ⟨iff_of_false hone hudp, fun _ => ⟨rfl, rfl⟩⟩
        (.inr (.inl (not_not.mp hhash)))

end Sfmc

/-- What `show` prints of the configurations of a software device can be given to `set` when the
device is fresh again. It then finds the same identifiers in packets, and writes the same
headers in front of all packets exactly when it does not use a source port that was to be
hashed and is not printed. -/
theorem show_set_restores (tool : ToolEnv) (ifindex : U32) (hne : ifindex ≠ 0)
    (hword : IsWord (devName tool ifindex))
    (hname : tool.ifs.nametoindex (devName tool ifindex) = ifindex) (s : Sfmc) (m m' : List U8)
    (hm : ObjMsg.CarriedBy (fun b => (ConfigObject.read b).fields) sizeofObjConfig
      { cmd := .lltConfigGet, attr := .objConfig, obj := s.oc, ifindex := some ifindex } m)
    (hm' : ObjMsg.CarriedBy ObjUdp.read sizeofObjUdp
      { cmd := .udpConfigGet, attr := .objUdp, obj := s.ou, ifindex := some ifindex } m') :
    ∃ config udp act act', objConfigNlmsg tool m = .ok (0, config) ∧
      objUdpNlmsg tool m' = .ok (0, udp) ∧
      commandAction tool ("set".toList :: lineWords config) = .ok act ∧
      commandAction tool ("set".toList :: lineWords udp) = .ok act' ∧
      ∀ env zone, ∃ t, (((sfmcInit s.permAddr zone).act env act).2.act env act').2 = t ∧
        (∀ skb, extractIdFromPacket skb t.oc = extractIdFromPacket skb s.oc) ∧
        ((∀ skb dst mac, t.pushHeaders skb dst mac = s.pushHeaders skb dst mac) ↔
          s.ou.encapEnable = 0 ∨ s.ou.srcHashEnable = 0 ∨ s.ou.srcPort = 0) := by
  refine ⟨_, _, _, _, objConfigNlmsg_carriedBy hm rfl rfl, objUdpNlmsg_carriedBy hm' rfl rfl,
    commandAction_configLine hword hname hne s.oc, commandAction_udpLine hword hname hne s.ou,
    fun env zone => ⟨s.reset env zone ifindex, rfl, ?_⟩⟩
  obtain ⟨haddr, hoc, hou⟩ := @Sfmc.reset_fields env s zone ifindex
  refine ⟨fun skb => by rw [hoc]; rfl, ?_⟩
  rw [Sfmc.pushHeaders_eq_iff haddr (by rw [hoc]; rfl) (by rw [hoc]; rfl), hou]
  exact Sfmc.sameUdp_printedUdp

def hashedPorts : Sfmc :=
  { sfmcInit 0 (freshZone fun _ => true) with
    ou := { obj := { id := MADCAP_OBJ_ID_UDP, tbId := 0 }, encapEnable := 1, srcHashEnable := 1
            dstPort := 0xb512, srcPort := 0x5555 } }

theorem hashedConfig_fits :
    4 + (ConfigObject.bytes { fields := hashedPorts.oc, hole := 0, hole' := 0 }).length < 2 ^ 16 := by
  rw [ConfigObject.bytes_length]
  decide

theorem hashedUdp_fits : 4 + hashedPorts.ou.bytes.length < 2 ^ 16 := by
  rw [ObjUdp.bytes_length]
  decide

/-- The port that was to be hashed is lost. -/
theorem show_set_restores_hashed : ∃ act act' : Action, ∀ env zone, ¬ ∀ skb dst mac,
    (((sfmcInit 0 zone).act env act).2.act env act').2.pushHeaders skb dst mac =
      hashedPorts.pushHeaders skb dst mac := by
  let oc : ConfigObject := { fields := hashedPorts.oc, hole := 0, hole' := 0 }
  have hconfig := carriedBy_bytes (fun b => (ConfigObject.read b).fields)
    { type := MADCAP_ATTR_OBJ_CONFIG, data := oc.bytes, fits := hashedConfig_fits }
    { cmd := .lltConfigGet, attr := .objConfig, obj := hashedPorts.oc, ifindex := some 1 }
    rfl (by rw [ConfigObject.read_bytes]) rfl (by rw [Attr.size, oc.bytes_length]; decide)
  have hudp := carriedBy_bytes ObjUdp.read
    { type := MADCAP_ATTR_OBJ_UDP, data := hashedPorts.ou.bytes, fits := hashedUdp_fits }
    { cmd := .udpConfigGet, attr := .objUdp, obj := hashedPorts.ou, ifindex := some 1 }
    rfl (by rw [ObjUdp.read_bytes]) rfl (by rw [Attr.size, ObjUdp.bytes_length]; decide)
  dsimp only at hconfig hudp
  rw [oc.bytes_length] at hconfig
  rw [ObjUdp.bytes_length] at hudp
  obtain ⟨_, _, act, act', -, -, -, -, hreset⟩ := show_set_restores oneInterface 1 (by decide)
    (by decide) (by decide) hashedPorts _ _ hconfig hudp
  refine ⟨act, act', fun env zone h => ?_⟩
  obtain ⟨t, rfl, -, hiff⟩ := hreset env zone
  rcases hiff.mp h with hzero | hzero | hzero <;> exact absurd hzero (by decide)

end Madcap
