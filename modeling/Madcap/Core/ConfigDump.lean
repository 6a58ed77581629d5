import Madcap.Core.EntryDump

/-!
# The dumps of the configurations

A configuration is sent as it is stored, and its tag decides how. A tag that stands
for no object ends the dump with an error.
-/

namespace Madcap

section

variable (net : MadcapNet) (devs : NetDev → MadcapDev)

def madcapLltConfigGet (dev : NetDev) : Res (Option ObjConfig) :=
  match net.getMadcapOps dev with
  | none => return none
  | some ops =>
    match ops, (devs dev).priv with
    | .raven, .raven r => return some r.ravenLltConfigGet.fields
    | .sfmc, .sfmc s => return some s.sfmcLltConfigGet
    | _, _ => throw .badAccess

def madcapUdpConfigGet (dev : NetDev) : Res (Option ObjUdp) :=
  match net.getMadcapOps dev with
  | none => return none
  | some ops =>
    match ops, (devs dev).priv with
    | .raven, .raven r => return some r.ou
    | .sfmc, .sfmc s => return some s.ou
    | _, _ => throw .badAccess

def configDumpLoop (ifindex : U32) (idx : ℕ) :
    List (Fin madcapdevPernetNum) → ℕ → Option NetDev × ℕ
  | [], cnt => (none, cnt)
  | n :: ns, cnt =>
    match net.dumped devs ifindex n with
    | none => configDumpLoop ifindex idx ns cnt
    | some dev =>
      if idx > cnt then configDumpLoop ifindex idx ns (cnt + 1) else (some dev, cnt)

/-- The two configuration dumps, which differ in the object they send. A failed send
leaves the callback alone. -/
def configDump {α : Type} (cmd : MadcapCmd) (get : NetDev → Res (Option α)) (obj : α → MadcapObj)
    (attr : Option U32) (cb : Callback) : Res (DumpReply α × Callback) :=
  match configDumpLoop net devs (attr.getD 0) cb.args0 (List.finRange madcapdevPernetNum) 0 with
  | (none, cnt) => return (.empty, { cb with args0 := cnt + 1 })
  | (some dev, cnt) => do
    match ← get dev with
    | none => return (.empty, { cb with args0 := cnt + 1 })
    | some o =>
      match dumpReply (genlMadcapObjSend cmd (obj o).id o (devs dev).ifindex) with
      | .failed rc => return (.failed rc, cb)
      | reply => return (reply, { cb with args0 := cnt + 1 })

def madcapNlCmdLltConfigDump : Option U32 → Callback → Res (DumpReply ObjConfig × Callback) :=
  configDump net devs .lltConfigGet (madcapLltConfigGet net devs) ObjConfig.obj

def madcapNlCmdUdpConfigDump : Option U32 → Callback → Res (DumpReply ObjUdp × Callback) :=
  configDump net devs .udpConfigGet (madcapUdpConfigGet net devs) ObjUdp.obj

end

def MadcapDev.lltConfig (d : MadcapDev) : ObjConfig :=
  match d.priv with
  | .raven r => r.oc.fields
  | .sfmc s => s.oc

def MadcapDev.udpConfig (d : MadcapDev) : ObjUdp :=
  match d.priv with
  | .raven r => r.ou
  | .sfmc s => s.ou

/-- The tag of an object that can be sent. -/
def KnownTag (id : U32) : Prop :=
  id = MADCAP_OBJ_ID_LLT_CONFIG ∨ id = MADCAP_OBJ_ID_LLT_ENTRY ∨ id = MADCAP_OBJ_ID_UDP

theorem objAttr_isSome {id : U32} : (objAttr id).isSome = true ↔ KnownTag id := by
  unfold objAttr KnownTag
  split_ifs with h₁ h₂ h₃
  · exact iff_of_true rfl (.inl h₁)
  · exact iff_of_true rfl (.inr (.inl h₂))
  · exact iff_of_true rfl (.inr (.inr h₃))
  · refine iff_of_false Bool.false_ne_true ?_
    rintro (h | h | h)
    · exact h₁ h
    · exact h₂ h
    · exact h₃ h

section

variable {net : MadcapNet} {devs : NetDev → MadcapDev} {dev : NetDev}

theorem madcapLltConfigGet_eq (h : MadcapNet.Ok devs net) {n : Fin madcapdevPernetNum}
    (hn : net.dev n = some dev) :
    madcapLltConfigGet net devs dev = .ok (some (devs dev).lltConfig) := by
  unfold madcapLltConfigGet MadcapDev.lltConfig
  rw [h.getMadcapOps hn]
  cases (devs dev).priv <;> rfl

theorem madcapUdpConfigGet_eq (h : MadcapNet.Ok devs net) {n : Fin madcapdevPernetNum}
    (hn : net.dev n = some dev) :
    madcapUdpConfigGet net devs dev = .ok (some (devs dev).udpConfig) := by
  unfold madcapUdpConfigGet MadcapDev.udpConfig
  rw [h.getMadcapOps hn]
  cases (devs dev).priv <;> rfl

theorem configDumpLoop_eq (ifindex : U32) (idx : ℕ) (ns : List (Fin madcapdevPernetNum)) (cnt : ℕ) :
    configDumpLoop net devs ifindex idx ns cnt =
      chainDump idx (ns.filterMap (net.dumped devs ifindex)) cnt := by
  induction ns generalizing cnt with
  | nil => rfl
  | cons n ns ih =>
    rw [configDumpLoop, List.filterMap_cons]
    cases net.dumped devs ifindex n with
    | none => exact ih cnt
    | some dev =>
      dsimp only
      rw [chainDump, ih]

variable {α : Type} {cmd : MadcapCmd} {get : NetDev → Res (Option α)} {obj : α → MadcapObj}
  {stored : NetDev → α}

def sendStored (cmd : MadcapCmd) (obj : α → MadcapObj) (stored : NetDev → α)
    (devs : NetDev → MadcapDev) (dev : NetDev) : Option (ObjMsg α) :=
  (genlMadcapObjSend cmd (obj (stored dev)).id (stored dev) (devs dev).ifindex).2

/-- The record of a device carries the object that is stored, under the attribute for its tag. -/
structure RecordOf (cmd : MadcapCmd) (obj : α → MadcapObj) (stored : NetDev → α)
    (devs : NetDev → MadcapDev) (dev : NetDev) (msg : ObjMsg α) : Prop where
  cmd : msg.cmd = cmd
  attr : some msg.attr = objAttr (obj (stored dev)).id
  stored : msg.obj = stored dev
  ifindex : msg.ifindex = some (devs dev).ifindex

theorem sendStored_cases (cmd : MadcapCmd) (obj : α → MadcapObj) (stored : NetDev → α)
    (devs : NetDev → MadcapDev) (dev : NetDev) :
    (KnownTag (obj (stored dev)).id ∧ ∃ msg, sendStored cmd obj stored devs dev = some msg ∧
      RecordOf cmd obj stored devs dev msg) ∨
    (¬ KnownTag (obj (stored dev)).id ∧ sendStored cmd obj stored devs dev = none) := by
  unfold sendStored genlMadcapObjSend
  rw [← objAttr_isSome]
  cases hattr : objAttr (obj (stored dev)).id with
  | none => exact .inr ⟨Bool.false_ne_true, rfl⟩
  | some attr => exact .inl ⟨rfl, _, rfl, rfl, hattr.symm, rfl, if_pos (devs dev).ifindex_ne⟩

theorem configDump_sends (h : MadcapNet.Ok devs net)
    (hget : ∀ dev ∈ net.devices, get dev = .ok (some (stored dev))) (attr : Option U32)
    (cb : Callback) : CallSends (configDump net devs cmd get obj attr)
      (fun cb => (net.selected devs (attr.getD 0)).drop cb.args0)
      (sendStored cmd obj stored devs) cb := by
  have hloop : configDumpLoop net devs (attr.getD 0) cb.args0 (List.finRange madcapdevPernetNum) 0 =
      ((net.selected devs (attr.getD 0))[cb.args0]?,
        min cb.args0 (net.selected devs (attr.getD 0)).length) := by
    rw [configDumpLoop_eq, h.dumped_eq, chainDump_eq _ _ 0 (Nat.zero_le _), Nat.sub_zero,
      Nat.zero_add]
  unfold CallSends
  cases hdev : (net.selected devs (attr.getD 0))[cb.args0]? with
  | none =>
    rw [hdev] at hloop
    refine ⟨.empty, _, by unfold configDump; rw [hloop]; rfl, ?_⟩
    dsimp only
    rw [List.drop_of_length_le (List.getElem?_eq_none_iff.mp hdev)]
  | some dev =>
    rw [hdev] at hloop
    obtain ⟨hlt, hdev⟩ := List.getElem?_eq_some_iff.mp hdev
    have hmem : dev ∈ net.devices := by
      have hsel := List.getElem_mem hlt
      rw [hdev] at hsel
      exact List.mem_of_mem_filter hsel
    have hreply := dumpReply_send cmd (obj (stored dev)).id (stored dev) (devs dev).ifindex
    have hstep : (configDump net devs cmd get obj attr cb) =
        match dumpReply (genlMadcapObjSend cmd (obj (stored dev)).id (stored dev) (devs dev).ifindex) with
        | .failed rc => .ok (.failed rc, cb)
        | reply => .ok (reply, { cb with args0 := cb.args0 + 1 }) := by
      unfold configDump
      rw [hloop, Nat.min_eq_left (Nat.le_of_lt hlt)]
      dsimp only
      rw [hget dev hmem]
      simp only [bind, Except.bind]
      cases dumpReply (genlMadcapObjSend cmd (obj (stored dev)).id (stored dev) (devs dev).ifindex) <;>
        rfl
    dsimp only
    rw [hstep, hreply, List.drop_eq_getElem_cons hlt, hdev]
    dsimp only [sendStored]
    cases (genlMadcapObjSend cmd (obj (stored dev)).id (stored dev) (devs dev).ifindex).2 with
    | none => exact ⟨_, cb, rfl, rfl⟩
    | some msg => exact ⟨_, _, rfl, rfl, rfl⟩

/-- A dump, once it is complete, has sent the record of each device that passes the filter, one
for each, and has not ended with an error. -/
def SendsEach (dump : Callback → Res (DumpReply α × Callback)) (net : MadcapNet)
    (devs : NetDev → MadcapDev) (ifindex : U32) (Record : NetDev → ObjMsg α → Prop) : Prop :=
  ∀ calls, (net.selected devs ifindex).length < calls → ∃ msgs,
    netlinkDump dump calls { args0 := 0, args1 := 0 } = .ok (msgs, 0) ∧
      List.Forall₂ Record (net.selected devs ifindex) msgs

theorem forall₂_filterMap {β γ : Type} {msg : β → Option γ} {Record : β → γ → Prop} {bs : List β}
    (h : ∀ b ∈ bs, ∃ m, msg b = some m ∧ Record b m) : List.Forall₂ Record bs (bs.filterMap msg) := by
  induction bs with
  | nil => exact .nil
  | cons b bs ih =>
    obtain ⟨m, hm, hrecord⟩ := h b List.mem_cons_self
    rw [List.filterMap_cons_some hm]
    exact .cons hrecord (ih fun b hb => h b (List.mem_cons_of_mem _ hb))

/-- A configuration dump sends a record for each device exactly when it knows the tags of
the stored objects. -/
theorem configDump_sendsEach (h : MadcapNet.Ok devs net)
    (hget : ∀ dev ∈ net.devices, get dev = .ok (some (stored dev))) (attr : Option U32) :
    SendsEach (configDump net devs cmd get obj attr) net devs (attr.getD 0)
        (RecordOf cmd obj stored devs) ↔
      ∀ dev ∈ net.selected devs (attr.getD 0), KnownTag (obj (stored dev)).id := by
  have hall (calls : ℕ) (hcalls : (net.selected devs (attr.getD 0)).length < calls) :
      netlinkDump (configDump net devs cmd get obj attr) calls { args0 := 0, args1 := 0 } =
        .ok (sendAll (sendStored cmd obj stored devs) (net.selected devs (attr.getD 0))) :=
    netlinkDump_eq (configDump_sends h hget attr) calls { args0 := 0, args1 := 0 } hcalls
  constructor
  · intro hsends dev hdev
    obtain ⟨msgs, hrun, -⟩ := hsends _ (Nat.lt_succ_self _)
    rw [hall _ (Nat.lt_succ_self _)] at hrun
    have hcode : (sendAll (sendStored cmd obj stored devs) (net.selected devs (attr.getD 0))).2 = 0 :=
      congrArg Prod.snd (Except.ok.inj hrun)
    have hsome := sendAll_code.mp hcode dev hdev
    rcases sendStored_cases cmd obj stored devs dev with ⟨hknown, -⟩ | ⟨-, hnone⟩
    · exact hknown
    · rw [hnone] at hsome
      cases hsome
  · intro htags calls hcalls
    have hmsg : ∀ dev ∈ net.selected devs (attr.getD 0), ∃ msg,
        sendStored cmd obj stored devs dev = some msg ∧ RecordOf cmd obj stored devs dev msg := by
      intro dev hdev
      rcases sendStored_cases cmd obj stored devs dev with ⟨-, hmsg⟩ | ⟨hunknown, -⟩
      · exact hmsg
      · exact absurd (htags dev hdev) hunknown
    have hsome : ∀ dev ∈ net.selected devs (attr.getD 0),
        (sendStored cmd obj stored devs dev).isSome = true := by
      intro dev hdev
      obtain ⟨msg, hmsg, -⟩ := hmsg dev hdev
      rw [hmsg]
      rfl
    refine ⟨_, by rw [hall calls hcalls, sendAll_of_all hsome], ?_⟩
    exact forall₂_filterMap hmsg

theorem lltDump_sendsEach (devs : NetDev → MadcapDev) (es : List MadcapNet.Event)
    (attr : Option U32) :
    SendsEach (madcapNlCmdLltConfigDump (MadcapNet.run devs es) devs attr)
        (MadcapNet.run devs es) devs (attr.getD 0)
        (RecordOf .lltConfigGet ObjConfig.obj (fun dev => (devs dev).lltConfig) devs) ↔
      ∀ dev ∈ (MadcapNet.run devs es).selected devs (attr.getD 0),
        KnownTag (devs dev).lltConfig.obj.id := by
  have h := MadcapNet.ok_run devs es
  apply configDump_sendsEach h
  intro dev hdev
  obtain ⟨n, -, hn⟩ := List.mem_filterMap.mp hdev
  exact madcapLltConfigGet_eq h hn

theorem udpDump_sendsEach (devs : NetDev → MadcapDev) (es : List MadcapNet.Event)
    (attr : Option U32) :
    SendsEach (madcapNlCmdUdpConfigDump (MadcapNet.run devs es) devs attr)
        (MadcapNet.run devs es) devs (attr.getD 0)
        (RecordOf .udpConfigGet ObjUdp.obj (fun dev => (devs dev).udpConfig) devs) ↔
      ∀ dev ∈ (MadcapNet.run devs es).selected devs (attr.getD 0),
        KnownTag (devs dev).udpConfig.obj.id := by
  have h := MadcapNet.ok_run devs es
  apply configDump_sendsEach h
  intro dev hdev
  obtain ⟨n, -, hn⟩ := List.mem_filterMap.mp hdev
  exact madcapUdpConfigGet_eq h hn

/-- The dumps of the configurations, once they are complete, have sent a record for each
registered device that passes the filter exactly when the tag of each of their stored
objects is known. -/
theorem config_dumps_send_each_iff (devs : NetDev → MadcapDev) (es : List MadcapNet.Event)
    (attr : Option U32) :
    (SendsEach (madcapNlCmdLltConfigDump (MadcapNet.run devs es) devs attr)
        (MadcapNet.run devs es) devs (attr.getD 0)
        (RecordOf .lltConfigGet ObjConfig.obj (fun dev => (devs dev).lltConfig) devs) ↔
      ∀ dev ∈ (MadcapNet.run devs es).selected devs (attr.getD 0),
        KnownTag (devs dev).lltConfig.obj.id) ∧
    (SendsEach (madcapNlCmdUdpConfigDump (MadcapNet.run devs es) devs attr)
        (MadcapNet.run devs es) devs (attr.getD 0)
        (RecordOf .udpConfigGet ObjUdp.obj (fun dev => (devs dev).udpConfig) devs) ↔
      ∀ dev ∈ (MadcapNet.run devs es).selected devs (attr.getD 0),
        KnownTag (devs dev).udpConfig.obj.id) :=
  ⟨lltDump_sendsEach devs es attr, udpDump_sendsEach devs es attr⟩

end

/-- A device that has been initialised and has then taken configuration requests. -/
inductive MadcapPriv.Configured : MadcapPriv → Prop
  | ravenSetup : Configured (.raven ravenSetup)
  | ravenLltCfg {r : RavenDev} (oc : ConfigObject) (h : Configured (.raven r)) :
    Configured (.raven (r.ravenLltCfg oc).2)
  | ravenUdpCfg {r : RavenDev} (ou : ObjUdp) (h : Configured (.raven r)) :
    Configured (.raven (r.ravenUdpCfg ou).2)
  | sfmcInit (permAddr : Mac) (zone : Zone) : Configured (.sfmc (sfmcInit permAddr zone))
  | sfmcLltCfg {s : Sfmc} (oc : ObjConfig) (h : Configured (.sfmc s)) :
    Configured (.sfmc (s.sfmcLltCfg oc).2)
  | sfmcUdpCfg {s : Sfmc} (ou : ObjUdp) (h : Configured (.sfmc s)) :
    Configured (.sfmc (s.sfmcUdpCfg ou).2)

def freshDevices : NetDev → MadcapDev := fun _ => freshSfmc

/-- `sfmc_init` leaves the tags of both objects undefined, so the dumps fail. -/
theorem config_dumps_fail_fresh : ¬ ∀ (devs : NetDev → MadcapDev) (es : List MadcapNet.Event)
    (attr : Option U32), (∀ dev, (devs dev).priv.Configured) →
      SendsEach (madcapNlCmdLltConfigDump (MadcapNet.run devs es) devs attr)
          (MadcapNet.run devs es) devs (attr.getD 0)
          (RecordOf .lltConfigGet ObjConfig.obj (fun dev => (devs dev).lltConfig) devs) ∧
        SendsEach (madcapNlCmdUdpConfigDump (MadcapNet.run devs es) devs attr)
          (MadcapNet.run devs es) devs (attr.getD 0)
          (RecordOf .udpConfigGet ObjUdp.obj (fun dev => (devs dev).udpConfig) devs) := by
  intro h
  have hsends := (h freshDevices [.register 0] none fun _ => .sfmcInit 0 _).1
  have htag := (lltDump_sendsEach freshDevices [.register 0] none).mp hsends 0 (by decide +kernel)
  rcases htag with h | h | h <;> exact absurd h (by decide)

end Madcap
