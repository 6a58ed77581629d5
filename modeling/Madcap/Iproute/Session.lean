import Madcap.Core.ConfigDump
import Madcap.Iproute.Madcap

/-!
# Runs of the tool

Each run of `ip madcap` ends on its own, is answered with a code, or is answered with messages.
What a number of runs leaves behind is that every device has been told, in their order, what the
words of the runs that name it say.
-/

namespace Madcap

/-- A run of `ip madcap`, with what lies on the stack of the handler that it reaches and
whether raven's `kmalloc` has memory. -/
structure Command where
  argv : List CString
  stack : ℕ → U8
  granted : Bool

/-- How a run ends: without a request, with the code of the module, or with a dump. -/
inductive Reply where
  | exits (e : Exit)
  | acked (code : ℤ)
  | dumps (cmd : MadcapCmd) (ifindex : Option U32)
  deriving DecidableEq, Repr

/-- The `doit` of `madcap_nl_ops` for a command. -/
def nlDoit (cmd : U8) : Option NlDoit :=
  if cmd = MADCAP_CMD_LLT_CONFIG then some .lltConfig
  else if cmd = MADCAP_CMD_LLT_ENTRY_ADD then some .lltEntryAdd
  else if cmd = MADCAP_CMD_LLT_ENTRY_DEL then some .lltEntryDel
  else if cmd = MADCAP_CMD_UDP_CONFIG then some .udpConfig
  else none

/-- Its `dumpit`. -/
def nlDumpit (cmd : U8) : Option MadcapCmd :=
  if cmd = MADCAP_CMD_LLT_CONFIG_GET then some .lltConfigGet
  else if cmd = MADCAP_CMD_LLT_ENTRY_GET then some .lltEntryGet
  else if cmd = MADCAP_CMD_UDP_CONFIG_GET then some .udpConfigGet
  else none

section

variable (env : Env) (net : MadcapNet) (devs : NetDev → MadcapDev)
  (devGetByIndex : U32 → Option NetDev) (nlmsgParse : List U8 → Option GenlInfo) (tool : ToolEnv)

/-- A run of the tool, from its words to the code of the handler. -/
def ipMadcap (c : Command) : Res (Reply × (NetDev → MadcapDev)) := do
  match ← doIpmadcap tool c.argv with
  | .error e => return (.exits e, devs)
  | .ok n =>
    match nlmsgParse n.attrs with
    | none => return (.acked (-EINVAL), devs)
    | some info =>
      if n.flags &&& NLM_F_DUMP = NLM_F_DUMP then
        match nlDumpit n.cmd with
        | none => return (.acked (-EOPNOTSUPP), devs)
        | some cmd => return (.dumps cmd info.ifindex, devs)
      else
        match nlDoit n.cmd with
        | none => return (.acked (-EOPNOTSUPP), devs)
        | some cmd => do
          let (code, devs) ← madcapNlDoit env net devs devGetByIndex
            { cmd := cmd, info := info, stack := c.stack, granted := c.granted }
          return (.acked code, devs)

def ipMadcapRuns (cs : List Command) : Res (List Reply × (NetDev → MadcapDev)) :=
  runAnswers (fun devs c => ipMadcap env net devs devGetByIndex nlmsgParse tool c) devs cs

end

def Action.device : Action → Option U32
  | .lltConfig ifindex _ => some ifindex
  | .lltEntryAdd ifindex _ => some ifindex
  | .lltEntryDel ifindex _ => some ifindex
  | .udpConfig ifindex _ => some ifindex
  | .dump _ _ => none

def Action.refused (known : Bool) : Action → Reply
  | .dump cmd ifindex => .dumps cmd (if ifindex ≠ 0 then some ifindex else none)
  | _ => .acked (if known then -EOPNOTSUPP else -ENODEV)

def RavenDev.act (env : Env) (granted : Bool) (r : RavenDev) : Action → ℤ × RavenDev
  | .lltConfig _ oc => r.ravenLltCfg oc
  | .lltEntryAdd _ oe => r.ravenLltEntryAdd env oe granted
  | .lltEntryDel _ oe => r.ravenLltEntryDel env oe
  | .udpConfig _ ou => r.ravenUdpCfg ou
  | .dump _ _ => (0, r)

def Sfmc.act (env : Env) (s : Sfmc) : Action → ℤ × Sfmc
  | .lltConfig _ oc => s.sfmcLltCfg oc.fields
  | .lltEntryAdd _ oe => s.sfmcLltEntryAdd env oe
  | .lltEntryDel _ oe => s.sfmcLltEntryDel env oe
  | .udpConfig _ ou => s.sfmcUdpCfg ou
  | .dump _ _ => (0, s)

def MadcapDev.act (env : Env) (granted : Bool) (d : MadcapDev) (a : Action) : ℤ × MadcapDev :=
  match d.priv with
  | .raven r => ((r.act env granted a).1, { d with priv := .raven (r.act env granted a).2 })
  | .sfmc s => ((s.act env a).1, { d with priv := .sfmc (s.act env a).2 })

theorem MadcapDev.act_ops (env : Env) (granted : Bool) (d : MadcapDev) (a : Action) :
    (d.act env granted a).2.priv.ops = d.priv.ops ∧ (d.act env granted a).2.ifindex = d.ifindex := by
  unfold act
  cases hpriv : d.priv <;> exact ⟨rfl, rfl⟩

def toolFamily (env : Env) (net : MadcapNet) (devGetByIndex : U32 → Option NetDev) (tool : ToolEnv) :
    Family NetDev MadcapDev Command Reply where
  target c :=
    match commandAction tool c.argv with
    | .error _ => none
    | .ok a => (a.device.bind devGetByIndex).filter fun dev => (net.getMadcapOps dev).isSome
  part d c :=
    match commandAction tool c.argv with
    | .error e => (.exits e, d)
    | .ok a => (.acked (d.act env c.granted a).1, (d.act env c.granted a).2)
  refused c :=
    match commandAction tool c.argv with
    | .error e => .exits e
    | .ok a => a.refused (a.device.bind devGetByIndex).isSome

section

variable {env : Env} {net : MadcapNet} {devs : NetDev → MadcapDev}
  {devGetByIndex : U32 → Option NetDev} {nlmsgParse : List U8 → Option GenlInfo} {tool : ToolEnv}

/-- What the devices are after an action on one of them, and the answer. -/
def actOn (env : Env) (net : MadcapNet) (devs : NetDev → MadcapDev) (granted : Bool) (a : Action)
    (dev : NetDev) : Res (ℤ × (NetDev → MadcapDev)) :=
  madcapObjDefun net devs (fun r => r.act env granted a) (fun s => s.act env a) dev

theorem actOn_eq (h : MadcapNet.Ok devs net) (granted : Bool) (a : Action) (dev : NetDev) :
    actOn env net devs granted a dev = .ok
      (if (net.getMadcapOps dev).isSome then
        (((devs dev).act env granted a).1, Function.update devs dev ((devs dev).act env granted a).2)
      else (-EOPNOTSUPP, devs)) := by
  unfold actOn MadcapDev.act
  rw [madcapObjDefun_eq h]
  cases net.getMadcapOps dev with
  | none => rfl
  | some ops => cases (devs dev).priv <;> rfl

theorem Action.DoneBy.answered {info : GenlInfo} {a : Action} {ifindex : U32}
    (h : a.DoneBy env net devs devGetByIndex info) (hdevice : a.device = some ifindex)
    (stack : ℕ → U8) (granted : Bool) : ∃ cmd, nlDoit a.cmd = some cmd ∧
      madcapNlDoit env net devs devGetByIndex
          { cmd := cmd, info := info, stack := stack, granted := granted } =
        onDevice devs devGetByIndex ifindex fun dev => actOn env net devs granted a dev := by
  cases a with
  | lltConfig ifindex' oc =>
    obtain rfl := Option.some.inj hdevice
    exact ⟨.lltConfig, rfl, h stack granted⟩
  | lltEntryAdd ifindex' oe =>
    obtain rfl := Option.some.inj hdevice
    exact ⟨.lltEntryAdd, rfl, h stack granted⟩
  | lltEntryDel ifindex' oe =>
    obtain rfl := Option.some.inj hdevice
    exact ⟨.lltEntryDel, rfl, h stack granted⟩
  | udpConfig ifindex' ou =>
    obtain rfl := Option.some.inj hdevice
    exact ⟨.udpConfig, rfl, h stack granted⟩
  | dump cmd ifindex' => cases hdevice

theorem nlDumpit_cmd (cmd : MadcapCmd) : nlDumpit cmd.cmd = some cmd := by
  cases cmd <;> rfl

theorem Action.of_device {a : Action} {ifindex : U32} (h : a.device = some ifindex) :
    a.flags = nlmTalk ∧ ∀ known, a.refused known = .acked (if known then -EOPNOTSUPP else -ENODEV) := by
  cases a with
  | dump => cases h
  | _ => exact ⟨rfl, fun _ => rfl⟩

/-- In a registry that is in order, a run of the tool is a step of the one device that its
words name. -/
theorem ipMadcap_family (hparse : FollowsPolicy nlmsgParse) (h : MadcapNet.Ok devs net) (c : Command) :
    ipMadcap env net devs devGetByIndex nlmsgParse tool c =
      .ok ((toolFamily env net devGetByIndex tool).move devs c) := by
  have hfollows := doIpmadcap_follows tool hparse c.argv
  unfold ipMadcap Family.move toolFamily
  dsimp only
  cases hact : commandAction tool c.argv with
  | error e =>
    rw [hact] at hfollows
    rw [show doIpmadcap tool c.argv = .ok (.error e) from hfollows]
    rfl
  | ok a =>
    rw [hact] at hfollows
    obtain ⟨n, hrun, hcmd, hflags, info, hinfo, hdone⟩ := hfollows
    have hdone := hdone env net devs devGetByIndex
    rw [hrun]
    simp only [bind, Except.bind, hinfo]
    cases hdevice : a.device with
    | none =>
      cases a with
      | dump cmd ifindex =>
        have hifindex : info.ifindex = if ifindex ≠ 0 then some ifindex else none := hdone
        rw [show n.flags = nlmDump from hflags, show n.cmd = cmd.cmd from hcmd,
          if_pos (show nlmDump &&& NLM_F_DUMP = NLM_F_DUMP by decide)]
        rw [nlDumpit_cmd, hifindex]
        rfl
      | lltConfig => cases hdevice
      | lltEntryAdd => cases hdevice
      | lltEntryDel => cases hdevice
      | udpConfig => cases hdevice
    | some ifindex =>
      obtain ⟨cmd, hdoit, hanswer⟩ := hdone.answered hdevice c.stack c.granted
      obtain ⟨htalk, hrefused⟩ := Action.of_device hdevice
      rw [hcmd, hflags, htalk,
        if_neg (show ¬ nlmTalk &&& NLM_F_DUMP = NLM_F_DUMP by decide), hdoit]
      dsimp only
      rw [hanswer, Option.bind_some, hrefused]
      unfold onDevice
      cases hdev : devGetByIndex ifindex with
      | none => rfl
      | some dev =>
        dsimp only
        rw [actOn_eq h]
        by_cases hops : (net.getMadcapOps dev).isSome = true
        · have hpass := Option.filter_some_pos (p := fun dev => (net.getMadcapOps dev).isSome) hops
          rw [if_pos hops, hpass]
          rfl
        · have hstop := Option.filter_some_neg (p := fun dev => (net.getMadcapOps dev).isSome)
            (eq_false_of_ne_true hops)
          rw [if_neg hops, hstop]
          rfl

theorem toolFamily_move_ok (h : MadcapNet.Ok devs net) (c : Command) :
    MadcapNet.Ok ((toolFamily env net devGetByIndex tool).move devs c).2 net := by
  refine h.congr fun dev => Family.move_keeps (P := fun dev (d : MadcapDev) => d.priv.ops = (devs dev).priv.ops)
    (fun _ d c hd => ?_) (fun _ => rfl) dev
  unfold toolFamily
  dsimp only
  cases commandAction tool c.argv with
  | error e => exact hd
  | ok a => exact (d.act_ops env c.granted a).1.trans hd

/-- What the runs that name a device say, and whether there is memory for it. -/
def toldTo (net : MadcapNet) (devGetByIndex : U32 → Option NetDev) (tool : ToolEnv) (dev : NetDev)
    (cs : List Command) : List (Action × Bool) :=
  cs.filterMap fun c =>
    match commandAction tool c.argv with
    | .error _ => none
    | .ok a =>
      if a.device.bind devGetByIndex = some dev ∧ (net.getMadcapOps dev).isSome then
        some (a, c.granted)
      else none

theorem toolFamily_target {c : Command} {dev : NetDev} {a : Action}
    (hact : commandAction tool c.argv = .ok a) :
    (toolFamily env net devGetByIndex tool).target c = some dev ↔
      a.device.bind devGetByIndex = some dev ∧ (net.getMadcapOps dev).isSome := by
  unfold toolFamily
  dsimp only
  rw [hact]
  exact Option.filter_eq_some_iff

theorem toolFamily_concerning (dev : NetDev) (d : MadcapDev) (cs : List Command) :
    answers (toolFamily env net devGetByIndex tool).part d
        ((toolFamily env net devGetByIndex tool).concerning dev cs) =
      Prod.map (List.map Reply.acked) id (answers (fun d (told : Action × Bool) =>
        MadcapDev.act env told.2 d told.1) d (toldTo net devGetByIndex tool dev cs)) := by
  induction cs generalizing d with
  | nil => rfl
  | cons c cs ih =>
    unfold toldTo Family.concerning at ih ⊢
    cases hact : commandAction tool c.argv with
    | error e =>
      have htarget : ¬ (toolFamily env net devGetByIndex tool).target c = some dev := by
        unfold toolFamily
        dsimp only
        rw [hact]
        exact (Option.some_ne_none dev).symm
      rw [List.filter_cons_of_neg (by simpa using htarget), List.filterMap_cons_none (by rw [hact])]
      exact ih d
    | ok a =>
      have htarget : (toolFamily env net devGetByIndex tool).target c = some dev ↔
          a.device.bind devGetByIndex = some dev ∧ (net.getMadcapOps dev).isSome :=
        toolFamily_target hact
      by_cases hdev : a.device.bind devGetByIndex = some dev ∧ (net.getMadcapOps dev).isSome
      · rw [List.filter_cons_of_pos (by simpa using htarget.mpr hdev),
          List.filterMap_cons_some (by rw [hact]; exact if_pos hdev)]
        have hpart : (toolFamily env net devGetByIndex tool).part d c =
            (.acked (d.act env c.granted a).1, (d.act env c.granted a).2) := by
          unfold toolFamily
          dsimp only
          rw [hact]
        rw [answers, hpart, ih]
        rfl
      · rw [List.filter_cons_of_neg (by simpa using fun h => hdev (htarget.mp h)),
          List.filterMap_cons_none (by rw [hact]; exact if_neg hdev)]
        exact ih d

theorem ipMadcap_runs (env : Env) (tool : ToolEnv) (devGetByIndex : U32 → Option NetDev)
    (hparse : FollowsPolicy nlmsgParse) (h : MadcapNet.Ok devs net) (cs : List Command) :
    ∃ replies devs',
      ipMadcapRuns env net devs devGetByIndex nlmsgParse tool cs = .ok (replies, devs') ∧
      ∀ dev, ((toolFamily env net devGetByIndex tool).answersOf dev cs replies, devs' dev) =
        Prod.map (List.map Reply.acked) id (answers (fun d (told : Action × Bool) =>
          MadcapDev.act env told.2 d told.1) (devs dev) (toldTo net devGetByIndex tool dev cs)) := by
  have hstep (devs' : NetDev → MadcapDev) (c : Command) (h : MadcapNet.Ok devs' net) :
      ipMadcap env net devs' devGetByIndex nlmsgParse tool c =
        .ok ((toolFamily env net devGetByIndex tool).move devs' c) := ipMadcap_family hparse h c
  have hrun := runAnswers_total hstep (fun _ c h => toolFamily_move_ok h c) h cs
  exact ⟨_, _, hrun, fun dev => (Family.answers_alone _ dev devs cs).trans
    (toolFamily_concerning dev (devs dev) cs)⟩

end

/-- Whatever command lines are run, in whatever order, for whatever devices of a registry, no
run faults. The replies that concern a device, and its state in the end, are those of its own
driver, which has been told, in this order, what the words of the runs that name it say. -/
theorem ip_madcap_runs (nlmsgParse : List U8 → Option GenlInfo) (hparse : FollowsPolicy nlmsgParse)
    (env : Env) (tool : ToolEnv) (devs : NetDev → MadcapDev) (es : List MadcapNet.Event)
    (devGetByIndex : U32 → Option NetDev) (cs : List Command) :
    ∃ replies devs',
      ipMadcapRuns env (MadcapNet.run devs es) devs devGetByIndex nlmsgParse tool cs =
        .ok (replies, devs') ∧
      ∀ dev, ((toolFamily env (MadcapNet.run devs es) devGetByIndex tool).answersOf dev cs replies,
          devs' dev) =
        Prod.map (List.map Reply.acked) id (answers (fun d (told : Action × Bool) =>
          MadcapDev.act env told.2 d told.1) (devs dev)
            (toldTo (MadcapNet.run devs es) devGetByIndex tool dev cs)) :=
  ipMadcap_runs env tool devGetByIndex hparse (MadcapNet.ok_run devs es) cs

def oneInterface : ToolEnv where
  ifs :=
    { nametoindex := fun name => if name = "eth0".toList then 1 else 0
      indextoname := fun ifindex => if ifindex = 1 then some "eth0".toList else none }
  erange := false

/-- Two runs of the tool for a software device: a new entry, and the port to send it to. -/
def twoRuns : List Command :=
  [{ argv := ["add", "id", "7", "dst", "10.0.0.1", "dev", "eth0"].map String.toList
     stack := fun _ => 0
     granted := true },
   { argv := ["se", "dev", "eth0", "udp", "enable", "dst-port", "0x12b5"].map String.toList
     stack := fun _ => 0
     granted := true }]

/-- Both runs reach the device, from their words on. -/
theorem ip_madcap_runs_two : ∃ replies devs',
    ipMadcapRuns oneBucket (MadcapNet.run twoDevices [.register 0]) twoDevices
        (fun ifindex => if ifindex = 1 then some 0 else none) nlaParse oneInterface twoRuns =
      .ok (replies, devs') ∧
    (devs' 0).entries.map (fun oe => (oe.id, oe.dst)) = [(7, 0x0100000a)] ∧
    (devs' 0).udpConfig.dstPort = 0xb512 := by
  obtain ⟨replies, devs', hrun, hdev⟩ := ip_madcap_runs nlaParse nlaParse_followsPolicy oneBucket
    oneInterface twoDevices [.register 0] (fun ifindex => if ifindex = 1 then some 0 else none) twoRuns
  have hend := congrArg Prod.snd (hdev 0)
  dsimp only at hend
  refine ⟨replies, devs', hrun, ?_, ?_⟩
  · rw [hend]
    decide +kernel
  · rw [hend]
    decide +kernel

end Madcap
