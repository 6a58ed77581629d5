import Madcap.Foundation.Runs
import Madcap.Iproute.Nsh
import Madcap.Protocol.NshRequest

/-!
# Runs of `ip nsh`

Paths are set and unset by command lines while the devices of the namespace come and go. What
a number of runs leaves behind is what the handlers do of the requests that the words describe,
in the order of the runs.
-/

namespace Madcap

/-- A run of `ip nsh`, with what the tool finds when it is started and what the allocations of
the handler return. -/
structure NshCommand where
  tool : ToolEnv
  argv : List CString
  mem : NshMem

/-- How a run ends: without a request, with the code of the module, or with a dump. -/
inductive NshReply where
  | exits (e : Exit)
  | acked (code : ℤ)
  | dumps (cmd : U8)
  deriving DecidableEq, Repr

/-- The `doit` of `nshkmod_nl_ops` for a command. -/
def nshNlDoit (cmd : U8) (a : NshAttrs) (mem : NshMem) : Option NshWorld.Event :=
  if cmd = NSHKMOD_CMD_PATH_DST_SET then some (.pathDstSet a mem)
  else if cmd = NSHKMOD_CMD_PATH_DST_UNSET then some (.pathDstUnset a)
  else if cmd = NSHKMOD_CMD_DEV_PATH_SET then some (.devPathSet a)
  else if cmd = NSHKMOD_CMD_DEV_PATH_UNSET then some (.devPathUnset a)
  else none

/-- Whether it has a `dumpit`. -/
def nshNlDumpit (cmd : U8) : Bool := cmd = NSHKMOD_CMD_PATH_DUMP ∨ cmd = NSHKMOD_CMD_DEV_DUMP

/-- What happens in a namespace: a run of the tool, or something else. -/
inductive NshHappening where
  | command (c : NshCommand)
  | event (e : NshWorld.Event)

section

variable (env : NshEnv) (nlmsgParse : List U8 → Option NshAttrs) (w : NshWorld)

/-- A run of the tool, from its words to the code of the handler. -/
def ipNsh (c : NshCommand) : Res (NshReply × NshWorld) := do
  match ← IpNsh.doIpnsh c.tool c.argv with
  | .error e => return (.exits e, w)
  | .ok n =>
    match nlmsgParse n.attrs with
    | none => return (.acked (-EINVAL), w)
    | some a =>
      if n.flags &&& NLM_F_DUMP = NLM_F_DUMP then
        if nshNlDumpit n.cmd then return (.dumps n.cmd, w) else return (.acked (-EOPNOTSUPP), w)
      else
        match nshNlDoit n.cmd a c.mem with
        | none => return (.acked (-EOPNOTSUPP), w)
        | some e => do
          let (code, w) ← w.step env e
          return (.acked code, w)

def happen : NshHappening → Res (NshReply × NshWorld)
  | .command c => ipNsh env nlmsgParse w c
  | .event e => do
    let (code, w) ← w.step env e
    return (.acked code, w)

end

/-- What a request does in the namespace. A dump does nothing. -/
def NshRequest.meaning (mem : NshMem) : NshRequest → NshReply ⊕ NshWorld.Event
  | .pathDstSet a => .inr (.pathDstSet a mem)
  | .pathDstUnset a => .inr (.pathDstUnset a)
  | .devPathSet a => .inr (.devPathSet a)
  | .devPathUnset a => .inr (.devPathUnset a)
  | .pathDump => .inl (.dumps NSHKMOD_CMD_PATH_DUMP)
  | .devDump => .inl (.dumps NSHKMOD_CMD_DEV_DUMP)

/-- The reply, or what its words say that a run does. -/
def NshCommand.meaning (c : NshCommand) : NshReply ⊕ NshWorld.Event :=
  match nshCommandRequest c.tool c.argv with
  | .error e => .inl (.exits e)
  | .ok r => r.meaning c.mem

def NshHappening.meaning : NshHappening → NshReply ⊕ NshWorld.Event
  | .command c => c.meaning
  | .event e => .inr e

section

variable {env : NshEnv} {nlmsgParse : List U8 → Option NshAttrs} {w : NshWorld} {c : NshCommand}

theorem acked_eq_map (res : Res (ℤ × NshWorld)) :
    (res >>= fun res => pure (NshReply.acked res.1, res.2)) = res.map (Prod.map NshReply.acked id) := by
  cases res <;> rfl

theorem ipNsh_request (hparse : FollowsNshPolicy nlmsgParse) {r : NshRequest}
    (hrequest : nshCommandRequest c.tool c.argv = .ok r) :
    ipNsh env nlmsgParse w c =
      match r.meaning c.mem with
      | .inl reply => .ok (reply, w)
      | .inr e => (w.step env e).map (Prod.map .acked id) := by
  have hfollows := IpNsh.doIpnsh_follows hparse c.tool c.argv
  rw [hrequest] at hfollows
  obtain ⟨n, hrun, hcmd, hflags, hinfo⟩ := hfollows
  have htalk : ¬ nlmTalk &&& NLM_F_DUMP = NLM_F_DUMP := by decide
  have hdump : nlmDump &&& NLM_F_DUMP = NLM_F_DUMP := by decide
  unfold ipNsh
  rw [hrun]
  simp only [bind, Except.bind, hinfo]
  rw [hcmd, hflags]
  cases r with
  | pathDump =>
    change (if nlmDump &&& NLM_F_DUMP = NLM_F_DUMP then _ else _) = _
    rw [if_pos hdump]
    rfl
  | devDump =>
    change (if nlmDump &&& NLM_F_DUMP = NLM_F_DUMP then _ else _) = _
    rw [if_pos hdump]
    rfl
  | devPathSet a =>
    change (if nlmTalk &&& NLM_F_DUMP = NLM_F_DUMP then _ else _) =
      (w.step env (.devPathSet a)).map (Prod.map NshReply.acked id)
    rw [if_neg htalk]
    exact acked_eq_map _
  | _ a =>
    change (if nlmTalk &&& NLM_F_DUMP = NLM_F_DUMP then _ else _) = _
    rw [if_neg htalk]
    rfl

/-- A run of the tool does what its words say. -/
theorem happen_meaning (hparse : FollowsNshPolicy nlmsgParse) (h : NshHappening) :
    happen env nlmsgParse w h =
      match h.meaning with
      | .inl reply => .ok (reply, w)
      | .inr e => (w.step env e).map (Prod.map .acked id) := by
  cases h with
  | command c =>
    change ipNsh env nlmsgParse w c = match c.meaning with
      | .inl reply => .ok (reply, w)
      | .inr e => (w.step env e).map (Prod.map .acked id)
    unfold NshCommand.meaning
    cases hrequest : nshCommandRequest c.tool c.argv with
    | error e =>
      have hfollows := IpNsh.doIpnsh_follows hparse c.tool c.argv
      rw [hrequest] at hfollows
      unfold ipNsh
      rw [show IpNsh.doIpnsh c.tool c.argv = .ok (.error e) from hfollows]
      rfl
    | ok r => exact ipNsh_request hparse hrequest
  | event e => exact acked_eq_map (w.step env e)

theorem NshWorld.Inv.runAnswers (h : w.Inv env) (es : List NshWorld.Event) :
    ∃ codes w', runAnswers (NshWorld.step env) w es = .ok (codes, w') ∧ w'.Inv env := by
  induction es generalizing w with
  | nil => exact ⟨[], w, rfl, h⟩
  | cons e es ih =>
    obtain ⟨res, hstep, hres⟩ := (h.step e).exists_ok fun _ => id
    obtain ⟨codes, w', hrun, hinv⟩ := ih hres
    refine ⟨res.1 :: codes, w', ?_, hinv⟩
    rw [Madcap.runAnswers, hstep]
    simp only [bind, Except.bind, hrun]
    rfl

end

/-- A machine on which `nsh0` has ifindex 3. -/
def nshInterface : ToolEnv where
  ifs :=
    { nametoindex := fun name => if name = "nsh0".toList then 3 else 0
      indextoname := fun ifindex => if ifindex = 3 then some "nsh0".toList else none }
  erange := false

/-- Words for `ip nsh` on this machine. -/
def nshLine (line : String) : NshHappening :=
  .command { tool := nshInterface, argv := lineWords line.toList, mem := NshWorld.heldMemory none }

end Madcap
