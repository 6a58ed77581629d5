import Madcap.Core.Registry

/-!
# Dump requests

A dump request is answered by calls of a dump function until one of them adds nothing
to its buffer. What a call has to remember for the next one is in the arguments of the
callback. The buffer of a call has room for one message.
-/

namespace Madcap

/-- The `args` of a `struct netlink_callback` that the dumps use. -/
structure Callback where
  args0 : ℕ
  args1 : ℕ
  deriving DecidableEq, Repr

/-- The commands that are answered with messages. -/
inductive MadcapCmd where
  | lltConfigGet
  | lltEntryGet
  | udpConfigGet
  deriving DecidableEq, Repr

/-- The attributes that carry an object. -/
inductive MadcapAttr where
  | objConfig
  | objEntry
  | objUdp
  deriving DecidableEq, Repr

/-- A message with an object of a device. -/
structure ObjMsg (α : Type*) where
  cmd : MadcapCmd
  attr : MadcapAttr
  obj : α
  ifindex : Option U32
  deriving DecidableEq, Repr

section

variable {α : Type}

def objAttr (id : U32) : Option MadcapAttr :=
  if id = MADCAP_OBJ_ID_LLT_CONFIG then some .objConfig
  else if id = MADCAP_OBJ_ID_LLT_ENTRY then some .objEntry
  else if id = MADCAP_OBJ_ID_UDP then some .objUdp
  else none

/-- `genl_madcap_obj_send`; it fails with -1 on an object whose identifier it does not know. -/
def genlMadcapObjSend (cmd : MadcapCmd) (id : U32) (obj : α) (ifindex : U32) : ℤ × Option (ObjMsg α) :=
  match objAttr id with
  | none => (-1, none)
  | some attr =>
    (0, some { cmd := cmd, attr := attr, obj := obj,
               ifindex := if ifindex ≠ 0 then some ifindex else none })

/-- What a dump function leaves in an empty buffer, or the error it returns. -/
inductive DumpReply (α : Type) where
  | empty
  | message (msg : ObjMsg α)
  | failed (rc : ℤ)
  deriving DecidableEq, Repr

/-- The end of a dump function: the error of the send, which is -1, or the length of the buffer. -/
def dumpReply : ℤ × Option (ObjMsg α) → DumpReply α
  | (_, some msg) => .message msg
  | (rc, none) => .failed rc

theorem dumpReply_send (cmd : MadcapCmd) (id : U32) (obj : α) (ifindex : U32) :
    dumpReply (genlMadcapObjSend cmd id obj ifindex) =
      match (genlMadcapObjSend cmd id obj ifindex).2 with
      | none => .failed (-1)
      | some msg => .message msg := by
  unfold genlMadcapObjSend
  cases objAttr id <;> rfl

/-- The messages and the code of a whole dump, within a number of calls. -/
def netlinkDump (dump : Callback → Res (DumpReply α × Callback)) :
    ℕ → Callback → Res (List (ObjMsg α) × ℤ)
  | 0, _ => throw .outOfFuel
  | calls + 1, cb => do
    let (reply, cb) ← dump cb
    match reply with
    | .empty => return ([], 0)
    | .failed rc => return ([], rc)
    | .message msg => do
      let (msgs, rc) ← netlinkDump dump calls cb
      return (msg :: msgs, rc)

/-- The messages for a list of things to send and the code at its end: the first thing for
which there is no message ends the dump with an error. -/
def sendAll {β : Type} (msg : β → Option (ObjMsg α)) : List β → List (ObjMsg α) × ℤ
  | [] => ([], 0)
  | b :: bs =>
    match msg b with
    | none => ([], -1)
    | some m => (m :: (sendAll msg bs).1, (sendAll msg bs).2)

section

variable {β : Type} {msg : β → Option (ObjMsg α)} {bs : List β}

theorem sendAll_of_all (h : ∀ b ∈ bs, (msg b).isSome = true) :
    sendAll msg bs = (bs.filterMap msg, 0) := by
  induction bs with
  | nil => rfl
  | cons b bs ih =>
    obtain ⟨m, hm⟩ := Option.isSome_iff_exists.mp (h b List.mem_cons_self)
    rw [sendAll, hm, ih fun b hb => h b (List.mem_cons_of_mem _ hb), List.filterMap_cons_some hm]

theorem sendAll_code : (sendAll msg bs).2 = 0 ↔ ∀ b ∈ bs, (msg b).isSome = true := by
  constructor
  · intro h
    induction bs with
    | nil => simp
    | cons b bs ih =>
      rw [sendAll] at h
      cases hm : msg b with
      | none =>
        rw [hm] at h
        exact absurd h (show ¬ (-1 : ℤ) = 0 by decide)
      | some m =>
        rw [hm] at h
        intro b' hb'
        rcases List.mem_cons.mp hb' with rfl | hb'
        · rw [hm]
          rfl
        · exact ih h b' hb'
  · intro h
    rw [sendAll_of_all h]

/-- One call of a dump that has `bs` left to send. -/
def CallSends (dump : Callback → Res (DumpReply α × Callback)) (rest : Callback → List β)
    (msg : β → Option (ObjMsg α)) (cb : Callback) : Prop :=
  ∃ reply cb', dump cb = .ok (reply, cb') ∧
    match rest cb with
    | [] => reply = .empty
    | b :: bs =>
      match msg b with
      | none => reply = .failed (-1)
      | some m => reply = .message m ∧ rest cb' = bs

/-- When each call sends the first of what is left, the calls send everything in order. -/
theorem netlinkDump_eq {dump : Callback → Res (DumpReply α × Callback)} {rest : Callback → List β}
    (hdump : ∀ cb, CallSends dump rest msg cb) (calls : ℕ) (cb : Callback)
    (hcalls : (rest cb).length < calls) : netlinkDump dump calls cb = .ok (sendAll msg (rest cb)) := by
  induction calls generalizing cb with
  | zero => omega
  | succ calls ih =>
    obtain ⟨reply, cb', hcall, hreply⟩ := hdump cb
    unfold netlinkDump
    rw [hcall]
    cases hrest : rest cb with
    | nil =>
      rw [hrest] at hreply
      subst hreply
      rfl
    | cons b bs =>
      rw [hrest] at hreply hcalls
      rw [sendAll]
      cases hm : msg b with
      | none =>
        simp only [hm] at hreply
        subst hreply
        rfl
      | some m =>
        simp only [hm] at hreply
        obtain ⟨rfl, rfl⟩ := hreply
        have hrun := ih cb' (by rw [List.length_cons] at hcalls; omega)
        change (do
          let (msgs, rc) ← netlinkDump dump calls cb'
          return (m :: msgs, rc)) = _
        rw [hrun]
        rfl

end

end

/-- The device of a slot, when it is registered and passes the filter. Zero is no filter. -/
def MadcapNet.dumped (net : MadcapNet) (devs : NetDev → MadcapDev) (ifindex : U32)
    (n : Fin madcapdevPernetNum) : Option NetDev :=
  match net.ops n, net.dev n with
  | some _, some dev =>
    if ifindex ≠ 0 ∧ (devs dev).ifindex ≠ ifindex then none else some dev
  | _, _ => none

def MadcapNet.selected (net : MadcapNet) (devs : NetDev → MadcapDev) (ifindex : U32) : List NetDev :=
  net.devices.filter fun dev => ifindex = 0 ∨ (devs dev).ifindex = ifindex

/-- In a registry that is in order a dump goes through the devices that it should. -/
theorem MadcapNet.Ok.dumped_eq {net : MadcapNet} {devs : NetDev → MadcapDev}
    (h : MadcapNet.Ok devs net) (ifindex : U32) :
    (List.finRange madcapdevPernetNum).filterMap (net.dumped devs ifindex) =
      net.selected devs ifindex := by
  unfold selected devices
  rw [List.filter_filterMap]
  apply List.filterMap_congr
  intro n _
  unfold dumped
  rw [h.ops n]
  cases net.dev n with
  | none => rfl
  | some dev =>
    simp only [Option.map_some, Option.filter_some, decide_eq_true_eq]
    by_cases hpass : ifindex = 0 ∨ (devs dev).ifindex = ifindex
    · rw [if_pos hpass, if_neg]
      rintro ⟨hne, hdiff⟩
      exact hpass.elim hne hdiff
    · rw [if_neg hpass, if_pos (not_or.mp hpass)]

end Madcap
