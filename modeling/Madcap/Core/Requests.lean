import Madcap.Core.EntryRequest

/-!
# Requests that change a device

Four commands change the device that a request names: its configuration, its locator table and
its UDP configuration. The devices of a registry share the handlers and the table of
operations, and nothing else: each of them sees the requests for itself only.
-/

namespace Madcap

/-- `sizeof (struct madcap_obj_config)`. -/
def sizeofObjConfig : ℕ := 20

/-- `sizeof (struct madcap_obj_udp)`. -/
def sizeofObjUdp : ℕ := 20

def ConfigObject.read (m : ℕ → U8) : ConfigObject where
  fields :=
    { obj := { id := load32 m, tbId := load16 fun i => m (4 + i) }
      offset := load16 fun i => m (8 + i)
      length := load16 fun i => m (10 + i)
      proto := m 12
      src := load32 fun i => m (16 + i) }
  hole := load16 fun i => m (6 + i)
  hole' := m 15 ++ m 14 ++ m 13

def ObjUdp.read (m : ℕ → U8) : ObjUdp where
  obj := { id := load32 m, tbId := load16 fun i => m (4 + i) }
  encapEnable := load32 fun i => m (8 + i)
  srcHashEnable := load32 fun i => m (12 + i)
  dstPort := load16 fun i => m (16 + i)
  srcPort := load16 fun i => m (18 + i)

/-- A `struct madcap_obj_entry` whose unused bytes are zero. -/
def ObjEntry.bytes (oe : ObjEntry) : List U8 :=
  bytesOf 4 oe.obj.id ++ bytesOf 2 oe.obj.tbId ++ bytesOf 2 (0 : U16) ++ bytesOf 8 oe.id ++
    bytesOf 4 oe.dst ++ bytesOf 4 (0 : U32)

/-- A `struct madcap_obj_udp` whose unused bytes are zero. -/
def ObjUdp.bytes (ou : ObjUdp) : List U8 :=
  bytesOf 4 ou.obj.id ++ bytesOf 2 ou.obj.tbId ++ bytesOf 2 (0 : U16) ++ bytesOf 4 ou.encapEnable ++
    bytesOf 4 ou.srcHashEnable ++ bytesOf 2 ou.dstPort ++ bytesOf 2 ou.srcPort

theorem ObjEntry.bytes_length (oe : ObjEntry) : oe.bytes.length = sizeofObjEntry := by
  simp [bytes, sizeofObjEntry]

theorem ObjUdp.bytes_length (ou : ObjUdp) : ou.bytes.length = sizeofObjUdp := by
  simp [bytes, sizeofObjUdp]

theorem ConfigObject.bytes_length (oc : ConfigObject) : oc.bytes.length = sizeofObjConfig := by
  simp [bytes, sizeofObjConfig]

section

variable {n w k i : ℕ} {rest : List U8}

theorem readByte_skip (x : BitVec w) (h : n ≤ k) :
    readByte (bytesOf n x ++ rest) (k + i) = readByte rest (k - n + i) := by
  unfold readByte
  rw [List.getElem?_append_right (by rw [bytesOf_length]; omega), bytesOf_length,
    Nat.sub_add_comm h]

theorem readByte_past (x : BitVec w) (h : n ≤ k) :
    readByte (bytesOf n x ++ rest) k = readByte rest (k - n) := readByte_skip (i := 0) x h

theorem load16_field (x : U16) (rest : List U8) : load16 (readByte (bytesOf 2 x ++ rest)) = x :=
  (load16_congr fun _ hi => readByte_bytesOf 2 x rest hi).trans (append_byteAt x)

theorem load64_field (x : U64) (rest : List U8) : load64 (readByte (bytesOf 8 x ++ rest)) = x := by
  rw [load64_congr fun _ hi => readByte_bytesOf 8 x rest hi]
  apply BitVec.eq_of_getLsbD_eq
  intro i hi
  rw [load64_getLsbD _ hi, byteAt_getLsbD _ (by omega), Nat.div_add_mod]

theorem load16_last (x : U16) : load16 (readByte (bytesOf 2 x)) = x := by
  have h := load16_field x []
  rwa [List.append_nil] at h

theorem load32_last (x : U32) : load32 (readByte (bytesOf 4 x)) = x := by
  have h := load32_bytesOf x []
  rwa [List.append_nil] at h

end

theorem EntryObject.read_bytes (oe : ObjEntry) :
    read (readByte oe.bytes) = { fields := oe, hole := 0, hole' := 0 } := by
  unfold read ObjEntry.bytes
  simp [readByte_skip, load16_field, load32_bytesOf, load64_field, load32_last]

theorem ObjUdp.read_bytes (ou : ObjUdp) : read (readByte ou.bytes) = ou := by
  unfold read bytes
  simp [readByte_skip, load16_field, load32_bytesOf, load16_last]

theorem append_byteAt_three (x : BitVec 24) : (byteAt x 2 ++ byteAt x 1 ++ byteAt x 0 : BitVec 24) = x := by
  apply BitVec.eq_of_getLsbD_eq
  intro i hi
  rw [BitVec.getLsbD_append, BitVec.getLsbD_append]
  split_ifs with h0 h1
  · rw [byteAt_getLsbD _ h0, Nat.mul_zero, Nat.zero_add]
  · rw [byteAt_getLsbD _ h1]
    congr 1
    omega
  · rw [byteAt_getLsbD _ (by omega)]
    congr 1
    omega

theorem ConfigObject.read_bytes (oc : ConfigObject) : read (readByte oc.bytes) = oc := by
  have hproto : readByte oc.bytes 12 = byteAt oc.fields.proto 0 := by
    unfold bytes
    simp [readByte_past, readByte_bytesOf]
  have hhole (i : ℕ) (hi : i < 3) : readByte oc.bytes (13 + i) = byteAt oc.hole' i := by
    unfold bytes
    simp [readByte_skip, readByte_bytesOf, hi]
  unfold read
  rw [hproto, hhole 0 (by decide), hhole 1 (by decide), hhole 2 (by decide), append_byteAt_three]
  unfold bytes
  simp [readByte_skip, load16_field, load32_bytesOf, load32_last, byteAt]

/-- The commands of `madcap_nl_ops` that have a `doit`. -/
inductive NlDoit where
  | lltConfig
  | lltEntryAdd
  | lltEntryDel
  | udpConfig
  deriving DecidableEq, Repr

/-- The `attrs` of a `struct genl_info`, which have passed `madcap_nl_policy`. -/
structure GenlInfo where
  ifindex : Option U32
  objConfig : Option (List U8)
  objEntry : Option (List U8)
  objUdp : Option (List U8)
  configPolicy : ∀ data, objConfig = some data → data.length ≤ sizeofObjConfig
  entryPolicy : ∀ data, objEntry = some data → data.length ≤ sizeofObjEntry
  udpPolicy : ∀ data, objUdp = some data → data.length ≤ sizeofObjUdp

/-- A request, with what lies on the stack of its handler and whether raven's `kmalloc` has
memory. -/
structure NlRequest where
  cmd : NlDoit
  info : GenlInfo
  stack : ℕ → U8
  granted : Bool

/-- The attribute that the handler of a command needs besides the ifindex. -/
def NlRequest.object (req : NlRequest) : Option (List U8) :=
  match req.cmd with
  | .lltConfig => req.info.objConfig
  | .lltEntryAdd => req.info.objEntry
  | .lltEntryDel => req.info.objEntry
  | .udpConfig => req.info.objUdp

section

variable (env : Env) (net : MadcapNet) (devs : NetDev → MadcapDev)

/-- `__MADCAP_OBJ_DEFUN`, with what the operation is in either driver. -/
def madcapObjDefun (raven : RavenDev → ℤ × RavenDev) (sfmc : Sfmc → ℤ × Sfmc) (dev : NetDev) :
    Res (ℤ × (NetDev → MadcapDev)) :=
  match net.getMadcapOps dev with
  | none => return (-EOPNOTSUPP, devs)
  | some ops =>
    match ops, (devs dev).priv with
    | .raven, .raven r =>
      let (code, r) := raven r
      return (code, Function.update devs dev { devs dev with priv := .raven r })
    | .sfmc, .sfmc s =>
      let (code, s) := sfmc s
      return (code, Function.update devs dev { devs dev with priv := .sfmc s })
    | _, _ => throw .badAccess

def madcapLltCfg (dev : NetDev) (oc : ConfigObject) : Res (ℤ × (NetDev → MadcapDev)) :=
  madcapObjDefun net devs (fun r => r.ravenLltCfg oc) (fun s => s.sfmcLltCfg oc.fields) dev

def madcapLltEntryDel (dev : NetDev) (oe : ObjEntry) : Res (ℤ × (NetDev → MadcapDev)) :=
  madcapObjDefun net devs (fun r => r.ravenLltEntryDel env oe) (fun s => s.sfmcLltEntryDel env oe) dev

def madcapUdpCfg (dev : NetDev) (ou : ObjUdp) : Res (ℤ × (NetDev → MadcapDev)) :=
  madcapObjDefun net devs (fun r => r.ravenUdpCfg ou) (fun s => s.sfmcUdpCfg ou) dev

/-- What the handlers do with the attributes of a request before they call `op`. -/
def nlCmd (devGetByIndex : U32 → Option NetDev) (ifindex : Option U32) (object : Option (List U8))
    (op : NetDev → List U8 → Res (ℤ × (NetDev → MadcapDev))) : Res (ℤ × (NetDev → MadcapDev)) :=
  match ifindex with
  | none => return (-EINVAL, devs)
  | some ifindex =>
    match devGetByIndex ifindex with
    | none => return (-ENODEV, devs)
    | some dev =>
      match object with
      | none => return (-EINVAL, devs)
      | some data => op dev data

variable (devGetByIndex : U32 → Option NetDev)

/-- `madcap_nl_cmd_llt_config`, the one handler that clears its object first. -/
def madcapNlCmdLltConfig (info : GenlInfo) : Res (ℤ × (NetDev → MadcapDev)) :=
  nlCmd devs devGetByIndex info.ifindex info.objConfig fun dev data =>
    madcapLltCfg net devs dev (ConfigObject.read (nlaMemcpy (fun _ => 0) data sizeofObjConfig))

def madcapNlCmdLltEntryDel (info : GenlInfo) (stack : ℕ → U8) : Res (ℤ × (NetDev → MadcapDev)) :=
  nlCmd devs devGetByIndex info.ifindex info.objEntry fun dev data =>
    madcapLltEntryDel env net devs dev (EntryObject.read (nlaMemcpy stack data sizeofObjEntry)).fields

def madcapNlCmdUdpConfig (info : GenlInfo) (stack : ℕ → U8) : Res (ℤ × (NetDev → MadcapDev)) :=
  nlCmd devs devGetByIndex info.ifindex info.objUdp fun dev data =>
    madcapUdpCfg net devs dev (ObjUdp.read (nlaMemcpy stack data sizeofObjUdp))

/-- The request as `madcap_nl_cmd_llt_entry_add` reads it. -/
def GenlInfo.entryAdd (info : GenlInfo) : EntryAddRequest where
  ifindex := info.ifindex
  entry := info.objEntry
  policy := info.entryPolicy

/-- `madcap_nl_ops`, for the commands that have a `doit`. -/
def madcapNlDoit (req : NlRequest) : Res (ℤ × (NetDev → MadcapDev)) :=
  match req.cmd with
  | .lltConfig => madcapNlCmdLltConfig net devs devGetByIndex req.info
  | .lltEntryAdd => do
    let res ← madcapNlCmdLltEntryAdd env net devs devGetByIndex req.info.entryAdd req.stack req.granted
    return (res.code, res.devs)
  | .lltEntryDel => madcapNlCmdLltEntryDel env net devs devGetByIndex req.info req.stack
  | .udpConfig => madcapNlCmdUdpConfig net devs devGetByIndex req.info req.stack

end

def RavenDev.request (env : Env) (r : RavenDev) (req : NlRequest) (data : List U8) : ℤ × RavenDev :=
  match req.cmd with
  | .lltConfig =>
    r.ravenLltCfg (ConfigObject.read (nlaMemcpy (fun _ => 0) data sizeofObjConfig))
  | .lltEntryAdd =>
    r.ravenLltEntryAdd env (EntryObject.read (nlaMemcpy req.stack data sizeofObjEntry)).fields req.granted
  | .lltEntryDel =>
    r.ravenLltEntryDel env (EntryObject.read (nlaMemcpy req.stack data sizeofObjEntry)).fields
  | .udpConfig => r.ravenUdpCfg (ObjUdp.read (nlaMemcpy req.stack data sizeofObjUdp))

def Sfmc.request (env : Env) (s : Sfmc) (req : NlRequest) (data : List U8) : ℤ × Sfmc :=
  match req.cmd with
  | .lltConfig =>
    s.sfmcLltCfg (ConfigObject.read (nlaMemcpy (fun _ => 0) data sizeofObjConfig)).fields
  | .lltEntryAdd =>
    s.sfmcLltEntryAdd env (EntryObject.read (nlaMemcpy req.stack data sizeofObjEntry)).fields
  | .lltEntryDel =>
    s.sfmcLltEntryDel env (EntryObject.read (nlaMemcpy req.stack data sizeofObjEntry)).fields
  | .udpConfig => s.sfmcUdpCfg (ObjUdp.read (nlaMemcpy req.stack data sizeofObjUdp))

/-- A device on its own, which is asked by its own driver. -/
def MadcapDev.request (env : Env) (d : MadcapDev) (req : NlRequest) : ℤ × MadcapDev :=
  match req.object with
  | none => (-EINVAL, d)
  | some data =>
    match d.priv with
    | .raven r => ((r.request env req data).1, { d with priv := .raven (r.request env req data).2 })
    | .sfmc s => ((s.request env req data).1, { d with priv := .sfmc (s.request env req data).2 })

theorem MadcapDev.request_ops (env : Env) (d : MadcapDev) (req : NlRequest) :
    (d.request env req).2.priv.ops = d.priv.ops ∧ (d.request env req).2.ifindex = d.ifindex := by
  unfold request
  cases req.object with
  | none => exact ⟨rfl, rfl⟩
  | some data =>
    dsimp only
    split
    · next hpriv =>
      rw [hpriv]
      exact ⟨rfl, rfl⟩
    · next hpriv =>
      rw [hpriv]
      exact ⟨rfl, rfl⟩

/-- The registered device that a request names, if any, and the error if there is none. -/
def nlFamily (env : Env) (net : MadcapNet) (devGetByIndex : U32 → Option NetDev) :
    Family NetDev MadcapDev NlRequest ℤ where
  target req := (req.info.ifindex.bind devGetByIndex).filter fun dev => (net.getMadcapOps dev).isSome
  part d req := d.request env req
  refused req :=
    match req.info.ifindex.map devGetByIndex, req.object with
    | none, _ => -EINVAL
    | some none, _ => -ENODEV
    | some (some _), none => -EINVAL
    | some (some _), some _ => -EOPNOTSUPP

section

variable {env : Env} {net : MadcapNet} {devs : NetDev → MadcapDev} {dev : NetDev}
  {devGetByIndex : U32 → Option NetDev}

theorem madcapObjDefun_eq (h : MadcapNet.Ok devs net) (raven : RavenDev → ℤ × RavenDev)
    (sfmc : Sfmc → ℤ × Sfmc) (dev : NetDev) :
    madcapObjDefun net devs raven sfmc dev =
      match net.getMadcapOps dev, (devs dev).priv with
      | none, _ => .ok (-EOPNOTSUPP, devs)
      | some _, .raven r =>
        .ok ((raven r).1, Function.update devs dev { devs dev with priv := .raven (raven r).2 })
      | some _, .sfmc s =>
        .ok ((sfmc s).1, Function.update devs dev { devs dev with priv := .sfmc (sfmc s).2 }) := by
  unfold madcapObjDefun
  cases hops : net.getMadcapOps dev with
  | none => rfl
  | some ops =>
    have hdriver : ops = (devs dev).priv.ops := by
      unfold MadcapNet.getMadcapOps at hops
      split at hops
      · next n hn =>
        have hdev : net.dev n = some dev := by simpa using List.find?_some hn
        have hslot := h.ops n
        rw [hops, hdev] at hslot
        exact Option.some.inj hslot
      · cases hops
    subst hdriver
    cases hpriv : (devs dev).priv <;> rfl

theorem madcapNlCmdLltEntryAdd_eq (info : GenlInfo) (stack : ℕ → U8) (granted : Bool) :
    (madcapNlCmdLltEntryAdd env net devs devGetByIndex info.entryAdd stack granted >>= fun res =>
        return (res.code, res.devs)) =
      nlCmd devs devGetByIndex info.ifindex info.objEntry fun dev data =>
        madcapLltEntryAdd env net devs dev
          (EntryObject.read (nlaMemcpy stack data sizeofObjEntry)).fields granted := by
  have hentry : info.entryAdd.entry = info.objEntry := rfl
  have hifindex : info.entryAdd.ifindex = info.ifindex := rfl
  unfold madcapNlCmdLltEntryAdd nlCmd
  rw [hentry, hifindex]
  cases info.ifindex with
  | none => rfl
  | some ifindex =>
    dsimp only
    cases devGetByIndex ifindex with
    | none => rfl
    | some dev =>
      cases info.objEntry with
      | none => rfl
      | some data =>
        dsimp only
        cases madcapLltEntryAdd env net devs dev
          (EntryObject.read (nlaMemcpy stack data sizeofObjEntry)).fields granted <;> rfl

theorem madcapNlDoit_eq (env : Env) (net : MadcapNet) (devs : NetDev → MadcapDev)
    (devGetByIndex : U32 → Option NetDev) (req : NlRequest) :
    madcapNlDoit env net devs devGetByIndex req =
      nlCmd devs devGetByIndex req.info.ifindex req.object fun dev data =>
        madcapObjDefun net devs (fun r => r.request env req data) (fun s => s.request env req data) dev := by
  unfold madcapNlDoit NlRequest.object RavenDev.request Sfmc.request
  cases req.cmd with
  | lltConfig => rfl
  | lltEntryAdd => exact madcapNlCmdLltEntryAdd_eq req.info req.stack req.granted
  | lltEntryDel => rfl
  | udpConfig => rfl

/-- In a registry that is in order, a request is a step of the one device that it names. -/
theorem madcapNlDoit_family (h : MadcapNet.Ok devs net) (devGetByIndex : U32 → Option NetDev)
    (req : NlRequest) :
    madcapNlDoit env net devs devGetByIndex req =
      .ok ((nlFamily env net devGetByIndex).move devs req) := by
  rw [madcapNlDoit_eq]
  unfold nlCmd Family.move nlFamily
  dsimp only
  cases req.info.ifindex with
  | none => rfl
  | some ifindex =>
    dsimp only [Option.bind_some, Option.map_some]
    cases devGetByIndex ifindex with
    | none => rfl
    | some dev =>
      dsimp only
      cases hops : net.getMadcapOps dev with
      | none =>
        rw [Option.filter_some_neg (by rw [hops]; rfl)]
        cases req.object with
        | none => rfl
        | some data =>
          dsimp only
          rw [madcapObjDefun_eq h, hops]
      | some ops =>
        rw [Option.filter_some_pos (by rw [hops]; rfl)]
        unfold MadcapDev.request
        cases req.object with
        | none =>
          dsimp only
          rw [Function.update_eq_self]
          rfl
        | some data =>
          dsimp only
          rw [madcapObjDefun_eq h, hops]
          cases (devs dev).priv <;> rfl

theorem MadcapNet.Ok.congr {devs' : NetDev → MadcapDev} (h : MadcapNet.Ok devs net)
    (hops : ∀ dev, (devs' dev).priv.ops = (devs dev).priv.ops) : MadcapNet.Ok devs' net where
  ops n := by
    rw [h.ops n]
    cases net.dev n with
    | none => rfl
    | some dev => rw [Option.map_some, Option.map_some, hops]
  unique := h.unique

theorem nlFamily_move_ok (h : MadcapNet.Ok devs net) (devGetByIndex : U32 → Option NetDev)
    (req : NlRequest) :
    MadcapNet.Ok ((nlFamily env net devGetByIndex).move devs req).2 net :=
  h.congr fun dev => Family.move_keeps (P := fun dev (d : MadcapDev) => d.priv.ops = (devs dev).priv.ops)
    (fun _ d req hd => (d.request_ops env req).1.trans hd) (fun _ => rfl) dev

end

/-- Whatever requests come for whatever devices, and in whatever order, no handler reads a
device as one of another driver. Each device is in the state, and has given the answers, that
it would have been in and given on the requests for itself alone. What lies on the stack of a
handler, and what its allocations come to, is part of its request. -/
theorem requests_concern_one_device (env : Env) (devs : NetDev → MadcapDev)
    (es : List MadcapNet.Event) (devGetByIndex : U32 → Option NetDev) (reqs : List NlRequest) :
    ∃ codes devs', runAnswers (fun devs' req =>
        madcapNlDoit env (MadcapNet.run devs es) devs' devGetByIndex req) devs reqs = .ok (codes, devs') ∧
      ∀ dev, ((nlFamily env (MadcapNet.run devs es) devGetByIndex).answersOf dev reqs codes, devs' dev) =
        answers (MadcapDev.request env) (devs dev)
          ((nlFamily env (MadcapNet.run devs es) devGetByIndex).concerning dev reqs) := by
  have hstep (devs' : NetDev → MadcapDev) (req : NlRequest)
      (h : MadcapNet.Ok devs' (MadcapNet.run devs es)) :
      madcapNlDoit env (MadcapNet.run devs es) devs' devGetByIndex req =
        .ok ((nlFamily env (MadcapNet.run devs es) devGetByIndex).move devs' req) :=
    madcapNlDoit_family h devGetByIndex req
  have hrun := runAnswers_total hstep (fun devs' req h => nlFamily_move_ok h devGetByIndex req)
    (MadcapNet.ok_run devs es) reqs
  exact ⟨_, _, hrun, fun dev => Family.answers_alone _ dev devs reqs⟩

end Madcap
