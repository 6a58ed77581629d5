import Madcap.Core.Requests
import Madcap.Iproute.Command
import Madcap.Iproute.Netlink

/-!
# The `ip madcap` command

The words of a command line are collected into parameters, which become an object in a request
to the module. What the module stores is then the object that the words describe, whatever was
on the stack of its handler.
-/

namespace Madcap

def MADCAP_CMD_LLT_CONFIG : U8 := 0
def MADCAP_CMD_LLT_CONFIG_GET : U8 := 1
def MADCAP_CMD_LLT_ENTRY_ADD : U8 := 2
def MADCAP_CMD_LLT_ENTRY_DEL : U8 := 3
def MADCAP_CMD_LLT_ENTRY_GET : U8 := 4
def MADCAP_CMD_UDP_CONFIG : U8 := 5
def MADCAP_CMD_UDP_CONFIG_GET : U8 := 6

def MADCAP_ATTR_IFINDEX : U16 := 1
def MADCAP_ATTR_OBJ_CONFIG : U16 := 2
def MADCAP_ATTR_OBJ_ENTRY : U16 := 3
def MADCAP_ATTR_OBJ_UDP : U16 := 4

abbrev madcapAttrMax : ℕ := 4

/-- `struct madcap_param`. -/
structure MadcapParam where
  ifindex : U32
  offset : U16
  length : U16
  proto : U8
  id : U64
  dst : U32
  src : U32
  udp : Bool
  enable : Bool
  disable : Bool
  srcPortHash : Bool
  dstPort : U16
  srcPort : U16
  config : Bool
  fOffset : Bool
  fLength : Bool
  deriving DecidableEq, Repr

/-- The `memset` at the start of `parse_args`. -/
def noParam : MadcapParam where
  ifindex := 0
  offset := 0
  length := 0
  proto := 0
  id := 0
  dst := 0
  src := 0
  udp := false
  enable := false
  disable := false
  srcPortHash := false
  dstPort := 0
  srcPort := 0
  config := false
  fOffset := false
  fLength := false

def IPPROTO_IPIP : U8 := 4
def IPPROTO_UDP : U8 := 17
def IPPROTO_GRE : U8 := 47

section

variable (tool : ToolEnv)

def readProto (arg : CString) : Option U8 :=
  if arg = "udp".toList then some IPPROTO_UDP
  else if arg = "ipip".toList then some IPPROTO_IPIP
  else if arg = "gre".toList then some IPPROTO_GRE
  else getU8 tool.erange arg

/-- The words that `parse_args` knows. -/
def keyword (word : CString) : Option (Keyword MadcapParam) :=
  if word = "dev".toList then
    some <| .option fun arg p => readDev tool arg fun ifindex => { p with ifindex := ifindex }
  else if word = "offset".toList then
    some <| .option fun arg p => orInvarg "invalid offset" arg (getU16 tool.erange arg) fun offset =>
      { p with offset := offset, fOffset := true }
  else if word = "length".toList then
    some <| .option fun arg p => orInvarg "invalid length" arg (getU16 tool.erange arg) fun length =>
      { p with length := length, fLength := true }
  else if word = "proto".toList then
    some <| .option fun arg p => orInvarg "proto" arg (readProto tool arg) fun proto =>
      { p with proto := proto }
  else if word = "id".toList then
    some <| .option fun arg p => orInvarg "invalid id" arg (getU64 tool.erange arg) fun id =>
      { p with id := id }
  else if word = "dst".toList then
    some <| .option fun arg p => orInvarg "invalid dst address" arg (inetPton arg) fun dst =>
      { p with dst := dst }
  else if word = "src".toList then
    some <| .option fun arg p => orInvarg "invalid src address" arg (inetPton arg) fun src =>
      { p with src := src }
  else if word = "udp".toList then some <| .flag fun p => { p with udp := true }
  else if word = "enable".toList then some <| .flag fun p => { p with enable := true }
  else if word = "disable".toList then some <| .flag fun p => { p with disable := true }
  else if word = "src-port".toList then
    some <| .option fun arg p =>
      if arg = "hash".toList then .ok { p with srcPortHash := true }
      else orInvarg "invalid src-port" arg (getU16 tool.erange arg) fun port =>
        { p with srcPort := port }
  else if word = "dst-port".toList then
    some <| .option fun arg p => orInvarg "invalid dst-port" arg (getU16 tool.erange arg) fun port =>
      { p with dstPort := port }
  else if word = "config".toList then some <| .flag fun p => { p with config := true }
  else none

def parseArgs (argv : List CString) : Except Exit MadcapParam := parseWords (keyword tool) argv noParam

end

/-- The entry that `do_add` and `do_del` send. -/
def MadcapParam.entry (p : MadcapParam) : ObjEntry where
  obj := { id := MADCAP_OBJ_ID_LLT_ENTRY, tbId := 0 }
  id := p.id
  dst := p.dst

/-- The configuration that `do_set` sends. -/
def MadcapParam.objConfig (p : MadcapParam) : ConfigObject where
  fields :=
    { obj := { id := MADCAP_OBJ_ID_LLT_CONFIG, tbId := 0 }
      offset := p.offset
      length := p.length
      proto := p.proto
      src := p.src }
  hole := 0
  hole' := 0

/-- The object that `do_set_udp` sends: `disable` wins over `enable`. -/
def MadcapParam.objUdp (p : MadcapParam) : ObjUdp where
  obj := { id := MADCAP_OBJ_ID_UDP, tbId := 0 }
  encapEnable := if p.disable then 0 else if p.enable then 1 else 0
  srcHashEnable := if p.srcPortHash then 1 else 0
  dstPort := if p.dstPort ≠ 0 then htons p.dstPort else 0
  srcPort := if p.srcPort ≠ 0 then htons p.srcPort else 0

/-- A request with the ifindex of a device and an object. Nobody looks at whether they fit. -/
def objRequest (cmd : U8) (ifindex : U32) (type : U16) (obj : List U8) : Res GenlRequest := do
  let (_, n) ← (genlRequest 1024 cmd nlmTalk).addattr32 1024 MADCAP_ATTR_IFINDEX ifindex
  let (_, n) ← n.addattrL 1024 type obj
  return n

def dumpRequest (cmd : U8) (ifindex : U32) : Res GenlRequest :=
  if ifindex ≠ 0 then do
    let (_, n) ← (genlRequest 2048 cmd nlmDump).addattr32 1024 MADCAP_ATTR_IFINDEX ifindex
    return n
  else return genlRequest 2048 cmd nlmDump

section

variable (tool : ToolEnv)

/-- `do_add` and `do_del`, which differ in the command of their requests. -/
def entryCommand (cmd : U8) (argv : List CString) : Res (Except Exit GenlRequest) :=
  match parseArgs tool argv with
  | .error e => return .error e
  | .ok p =>
    if (p.id = 0 ∧ p.dst = 0) ∨ p.ifindex = 0 then
      return .error (.message "id, dst and dev must be specified")
    else do
      let n ← objRequest cmd p.ifindex MADCAP_ATTR_OBJ_ENTRY p.entry.bytes
      return .ok n

def doAdd (argv : List CString) : Res (Except Exit GenlRequest) :=
  entryCommand tool MADCAP_CMD_LLT_ENTRY_ADD argv

def doDel (argv : List CString) : Res (Except Exit GenlRequest) :=
  entryCommand tool MADCAP_CMD_LLT_ENTRY_DEL argv

def doSetUdp (p : MadcapParam) : Res (Except Exit GenlRequest) :=
  if p.ifindex = 0 then return .error (.message "device must be specified")
  else do
    let n ← objRequest MADCAP_CMD_UDP_CONFIG p.ifindex MADCAP_ATTR_OBJ_UDP p.objUdp.bytes
    return .ok n

def doSet (argv : List CString) : Res (Except Exit GenlRequest) :=
  match parseArgs tool argv with
  | .error e => return .error e
  | .ok p =>
    if p.udp then doSetUdp p
    else if p.ifindex = 0 then return .error (.message "device must be specified")
    else if p.fOffset && p.fLength then do
      let n ← objRequest MADCAP_CMD_LLT_CONFIG p.ifindex MADCAP_ATTR_OBJ_CONFIG p.objConfig.bytes
      return .ok n
    else return .error (.message "offset and length must be specified")

/-- `do_show`, with `do_show_config` and `do_show_udp`. -/
def doShow (argv : List CString) : Res (Except Exit GenlRequest) :=
  match parseArgs tool argv with
  | .error e => return .error e
  | .ok p => do
    let cmd :=
      if p.config then MADCAP_CMD_LLT_CONFIG_GET
      else if p.udp then MADCAP_CMD_UDP_CONFIG_GET
      else MADCAP_CMD_LLT_ENTRY_GET
    let n ← dumpRequest cmd p.ifindex
    return .ok n

/-- `do_ipmadcap`, once the family has been resolved. -/
def doIpmadcap : List CString → Res (Except Exit GenlRequest)
  | [] => return .error .usage
  | word :: argv =>
    if wordMatches word "add" then doAdd tool argv
    else if wordMatches word "del" || wordMatches word "delete" then doDel tool argv
    else if wordMatches word "set" then doSet tool argv
    else if wordMatches word "show" then doShow tool argv
    else if wordMatches word "help" then return .error .usage
    else return .error (.unknown word)

end

/-- An attribute is known and passes `madcap_nl_policy`. -/
@[mk_iff]
structure MadcapNlPolicy (a : Attr) : Prop where
  known : a.type.toNat ≤ madcapAttrMax
  ifindex : a.type = MADCAP_ATTR_IFINDEX → 4 ≤ a.data.length
  objConfig : a.type = MADCAP_ATTR_OBJ_CONFIG → a.data.length ≤ sizeofObjConfig
  objEntry : a.type = MADCAP_ATTR_OBJ_ENTRY → a.data.length ≤ sizeofObjEntry
  objUdp : a.type = MADCAP_ATTR_OBJ_UDP → a.data.length ≤ sizeofObjUdp

/-- The handlers find the last attribute of each type. -/
structure GenlInfo.Holds (info : GenlInfo) (as : List Attr) : Prop where
  ifindex : info.ifindex = (lastData as MADCAP_ATTR_IFINDEX).map fun data => load32 (readByte data)
  objConfig : info.objConfig = lastData as MADCAP_ATTR_OBJ_CONFIG
  objEntry : info.objEntry = lastData as MADCAP_ATTR_OBJ_ENTRY
  objUdp : info.objUdp = lastData as MADCAP_ATTR_OBJ_UDP

instance : DecidablePred MadcapNlPolicy := fun a => decidable_of_iff' _ (madcapNlPolicy_iff a)

section

variable {as : List Attr} (h : ∀ a ∈ as, MadcapNlPolicy a) (data : List U8)

include h

theorem lastData_objConfig (hdata : lastData as MADCAP_ATTR_OBJ_CONFIG = some data) :
    data.length ≤ sizeofObjConfig := by
  obtain ⟨a, ha, htype, rfl⟩ := mem_of_lastData hdata
  exact (h a ha).objConfig htype

theorem lastData_objEntry (hdata : lastData as MADCAP_ATTR_OBJ_ENTRY = some data) :
    data.length ≤ sizeofObjEntry := by
  obtain ⟨a, ha, htype, rfl⟩ := mem_of_lastData hdata
  exact (h a ha).objEntry htype

theorem lastData_objUdp (hdata : lastData as MADCAP_ATTR_OBJ_UDP = some data) :
    data.length ≤ sizeofObjUdp := by
  obtain ⟨a, ha, htype, rfl⟩ := mem_of_lastData hdata
  exact (h a ha).objUdp htype

end

def GenlInfo.ofAttrs (as : List Attr) (h : ∀ a ∈ as, MadcapNlPolicy a) : GenlInfo where
  ifindex := (lastData as MADCAP_ATTR_IFINDEX).map fun data => load32 (readByte data)
  objConfig := lastData as MADCAP_ATTR_OBJ_CONFIG
  objEntry := lastData as MADCAP_ATTR_OBJ_ENTRY
  objUdp := lastData as MADCAP_ATTR_OBJ_UDP
  configPolicy := lastData_objConfig h
  entryPolicy := lastData_objEntry h
  udpPolicy := lastData_objUdp h

/-- `nla_parse`, of a message without unknown attributes. -/
def nlaParse (m : List U8) : Option GenlInfo :=
  if h : ∀ a ∈ (attrsFrom m 0).1.map Prod.snd, MadcapNlPolicy a then some (.ofAttrs _ h) else none

/-- The kernel's parser takes a message whose attributes all pass the policy. -/
def FollowsPolicy (nlmsgParse : List U8 → Option GenlInfo) : Prop :=
  ∀ as m, Encodes as m → (∀ a ∈ as, MadcapNlPolicy a) →
    ∃ info, nlmsgParse m = some info ∧ info.Holds as

theorem nlaParse_followsPolicy : FollowsPolicy nlaParse := by
  intro as m hencodes hpolicy
  obtain rfl := hencodes.attrs
  refine ⟨.ofAttrs _ hpolicy, dif_pos hpolicy, ?_⟩
  exact ⟨rfl, rfl, rfl, rfl⟩

theorem ifindex_fits (ifindex : U32) : 4 + (bytesOf 4 ifindex).length < 2 ^ 16 := by
  rw [bytesOf_length]
  decide

def ifindexAttr (ifindex : U32) : Attr where
  type := MADCAP_ATTR_IFINDEX
  data := bytesOf 4 ifindex
  fits := ifindex_fits ifindex

theorem ifindexAttr_policy (ifindex : U32) : MadcapNlPolicy (ifindexAttr ifindex) where
  known := show MADCAP_ATTR_IFINDEX.toNat ≤ madcapAttrMax by decide
  ifindex _ := le_of_eq (bytesOf_length 4 ifindex).symm
  objConfig h := absurd h (show MADCAP_ATTR_IFINDEX ≠ MADCAP_ATTR_OBJ_CONFIG by decide)
  objEntry h := absurd h (show MADCAP_ATTR_IFINDEX ≠ MADCAP_ATTR_OBJ_ENTRY by decide)
  objUdp h := absurd h (show MADCAP_ATTR_IFINDEX ≠ MADCAP_ATTR_OBJ_UDP by decide)

theorem ObjEntry.attr_policy (oe : ObjEntry) (hfits : 4 + oe.bytes.length < 2 ^ 16) :
    MadcapNlPolicy { type := MADCAP_ATTR_OBJ_ENTRY, data := oe.bytes, fits := hfits } where
  known := show MADCAP_ATTR_OBJ_ENTRY.toNat ≤ madcapAttrMax by decide
  ifindex h := absurd h (show MADCAP_ATTR_OBJ_ENTRY ≠ MADCAP_ATTR_IFINDEX by decide)
  objConfig h := absurd h (show MADCAP_ATTR_OBJ_ENTRY ≠ MADCAP_ATTR_OBJ_CONFIG by decide)
  objEntry _ := le_of_eq oe.bytes_length
  objUdp h := absurd h (show MADCAP_ATTR_OBJ_ENTRY ≠ MADCAP_ATTR_OBJ_UDP by decide)

theorem ConfigObject.attr_policy (oc : ConfigObject) (hfits : 4 + oc.bytes.length < 2 ^ 16) :
    MadcapNlPolicy { type := MADCAP_ATTR_OBJ_CONFIG, data := oc.bytes, fits := hfits } where
  known := show MADCAP_ATTR_OBJ_CONFIG.toNat ≤ madcapAttrMax by decide
  ifindex h := absurd h (show MADCAP_ATTR_OBJ_CONFIG ≠ MADCAP_ATTR_IFINDEX by decide)
  objConfig _ := le_of_eq oc.bytes_length
  objEntry h := absurd h (show MADCAP_ATTR_OBJ_CONFIG ≠ MADCAP_ATTR_OBJ_ENTRY by decide)
  objUdp h := absurd h (show MADCAP_ATTR_OBJ_CONFIG ≠ MADCAP_ATTR_OBJ_UDP by decide)

theorem ObjUdp.attr_policy (ou : ObjUdp) (hfits : 4 + ou.bytes.length < 2 ^ 16) :
    MadcapNlPolicy { type := MADCAP_ATTR_OBJ_UDP, data := ou.bytes, fits := hfits } where
  known := show MADCAP_ATTR_OBJ_UDP.toNat ≤ madcapAttrMax by decide
  ifindex h := absurd h (show MADCAP_ATTR_OBJ_UDP ≠ MADCAP_ATTR_IFINDEX by decide)
  objConfig h := absurd h (show MADCAP_ATTR_OBJ_UDP ≠ MADCAP_ATTR_OBJ_CONFIG by decide)
  objEntry h := absurd h (show MADCAP_ATTR_OBJ_UDP ≠ MADCAP_ATTR_OBJ_ENTRY by decide)
  objUdp _ := le_of_eq ou.bytes_length

theorem addattr32_ifindex {size : ℕ} (hsize : 1004 ≤ size) (cmd : U8) (flags : U16) (ifindex : U32) :
    ∃ n, (genlRequest size cmd flags).addattr32 1024 MADCAP_ATTR_IFINDEX ifindex = .ok (0, n) ∧
      n.cmd = cmd ∧ n.flags = flags ∧ n.nlmsgLen = 28 ∧ n.Holds [ifindexAttr ifindex] size := by
  have hlen : align4 (4 + (bytesOf 4 ifindex).length) = 8 := by
    rw [bytesOf_length]
    rfl
  unfold GenlRequest.addattr32
  have hmaxlen : 1024 ≤ genlHeaders + size := by
    unfold genlHeaders
    omega
  rcases (holds_genlRequest size cmd flags).addattrL hmaxlen (by decide) MADCAP_ATTR_IFINDEX
      (bytesOf 4 ifindex) with
    ⟨hfull, -⟩ | ⟨_, n, -, hcall, hcmd, hflags, hnlmsg, hholds⟩
  · rw [hlen] at hfull
    exact absurd hfull (by change ¬ 1024 < 28; decide)
  · rw [hlen] at hnlmsg
    exact ⟨n, hcall, hcmd, hflags, hnlmsg, hholds⟩

theorem objRequest_encodes (cmd : U8) (ifindex : U32) (type : U16) {obj : List U8}
    (hobj : obj.length ≤ sizeofObjEntry) : ∃ (hfits : 4 + obj.length < 2 ^ 16) (n : GenlRequest),
    objRequest cmd ifindex type obj = .ok n ∧ n.cmd = cmd ∧ n.flags = nlmTalk ∧
      Encodes [ifindexAttr ifindex, { type := type, data := obj, fits := hfits }] n.attrs := by
  obtain ⟨n, hcall, hcmd, hflags, hlen, hholds⟩ :=
    addattr32_ifindex (show 1004 ≤ 1024 by decide) cmd nlmTalk ifindex
  unfold sizeofObjEntry at hobj
  have halign := align4_lt (4 + obj.length)
  rcases hholds.addattrL (show 1024 ≤ genlHeaders + 1024 by decide) (by decide) type obj with
    ⟨hfull, -⟩ | ⟨hfits, n', -, hcall', hcmd', hflags', -, hholds'⟩
  · rw [hlen] at hfull
    omega
  · refine ⟨hfits, n', ?_, hcmd'.trans hcmd, hflags'.trans hflags, hholds'.encodes⟩
    unfold objRequest
    rw [hcall]
    simp only [bind, Except.bind, hcall']
    rfl

/-- What is to be done, to a device with some ifindex. A dump of no device is one of all. -/
inductive Action where
  | lltConfig (ifindex : U32) (oc : ConfigObject)
  | lltEntryAdd (ifindex : U32) (oe : ObjEntry)
  | lltEntryDel (ifindex : U32) (oe : ObjEntry)
  | udpConfig (ifindex : U32) (ou : ObjUdp)
  | dump (cmd : MadcapCmd) (ifindex : U32)
  deriving DecidableEq, Repr

def MadcapCmd.cmd : MadcapCmd → U8
  | .lltConfigGet => MADCAP_CMD_LLT_CONFIG_GET
  | .lltEntryGet => MADCAP_CMD_LLT_ENTRY_GET
  | .udpConfigGet => MADCAP_CMD_UDP_CONFIG_GET

def Action.cmd : Action → U8
  | .lltConfig _ _ => MADCAP_CMD_LLT_CONFIG
  | .lltEntryAdd _ _ => MADCAP_CMD_LLT_ENTRY_ADD
  | .lltEntryDel _ _ => MADCAP_CMD_LLT_ENTRY_DEL
  | .udpConfig _ _ => MADCAP_CMD_UDP_CONFIG
  | .dump cmd _ => cmd.cmd

def Action.flags : Action → U16
  | .dump _ _ => nlmDump
  | _ => nlmTalk

def MadcapParam.entryAction (p : MadcapParam) (act : U32 → ObjEntry → Action) : Except Exit Action :=
  if (p.id = 0 ∧ p.dst = 0) ∨ p.ifindex = 0 then
    .error (.message "id, dst and dev must be specified")
  else .ok (act p.ifindex p.entry)

/-- The action of `set`. -/
def MadcapParam.setAction (p : MadcapParam) : Except Exit Action :=
  if p.ifindex = 0 then .error (.message "device must be specified")
  else if p.udp then .ok (.udpConfig p.ifindex p.objUdp)
  else if p.fOffset && p.fLength then .ok (.lltConfig p.ifindex p.objConfig)
  else .error (.message "offset and length must be specified")

/-- The action of `show`. -/
def MadcapParam.showAction (p : MadcapParam) : Action :=
  .dump (if p.config then .lltConfigGet else if p.udp then .udpConfigGet else .lltEntryGet) p.ifindex

/-- What a command line asks for, or why it ends without a request. -/
def commandAction (tool : ToolEnv) : List CString → Except Exit Action
  | [] => .error .usage
  | word :: argv =>
    if wordMatches word "add" then do (← parseArgs tool argv).entryAction .lltEntryAdd
    else if wordMatches word "del" || wordMatches word "delete" then do
      (← parseArgs tool argv).entryAction .lltEntryDel
    else if wordMatches word "set" then do (← parseArgs tool argv).setAction
    else if wordMatches word "show" then do return (← parseArgs tool argv).showAction
    else if wordMatches word "help" then .error .usage
    else .error (.unknown word)

section

variable (env : Env) (net : MadcapNet) (devs : NetDev → MadcapDev)
  (devGetByIndex : U32 → Option NetDev)

/-- What the module does to a device, if there is one with this ifindex. -/
def onDevice (ifindex : U32) (op : NetDev → Res (ℤ × (NetDev → MadcapDev))) :
    Res (ℤ × (NetDev → MadcapDev)) :=
  match devGetByIndex ifindex with
  | none => return (-ENODEV, devs)
  | some dev => op dev

/-- The handler of a request does what the action says, whatever was on its stack. -/
def Action.DoneBy (info : GenlInfo) : Action → Prop
  | .lltConfig ifindex oc => ∀ stack granted,
    madcapNlDoit env net devs devGetByIndex
        { cmd := .lltConfig, info := info, stack := stack, granted := granted } =
      onDevice devs devGetByIndex ifindex fun dev => madcapLltCfg net devs dev oc
  | .lltEntryAdd ifindex oe => ∀ stack granted,
    madcapNlDoit env net devs devGetByIndex
        { cmd := .lltEntryAdd, info := info, stack := stack, granted := granted } =
      onDevice devs devGetByIndex ifindex fun dev => madcapLltEntryAdd env net devs dev oe granted
  | .lltEntryDel ifindex oe => ∀ stack granted,
    madcapNlDoit env net devs devGetByIndex
        { cmd := .lltEntryDel, info := info, stack := stack, granted := granted } =
      onDevice devs devGetByIndex ifindex fun dev => madcapLltEntryDel env net devs dev oe
  | .udpConfig ifindex ou => ∀ stack granted,
    madcapNlDoit env net devs devGetByIndex
        { cmd := .udpConfig, info := info, stack := stack, granted := granted } =
      onDevice devs devGetByIndex ifindex fun dev => madcapUdpCfg net devs dev ou
  | .dump _ ifindex => info.ifindex = if ifindex ≠ 0 then some ifindex else none

end

section

variable {nlmsgParse : List U8 → Option GenlInfo} {tool : ToolEnv}

/-- A request for the action is in the bytes of `n`, whatever the devices are. -/
def AsksFor (nlmsgParse : List U8 → Option GenlInfo) (n : GenlRequest) (a : Action) : Prop :=
  n.cmd = a.cmd ∧ n.flags = a.flags ∧ ∃ info, nlmsgParse n.attrs = some info ∧
    ∀ env net devs devGetByIndex, a.DoneBy env net devs devGetByIndex info

theorem nlaMemcpy_whole {stack : ℕ → U8} {data : List U8} {count : ℕ} (h : data.length = count) :
    ∀ i < count, nlaMemcpy stack data count i = readByte data i := by
  intro i hi
  unfold nlaMemcpy
  rw [h, Nat.min_self, if_pos hi]

theorem ConfigObject.read_whole {stack : ℕ → U8} (oc : ConfigObject) :
    read (nlaMemcpy stack oc.bytes sizeofObjConfig) = oc := by
  have h : ∀ i < 20, nlaMemcpy stack oc.bytes 20 i = readByte oc.bytes i :=
    nlaMemcpy_whole oc.bytes_length
  have hat (k n : ℕ) (hk : k + n ≤ 20) : ∀ i < n,
      nlaMemcpy stack oc.bytes 20 (k + i) = readByte oc.bytes (k + i) := fun i hi => h (k + i) (by omega)
  have hread : read (nlaMemcpy stack oc.bytes sizeofObjConfig) = read (readByte oc.bytes) := by
    unfold read sizeofObjConfig
    rw [load32_congr fun i hi => h i (by omega), load16_congr (hat 4 2 (by decide)),
      load16_congr (hat 6 2 (by decide)), load16_congr (hat 8 2 (by decide)),
      load16_congr (hat 10 2 (by decide)), load32_congr (hat 16 4 (by decide)), h 12 (by decide),
      h 13 (by decide), h 14 (by decide), h 15 (by decide)]
  rw [hread, read_bytes]

theorem ObjUdp.read_whole {stack : ℕ → U8} (ou : ObjUdp) :
    read (nlaMemcpy stack ou.bytes sizeofObjUdp) = ou := by
  have h : ∀ i < 20, nlaMemcpy stack ou.bytes 20 i = readByte ou.bytes i :=
    nlaMemcpy_whole ou.bytes_length
  have hat (k n : ℕ) (hk : k + n ≤ 20) : ∀ i < n,
      nlaMemcpy stack ou.bytes 20 (k + i) = readByte ou.bytes (k + i) := fun i hi => h (k + i) (by omega)
  have hread : read (nlaMemcpy stack ou.bytes sizeofObjUdp) = read (readByte ou.bytes) := by
    unfold read sizeofObjUdp
    rw [load32_congr fun i hi => h i (by omega), load16_congr (hat 4 2 (by decide)),
      load32_congr (hat 8 4 (by decide)), load32_congr (hat 12 4 (by decide)),
      load16_congr (hat 16 2 (by decide)), load16_congr (hat 18 2 (by decide))]
  rw [hread, read_bytes]

theorem EntryObject.fields_whole {stack : ℕ → U8} (oe : ObjEntry) :
    (read (nlaMemcpy stack oe.bytes sizeofObjEntry)).fields = oe := by
  rw [Madcap.read_whole oe.bytes_length, read_bytes]

theorem objRequest_info (hparse : FollowsPolicy nlmsgParse) (cmd : U8) (ifindex : U32) {type : U16}
    {obj : List U8} (hobj : obj.length ≤ sizeofObjEntry) (htype : type ≠ MADCAP_ATTR_IFINDEX)
    (hpolicy : ∀ hfits, MadcapNlPolicy { type := type, data := obj, fits := hfits }) :
    ∃ n info as, objRequest cmd ifindex type obj = .ok n ∧ n.cmd = cmd ∧ n.flags = nlmTalk ∧
      nlmsgParse n.attrs = some info ∧ info.Holds as ∧
      lastData as MADCAP_ATTR_IFINDEX = some (bytesOf 4 ifindex) ∧ lastData as type = some obj := by
  obtain ⟨hfits, n, hrequest, hcmd, hflags, hencodes⟩ := objRequest_encodes cmd ifindex type hobj
  obtain ⟨info, hinfo, hholds⟩ := hparse _ _ hencodes (by
    intro a ha
    rcases List.mem_cons.mp ha with rfl | ha
    · exact ifindexAttr_policy ifindex
    · rw [List.mem_singleton.mp ha]
      exact hpolicy hfits)
  refine ⟨n, info, _, hrequest, hcmd, hflags, hinfo, hholds, ?_, ?_⟩
  · unfold lastData
    rw [List.reverse_cons, List.reverse_cons, List.reverse_nil, List.nil_append, List.singleton_append,
      List.find?_cons_of_neg (by simpa using htype)]
    rfl
  · unfold lastData
    rw [List.reverse_cons, List.reverse_cons, List.reverse_nil, List.nil_append, List.singleton_append,
      List.find?_cons_of_pos (by simp)]
    rfl

theorem GenlInfo.Holds.ifindex_eq {info : GenlInfo} {as : List Attr} {ifindex : U32}
    (h : info.Holds as) (hlast : lastData as MADCAP_ATTR_IFINDEX = some (bytesOf 4 ifindex)) :
    info.ifindex = some ifindex := by
  rw [h.ifindex, hlast, Option.map_some, load32_last]

theorem nlCmd_onDevice {devs : NetDev → MadcapDev} {devGetByIndex : U32 → Option NetDev}
    {ifindex : U32} {data : List U8} (op : NetDev → List U8 → Res (ℤ × (NetDev → MadcapDev))) :
    nlCmd devs devGetByIndex (some ifindex) (some data) op =
      onDevice devs devGetByIndex ifindex fun dev => op dev data := by
  unfold nlCmd onDevice
  cases hdev : devGetByIndex ifindex with
  | none => simp only [hdev]
  | some dev => simp only [hdev]

theorem asksFor_lltEntryAdd (hparse : FollowsPolicy nlmsgParse) (ifindex : U32) (oe : ObjEntry) :
    ∃ n, objRequest MADCAP_CMD_LLT_ENTRY_ADD ifindex MADCAP_ATTR_OBJ_ENTRY oe.bytes = .ok n ∧
      AsksFor nlmsgParse n (.lltEntryAdd ifindex oe) := by
  obtain ⟨n, info, as, hrequest, hcmd, hflags, hinfo, hholds, hdev, hobj⟩ :=
    objRequest_info hparse MADCAP_CMD_LLT_ENTRY_ADD ifindex (le_of_eq oe.bytes_length)
      (show MADCAP_ATTR_OBJ_ENTRY ≠ MADCAP_ATTR_IFINDEX by decide) oe.attr_policy
  refine ⟨n, hrequest, hcmd, hflags, info, hinfo, fun env net devs devGetByIndex stack granted => ?_⟩
  rw [madcapNlDoit_eq]
  unfold NlRequest.object
  dsimp only
  rw [hholds.ifindex_eq hdev, hholds.objEntry, hobj, nlCmd_onDevice]
  unfold RavenDev.request Sfmc.request
  dsimp only
  rw [EntryObject.fields_whole]
  rfl

theorem asksFor_lltEntryDel (hparse : FollowsPolicy nlmsgParse) (ifindex : U32) (oe : ObjEntry) :
    ∃ n, objRequest MADCAP_CMD_LLT_ENTRY_DEL ifindex MADCAP_ATTR_OBJ_ENTRY oe.bytes = .ok n ∧
      AsksFor nlmsgParse n (.lltEntryDel ifindex oe) := by
  obtain ⟨n, info, as, hrequest, hcmd, hflags, hinfo, hholds, hdev, hobj⟩ :=
    objRequest_info hparse MADCAP_CMD_LLT_ENTRY_DEL ifindex (le_of_eq oe.bytes_length)
      (show MADCAP_ATTR_OBJ_ENTRY ≠ MADCAP_ATTR_IFINDEX by decide) oe.attr_policy
  refine ⟨n, hrequest, hcmd, hflags, info, hinfo, fun env net devs devGetByIndex stack granted => ?_⟩
  rw [madcapNlDoit_eq]
  unfold NlRequest.object
  dsimp only
  rw [hholds.ifindex_eq hdev, hholds.objEntry, hobj, nlCmd_onDevice]
  unfold RavenDev.request Sfmc.request
  dsimp only
  rw [EntryObject.fields_whole]
  rfl

theorem asksFor_lltConfig (hparse : FollowsPolicy nlmsgParse) (ifindex : U32) (oc : ConfigObject) :
    ∃ n, objRequest MADCAP_CMD_LLT_CONFIG ifindex MADCAP_ATTR_OBJ_CONFIG oc.bytes = .ok n ∧
      AsksFor nlmsgParse n (.lltConfig ifindex oc) := by
  obtain ⟨n, info, as, hrequest, hcmd, hflags, hinfo, hholds, hdev, hobj⟩ :=
    objRequest_info hparse MADCAP_CMD_LLT_CONFIG ifindex (oc.bytes_length.trans_le (by decide))
      (show MADCAP_ATTR_OBJ_CONFIG ≠ MADCAP_ATTR_IFINDEX by decide) oc.attr_policy
  refine ⟨n, hrequest, hcmd, hflags, info, hinfo, fun env net devs devGetByIndex stack granted => ?_⟩
  rw [madcapNlDoit_eq]
  unfold NlRequest.object
  dsimp only
  rw [hholds.ifindex_eq hdev, hholds.objConfig, hobj, nlCmd_onDevice]
  unfold RavenDev.request Sfmc.request
  dsimp only
  rw [ConfigObject.read_whole]
  rfl

theorem asksFor_udpConfig (hparse : FollowsPolicy nlmsgParse) (ifindex : U32) (ou : ObjUdp) :
    ∃ n, objRequest MADCAP_CMD_UDP_CONFIG ifindex MADCAP_ATTR_OBJ_UDP ou.bytes = .ok n ∧
      AsksFor nlmsgParse n (.udpConfig ifindex ou) := by
  obtain ⟨n, info, as, hrequest, hcmd, hflags, hinfo, hholds, hdev, hobj⟩ :=
    objRequest_info hparse MADCAP_CMD_UDP_CONFIG ifindex (ou.bytes_length.trans_le (by decide))
      (show MADCAP_ATTR_OBJ_UDP ≠ MADCAP_ATTR_IFINDEX by decide) ou.attr_policy
  refine ⟨n, hrequest, hcmd, hflags, info, hinfo, fun env net devs devGetByIndex stack granted => ?_⟩
  rw [madcapNlDoit_eq]
  unfold NlRequest.object
  dsimp only
  rw [hholds.ifindex_eq hdev, hholds.objUdp, hobj, nlCmd_onDevice]
  unfold RavenDev.request Sfmc.request
  dsimp only
  rw [ObjUdp.read_whole]
  rfl

theorem asksFor_dump (hparse : FollowsPolicy nlmsgParse) (cmd : MadcapCmd) (ifindex : U32) :
    ∃ n, dumpRequest cmd.cmd ifindex = .ok n ∧ AsksFor nlmsgParse n (.dump cmd ifindex) := by
  unfold dumpRequest
  by_cases hzero : ifindex = 0
  · have hholds := holds_genlRequest 2048 cmd.cmd nlmDump
    obtain ⟨info, hinfo, hattrs⟩ := hparse [] _ hholds.encodes fun a ha => absurd ha List.not_mem_nil
    rw [if_neg (not_not.mpr hzero)]
    refine ⟨_, rfl, rfl, rfl, info, hinfo, fun env net devs devGetByIndex => ?_⟩
    change info.ifindex = if ifindex ≠ 0 then some ifindex else none
    rw [if_neg (not_not.mpr hzero), hattrs.ifindex]
    rfl
  · obtain ⟨n, hcall, hcmd, hflags, -, hholds⟩ :=
      addattr32_ifindex (show 1004 ≤ 2048 by decide) cmd.cmd nlmDump ifindex
    obtain ⟨info, hinfo, hattrs⟩ := hparse _ _ hholds.encodes (by
      intro a ha
      rw [List.mem_singleton.mp ha]
      exact ifindexAttr_policy ifindex)
    rw [if_pos hzero]
    refine ⟨n, ?_, hcmd, hflags, info, hinfo, fun env net devs devGetByIndex => ?_⟩
    · rw [hcall]
      rfl
    · change info.ifindex = if ifindex ≠ 0 then some ifindex else none
      rw [if_pos hzero, hattrs.ifindex_eq rfl]

theorem entryCommand_follows {cmd : U8} {act : U32 → ObjEntry → Action}
    (hasks : ∀ ifindex oe, ∃ n, objRequest cmd ifindex MADCAP_ATTR_OBJ_ENTRY oe.bytes = .ok n ∧
      AsksFor nlmsgParse n (act ifindex oe)) (argv : List CString) :
    Follows (AsksFor nlmsgParse) (entryCommand tool cmd argv) (parseArgs tool argv >>= fun p => p.entryAction act) := by
  unfold entryCommand
  cases parseArgs tool argv with
  | error e => rfl
  | ok p =>
    change Follows (AsksFor nlmsgParse) _ (p.entryAction act)
    dsimp only
    unfold MadcapParam.entryAction
    by_cases hbad : (p.id = 0 ∧ p.dst = 0) ∨ p.ifindex = 0
    · rw [if_pos hbad, if_pos hbad]
      rfl
    · obtain ⟨n, hrequest, ha⟩ := hasks p.ifindex p.entry
      rw [if_neg hbad, if_neg hbad, hrequest]
      exact ⟨n, rfl, ha⟩

theorem doSet_follows (hparse : FollowsPolicy nlmsgParse) (argv : List CString) :
    Follows (AsksFor nlmsgParse) (doSet tool argv) (parseArgs tool argv >>= fun p => p.setAction) := by
  unfold doSet
  cases parseArgs tool argv with
  | error e => rfl
  | ok p =>
    change Follows (AsksFor nlmsgParse) _ p.setAction
    dsimp only
    unfold MadcapParam.setAction doSetUdp
    by_cases hdev : p.ifindex = 0
    · rw [if_pos hdev, if_pos hdev, if_pos hdev, ite_self]
      rfl
    · rw [if_neg hdev, if_neg hdev, if_neg hdev]
      by_cases hudp : p.udp = true
      · obtain ⟨n, hrequest, ha⟩ := asksFor_udpConfig hparse p.ifindex p.objUdp
        rw [if_pos hudp, if_pos hudp, hrequest]
        exact ⟨n, rfl, ha⟩
      · rw [if_neg hudp, if_neg hudp]
        by_cases hboth : (p.fOffset && p.fLength) = true
        · obtain ⟨n, hrequest, ha⟩ := asksFor_lltConfig hparse p.ifindex p.objConfig
          rw [if_pos hboth, if_pos hboth, hrequest]
          exact ⟨n, rfl, ha⟩
        · rw [if_neg hboth, if_neg hboth]
          rfl

theorem doShow_follows (hparse : FollowsPolicy nlmsgParse) (argv : List CString) :
    Follows (AsksFor nlmsgParse) (doShow tool argv) (parseArgs tool argv >>= fun p => pure p.showAction) := by
  unfold doShow
  cases parseArgs tool argv with
  | error e => rfl
  | ok p =>
    change Follows (AsksFor nlmsgParse) _ (.ok p.showAction)
    obtain ⟨n, hrequest, ha⟩ := asksFor_dump hparse
      (if p.config then .lltConfigGet else if p.udp then .udpConfigGet else .lltEntryGet) p.ifindex
    rw [apply_ite MadcapCmd.cmd, apply_ite MadcapCmd.cmd] at hrequest
    dsimp only [MadcapCmd.cmd] at hrequest ⊢
    rw [hrequest]
    exact ⟨n, rfl, ha⟩

end

/-- The bytes that `ip madcap` sends are those of the one request that the words ask for.
Words that ask for nothing end without a request. -/
theorem doIpmadcap_follows {nlmsgParse : List U8 → Option GenlInfo} (tool : ToolEnv)
    (hparse : FollowsPolicy nlmsgParse) (argv : List CString) :
    Follows (AsksFor nlmsgParse) (doIpmadcap tool argv) (commandAction tool argv) := by
  cases argv with
  | nil => rfl
  | cons word argv =>
    unfold doIpmadcap commandAction
    dsimp only
    by_cases hadd : wordMatches word "add" = true
    · rw [if_pos hadd, if_pos hadd]
      exact entryCommand_follows (asksFor_lltEntryAdd hparse) argv
    rw [if_neg hadd, if_neg hadd]
    by_cases hdel : (wordMatches word "del" || wordMatches word "delete") = true
    · rw [if_pos hdel, if_pos hdel]
      exact entryCommand_follows (asksFor_lltEntryDel hparse) argv
    rw [if_neg hdel, if_neg hdel]
    by_cases hset : wordMatches word "set" = true
    · rw [if_pos hset, if_pos hset]
      exact doSet_follows hparse argv
    rw [if_neg hset, if_neg hset]
    by_cases hshow : wordMatches word "show" = true
    · rw [if_pos hshow, if_pos hshow]
      exact doShow_follows hparse argv
    rw [if_neg hshow, if_neg hshow]
    by_cases hhelp : wordMatches word "help" = true
    · rw [if_pos hhelp, if_pos hhelp]
      rfl
    · rw [if_neg hhelp, if_neg hhelp]
      rfl

end Madcap
