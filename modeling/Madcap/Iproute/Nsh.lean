import Madcap.Core.Requests
import Madcap.Iproute.Command
import Madcap.Protocol.NshPaths

/-!
# The `ip nsh` command

The words of a command line are collected into parameters, of which those that belong to the
encap type become the attributes of a request. What the module gets is the request that the
words describe.
-/

namespace Madcap

def NSHKMOD_CMD_PATH_DST_SET : U8 := 0
def NSHKMOD_CMD_PATH_DST_UNSET : U8 := 1
def NSHKMOD_CMD_DEV_PATH_SET : U8 := 2
def NSHKMOD_CMD_DEV_PATH_UNSET : U8 := 3
def NSHKMOD_CMD_PATH_DUMP : U8 := 4
def NSHKMOD_CMD_DEV_DUMP : U8 := 5

def NSHKMOD_ATTR_IFINDEX : U16 := 1
def NSHKMOD_ATTR_SPI : U16 := 2
def NSHKMOD_ATTR_SI : U16 := 3
def NSHKMOD_ATTR_MDTYPE : U16 := 4
def NSHKMOD_ATTR_ENCAP : U16 := 5
def NSHKMOD_ATTR_REMOTE : U16 := 6
def NSHKMOD_ATTR_LOCAL : U16 := 7
def NSHKMOD_ATTR_VNI : U16 := 8
def NSHKMOD_ATTR_ETHADDR : U16 := 9

/-- `NSHKMOD_ATTR_MAX`, which is one more than the last attribute. -/
abbrev nshkmodAttrMax : ℕ := 10

def loadMac (m : ℕ → U8) : Mac := m 5 ++ m 4 ++ m 3 ++ m 2 ++ m 1 ++ m 0

/-- An attribute of the family with its value. -/
inductive NshField where
  | ifindex (x : U32)
  | spi (x : U32)
  | si (x : U8)
  | mdtype (x : U8)
  | encap (x : U8)
  | remote (x : U32)
  | localIp (x : U32)
  | vni (x : U32)
  | ethaddr (mac : Mac)
  deriving DecidableEq, Repr

/-- What is handed to `addattr_l`, for most by `addattr32` or `addattr8`. -/
def NshField.call : NshField → U16 × List U8
  | ifindex x => (NSHKMOD_ATTR_IFINDEX, bytesOf 4 x)
  | spi x => (NSHKMOD_ATTR_SPI, bytesOf 4 x)
  | si x => (NSHKMOD_ATTR_SI, bytesOf 1 x)
  | mdtype x => (NSHKMOD_ATTR_MDTYPE, bytesOf 1 x)
  | encap x => (NSHKMOD_ATTR_ENCAP, bytesOf 1 x)
  | remote x => (NSHKMOD_ATTR_REMOTE, bytesOf 4 x)
  | localIp x => (NSHKMOD_ATTR_LOCAL, bytesOf 4 x)
  | vni x => (NSHKMOD_ATTR_VNI, bytesOf 4 x)
  | ethaddr mac => (NSHKMOD_ATTR_ETHADDR, bytesOf 6 mac)

/-- `struct nsh_param`. -/
structure NshParam where
  ifindex : U32
  spi : U32
  si : U8
  mdtype : U8
  remote : U32
  localIp : U32
  encapType : U8
  vni : U32
  mac : Mac
  fSpisi : ℕ
  fDev : Bool
  fRemote : Bool
  fMac : Bool
  fLink : Bool
  deriving DecidableEq, Repr

/-- The `memset` at the start of `parse_args`. -/
def noNshParam : NshParam where
  ifindex := 0
  spi := 0
  si := 0
  mdtype := 0
  remote := 0
  localIp := 0
  encapType := 0
  vni := 0
  mac := 0
  fSpisi := 0
  fDev := false
  fRemote := false
  fMac := false
  fLink := false

namespace IpNsh

section

variable (tool : ToolEnv)

def readEncap (arg : CString) : Option U8 :=
  if arg = "none".toList then some NSH_ENCAP_TYPE_NONE
  else if arg = "vxlan".toList then some NSH_ENCAP_TYPE_VXLAN
  else if arg = "ether".toList then some NSH_ENCAP_TYPE_ETHER
  else none

/-- What `invarg` prints of an address: `ll_addr_a2n` has put an end at its first colon. -/
def cutAddress (arg : CString) : CString :=
  if '.' ∈ arg then arg else arg.takeWhile fun c => c ≠ ':'

/-- The word after `mdtype`. -/
def readMdtype (arg : CString) (p : NshParam) : Except Exit NshParam :=
  match getU8 tool.erange arg with
  | none => .error (.invarg "invalid mdtype" arg)
  | some mdtype =>
    if mdtype ≠ 1 ∧ mdtype ≠ 2 then .error (.invarg "mdtype must be 1 or 2 " arg)
    else .ok { p with mdtype := mdtype }

/-- The words that `parse_args` knows. `dev` and `link` set the same ifindex. -/
def keyword (word : CString) : Option (Keyword NshParam) :=
  if word = "dev".toList then
    some <| .option fun arg p => readDev tool arg fun ifindex =>
      { p with ifindex := ifindex, fDev := true }
  else if word = "spi".toList then
    some <| .option fun arg p => orInvarg "invalid spi" arg (getU32 tool.erange arg) fun spi =>
      { p with spi := spi, fSpisi := p.fSpisi + 1 }
  else if word = "si".toList then
    some <| .option fun arg p => orInvarg "invalid si" arg (getU8 tool.erange arg) fun si =>
      { p with si := si, fSpisi := p.fSpisi + 1 }
  else if word = "mdtype".toList then
    some (.option (readMdtype tool))
  else if word = "encap".toList then
    some <| .option fun arg p => orInvarg "invalid encap type" arg (readEncap arg) fun encapType =>
      { p with encapType := encapType }
  else if word = "remote".toList then
    some <| .option fun arg p => orInvarg "invalid remote address" arg (inetPton arg) fun remote =>
      { p with remote := remote, fRemote := true }
  else if word = "local".toList then
    some <| .option fun arg p => orInvarg "invalid local address" arg (inetPton arg) fun localIp =>
      { p with localIp := localIp }
  else if word = "vni".toList then
    some <| .option fun arg p => orInvarg "invalid vni" arg (getU32 tool.erange arg) fun vni =>
      { p with vni := vni }
  else if word = "dst".toList then
    some <| .option fun arg p =>
      orInvarg "invalid mac address\n" (cutAddress arg) (llAddrA2n (bytesOf 6 p.mac) arg) fun mac =>
        { p with mac := loadMac (readByte mac), fMac := true }
  else if word = "link".toList then
    some <| .option fun arg p => readDev tool arg fun ifindex =>
      { p with ifindex := ifindex, fLink := true }
  else none

def parseArgs (argv : List CString) : Except Exit NshParam :=
  if argv = [] then .error .usage else parseWords (keyword tool) argv noNshParam

end

def pathFields (p : NshParam) : List NshField := [.spi p.spi, .si p.si]

/-- The attributes that belong to the encap type, unless the type needs more than is given. -/
def encapFields (p : NshParam) : Except Exit (List NshField) :=
  if p.encapType = NSH_ENCAP_TYPE_NONE then
    if !p.fDev then .error (.message "encap none needs 'device'")
    else .ok [.ifindex p.ifindex]
  else if p.encapType = NSH_ENCAP_TYPE_VXLAN then
    if !p.fRemote then .error (.message "encap vxlan needs 'remote'")
    else .ok <|
      [.remote p.remote] ++ (if p.localIp ≠ 0 then [.localIp p.localIp] else []) ++
      (if p.vni ≠ 0 then [.vni p.vni] else []) ++ (if p.fDev then [.ifindex p.ifindex] else [])
  else if p.encapType = NSH_ENCAP_TYPE_ETHER then
    if !p.fMac || !p.fLink then .error (.message "encap ether needs 'dst' and 'link'")
    else .ok [.ifindex p.ifindex, .ethaddr p.mac]
  else .ok []

/-- A request with some attributes, which is sent by `rtnl_talk`. -/
def talk (cmd : U8) (fields : List NshField) : Res (Except Exit GenlRequest) := do
  let n ← (genlRequest 1024 cmd nlmTalk).addattrs 1024 (fields.map NshField.call)
  return .ok n

section

variable (tool : ToolEnv)

def doAdd (argv : List CString) : Res (Except Exit GenlRequest) :=
  match parseArgs tool argv with
  | .error e => return .error e
  | .ok p =>
    if p.fSpisi ≠ 2 then return .error (.message "spi and si must be specified")
    else
      match encapFields p with
      | .error e => return .error e
      | .ok fields =>
        talk NSHKMOD_CMD_PATH_DST_SET <| pathFields p ++ [.encap p.encapType] ++
          (if p.mdtype ≠ 0 then [.mdtype p.mdtype] else []) ++ fields

def doDel (argv : List CString) : Res (Except Exit GenlRequest) :=
  match parseArgs tool argv with
  | .error e => return .error e
  | .ok p =>
    if p.fSpisi ≠ 2 then return .error (.message "spi and si must be specified")
    else talk NSHKMOD_CMD_PATH_DST_UNSET (pathFields p)

def doSet (argv : List CString) : Res (Except Exit GenlRequest) :=
  match parseArgs tool argv with
  | .error e => return .error e
  | .ok p =>
    if p.fSpisi ≠ 2 then return .error (.message "spi and si must be specified")
    else if p.ifindex = 0 then return .error (.message "dev must be specified")
    else talk NSHKMOD_CMD_DEV_PATH_SET (.ifindex p.ifindex :: pathFields p)

def doUnset (argv : List CString) : Res (Except Exit GenlRequest) :=
  match parseArgs tool argv with
  | .error e => return .error e
  | .ok p =>
    if p.ifindex = 0 then return .error (.message "dev must be specified")
    else talk NSHKMOD_CMD_DEV_PATH_UNSET [.ifindex p.ifindex]

/-- `do_show`, with `do_show_dev`. Other words are not looked at. -/
def doShow (argv : List CString) : Except Exit GenlRequest :=
  if argv.head? = some "dev".toList then .ok (genlRequest 2014 NSHKMOD_CMD_DEV_DUMP nlmDump)
  else .ok (genlRequest 2014 NSHKMOD_CMD_PATH_DUMP nlmDump)

/-- `do_ipnsh`, once the family has been resolved. -/
def doIpnsh : List CString → Res (Except Exit GenlRequest)
  | [] => return .error .usage
  | word :: argv =>
    if wordMatches word "add" then doAdd tool argv
    else if wordMatches word "del" || wordMatches word "delete" then doDel tool argv
    else if wordMatches word "set" then doSet tool argv
    else if wordMatches word "unset" then doUnset tool argv
    else if wordMatches word "show" || wordMatches word "list" then return doShow argv
    else if wordMatches word "help" then return .error .usage
    else return .error (.unknown word)

end

end IpNsh

/-- What is asked of the module. -/
inductive NshRequest where
  | pathDstSet (a : NshAttrs)
  | pathDstUnset (a : NshAttrs)
  | devPathSet (a : NshAttrs)
  | devPathUnset (a : NshAttrs)
  | pathDump
  | devDump
  deriving DecidableEq, Repr

def noAttrs : NshAttrs where
  ifindex := none
  spi := none
  si := none
  mdtype := none
  encap := none
  remote := none
  localIp := none
  vni := none
  ethaddr := none

namespace NshRequest

def cmd : NshRequest → U8
  | pathDstSet _ => NSHKMOD_CMD_PATH_DST_SET
  | pathDstUnset _ => NSHKMOD_CMD_PATH_DST_UNSET
  | devPathSet _ => NSHKMOD_CMD_DEV_PATH_SET
  | devPathUnset _ => NSHKMOD_CMD_DEV_PATH_UNSET
  | pathDump => NSHKMOD_CMD_PATH_DUMP
  | devDump => NSHKMOD_CMD_DEV_DUMP

def flags : NshRequest → U16
  | pathDump => nlmDump
  | devDump => nlmDump
  | _ => nlmTalk

def attrs : NshRequest → NshAttrs
  | pathDstSet a => a
  | pathDstUnset a => a
  | devPathSet a => a
  | devPathUnset a => a
  | pathDump => noAttrs
  | devDump => noAttrs

end NshRequest

namespace NshParam

variable (p : NshParam)

def path : NshAttrs := { noAttrs with spi := some p.spi, si := some p.si }

/-- A path with the target that is described. What is zero counts as not given. -/
def target : Except Exit NshAttrs :=
  let a := { p.path with
    encap := some p.encapType
    mdtype := if p.mdtype ≠ 0 then some p.mdtype else none }
  if p.encapType = NSH_ENCAP_TYPE_NONE then
    if p.fDev then .ok { a with ifindex := some p.ifindex }
    else .error (.message "encap none needs 'device'")
  else if p.encapType = NSH_ENCAP_TYPE_VXLAN then
    if p.fRemote then
      .ok { a with
        remote := some p.remote
        localIp := if p.localIp ≠ 0 then some p.localIp else none
        vni := if p.vni ≠ 0 then some p.vni else none
        ifindex := if p.fDev then some p.ifindex else none }
    else .error (.message "encap vxlan needs 'remote'")
  else if p.encapType = NSH_ENCAP_TYPE_ETHER then
    if p.fMac && p.fLink then .ok { a with ifindex := some p.ifindex, ethaddr := some p.mac }
    else .error (.message "encap ether needs 'dst' and 'link'")
  else .ok a

def aboutPath (request : Except Exit NshRequest) : Except Exit NshRequest :=
  if p.fSpisi = 2 then request else .error (.message "spi and si must be specified")

def aboutDev (request : NshAttrs → NshRequest) (a : NshAttrs) : Except Exit NshRequest :=
  if p.ifindex = 0 then .error (.message "dev must be specified")
  else .ok (request { a with ifindex := some p.ifindex })

end NshParam

/-- What a command line asks for, or why it ends without a request. -/
def nshCommandRequest (tool : ToolEnv) : List CString → Except Exit NshRequest
  | [] => .error .usage
  | word :: argv =>
    if wordMatches word "add" then do
      let p ← IpNsh.parseArgs tool argv
      p.aboutPath (.pathDstSet <$> p.target)
    else if wordMatches word "del" || wordMatches word "delete" then do
      let p ← IpNsh.parseArgs tool argv
      p.aboutPath (.ok (.pathDstUnset p.path))
    else if wordMatches word "set" then do
      let p ← IpNsh.parseArgs tool argv
      p.aboutPath (p.aboutDev .devPathSet p.path)
    else if wordMatches word "unset" then do
      let p ← IpNsh.parseArgs tool argv
      p.aboutDev .devPathUnset noAttrs
    else if wordMatches word "show" || wordMatches word "list" then
      .ok (if argv.head? = some "dev".toList then .devDump else .pathDump)
    else if wordMatches word "help" then .error .usage
    else .error (.unknown word)

def nshWords : List U16 :=
  [NSHKMOD_ATTR_IFINDEX, NSHKMOD_ATTR_SPI, NSHKMOD_ATTR_REMOTE, NSHKMOD_ATTR_LOCAL, NSHKMOD_ATTR_VNI]

def nshBytes : List U16 := [NSHKMOD_ATTR_SI, NSHKMOD_ATTR_MDTYPE, NSHKMOD_ATTR_ENCAP]

/-- An attribute is known and passes `nshkmod_nl_policy`. It also has the byte that is read of
an MD-type, which the policy does not ask for. -/
structure NshkmodNlPolicy (type : U16) (data : List U8) : Prop where
  known : type.toNat ≤ nshkmodAttrMax
  word : type ∈ nshWords → 4 ≤ data.length
  byte : type ∈ nshBytes → 1 ≤ data.length
  ethaddr : type = NSHKMOD_ATTR_ETHADDR → data.length ≤ 6

/-- What the handlers find of attributes: the last of each type. -/
def NshAttrs.ofCalls (calls : List (U16 × List U8)) : NshAttrs where
  ifindex := (lastCall calls NSHKMOD_ATTR_IFINDEX).map fun data => load32 (readByte data)
  spi := (lastCall calls NSHKMOD_ATTR_SPI).map fun data => load32 (readByte data)
  si := (lastCall calls NSHKMOD_ATTR_SI).map fun data => readByte data 0
  mdtype := (lastCall calls NSHKMOD_ATTR_MDTYPE).map fun data => readByte data 0
  encap := (lastCall calls NSHKMOD_ATTR_ENCAP).map fun data => readByte data 0
  remote := (lastCall calls NSHKMOD_ATTR_REMOTE).map fun data => load32 (readByte data)
  localIp := (lastCall calls NSHKMOD_ATTR_LOCAL).map fun data => load32 (readByte data)
  vni := (lastCall calls NSHKMOD_ATTR_VNI).map fun data => load32 (readByte data)
  ethaddr := (lastCall calls NSHKMOD_ATTR_ETHADDR).map fun data => loadMac (readByte data)

/-- The kernel's parser takes a message whose attributes all pass the policy. -/
def FollowsNshPolicy (nlmsgParse : List U8 → Option NshAttrs) : Prop :=
  ∀ as m, Encodes as m → (∀ a ∈ as, NshkmodNlPolicy a.type a.data) →
    nlmsgParse m = some (.ofCalls (as.map fun a => (a.type, a.data)))

/-- A parser that looks at nothing else. -/
def nshNlaParse (m : List U8) : Option NshAttrs :=
  some (.ofCalls ((attrsFrom m 0).1.map fun p => (p.2.type, p.2.data)))

theorem nshNlaParse_follows : FollowsNshPolicy nshNlaParse := by
  intro as m hencodes _
  unfold nshNlaParse
  rw [← hencodes.attrs, List.map_map]
  rfl

theorem loadMac_last (mac : Mac) : loadMac (readByte (bytesOf 6 mac)) = mac := by
  have hbytes (i : ℕ) (hi : i < 6) : readByte (bytesOf 6 mac) i = byteAt mac i := by
    have h := readByte_bytesOf 6 mac [] hi
    rwa [List.append_nil] at h
  unfold loadMac
  rw [hbytes 0 (by decide), hbytes 1 (by decide), hbytes 2 (by decide), hbytes 3 (by decide),
    hbytes 4 (by decide), hbytes 5 (by decide)]
  apply BitVec.eq_of_getLsbD_eq
  intro i hi
  simp only [BitVec.getLsbD_append, byteAt, BitVec.getLsbD_extractLsb']
  grind

theorem readByte_one (x : U8) : readByte (bytesOf 1 x) 0 = x := by
  have h := readByte_bytesOf 1 x [] (show 0 < 1 by decide)
  rw [List.append_nil] at h
  rw [h]
  apply BitVec.eq_of_getLsbD_eq
  intro i hi
  simp [byteAt, hi]

theorem nshkmodNlPolicy_word {type : U16} (x : U32) (htype : type ∈ nshWords) :
    NshkmodNlPolicy type (bytesOf 4 x) := by
  have hlen : (bytesOf 4 x).length = 4 := bytesOf_length 4 x
  have hknown : type.toNat ≤ nshkmodAttrMax ∧ type ≠ NSHKMOD_ATTR_ETHADDR := by
    simp only [nshWords, List.mem_cons, List.not_mem_nil, or_false] at htype
    rcases htype with rfl | rfl | rfl | rfl | rfl <;> decide
  exact
    { known := hknown.1
      word := fun _ => Nat.le_of_eq hlen.symm
      byte := fun _ => by rw [hlen]; decide
      ethaddr := fun h => absurd h hknown.2 }

theorem nshkmodNlPolicy_byte {type : U16} (x : U8) (htype : type ∈ nshBytes) :
    NshkmodNlPolicy type (bytesOf 1 x) := by
  have hlen : (bytesOf 1 x).length = 1 := bytesOf_length 1 x
  have hknown : type.toNat ≤ nshkmodAttrMax ∧ type ≠ NSHKMOD_ATTR_ETHADDR ∧ type ∉ nshWords := by
    simp only [nshBytes, List.mem_cons, List.not_mem_nil, or_false] at htype
    rcases htype with rfl | rfl | rfl <;> decide
  exact
    { known := hknown.1
      word := fun h => absurd h hknown.2.2
      byte := fun _ => Nat.le_of_eq hlen.symm
      ethaddr := fun h => absurd h hknown.2.1 }

theorem nshkmodNlPolicy_mac (mac : Mac) : NshkmodNlPolicy NSHKMOD_ATTR_ETHADDR (bytesOf 6 mac) where
  known := show NSHKMOD_ATTR_ETHADDR.toNat ≤ nshkmodAttrMax by decide
  word h := absurd h (show NSHKMOD_ATTR_ETHADDR ∉ nshWords by decide)
  byte h := absurd h (show NSHKMOD_ATTR_ETHADDR ∉ nshBytes by decide)
  ethaddr _ := Nat.le_of_eq (bytesOf_length 6 mac)

namespace NshField

theorem policy (f : NshField) : NshkmodNlPolicy f.call.1 f.call.2 := by
  cases f with
  | si x => exact nshkmodNlPolicy_byte x (by simp [call, nshBytes])
  | mdtype x => exact nshkmodNlPolicy_byte x (by simp [call, nshBytes])
  | encap x => exact nshkmodNlPolicy_byte x (by simp [call, nshBytes])
  | ethaddr mac => exact nshkmodNlPolicy_mac mac
  | _ x => exact nshkmodNlPolicy_word x (by simp [call, nshWords])

theorem call_length (f : NshField) : f.call.2.length ≤ 6 := by
  cases f <;> exact (bytesOf_length _ _).trans_le (by decide)

def attr (f : NshField) : Attr where
  type := f.call.1
  data := f.call.2
  fits := by
    have hlen := f.call_length
    omega

def set (a : NshAttrs) : NshField → NshAttrs
  | ifindex x => { a with ifindex := some x }
  | spi x => { a with spi := some x }
  | si x => { a with si := some x }
  | mdtype x => { a with mdtype := some x }
  | encap x => { a with encap := some x }
  | remote x => { a with remote := some x }
  | localIp x => { a with localIp := some x }
  | vni x => { a with vni := some x }
  | ethaddr mac => { a with ethaddr := some mac }

end NshField

def NshAttrs.ofFields (fields : List NshField) : NshAttrs := fields.foldl NshField.set noAttrs

theorem ofCalls_fields (fields : List NshField) :
    NshAttrs.ofCalls (fields.map NshField.call) = .ofFields fields := by
  induction fields using List.reverseRecOn with
  | nil => rfl
  | append_singleton fields f ih =>
    have hset : NshAttrs.ofFields (fields ++ [f]) = f.set (.ofFields fields) := by
      unfold NshAttrs.ofFields
      rw [List.foldl_append]
      rfl
    rw [hset, ← ih, List.map_append]
    unfold NshAttrs.ofCalls
    simp only [lastCall_append]
    cases f <;>
      simp [NshField.call, NshField.set, lastCall_singleton, load32_last, readByte_one, loadMac_last,
        NSHKMOD_ATTR_IFINDEX, NSHKMOD_ATTR_SPI, NSHKMOD_ATTR_SI, NSHKMOD_ATTR_MDTYPE,
        NSHKMOD_ATTR_ENCAP, NSHKMOD_ATTR_REMOTE, NSHKMOD_ATTR_LOCAL, NSHKMOD_ATTR_VNI,
        NSHKMOD_ATTR_ETHADDR]

section

variable {nlmsgParse : List U8 → Option NshAttrs} {tool : ToolEnv}

/-- The request is in the bytes of `n`. -/
def NshAsksFor (nlmsgParse : List U8 → Option NshAttrs) (n : GenlRequest) (r : NshRequest) : Prop :=
  n.cmd = r.cmd ∧ n.flags = r.flags ∧ nlmsgParse n.attrs = some r.attrs

theorem talk_asks (hparse : FollowsNshPolicy nlmsgParse) {fields : List NshField}
    (hfew : fields.length ≤ 10) (r : NshRequest) (hflags : r.flags = nlmTalk)
    (hattrs : NshAttrs.ofFields fields = r.attrs) :
    Follows (NshAsksFor nlmsgParse) (IpNsh.talk r.cmd fields) (.ok r) := by
  obtain ⟨n, as, hrun, hcmd, hflags', -, hholds, hmap⟩ :=
    (holds_genlRequest 1024 r.cmd nlmTalk).addattrs (show 1024 ≤ genlHeaders + 1024 by decide)
      (by decide) (Nat.le_max_left _ _) (fields.map NshField.call)
  have hroom : roomFor 1024 genlHeaders (fields.map NshField.call) = fields.map NshField.call := by
    apply roomFor_eq_self (k := 12) fun c hc => ?_
    · rw [List.length_map]
      unfold genlHeaders
      omega
    · obtain ⟨f, -, rfl⟩ := List.mem_map.mp hc
      have hsmall := f.call_length
      unfold align4
      omega
  have hmap : as.map (fun a => (a.type, a.data)) = fields.map NshField.call := hmap.trans hroom
  rw [List.nil_append] at hholds
  have hpolicy : ∀ a ∈ as, NshkmodNlPolicy a.type a.data := by
    intro a ha
    have hmem : (a.type, a.data) ∈ fields.map NshField.call := hmap ▸ List.mem_map_of_mem ha
    obtain ⟨f, -, hf⟩ := List.mem_map.mp hmem
    have hpass := f.policy
    rwa [hf] at hpass
  refine ⟨n, ?_, hcmd, hflags'.trans hflags.symm, ?_⟩
  · unfold IpNsh.talk
    rw [hrun]
    rfl
  · rw [hparse as n.attrs hholds.encodes hpolicy, hmap, ofCalls_fields, hattrs]

theorem dump_asks (hparse : FollowsNshPolicy nlmsgParse) (cmd : U8) :
    nlmsgParse (genlRequest 2014 cmd nlmDump).attrs = some noAttrs :=
  hparse [] _ (holds_genlRequest 2014 cmd nlmDump).encodes fun _ ha => absurd ha List.not_mem_nil

namespace IpNsh

variable (p : NshParam)

theorem encapFields_target :
    (∃ e, encapFields p = .error e ∧ p.target = .error e) ∨
    ∃ fields a, encapFields p = .ok fields ∧ p.target = .ok a ∧ fields.length ≤ 4 ∧
      NshAttrs.ofFields (pathFields p ++ [.encap p.encapType] ++
        (if p.mdtype ≠ 0 then [.mdtype p.mdtype] else []) ++ fields) = a := by
  unfold encapFields NshParam.target
  by_cases hnone : p.encapType = NSH_ENCAP_TYPE_NONE
  · rw [if_pos hnone, if_pos hnone]
    cases hdev : p.fDev with
    | false => exact .inl ⟨_, rfl, rfl⟩
    | true =>
      refine .inr ⟨_, _, rfl, rfl, Nat.le_add_left 1 3, ?_⟩
      split_ifs <;> rfl
  · rw [if_neg hnone, if_neg hnone]
    by_cases hvxlan : p.encapType = NSH_ENCAP_TYPE_VXLAN
    · rw [if_pos hvxlan, if_pos hvxlan]
      cases hremote : p.fRemote with
      | false => exact .inl ⟨_, rfl, rfl⟩
      | true =>
        refine .inr ⟨_, _, rfl, rfl, ?_, ?_⟩
        · split_ifs <;> simp
        · split_ifs <;> rfl
    · rw [if_neg hvxlan, if_neg hvxlan]
      by_cases hether : p.encapType = NSH_ENCAP_TYPE_ETHER
      · rw [if_pos hether, if_pos hether]
        cases hmac : p.fMac with
        | false => exact .inl ⟨_, rfl, rfl⟩
        | true =>
          cases hlink : p.fLink with
          | false => exact .inl ⟨_, rfl, rfl⟩
          | true =>
            refine .inr ⟨_, _, rfl, rfl, Nat.le_add_left 2 2, ?_⟩
            split_ifs <;> rfl
      · rw [if_neg hether, if_neg hether]
        refine .inr ⟨_, _, rfl, rfl, Nat.zero_le 4, ?_⟩
        split_ifs <;> rfl

section

variable (hparse : FollowsNshPolicy nlmsgParse) (tool : ToolEnv) (argv : List CString)

include hparse

theorem doAdd_follows : Follows (NshAsksFor nlmsgParse) (doAdd tool argv)
    (parseArgs tool argv >>= fun p => p.aboutPath (.pathDstSet <$> p.target)) := by
  unfold doAdd
  cases parseArgs tool argv with
  | error e => rfl
  | ok p =>
    change Follows (NshAsksFor nlmsgParse) _ (p.aboutPath (.pathDstSet <$> p.target))
    dsimp only
    unfold NshParam.aboutPath
    by_cases hpath : p.fSpisi = 2
    · rw [if_neg (not_not.mpr hpath), if_pos hpath]
      rcases encapFields_target p with ⟨e, hfields, htarget⟩ | ⟨fields, a, hfields, htarget, hfew, ha⟩
      · rw [hfields, htarget]
        rfl
      · rw [hfields, htarget]
        refine talk_asks hparse ?_ (.pathDstSet a) rfl ha
        simp only [List.length_append]
        split_ifs <;> simp [pathFields] <;> omega
    · rw [if_pos hpath, if_neg hpath]
      rfl

theorem doDel_follows : Follows (NshAsksFor nlmsgParse) (doDel tool argv)
    (parseArgs tool argv >>= fun p => p.aboutPath (.ok (.pathDstUnset p.path))) := by
  unfold doDel
  cases parseArgs tool argv with
  | error e => rfl
  | ok p =>
    change Follows (NshAsksFor nlmsgParse) _ (p.aboutPath (.ok (.pathDstUnset p.path)))
    dsimp only
    unfold NshParam.aboutPath
    by_cases hpath : p.fSpisi = 2
    · rw [if_neg (not_not.mpr hpath), if_pos hpath]
      exact talk_asks hparse (by simp [pathFields]) (.pathDstUnset p.path) rfl rfl
    · rw [if_pos hpath, if_neg hpath]
      rfl

theorem doSet_follows : Follows (NshAsksFor nlmsgParse) (doSet tool argv)
    (parseArgs tool argv >>= fun p => p.aboutPath (p.aboutDev .devPathSet p.path)) := by
  unfold doSet
  cases parseArgs tool argv with
  | error e => rfl
  | ok p =>
    change Follows (NshAsksFor nlmsgParse) _ (p.aboutPath (p.aboutDev .devPathSet p.path))
    dsimp only
    unfold NshParam.aboutPath NshParam.aboutDev
    by_cases hpath : p.fSpisi = 2
    · rw [if_neg (not_not.mpr hpath), if_pos hpath]
      by_cases hdev : p.ifindex = 0
      · rw [if_pos hdev, if_pos hdev]
        rfl
      · rw [if_neg hdev, if_neg hdev]
        exact talk_asks hparse (by simp [pathFields])
          (.devPathSet { p.path with ifindex := some p.ifindex }) rfl rfl
    · rw [if_pos hpath, if_neg hpath]
      rfl

theorem doUnset_follows : Follows (NshAsksFor nlmsgParse) (doUnset tool argv)
    (parseArgs tool argv >>= fun p => p.aboutDev .devPathUnset noAttrs) := by
  unfold doUnset
  cases parseArgs tool argv with
  | error e => rfl
  | ok p =>
    change Follows (NshAsksFor nlmsgParse) _ (p.aboutDev .devPathUnset noAttrs)
    dsimp only
    unfold NshParam.aboutDev
    by_cases hdev : p.ifindex = 0
    · rw [if_pos hdev, if_pos hdev]
      rfl
    · rw [if_neg hdev, if_neg hdev]
      exact talk_asks hparse (by simp) (.devPathUnset { noAttrs with ifindex := some p.ifindex }) rfl rfl

theorem doShow_follows : Follows (NshAsksFor nlmsgParse) (pure (doShow argv))
    (.ok (if argv.head? = some "dev".toList then .devDump else .pathDump)) := by
  unfold doShow
  split_ifs
  · exact ⟨_, rfl, rfl, rfl, dump_asks hparse NSHKMOD_CMD_DEV_DUMP⟩
  · exact ⟨_, rfl, rfl, rfl, dump_asks hparse NSHKMOD_CMD_PATH_DUMP⟩

/-- The bytes that `ip nsh` sends are those of the one request that the words ask for. Words
that ask for nothing end without a request. -/
theorem doIpnsh_follows : Follows (NshAsksFor nlmsgParse) (doIpnsh tool argv)
    (nshCommandRequest tool argv) := by
  cases argv with
  | nil => rfl
  | cons word argv =>
    unfold doIpnsh nshCommandRequest
    dsimp only
    by_cases hadd : wordMatches word "add" = true
    · rw [if_pos hadd, if_pos hadd]
      exact doAdd_follows hparse tool argv
    rw [if_neg hadd, if_neg hadd]
    by_cases hdel : (wordMatches word "del" || wordMatches word "delete") = true
    · rw [if_pos hdel, if_pos hdel]
      exact doDel_follows hparse tool argv
    rw [if_neg hdel, if_neg hdel]
    by_cases hset : wordMatches word "set" = true
    · rw [if_pos hset, if_pos hset]
      exact doSet_follows hparse tool argv
    rw [if_neg hset, if_neg hset]
    by_cases hunset : wordMatches word "unset" = true
    · rw [if_pos hunset, if_pos hunset]
      exact doUnset_follows hparse tool argv
    rw [if_neg hunset, if_neg hunset]
    by_cases hshow : (wordMatches word "show" || wordMatches word "list") = true
    · rw [if_pos hshow, if_pos hshow]
      exact doShow_follows hparse argv
    rw [if_neg hshow, if_neg hshow]
    by_cases hhelp : wordMatches word "help" = true
    · rw [if_pos hhelp, if_pos hhelp]
      rfl
    · rw [if_neg hhelp, if_neg hhelp]
      rfl

end

end IpNsh

end

end Madcap
