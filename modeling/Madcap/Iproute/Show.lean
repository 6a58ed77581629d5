import Madcap.Iproute.Madcap

/-!
# What `ip madcap show` prints

Each message of a dump is printed as a line. The words of a line are those of the command that
asks for what the line says, so that the lines can be kept and given back to the tool.
-/

namespace Madcap

section

variable (tool : ToolEnv)

/-- The name that is printed for a device: nothing, when it has none. -/
def devName (ifindex : U32) : CString := (tool.ifs.indextoname ifindex).getD []

/-- What `obj_entry_nlmsg`, `obj_config_nlmsg` and `obj_udp_nlmsg` do with what lies behind the
header of a message: the code and the output. The object is copied whole, whatever the length
of its attribute is. -/
def objNlmsg (type : Fin (madcapAttrMax + 1)) (size : ℕ)
    (print : CString → (ℕ → U8) → CString) (m : List U8) : Res (ℤ × CString) :=
  if m.length < 4 then return (-1, [])
  else do
    let (attrs, _) ← parseRtattr madcapAttrMax (m.drop 4)
    match attrs type, attrs (Fin.ofNat (madcapAttrMax + 1) MADCAP_ATTR_IFINDEX.toNat) with
    | some obj, some rta => do
      let ifindex ← rtaData (m.drop 4) rta 4
      let data ← rtaData (m.drop 4) obj size
      return (0, print (devName tool (load32 (readByte ifindex))) (readByte data))
    | _, _ => return (-1, [])

def entryLine (dev : CString) (id : U64) (dst : U32) : CString :=
  "dev ".toList ++ dev ++ " id ".toList ++ decimal id.toNat ++ " dst ".toList ++ inetNtop dst ++
    "\n".toList

def configLine (dev : CString) (oc : ObjConfig) : CString :=
  "dev ".toList ++ dev ++ " offset ".toList ++ decimal oc.offset.toNat ++ " length ".toList ++
    decimal oc.length.toNat ++ " proto ".toList ++ decimal oc.proto.toNat ++ " src ".toList ++
    inetNtop oc.src ++ "\n".toList

def udpLine (dev : CString) (ou : ObjUdp) : CString :=
  if ou.encapEnable = 0 then "dev ".toList ++ dev ++ " udp disable\n".toList
  else
    let srcPort := if ou.srcHashEnable ≠ 0 then "hash".toList else decimal (htons ou.srcPort).toNat
    "dev ".toList ++ dev ++ " udp enable dst-port ".toList ++ decimal (htons ou.dstPort).toNat ++
      " src-port ".toList ++ srcPort ++ "\n".toList

def objEntryNlmsg : List U8 → Res (ℤ × CString) :=
  objNlmsg tool 3 sizeofObjEntry fun dev m =>
    entryLine dev (EntryObject.read m).fields.id (EntryObject.read m).fields.dst

def objConfigNlmsg : List U8 → Res (ℤ × CString) :=
  objNlmsg tool 2 sizeofObjConfig fun dev m => configLine dev (ConfigObject.read m).fields

def objUdpNlmsg : List U8 → Res (ℤ × CString) :=
  objNlmsg tool 4 sizeofObjUdp fun dev m => udpLine dev (ObjUdp.read m)

end

def MadcapAttr.type : MadcapAttr → U16
  | .objConfig => MADCAP_ATTR_OBJ_CONFIG
  | .objEntry => MADCAP_ATTR_OBJ_ENTRY
  | .objUdp => MADCAP_ATTR_OBJ_UDP

/-- What lies behind the netlink header of a message, when it carries this object. The object is
copied as it lies in memory, so that nothing is known about bytes that belong to no field. -/
def ObjMsg.CarriedBy {α : Type} (read : (ℕ → U8) → α) (size : ℕ) (msg : ObjMsg α) (m : List U8) :
    Prop :=
  ∃ (genl bs : List U8) (obj : Attr), m = genl ++ bs ∧ genl.length = 4 ∧
    obj.type = msg.attr.type ∧ obj.data.length = size ∧ read (readByte obj.data) = msg.obj ∧
    Encodes (obj :: (msg.ifindex.map ifindexAttr).toList) bs

section

variable {tool : ToolEnv} {α : Type} {read : (ℕ → U8) → α} {size : ℕ} {msg : ObjMsg α}
  {m : List U8} {ifindex : U32} {type : Fin (madcapAttrMax + 1)}

theorem objNlmsg_carriedBy (h : msg.CarriedBy read size m) (hifindex : msg.ifindex = some ifindex)
    (htype : msg.attr.type.toNat = type) (print : CString → α → CString) :
    objNlmsg tool type size (fun dev bytes => print dev (read bytes)) m =
      .ok (0, print (devName tool ifindex) msg.obj) := by
  obtain ⟨genl, bs, obj, rfl, hgenl, hobj, hsize, hread, hencodes⟩ := h
  rw [hifindex] at hencodes
  have hlen : ¬ (genl ++ bs).length < 4 := by
    rw [List.length_append, hgenl]
    omega
  have hdrop : (genl ++ bs).drop 4 = bs := by
    rw [← hgenl, List.drop_left]
  have hfirst := firstAttrs_encodes hencodes madcapAttrMax type
  rw [List.find?_cons_of_pos (by rw [hobj, htype]; exact decide_eq_true rfl)] at hfirst
  obtain ⟨off, hoff, hat⟩ := hfirst
  have hother : obj.type.toNat ≠ (Fin.ofNat (madcapAttrMax + 1) MADCAP_ATTR_IFINDEX.toNat).val := by
    rw [hobj]
    cases msg.attr <;> decide
  have hsecond := firstAttrs_encodes hencodes madcapAttrMax
    (Fin.ofNat (madcapAttrMax + 1) MADCAP_ATTR_IFINDEX.toNat)
  rw [List.find?_cons_of_neg (by simpa using hother)] at hsecond
  obtain ⟨off', hoff', hat'⟩ : ∃ off', firstAttrs madcapAttrMax bs
      (Fin.ofNat (madcapAttrMax + 1) MADCAP_ATTR_IFINDEX.toNat) = some off' ∧
        readAttr bs off' = some (ifindexAttr ifindex) := hsecond
  have hdata := rtaData_of_readAttr hat
  have hdata' := rtaData_of_readAttr hat'
  rw [hsize] at hdata
  have hfour : (ifindexAttr ifindex).data.length = 4 := bytesOf_length 4 ifindex
  rw [hfour] at hdata'
  unfold objNlmsg
  rw [if_neg hlen, hdrop, parseRtattr_eq, if_pos hencodes.stop]
  simp only [bind, Except.bind, hoff, hoff', hdata, hdata', hread]
  rw [show (ifindexAttr ifindex).data = bytesOf 4 ifindex from rfl, load32_last]
  rfl

end

theorem carriedBy_bytes {α : Type} (read : (ℕ → U8) → α) (obj : Attr) (msg : ObjMsg α)
    (htype : obj.type = msg.attr.type) (hread : read (readByte obj.data) = msg.obj)
    {ifindex : U32} (hifindex : msg.ifindex = some ifindex) (hwhole : 4 ∣ obj.size) :
    msg.CarriedBy read obj.data.length
      (List.replicate 4 0 ++ (obj.bytes ++ (ifindexAttr ifindex).bytes)) := by
  refine ⟨_, _, obj, rfl, List.length_replicate, htype, rfl, hread, ?_⟩
  have hlast : Encodes [ifindexAttr ifindex] ((ifindexAttr ifindex).bytes ++ []) := by
    refine .single ?_
    rw [Attr.size, show (ifindexAttr ifindex).data.length = 4 from bytesOf_length 4 ifindex]
    rfl
  have hpad : ([] : List U8).length = align4 obj.size - obj.size := by
    rw [align4_of_dvd hwhole, Nat.sub_self, List.length_nil]
  have hboth := Encodes.cons obj hpad hlast
  rw [hifindex]
  rwa [List.append_nil, List.append_nil] at hboth

theorem objEntryNlmsg_carriedBy {tool : ToolEnv} {msg : ObjMsg ObjEntry} {m : List U8} {ifindex : U32}
    (h : msg.CarriedBy (fun b => (EntryObject.read b).fields) sizeofObjEntry m)
    (hattr : msg.attr = .objEntry) (hifindex : msg.ifindex = some ifindex) :
    objEntryNlmsg tool m =
      .ok (0, entryLine (devName tool ifindex) msg.obj.id msg.obj.dst) := by
  refine objNlmsg_carriedBy h hifindex ?_ fun dev oe => entryLine dev oe.id oe.dst
  rw [hattr]
  rfl

theorem objConfigNlmsg_carriedBy {tool : ToolEnv} {msg : ObjMsg ObjConfig} {m : List U8}
    {ifindex : U32} (h : msg.CarriedBy (fun b => (ConfigObject.read b).fields) sizeofObjConfig m)
    (hattr : msg.attr = .objConfig) (hifindex : msg.ifindex = some ifindex) :
    objConfigNlmsg tool m = .ok (0, configLine (devName tool ifindex) msg.obj) := by
  refine objNlmsg_carriedBy h hifindex ?_ configLine
  rw [hattr]
  rfl

theorem objUdpNlmsg_carriedBy {tool : ToolEnv} {msg : ObjMsg ObjUdp} {m : List U8} {ifindex : U32}
    (h : msg.CarriedBy ObjUdp.read sizeofObjUdp m) (hattr : msg.attr = .objUdp)
    (hifindex : msg.ifindex = some ifindex) :
    objUdpNlmsg tool m = .ok (0, udpLine (devName tool ifindex) msg.obj) := by
  refine objNlmsg_carriedBy h hifindex ?_ udpLine
  rw [hattr]
  rfl

section

variable {dev : CString}

theorem lineWords_entryLine (hdev : IsWord dev) (id : U64) (dst : U32) :
    lineWords (entryLine dev id dst) =
      ["dev".toList, dev, "id".toList, decimal id.toNat, "dst".toList, inetNtop dst] := by
  have hline : entryLine dev id dst = [' '].intercalate
      ["dev".toList, dev, "id".toList, decimal id.toNat, "dst".toList, inetNtop dst] ++ "\n".toList := by
    have hfirst : "dev ".toList = "dev".toList ++ [' '] := rfl
    have hid : " id ".toList = [' '] ++ ("id".toList ++ [' ']) := rfl
    have hdst : " dst ".toList = [' '] ++ ("dst".toList ++ [' ']) := rfl
    unfold entryLine
    rw [hfirst, hid, hdst]
    simp only [List.intercalate_cons_cons, List.intercalate_singleton, List.append_assoc]
  rw [hline]
  apply lineWords_intercalate _ (List.cons_ne_nil _ _)
  simp only [List.forall_mem_cons]
  exact ⟨by decide, hdev, by decide, isWord_decimal _, by decide, isWord_inetNtop dst,
    fun w hw => absurd hw List.not_mem_nil⟩

theorem lineWords_configLine (hdev : IsWord dev) (oc : ObjConfig) :
    lineWords (configLine dev oc) =
      ["dev".toList, dev, "offset".toList, decimal oc.offset.toNat, "length".toList,
        decimal oc.length.toNat, "proto".toList, decimal oc.proto.toNat, "src".toList,
        inetNtop oc.src] := by
  have hline : configLine dev oc = [' '].intercalate
      ["dev".toList, dev, "offset".toList, decimal oc.offset.toNat, "length".toList,
        decimal oc.length.toNat, "proto".toList, decimal oc.proto.toNat, "src".toList,
        inetNtop oc.src] ++ "\n".toList := by
    have hfirst : "dev ".toList = "dev".toList ++ [' '] := rfl
    have hoffset : " offset ".toList = [' '] ++ ("offset".toList ++ [' ']) := rfl
    have hlength : " length ".toList = [' '] ++ ("length".toList ++ [' ']) := rfl
    have hproto : " proto ".toList = [' '] ++ ("proto".toList ++ [' ']) := rfl
    have hsrc : " src ".toList = [' '] ++ ("src".toList ++ [' ']) := rfl
    unfold configLine
    rw [hfirst, hoffset, hlength, hproto, hsrc]
    simp only [List.intercalate_cons_cons, List.intercalate_singleton, List.append_assoc]
  rw [hline]
  apply lineWords_intercalate _ (List.cons_ne_nil _ _)
  simp only [List.forall_mem_cons]
  exact ⟨by decide, hdev, by decide, isWord_decimal _, by decide, isWord_decimal _, by decide,
    isWord_decimal _, by decide, isWord_inetNtop _, fun w hw => absurd hw List.not_mem_nil⟩

def srcPortWord (ou : ObjUdp) : CString :=
  if ou.srcHashEnable ≠ 0 then "hash".toList else decimal (htons ou.srcPort).toNat

theorem lineWords_udpLine (hdev : IsWord dev) (ou : ObjUdp) :
    lineWords (udpLine dev ou) =
      if ou.encapEnable = 0 then ["dev".toList, dev, "udp".toList, "disable".toList]
      else ["dev".toList, dev, "udp".toList, "enable".toList, "dst-port".toList,
        decimal (htons ou.dstPort).toNat, "src-port".toList, srcPortWord ou] := by
  have hfirst : "dev ".toList = "dev".toList ++ [' '] := rfl
  unfold udpLine
  by_cases hdisable : ou.encapEnable = 0
  · rw [if_pos hdisable, if_pos hdisable]
    have hline : "dev ".toList ++ dev ++ " udp disable\n".toList =
        [' '].intercalate ["dev".toList, dev, "udp".toList, "disable".toList] ++ "\n".toList := by
      have hrest : " udp disable\n".toList =
          [' '] ++ ("udp".toList ++ ([' '] ++ ("disable".toList ++ "\n".toList))) := rfl
      rw [hfirst, hrest]
      simp only [List.intercalate_cons_cons, List.intercalate_singleton, List.append_assoc]
    rw [hline]
    apply lineWords_intercalate _ (List.cons_ne_nil _ _)
    simp only [List.forall_mem_cons]
    exact ⟨by decide, hdev, by decide, by decide, fun w hw => absurd hw List.not_mem_nil⟩
  · rw [if_neg hdisable, if_neg hdisable]
    have hline : "dev ".toList ++ dev ++ " udp enable dst-port ".toList ++
        decimal (htons ou.dstPort).toNat ++ " src-port ".toList ++ srcPortWord ou ++ "\n".toList =
        [' '].intercalate ["dev".toList, dev, "udp".toList, "enable".toList, "dst-port".toList,
          decimal (htons ou.dstPort).toNat, "src-port".toList, srcPortWord ou] ++ "\n".toList := by
      have hudp : " udp enable dst-port ".toList =
          [' '] ++ ("udp".toList ++ ([' '] ++ ("enable".toList ++ ([' '] ++ ("dst-port".toList ++ [' ']))))) := rfl
      have hsrc : " src-port ".toList = [' '] ++ ("src-port".toList ++ [' ']) := rfl
      rw [hfirst, hudp, hsrc]
      simp only [List.intercalate_cons_cons, List.intercalate_singleton, List.append_assoc]
    have hword : IsWord (srcPortWord ou) := by
      unfold srcPortWord
      split_ifs
      · decide
      · exact isWord_decimal _
    change lineWords ("dev ".toList ++ dev ++ " udp enable dst-port ".toList ++
      decimal (htons ou.dstPort).toNat ++ " src-port ".toList ++ srcPortWord ou ++ "\n".toList) = _
    rw [hline]
    apply lineWords_intercalate _ (List.cons_ne_nil _ _)
    simp only [List.forall_mem_cons]
    exact ⟨by decide, hdev, by decide, by decide, by decide, isWord_decimal _, by decide, hword,
      fun w hw => absurd hw List.not_mem_nil⟩

end

section

variable {tool : ToolEnv} {word arg : CString} {argv : List CString} {p p' : MadcapParam}

theorem parseWords_dev (hdev : tool.ifs.nametoindex arg ≠ 0) :
    parseWords (keyword tool) ("dev".toList :: arg :: argv) p =
      parseWords (keyword tool) argv { p with ifindex := tool.ifs.nametoindex arg } :=
  parseWords_option rfl (readDev_named hdev _)

theorem parseWords_id (herange : tool.erange = false) (id : U64) :
    parseWords (keyword tool) ("id".toList :: decimal id.toNat :: argv) p =
      parseWords (keyword tool) argv { p with id := id } := by
  refine parseWords_option rfl ?_
  rw [getU64_decimal id fun _ => herange]
  rfl

theorem parseWords_dst (dst : U32) :
    parseWords (keyword tool) ("dst".toList :: inetNtop dst :: argv) p =
      parseWords (keyword tool) argv { p with dst := dst } := by
  refine parseWords_option rfl ?_
  rw [inetPton_inetNtop]
  rfl

/-- The entry that a line of `show` describes. -/
def printedEntry (oe : ObjEntry) : ObjEntry where
  obj := { id := MADCAP_OBJ_ID_LLT_ENTRY, tbId := 0 }
  id := oe.id
  dst := oe.dst

theorem commandAction_entryLine {dev : CString} (hdev : IsWord dev) {ifindex : U32}
    (hindex : tool.ifs.nametoindex dev = ifindex) (hne : ifindex ≠ 0)
    (herange : tool.erange = false) (oe : ObjEntry) :
    commandAction tool ("add".toList :: lineWords (entryLine dev oe.id oe.dst)) =
      if oe.id = 0 ∧ oe.dst = 0 then .error (.message "id, dst and dev must be specified")
      else .ok (.lltEntryAdd ifindex (printedEntry oe)) := by
  subst hindex
  have hparse : parseArgs tool (lineWords (entryLine dev oe.id oe.dst)) =
      .ok { noParam with ifindex := tool.ifs.nametoindex dev, id := oe.id, dst := oe.dst } := by
    unfold parseArgs
    rw [lineWords_entryLine hdev, parseWords_dev hne, parseWords_id herange, parseWords_dst]
    rfl
  have hadd : wordMatches "add".toList "add" = true := by decide
  unfold commandAction
  dsimp only
  rw [if_pos hadd, hparse]
  change MadcapParam.entryAction _ _ = _
  unfold MadcapParam.entryAction
  dsimp only
  by_cases hzero : oe.id = 0 ∧ oe.dst = 0
  · rw [if_pos hzero, if_pos (.inl hzero)]
  · rw [if_neg hzero, if_neg (not_or.mpr ⟨hzero, hne⟩)]
    rfl

theorem parseWords_offset (offset : U16) :
    parseWords (keyword tool) ("offset".toList :: decimal offset.toNat :: argv) p =
      parseWords (keyword tool) argv { p with offset := offset, fOffset := true } := by
  refine parseWords_option rfl ?_
  rw [getU16_decimal]
  rfl

theorem parseWords_length (length : U16) :
    parseWords (keyword tool) ("length".toList :: decimal length.toNat :: argv) p =
      parseWords (keyword tool) argv { p with length := length, fLength := true } := by
  refine parseWords_option rfl ?_
  rw [getU16_decimal]
  rfl

theorem readProto_decimal (proto : U8) : readProto tool (decimal proto.toNat) = some proto := by
  have hname {name : CString} {c : Char} (hc : c ∈ name) (hdigit : c.isDigit = false) :
      ¬ decimal proto.toNat = name := by
    rintro rfl
    exact not_mem_decimal hdigit _ hc
  unfold readProto
  rw [if_neg (hname (c := 'u') (by decide) (by decide)),
    if_neg (hname (c := 'i') (by decide) (by decide)),
    if_neg (hname (c := 'g') (by decide) (by decide)), getU8_decimal]

theorem parseWords_proto (proto : U8) :
    parseWords (keyword tool) ("proto".toList :: decimal proto.toNat :: argv) p =
      parseWords (keyword tool) argv { p with proto := proto } := by
  refine parseWords_option rfl ?_
  rw [readProto_decimal]
  rfl

theorem parseWords_src (src : U32) :
    parseWords (keyword tool) ("src".toList :: inetNtop src :: argv) p =
      parseWords (keyword tool) argv { p with src := src } := by
  refine parseWords_option rfl ?_
  rw [inetPton_inetNtop]
  rfl

theorem parseWords_dstPort (port : U16) :
    parseWords (keyword tool) ("dst-port".toList :: decimal port.toNat :: argv) p =
      parseWords (keyword tool) argv { p with dstPort := port } := by
  refine parseWords_option rfl ?_
  rw [getU16_decimal]
  rfl

theorem parseWords_srcPort (ou : ObjUdp) :
    parseWords (keyword tool) ("src-port".toList :: srcPortWord ou :: argv) p =
      parseWords (keyword tool) argv
        (if ou.srcHashEnable ≠ 0 then { p with srcPortHash := true }
        else { p with srcPort := htons ou.srcPort }) := by
  refine parseWords_option rfl ?_
  unfold srcPortWord
  by_cases hhash : ou.srcHashEnable ≠ 0
  · rw [if_pos hhash, if_pos hhash, if_pos rfl]
  · have hword : ¬ decimal (htons ou.srcPort).toNat = "hash".toList := by
      intro h
      have hc : 'h' ∈ decimal (htons ou.srcPort).toNat := by
        rw [h]
        decide
      exact not_mem_decimal (by decide) _ hc
    rw [if_neg hhash, if_neg hhash, if_neg hword, getU16_decimal]
    rfl

theorem htons_htons (x : U16) : htons (htons x) = x := by
  unfold htons
  rw [byteAt_append_zero, byteAt_append_one]
  exact append_byteAt x

theorem htons_back (x : U16) : (if htons x ≠ 0 then htons (htons x) else 0) = x := by
  rw [htons_htons]
  split_ifs with hzero
  · rfl
  · rw [← htons_htons x, not_not.mp hzero]
    rfl

/-- The configuration that a line of `show config` describes. -/
def printedConfig (oc : ObjConfig) : ConfigObject where
  fields := { oc with obj := { id := MADCAP_OBJ_ID_LLT_CONFIG, tbId := 0 } }
  hole := 0
  hole' := 0

/-- The UDP configuration that a line of `show udp` describes. -/
def printedUdp (ou : ObjUdp) : ObjUdp :=
  let obj : MadcapObj := { id := MADCAP_OBJ_ID_UDP, tbId := 0 }
  if ou.encapEnable = 0 then
    { obj := obj, encapEnable := 0, srcHashEnable := 0, dstPort := 0, srcPort := 0 }
  else if ou.srcHashEnable ≠ 0 then
    { obj := obj, encapEnable := 1, srcHashEnable := 1, dstPort := ou.dstPort, srcPort := 0 }
  else
    { obj := obj, encapEnable := 1, srcHashEnable := 0, dstPort := ou.dstPort, srcPort := ou.srcPort }

theorem commandAction_set (hparse : parseArgs tool argv = .ok p) :
    commandAction tool ("set".toList :: argv) = p.setAction := by
  unfold commandAction
  dsimp only
  rw [if_neg (by decide), if_neg (by decide), if_pos (by decide), hparse]
  rfl

theorem MadcapParam.setAction_udp (hne : p.ifindex ≠ 0) (hudp : p.udp = true) :
    p.setAction = .ok (.udpConfig p.ifindex p.objUdp) := by
  unfold setAction
  rw [if_neg hne, if_pos hudp]

theorem commandAction_configLine {dev : CString} (hdev : IsWord dev) {ifindex : U32}
    (hindex : tool.ifs.nametoindex dev = ifindex) (hne : ifindex ≠ 0) (oc : ObjConfig) :
    commandAction tool ("set".toList :: lineWords (configLine dev oc)) =
      .ok (.lltConfig ifindex (printedConfig oc)) := by
  subst hindex
  have hparse : parseArgs tool (lineWords (configLine dev oc)) =
      .ok { noParam with ifindex := tool.ifs.nametoindex dev, offset := oc.offset, fOffset := true,
                         length := oc.length, fLength := true, proto := oc.proto, src := oc.src } := by
    unfold parseArgs
    rw [lineWords_configLine hdev, parseWords_dev hne, parseWords_offset, parseWords_length,
      parseWords_proto, parseWords_src]
    rfl
  rw [commandAction_set hparse]
  unfold MadcapParam.setAction
  rw [if_neg hne]
  rfl

theorem commandAction_udpLine {dev : CString} (hdev : IsWord dev) {ifindex : U32}
    (hindex : tool.ifs.nametoindex dev = ifindex) (hne : ifindex ≠ 0) (ou : ObjUdp) :
    commandAction tool ("set".toList :: lineWords (udpLine dev ou)) =
      .ok (.udpConfig ifindex (printedUdp ou)) := by
  subst hindex
  by_cases hdisable : ou.encapEnable = 0
  · have hparse : parseArgs tool (lineWords (udpLine dev ou)) =
        .ok { noParam with ifindex := tool.ifs.nametoindex dev, udp := true, disable := true } := by
      unfold parseArgs
      rw [lineWords_udpLine hdev, if_pos hdisable, parseWords_dev hne, parseWords_flag rfl,
        parseWords_flag rfl]
      rfl
    have hprinted : printedUdp ou = MadcapParam.objUdp
        { noParam with ifindex := tool.ifs.nametoindex dev, udp := true, disable := true } :=
      if_pos hdisable
    rw [commandAction_set hparse, hprinted]
    exact MadcapParam.setAction_udp hne rfl
  · let q : MadcapParam := { noParam with ifindex := tool.ifs.nametoindex dev, udp := true,
                                          enable := true, dstPort := htons ou.dstPort }
    have hargs : parseArgs tool (lineWords (udpLine dev ou)) =
        .ok (if ou.srcHashEnable ≠ 0 then { q with srcPortHash := true }
          else { q with srcPort := htons ou.srcPort }) := by
      unfold parseArgs
      rw [lineWords_udpLine hdev, if_neg hdisable, parseWords_dev hne, parseWords_flag rfl,
        parseWords_flag rfl, parseWords_dstPort, parseWords_srcPort]
      rfl
    by_cases hhash : ou.srcHashEnable ≠ 0
    · have hprinted : printedUdp ou = ({ q with srcPortHash := true } : MadcapParam).objUdp := by
        unfold printedUdp MadcapParam.objUdp
        dsimp only [q]
        rw [if_neg hdisable, if_pos hhash, htons_back]
        rfl
      rw [if_pos hhash] at hargs
      rw [commandAction_set hargs, hprinted]
      exact MadcapParam.setAction_udp hne rfl
    · have hprinted : printedUdp ou = ({ q with srcPort := htons ou.srcPort } : MadcapParam).objUdp := by
        unfold printedUdp MadcapParam.objUdp
        dsimp only [q]
        rw [if_neg hdisable, if_neg hhash, htons_back, htons_back]
        rfl
      rw [if_neg hhash] at hargs
      rw [commandAction_set hargs, hprinted]
      exact MadcapParam.setAction_udp hne rfl

end

end Madcap
