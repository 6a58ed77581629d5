import Madcap.Iproute.NshSession
import Madcap.Iproute.Show
import Madcap.Protocol.NshRecord

/-!
# What `ip nsh show` prints

Each record of a dump is printed as a line whose words, after `add` or `set`, ask for what the
record says.
-/

namespace Madcap

namespace IpNsh

section

variable (m : List U8) (attrs : RtaTable nshkmodAttrMax)

/-- `attrs[type]`. -/
def attr (type : U16) : Option ℕ := attrs (Fin.ofNat (nshkmodAttrMax + 1) type.toNat)

/-- Some bytes behind a pointer of the table, which may be null. -/
def attrData (type : U16) (count : ℕ) : Res (List U8) :=
  match attr attrs type with
  | none => throw .badAccess
  | some rta => rtaData m rta count

/-- `rta_getattr_u32`. -/
def attrU32 (type : U16) : Res U32 := do
  let data ← attrData m attrs type 4
  return load32 (readByte data)

/-- `rta_getattr_u8`. -/
def attrU8 (type : U16) : Res U8 := do
  let data ← attrData m attrs type 1
  return readByte data 0

def attrU32? (type : U16) : Res (Option U32) :=
  match attr attrs type with
  | none => return none
  | some _ => do
    let x ← attrU32 m attrs type
    return some x

end

def pathText (spi : U32) (si mdtype : U8) (encap : String) : CString :=
  "spi ".toList ++ decimal spi.toNat ++ " si ".toList ++ decimal si.toNat ++ " mdtype ".toList ++
    decimal mdtype.toNat ++ " encap ".toList ++ encap.toList

/-- `path_nlmsg`, with what lies behind the header of a message: the code and the output. -/
def pathNlmsg (tool : ToolEnv) (m : List U8) : Res (ℤ × CString) :=
  if m.length < 4 then return (-1, [])
  else do
    let msg := m.drop 4
    let (attrs, _) ← parseRtattr nshkmodAttrMax msg
    if attr attrs NSHKMOD_ATTR_SPI = none ∨ attr attrs NSHKMOD_ATTR_SI = none ∨
        attr attrs NSHKMOD_ATTR_MDTYPE = none ∨ attr attrs NSHKMOD_ATTR_ENCAP = none then
      return (-1, [])
    else do
      let spi ← attrU32 msg attrs NSHKMOD_ATTR_SPI
      let si ← attrU8 msg attrs NSHKMOD_ATTR_SI
      let mdtype ← attrU8 msg attrs NSHKMOD_ATTR_MDTYPE
      let encapType ← attrU8 msg attrs NSHKMOD_ATTR_ENCAP
      if encapType = NSH_ENCAP_TYPE_NONE then do
        let ifindex ← attrU32 msg attrs NSHKMOD_ATTR_IFINDEX
        match tool.ifs.indextoname ifindex with
        | none => return (-1, [])
        | some devname =>
          return (0, pathText spi si mdtype "none" ++ " dev ".toList ++ devname ++ "\n".toList)
      else if encapType = NSH_ENCAP_TYPE_VXLAN then do
        let remote ← attrU32 msg attrs NSHKMOD_ATTR_REMOTE
        let localIp ← attrU32? msg attrs NSHKMOD_ATTR_LOCAL
        let vni ← attrU32? msg attrs NSHKMOD_ATTR_VNI
        let text := pathText spi si mdtype "vxlan" ++ " remote ".toList ++ inetNtop remote ++
          (match localIp with
          | none => []
          | some localIp => " local ".toList ++ inetNtop localIp) ++
          " vni ".toList ++ decimal (vni.getD 0).toNat
        match ← attrU32? msg attrs NSHKMOD_ATTR_IFINDEX with
        | none => return (0, text ++ "\n".toList)
        | some ifindex =>
          match tool.ifs.indextoname ifindex with
          | none => return (-1, text)
          | some devname => return (0, text ++ " dev ".toList ++ devname ++ "\n".toList)
      else if encapType = NSH_ENCAP_TYPE_ETHER then do
        let ifindex ← attrU32 msg attrs NSHKMOD_ATTR_IFINDEX
        match tool.ifs.indextoname ifindex with
        | none => return (-1, [])
        | some devname => do
          let mac ← attrData msg attrs NSHKMOD_ATTR_ETHADDR 6
          return (0, pathText spi si mdtype "ether" ++ " dst ".toList ++ lladdrText mac ++
            " link ".toList ++ devname ++ "\n".toList)
      else return (0, [])

end IpNsh

/-- The attributes of a record, in the order in which `nsh_nl_table_send` and `nsh_nl_dev_send`
put them into a message. -/
def NshAttrs.fields (a : NshAttrs) : List NshField :=
  (a.spi.map .spi).toList ++ (a.si.map .si).toList ++ (a.mdtype.map .mdtype).toList ++
    (a.encap.map .encap).toList ++ (a.remote.map .remote).toList ++ (a.vni.map .vni).toList ++
    (a.localIp.map .localIp).toList ++ (a.ifindex.map .ifindex).toList ++
    (a.ethaddr.map .ethaddr).toList

/-- What lies behind the netlink header of a message, when it carries this record. -/
def NshAttrs.CarriedBy (a : NshAttrs) (m : List U8) : Prop :=
  ∃ genl msg as, m = genl ++ msg ∧ genl.length = 4 ∧ Encodes as msg ∧
    as.map (fun a => (a.type, a.data)) = a.fields.map NshField.call

theorem find?_of_nodup {α β : Type} [DecidableEq β] {key : α → β} {l : List α} (h : (l.map key).Nodup)
    {a : α} (ha : a ∈ l) : l.find? (fun b => key b = key a) = some a := by
  induction l with
  | nil => cases ha
  | cons b l ih =>
    obtain ⟨hb, hl⟩ := List.nodup_cons.mp h
    rcases List.mem_cons.mp ha with rfl | ha
    · exact List.find?_cons_of_pos (decide_eq_true rfl)
    · have hne : ¬ key b = key a := fun heq => hb (heq ▸ List.mem_map_of_mem ha)
      rw [List.find?_cons_of_neg (by simpa using hne)]
      exact ih hl ha

section

variable {a : NshAttrs} {msg : List U8} {as : List Attr} {f : NshField} {type : U16}

theorem NshAttrs.nodup_fields (a : NshAttrs) : (a.fields.map fun f => f.call.1).Nodup := by
  have hopt {α : Type} (o : Option α) (mk : α → NshField) (t : U16) (hmk : ∀ x, (mk x).call.1 = t) :
      ((o.map mk).toList.map fun f => f.call.1).Sublist [t] := by
    cases o with
    | none => exact List.nil_sublist _
    | some x => simp [hmk]
  have hsub : (a.fields.map fun f => f.call.1).Sublist
      ([NSHKMOD_ATTR_SPI] ++ [NSHKMOD_ATTR_SI] ++ [NSHKMOD_ATTR_MDTYPE] ++ [NSHKMOD_ATTR_ENCAP] ++
        [NSHKMOD_ATTR_REMOTE] ++ [NSHKMOD_ATTR_VNI] ++ [NSHKMOD_ATTR_LOCAL] ++
        [NSHKMOD_ATTR_IFINDEX] ++ [NSHKMOD_ATTR_ETHADDR]) := by
    unfold NshAttrs.fields
    simp only [List.map_append]
    refine (((((((List.Sublist.append ?_ ?_).append ?_).append ?_).append ?_).append ?_).append
      ?_).append ?_).append ?_
    · exact hopt a.spi .spi _ fun _ => rfl
    · exact hopt a.si .si _ fun _ => rfl
    · exact hopt a.mdtype .mdtype _ fun _ => rfl
    · exact hopt a.encap .encap _ fun _ => rfl
    · exact hopt a.remote .remote _ fun _ => rfl
    · exact hopt a.vni .vni _ fun _ => rfl
    · exact hopt a.localIp .localIp _ fun _ => rfl
    · exact hopt a.ifindex .ifindex _ fun _ => rfl
    · exact hopt a.ethaddr .ethaddr _ fun _ => rfl
  exact List.Nodup.sublist hsub (by decide)

namespace IpNsh

theorem attr_val (htype : type.toNat ≤ nshkmodAttrMax) :
    (Fin.ofNat (nshkmodAttrMax + 1) type.toNat).val = type.toNat :=
  Nat.mod_eq_of_lt (Nat.lt_succ_of_le htype)

theorem attr_none (hencodes : Encodes as msg)
    (hmap : as.map (fun a => (a.type, a.data)) = a.fields.map NshField.call)
    (htype : type.toNat ≤ nshkmodAttrMax) (hno : ∀ f ∈ a.fields, f.call.1 ≠ type) :
    attr (firstAttrs nshkmodAttrMax msg) type = none := by
  have hfirst := firstAttrs_encodes hencodes nshkmodAttrMax
    (Fin.ofNat (nshkmodAttrMax + 1) type.toNat)
  have hfind : (as.find? fun b => b.type.toNat =
      (Fin.ofNat (nshkmodAttrMax + 1) type.toNat).val) = none := by
    apply List.find?_eq_none.mpr
    intro b hb heq
    rw [decide_eq_true_eq, attr_val htype, BitVec.toNat_inj] at heq
    have hmem : (b.type, b.data) ∈ a.fields.map NshField.call := hmap ▸ List.mem_map_of_mem hb
    obtain ⟨f, hf, hcall⟩ := List.mem_map.mp hmem
    exact hno f hf ((congrArg Prod.fst hcall).trans heq)
  rw [hfind] at hfirst
  exact hfirst

theorem attr_some (hencodes : Encodes as msg)
    (hmap : as.map (fun a => (a.type, a.data)) = a.fields.map NshField.call) (hf : f ∈ a.fields) :
    (∃ rta, attr (firstAttrs nshkmodAttrMax msg) f.call.1 = some rta) ∧
      attrData msg (firstAttrs nshkmodAttrMax msg) f.call.1 f.call.2.length = .ok f.call.2 := by
  have hval := attr_val f.policy.known
  have hfirst := firstAttrs_encodes hencodes nshkmodAttrMax
    (Fin.ofNat (nshkmodAttrMax + 1) f.call.1.toNat)
  have hfound := find?_of_nodup a.nodup_fields hf
  have hfind : (as.find? fun b => b.type.toNat =
      (Fin.ofNat (nshkmodAttrMax + 1) f.call.1.toNat).val).map (fun b => (b.type, b.data)) =
        some f.call := by
    have hpred : (fun b : Attr => decide (b.type.toNat =
        (Fin.ofNat (nshkmodAttrMax + 1) f.call.1.toNat).val)) =
        (fun c : U16 × List U8 => decide (c.1 = f.call.1)) ∘ fun b : Attr => (b.type, b.data) := by
      funext b
      rw [hval, Function.comp_apply]
      exact decide_eq_decide.mpr BitVec.toNat_inj
    rw [hpred, ← List.find?_map, hmap, List.find?_map, Function.comp_def, hfound]
    rfl
  obtain ⟨b, hb, hcall⟩ := Option.map_eq_some_iff.mp hfind
  rw [hb] at hfirst
  obtain ⟨off, hoff, hread⟩ := hfirst
  refine ⟨⟨off, hoff⟩, ?_⟩
  have hattr : attr (firstAttrs nshkmodAttrMax msg) f.call.1 = some off := hoff
  have hdata := rtaData_of_readAttr hread
  unfold attrData
  rw [hattr]
  dsimp only
  rw [← congrArg Prod.snd hcall]
  exact hdata

theorem attrU32_of_mem (hencodes : Encodes as msg)
    (hmap : as.map (fun a => (a.type, a.data)) = a.fields.map NshField.call) (x : U32)
    (hf : f ∈ a.fields) (hcall : f.call = (type, bytesOf 4 x)) :
    attr (firstAttrs nshkmodAttrMax msg) type ≠ none ∧
      attrU32 msg (firstAttrs nshkmodAttrMax msg) type = .ok x := by
  obtain ⟨⟨rta, hrta⟩, hdata⟩ := attr_some hencodes hmap hf
  rw [hcall] at hrta hdata
  refine ⟨by rw [hrta]; exact Option.some_ne_none rta, ?_⟩
  rw [bytesOf_length] at hdata
  unfold attrU32
  rw [hdata]
  exact congrArg Except.ok (load32_last x)

theorem attrU8_of_mem (hencodes : Encodes as msg)
    (hmap : as.map (fun a => (a.type, a.data)) = a.fields.map NshField.call) (x : U8)
    (hf : f ∈ a.fields) (hcall : f.call = (type, bytesOf 1 x)) :
    attr (firstAttrs nshkmodAttrMax msg) type ≠ none ∧
      attrU8 msg (firstAttrs nshkmodAttrMax msg) type = .ok x := by
  obtain ⟨⟨rta, hrta⟩, hdata⟩ := attr_some hencodes hmap hf
  rw [hcall] at hrta hdata
  refine ⟨by rw [hrta]; exact Option.some_ne_none rta, ?_⟩
  rw [bytesOf_length] at hdata
  unfold attrU8
  rw [hdata]
  exact congrArg Except.ok (readByte_one x)

end IpNsh

theorem NshAttrs.mem_fields : f ∈ a.fields ↔
    match f with
    | .spi x => a.spi = some x
    | .si x => a.si = some x
    | .mdtype x => a.mdtype = some x
    | .encap x => a.encap = some x
    | .remote x => a.remote = some x
    | .vni x => a.vni = some x
    | .localIp x => a.localIp = some x
    | .ifindex x => a.ifindex = some x
    | .ethaddr mac => a.ethaddr = some mac := by
  unfold NshAttrs.fields
  cases f <;> simp

theorem NshField.of_type (f : NshField) :
    (f.call.1 = NSHKMOD_ATTR_LOCAL → ∃ x, f = .localIp x) ∧
      (f.call.1 = NSHKMOD_ATTR_VNI → ∃ x, f = .vni x) ∧
      (f.call.1 = NSHKMOD_ATTR_IFINDEX → ∃ x, f = .ifindex x) := by
  cases f <;> simp [NshField.call, NSHKMOD_ATTR_IFINDEX, NSHKMOD_ATTR_SPI, NSHKMOD_ATTR_SI,
    NSHKMOD_ATTR_MDTYPE, NSHKMOD_ATTR_ENCAP, NSHKMOD_ATTR_REMOTE, NSHKMOD_ATTR_LOCAL,
    NSHKMOD_ATTR_VNI, NSHKMOD_ATTR_ETHADDR]

theorem IpNsh.attrU32?_eq (hencodes : Encodes as msg)
    (hmap : as.map (fun a => (a.type, a.data)) = a.fields.map NshField.call)
    {x? : Option U32} (mk : U32 → NshField) (hcall : ∀ x, (mk x).call = (type, bytesOf 4 x))
    (hmem : ∀ x, mk x ∈ a.fields ↔ x? = some x) (honly : ∀ f : NshField, f.call.1 = type → ∃ x, f = mk x) :
    attrU32? msg (firstAttrs nshkmodAttrMax msg) type = .ok x? := by
  unfold attrU32?
  cases x? with
  | none =>
    have htype : type.toNat ≤ nshkmodAttrMax := by
      have hknown := (mk 0).policy.known
      rwa [hcall] at hknown
    rw [attr_none hencodes hmap htype fun f hf heq => ?_]
    · rfl
    · obtain ⟨x, rfl⟩ := honly f heq
      cases (hmem x).mp hf
  | some x =>
    obtain ⟨hne, hx⟩ := attrU32_of_mem hencodes hmap x ((hmem x).mpr rfl) (hcall x)
    obtain ⟨rta, hrta⟩ := Option.ne_none_iff_exists'.mp hne
    rw [hrta, hx]
    rfl

/-- A message that carries a record, as the tool reads it. -/
structure NshAttrs.ReadFrom (a : NshAttrs) (msg : List U8) (attrs : RtaTable nshkmodAttrMax) : Prop where
  parsed : parseRtattr nshkmodAttrMax msg = .ok (attrs, none)
  spi : ∀ x, a.spi = some x →
    IpNsh.attr attrs NSHKMOD_ATTR_SPI ≠ none ∧ IpNsh.attrU32 msg attrs NSHKMOD_ATTR_SPI = .ok x
  si : ∀ x, a.si = some x →
    IpNsh.attr attrs NSHKMOD_ATTR_SI ≠ none ∧ IpNsh.attrU8 msg attrs NSHKMOD_ATTR_SI = .ok x
  mdtype : ∀ x, a.mdtype = some x →
    IpNsh.attr attrs NSHKMOD_ATTR_MDTYPE ≠ none ∧ IpNsh.attrU8 msg attrs NSHKMOD_ATTR_MDTYPE = .ok x
  encap : ∀ x, a.encap = some x →
    IpNsh.attr attrs NSHKMOD_ATTR_ENCAP ≠ none ∧ IpNsh.attrU8 msg attrs NSHKMOD_ATTR_ENCAP = .ok x
  remote : ∀ x, a.remote = some x →
    IpNsh.attr attrs NSHKMOD_ATTR_REMOTE ≠ none ∧ IpNsh.attrU32 msg attrs NSHKMOD_ATTR_REMOTE = .ok x
  localIp : IpNsh.attrU32? msg attrs NSHKMOD_ATTR_LOCAL = .ok a.localIp
  vni : IpNsh.attrU32? msg attrs NSHKMOD_ATTR_VNI = .ok a.vni
  ifindex? : IpNsh.attrU32? msg attrs NSHKMOD_ATTR_IFINDEX = .ok a.ifindex
  ifindex : ∀ x, a.ifindex = some x →
    IpNsh.attr attrs NSHKMOD_ATTR_IFINDEX ≠ none ∧ IpNsh.attrU32 msg attrs NSHKMOD_ATTR_IFINDEX = .ok x
  ethaddr : ∀ mac, a.ethaddr = some mac →
    IpNsh.attrData msg attrs NSHKMOD_ATTR_ETHADDR 6 = .ok (bytesOf 6 mac)

theorem NshAttrs.CarriedBy.readFrom {m : List U8} (h : a.CarriedBy m) :
    ¬ m.length < 4 ∧ ∃ attrs, a.ReadFrom (m.drop 4) attrs := by
  obtain ⟨genl, msg, as, rfl, hgenl, hencodes, hmap⟩ := h
  have hlen : ¬ (genl ++ msg).length < 4 := by
    rw [List.length_append, hgenl]
    omega
  have hdrop : (genl ++ msg).drop 4 = msg := by
    rw [← hgenl, List.drop_left]
  refine ⟨hlen, firstAttrs nshkmodAttrMax msg, ?_⟩
  rw [hdrop]
  have hfield {f : NshField} := NshAttrs.mem_fields (a := a) (f := f)
  constructor
  · rw [parseRtattr_eq, if_pos hencodes.stop]
  · exact fun x hx => IpNsh.attrU32_of_mem hencodes hmap x (f := .spi x) (hfield.mpr hx) rfl
  · exact fun x hx => IpNsh.attrU8_of_mem hencodes hmap x (f := .si x) (hfield.mpr hx) rfl
  · exact fun x hx => IpNsh.attrU8_of_mem hencodes hmap x (f := .mdtype x) (hfield.mpr hx) rfl
  · exact fun x hx => IpNsh.attrU8_of_mem hencodes hmap x (f := .encap x) (hfield.mpr hx) rfl
  · exact fun x hx => IpNsh.attrU32_of_mem hencodes hmap x (f := .remote x) (hfield.mpr hx) rfl
  · exact IpNsh.attrU32?_eq hencodes hmap .localIp (fun _ => rfl) (fun _ => hfield) fun f => f.of_type.1
  · exact IpNsh.attrU32?_eq hencodes hmap .vni (fun _ => rfl) (fun _ => hfield) fun f => f.of_type.2.1
  · exact IpNsh.attrU32?_eq hencodes hmap .ifindex (fun _ => rfl) (fun _ => hfield) fun f => f.of_type.2.2
  · exact fun x hx => IpNsh.attrU32_of_mem hencodes hmap x (f := .ifindex x) (hfield.mpr hx) rfl
  · intro mac hmac
    have hdata := (IpNsh.attr_some hencodes hmap (f := .ethaddr mac) (hfield.mpr hmac)).2
    exact hdata

end

/-- Each item is sent as a record and carried by a message, and what is printed of the messages is
the line of each item, when this is so of one. -/
theorem mapM_printed {α β ρ μ : Type} {Sends : α → ρ → Prop} {Carries : ρ → μ → Prop}
    {print : μ → Res β} {line : α → β} {items : List α} {records : List ρ} {ms : List μ}
    (hrecords : List.Forall₂ Sends items records) (hms : List.Forall₂ Carries records ms)
    (hprint : ∀ a ∈ items, ∀ record m, Sends a record → Carries record m → print m = .ok (line a)) :
    ms.mapM print = .ok (items.map line) := by
  induction hrecords generalizing ms with
  | nil =>
    cases hms
    rfl
  | cons hsend hrest ih =>
    cases hms with
    | cons hm hms =>
      rw [List.mapM_cons, hprint _ List.mem_cons_self _ _ hsend hm]
      simp only [bind, Except.bind]
      rw [ih hms fun a ha => hprint a (List.mem_cons_of_mem _ ha)]
      rfl

/-- A device is known by one name, which is one word of a line. -/
structure ToolEnv.Knows (tool : ToolEnv) (ifindex : U32) : Prop where
  indextoname : tool.ifs.indextoname ifindex ≠ none
  nametoindex : tool.ifs.nametoindex (devName tool ifindex) = ifindex
  isWord : IsWord (devName tool ifindex)
  ne_zero : ifindex ≠ 0

namespace IpNsh

variable {tool : ToolEnv} {argv : List CString} {p : NshParam}

theorem parseWords_dev {ifindex : U32} (h : tool.Knows ifindex) :
    parseWords (keyword tool) ("dev".toList :: devName tool ifindex :: argv) p =
      parseWords (keyword tool) argv { p with ifindex := ifindex, fDev := true } := by
  refine parseWords_option rfl ?_
  rw [readDev_named (by rw [h.nametoindex]; exact h.ne_zero), h.nametoindex]

theorem parseWords_link {ifindex : U32} (h : tool.Knows ifindex) :
    parseWords (keyword tool) ("link".toList :: devName tool ifindex :: argv) p =
      parseWords (keyword tool) argv { p with ifindex := ifindex, fLink := true } := by
  refine parseWords_option rfl ?_
  rw [readDev_named (by rw [h.nametoindex]; exact h.ne_zero), h.nametoindex]

theorem parseWords_spi (spi : U32) :
    parseWords (keyword tool) ("spi".toList :: decimal spi.toNat :: argv) p =
      parseWords (keyword tool) argv { p with spi := spi, fSpisi := p.fSpisi + 1 } := by
  refine parseWords_option rfl ?_
  rw [getU32_decimal]
  rfl

theorem parseWords_si (si : U8) :
    parseWords (keyword tool) ("si".toList :: decimal si.toNat :: argv) p =
      parseWords (keyword tool) argv { p with si := si, fSpisi := p.fSpisi + 1 } := by
  refine parseWords_option rfl ?_
  rw [getU8_decimal]
  rfl

theorem parseWords_mdtype (mdtype : U8) :
    parseWords (keyword tool) ("mdtype".toList :: decimal mdtype.toNat :: argv) p =
      if mdtype = 1 ∨ mdtype = 2 then parseWords (keyword tool) argv { p with mdtype := mdtype }
      else .error (.invarg "mdtype must be 1 or 2 " (decimal mdtype.toNat)) := by
  have hword : keyword tool "mdtype".toList = some (.option (readMdtype tool)) := rfl
  have hread : readMdtype tool (decimal mdtype.toNat) p =
      if mdtype ≠ 1 ∧ mdtype ≠ 2 then .error (.invarg "mdtype must be 1 or 2 " (decimal mdtype.toNat))
      else .ok { p with mdtype := mdtype } := by
    unfold readMdtype
    rw [getU8_decimal]
  by_cases htype : mdtype = 1 ∨ mdtype = 2
  · rw [if_pos htype]
    refine parseWords_option hword (hread.trans ?_)
    exact if_neg fun hne => htype.elim hne.1 hne.2
  · rw [if_neg htype, parseWords, hword]
    dsimp only
    rw [hread, if_pos (not_or.mp htype)]
    rfl

theorem parseWords_encap {arg : CString} {encapType : U8} (h : readEncap arg = some encapType) :
    parseWords (keyword tool) ("encap".toList :: arg :: argv) p =
      parseWords (keyword tool) argv { p with encapType := encapType } := by
  refine parseWords_option rfl ?_
  rw [h]
  rfl

theorem parseWords_remote (remote : U32) :
    parseWords (keyword tool) ("remote".toList :: inetNtop remote :: argv) p =
      parseWords (keyword tool) argv { p with remote := remote, fRemote := true } := by
  refine parseWords_option rfl ?_
  rw [inetPton_inetNtop]
  rfl

theorem parseWords_local (localIp : U32) :
    parseWords (keyword tool) ("local".toList :: inetNtop localIp :: argv) p =
      parseWords (keyword tool) argv { p with localIp := localIp } := by
  refine parseWords_option rfl ?_
  rw [inetPton_inetNtop]
  rfl

theorem parseWords_vni (vni : U32) :
    parseWords (keyword tool) ("vni".toList :: decimal vni.toNat :: argv) p =
      parseWords (keyword tool) argv { p with vni := vni } := by
  refine parseWords_option rfl ?_
  rw [getU32_decimal]
  rfl

theorem parseWords_dst (mac : Mac) :
    parseWords (keyword tool) ("dst".toList :: lladdrText (bytesOf 6 mac) :: argv) p =
      parseWords (keyword tool) argv { p with mac := mac, fMac := true } := by
  have hlen : (bytesOf 6 p.mac).length = (bytesOf 6 mac).length := by
    rw [bytesOf_length, bytesOf_length]
  have hne : bytesOf 6 mac ≠ [] := List.ne_nil_of_length_eq_add_one (bytesOf_length 6 mac)
  refine parseWords_option rfl ?_
  rw [llAddrA2n_lladdrText hlen hne]
  unfold orInvarg
  dsimp only
  rw [loadMac_last]

end IpNsh

/-- Where a path leads, as its record says it. -/
inductive PathTarget where
  | inner (ifindex : U32)
  | vxlan (remote : U32) (localIp : Option U32) (vni : U32) (ifindex : Option U32)
  | ether (mac : Mac) (ifindex : U32)
  deriving DecidableEq, Repr

namespace PathTarget

def ifindex : PathTarget → Option U32
  | inner ifindex => some ifindex
  | vxlan _ _ _ ifindex => ifindex
  | ether _ ifindex => some ifindex

def record (spi : U32) (si mdtype : U8) (t : PathTarget) : NshAttrs :=
  let a := { noAttrs with spi := some spi, si := some si, mdtype := some mdtype }
  match t with
  | inner ifindex => { a with encap := some NSH_ENCAP_TYPE_NONE, ifindex := some ifindex }
  | vxlan remote localIp vni ifindex =>
    { a with
      encap := some NSH_ENCAP_TYPE_VXLAN
      remote := some remote
      localIp := localIp
      vni := some vni
      ifindex := ifindex }
  | ether mac ifindex =>
    { a with encap := some NSH_ENCAP_TYPE_ETHER, ifindex := some ifindex, ethaddr := some mac }

def words (dev : U32 → CString) : PathTarget → List CString
  | inner ifindex => ["none".toList, "dev".toList, dev ifindex]
  | vxlan remote localIp vni ifindex =>
    "vxlan".toList :: (["remote".toList, inetNtop remote] ++
      (localIp.map fun ip => ["local".toList, inetNtop ip]).getD [] ++
      ["vni".toList, decimal vni.toNat] ++
      (ifindex.map fun ifindex => ["dev".toList, dev ifindex]).getD [])
  | ether mac ifindex =>
    ["ether".toList, "dst".toList, lladdrText (bytesOf 6 mac), "link".toList, dev ifindex]

def pathWords (dev : U32 → CString) (spi : U32) (si mdtype : U8) (t : PathTarget) : List CString :=
  ["spi".toList, decimal spi.toNat, "si".toList, decimal si.toNat, "mdtype".toList,
    decimal mdtype.toNat, "encap".toList] ++ t.words dev

variable {tool : ToolEnv} {spi : U32} {si mdtype : U8} {t : PathTarget} {m : List U8}

theorem pathText_eq (spi : U32) (si mdtype : U8) (encap : String) :
    IpNsh.pathText spi si mdtype encap = [' '].intercalate ["spi".toList, decimal spi.toNat,
      "si".toList, decimal si.toNat, "mdtype".toList, decimal mdtype.toNat, "encap".toList,
      encap.toList] := by
  have hspi : "spi ".toList = "spi".toList ++ [' '] := rfl
  have hsi : " si ".toList = [' '] ++ ("si".toList ++ [' ']) := rfl
  have hmdtype : " mdtype ".toList = [' '] ++ ("mdtype".toList ++ [' ']) := rfl
  have hencap : " encap ".toList = [' '] ++ ("encap".toList ++ [' ']) := rfl
  unfold IpNsh.pathText
  rw [hspi, hsi, hmdtype, hencap]
  simp only [List.intercalate_cons_cons, List.intercalate_singleton, List.append_assoc]

theorem pathText_append (spi : U32) (si mdtype : U8) (encap : String) (ws : List CString) :
    IpNsh.pathText spi si mdtype encap ++ ws.flatMap (fun w => ' ' :: w) =
      [' '].intercalate (["spi".toList, decimal spi.toNat, "si".toList, decimal si.toNat,
        "mdtype".toList, decimal mdtype.toNat, "encap".toList] ++ encap.toList :: ws) := by
  rw [pathText_eq, intercalate_cons, List.cons_append, intercalate_cons]
  simp

theorem pathNlmsg_record (h : (t.record spi si mdtype).CarriedBy m)
    (hdev : ∀ ifindex, t.ifindex = some ifindex → tool.ifs.indextoname ifindex ≠ none) :
    IpNsh.pathNlmsg tool m =
      .ok (0, [' '].intercalate (t.pathWords (devName tool) spi si mdtype) ++ "\n".toList) := by
  obtain ⟨hlen, attrs, hread⟩ := h.readFrom
  have hname (ifindex : U32) (hifindex : t.ifindex = some ifindex) :
      tool.ifs.indextoname ifindex = some (devName tool ifindex) := by
    obtain ⟨name, hname⟩ := Option.ne_none_iff_exists'.mp (hdev ifindex hifindex)
    unfold devName
    rw [hname]
    rfl
  have hdevText : " dev ".toList = ' ' :: ("dev".toList ++ [' ']) := rfl
  obtain ⟨hspi, hspi'⟩ := hread.spi spi (by cases t <;> rfl)
  obtain ⟨hsi, hsi'⟩ := hread.si si (by cases t <;> rfl)
  obtain ⟨hmdtype, hmdtype'⟩ := hread.mdtype mdtype (by cases t <;> rfl)
  unfold IpNsh.pathNlmsg pathWords
  rw [if_neg hlen]
  simp only [bind, Except.bind, pure, Except.pure, hread.parsed]
  cases t with
  | inner ifindex =>
    obtain ⟨hencap, hencap'⟩ := hread.encap NSH_ENCAP_TYPE_NONE rfl
    obtain ⟨-, hifindex⟩ := hread.ifindex ifindex rfl
    rw [if_neg (by simp only [hspi, hsi, hmdtype, hencap, or_false, not_false_iff])]
    simp only [hspi', hsi', hmdtype', hencap', hifindex, hname ifindex rfl, if_true]
    rw [words, ← pathText_append, hdevText]
    simp
  | vxlan remote localIp vni ifindex =>
    obtain ⟨hencap, hencap'⟩ := hread.encap NSH_ENCAP_TYPE_VXLAN rfl
    obtain ⟨-, hremote⟩ := hread.remote remote rfl
    have hlocalIp : IpNsh.attrU32? (m.drop 4) attrs NSHKMOD_ATTR_LOCAL = .ok localIp := hread.localIp
    have hvni : IpNsh.attrU32? (m.drop 4) attrs NSHKMOD_ATTR_VNI = .ok (some vni) := hread.vni
    have hifindex : IpNsh.attrU32? (m.drop 4) attrs NSHKMOD_ATTR_IFINDEX = .ok ifindex :=
      hread.ifindex?
    have hvn : ¬ NSH_ENCAP_TYPE_VXLAN = NSH_ENCAP_TYPE_NONE := by decide
    have hremoteText : " remote ".toList = ' ' :: ("remote".toList ++ [' ']) := rfl
    have hlocalText : " local ".toList = ' ' :: ("local".toList ++ [' ']) := rfl
    have hvniText : " vni ".toList = ' ' :: ("vni".toList ++ [' ']) := rfl
    rw [if_neg (by simp only [hspi, hsi, hmdtype, hencap, or_false, not_false_iff])]
    simp only [hspi', hsi', hmdtype', hencap', hremote, hlocalIp, hvni, hifindex, hvn, if_true,
      if_false]
    rw [words, ← pathText_append]
    cases ifindex with
    | none =>
      cases localIp <;> simp [hremoteText, hlocalText, hvniText]
    | some ifindex =>
      cases localIp <;>
        simp [hremoteText, hlocalText, hvniText, hname ifindex rfl, hdevText]
  | ether mac ifindex =>
    obtain ⟨hencap, hencap'⟩ := hread.encap NSH_ENCAP_TYPE_ETHER rfl
    obtain ⟨-, hifindex⟩ := hread.ifindex ifindex rfl
    have hmac := hread.ethaddr mac rfl
    have hen : ¬ NSH_ENCAP_TYPE_ETHER = NSH_ENCAP_TYPE_NONE := by decide
    have hev : ¬ NSH_ENCAP_TYPE_ETHER = NSH_ENCAP_TYPE_VXLAN := by decide
    have hdstText : " dst ".toList = ' ' :: ("dst".toList ++ [' ']) := rfl
    have hlinkText : " link ".toList = ' ' :: ("link".toList ++ [' ']) := rfl
    rw [if_neg (by simp only [hspi, hsi, hmdtype, hencap, or_false, not_false_iff])]
    simp only [hspi', hsi', hmdtype', hencap', hifindex, hmac, hname ifindex rfl, hen, hev, if_true,
      if_false]
    rw [words, ← pathText_append, hdstText, hlinkText]
    simp

theorem isWord_pathWords (hdev : ∀ ifindex, t.ifindex = some ifindex → tool.Knows ifindex) :
    ∀ w ∈ t.pathWords (devName tool) spi si mdtype, IsWord w := by
  have hhead : ∀ w ∈ ["spi".toList, decimal spi.toNat, "si".toList, decimal si.toNat,
      "mdtype".toList, decimal mdtype.toNat, "encap".toList], IsWord w := by
    simp only [List.forall_mem_cons]
    exact ⟨by decide, isWord_decimal _, by decide, isWord_decimal _, by decide, isWord_decimal _,
      by decide, fun w hw => absurd hw List.not_mem_nil⟩
  unfold pathWords
  rw [List.forall_mem_append]
  refine ⟨hhead, ?_⟩
  cases t with
  | inner ifindex =>
    simp only [words, List.forall_mem_cons]
    exact ⟨by decide, by decide, (hdev ifindex rfl).isWord, fun w hw => absurd hw List.not_mem_nil⟩
  | vxlan remote localIp vni ifindex =>
    have hlocalIp : ∀ w ∈ (localIp.map fun ip => ["local".toList, inetNtop ip]).getD [], IsWord w := by
      cases localIp with
      | none => exact fun w hw => absurd hw List.not_mem_nil
      | some ip =>
        simp only [Option.map_some, Option.getD_some, List.forall_mem_cons]
        exact ⟨by decide, isWord_inetNtop ip, fun w hw => absurd hw List.not_mem_nil⟩
    have hlink : ∀ w ∈ (ifindex.map fun i => ["dev".toList, devName tool i]).getD [], IsWord w := by
      cases ifindex with
      | none => exact fun w hw => absurd hw List.not_mem_nil
      | some ifindex =>
        simp only [Option.map_some, Option.getD_some, List.forall_mem_cons]
        exact ⟨by decide, (hdev ifindex rfl).isWord, fun w hw => absurd hw List.not_mem_nil⟩
    simp only [words, List.forall_mem_cons, List.forall_mem_append]
    exact ⟨by decide, ⟨⟨⟨by decide, isWord_inetNtop remote, fun w hw => absurd hw List.not_mem_nil⟩,
      hlocalIp⟩, by decide, isWord_decimal _, fun w hw => absurd hw List.not_mem_nil⟩, hlink⟩
  | ether mac ifindex =>
    simp only [words, List.forall_mem_cons]
    exact ⟨by decide, by decide, isWord_lladdrText _, by decide, (hdev ifindex rfl).isWord,
      fun w hw => absurd hw List.not_mem_nil⟩

/-- What the words of a path say to `parse_args`. -/
def param (spi : U32) (si mdtype : U8) (t : PathTarget) : NshParam :=
  let p := { noNshParam with spi := spi, si := si, mdtype := mdtype, fSpisi := 2 }
  match t with
  | inner ifindex => { p with encapType := NSH_ENCAP_TYPE_NONE, ifindex := ifindex, fDev := true }
  | vxlan remote localIp vni ifindex =>
    { p with
      encapType := NSH_ENCAP_TYPE_VXLAN
      remote := remote
      fRemote := true
      localIp := localIp.getD 0
      vni := vni
      ifindex := ifindex.getD 0
      fDev := ifindex.isSome }
  | ether mac ifindex =>
    { p with
      encapType := NSH_ENCAP_TYPE_ETHER
      mac := mac
      fMac := true
      ifindex := ifindex
      fLink := true }

theorem parseWords_localIp? (localIp : Option U32) {argv : List CString} {p : NshParam} :
    parseWords (IpNsh.keyword tool)
        ((localIp.map fun ip => ["local".toList, inetNtop ip]).getD [] ++ argv) p =
      parseWords (IpNsh.keyword tool) argv { p with localIp := localIp.getD p.localIp } := by
  cases localIp with
  | none => rfl
  | some ip => exact IpNsh.parseWords_local ip

theorem parseWords_dev? {ifindex : Option U32} (hdev : ∀ i, ifindex = some i → tool.Knows i)
    {p : NshParam} :
    parseWords (IpNsh.keyword tool)
        ((ifindex.map fun i => ["dev".toList, devName tool i]).getD []) p =
      .ok { p with ifindex := ifindex.getD p.ifindex, fDev := ifindex.isSome || p.fDev } := by
  cases ifindex with
  | none => rfl
  | some ifindex => exact IpNsh.parseWords_dev (hdev ifindex rfl)

theorem parseArgs_pathWords (hdev : ∀ ifindex, t.ifindex = some ifindex → tool.Knows ifindex) :
    IpNsh.parseArgs tool (t.pathWords (devName tool) spi si mdtype) =
      if mdtype = 1 ∨ mdtype = 2 then .ok (t.param spi si mdtype)
      else .error (.invarg "mdtype must be 1 or 2 " (decimal mdtype.toNat)) := by
  unfold IpNsh.parseArgs pathWords
  rw [if_neg (by simp)]
  simp only [List.cons_append, List.nil_append]
  rw [IpNsh.parseWords_spi, IpNsh.parseWords_si, IpNsh.parseWords_mdtype]
  split_ifs with htype
  · cases t with
    | inner ifindex =>
      rw [words, IpNsh.parseWords_encap rfl, IpNsh.parseWords_dev (hdev ifindex rfl)]
      rfl
    | vxlan remote localIp vni ifindex =>
      have hlink : ∀ i, ifindex = some i → tool.Knows i := hdev
      rw [words, IpNsh.parseWords_encap rfl]
      simp only [List.cons_append, List.nil_append]
      rw [IpNsh.parseWords_remote, List.append_assoc, parseWords_localIp?, List.cons_append,
        List.cons_append, List.nil_append, IpNsh.parseWords_vni, parseWords_dev? hlink]
      simp [param, noNshParam]
    | ether mac ifindex =>
      rw [words, IpNsh.parseWords_encap rfl, IpNsh.parseWords_dst,
        IpNsh.parseWords_link (hdev ifindex rfl)]
      rfl
  · rfl

def request (spi : U32) (si mdtype : U8) (t : PathTarget) : NshAttrs :=
  let a := t.record spi si mdtype
  { a with localIp := a.localIp.filter (· ≠ 0), vni := a.vni.filter (· ≠ 0) }

theorem param_target (hmdtype : mdtype ≠ 0) :
    (t.param spi si mdtype).target = .ok (t.request spi si mdtype) := by
  have hsent : (if mdtype ≠ 0 then some mdtype else none) = some mdtype := if_pos hmdtype
  unfold NshParam.target
  cases t with
  | inner ifindex =>
    simp only [param, if_true]
    refine congrArg Except.ok (NshAttrs.mk.injEq .. ▸ ?_)
    exact ⟨rfl, rfl, rfl, hsent, rfl, rfl, rfl, rfl, rfl⟩
  | vxlan remote localIp vni ifindex =>
    have hvn : ¬ NSH_ENCAP_TYPE_VXLAN = NSH_ENCAP_TYPE_NONE := by decide
    have hlocalIp : (if localIp.getD 0 ≠ 0 then some (localIp.getD 0) else none) =
        localIp.filter (· ≠ 0) := NshWorld.localIp_filter localIp
    have hvni : (if vni ≠ 0 then some vni else none) = (some vni).filter (· ≠ 0) :=
      NshWorld.localIp_filter (some vni)
    have hlink : (if ifindex.isSome = true then some (ifindex.getD 0) else none) = ifindex := by
      cases ifindex <;> rfl
    simp only [param, hvn, if_true, if_false]
    refine congrArg Except.ok (NshAttrs.mk.injEq .. ▸ ?_)
    exact ⟨hlink, rfl, rfl, hsent, rfl, rfl, hlocalIp, hvni, rfl⟩
  | ether mac ifindex =>
    have hen : ¬ NSH_ENCAP_TYPE_ETHER = NSH_ENCAP_TYPE_NONE := by decide
    have hev : ¬ NSH_ENCAP_TYPE_ETHER = NSH_ENCAP_TYPE_VXLAN := by decide
    simp only [param, hen, hev, Bool.and_self, if_true, if_false]
    refine congrArg Except.ok (NshAttrs.mk.injEq .. ▸ ?_)
    exact ⟨rfl, rfl, rfl, hsent, rfl, rfl, rfl, rfl, rfl⟩

theorem nshCommandRequest_pathWords
    (hdev : ∀ ifindex, t.ifindex = some ifindex → tool.Knows ifindex) :
    nshCommandRequest tool ("add".toList :: t.pathWords (devName tool) spi si mdtype) =
      if mdtype = 1 ∨ mdtype = 2 then .ok (.pathDstSet (t.request spi si mdtype))
      else .error (.invarg "mdtype must be 1 or 2 " (decimal mdtype.toNat)) := by
  have hadd : wordMatches "add".toList "add" = true := by decide
  unfold nshCommandRequest
  dsimp only
  rw [if_pos hadd, parseArgs_pathWords hdev]
  split_ifs with htype
  · have hmdtype : mdtype ≠ 0 := by
      rintro rfl
      exact absurd htype (by decide)
    change NshParam.aboutPath _ _ = _
    unfold NshParam.aboutPath
    have hspisi : (t.param spi si mdtype).fSpisi = 2 := by cases t <;> rfl
    rw [if_pos hspisi, param_target hmdtype]
    rfl
  · rfl

end PathTarget

end Madcap
