import Madcap.Foundation.Attributes
import Madcap.Foundation.Fallible

/-!
# Attributes of netlink messages

A request is built in a buffer on the stack, an attribute at a time, and an attribute that
does not fit is left out. Nobody looks at the code that says so. In a message that came from
the socket the attributes are found by their types; of several with one type the first counts.
-/

namespace Madcap

/-- `NLMSG_LENGTH (GENL_HDRLEN)`. -/
def genlHeaders : ℕ := 20

/-- What `GENL_REQUEST` declares: the fields of the headers that are set and the buffer. -/
structure GenlRequest where
  cmd : U8
  flags : U16
  nlmsgLen : ℕ
  buf : List U8
  deriving DecidableEq, Repr

/-- `GENL_REQUEST` without a header of the family. What is not named is zero. -/
def genlRequest (bufsiz : ℕ) (cmd : U8) (flags : U16) : GenlRequest where
  cmd := cmd
  flags := flags
  nlmsgLen := genlHeaders
  buf := List.replicate bufsiz 0

def GenlRequest.attrs (n : GenlRequest) : List U8 := n.buf.take (n.nlmsgLen - genlHeaders)

def storeBytes (buf : List U8) (off : ℕ) (bs : List U8) : Res (List U8) :=
  if off + bs.length ≤ buf.length then
    return buf.take off ++ bs ++ buf.drop (off + bs.length)
  else throw .badAccess

/-- `addattr_l`. The length of the attribute is cut to the two bytes of its field. -/
def GenlRequest.addattrL (n : GenlRequest) (maxlen : ℕ) (type : U16) (data : List U8) :
    Res (ℤ × GenlRequest) :=
  let len := 4 + data.length
  if align4 n.nlmsgLen + align4 len > maxlen then return (-1, n)
  else do
    let rta := bytesOf 2 (BitVec.ofNat 16 len) ++ bytesOf 2 type ++ data
    let buf ← storeBytes n.buf (align4 n.nlmsgLen - genlHeaders) rta
    return (0, { n with nlmsgLen := align4 n.nlmsgLen + align4 len, buf := buf })

def GenlRequest.addattr32 (n : GenlRequest) (maxlen : ℕ) (type : U16) (data : U32) :
    Res (ℤ × GenlRequest) :=
  n.addattrL maxlen type (bytesOf 4 data)

def loadShort (m : List U8) (off : ℕ) : Res U16 :=
  if off + 2 ≤ m.length then return load16 fun i => readByte m (off + i) else throw .badAccess

def rtaOk (m : List U8) (rta : ℕ) (len : ℤ) : Res Bool :=
  if len ≥ 4 then do
    let rtaLen ← loadShort m rta
    return decide (rtaLen.toNat ≥ 4 ∧ (rtaLen.toNat : ℤ) ≤ len)
  else return false

/-- The pointers to attributes, as offsets into the message. -/
abbrev RtaTable (max : ℕ) := Fin (max + 1) → Option ℕ

/-- `tb[type] = rta`, for the first attribute of a type that is in the table. -/
def RtaTable.put {max : ℕ} (tb : RtaTable max) (type rta : ℕ) : RtaTable max :=
  if h : type ≤ max then
    match tb ⟨type, Nat.lt_succ_of_le h⟩ with
    | none => Function.update tb ⟨type, Nat.lt_succ_of_le h⟩ (some rta)
    | some _ => tb
  else tb

/-- The loop of `parse_rtattr_flags`. The first argument bounds its rounds. -/
def parseRtattrLoop (m : List U8) {max : ℕ} :
    ℕ → RtaTable max → ℕ → ℤ → Res (RtaTable max × ℕ × ℤ)
  | 0, _, _, _ => throw .outOfFuel
  | fuel + 1, tb, rta, len => do
    if ← rtaOk m rta len then
      let type ← loadShort m (rta + 2)
      let rtaLen ← loadShort m rta
      parseRtattrLoop m fuel (tb.put type.toNat rta) (rta + align4 rtaLen.toNat)
        (len - align4 rtaLen.toNat)
    else return (tb, rta, len)

/-- `parse_rtattr` on the attributes of a message, with what it prints when something is left:
how much, and the length field at which it stopped. -/
def parseRtattr (max : ℕ) (m : List U8) : Res (RtaTable max × Option (ℤ × U16)) := do
  let (tb, rta, len) ← parseRtattrLoop m (m.length + 1) (fun _ => none) 0 m.length
  if len ≠ 0 then
    let rtaLen ← loadShort m rta
    return (tb, some (len, rtaLen))
  else return (tb, none)

/-- Some bytes at `RTA_DATA`. The caller says how many, not the attribute. -/
def rtaData (m : List U8) (rta count : ℕ) : Res (List U8) :=
  if rta + 4 + count ≤ m.length then return (m.drop (rta + 4)).take count else throw .badAccess

/-- The data of the last attribute of a type, which is what the kernel's parser finds. -/
def lastData (as : List Attr) (type : U16) : Option (List U8) :=
  (as.reverse.find? fun a => a.type = type).map Attr.data

/-- What is added last with a type. -/
def lastCall (calls : List (U16 × List U8)) (type : U16) : Option (List U8) :=
  (calls.reverse.find? fun c => c.1 = type).map Prod.snd

section

variable {calls calls' : List (U16 × List U8)} {type : U16}

theorem lastCall_append :
    lastCall (calls ++ calls') type = (lastCall calls' type).or (lastCall calls type) := by
  unfold lastCall
  rw [List.reverse_append, List.find?_append]
  cases calls'.reverse.find? fun c => c.1 = type <;> rfl

theorem lastCall_singleton (type' : U16) (data : List U8) :
    lastCall [(type', data)] type = if type' = type then some data else none := by
  unfold lastCall
  by_cases htype : type' = type <;> simp [htype]

end

theorem mem_of_lastData {as : List Attr} {type : U16} {data : List U8}
    (h : lastData as type = some data) : ∃ a ∈ as, a.type = type ∧ a.data = data := by
  unfold lastData at h
  obtain ⟨a, hfind, rfl⟩ := Option.map_eq_some_iff.mp h
  exact ⟨a, List.mem_reverse.mp (List.mem_of_find?_eq_some hfind),
    by simpa using List.find?_some hfind, rfl⟩

section

variable {m : List U8} {max : ℕ}

theorem loadShort_len {off : ℕ} (h : off + 2 ≤ m.length) :
    ∃ w, loadShort m off = .ok w ∧ w.toNat = attrLen m off :=
  ⟨_, if_pos h, rfl⟩

theorem rtaOk_eq (m : List U8) (off : ℕ) :
    rtaOk m off ((m.length : ℤ) - off) = .ok (decide (AttrAt m off)) := by
  unfold rtaOk
  by_cases hlen : off + 4 ≤ m.length
  · obtain ⟨w, hload, hw⟩ := loadShort_len (show off + 2 ≤ m.length by omega)
    rw [if_pos (by omega), hload]
    change Except.ok (decide (w.toNat ≥ 4 ∧ (w.toNat : ℤ) ≤ (m.length : ℤ) - off)) = _
    congr 1
    apply decide_eq_decide.mpr
    unfold AttrAt
    rw [hw]
    omega
  · rw [if_neg (by omega)]
    have hno : ¬ AttrAt m off := fun h => hlen h.1
    rw [decide_eq_false hno]
    rfl

def RtaTable.putAll (tb : RtaTable max) (as : List (ℕ × Attr)) : RtaTable max :=
  as.foldl (fun tb p => tb.put p.2.type.toNat p.1) tb

/-- The loop goes through the attributes of the message and stops where they stop. -/
theorem parseRtattrLoop_eq (m : List U8) (off : ℕ) : ∀ (fuel : ℕ) (tb : RtaTable max),
    m.length - off < fuel → parseRtattrLoop m fuel tb off ((m.length : ℤ) - off) =
      .ok (tb.putAll (attrsFrom m off).1, (attrsFrom m off).2,
        (m.length : ℤ) - (attrsFrom m off).2) := by
  refine attrsFrom_induction (P := fun off as stop => ∀ (fuel : ℕ) (tb : RtaTable max),
    m.length - off < fuel → parseRtattrLoop m fuel tb off ((m.length : ℤ) - off) =
      .ok (tb.putAll as, stop, (m.length : ℤ) - stop)) ?_ ?_ off
  · intro off hnone fuel tb hfuel
    obtain ⟨fuel, rfl⟩ := Nat.exists_eq_succ_of_ne_zero (show fuel ≠ 0 by omega)
    unfold parseRtattrLoop
    rw [rtaOk_eq, decide_eq_false (readAttr_eq_none.mp hnone)]
    rfl
  · intro off a as stop hsome hrest ih fuel tb hfuel
    obtain ⟨fuel, rfl⟩ := Nat.exists_eq_succ_of_ne_zero (show fuel ≠ 0 by omega)
    have hat := attrAt_of_readAttr hsome
    have hin := readAttr_inside hsome
    have hpos := a.align4_size_pos
    have hle := le_align4 a.size
    have hfour := a.four_le_size
    have hlen := hat.1
    obtain ⟨w, hload, hw⟩ := loadShort_len (show off + 2 ≤ m.length by omega)
    have htype : loadShort m (off + 2) = .ok (attrType m off) := if_pos (by omega)
    have hround : parseRtattrLoop m (fuel + 1) tb off ((m.length : ℤ) - off) =
        parseRtattrLoop m fuel (tb.put a.type.toNat off) (off + align4 a.size)
          ((m.length : ℤ) - off - align4 a.size) := by
      rw [type_of_readAttr hsome, size_of_readAttr hsome, ← hw]
      conv_lhs => unfold parseRtattrLoop
      rw [rtaOk_eq, decide_eq_true hat, htype, hload]
      rfl
    rw [hround, show (m.length : ℤ) - off - align4 a.size = (m.length : ℤ) - (off + align4 a.size : ℕ) by
      push_cast; ring]
    exact ih fuel _ (by omega)

theorem RtaTable.put_apply (tb : RtaTable max) (type rta : ℕ) (t : Fin (max + 1)) :
    tb.put type rta t = if type = t.val then (tb t).or (some rta) else tb t := by
  unfold put
  by_cases htype : type = t.val
  · subst htype
    rw [dif_pos (Nat.le_of_lt_succ t.isLt), if_pos rfl]
    cases htb : tb t with
    | none => exact Function.update_self _ _ _
    | some off => exact htb
  · rw [if_neg htype]
    by_cases hmax : type ≤ max
    · rw [dif_pos hmax]
      cases tb ⟨type, Nat.lt_succ_of_le hmax⟩ with
      | none => exact Function.update_of_ne (fun h => htype (congrArg Fin.val h).symm) _ _
      | some off => rfl
    · rw [dif_neg hmax]

theorem RtaTable.putAll_apply (as : List (ℕ × Attr)) (tb : RtaTable max) (t : Fin (max + 1)) :
    tb.putAll as t = (tb t).or ((as.find? fun p => p.2.type.toNat = t.val).map Prod.fst) := by
  induction as generalizing tb with
  | nil =>
    rw [List.find?_nil, Option.map_none, Option.or_none]
    rfl
  | cons p as ih =>
    have hput : tb.putAll (p :: as) = (tb.put p.2.type.toNat p.1).putAll as := rfl
    rw [hput, ih, put_apply]
    by_cases htype : p.2.type.toNat = t.val
    · rw [if_pos htype, List.find?_cons_of_pos (by simpa using htype), Option.or_assoc]
      rfl
    · rw [if_neg htype, List.find?_cons_of_neg (by simpa using htype)]

def firstAttrs (max : ℕ) (m : List U8) : RtaTable max :=
  fun t => ((attrsFrom m 0).1.find? fun p => p.2.type.toNat = t.val).map Prod.fst

theorem parseRtattrLoop_message (max : ℕ) (m : List U8) :
    parseRtattrLoop m (m.length + 1) (fun _ => none) 0 m.length =
      .ok (firstAttrs max m, (attrsFrom m 0).2, (m.length : ℤ) - (attrsFrom m 0).2) := by
  let empty : RtaTable max := fun _ => none
  have hloop := parseRtattrLoop_eq m 0 (m.length + 1) empty (by omega)
  have htable : empty.putAll (attrsFrom m 0).1 = firstAttrs max m := by
    funext t
    rw [RtaTable.putAll_apply, Option.none_or]
    rfl
  rw [htable] at hloop
  rw [Nat.cast_zero, Int.sub_zero] at hloop
  exact hloop

/-- Only what is printed may be read from outside the message: where the attributes stop,
there may be no room for a length field. -/
theorem parseRtattr_eq (max : ℕ) (m : List U8) :
    parseRtattr max m =
      if (attrsFrom m 0).2 = m.length then .ok (firstAttrs max m, none)
      else if (attrsFrom m 0).2 + 2 ≤ m.length then
        .ok (firstAttrs max m, some ((m.length : ℤ) - (attrsFrom m 0).2,
          load16 fun i => readByte m ((attrsFrom m 0).2 + i)))
      else .error .badAccess := by
  unfold parseRtattr
  rw [parseRtattrLoop_message]
  simp only [bind, Except.bind]
  by_cases hstop : (attrsFrom m 0).2 = m.length
  · rw [if_pos hstop, if_neg (by omega)]
    rfl
  · rw [if_neg hstop, if_pos (by omega)]
    unfold loadShort
    split_ifs <;> rfl

theorem mem_of_firstAttrs {t : Fin (max + 1)} {off : ℕ} (h : firstAttrs max m t = some off) :
    ∃ a, (off, a) ∈ (attrsFrom m 0).1 ∧ a.type.toNat = t.val := by
  unfold firstAttrs at h
  obtain ⟨⟨off', a⟩, hfind, rfl⟩ := Option.map_eq_some_iff.mp h
  exact ⟨a, List.mem_of_find?_eq_some hfind, by simpa using List.find?_some hfind⟩

/-- A pointer of the table is to a whole attribute of its type, and no attribute of that type
comes before it. -/
structure PointsToFirst (m : List U8) (t off : ℕ) : Prop where
  aligned : 4 ∣ off
  whole : AttrAt m off
  type : (attrType m off).toNat = t
  first : ∀ p ∈ (attrsFrom m 0).1, p.2.type.toNat = t → off ≤ p.1

theorem firstAttrs_pointsToFirst {t : Fin (max + 1)} {off : ℕ}
    (h : firstAttrs max m t = some off) : PointsToFirst m t off := by
  obtain ⟨a, hmem, htype⟩ := mem_of_firstAttrs h
  obtain ⟨-, hdvd, hread⟩ := mem_attrsFrom 0 _ hmem
  refine ⟨by simpa using hdvd, attrAt_of_readAttr hread, by rw [← type_of_readAttr hread, htype], ?_⟩
  unfold firstAttrs at h
  obtain ⟨⟨off', a'⟩, hfind, rfl⟩ := Option.map_eq_some_iff.mp h
  obtain ⟨-, before, after, hsplit, hbefore⟩ := List.find?_eq_some_iff_append.mp hfind
  intro p hp hptype
  have hdisjoint := attrsFrom_disjoint (m := m) 0
  rw [hsplit] at hp hdisjoint
  rcases List.mem_append.mp hp with hp | hp
  · exact absurd hptype (by simpa using hbefore p hp)
  · rcases List.mem_cons.mp hp with rfl | hp
    · exact le_refl _
    · have hafter := (List.pairwise_cons.mp (List.pairwise_append.mp hdisjoint).2.1).1 p hp
      exact (Nat.le_add_right _ _).trans hafter

/-- Whatever bytes a message has, the loop of `parse_rtattr` comes to an end without a read
outside it, and each pointer is then to the first attribute of its type, all of it inside the
message. What is printed after it is read from outside exactly when the attributes stop one byte
before the end or in padding that is cut off. Otherwise nothing is printed exactly for an
encoding of attributes. -/
theorem parse_rtattr_any_message (max : ℕ) (m : List U8) :
    ∃ tb : RtaTable max,
      parseRtattrLoop m (m.length + 1) (fun _ => none) 0 m.length =
        .ok (tb, (attrsFrom m 0).2, (m.length : ℤ) - (attrsFrom m 0).2) ∧
      (∀ t off, tb t = some off → PointsToFirst m t off) ∧
      (∀ t : Fin (max + 1), tb t = none → ∀ p ∈ (attrsFrom m 0).1, p.2.type.toNat ≠ t) ∧
      ((parseRtattr max m = .error .badAccess ∧
          ((attrsFrom m 0).2 + 1 = m.length ∨ m.length < (attrsFrom m 0).2)) ∨
        (∃ deficit, parseRtattr max m = .ok (tb, deficit) ∧
          ((attrsFrom m 0).2 = m.length ∨ (attrsFrom m 0).2 + 2 ≤ m.length) ∧
          (deficit = none ↔ ∃ as, Encodes as m))) := by
  have hencodes : (∃ as, Encodes as m) ↔ (attrsFrom m 0).2 = m.length := by
    constructor
    · rintro ⟨as, h⟩
      exact h.stop
    · exact fun h => ⟨_, encodes_iff.mpr ⟨rfl, h⟩⟩
  have hnone : ∀ t : Fin (max + 1), firstAttrs max m t = none →
      ∀ p ∈ (attrsFrom m 0).1, p.2.type.toNat ≠ t := by
    intro t h p hp
    have hfind := Option.map_eq_none_iff.mp h
    simpa using List.find?_eq_none.mp hfind p hp
  refine ⟨firstAttrs max m, parseRtattrLoop_message max m, fun t off => firstAttrs_pointsToFirst,
    hnone, ?_⟩
  rw [parseRtattr_eq]
  by_cases hstop : (attrsFrom m 0).2 = m.length
  · rw [if_pos hstop]
    exact .inr ⟨_, rfl, .inl hstop, iff_of_true rfl (hencodes.mpr hstop)⟩
  · rw [if_neg hstop]
    by_cases htwo : (attrsFrom m 0).2 + 2 ≤ m.length
    · rw [if_pos htwo]
      refine .inr ⟨_, rfl, .inr htwo, iff_of_false (Option.some_ne_none _) ?_⟩
      rw [hencodes]
      exact hstop
    · rw [if_neg htwo]
      exact .inl ⟨rfl, by omega⟩

end

section

variable {n n' : GenlRequest} {as : List Attr} {size maxlen : ℕ} {type : U16} {data : List U8}

/-- The message of a request consists of these attributes. -/
structure GenlRequest.Holds (n : GenlRequest) (as : List Attr) (size : ℕ) : Prop where
  encodes : Encodes as n.attrs
  room : n.buf.length = size
  headers : genlHeaders ≤ n.nlmsgLen
  len : n.nlmsgLen ≤ genlHeaders + size

theorem holds_genlRequest (bufsiz : ℕ) (cmd : U8) (flags : U16) :
    (genlRequest bufsiz cmd flags).Holds [] bufsiz where
  encodes := by
    unfold GenlRequest.attrs genlRequest
    rw [Nat.sub_self, List.take_zero]
    exact .nil
  room := List.length_replicate
  headers := le_refl _
  len := Nat.le_add_right _ _

theorem GenlRequest.Holds.attrs_length (h : n.Holds as size) :
    n.attrs.length = n.nlmsgLen - genlHeaders := by
  have hlen := h.len
  rw [GenlRequest.attrs, List.length_take, h.room]
  omega

theorem GenlRequest.Holds.align (h : n.Holds as size) : align4 n.nlmsgLen = n.nlmsgLen := by
  have hdvd := h.encodes.dvd
  have hheaders := h.headers
  rw [h.attrs_length] at hdvd
  unfold genlHeaders at hdvd hheaders
  apply align4_of_dvd
  omega

theorem GenlRequest.Holds.addattrL (h : n.Holds as size) (hmaxlen : maxlen ≤ genlHeaders + size)
    (hshort : maxlen < 2 ^ 16) (type : U16) (data : List U8) :
    (maxlen < n.nlmsgLen + align4 (4 + data.length) ∧ n.addattrL maxlen type data = .ok (-1, n)) ∨
    ∃ (hfits : 4 + data.length < 2 ^ 16) (n' : GenlRequest),
      n.nlmsgLen + align4 (4 + data.length) ≤ maxlen ∧
      n.addattrL maxlen type data = .ok (0, n') ∧ n'.cmd = n.cmd ∧ n'.flags = n.flags ∧
      n'.nlmsgLen = n.nlmsgLen + align4 (4 + data.length) ∧
      n'.Holds (as ++ [{ type := type, data := data, fits := hfits }]) size := by
  by_cases hroom : maxlen < n.nlmsgLen + align4 (4 + data.length)
  · left
    refine ⟨hroom, ?_⟩
    unfold GenlRequest.addattrL
    rw [h.align]
    exact if_pos hroom
  · right
    have hfits : 4 + data.length < 2 ^ 16 := by
      have hle := le_align4 (4 + data.length)
      omega
    let a : Attr := { type := type, data := data, fits := hfits }
    have hbytes : bytesOf 2 (BitVec.ofNat 16 (4 + data.length)) ++ bytesOf 2 type ++ data = a.bytes := rfl
    have hsize : a.size = 4 + data.length := rfl
    have hle := le_align4 a.size
    have hheaders := h.headers
    rw [← hsize] at hroom
    have hstore : storeBytes n.buf (n.nlmsgLen - genlHeaders) a.bytes =
        .ok (n.buf.take (n.nlmsgLen - genlHeaders) ++ a.bytes ++
          n.buf.drop (n.nlmsgLen - genlHeaders + a.bytes.length)) := by
      unfold storeBytes
      rw [if_pos (by rw [a.bytes_length, h.room]; omega)]
      rfl
    refine ⟨hfits, { n with
      nlmsgLen := n.nlmsgLen + align4 a.size
      buf := n.buf.take (n.nlmsgLen - genlHeaders) ++ a.bytes ++
        n.buf.drop (n.nlmsgLen - genlHeaders + a.bytes.length) }, by rw [← hsize]; omega, ?_,
      rfl, rfl, rfl, ?_⟩
    · unfold GenlRequest.addattrL
      dsimp only
      rw [h.align, hbytes, ← hsize, if_neg hroom, hstore]
      rfl
    · constructor
      · have hattrs : GenlRequest.attrs { n with
            nlmsgLen := n.nlmsgLen + align4 a.size
            buf := n.buf.take (n.nlmsgLen - genlHeaders) ++ a.bytes ++
              n.buf.drop (n.nlmsgLen - genlHeaders + a.bytes.length) } =
            n.attrs ++ (a.bytes ++ (n.buf.drop (n.nlmsgLen - genlHeaders + a.bytes.length)).take
              (align4 a.size - a.size)) := by
          unfold GenlRequest.attrs
          dsimp only
          rw [List.append_assoc, show n.nlmsgLen + align4 a.size - genlHeaders =
            (n.buf.take (n.nlmsgLen - genlHeaders)).length + align4 a.size by
              rw [List.length_take, h.room]; omega,
            List.take_length_add_append, show align4 a.size =
              a.bytes.length + (align4 a.size - a.size) by rw [a.bytes_length]; omega,
            List.take_length_add_append, a.bytes_length, Nat.add_sub_cancel_left]
        rw [hattrs]
        refine h.encodes.append (.single ?_)
        change _ = align4 a.size - a.size
        rw [List.length_take, List.length_drop, h.room, a.bytes_length]
        omega
      · dsimp only
        rw [List.length_append, List.length_append, List.length_take, List.length_drop, h.room,
          a.bytes_length]
        omega
      · exact hheaders.trans (Nat.le_add_right _ _)
      · dsimp only
        omega

/-- Calls of `addattr_l` one after another. Nobody looks at what they return. -/
def GenlRequest.addattrs (maxlen : ℕ) : List (U16 × List U8) → GenlRequest → Res GenlRequest
  | [], n => return n
  | c :: calls, n => do
    let (_, n) ← n.addattrL maxlen c.1 c.2
    GenlRequest.addattrs maxlen calls n

/-- The calls that find room, when the message is `len` bytes long before the first. -/
def roomFor (maxlen : ℕ) : ℕ → List (U16 × List U8) → List (U16 × List U8)
  | _, [] => []
  | len, c :: calls =>
    if maxlen < len + align4 (4 + c.2.length) then roomFor maxlen len calls
    else c :: roomFor maxlen (len + align4 (4 + c.2.length)) calls

theorem roomFor_eq_self {k len : ℕ} {calls : List (U16 × List U8)}
    (hsize : ∀ c ∈ calls, align4 (4 + c.2.length) ≤ k) (hroom : len + k * calls.length ≤ maxlen) :
    roomFor maxlen len calls = calls := by
  induction calls generalizing len with
  | nil => rfl
  | cons c calls ih =>
    have hc := hsize c List.mem_cons_self
    rw [List.length_cons, Nat.mul_succ] at hroom
    rw [roomFor, if_neg (by omega), ih (fun c hc => hsize c (List.mem_cons_of_mem _ hc)) (by omega)]

/-- The attributes of the calls that find room are those of the message. -/
theorem GenlRequest.Holds.addattrs (h : n.Holds as size) (hmaxlen : maxlen ≤ genlHeaders + size)
    (hshort : maxlen < 2 ^ 16) (hlen : n.nlmsgLen ≤ max genlHeaders maxlen)
    (calls : List (U16 × List U8)) :
    ∃ n' as', n.addattrs maxlen calls = .ok n' ∧ n'.cmd = n.cmd ∧ n'.flags = n.flags ∧
      n'.nlmsgLen ≤ max genlHeaders maxlen ∧ n'.Holds (as ++ as') size ∧
      as'.map (fun a => (a.type, a.data)) = roomFor maxlen n.nlmsgLen calls := by
  induction calls generalizing n as with
  | nil => exact ⟨n, [], rfl, rfl, rfl, hlen, by rwa [List.append_nil], rfl⟩
  | cons c calls ih =>
    obtain ⟨type, data⟩ := c
    have hcons : n.addattrs maxlen ((type, data) :: calls) =
      n.addattrL maxlen type data >>= fun r => r.2.addattrs maxlen calls := rfl
    rw [hcons, roomFor]
    rcases h.addattrL hmaxlen hshort type data with
      ⟨hfull, hcall⟩ | ⟨hfits, n', hroom, hcall, hcmd, hflags, hlen', hholds⟩
    · rw [hcall, if_pos hfull]
      exact ih h hlen
    · rw [hcall, if_neg (Nat.not_lt.mpr hroom), ← hlen']
      obtain ⟨n'', as', hrun, hcmd', hflags', hlen'', hholds', hmap⟩ :=
        ih hholds (by rw [hlen']; exact hroom.trans (Nat.le_max_right _ _))
      refine ⟨n'', { type := type, data := data, fits := hfits } :: as', hrun, hcmd'.trans hcmd,
        hflags'.trans hflags, hlen'', ?_, by rw [List.map_cons, hmap]⟩
      rwa [List.append_assoc] at hholds'

theorem rtaData_of_readAttr {m : List U8} {off : ℕ} {a : Attr} (h : readAttr m off = some a) :
    rtaData m off a.data.length = .ok a.data := by
  have hin := readAttr_inside h
  have hdata := data_of_readAttr h
  rw [← size_of_readAttr h, Attr.size, Nat.add_sub_cancel_left] at hdata
  unfold rtaData
  rw [if_pos (by rw [Attr.size] at hin; omega), ← hdata]
  rfl

/-- The pointer to the first attribute of a type, in an encoding. -/
theorem firstAttrs_encodes {m : List U8} (h : Encodes as m) (max : ℕ) (t : Fin (max + 1)) :
    match as.find? fun a => a.type.toNat = t.val with
    | none => firstAttrs max m t = none
    | some a => ∃ off, firstAttrs max m t = some off ∧ readAttr m off = some a := by
  have hfind : (as.find? fun a => a.type.toNat = t.val) =
      ((attrsFrom m 0).1.find? fun p => p.2.type.toNat = t.val).map Prod.snd := by
    rw [← h.attrs, List.find?_map]
    rfl
  rw [hfind]
  unfold firstAttrs
  cases hp : (attrsFrom m 0).1.find? fun p => p.2.type.toNat = t.val with
  | none => rfl
  | some p => exact ⟨p.1, rfl, (mem_attrsFrom 0 p (List.mem_of_find?_eq_some hp)).2.2⟩

end

/-- Whatever attributes are added to a request, and whether or not there is room for them, no
call writes outside the request. The message never gets longer than the bound, and it is
parsed without a rest to the attributes there was room for, the first of each type. -/
theorem addattrs_parse_rtattr (bufsiz maxlen max : ℕ) (cmd : U8) (flags : U16)
    (calls : List (U16 × List U8)) (hmaxlen : maxlen ≤ genlHeaders + bufsiz)
    (hshort : maxlen < 2 ^ 16) :
    ∃ n tb, (genlRequest bufsiz cmd flags).addattrs maxlen calls = .ok n ∧
      n.nlmsgLen ≤ Nat.max genlHeaders maxlen ∧
      parseRtattr max n.attrs = .ok (tb, none) ∧
      ∀ t : Fin (max + 1),
        match (roomFor maxlen genlHeaders calls).find? fun c => c.1.toNat = t.val with
        | none => tb t = none
        | some c => ∃ off, tb t = some off ∧ attrLen n.attrs off = 4 + c.2.length ∧
            rtaData n.attrs off c.2.length = .ok c.2 := by
  obtain ⟨n, as, hrun, -, -, hlen, hholds, hmap⟩ :=
    (holds_genlRequest bufsiz cmd flags).addattrs hmaxlen hshort (Nat.le_max_left _ _) calls
  rw [List.nil_append] at hholds
  have hmap' : as.map (fun a => (a.type, a.data)) = roomFor maxlen genlHeaders calls := hmap
  refine ⟨n, firstAttrs max n.attrs, hrun, hlen, ?_, ?_⟩
  · rw [parseRtattr_eq, if_pos hholds.encodes.stop]
  · intro t
    have hfirst := firstAttrs_encodes hholds.encodes max t
    rw [← hmap', List.find?_map]
    change match ((as.find? fun a => decide (a.type.toNat = t.val)).map fun a => (a.type, a.data)) with
      | none => firstAttrs max n.attrs t = none
      | some c => ∃ off, firstAttrs max n.attrs t = some off ∧
          attrLen n.attrs off = 4 + c.2.length ∧ rtaData n.attrs off c.2.length = .ok c.2
    cases hfind : as.find? fun a => decide (a.type.toNat = t.val) with
    | none =>
      rw [hfind] at hfirst
      exact hfirst
    | some a =>
      rw [hfind] at hfirst
      obtain ⟨off, hoff, hread⟩ := hfirst
      exact ⟨off, hoff, (size_of_readAttr hread).symm, rtaData_of_readAttr hread⟩

/-- A request with room for two attributes of three. -/
theorem addattrs_parse_rtattr_full :
    36 ≤ genlHeaders + 24 ∧ ∃ n tb,
      (genlRequest 24 2 5).addattrs 36 [(1, [7, 0, 0, 0]), (3, List.replicate 24 1), (1, [9])] = .ok n ∧
      n.nlmsgLen ≤ 36 ∧ parseRtattr 4 n.attrs = .ok (tb, none) ∧ tb 3 = none := by
  obtain ⟨n, tb, hrun, hlen, hparse, htable⟩ := addattrs_parse_rtattr 24 36 4 2 5
    [(1, [7, 0, 0, 0]), (3, List.replicate 24 1), (1, [9])] (by decide) (by decide)
  exact ⟨by decide, n, tb, hrun, hlen, hparse, htable 3⟩

end Madcap
