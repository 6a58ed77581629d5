import Madcap.Foundation.Bytes

/-!
# Streams of attributes

An attribute is a type and some data behind a header of four bytes, which says how long
header and data are. Each attribute of a stream starts at a whole word. What lies between
the end of one and the start of the next is not looked at.
-/

namespace Madcap

def align4 (n : ℕ) : ℕ := (n + 3) / 4 * 4

theorem le_align4 (n : ℕ) : n ≤ align4 n := by
  unfold align4
  omega

theorem align4_lt (n : ℕ) : align4 n < n + 4 := by
  unfold align4
  omega

theorem dvd_align4 (n : ℕ) : 4 ∣ align4 n := Nat.dvd_mul_left 4 _

theorem align4_of_dvd {n : ℕ} (h : 4 ∣ n) : align4 n = n := by
  unfold align4
  omega

/-- An attribute whose length fits the length field of its header. -/
structure Attr where
  type : U16
  data : List U8
  fits : 4 + data.length < 2 ^ 16
  deriving DecidableEq, Repr

namespace Attr

def size (a : Attr) : ℕ := 4 + a.data.length

def header (a : Attr) : List U8 := bytesOf 2 (BitVec.ofNat 16 a.size) ++ bytesOf 2 a.type

def bytes (a : Attr) : List U8 := a.header ++ a.data

variable (a : Attr)

theorem header_length : a.header.length = 4 := by
  simp [header]

theorem bytes_length : a.bytes.length = a.size := by
  rw [bytes, List.length_append, header_length, size]

theorem four_le_size : 4 ≤ a.size := Nat.le_add_right 4 _

theorem align4_size_pos : 0 < align4 a.size :=
  lt_of_lt_of_le (by decide) (a.four_le_size.trans (le_align4 _))

end Attr

def attrLen (m : List U8) (off : ℕ) : ℕ := (load16 fun i => readByte m (off + i)).toNat

def attrType (m : List U8) (off : ℕ) : U16 := load16 fun i => readByte m (off + 2 + i)

theorem attrLen_lt (m : List U8) (off : ℕ) : attrLen m off < 2 ^ 16 := BitVec.isLt _

theorem attrData_fits (m : List U8) (off : ℕ) :
    4 + ((m.drop (off + 4)).take (attrLen m off - 4)).length < 2 ^ 16 := by
  have hlt := attrLen_lt m off
  rw [List.length_take]
  omega

/-- A whole attribute lies at an offset. -/
def AttrAt (m : List U8) (off : ℕ) : Prop :=
  off + 4 ≤ m.length ∧ 4 ≤ attrLen m off ∧ off + attrLen m off ≤ m.length

instance (m : List U8) (off : ℕ) : Decidable (AttrAt m off) := by
  unfold AttrAt
  infer_instance

/-- The attribute at an offset, if a whole one lies there. -/
def readAttr (m : List U8) (off : ℕ) : Option Attr :=
  if AttrAt m off then
    some { type := attrType m off, data := (m.drop (off + 4)).take (attrLen m off - 4),
           fits := attrData_fits m off }
  else none

section

variable {m : List U8} {off : ℕ} {a : Attr}

theorem readAttr_eq_none : readAttr m off = none ↔ ¬ AttrAt m off := by
  unfold readAttr
  by_cases h : AttrAt m off
  · rw [if_pos h]
    exact iff_of_false (Option.some_ne_none _) (not_not.mpr h)
  · rw [if_neg h]
    exact iff_of_true rfl h

theorem attrAt_of_readAttr (h : readAttr m off = some a) : AttrAt m off := by
  by_contra hno
  rw [readAttr_eq_none.mpr hno] at h
  cases h

theorem type_of_readAttr (h : readAttr m off = some a) : a.type = attrType m off := by
  unfold readAttr at h
  rw [if_pos (attrAt_of_readAttr h)] at h
  rw [← Option.some.inj h]

theorem data_of_readAttr (h : readAttr m off = some a) :
    a.data = (m.drop (off + 4)).take (attrLen m off - 4) := by
  unfold readAttr at h
  rw [if_pos (attrAt_of_readAttr h)] at h
  rw [← Option.some.inj h]

theorem size_of_readAttr (h : readAttr m off = some a) : a.size = attrLen m off := by
  obtain ⟨-, hfour, hend⟩ := attrAt_of_readAttr h
  rw [Attr.size, data_of_readAttr h, List.length_take, List.length_drop]
  omega

theorem readAttr_inside (h : readAttr m off = some a) : off + a.size ≤ m.length := by
  rw [size_of_readAttr h]
  exact (attrAt_of_readAttr h).2.2

end

theorem header_of_readAttr (h : readAttr m off = some a) : (m.drop off).take 4 = a.header := by
  have hsize : BitVec.ofNat 16 a.size = load16 fun i => readByte m (off + i) := by
    rw [size_of_readAttr h, attrLen, BitVec.ofNat_toNat, BitVec.setWidth_eq]
  have hlen := (attrAt_of_readAttr h).1
  have hheader : a.header = (List.range 4).map fun i => readByte m (off + i) := by
    unfold Attr.header
    rw [hsize, type_of_readAttr h, attrType]
    unfold bytesOf load16
    simp only [List.range_succ, List.range_zero, List.nil_append, List.map_cons,
      List.map_nil, byteAt_append_zero, byteAt_append_one, Nat.add_zero,
      List.cons_append, Nat.add_assoc, Nat.reduceAdd]
  rw [hheader]
  apply List.ext_getElem
  · rw [List.length_take, List.length_drop, List.length_map, List.length_range]
    omega
  · intro i hi _
    rw [List.length_take] at hi
    rw [List.getElem_take, List.getElem_drop, List.getElem_map, List.getElem_range, readByte,
      List.getElem?_eq_getElem (by omega), Option.getD_some]

theorem bytes_of_readAttr (h : readAttr m off = some a) : (m.drop off).take a.size = a.bytes := by
  have hdata := data_of_readAttr h
  rw [← size_of_readAttr h, Attr.size, Nat.add_sub_cancel_left, ← List.drop_drop] at hdata
  rw [Attr.bytes, ← header_of_readAttr h, Attr.size, List.take_add]
  congr 1
  exact hdata.symm

section

variable {pre rest : List U8} (a : Attr)

theorem readByte_append_right (i : ℕ) : readByte (pre ++ rest) (pre.length + i) = readByte rest i := by
  unfold readByte
  rw [List.getElem?_append_right (Nat.le_add_right _ _), Nat.add_sub_cancel_left]

theorem load16_bytesOf (x : U16) (rest : List U8) :
    (load16 fun i => readByte (bytesOf 2 x ++ rest) i) = x := by
  unfold load16
  simp only [readByte_bytesOf 2 x rest (show 1 < 2 by decide),
    readByte_bytesOf 2 x rest (show 0 < 2 by decide)]
  exact append_byteAt x

theorem attrLen_bytes : attrLen (pre ++ (a.bytes ++ rest)) pre.length = a.size := by
  unfold attrLen
  simp only [readByte_append_right]
  unfold Attr.bytes Attr.header
  simp only [List.append_assoc]
  rw [load16_bytesOf, BitVec.toNat_ofNat]
  exact Nat.mod_eq_of_lt a.fits

theorem attrType_bytes : attrType (pre ++ (a.bytes ++ rest)) pre.length = a.type := by
  have hsplit : pre ++ (a.bytes ++ rest) =
      (pre ++ bytesOf 2 (BitVec.ofNat 16 a.size)) ++ (bytesOf 2 a.type ++ (a.data ++ rest)) := by
    simp only [Attr.bytes, Attr.header, List.append_assoc]
  have hlen : pre.length + 2 = (pre ++ bytesOf 2 (BitVec.ofNat 16 a.size)).length := by
    rw [List.length_append, bytesOf_length]
  unfold attrType
  rw [hsplit, hlen]
  simp only [readByte_append_right]
  exact load16_bytesOf a.type _

/-- An attribute is read where it was written, whatever comes before and after it. -/
theorem readAttr_bytes : readAttr (pre ++ (a.bytes ++ rest)) pre.length = some a := by
  have hlen : attrLen (pre ++ (a.bytes ++ rest)) pre.length = a.size := attrLen_bytes a
  have hat : AttrAt (pre ++ (a.bytes ++ rest)) pre.length := by
    unfold AttrAt
    rw [hlen, List.length_append, List.length_append, Attr.bytes_length]
    have hfour := a.four_le_size
    omega
  have hdata : ((pre ++ (a.bytes ++ rest)).drop (pre.length + 4)).take (a.size - 4) = a.data := by
    rw [← List.drop_drop, List.drop_left, Attr.bytes, List.append_assoc, ← a.header_length,
      List.drop_left, Attr.size, a.header_length, Nat.add_sub_cancel_left, List.take_left]
  unfold readAttr
  rw [if_pos hat]
  simp only [hlen, attrType_bytes, hdata]

end

/-- The attributes from an offset on, each with where it starts, and the offset at which
there is no further one. -/
def attrsFrom (m : List U8) (off : ℕ) : List (ℕ × Attr) × ℕ :=
  match _h : readAttr m off with
  | none => ([], off)
  | some a => ((off, a) :: (attrsFrom m (off + align4 a.size)).1,
      (attrsFrom m (off + align4 a.size)).2)
termination_by m.length - off
decreasing_by
  all_goals
    have hin := readAttr_inside _h
    have hfour := a.four_le_size
    have hle := le_align4 a.size
    omega

section

variable {m : List U8} {off : ℕ} {a : Attr}

theorem attrsFrom_none (h : readAttr m off = none) : attrsFrom m off = ([], off) := by
  rw [attrsFrom]
  split
  · rfl
  · next hsome =>
    rw [h] at hsome
    cases hsome

theorem attrsFrom_some (h : readAttr m off = some a) :
    attrsFrom m off = ((off, a) :: (attrsFrom m (off + align4 a.size)).1,
      (attrsFrom m (off + align4 a.size)).2) := by
  rw [attrsFrom]
  split
  · next hnone =>
    rw [h] at hnone
    cases hnone
  · next a' hsome =>
    rw [h] at hsome
    obtain rfl := Option.some.inj hsome
    rfl

/-- What holds at the end of the attributes, and before each if after it, holds at the start. -/
theorem attrsFrom_induction {P : ℕ → List (ℕ × Attr) → ℕ → Prop}
    (stop : ∀ off, readAttr m off = none → P off [] off)
    (next : ∀ off a as stop, readAttr m off = some a →
      attrsFrom m (off + align4 a.size) = (as, stop) → P (off + align4 a.size) as stop →
      P off ((off, a) :: as) stop) (off : ℕ) :
    P off (attrsFrom m off).1 (attrsFrom m off).2 := by
  fun_induction attrsFrom m off with
  | case1 off h => exact stop off h
  | case2 off a h ih => exact next off a _ _ h rfl ih

theorem mem_attrsFrom (off : ℕ) : ∀ p ∈ (attrsFrom m off).1,
    off ≤ p.1 ∧ 4 ∣ p.1 - off ∧ readAttr m p.1 = some p.2 := by
  refine attrsFrom_induction (P := fun off as _ => ∀ p ∈ as,
    off ≤ p.1 ∧ 4 ∣ p.1 - off ∧ readAttr m p.1 = some p.2) ?_ ?_ off
  · intro off _ p hp
    cases hp
  · intro off a as stop h _ ih p hp
    rcases List.mem_cons.mp hp with rfl | hp
    · exact ⟨le_refl _, by simp, h⟩
    · obtain ⟨hle, hdvd, hread⟩ := ih p hp
      have hwords := dvd_align4 a.size
      exact ⟨by omega, by omega, hread⟩

/-- No two attributes share a byte. -/
theorem attrsFrom_disjoint (off : ℕ) :
    (attrsFrom m off).1.Pairwise fun p q => p.1 + p.2.size ≤ q.1 := by
  refine attrsFrom_induction (P := fun _ as _ => as.Pairwise fun p q => p.1 + p.2.size ≤ q.1)
    ?_ ?_ off
  · exact fun _ _ => List.Pairwise.nil
  · intro off a as stop h hrest ih
    refine List.pairwise_cons.mpr ⟨fun q hq => ?_, ih⟩
    have hmem : q ∈ (attrsFrom m (off + align4 a.size)).1 := by
      rw [hrest]
      exact hq
    have hle := (mem_attrsFrom _ q hmem).1
    have halign := le_align4 a.size
    dsimp only
    omega

end

/-- The bytes are these attributes one after another, each filled up to whole words. -/
inductive Encodes : List Attr → List U8 → Prop
  | nil : Encodes [] []
  | cons (a : Attr) {as : List Attr} {pad rest : List U8}
    (hpad : pad.length = align4 a.size - a.size) (h : Encodes as rest) :
    Encodes (a :: as) (a.bytes ++ pad ++ rest)

section

variable {as as' : List Attr} {bs bs' pre : List U8} {a : Attr}

theorem padded_length {pad : List U8} (hpad : pad.length = align4 a.size - a.size) :
    (a.bytes ++ pad).length = align4 a.size := by
  rw [List.length_append, Attr.bytes_length, hpad]
  have hle := le_align4 a.size
  omega

theorem Encodes.dvd (h : Encodes as bs) : 4 ∣ bs.length := by
  induction h with
  | nil => exact dvd_zero 4
  | cons a hpad _ ih =>
    rw [List.length_append, padded_length hpad]
    exact Nat.dvd_add (dvd_align4 _) ih

theorem Encodes.append (h : Encodes as bs) (h' : Encodes as' bs') :
    Encodes (as ++ as') (bs ++ bs') := by
  induction h with
  | nil => exact h'
  | cons a hpad _ ih =>
    rw [List.append_assoc]
    exact .cons a hpad ih

theorem Encodes.single {pad : List U8} (hpad : pad.length = align4 a.size - a.size) :
    Encodes [a] (a.bytes ++ pad) := by
  have h := Encodes.cons a hpad .nil
  rwa [List.append_nil] at h

def Attr.paddedBytes (as : List Attr) : List U8 :=
  as.flatMap fun a => a.bytes ++ List.replicate (align4 a.size - a.size) 0

theorem encodes_paddedBytes (as : List Attr) : Encodes as (Attr.paddedBytes as) := by
  induction as with
  | nil => exact .nil
  | cons a as ih =>
    rw [Attr.paddedBytes, List.flatMap_cons]
    exact .cons a List.length_replicate ih

theorem Encodes.attrsFrom_append (h : Encodes as bs) (pre : List U8) :
    (attrsFrom (pre ++ bs) pre.length).1.map Prod.snd = as ∧
      (attrsFrom (pre ++ bs) pre.length).2 = (pre ++ bs).length := by
  induction h generalizing pre with
  | nil =>
    have hnone : readAttr (pre ++ []) pre.length = none := by
      rw [readAttr_eq_none, List.append_nil]
      rintro ⟨hlt, -⟩
      omega
    rw [attrsFrom_none hnone, List.append_nil]
    exact ⟨rfl, rfl⟩
  | @cons a as pad rest hpad _ ih =>
    have hread : readAttr (pre ++ (a.bytes ++ pad ++ rest)) pre.length = some a := by
      rw [List.append_assoc]
      exact readAttr_bytes a
    obtain ⟨hattrs, hstop⟩ := ih (pre ++ (a.bytes ++ pad))
    rw [List.append_assoc, List.length_append, padded_length hpad] at hattrs hstop
    rw [attrsFrom_some hread]
    dsimp only
    exact ⟨by rw [List.map_cons, hattrs], hstop⟩

theorem Encodes.attrs (h : Encodes as bs) : (attrsFrom bs 0).1.map Prod.snd = as :=
  (h.attrsFrom_append []).1

theorem Encodes.stop (h : Encodes as bs) : (attrsFrom bs 0).2 = bs.length :=
  (h.attrsFrom_append []).2

theorem encodes_of_stop (off : ℕ) (hoff : off ≤ bs.length)
    (hstop : (attrsFrom bs off).2 = bs.length) :
    Encodes ((attrsFrom bs off).1.map Prod.snd) (bs.drop off) := by
  refine attrsFrom_induction (P := fun off as stop => off ≤ bs.length → stop = bs.length →
    Encodes (as.map Prod.snd) (bs.drop off)) ?_ ?_ off hoff hstop
  · rintro off - - rfl
    rw [List.drop_length]
    exact .nil
  · intro off a as stop h hrest ih _ hstop
    have hin : off + align4 a.size ≤ bs.length := by
      have hle : ∀ off, off ≤ (attrsFrom bs off).2 := attrsFrom_induction
        (P := fun off _ stop => off ≤ stop) (fun _ _ => le_refl _)
        fun off a _ _ _ _ hle => (Nat.le_add_right _ _).trans hle
      have hstep := hle (off + align4 a.size)
      rw [hrest] at hstep
      exact hstep.trans hstop.le
    have hsize := le_align4 a.size
    have hsplit : bs.drop off = a.bytes ++ ((bs.drop (off + a.size)).take (align4 a.size - a.size)) ++
        bs.drop (off + align4 a.size) := by
      have htail : bs.drop (off + a.size) = (bs.drop (off + a.size)).take (align4 a.size - a.size) ++
          bs.drop (off + align4 a.size) := by
        conv_lhs => rw [← List.take_append_drop (align4 a.size - a.size) (bs.drop (off + a.size))]
        rw [List.drop_drop, show off + a.size + (align4 a.size - a.size) = off + align4 a.size by omega]
      rw [List.append_assoc, ← htail, ← bytes_of_readAttr h, ← List.drop_drop,
        List.take_append_drop]
    rw [List.map_cons, hsplit]
    refine .cons a ?_ (ih hin hstop)
    rw [List.length_take, List.length_drop]
    omega

theorem encodes_iff : Encodes as bs ↔
    (attrsFrom bs 0).1.map Prod.snd = as ∧ (attrsFrom bs 0).2 = bs.length := by
  constructor
  · exact fun h => ⟨h.attrs, h.stop⟩
  · rintro ⟨rfl, hstop⟩
    exact encodes_of_stop 0 (Nat.zero_le _) hstop

end

end Madcap
