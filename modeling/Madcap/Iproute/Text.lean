import Madcap.Foundation.Bytes

/-!
# Numbers and addresses as text

The words of a command line are numbers in any base that a prefix can name, and addresses
of four numbers or of six hexadecimal ones. What is printed of a number or an address is read
back as it was, with the exception of the largest number when an old overflow has been left
behind.
-/

namespace Madcap

/-- A C string: the characters before its end. -/
abbrev CString := List Char

def isspace (c : Char) : Bool := c = ' ' ∨ (9 ≤ c.toNat ∧ c.toNat ≤ 13)

/-- What a digit or a letter counts in a number. Nothing else is in any base. -/
def digitValue (c : Char) : ℕ :=
  if c.isDigit then c.toNat - '0'.toNat
  else if c.isLower then c.toNat - 'a'.toNat + 10
  else if c.isUpper then c.toNat - 'A'.toNat + 10
  else 36

/-- The number at the start of some text, when it goes on from a value, and the rest. -/
def scanDigits (base : ℕ) : CString → ℕ → ℕ × CString
  | [], v => (v, [])
  | c :: cs, v =>
    if digitValue c < base then scanDigits base cs (base * v + digitValue c) else (v, c :: cs)

def scanSign : CString → Bool × CString
  | '-' :: s => (true, s)
  | '+' :: s => (false, s)
  | s => (false, s)

/-- The base that the start of a number asks for, and its digits. -/
def scanBase : CString → ℕ × CString
  | '0' :: x :: d :: s =>
    if (x = 'x' ∨ x = 'X') ∧ digitValue d < 16 then (16, d :: s) else (8, '0' :: x :: d :: s)
  | '0' :: s => (8, '0' :: s)
  | s => (10, s)

def ULLONG_MAX : ℕ := 2 ^ 64 - 1

/-- `strtoull` with base 0: the number, the pointer behind it, and whether it sets `errno` to
`ERANGE`. Without a digit the pointer stays where it was. -/
def strtoull (arg : CString) : ℕ × CString × Bool :=
  let (neg, s) := scanSign (arg.dropWhile isspace)
  let (base, s) := scanBase s
  match s with
  | [] => (0, arg, false)
  | c :: _ =>
    if digitValue c < base then
      let (v, ptr) := scanDigits base s 0
      if v ≤ ULLONG_MAX then (if neg then (2 ^ 64 - v) % 2 ^ 64 else v, ptr, false)
      else (ULLONG_MAX, ptr, true)
    else (0, arg, false)

/-- What `get_u8`, `get_u16`, `get_u32` and `get_u64` do for their bounds. None of them clears `errno`, so
an `ERANGE` from before counts. -/
def getNumber (bound : ℕ) (erange : Bool) (arg : CString) : Option ℕ :=
  if arg = [] then none
  else
    let (res, ptr, overflow) := strtoull arg
    if ptr = arg ∨ ptr ≠ [] then none
    else if res = ULLONG_MAX ∧ (erange || overflow) = true then none
    else if res > bound then none
    else some res

def getU8 (erange : Bool) (arg : CString) : Option U8 :=
  (getNumber 0xFF erange arg).map (BitVec.ofNat 8)

def getU16 (erange : Bool) (arg : CString) : Option U16 :=
  (getNumber 0xFFFF erange arg).map (BitVec.ofNat 16)

def getU32 (erange : Bool) (arg : CString) : Option U32 :=
  (getNumber 0xFFFFFFFF erange arg).map (BitVec.ofNat 32)

def getU64 (erange : Bool) (arg : CString) : Option U64 :=
  (getNumber 0xFFFFFFFFFFFFFFFF erange arg).map (BitVec.ofNat 64)

/-- A number as `%u`, `%llu` or `%d` prints it. -/
def decimal (n : ℕ) : CString := Nat.toDigits 10 n

section

variable {n : ℕ}

theorem isDigit_decimal {c : Char} (h : c ∈ decimal n) : c.isDigit = true :=
  Nat.isDigit_of_mem_toDigits (by decide) (by decide) h

theorem decimal_ne_nil (n : ℕ) : decimal n ≠ [] := Nat.toDigits_ne_nil

theorem decimal_head (hn : 0 < n) : ∃ c cs, decimal n = c :: cs ∧ c ≠ '0' := by
  induction n using Nat.strong_induction_on with
  | _ n ih =>
    by_cases hlt : n < 10
    · refine ⟨n.digitChar, [], Nat.toDigits_of_lt_base hlt, ?_⟩
      rw [Ne, Nat.digitChar_eq_zero]
      omega
    · obtain ⟨c, cs, hdiv, hc⟩ := ih (n / 10) (by omega) (by omega)
      refine ⟨c, cs ++ Nat.toDigits 10 (n % 10), ?_, hc⟩
      have hsplit := Nat.toDigits_append_toDigits (b := 10) (n := n / 10) (d := n % 10)
        (by decide) (by omega) (Nat.mod_lt _ (by decide))
      rw [Nat.div_add_mod] at hsplit
      unfold decimal at hdiv ⊢
      rw [← hsplit, hdiv, List.cons_append]

theorem digitValue_of_isDigit {c : Char} (h : c.isDigit = true) :
    digitValue c = c.toNat - '0'.toNat ∧ digitValue c < 10 := by
  have hvalue : digitValue c = c.toNat - '0'.toNat := if_pos h
  refine ⟨hvalue, ?_⟩
  rw [hvalue]
  have hle := (Bool.and_eq_true_iff.mp h).2
  have hnat : c.toNat ≤ 57 := UInt32.le_iff_toNat_le.mp (of_decide_eq_true hle)
  change c.toNat - 48 < 10
  omega

theorem scanDigits_digits {cs : CString} (h : ∀ c ∈ cs, c.isDigit = true) (v : ℕ) :
    scanDigits 10 cs v = (Nat.ofDigitChars 10 cs v, []) := by
  induction cs generalizing v with
  | nil => rw [scanDigits, Nat.ofDigitChars_nil]
  | cons c cs ih =>
    obtain ⟨hvalue, hlt⟩ := digitValue_of_isDigit (h c List.mem_cons_self)
    rw [scanDigits, if_pos hlt, Nat.ofDigitChars_cons, ← hvalue]
    exact ih (fun c hc => h c (List.mem_cons_of_mem _ hc)) _

/-- A printed number has no white space and no sign in front, and no prefix for its base. -/
theorem strtoull_decimal (h : n ≤ ULLONG_MAX) : strtoull (decimal n) = (n, [], false) := by
  rcases Nat.eq_zero_or_pos n with rfl | hpos
  · rfl
  · obtain ⟨c, cs, hcons, hzero⟩ := decimal_head hpos
    have hdigit : c.isDigit = true := isDigit_decimal (by rw [hcons]; exact List.mem_cons_self)
    obtain ⟨-, hten⟩ := digitValue_of_isDigit hdigit
    have hnot (d : Char) (hd : d.isDigit = false) : c ≠ d := by
      rintro rfl
      rw [hdigit] at hd
      cases hd
    have hge : 48 ≤ c.toNat :=
      UInt32.le_iff_toNat_le.mp (of_decide_eq_true (Bool.and_eq_true_iff.mp hdigit).1)
    have hspace : isspace c = false := by
      unfold isspace
      apply decide_eq_false
      rintro (rfl | hlt)
      · exact absurd hdigit (by decide)
      · omega
    have hsign : scanSign (c :: cs) = (false, c :: cs) := by
      unfold scanSign
      split
      · next heq => exact absurd (List.cons.inj heq).1 (hnot '-' (by decide))
      · next heq => exact absurd (List.cons.inj heq).1 (hnot '+' (by decide))
      · rfl
    have hbase : scanBase (c :: cs) = (10, c :: cs) := by
      unfold scanBase
      split
      · next heq => exact absurd (List.cons.inj heq).1 hzero
      · next heq => exact absurd (List.cons.inj heq).1 hzero
      · rfl
    have hscan : scanDigits 10 (c :: cs) 0 = (n, []) := by
      rw [← hcons, scanDigits_digits fun c hc => isDigit_decimal hc]
      unfold decimal
      rw [Nat.ofDigitChars_ten_toDigits]
    unfold strtoull
    rw [hcons, List.dropWhile_cons_of_neg (by rw [hspace]; exact Bool.false_ne_true), hsign]
    dsimp only
    rw [hbase]
    dsimp only
    rw [if_pos hten, hscan]
    dsimp only
    rw [if_pos h, if_neg Bool.false_ne_true]

/-- A number that is printed is read back, unless it is the largest and `errno` is old. -/
theorem getNumber_decimal {bound : ℕ} {erange : Bool} (hn : n ≤ bound) (hbound : bound ≤ ULLONG_MAX)
    (herrno : n = ULLONG_MAX → erange = false) : getNumber bound erange (decimal n) = some n := by
  unfold getNumber
  rw [if_neg (decimal_ne_nil n), strtoull_decimal (hn.trans hbound)]
  dsimp only
  have hptr : ¬ (([] : CString) = decimal n ∨ ([] : CString) ≠ []) := by
    rintro (h | h)
    · exact decimal_ne_nil n h.symm
    · exact h rfl
  have herange : ¬ (n = ULLONG_MAX ∧ (erange || false) = true) := by
    rintro ⟨hmax, h⟩
    rw [herrno hmax] at h
    exact Bool.false_ne_true h
  rw [if_neg hptr, if_neg herange, if_neg (Nat.not_lt.mpr hn)]

theorem getNumber_toNat {w : ℕ} {erange : Bool} (hw : w ≤ 64) (x : BitVec w)
    (herrno : x.toNat = ULLONG_MAX → erange = false) :
    (getNumber (2 ^ w - 1) erange (decimal x.toNat)).map (BitVec.ofNat w) = some x := by
  have hle : x.toNat ≤ 2 ^ w - 1 := Nat.le_sub_one_of_lt x.isLt
  have hbound : 2 ^ w - 1 ≤ ULLONG_MAX :=
    Nat.sub_le_sub_right (Nat.pow_le_pow_right (by decide) hw) 1
  rw [getNumber_decimal hle hbound herrno, Option.map_some, BitVec.ofNat_toNat,
    BitVec.setWidth_eq]

theorem getNumber_toNat_of_lt {w : ℕ} {erange : Bool} (hw : w < 64) (x : BitVec w) :
    (getNumber (2 ^ w - 1) erange (decimal x.toNat)).map (BitVec.ofNat w) = some x := by
  apply getNumber_toNat (Nat.le_of_lt hw)
  intro hmax
  have hlt : x.toNat < 2 ^ 63 :=
    x.isLt.trans_le (Nat.pow_le_pow_right (by decide) (Nat.le_of_lt_succ hw))
  rw [hmax] at hlt
  exact absurd hlt (by decide)

theorem getU64_decimal {erange : Bool} (x : U64) (herrno : x.toNat = ULLONG_MAX → erange = false) :
    getU64 erange (decimal x.toNat) = some x :=
  getNumber_toNat (le_refl 64) x herrno

theorem getU32_decimal {erange : Bool} (x : U32) : getU32 erange (decimal x.toNat) = some x :=
  getNumber_toNat_of_lt (by decide) x

theorem getU16_decimal {erange : Bool} (x : U16) : getU16 erange (decimal x.toNat) = some x :=
  getNumber_toNat_of_lt (by decide) x

theorem getU8_decimal {erange : Bool} (x : U8) : getU8 erange (decimal x.toNat) = some x :=
  getNumber_toNat_of_lt (by decide) x

end

/-- `inet_ntop` for `AF_INET`. The bytes of an address are in network order. -/
def inetNtop (addr : U32) : CString :=
  decimal (byteAt addr 0).toNat ++ '.' :: decimal (byteAt addr 1).toNat ++
    '.' :: decimal (byteAt addr 2).toNat ++ '.' :: decimal (byteAt addr 3).toNat

/-- One of the numbers of an address: up to 255, and not with a zero in front. -/
def readOctet (w : CString) : Option U8 :=
  if w ≠ [] ∧ w.all Char.isDigit ∧ (w.head? = some '0' → w.length = 1) ∧
      Nat.ofDigitChars 10 w 0 ≤ 255 then
    some (BitVec.ofNat 8 (Nat.ofDigitChars 10 w 0))
  else none

/-- `inet_pton` for `AF_INET`. -/
def inetPton (src : CString) : Option U32 :=
  match src.splitOn '.' with
  | [a, b, c, d] => do
    let a ← readOctet a
    let b ← readOctet b
    let c ← readOctet c
    let d ← readOctet d
    return d ++ c ++ b ++ a
  | _ => none

theorem readOctet_decimal (b : U8) : readOctet (decimal b.toNat) = some b := by
  have hlt := b.isLt
  have hvalue : Nat.ofDigitChars 10 (decimal b.toNat) 0 = b.toNat := Nat.ofDigitChars_ten_toDigits
  have hhead : (decimal b.toNat).head? = some '0' → (decimal b.toNat).length = 1 := by
    rcases Nat.eq_zero_or_pos b.toNat with hzero | hpos
    · rw [hzero]
      intro _
      rfl
    · obtain ⟨c, cs, hcons, hne⟩ := decimal_head hpos
      rw [hcons]
      intro h
      exact absurd (Option.some.inj h) hne
  unfold readOctet
  rw [if_pos ⟨decimal_ne_nil _, List.all_eq_true.mpr fun c hc => isDigit_decimal hc, hhead, by
    rw [hvalue]; omega⟩, hvalue, BitVec.ofNat_toNat, BitVec.setWidth_eq]

theorem not_mem_decimal {c : Char} (hc : c.isDigit = false) (n : ℕ) : c ∉ decimal n := by
  intro h
  rw [isDigit_decimal h] at hc
  cases hc

/-- An address that is printed is read back. -/
theorem inetPton_inetNtop (addr : U32) : inetPton (inetNtop addr) = some addr := by
  have hsplit : (inetNtop addr).splitOn '.' = [decimal (byteAt addr 0).toNat,
      decimal (byteAt addr 1).toNat, decimal (byteAt addr 2).toNat, decimal (byteAt addr 3).toNat] := by
    have hjoin : inetNtop addr = ['.'].intercalate [decimal (byteAt addr 0).toNat,
        decimal (byteAt addr 1).toNat, decimal (byteAt addr 2).toNat,
        decimal (byteAt addr 3).toNat] := by
      simp [inetNtop, List.intercalate, List.intersperse]
    rw [hjoin]
    apply List.splitOn_intercalate
    · intro w hw
      simp only [List.mem_cons, List.not_mem_nil, or_false] at hw
      rcases hw with rfl | rfl | rfl | rfl <;> exact not_mem_decimal (by decide) _
    · exact List.cons_ne_nil _ _
  unfold inetPton
  rw [hsplit]
  simp only [readOctet_decimal]
  exact congrArg some (load32_byteAt addr)

theorem not_mem_inetNtop {c : Char} (hc : c.isDigit = false) (hdot : c ≠ '.') (addr : U32) :
    c ∉ inetNtop addr := by
  have hno := not_mem_decimal hc
  unfold inetNtop
  simp [hno, hdot]

/-- A number as `%x` prints it. -/
def hexadecimal (n : ℕ) : CString := Nat.toDigits 16 n

def skipHexPrefix : CString → CString
  | '0' :: x :: d :: s =>
    if (x = 'x' ∨ x = 'X') ∧ digitValue d < 16 then d :: s else '0' :: x :: d :: s
  | s => s

/-- `sscanf` with `%x`: the `int` that is stored, which is cut from an `unsigned long`. -/
def sscanfHex (arg : CString) : Option U32 :=
  let (neg, s) := scanSign (arg.dropWhile isspace)
  match skipHexPrefix s with
  | [] => none
  | c :: s =>
    if digitValue c < 16 then
      let (v, _) := scanDigits 16 (c :: s) 0
      some (BitVec.ofNat 32 (if v ≤ ULLONG_MAX then if neg then 2 ^ 64 - v else v else ULLONG_MAX))
    else none

/-- `get_addr_ipv4`, on the bytes of the address that are left. The numbers may be fewer than
the bytes, and in any base. -/
def getAddrIpv4 : List U8 → CString → Option (List U8)
  | [], _ => none
  | _ :: ap, cp =>
    let (n, endp, _) := strtoull cp
    if n > 255 then none
    else if endp = cp then none
    else
      match endp with
      | [] => some (BitVec.ofNat 8 n :: ap)
      | c :: cp =>
        if ap = [] ∨ c ≠ '.' then none
        else do
          let ap ← getAddrIpv4 ap cp
          return BitVec.ofNat 8 n :: ap

/-- `get_addr_1` for `AF_INET`. -/
def getAddr1 (name : CString) : Option (List U8) :=
  if name = "default".toList ∨ name = "all".toList ∨ name = "any".toList then
    some (List.replicate 4 0)
  else if ':' ∈ name then none
  else getAddrIpv4 (List.replicate 4 0) name

/-- The loop of `ll_addr_a2n`, on the bytes of the address that are left. Text behind the last
byte is not looked at, and bytes without text stay what they were. -/
def llAddrOctets : List U8 → List CString → Option (List U8)
  | [], _ => some []
  | lladdr, [] => some lladdr
  | _ :: lladdr, arg :: args => do
    let temp ← sscanfHex arg
    if temp.toInt < 0 ∨ temp.toInt > 255 then none
    else do
      let lladdr ← llAddrOctets lladdr args
      return temp.setWidth 8 :: lladdr

/-- `ll_addr_a2n`, with what is in the address before. -/
def llAddrA2n (lladdr : List U8) (arg : CString) : Option (List U8) :=
  if '.' ∈ arg then do
    let data ← getAddr1 arg
    if lladdr.length < 4 then none else return data ++ lladdr.drop 4
  else llAddrOctets lladdr (arg.splitOn ':')

/-- The bytes of an address as `%x` with colons between them. -/
def lladdrText (bs : List U8) : CString := [':'].intercalate (bs.map fun b => hexadecimal b.toNat)

section

variable {d n : ℕ}

theorem digitValue_digitChar (hd : d < 16) : digitValue d.digitChar = d := by
  interval_cases d <;> decide

/-- The characters that `%x` prints. -/
def IsHexDigit (c : Char) : Prop := ∃ d < 16, c = Nat.digitChar d

theorem isHexDigit_of_mem {c : Char} (h : c ∈ hexadecimal n) : IsHexDigit c := by
  induction n using Nat.strong_induction_on with
  | _ n ih =>
    unfold hexadecimal at h
    by_cases hlt : n < 16
    · rw [Nat.toDigits_of_lt_base hlt, List.mem_singleton] at h
      exact ⟨n, hlt, h⟩
    · rw [Nat.toDigits_of_base_le (by decide) (by omega)] at h
      rcases List.mem_append.mp h with h | h
      · exact ih (n / 16) (by omega) h
      · exact ⟨n % 16, Nat.mod_lt _ (by decide), List.mem_singleton.mp h⟩

theorem not_mem_hexadecimal {c : Char} (hc : 16 ≤ digitValue c) (n : ℕ) : c ∉ hexadecimal n := by
  intro h
  obtain ⟨d, hd, rfl⟩ := isHexDigit_of_mem h
  rw [digitValue_digitChar hd] at hc
  omega

theorem hexadecimal_byte (hn : n < 256) : hexadecimal n =
    if n < 16 then [n.digitChar] else [(n / 16).digitChar, (n % 16).digitChar] := by
  unfold hexadecimal
  split_ifs with hlt
  · exact Nat.toDigits_of_lt_base hlt
  · rw [Nat.toDigits_of_base_le (by decide) (by omega),
      Nat.toDigits_of_lt_base (show n / 16 < 16 by omega)]
    rfl

theorem sscanfHex_digits {c : Char} {cs : CString} (hc : IsHexDigit c)
    (hskip : skipHexPrefix (c :: cs) = c :: cs) :
    sscanfHex (c :: cs) = some (BitVec.ofNat 32
      (if (scanDigits 16 (c :: cs) 0).1 ≤ ULLONG_MAX then (scanDigits 16 (c :: cs) 0).1
      else ULLONG_MAX)) := by
  obtain ⟨d, hd, rfl⟩ := hc
  have hspace : isspace d.digitChar = false := by
    interval_cases d <;> decide
  have hsign : scanSign (d.digitChar :: cs) = (false, d.digitChar :: cs) := by
    interval_cases d <;> rfl
  unfold sscanfHex
  rw [List.dropWhile_cons_of_neg (by rw [hspace]; exact Bool.false_ne_true), hsign]
  dsimp only
  rw [hskip]
  dsimp only
  rw [if_pos (by rw [digitValue_digitChar hd]; exact hd)]
  rfl

theorem sscanfHex_hexadecimal (b : U8) : sscanfHex (hexadecimal b.toNat) = some (b.setWidth 32) := by
  have hlt := b.isLt
  have hword (n : ℕ) (hn : n = b.toNat) :
      BitVec.ofNat 32 (if n ≤ ULLONG_MAX then n else ULLONG_MAX) = b.setWidth 32 := by
    subst hn
    rw [if_pos (by unfold ULLONG_MAX; omega), ← BitVec.toNat_inj, BitVec.toNat_ofNat,
      BitVec.toNat_setWidth]
  rw [hexadecimal_byte hlt]
  split_ifs with hdigit
  · rw [sscanfHex_digits ⟨_, hdigit, rfl⟩ (by unfold skipHexPrefix; split <;> simp_all)]
    rw [hword]
    simp [scanDigits, digitValue_digitChar hdigit, hdigit]
  · have hhigh : b.toNat / 16 < 16 := by omega
    have hlow : b.toNat % 16 < 16 := Nat.mod_lt _ (by decide)
    rw [sscanfHex_digits ⟨_, hhigh, rfl⟩ (by unfold skipHexPrefix; split <;> simp_all)]
    rw [hword]
    simp [scanDigits, digitValue_digitChar hhigh, digitValue_digitChar hlow, hhigh, hlow]
    omega

theorem llAddrOctets_hexadecimal : ∀ {lladdr bs : List U8}, lladdr.length = bs.length →
    llAddrOctets lladdr (bs.map fun b => hexadecimal b.toNat) = some bs
  | [], [], _ => rfl
  | _ :: lladdr, b :: bs, h => by
    have hrest := llAddrOctets_hexadecimal (Nat.succ_inj.mp h)
    have hint : (b.setWidth 32).toInt = b.toNat := by
      have hlt := b.isLt
      rw [BitVec.toInt_eq_toNat_of_lt (by rw [BitVec.toNat_setWidth]; omega), BitVec.toNat_setWidth,
        Nat.mod_eq_of_lt (by omega)]
    have hlt := b.isLt
    rw [List.map_cons, llAddrOctets, sscanfHex_hexadecimal]
    simp only [bind, Option.bind, hint]
    rw [if_neg (by omega), hrest]
    simp

theorem not_mem_lladdrText {c : Char} (hc : 16 ≤ digitValue c) (hcolon : c ≠ ':') :
    ∀ bs, c ∉ lladdrText bs := by
  intro bs h
  unfold lladdrText at h
  induction bs with
  | nil => simp at h
  | cons b bs ih =>
    cases bs with
    | nil => exact not_mem_hexadecimal hc b.toNat (by simpa using h)
    | cons b' bs =>
      rw [List.map_cons, List.map_cons, List.intercalate_cons_cons] at h
      simp only [List.mem_append, List.mem_singleton] at h
      rcases h with (h | h) | h
      · exact not_mem_hexadecimal hc b.toNat h
      · exact hcolon h
      · exact ih h

theorem llAddrA2n_lladdrText {lladdr bs : List U8} (hlen : lladdr.length = bs.length) (hne : bs ≠ []) :
    llAddrA2n lladdr (lladdrText bs) = some bs := by
  have hdot : '.' ∉ lladdrText bs := not_mem_lladdrText (by decide) (by decide) bs
  have hsplit : (lladdrText bs).splitOn ':' = bs.map fun b => hexadecimal b.toNat := by
    unfold lladdrText
    apply List.splitOn_intercalate
    · intro w hw
      obtain ⟨b, -, rfl⟩ := List.mem_map.mp hw
      exact not_mem_hexadecimal (by decide) _
    · exact fun h => hne (List.map_eq_nil_iff.mp h)
  unfold llAddrA2n
  rw [if_neg hdot, hsplit]
  exact llAddrOctets_hexadecimal hlen

end

end Madcap
