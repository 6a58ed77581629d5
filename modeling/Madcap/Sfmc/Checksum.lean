import Madcap.Foundation.Inet
import Madcap.Foundation.Traced
import Madcap.Sfmc.Encap

/-!
# The header checksum

`ipchecksum` adds up words of sixteen bits and takes 0xFFFF off a sum that no longer
fits into sixteen. That is one's complement addition, so what it returns completes the
sum of the words.
-/

namespace Madcap

open Inet

/-- `sum += word` and the fold behind it, with the values that `sum` is given. -/
def addFold (sum word : U32) : Traced U32 U32 := do
  let sum := sum + word
  Traced.perform sum
  let sum := if sum > 0xFFFF then sum - 0xFFFF else sum
  Traced.perform sum
  return sum

/-- The loop of `ipchecksum`, with the values that `sum` is given. -/
def ipchecksumLoopTraced (data : ℕ → U8) (stop : ℕ) : ℕ → ℕ → U32 → Traced U32 U32
  | 0, _, sum => return sum
  | fuel + 1, i, sum =>
    if i < stop then do
      let sum ← addFold sum ((htons (load16 fun k => data (i + k))).setWidth 32)
      ipchecksumLoopTraced data stop fuel (i + 2) sum
    else
      return sum

/-- The odd byte of `ipchecksum`, with the values that `sum` is given. -/
def ipchecksumTailTraced (data : ℕ → U8) (len : U16) (stop : ℕ) (sum : U32) : Traced U32 U32 :=
  if stop < len.toNat then addFold sum ((data stop).setWidth 32 <<< 8) else return sum

/-- `ipchecksum`, with the values that `sum` is given from its start to the complement. -/
def ipchecksumTraced (data : ℕ → U8) (len : U16) (sum : U32) : Traced U32 U16 := do
  let stop := (len &&& ~~~1).toNat
  Traced.perform sum
  let sum ← ipchecksumLoopTraced data stop stop 0 sum
  let sum ← ipchecksumTailTraced data len stop sum
  let sum := ~~~sum &&& 0xFFFF
  Traced.perform sum
  return htons (sum.setWidth 16)

section

variable {data : ℕ → U8} {stop fuel i : ℕ} {len : U16} {sum word : U32}

theorem ipchecksumLoopTraced_result :
    (ipchecksumLoopTraced data stop fuel i sum).result =
      .ok (ipchecksumLoop data stop fuel i sum) := by
  induction fuel generalizing i sum with
  | zero => rfl
  | succ fuel ih =>
    unfold ipchecksumLoopTraced ipchecksumLoop
    split_ifs
    · exact ih
    · rfl

theorem ipchecksumTailTraced_result :
    (ipchecksumTailTraced data len stop sum).result =
      .ok (if stop < len.toNat then
        let sum := sum + (data stop).setWidth 32 <<< 8
        if sum > 0xFFFF then sum - 0xFFFF else sum
      else sum) := by
  unfold ipchecksumTailTraced
  split_ifs
  · rfl
  · rfl

theorem ipchecksumTraced_result (data : ℕ → U8) (len : U16) (sum : U32) :
    (ipchecksumTraced data len sum).result = .ok (ipchecksum data len sum) := by
  unfold ipchecksumTraced
  rw [Traced.result_perform_bind, Traced.result_bind_ok ipchecksumLoopTraced_result,
    Traced.result_bind_ok ipchecksumTailTraced_result]
  rfl

/-- The carry of the sum comes back in at the bottom. -/
theorem carry_around {a b : ℕ} (ha : sum.toNat = a) (hb : word.toNat = b) (hale : a ≤ 65535)
    (hble : b ≤ 65535) :
    (if sum + word > 0xFFFF then sum + word - 0xFFFF else sum + word).toNat = onesAdd a b := by
  have hadd : (sum + word).toNat = a + b := by
    rw [BitVec.toNat_add, ha, hb, Nat.mod_eq_of_lt (by omega)]
  have hgt : sum + word > 0xFFFF ↔ a + b > 65535 := by
    rw [← hadd]
    exact BitVec.lt_def
  rw [onesAdd_eq_ite hale hble]
  by_cases h : a + b > 65535
  · have hle : (0xFFFF : U32) ≤ sum + word := by
      rw [BitVec.le_def, hadd]
      exact Nat.le_of_lt h
    rw [if_pos (hgt.mpr h), if_pos h, BitVec.toNat_sub_of_le hle, hadd]
    rfl
  · rw [if_neg (fun hc => h (hgt.mp hc)), if_neg h, hadd]

theorem addFold_bounded (hsum : sum.toNat ≤ 65535) (hword : word.toNat ≤ 65535) :
    ∀ acc ∈ (addFold sum word).trace, acc.toNat ≤ 0x1FFFE := by
  have hfold := carry_around rfl rfl hsum hword
  have hle := onesAdd_le hsum hword
  unfold addFold
  rw [Traced.forall_trace_perform, Traced.forall_trace_perform, BitVec.toNat_add, hfold]
  refine ⟨by omega, by omega, fun acc hacc => ?_⟩
  cases hacc

theorem loadedWord (data : ℕ → U8) (i : ℕ) :
    ((htons (load16 fun k => data (i + k))).setWidth 32 : U32).toNat =
      256 * (data i).toNat + (data (i + 1)).toNat := by
  rw [BitVec.toNat_setWidth_of_le (by decide)]
  exact htons_load16 _

theorem oddWord (data : ℕ → U8) (i : ℕ) :
    ((data i).setWidth 32 <<< 8 : U32).toNat = 256 * (data i).toNat := by
  have hbyte := (data i).isLt
  rw [BitVec.toNat_shiftLeft, BitVec.toNat_setWidth_of_le (by decide), Nat.shiftLeft_eq,
    Nat.mod_eq_of_lt (by omega), Nat.mul_comm]

/-- The loop adds up the words that are left. -/
theorem ipchecksumLoop_eq (heven : (stop - i) % 2 = 0) (hfuel : stop ≤ i + 2 * fuel)
    (hsum : sum.toNat ≤ 65535) :
    (ipchecksumLoop data stop fuel i sum).toNat =
      (words ((List.range' i (stop - i)).map data)).foldl onesAdd sum.toNat := by
  induction fuel generalizing i sum with
  | zero =>
    rw [Nat.sub_eq_zero_of_le (by omega)]
    rfl
  | succ fuel ih =>
    unfold ipchecksumLoop
    split_ifs with hlt
    · have hpair : stop - i = (stop - (i + 2)) + 1 + 1 := by omega
      have hword := loadedWord data i
      have hbyte := (data i).isLt
      have hbyte' := (data (i + 1)).isLt
      have hcarry := carry_around rfl hword hsum (by omega)
      rw [hpair, List.range'_succ, List.range'_succ, List.map_cons, List.map_cons, words,
        List.foldl_cons, ← hcarry]
      apply ih (by omega) (by omega)
      rw [hcarry]
      exact onesAdd_le hsum (by omega)
    · rw [Nat.sub_eq_zero_of_le (by omega)]
      rfl

theorem ipchecksumLoop_le (heven : (stop - i) % 2 = 0) (hfuel : stop ≤ i + 2 * fuel)
    (hsum : sum.toNat ≤ 65535) : (ipchecksumLoop data stop fuel i sum).toNat ≤ 65535 := by
  rw [ipchecksumLoop_eq heven hfuel hsum]
  exact foldl_onesAdd_le (words_le _) hsum

theorem ipchecksumLoopTraced_bounded (hsum : sum.toNat ≤ 65535) :
    ∀ acc ∈ (ipchecksumLoopTraced data stop fuel i sum).trace, acc.toNat ≤ 0x1FFFE := by
  induction fuel generalizing i sum with
  | zero =>
    intro acc hacc
    cases hacc
  | succ fuel ih =>
    unfold ipchecksumLoopTraced
    split_ifs with hlt
    · have hword := loadedWord data i
      have hbyte := (data i).isLt
      have hbyte' := (data (i + 1)).isLt
      have hcarry := carry_around rfl hword hsum (by omega)
      refine (Traced.forall_trace_bind rfl).mpr ⟨addFold_bounded hsum (by omega), ih ?_⟩
      rw [hcarry]
      exact onesAdd_le hsum (by omega)
    · intro acc hacc
      cases hacc

end

def bytesIn (data : ℕ → U8) (n : ℕ) : List U8 := (List.range n).map data

theorem bytesIn_readByte (bytes : List U8) : bytesIn (readByte bytes) bytes.length = bytes := by
  apply List.ext_getElem
  · rw [bytesIn, List.length_map, List.length_range]
  · intro i hi hi'
    simp [bytesIn, readByte, hi']

theorem maskedLength (len : U16) : (len &&& ~~~1).toNat = 2 * (len.toNat / 2) := by
  have hshift : len &&& ~~~(1 : U16) = (len >>> 1) <<< 1 := by
    apply BitVec.eq_of_getLsbD_eq
    intro j hj
    rw [BitVec.getLsbD_and, BitVec.getLsbD_shiftLeft, BitVec.getLsbD_ushiftRight]
    interval_cases j <;> simp
  have hlen := len.isLt
  rw [hshift, BitVec.toNat_shiftLeft, BitVec.toNat_ushiftRight, Nat.shiftLeft_eq,
    Nat.shiftRight_eq_div_pow, Nat.mod_eq_of_lt (by omega)]
  omega

theorem not_and_ffff {sum : U32} (hsum : sum.toNat ≤ 65535) :
    ((~~~sum &&& 0xFFFF).setWidth 16).toNat = 65535 - sum.toNat := by
  have hmask : (~~~sum &&& 0xFFFF).setWidth 16 = ~~~sum.setWidth 16 := by
    apply BitVec.eq_of_getLsbD_eq
    intro j hj
    have hone : (0xFFFF : U32).getLsbD j = true := by
      interval_cases j <;> rfl
    simp only [BitVec.getLsbD_setWidth, BitVec.getLsbD_and, BitVec.getLsbD_not, hone]
    simp [hj, show j < 32 by omega]
  rw [hmask, BitVec.toNat_not, BitVec.toNat_setWidth, Nat.mod_eq_of_lt (by omega)]

section

variable {data : ℕ → U8} {len : U16} {sum : U32}

theorem ipchecksumLoop_bytesIn (data : ℕ → U8) (hsum : sum.toNat ≤ 65535) {stop : ℕ}
    (hstop : stop = 2 * (len.toNat / 2)) :
    (ipchecksumLoop data stop stop 0 sum).toNat =
      (words (bytesIn data stop)).foldl onesAdd sum.toNat := by
  rw [ipchecksumLoop_eq (by omega) (by omega) hsum, bytesIn, List.range_eq_range', Nat.sub_zero]

theorem words_bytesIn_odd {stop : ℕ} (heven : stop % 2 = 0) :
    words (bytesIn data (stop + 1)) = words (bytesIn data stop) ++ [256 * (data stop).toNat] := by
  have hlen : (bytesIn data stop).length % 2 = 0 := by
    rw [bytesIn, List.length_map, List.length_range, heven]
  rw [bytesIn, List.range_succ, List.map_append, List.map_singleton]
  exact words_append [data stop] hlen

theorem ipchecksum_eq (hsum : sum.toNat ≤ 65535) :
    number (bytesOf 2 (ipchecksum data len sum)) =
      65535 - (words (bytesIn data len.toNat)).foldl onesAdd sum.toNat := by
  have hstop := maskedLength len
  have hloop := ipchecksumLoop_bytesIn data hsum hstop
  have hle := foldl_onesAdd_le (words_le (bytesIn data (len &&& ~~~1).toNat)) hsum
  unfold ipchecksum
  dsimp only
  rw [number_bytesOf_htons]
  by_cases hodd : (len &&& ~~~1).toNat < len.toNat
  · have hlen : len.toNat = (len &&& ~~~1).toNat + 1 := by omega
    have hbyte := (data (len &&& ~~~1).toNat).isLt
    have hcarry := carry_around hloop (oddWord data (len &&& ~~~1).toNat) hle (by omega)
    have hfold := onesAdd_le hle (show 256 * (data (len &&& ~~~1).toNat).toNat ≤ 65535 by omega)
    rw [if_pos hodd, not_and_ffff (by rw [hcarry]; exact hfold), hcarry, hlen,
      words_bytesIn_odd (by omega), List.foldl_append, List.foldl_cons, List.foldl_nil]
  · have hlen : len.toNat = (len &&& ~~~1).toNat := by omega
    rw [if_neg hodd, not_and_ffff (by rw [hloop]; exact hle), hloop, hlen]

theorem ipchecksum_completes (hsum : sum.toNat ≤ 65535) :
    onesSum (sum.toNat :: words (bytesIn data len.toNat) ++
      [number (bytesOf 2 (ipchecksum data len sum))]) = 65535 := by
  have hle := foldl_onesAdd_le (words_le (bytesIn data len.toNat)) hsum
  rw [List.cons_append, onesSum_cons hsum, List.foldl_append, List.foldl_cons, List.foldl_nil,
    ipchecksum_eq hsum, onesAdd_complement hle]

theorem ipchecksumTraced_bounded (hsum : sum.toNat ≤ 65535) :
    ∀ acc ∈ (ipchecksumTraced data len sum).trace, acc.toNat ≤ 0x1FFFE := by
  have hstop := maskedLength len
  have hloop : (ipchecksumLoop data (len &&& ~~~1).toNat (len &&& ~~~1).toNat 0 sum).toNat ≤ 65535 :=
    ipchecksumLoop_le (by omega) (by omega) hsum
  have hmask (x : U32) : (x &&& 0xFFFF).toNat ≤ 0x1FFFE := by
    rw [BitVec.toNat_and]
    exact le_trans Nat.and_le_right (by decide)
  have htail : ∀ acc ∈ (ipchecksumTailTraced data len (len &&& ~~~1).toNat
      (ipchecksumLoop data (len &&& ~~~1).toNat (len &&& ~~~1).toNat 0 sum)).trace,
      acc.toNat ≤ 0x1FFFE := by
    unfold ipchecksumTailTraced
    split_ifs
    · have hbyte := (data (len &&& ~~~1).toNat).isLt
      have hword := oddWord data (len &&& ~~~1).toNat
      exact addFold_bounded hloop (by omega)
    · intro acc hacc
      cases hacc
  unfold ipchecksumTraced
  rw [Traced.forall_trace_perform, Traced.forall_trace_bind ipchecksumLoopTraced_result,
    Traced.forall_trace_bind ipchecksumTailTraced_result, Traced.forall_trace_perform]
  refine ⟨by omega, ipchecksumLoopTraced_bounded hsum, htail, hmask _, fun acc hacc => ?_⟩
  cases hacc

theorem ipchecksum_verifies (hsum : sum.toNat ≤ 65535) {front back : List U8}
    (hblank : bytesIn data len.toNat = front ++ bytesOf 2 (0 : U16) ++ back)
    (heven : front.length % 2 = 0) :
    VerifiesFrom sum.toNat (front ++ bytesOf 2 (ipchecksum data len sum) ++ back) :=
  verifiesFrom_fill hsum heven (hblank ▸ ipchecksum_completes hsum)

end

/-- What `ipchecksum` computes of the first bytes of memory and an initial sum: its
accumulator is at most twice the largest word, the sum of everything with the checksum is
all ones, and a header with a blank check field, a word of it, verifies once the checksum is
stored there. -/
structure InternetChecksum (data : ℕ → U8) (len : U16) (sum : U32) : Prop where
  returns : (ipchecksumTraced data len sum).result = .ok (ipchecksum data len sum)
  bounded : ∀ acc ∈ (ipchecksumTraced data len sum).trace, acc ≤ 0x1FFFE
  completes : onesSum (sum.toNat :: words (bytesIn data len.toNat) ++
    [number (bytesOf 2 (ipchecksum data len sum))]) = 0xFFFF
  verifies : ∀ front back : List U8, front.length % 2 = 0 →
    bytesIn data len.toNat = front ++ bytesOf 2 (0 : U16) ++ back →
    VerifiesFrom sum.toNat (front ++ bytesOf 2 (ipchecksum data len sum) ++ back)

/-- Of every string and every initial sum of sixteen bits `ipchecksum` computes the Internet
checksum. -/
theorem ipchecksum_internet (data : ℕ → U8) (len : U16) {sum : U32} (hsum : sum ≤ 0xFFFF) :
    InternetChecksum data len sum where
  returns := ipchecksumTraced_result data len sum
  bounded acc hacc := ipchecksumTraced_bounded hsum acc hacc
  completes := ipchecksum_completes hsum
  verifies _ _ heven hblank := ipchecksum_verifies hsum hblank heven

/-- Three bytes, whose last is the high byte of its word. -/
theorem ipchecksum_internet_odd : ipchecksum (readByte [0xFF, 0xFF, 0x12]) 3 1 = 0xFEED ∧
    InternetChecksum (readByte [0xFF, 0xFF, 0x12]) 3 1 :=
  ⟨by decide, ipchecksum_internet _ 3 (by decide)⟩

end Madcap
