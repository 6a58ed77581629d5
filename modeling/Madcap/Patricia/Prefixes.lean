import Madcap.Foundation.Bytes
import Madcap.Foundation.Trie

/-!
# Address prefixes

The byte and bit arithmetic of the Patricia tree: the bit tests of a descent,
the masked comparison of two addresses and the search for the first bit in which
they differ. Addresses are IPv4 addresses as they lie in memory.
-/

namespace Madcap

open Trie

/-- `BIT_TEST (f, b)`. -/
def bitTest (f b : U8) : Bool := f &&& b != 0

/-- `BIT_TEST (addr[n >> 3], 0x80 >> (n & 0x07))`. -/
def addrBit (addr : U32) (n : ℕ) : Bool :=
  bitTest (byteAt addr (n >>> 3)) (0x80#8 >>> (n &&& 0x07))

/-- `memcmp (addr, dest, n) == 0` on two addresses. -/
def sameBytes (addr dest : U32) (n : ℕ) : Bool :=
  (List.range n).all fun i => byteAt addr i == byteAt dest i

def compWithMask (addr dest : U32) (mask : ℕ) : Bool :=
  if sameBytes addr dest (mask / 8) then
    let n := mask / 8
    let m := (-1 : U8) <<< (8 - mask % 8)
    mask % 8 == 0 || byteAt addr n &&& m == byteAt dest n &&& m
  else
    false

/-- The first `j` from 0 to 7 with `BIT_TEST (r, 0x80 >> j)`, or 8. -/
def firstBit (r : U8) : ℕ :=
  ((List.range 8).find? fun j => bitTest r (0x80#8 >>> j)).getD 8

/-- The loop of `patricia_lookup` over the bytes of the two addresses. The first
argument bounds the number of rounds. -/
def differBitLoop (addr testAddr : U32) (checkBit : ℕ) : ℕ → ℕ → ℕ → ℕ
  | 0, _, differBit => differBit
  | fuel + 1, i, differBit =>
    if i * 8 < checkBit then
      let r := byteAt addr i ^^^ byteAt testAddr i
      if r = 0 then
        differBitLoop addr testAddr checkBit fuel (i + 1) ((i + 1) * 8)
      else
        i * 8 + firstBit r
    else
      differBit

/-- `differ_bit` as the insertion uses it, cut off at `check_bit`. -/
def firstDifferBit (addr testAddr : U32) (checkBit : ℕ) : ℕ :=
  let differBit := differBitLoop addr testAddr checkBit checkBit 0 0
  if checkBit < differBit then checkBit else differBit

/-- `prefix_t` with the IPv4 member of its address union. -/
structure PrefixT where
  bitlen : ℕ
  refCount : ℤ
  add : U32
  deriving DecidableEq, Repr

def dst2Prefix (addr : U32) (len : ℕ) : PrefixT where
  bitlen := len
  refCount := 1
  add := addr

theorem bitTest_shift (f : U8) {j : ℕ} (hj : j < 8) :
    bitTest f (0x80#8 >>> j) = f.getLsbD (7 - j) := by
  interval_cases j <;> revert f <;> decide

theorem addrBit_eq_netBit (addr : U32) (n : ℕ) : addrBit addr n = netBit addr n := by
  have hand : n &&& 7 = n % 8 := Nat.and_two_pow_sub_one_eq_mod n 3
  have hshift : n >>> 3 = n / 8 := Nat.shiftRight_eq_div_pow n 3
  rw [addrBit, hand, hshift, bitTest_shift _ (Nat.mod_lt _ (by decide)),
    ← netBit_byte _ (Nat.mod_lt _ (by decide)), Nat.div_add_mod]

def addrKey (addr : U32) : Key := addrBit addr

theorem addrKey_eq (addr : U32) (n : ℕ) : addrKey addr n = netBit addr n :=
  addrBit_eq_netBit addr n

theorem sameBytes_iff (a b : U32) (n : ℕ) :
    sameBytes a b n = true ↔ Agree (8 * n) (addrKey a) (addrKey b) := by
  simp only [sameBytes, List.all_eq_true, List.mem_range, beq_iff_eq, byteAt_eq_iff, Agree,
    addrKey_eq]
  constructor
  · intro h i hi
    rw [← Nat.div_add_mod i 8]
    exact h (i / 8) (by omega) (i % 8) (Nat.mod_lt _ (by decide))
  · intro h i hi j hj
    exact h _ (by omega)

theorem mask_eq_iff (a b : U8) {m : ℕ} (hm : m ≤ 8) :
    a &&& (-1 : U8) <<< (8 - m) = b &&& (-1 : U8) <<< (8 - m) ↔
      ∀ j < m, a.getLsbD (7 - j) = b.getLsbD (7 - j) := by
  have hones : (-1 : U8) = BitVec.allOnes 8 := rfl
  constructor
  · intro h j hj
    have hbit := congrArg (fun c : U8 => c.getLsbD (7 - j)) h
    have hlow : ¬ 7 - j < 8 - m := by omega
    simpa only [hones, BitVec.getLsbD_and, BitVec.getLsbD_shiftLeft, BitVec.getLsbD_allOnes, hlow,
      show 7 - j < 8 by omega, show 7 - j - (8 - m) < 8 by omega, decide_true, decide_false,
      Bool.not_false, Bool.and_true] using hbit
  · intro h
    apply BitVec.eq_of_getLsbD_eq
    intro i hi
    by_cases hlow : i < 8 - m
    · simp [hlow]
    · have hbit := h (7 - i) (by omega)
      rw [show 7 - (7 - i) = i by omega] at hbit
      simp [hbit]

/-- The masked comparison tests exactly the leading bits. -/
theorem compWithMask_iff (a b : U32) (mask : ℕ) :
    compWithMask a b mask = true ↔ Agree mask (addrKey a) (addrKey b) := by
  have hsplit : Agree mask (addrKey a) (addrKey b) ↔
      Agree (8 * (mask / 8)) (addrKey a) (addrKey b) ∧
        ∀ j < mask % 8, (byteAt a (mask / 8)).getLsbD (7 - j) =
          (byteAt b (mask / 8)).getLsbD (7 - j) := by
    constructor
    · intro h
      refine ⟨h.mono (by omega), fun j hj => ?_⟩
      rw [← netBit_byte a (by omega), ← netBit_byte b (by omega), ← addrKey_eq, ← addrKey_eq]
      exact h _ (by omega)
    · rintro ⟨h, h'⟩ i hi
      by_cases hlt : i < 8 * (mask / 8)
      · exact h i hlt
      · have hbit := h' (i % 8) (by omega)
        rw [← netBit_byte a (by omega), ← netBit_byte b (by omega), ← addrKey_eq,
          ← addrKey_eq] at hbit
        rwa [show 8 * (mask / 8) + i % 8 = i by omega] at hbit
  rw [hsplit, ← sameBytes_iff, compWithMask]
  split_ifs with hs
  · simp only [hs, true_and, Bool.or_eq_true, beq_iff_eq,
      mask_eq_iff _ _ (show mask % 8 ≤ 8 by omega)]
    constructor
    · rintro (h | h)
      · intro j hj
        omega
      · exact h
    · exact .inr
  · simp [hs]

theorem firstBit_spec {r : U8} (hr : r ≠ 0) :
    firstBit r < 8 ∧ r.getLsbD (7 - firstBit r) = true ∧
      ∀ j < firstBit r, r.getLsbD (7 - j) = false := by
  revert r
  decide

/-- What the byte loop finds: the first differing bit, or a bit past `check_bit`. -/
theorem differBitLoop_spec (a b : U32) (checkBit : ℕ) :
    ∀ fuel i, checkBit ≤ fuel + i * 8 → Agree (i * 8) (addrKey a) (addrKey b) →
      Agree (differBitLoop a b checkBit fuel i (i * 8)) (addrKey a) (addrKey b) ∧
        (differBitLoop a b checkBit fuel i (i * 8) < checkBit →
          addrKey a (differBitLoop a b checkBit fuel i (i * 8)) ≠
            addrKey b (differBitLoop a b checkBit fuel i (i * 8))) := by
  intro fuel
  induction fuel with
  | zero =>
    intro i hfuel hag
    exact ⟨hag, fun h => absurd h (by simp [differBitLoop]; omega)⟩
  | succ fuel ih =>
    intro i hfuel hag
    simp only [differBitLoop]
    split_ifs with hi hr
    · have hbyte : byteAt a i = byteAt b i := by simpa using hr
      apply ih (i + 1) (by omega)
      intro j hj
      by_cases hlt : j < i * 8
      · exact hag j hlt
      · have hbit := (byteAt_eq_iff a b i).mp hbyte (j - 8 * i) (by omega)
        rw [show 8 * i + (j - 8 * i) = j by omega] at hbit
        simpa [addrKey_eq] using hbit
    · obtain ⟨hlt, hset, hclear⟩ := firstBit_spec hr
      have hbits : ∀ j < 8, addrKey a (i * 8 + j) = addrKey b (i * 8 + j) ↔
          (byteAt a i ^^^ byteAt b i).getLsbD (7 - j) = false := by
        intro j hj
        rw [addrKey_eq, addrKey_eq, mul_comm, netBit_byte a hj, netBit_byte b hj]
        simp
      refine ⟨fun j hj => ?_, fun _ h => ?_⟩
      · by_cases hj' : j < i * 8
        · exact hag j hj'
        · have hbit := (hbits (j - i * 8) (by omega)).mpr (hclear _ (by omega))
          rwa [show i * 8 + (j - i * 8) = j by omega] at hbit
      · rw [(hbits _ hlt).mp h] at hset
        cases hset
    · exact ⟨hag, fun h => absurd h hi⟩

theorem firstDifferBit_le (a b : U32) (checkBit : ℕ) : firstDifferBit a b checkBit ≤ checkBit := by
  simp only [firstDifferBit]
  split_ifs <;> omega

theorem firstDifferBit_agree (a b : U32) (checkBit : ℕ) :
    Agree (firstDifferBit a b checkBit) (addrKey a) (addrKey b) := by
  have h := (differBitLoop_spec a b checkBit checkBit 0 (by omega) (fun i hi => by omega)).1
  rw [zero_mul] at h
  simp only [firstDifferBit]
  split_ifs
  · exact h.mono (by omega)
  · exact h

theorem firstDifferBit_ne {a b : U32} {checkBit : ℕ} (hlt : firstDifferBit a b checkBit < checkBit) :
    addrKey a (firstDifferBit a b checkBit) ≠ addrKey b (firstDifferBit a b checkBit) := by
  have h := (differBitLoop_spec a b checkBit checkBit 0 (by omega) (fun i hi => by omega)).2
  rw [zero_mul] at h
  simp only [firstDifferBit] at hlt ⊢
  split_ifs at hlt ⊢ with hcut
  · omega
  · exact h hlt

end Madcap
