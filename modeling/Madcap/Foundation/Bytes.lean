import Mathlib.Data.Nat.Basic
import Mathlib.Tactic

/-!
# Machine words as bytes in memory

A word is stored with its least significant byte first. The bits of a stored
word are counted as network code counts them: byte by byte, and within a byte
from the most significant bit down.
-/

namespace Madcap

abbrev U8 := BitVec 8
abbrev U16 := BitVec 16
abbrev U32 := BitVec 32
abbrev U64 := BitVec 64

section

variable {w : ℕ}

/-- The byte at offset `i` of a word stored in memory. -/
def byteAt (a : BitVec w) (i : ℕ) : U8 := a.extractLsb' (8 * i) 8

/-- Bit `n` of a stored word in network order. -/
def netBit (a : BitVec w) (n : ℕ) : Bool := a.getLsbD (8 * (n / 8) + (7 - n % 8))

theorem byteAt_getLsbD (a : BitVec w) {i j : ℕ} (hj : j < 8) :
    (byteAt a i).getLsbD j = a.getLsbD (8 * i + j) := by
  simp [byteAt, hj]

theorem netBit_byte (a : BitVec w) {i j : ℕ} (hj : j < 8) :
    netBit a (8 * i + j) = (byteAt a i).getLsbD (7 - j) := by
  rw [byteAt_getLsbD a (by omega), netBit]
  congr 1
  omega

/-- Two stored words share a byte exactly when they share its eight bits. -/
theorem byteAt_eq_iff (a b : BitVec w) (i : ℕ) :
    byteAt a i = byteAt b i ↔ ∀ j < 8, netBit a (8 * i + j) = netBit b (8 * i + j) := by
  constructor
  · intro h j hj
    rw [netBit_byte a hj, netBit_byte b hj, h]
  · intro h
    apply BitVec.eq_of_getLsbD_eq
    intro j hj
    have hbit := h (7 - j) (by omega)
    rwa [netBit_byte a (by omega), netBit_byte b (by omega),
      show 7 - (7 - j) = j by omega] at hbit

theorem eq_of_netBit {a b : BitVec (8 * w)} (h : ∀ n < 8 * w, netBit a n = netBit b n) :
    a = b := by
  apply BitVec.eq_of_getLsbD_eq
  intro i hi
  have hn := h (8 * (i / 8) + (7 - i % 8)) (by omega)
  have hidx : 8 * ((8 * (i / 8) + (7 - i % 8)) / 8) +
      (7 - (8 * (i / 8) + (7 - i % 8)) % 8) = i := by omega
  rwa [netBit, netBit, hidx] at hn

def bytesOf (n : ℕ) (a : BitVec w) : List U8 := (List.range n).map (byteAt a)

@[simp] theorem bytesOf_length (n : ℕ) (a : BitVec w) : (bytesOf n a).length = n := by
  simp [bytesOf]

theorem bytesOf_getElem? (a : BitVec w) {n i : ℕ} (hi : i < n) :
    (bytesOf n a)[i]? = some (byteAt a i) := by
  simp [bytesOf, List.getElem?_range hi]

end

def load16 (m : ℕ → U8) : U16 := m 1 ++ m 0

def load32 (m : ℕ → U8) : U32 := m 3 ++ m 2 ++ m 1 ++ m 0

def load64 (m : ℕ → U8) : U64 := m 7 ++ m 6 ++ m 5 ++ m 4 ++ m 3 ++ m 2 ++ m 1 ++ m 0

/-- Change of byte order between the host and the network. -/
def htons (x : U16) : U16 := byteAt x 0 ++ byteAt x 1

def htonl (x : U32) : U32 := byteAt x 0 ++ byteAt x 1 ++ byteAt x 2 ++ byteAt x 3

theorem load32_getLsbD (m : ℕ → U8) {k : ℕ} (hk : k < 32) :
    (load32 m).getLsbD k = (m (k / 8)).getLsbD (k % 8) := by
  simp only [load32, BitVec.getLsbD_append]
  interval_cases k <;> rfl

theorem load64_getLsbD (m : ℕ → U8) {k : ℕ} (hk : k < 64) :
    (load64 m).getLsbD k = (m (k / 8)).getLsbD (k % 8) := by
  simp only [load64, BitVec.getLsbD_append]
  interval_cases k <;> rfl

theorem load32_byteAt (x : U32) : load32 (byteAt x) = x := by
  apply BitVec.eq_of_getLsbD_eq
  intro k hk
  rw [load32_getLsbD _ hk, byteAt_getLsbD _ (by omega), Nat.div_add_mod]

theorem byteAt_load32 (m : ℕ → U8) {i : ℕ} (hi : i < 4) : byteAt (load32 m) i = m i := by
  apply BitVec.eq_of_getLsbD_eq
  intro j hj
  rw [byteAt_getLsbD _ hj, load32_getLsbD _ (by omega), Nat.mul_add_div (by decide),
    Nat.mul_add_mod, Nat.div_eq_of_lt hj, Nat.mod_eq_of_lt hj, Nat.add_zero]

section

variable {m m' : ℕ → U8}

theorem load16_congr (h : ∀ i < 2, m i = m' i) : load16 m = load16 m' := by
  rw [load16, load16, h 0 (by decide), h 1 (by decide)]

theorem load32_congr (h : ∀ i < 4, m i = m' i) : load32 m = load32 m' := by
  rw [load32, load32, h 0 (by decide), h 1 (by decide), h 2 (by decide), h 3 (by decide)]

theorem load64_congr (h : ∀ i < 8, m i = m' i) : load64 m = load64 m' := by
  rw [load64, load64, h 0 (by decide), h 1 (by decide), h 2 (by decide), h 3 (by decide),
    h 4 (by decide), h 5 (by decide), h 6 (by decide), h 7 (by decide)]

end

theorem load32_eq {m : ℕ → U8} {x : U32} (h : ∀ i < 4, m i = byteAt x i) : load32 m = x :=
  (load32_congr h).trans (load32_byteAt x)

theorem byteAt_htonl (x : U32) {i : ℕ} (hi : i < 4) : byteAt (htonl x) i = byteAt x (3 - i) := by
  apply BitVec.eq_of_getLsbD_eq
  intro j hj
  rw [byteAt_getLsbD _ hj]
  have h : htonl x = load32 fun k => byteAt x (3 - k) := rfl
  rw [h, load32_getLsbD _ (by omega), Nat.mul_add_div (by decide), Nat.mul_add_mod,
    Nat.div_eq_of_lt hj, Nat.mod_eq_of_lt hj, Nat.add_zero]

theorem toNat_append_bytes (a b : U8) : (a ++ b : U16).toNat = 256 * a.toNat + b.toNat := by
  rw [BitVec.toNat_append, Nat.shiftLeft_eq, Nat.mul_comm, ← Nat.two_pow_add_eq_or_of_lt b.isLt]

theorem byteAt_append_zero (a b : U8) : byteAt (a ++ b : U16) 0 = b := by
  apply BitVec.eq_of_getLsbD_eq
  intro j hj
  rw [byteAt_getLsbD _ hj, BitVec.getLsbD_append]
  simp [hj]

theorem byteAt_append_one (a b : U8) : byteAt (a ++ b : U16) 1 = a := by
  apply BitVec.eq_of_getLsbD_eq
  intro j hj
  rw [byteAt_getLsbD _ hj, BitVec.getLsbD_append]
  simp

theorem append_byteAt (x : U16) : (byteAt x 1 ++ byteAt x 0 : U16) = x := by
  apply BitVec.eq_of_getLsbD_eq
  intro k hk
  rw [BitVec.getLsbD_append]
  split_ifs with h
  · rw [byteAt_getLsbD _ h]
    simp
  · rw [byteAt_getLsbD _ (by omega)]
    congr 1
    omega

theorem htons_load16 (m : ℕ → U8) : (htons (load16 m)).toNat = 256 * (m 0).toNat + (m 1).toNat := by
  unfold htons load16
  rw [byteAt_append_zero, byteAt_append_one, toNat_append_bytes]

theorem htonl_htonl (x : U32) : htonl (htonl x) = x := by
  have h : htonl (htonl x) = byteAt (htonl x) 0 ++ byteAt (htonl x) 1 ++ byteAt (htonl x) 2 ++
    byteAt (htonl x) 3 := rfl
  rw [h]
  simp only [byteAt_htonl x (show 0 < 4 by decide), byteAt_htonl x (show 1 < 4 by decide),
    byteAt_htonl x (show 2 < 4 by decide), byteAt_htonl x (show 3 < 4 by decide)]
  exact load32_byteAt x

/-- The byte at an offset of a string; there is nothing but zeros after its end. -/
def readByte (l : List U8) (i : ℕ) : U8 := (l[i]?).getD 0

theorem readByte_bytesOf {w : ℕ} (n : ℕ) (a : BitVec w) (rest : List U8) {i : ℕ} (hi : i < n) :
    readByte (bytesOf n a ++ rest) i = byteAt a i := by
  rw [readByte, List.getElem?_append_left (by simpa using hi), bytesOf_getElem? a hi]
  rfl

theorem load32_bytesOf (x : U32) (rest : List U8) : load32 (readByte (bytesOf 4 x ++ rest)) = x := by
  apply load32_eq
  intro i hi
  exact readByte_bytesOf 4 x rest hi

theorem eq_iff_byteAt {n : ℕ} {a b : BitVec (8 * n)} :
    a = b ↔ ∀ i < n, byteAt a i = byteAt b i := by
  constructor
  · rintro rfl i _
    rfl
  · intro h
    apply BitVec.eq_of_getLsbD_eq
    intro k hk
    have hbit := congrArg (fun c : U8 => c.getLsbD (k % 8)) (h (k / 8) (by omega))
    simp only [byteAt_getLsbD _ (Nat.mod_lt k (by decide : 0 < 8)), Nat.div_add_mod] at hbit
    exact hbit

theorem eq_iff_bytes {a b : U32} : a = b ↔ byteAt a 0 = byteAt b 0 ∧ byteAt a 1 = byteAt b 1 ∧
    byteAt a 2 = byteAt b 2 ∧ byteAt a 3 = byteAt b 3 := by
  constructor
  · rintro rfl
    exact ⟨rfl, rfl, rfl, rfl⟩
  · rintro ⟨h0, h1, h2, h3⟩
    apply (eq_iff_byteAt (n := 4)).mpr
    intro i hi
    interval_cases i
    · exact h0
    · exact h1
    · exact h2
    · exact h3

theorem byteAt_shiftLeft_zero (x : U32) : byteAt (x <<< 8) 0 = 0 := by
  apply BitVec.eq_of_getLsbD_eq
  intro j hj
  rw [byteAt_getLsbD _ hj, BitVec.getLsbD_shiftLeft]
  simp [hj]

theorem byteAt_shiftLeft_succ (x : U32) {i : ℕ} (hi : i < 3) :
    byteAt (x <<< 8) (i + 1) = byteAt x i := by
  apply BitVec.eq_of_getLsbD_eq
  intro j hj
  rw [byteAt_getLsbD _ hj, byteAt_getLsbD _ hj, BitVec.getLsbD_shiftLeft,
    decide_eq_true (show 8 * (i + 1) + j < 32 by omega),
    decide_eq_false (show ¬ 8 * (i + 1) + j < 8 by omega)]
  simp only [Bool.true_and, Bool.not_false]
  congr 1
  omega

theorem byteAt_ushiftRight (x : U32) (i : ℕ) : byteAt (x >>> 8) i = byteAt x (i + 1) := by
  apply BitVec.eq_of_getLsbD_eq
  intro j hj
  rw [byteAt_getLsbD _ hj, byteAt_getLsbD _ hj, BitVec.getLsbD_ushiftRight]
  congr 1
  omega

theorem byteAt_of_le (x : U32) {i : ℕ} (hi : 4 ≤ i) : byteAt x i = 0 := by
  apply BitVec.eq_of_getLsbD_eq
  intro j hj
  rw [byteAt_getLsbD _ hj, BitVec.getLsbD_of_ge _ _ (by omega)]
  simp

theorem and_ff_eq_zero {x : U32} : x &&& 0xFF = 0 ↔ byteAt x 0 = 0 := by
  have hmask : byteAt x 0 = (x &&& 0xFF).setWidth 8 := by
    apply BitVec.eq_of_getLsbD_eq
    intro j hj
    have hone : (0xFF : U32).getLsbD j = true := by
      interval_cases j <;> rfl
    rw [byteAt_getLsbD _ hj, BitVec.getLsbD_setWidth, BitVec.getLsbD_and, hone]
    simp [hj]
  constructor
  · intro h
    rw [hmask, h]
    rfl
  · intro h
    rw [hmask] at h
    have hlt : (x &&& 0xFF).toNat < 256 := by
      rw [BitVec.toNat_and]
      exact Nat.lt_of_le_of_lt Nat.and_le_right (by decide)
    have hnat := congrArg BitVec.toNat h
    rw [BitVec.toNat_setWidth, Nat.mod_eq_of_lt hlt] at hnat
    exact BitVec.eq_of_toNat_eq hnat

end Madcap
