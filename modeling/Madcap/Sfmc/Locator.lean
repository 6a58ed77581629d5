import Madcap.Sfmc.Encap

/-!
# The locator identifier

`extract_id_from_packet` loads eight bytes in host order and keeps their most
significant bits, which on a little-endian host are the last bits of the load and
not the first. The identifier is the configured field only when the field is the
whole load.
-/

namespace Madcap

/-- How the bits of a byte are counted. -/
inductive BitOrder where
  | msbFirst
  | lsbFirst
  deriving DecidableEq, Repr

/-- The significance in its byte of the bit counted `j`-th. -/
def BitOrder.significance : BitOrder → ℕ → ℕ
  | .msbFirst, j => 7 - j
  | .lsbFirst, j => j

/-- Bit `i` of the field that starts at a byte offset. -/
def fieldBit (order : BitOrder) (offset : ℕ) (skb : SkBuff) (i : ℕ) : Bool :=
  (skb.byte (offset + i / 8)).getLsbD (order.significance (i % 8))

/-- Two packets have the same configured field. -/
def SameField (order : BitOrder) (oc : ObjConfig) (skb skb' : SkBuff) : Prop :=
  ∀ i < oc.length.toNat,
    fieldBit order oc.offset.toNat skb i = fieldBit order oc.offset.toNat skb' i

/-- The packet's linear data holds the configured field. -/
def HoldsField (oc : ObjConfig) (skb : SkBuff) : Prop :=
  8 * oc.offset.toNat + oc.length.toNat ≤ 8 * skb.data.length

/-- The identifier is a function of the configured field, and an injective one. -/
def Identifies (order : BitOrder) (oc : ObjConfig) : Prop :=
  ∀ skb skb', HoldsField oc skb → HoldsField oc skb' →
    (SameField order oc skb skb' ↔ extractIdFromPacket skb oc = extractIdFromPacket skb' oc)

variable {oc : ObjConfig} {order : BitOrder} {skb skb' : SkBuff}

theorem significance_lt {j : ℕ} (hj : j < 8) : order.significance j < 8 := by
  cases order with
  | msbFirst => exact Nat.lt_of_le_of_lt (Nat.sub_le 7 j) (by decide)
  | lsbFirst => exact hj

theorem significance_significance {j : ℕ} (hj : j < 8) :
    order.significance (order.significance j) = j := by
  cases order with
  | msbFirst =>
    change 7 - (7 - j) = j
    omega
  | lsbFirst => rfl

theorem zero_getLsbD {w i : ℕ} : (0 : BitVec w).getLsbD i = false := by simp

theorem shiftLoop_eq (n : ℕ) (id : U64) : shiftLoop n id = id >>> n := by
  induction n generalizing id with
  | zero => simp [shiftLoop]
  | succ n ih =>
    rw [shiftLoop, ih, ← BitVec.shiftRight_add, Nat.add_comm]

def idBytes (oc : ObjConfig) (skb : SkBuff) (k : ℕ) : U8 := skb.byte (oc.offset.toNat + k)

theorem extractId_getLsbD {i : ℕ} (hi : 64 - oc.length.toNat + i < 64) :
    (extractIdFromPacket skb oc).getLsbD i =
      (idBytes oc skb ((64 - oc.length.toNat + i) / 8)).getLsbD
        ((64 - oc.length.toNat + i) % 8) := by
  rw [extractIdFromPacket, shiftLoop_eq, BitVec.getLsbD_ushiftRight, load64_getLsbD _ hi]
  rfl

theorem extractId_eq_iff : extractIdFromPacket skb oc = extractIdFromPacket skb' oc ↔
    ∀ k, 64 - oc.length.toNat ≤ k → k < 64 →
      (idBytes oc skb (k / 8)).getLsbD (k % 8) = (idBytes oc skb' (k / 8)).getLsbD (k % 8) := by
  constructor
  · intro h k hk hk'
    have hidx : 64 - oc.length.toNat + (k - (64 - oc.length.toNat)) = k := by omega
    have hbit := @extractId_getLsbD oc skb (k - (64 - oc.length.toNat)) (by omega)
    have hbit' := @extractId_getLsbD oc skb' (k - (64 - oc.length.toNat)) (by omega)
    rw [hidx] at hbit hbit'
    rw [← hbit, ← hbit', h]
  · intro h
    apply BitVec.eq_of_getLsbD_eq
    intro i hi
    by_cases hlt : 64 - oc.length.toNat + i < 64
    · rw [extractId_getLsbD hlt, extractId_getLsbD hlt]
      exact h _ (by omega) hlt
    · rw [extractIdFromPacket, extractIdFromPacket, shiftLoop_eq, shiftLoop_eq,
        BitVec.getLsbD_ushiftRight, BitVec.getLsbD_ushiftRight, BitVec.getLsbD_of_ge _ _ (by omega),
        BitVec.getLsbD_of_ge _ _ (by omega)]

theorem sameField_iff_of_full (h : oc.length = 64) : SameField order oc skb skb' ↔
    extractIdFromPacket skb oc = extractIdFromPacket skb' oc := by
  have hlen : oc.length.toNat = 64 := by rw [h]; rfl
  rw [extractId_eq_iff, hlen]
  constructor
  · intro hfield k _ hk
    have hsig : order.significance (k % 8) < 8 := significance_lt (Nat.mod_lt k (by decide))
    have hbit := hfield (8 * (k / 8) + order.significance (k % 8)) (by omega)
    have hdiv : (8 * (k / 8) + order.significance (k % 8)) / 8 = k / 8 := by omega
    have hmod : (8 * (k / 8) + order.significance (k % 8)) % 8 = order.significance (k % 8) := by
      omega
    rwa [fieldBit, fieldBit, hdiv, hmod,
      significance_significance (Nat.mod_lt k (by decide))] at hbit
  · intro hid i hi
    have hsig : order.significance (i % 8) < 8 := significance_lt (Nat.mod_lt i (by decide))
    have hbit := hid (8 * (i / 8) + order.significance (i % 8)) (by omega) (by omega)
    have hdiv : (8 * (i / 8) + order.significance (i % 8)) / 8 = i / 8 := by omega
    have hmod : (8 * (i / 8) + order.significance (i % 8)) % 8 = order.significance (i % 8) := by
      omega
    rwa [hdiv, hmod] at hbit

/-- A packet that ends with eight given bytes after the configured offset. -/
def probe (oc : ObjConfig) (m : ℕ → U8) : SkBuff where
  data := List.replicate oc.offset.toNat 0 ++ (List.range 8).map m
  tail := fun _ => 0
  fragLen := 0
  headroom := 0
  dst := none

theorem probe_holdsField {m : ℕ → U8} (hlen : oc.length ≤ 64) : HoldsField oc (probe oc m) := by
  have hle : oc.length.toNat ≤ 64 := hlen
  simp only [HoldsField, probe, List.length_append, List.length_replicate, List.length_map,
    List.length_range]
  omega

theorem probe_byte {m : ℕ → U8} {k : ℕ} (hk : k < 8) :
    (probe oc m).byte (oc.offset.toNat + k) = m k := by
  have hget : (probe oc m).data[oc.offset.toNat + k]? = some (m k) := by
    simp [probe, List.getElem?_append_right, List.getElem?_range hk]
  rw [SkBuff.byte, hget]

def oneBit (k j : ℕ) (i : ℕ) : U8 := if i = k then BitVec.twoPow 8 j else 0

theorem oneBit_getLsbD {k j i b : ℕ} (hj : j < 8) :
    (oneBit k j i).getLsbD b = decide (i = k ∧ b = j) := by
  unfold oneBit
  by_cases h : i = k
  · rw [if_pos h, BitVec.getLsbD_twoPow]
    by_cases hb : b = j
    · subst hb
      simp [h, hj]
    · have hb' : ¬ j = b := fun h => hb h.symm
      simp [h, hb, hb']
  · simp [h]

theorem probe_sameId {k j : ℕ} (hk : k < 8) (hj : j < 8) :
    extractIdFromPacket (probe oc fun _ => 0) oc = extractIdFromPacket (probe oc (oneBit k j)) oc ↔
      8 * k + j < 64 - oc.length.toNat := by
  have hzero : ∀ i < 8, idBytes oc (probe oc fun _ => 0) i = 0 := fun i hi => probe_byte hi
  have hone : ∀ i < 8, idBytes oc (probe oc (oneBit k j)) i = oneBit k j i :=
    fun i hi => probe_byte hi
  rw [extractId_eq_iff]
  constructor
  · intro h
    by_contra hge
    have hbit := h (8 * k + j) (by omega) (by omega)
    rw [hzero _ (by omega), hone _ (by omega), oneBit_getLsbD hj, zero_getLsbD] at hbit
    have hset : (8 * k + j) / 8 = k ∧ (8 * k + j) % 8 = j := by omega
    rw [decide_eq_true hset] at hbit
    cases hbit
  · intro hlt i hi hi'
    rw [hzero _ (by omega), hone _ (by omega), oneBit_getLsbD hj, zero_getLsbD]
    have hunset : ¬ (i / 8 = k ∧ i % 8 = j) := by omega
    rw [decide_eq_false hunset]

theorem probe_sameField {k j : ℕ} (hk : k < 8) (hj : j < 8) (hlen : oc.length ≤ 64) :
    SameField order oc (probe oc fun _ => 0) (probe oc (oneBit k j)) ↔
      oc.length.toNat ≤ 8 * k + order.significance j := by
  have hle : oc.length.toNat ≤ 64 := hlen
  have hsig : order.significance j < 8 := significance_lt hj
  have hbit : ∀ i < 64, fieldBit order oc.offset.toNat (probe oc (oneBit k j)) i =
      decide (i / 8 = k ∧ order.significance (i % 8) = j) := fun i hi => by
    rw [fieldBit, probe_byte (by omega), oneBit_getLsbD hj]
  have hzero : ∀ i < 64, fieldBit order oc.offset.toNat (probe oc fun _ => 0) i = false :=
    fun i hi => by rw [fieldBit, probe_byte (by omega), zero_getLsbD]
  constructor
  · intro h
    by_contra hlt
    have hfield := h (8 * k + order.significance j) (by omega)
    rw [hzero _ (by omega), hbit _ (by omega)] at hfield
    have hdiv : (8 * k + order.significance j) / 8 = k := by omega
    have hmod : (8 * k + order.significance j) % 8 = order.significance j := by omega
    rw [hdiv, hmod, significance_significance hj] at hfield
    simp at hfield
  · intro hge i hi
    rw [hzero _ (by omega), hbit _ (by omega)]
    symm
    apply decide_eq_false
    rintro ⟨hk', hj'⟩
    have hback := @significance_significance order (i % 8) (Nat.mod_lt i (by decide))
    rw [hj'] at hback
    omega

/-- The identifier is an injective image of the configured field exactly when the field has
64 bits, however the bits of a byte are counted. -/
theorem identifies_iff_full_load (order : BitOrder) (oc : ObjConfig) (hpos : 1 ≤ oc.length)
    (hlen : oc.length ≤ 64) : Identifies order oc ↔ oc.length = 64 := by
  have hle : oc.length.toNat ≤ 64 := hlen
  have hge : 1 ≤ oc.length.toNat := hpos
  constructor
  · intro h
    by_contra hne
    have hlt : oc.length.toNat < 64 := by
      apply Nat.lt_of_le_of_ne hle
      intro heq
      exact hne (BitVec.eq_of_toNat_eq heq)
    have hsame : ∀ k j, k < 8 → j < 8 →
        (oc.length.toNat ≤ 8 * k + order.significance j ↔ 8 * k + j < 64 - oc.length.toNat) := by
      intro k j hk hj
      rw [← probe_sameField hk hj hlen, ← probe_sameId hk hj]
      exact h _ _ (probe_holdsField hlen) (probe_holdsField hlen)
    -- the first bit of the load is shifted out, the last bit is not
    have hfirst := hsame 0 0 (by decide) (by decide)
    have hlast := hsame 7 7 (by decide) (by decide)
    cases order with
    | msbFirst =>
      simp only [BitOrder.significance] at hfirst hlast
      omega
    | lsbFirst =>
      simp only [BitOrder.significance] at hfirst
      omega
  · intro h skb skb' _ _
    exact sameField_iff_of_full h

def fieldConfig (offset length : U16) : ObjConfig where
  obj := { id := MADCAP_OBJ_ID_LLT_CONFIG, tbId := 0 }
  offset := offset
  length := length
  proto := 0
  src := 0

/-- With the inner destination address configured, two packets to different addresses get
the same identifier. -/
theorem inner_mac_not_identified : ¬ ∀ (order : BitOrder) (oc : ObjConfig), 1 ≤ oc.length →
    oc.length ≤ 64 → Identifies order oc := by
  intro h
  have hmac := h .msbFirst (fieldConfig 8 48) (by decide) (by decide)
    (probe (fieldConfig 8 48) fun _ => 0) (probe (fieldConfig 8 48) (oneBit 0 0))
    (probe_holdsField (by decide)) (probe_holdsField (by decide))
  have hid := (@probe_sameId (fieldConfig 8 48) 0 0 (by decide) (by decide)).mpr (by decide)
  have hfield := (probe_sameField (k := 0) (j := 0) (by decide) (by decide) (by decide)).mp
    (hmac.mpr hid)
  exact absurd hfield (by decide)

theorem identifies_iff_full_load_eight : Identifies .msbFirst (fieldConfig 8 64) :=
  (identifies_iff_full_load .msbFirst (fieldConfig 8 64) (by decide) (by decide)).mpr rfl

end Madcap
