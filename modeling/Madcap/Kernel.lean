import Madcap.Foundation.Bytes
import Madcap.Foundation.Fallible

/-!
# Kernel interface

The kernel types and constants the drivers use. Multi-byte values in network
order appear as the host loads them, on a little-endian host.
-/

namespace Madcap

/-- A six-byte hardware address as it lies in memory. -/
abbrev Mac := BitVec 48

def ETH_HLEN : ℕ := 14

abbrev NetDev := ℕ

def ENOENT : ℤ := 2
def ENOMEM : ℤ := 12
def EEXIST : ℤ := 17
def EINVAL : ℤ := 22
def EOPNOTSUPP : ℤ := 95
def ENOTSUPP : ℤ := 524

/-- `RT_SCOPE_LINK`: a connected route. -/
def RT_SCOPE_LINK : U8 := 253

def NUD_REACHABLE : U8 := 0x02
def NUD_STALE : U8 := 0x04
def NUD_DELAY : U8 := 0x08
def NUD_PROBE : U8 := 0x10
def NUD_NOARP : U8 := 0x40
def NUD_PERMANENT : U8 := 0x80

/-- The states in which a neighbour's hardware address may be used. -/
def NUD_VALID : U8 :=
  NUD_PERMANENT ||| NUD_NOARP ||| NUD_REACHABLE ||| NUD_PROBE ||| NUD_STALE ||| NUD_DELAY

def nudValid (nudState : U8) : Bool := nudState &&& NUD_VALID != 0

/-- An entry of the neighbour table of one device. -/
structure Neighbour where
  ha : Mac
  nudState : U8
  deriving DecidableEq, Repr

/-- The neighbour table of one device, by protocol address. -/
abbrev ArpTable := U32 → Option Neighbour

/-- A socket buffer: its linear data, what memory holds after it, the bytes in
page fragments, the room before the data and the device of `skb_dst`. -/
structure SkBuff where
  data : List U8
  tail : ℕ → U8
  fragLen : ℕ
  headroom : ℤ
  dst : Option NetDev

namespace SkBuff

/-- `skb->len`. -/
def len (skb : SkBuff) : ℕ := skb.data.length + skb.fragLen

/-- The byte of memory at an offset from `skb->data`. -/
def byte (skb : SkBuff) (i : ℕ) : U8 :=
  match skb.data[i]? with
  | some b => b
  | none => skb.tail (i - skb.data.length)

/-- `__skb_push`, with the bytes that are then written to the pushed room. -/
def push (skb : SkBuff) (hdr : List U8) : SkBuff :=
  { skb with data := hdr ++ skb.data, headroom := skb.headroom - hdr.length }

/-- `__skb_pull`, with its `BUG_ON (skb->len < skb->data_len)`. The length of a buffer that is
shorter than what is pulled wraps, and memory behind the data is then taken for data. -/
def pull (skb : SkBuff) (n : ℕ) : Res SkBuff :=
  if n ≤ skb.data.length then
    return { skb with data := skb.data.drop n, headroom := skb.headroom + n }
  else if n ≤ skb.len then throw .bug
  else
    return { skb with
      data := (List.range (2 ^ 32 + skb.data.length - n)).map fun i => skb.byte (n + i)
      tail := fun i => skb.tail (2 ^ 32 + i)
      headroom := skb.headroom + n }

/-- As far as the buffer has `n` bytes at all, they are linear. -/
def Pullable (skb : SkBuff) (n : ℕ) : Prop := n ≤ skb.len → n ≤ skb.data.length

variable {skb s : SkBuff} {hdr : List U8} {n : ℕ}

@[simp] theorem push_data : (skb.push hdr).data = hdr ++ skb.data := rfl

@[simp] theorem push_dst : (skb.push hdr).dst = skb.dst := rfl

@[simp] theorem push_fragLen : (skb.push hdr).fragLen = skb.fragLen := rfl

@[simp] theorem push_len : (skb.push hdr).len = hdr.length + skb.len := by
  simp [len, Nat.add_assoc]

theorem push_push (hdr' : List U8) : (skb.push hdr).push hdr' = skb.push (hdr' ++ hdr) := by
  simp only [push, List.append_assoc, List.length_append, Nat.cast_add]
  congr 1
  omega

theorem pull_linear (h : n ≤ skb.data.length) :
    skb.pull n = .ok { skb with data := skb.data.drop n, headroom := skb.headroom + n } := if_pos h

/-- A buffer that is pulled has lost `n` bytes, or is past its end. -/
theorem pull_cases (h : skb.pull n = .ok s) : s.fragLen = skb.fragLen ∧
    (n ≤ skb.data.length ∧ s.data = skb.data.drop n ∨
      skb.len < n ∧ s.data.length = 2 ^ 32 + skb.data.length - n) := by
  unfold pull at h
  split_ifs at h with hlinear hshort
  · cases h
    exact ⟨rfl, .inl ⟨hlinear, rfl⟩⟩
  · cases h
    refine ⟨rfl, .inr ⟨Nat.lt_of_not_le hshort, ?_⟩⟩
    rw [List.length_map, List.length_range]

theorem pull_ok_iff : (∃ s, skb.pull n = .ok s) ↔ skb.Pullable n := by
  unfold pull Pullable
  split_ifs with hlinear hshort
  · exact iff_of_true ⟨_, rfl⟩ fun _ => hlinear
  · refine iff_of_false ?_ fun h => hlinear (h hshort)
    rintro ⟨s, hs⟩
    cases hs
  · exact iff_of_true ⟨_, rfl⟩ fun h => absurd h hshort

theorem byte_eq {i : ℕ} (hi : i < skb.data.length) : skb.byte i = skb.data[i] := by
  simp [byte, hi]

theorem byte_eq_readByte {i : ℕ} (hi : i < skb.data.length) :
    skb.byte i = readByte skb.data i := by
  rw [byte_eq hi, readByte, List.getElem?_eq_getElem hi]
  rfl

end SkBuff

end Madcap
