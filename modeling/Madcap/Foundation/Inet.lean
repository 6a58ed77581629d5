import Madcap.Foundation.Bytes

/-!
# Internet headers

Ethernet II, IPv4 and UDP headers as their standards lay them out, read from the
front of a byte string, and the internet checksum. Addresses and ports stay the
byte strings they are on the wire; lengths and types are numbers in network order.
-/

namespace Madcap.Inet

/-- Split off the first `n` bytes, when there are that many. -/
def take? (n : ℕ) (data : List U8) : Option (List U8 × List U8) :=
  if n ≤ data.length then some (data.take n, data.drop n) else none

theorem take?_append {n : ℕ} {front : List U8} (rest : List U8) (h : front.length = n) :
    take? n (front ++ rest) = some (front, rest) := by
  subst h
  simp [take?]

theorem take?_eq_some {n : ℕ} {data front rest : List U8} (h : take? n data = some (front, rest)) :
    front.length = n ∧ data = front ++ rest := by
  unfold take? at h
  split_ifs at h with hle
  obtain ⟨rfl, rfl⟩ := Prod.mk.inj (Option.some.inj h)
  exact ⟨List.length_take_of_le hle, (List.take_append_drop n data).symm⟩

theorem take?_bind {β : Type} {n : ℕ} {front : List U8} (rest : List U8) (h : front.length = n)
    (f : List U8 × List U8 → Option β) : (take? n (front ++ rest) >>= f) = f (front, rest) := by
  rw [take?_append rest h]
  rfl

def number (bytes : List U8) : ℕ := bytes.foldl (fun n b => 256 * n + b.toNat) 0

theorem number_pair (a b : U8) : number [a, b] = 256 * a.toNat + b.toNat := by
  simp [number]

theorem number_bytesOf_htons (x : U16) : number (bytesOf 2 (htons x)) = x.toNat := by
  have hbytes : bytesOf 2 (htons x) = [byteAt x 1, byteAt x 0] := by
    unfold htons bytesOf
    simp only [List.range_succ, List.range_zero, List.nil_append, List.singleton_append,
      List.map_cons, List.map_nil, byteAt_append_zero, byteAt_append_one]
  rw [hbytes, number_pair, ← toNat_append_bytes, append_byteAt]

/-- One's complement addition of sixteen-bit numbers: the carry goes around. -/
def onesAdd (a b : ℕ) : ℕ := (a + b) % 65536 + (a + b) / 65536

/-- The sixteen-bit words of a byte string, an odd last byte coming first in its word. -/
def words : List U8 → List ℕ
  | [] => []
  | [a] => [256 * a.toNat]
  | a :: b :: rest => (256 * a.toNat + b.toNat) :: words rest

def onesSum (ws : List ℕ) : ℕ := ws.foldl onesAdd 0

/-- A header with its checksum in place sums up to all ones. -/
def ChecksumOk (header : List U8) : Prop := onesSum (words header) = 0xFFFF

instance (header : List U8) : Decidable (ChecksumOk header) :=
  inferInstanceAs (Decidable (_ = _))

theorem onesAdd_le {a b : ℕ} (ha : a ≤ 65535) (hb : b ≤ 65535) : onesAdd a b ≤ 65535 := by
  unfold onesAdd
  omega

theorem onesAdd_mod (a b : ℕ) : onesAdd a b % 65535 = (a + b) % 65535 := by
  unfold onesAdd
  omega

theorem onesAdd_eq_zero {a b : ℕ} : onesAdd a b = 0 ↔ a = 0 ∧ b = 0 := by
  unfold onesAdd
  omega

theorem onesAdd_eq_ite {a b : ℕ} (ha : a ≤ 65535) (hb : b ≤ 65535) :
    onesAdd a b = if a + b > 65535 then a + b - 65535 else a + b := by
  unfold onesAdd
  split_ifs <;> omega

theorem words_le (bytes : List U8) : ∀ w ∈ words bytes, w ≤ 65535 := by
  fun_induction words bytes with
  | case1 => simp
  | case2 a =>
    intro w hw
    rw [List.mem_singleton] at hw
    have ha := a.isLt
    omega
  | case3 a b rest ih =>
    intro w hw
    rcases List.mem_cons.mp hw with rfl | hw
    · have ha := a.isLt
      have hb := b.isLt
      omega
    · exact ih w hw

/-- Words do not straddle a cut after an even number of bytes. -/
theorem words_append {front : List U8} (rest : List U8) (h : front.length % 2 = 0) :
    words (front ++ rest) = words front ++ words rest := by
  fun_induction words front with
  | case1 => simp
  | case2 a => simp at h
  | case3 a b front ih =>
    rw [List.cons_append, List.cons_append, words, ih (by simp only [List.length_cons] at h; omega), List.cons_append]

theorem words_bytesOf_two {w : ℕ} (a : BitVec w) : words (bytesOf 2 a) = [number (bytesOf 2 a)] := by
  simp only [bytesOf, List.range_succ, List.range_zero, List.nil_append, List.singleton_append,
    List.map_cons, List.map_nil, words, number_pair]

section

variable {ws : List ℕ}

theorem foldl_onesAdd_mod (ws : List ℕ) (a : ℕ) :
    ws.foldl onesAdd a % 65535 = (a + ws.sum) % 65535 := by
  induction ws generalizing a with
  | nil => simp
  | cons w ws ih =>
    rw [List.foldl_cons, ih, Nat.add_mod, onesAdd_mod, ← Nat.add_mod, List.sum_cons, Nat.add_assoc]

theorem foldl_onesAdd_le (hws : ∀ w ∈ ws, w ≤ 65535) {a : ℕ} (ha : a ≤ 65535) :
    ws.foldl onesAdd a ≤ 65535 := by
  induction ws generalizing a with
  | nil => exact ha
  | cons w ws ih =>
    have hw := hws w List.mem_cons_self
    exact ih (fun v hv => hws v (List.mem_cons_of_mem w hv)) (onesAdd_le ha hw)

theorem foldl_onesAdd_eq_zero (ws : List ℕ) (a : ℕ) :
    ws.foldl onesAdd a = 0 ↔ a = 0 ∧ ws.sum = 0 := by
  induction ws generalizing a with
  | nil => simp
  | cons w ws ih =>
    rw [List.foldl_cons, ih, onesAdd_eq_zero, List.sum_cons, Nat.add_eq_zero_iff, and_assoc]

/-- The sum of words is all ones exactly when their total is a positive multiple of that. -/
theorem onesSum_eq_ones (hws : ∀ w ∈ ws, w ≤ 65535) :
    onesSum ws = 65535 ↔ 0 < ws.sum ∧ 65535 ∣ ws.sum := by
  have hle := foldl_onesAdd_le hws (Nat.zero_le 65535)
  have hmod := foldl_onesAdd_mod ws 0
  have hzero := foldl_onesAdd_eq_zero ws 0
  rw [Nat.zero_add] at hmod
  unfold onesSum
  omega

end

/-- The words of a byte string bring the sum from `init` to all ones. -/
def VerifiesFrom (init : ℕ) (bytes : List U8) : Prop := onesSum (init :: words bytes) = 0xFFFF

theorem verifiesFrom_zero {header : List U8} : VerifiesFrom 0 header ↔ ChecksumOk header := Iff.rfl

theorem onesSum_cons {init : ℕ} (hinit : init ≤ 65535) (ws : List ℕ) :
    onesSum (init :: ws) = ws.foldl onesAdd init := by
  have hzero : onesAdd 0 init = init := by
    rw [onesAdd_eq_ite (Nat.zero_le 65535) hinit, Nat.zero_add, if_neg (Nat.not_lt.mpr hinit)]
  rw [onesSum, List.foldl_cons, hzero]

theorem onesAdd_complement {a : ℕ} (ha : a ≤ 65535) : onesAdd a (65535 - a) = 65535 := by
  unfold onesAdd
  omega

theorem verifiesFrom_fill {init : ℕ} {front back : List U8} {check : U16} (hinit : init ≤ 65535)
    (heven : front.length % 2 = 0)
    (hcheck : onesSum (init :: words (front ++ bytesOf 2 (0 : U16) ++ back) ++
      [number (bytesOf 2 check)]) = 65535) :
    VerifiesFrom init (front ++ bytesOf 2 check ++ back) := by
  have hsplit (c : U16) : (words (front ++ bytesOf 2 c ++ back)).sum =
      (words front).sum + number (bytesOf 2 c) + (words back).sum := by
    rw [List.append_assoc, words_append _ heven, words_append _ (by rw [bytesOf_length]),
      words_bytesOf_two, List.sum_append, List.sum_append, List.sum_singleton, Nat.add_assoc]
  have hblank : number (bytesOf 2 (0 : U16)) = 0 := rfl
  have hword : ∀ w ∈ [number (bytesOf 2 check)], w ≤ 65535 :=
    words_bytesOf_two check ▸ words_le (bytesOf 2 check)
  have hall (bytes : List U8) : ∀ w ∈ init :: words bytes, w ≤ 65535 :=
    List.forall_mem_cons.mpr ⟨hinit, words_le bytes⟩
  have htotal := (onesSum_eq_ones (List.forall_mem_append.mpr ⟨hall _, hword⟩)).mp hcheck
  apply (onesSum_eq_ones (hall _)).mpr
  rw [List.sum_append, List.sum_cons, List.sum_singleton, hsplit, hblank] at htotal
  rw [List.sum_cons, hsplit]
  have harrange : init + ((words front).sum + number (bytesOf 2 check) + (words back).sum) =
      init + ((words front).sum + 0 + (words back).sum) + number (bytesOf 2 check) := by omega
  rwa [harrange]

structure EtherFrame where
  dest : List U8
  source : List U8
  etherType : ℕ
  payload : List U8
  deriving DecidableEq, Repr

def parseEther (data : List U8) : Option EtherFrame := do
  let (dest, data) ← take? 6 data
  let (source, data) ← take? 6 data
  let (etherType, data) ← take? 2 data
  return { dest := dest, source := source, etherType := number etherType, payload := data }

theorem parseEther_append {dest source etherType : List U8} (payload : List U8)
    (hdest : dest.length = 6) (hsource : source.length = 6) (htype : etherType.length = 2) :
    parseEther (dest ++ (source ++ (etherType ++ payload))) =
      some { dest := dest, source := source, etherType := number etherType, payload := payload } := by
  unfold parseEther
  simp only [↓take?_bind _ hdest, ↓take?_bind _ hsource, ↓take?_bind _ htype, Option.pure_def]

/-- A packet, with its header for the checksum. `fragment` has the flags and the offset. -/
structure Ipv4Packet where
  version : ℕ
  ihl : ℕ
  tos : ℕ
  totalLength : ℕ
  ident : ℕ
  fragment : ℕ
  ttl : ℕ
  protocol : ℕ
  saddr : List U8
  daddr : List U8
  options : List U8
  header : List U8
  payload : List U8
  deriving DecidableEq, Repr

def parseIpv4 (packet : List U8) : Option Ipv4Packet := do
  let (first, data) ← take? 1 packet
  let (tos, data) ← take? 1 data
  let (totalLength, data) ← take? 2 data
  let (ident, data) ← take? 2 data
  let (fragment, data) ← take? 2 data
  let (ttl, data) ← take? 1 data
  let (protocol, data) ← take? 1 data
  let (_, data) ← take? 2 data
  let (saddr, data) ← take? 4 data
  let (daddr, data) ← take? 4 data
  let ihl := number first % 16
  if ihl < 5 then none
  else do
    let (options, data) ← take? (4 * ihl - 20) data
    return {
      version := number first / 16
      ihl := ihl
      tos := number tos
      totalLength := number totalLength
      ident := number ident
      fragment := number fragment
      ttl := number ttl
      protocol := number protocol
      saddr := saddr
      daddr := daddr
      options := options
      header := packet.take (4 * ihl)
      payload := data }

theorem parseIpv4_append {first tos ttl protocol : U8}
    {totalLength ident fragment check saddr daddr : List U8} (payload : List U8)
    (hfirst : first.toNat % 16 = 5) (hlength : totalLength.length = 2) (hident : ident.length = 2)
    (hfragment : fragment.length = 2) (hcheck : check.length = 2) (hsaddr : saddr.length = 4)
    (hdaddr : daddr.length = 4) {packet : List U8}
    (hpacket : packet = [first] ++ ([tos] ++ (totalLength ++ (ident ++ (fragment ++ ([ttl] ++
      ([protocol] ++ (check ++ (saddr ++ (daddr ++ payload)))))))))) :
    parseIpv4 packet = some {
      version := first.toNat / 16
      ihl := 5
      tos := tos.toNat
      totalLength := number totalLength
      ident := number ident
      fragment := number fragment
      ttl := ttl.toNat
      protocol := protocol.toNat
      saddr := saddr
      daddr := daddr
      options := []
      header := packet.take 20
      payload := payload } := by
  have hbyte (b : U8) : number [b] = b.toNat := by
    simp [number]
  have hone (b : U8) : [b].length = 1 := rfl
  have hnone (data : List U8) : take? 0 data = some ([], data) := by
    simp [take?]
  unfold parseIpv4
  rw [hpacket]
  -- the fields come off the front one by one, before the rest of the parser is looked at
  simp only [↓take?_bind _ (hone _), ↓take?_bind _ hlength, ↓take?_bind _ hident,
    ↓take?_bind _ hfragment, ↓take?_bind _ hcheck, ↓take?_bind _ hsaddr, ↓take?_bind _ hdaddr,
    Option.bind_eq_bind, Option.bind_some, Option.pure_def, hbyte, hfirst, lt_irrefl, if_false,
    Nat.reduceMul, Nat.sub_self, hnone]

structure UdpDatagram where
  srcPort : List U8
  dstPort : List U8
  length : ℕ
  payload : List U8
  deriving DecidableEq, Repr

def parseUdp (data : List U8) : Option UdpDatagram := do
  let (srcPort, data) ← take? 2 data
  let (dstPort, data) ← take? 2 data
  let (length, data) ← take? 2 data
  let (_, data) ← take? 2 data
  return { srcPort := srcPort, dstPort := dstPort, length := number length, payload := data }

theorem parseUdp_append {srcPort dstPort length check : List U8} (payload : List U8)
    (hsrc : srcPort.length = 2) (hdst : dstPort.length = 2) (hlength : length.length = 2)
    (hcheck : check.length = 2) :
    parseUdp (srcPort ++ (dstPort ++ (length ++ (check ++ payload)))) =
      some { srcPort := srcPort, dstPort := dstPort, length := number length, payload := payload } := by
  unfold parseUdp
  simp only [↓take?_bind _ hsrc, ↓take?_bind _ hdst, ↓take?_bind _ hlength,
    ↓take?_bind _ hcheck, Option.pure_def]

theorem parseUdp_cut {data : List U8} {dgram : UdpDatagram} (h : parseUdp data = some dgram) :
    ∃ header : List U8, header.length = 8 ∧ data = header ++ dgram.payload := by
  unfold parseUdp at h
  obtain ⟨⟨srcPort, rest⟩, hsrc, h⟩ := Option.bind_eq_some_iff.mp h
  obtain ⟨⟨dstPort, rest'⟩, hdst, h⟩ := Option.bind_eq_some_iff.mp h
  obtain ⟨⟨length, rest''⟩, hlength, h⟩ := Option.bind_eq_some_iff.mp h
  obtain ⟨⟨check, payload⟩, hcheck, h⟩ := Option.bind_eq_some_iff.mp h
  obtain rfl := Option.some.inj h
  obtain ⟨hsrcLen, rfl⟩ := take?_eq_some hsrc
  obtain ⟨hdstLen, rfl⟩ := take?_eq_some hdst
  obtain ⟨hlengthLen, rfl⟩ := take?_eq_some hlength
  obtain ⟨hcheckLen, rfl⟩ := take?_eq_some hcheck
  refine ⟨srcPort ++ (dstPort ++ (length ++ check)), ?_, ?_⟩
  · simp only [List.length_append, hsrcLen, hdstLen, hlengthLen, hcheckLen]
  · simp only [List.append_assoc]

end Madcap.Inet
