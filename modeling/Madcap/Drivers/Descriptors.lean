import Madcap.Drivers.NeverBare

/-!
# The descriptors of a packet

What `e1000_xmit_frame` does once it has found room: the context of an offload and
`e1000_tx_map`, which cuts a packet into pieces and fills a slot of the ring for each. The
room is asked for by the length that the packet had before it was encapsulated.
-/

namespace Madcap

/-- What `e1000_tx_map` writes to `tx_ring->buffer_info[slot]`. -/
structure E1000TxBuffer where
  slot : ℕ
  length : U32
  mappedAsPage : Bool
  deriving DecidableEq, Repr

/-- What the mapping of a packet meets: the address of its data, those of the pages of its
fragments, and whether a piece can be mapped, by the number of pieces before it. -/
structure E1000Dma where
  data : U64
  page : ℕ → U64
  maps : ℕ → Bool

/-- The variables of `e1000_tx_map` with the flag of the ring and what has been written. -/
structure E1000Mapping where
  i : ℕ
  count : ℕ
  lastTxTso : Bool
  filled : List E1000TxBuffer

/-- Why a mapping stops: at `dma_error`, or because a loop of the model has had its rounds. -/
inductive E1000MapStop where
  | dmaError (m : E1000Mapping)
  | outOfRounds

/-- The slot after `i`. -/
def E1000TxRing.next (r : E1000TxRing) (i : ℕ) : ℕ := if i + 1 = r.count then 0 else i + 1

namespace E1000Mapping

/-- The erratum about packets in linear memory behind a segmented one. -/
def followsTso (m : E1000Mapping) (p : TxPacket) : Bool :=
  p.dataLen = 0 && m.lastTxTso && p.gsoSize = 0

def fill (m : E1000Mapping) (dma : E1000Dma) (size : U32) (mappedAsPage : Bool) :
    Except E1000MapStop E1000Mapping :=
  let buffer : E1000TxBuffer := { slot := m.i, length := size, mappedAsPage := mappedAsPage }
  let m' := { m with filled := m.filled ++ [buffer] }
  if dma.maps m.count then .ok { m' with count := m.count + 1 } else .error (.dmaError m')

end E1000Mapping

namespace E1000Adapter

/-- `max_per_txd`, which `e1000_xmit_frame` hands to `e1000_tx_map`. -/
def maxPerTxd (p : TxPacket) : U32 :=
  if p.gsoSize ≠ 0 then BitVec.ofNat 32 (min (p.gsoSize <<< 2) E1000_MAX_DATA_PER_TXD)
  else BitVec.ofNat 32 E1000_MAX_DATA_PER_TXD

/-- The size of the next piece of the linear data, after the four workarounds. -/
def linearSize (a : E1000Adapter) (dma : E1000Dma) (p : TxPacket) (m : E1000Mapping)
    (len offset : U32) : U32 :=
  let size := if len < maxPerTxd p then len else maxPerTxd p
  let size := if m.followsTso p then size - 4 else size
  let size :=
    if p.gsoSize ≠ 0 && p.frags.isEmpty && size = len && size > 8 then size - 4 else size
  let size := if a.busTypePcix && size > 2015 && m.count = 0 then 2015 else size
  let bufend := dma.data + offset.setWidth 64 + size.setWidth 64 - 1
  if a.pcix82544 && bufend &&& 4 = 0 && size > 4 then size - 4 else size

/-- The loop of `e1000_tx_map` over the linear data. -/
def mapLinear (a : E1000Adapter) (dma : E1000Dma) (p : TxPacket) :
    ℕ → U32 → U32 → E1000Mapping → Except E1000MapStop E1000Mapping
  | 0, _, _, _ => throw .outOfRounds
  | rounds + 1, len, offset, m =>
    if len = 0 then return m
    else do
      let size := a.linearSize dma p m len offset
      let m := if m.followsTso p then { m with lastTxTso := false } else m
      let m ← m.fill dma size false
      let m := if len - size ≠ 0 then { m with i := a.txRing.next m.i } else m
      mapLinear a dma p rounds (len - size) (offset + size) m

/-- The size of the next piece of fragment `f`. -/
def fragSize (a : E1000Adapter) (dma : E1000Dma) (p : TxPacket) (f : ℕ) (len offset : U32) : U32 :=
  let size := if len < maxPerTxd p then len else maxPerTxd p
  let size :=
    if p.gsoSize ≠ 0 && f + 1 = p.frags.length && size = len && size > 8 then size - 4 else size
  let bufend := dma.page f + offset.setWidth 64 + size.setWidth 64 - 1
  if a.pcix82544 && bufend &&& 4 = 0 && size > 4 then size - 4 else size

/-- The loop of `e1000_tx_map` over one fragment. -/
def mapFrag (a : E1000Adapter) (dma : E1000Dma) (p : TxPacket) (f : ℕ) :
    ℕ → U32 → U32 → E1000Mapping → Except E1000MapStop E1000Mapping
  | 0, _, _, _ => throw .outOfRounds
  | rounds + 1, len, offset, m =>
    if len = 0 then return m
    else do
      let size := a.fragSize dma p f len offset
      let m ← { m with i := a.txRing.next m.i }.fill dma size true
      mapFrag a dma p f rounds (len - size) (offset + size) m

/-- Enough rounds for pieces that are not empty, and one more. -/
def rounds (len : U32) : ℕ := len.toNat + 2

/-- The loop of `e1000_tx_map` over the fragments. -/
def mapFrags (a : E1000Adapter) (dma : E1000Dma) (p : TxPacket) :
    ℕ → List (List U8) → E1000Mapping → Except E1000MapStop E1000Mapping
  | _, [], m => return m
  | f, frag :: frags, m => do
    let len := BitVec.ofNat 32 frag.length
    let m ← a.mapFrag dma p f (rounds len) len 0 m
    mapFrags a dma p (f + 1) frags m

/-- `e1000_tx_map`: what it returns and what it has done. After an error it takes the mappings
back and returns 0. -/
def e1000TxMap (a : E1000Adapter) (dma : E1000Dma) (p : TxPacket) : Option (ℕ × E1000Mapping) :=
  let len := BitVec.ofNat 32 p.data.length
  let m : E1000Mapping :=
    { i := a.txRing.nextToUse, count := 0, lastTxTso := a.txRing.lastTxTso, filled := [] }
  match a.mapLinear dma p (rounds len) len 0 m >>= a.mapFrags dma p 0 p.frags with
  | .ok m => some (m.count, m)
  | .error (.dmaError m) => some (0, m)
  | .error .outOfRounds => none

end E1000Adapter

/-- `e1000_tso`, which takes a slot for the context of a segmented packet. -/
def e1000Tso (r : E1000TxRing) (p : TxPacket) (cow : Bool) : ℤ × E1000TxRing :=
  if p.gsoSize = 0 then (0, r)
  else if cow then (1, { r with nextToUse := r.next r.nextToUse })
  else (-ENOMEM, r)

/-- `e1000_tx_csum`, which takes a slot for the context of a checksum. -/
def e1000TxCsum (r : E1000TxRing) (p : TxPacket) : Bool × E1000TxRing :=
  if p.csumPartial then (true, { r with nextToUse := r.next r.nextToUse }) else (false, r)

/-- What becomes of the ring: whether the packet is on it, and the slots that were written. -/
structure E1000Use where
  ring : E1000TxRing
  mapped : Bool
  slots : List ℕ
  deriving DecidableEq, Repr

/-- `e1000_xmit_frame` behind the check for room. `cow` says whether `skb_cow_head` succeeds. -/
def E1000Adapter.useRing (a : E1000Adapter) (dma : E1000Dma) (cow : Bool) (p : TxPacket) :
    Option E1000Use :=
  let first := a.txRing.nextToUse
  let (tso, ring) := e1000Tso a.txRing p cow
  if tso < 0 then some { ring := ring, mapped := false, slots := [] }
  else
    let (csum, ring) :=
      if tso ≠ 0 then
        (false, if a.macType ≠ .e1000_82544 then { ring with lastTxTso := true } else ring)
      else e1000TxCsum ring p
    let contexts := if tso ≠ 0 || csum then [first] else []
    match { a with txRing := ring }.e1000TxMap dma p with
    | none => none
    | some (count, m) =>
      let ring := { ring with lastTxTso := m.lastTxTso }
      let slots := contexts ++ m.filled.map E1000TxBuffer.slot
      if count ≠ 0 then
        let ring := { ring with nextToUse := ring.next^[count] ring.nextToUse }
        some { ring := ring, mapped := true, slots := slots }
      else
        some { ring := { ring with nextToUse := first }, mapped := false, slots := slots }

/-- `e1000_xmit_frame` up to the check for room: the adapter, the packet and the length that
the descriptors are counted for. -/
def e1000Ready (env : Env) (a : E1000Adapter) (io : E1000Io) (p : TxPacket) :
    Res (Option (E1000Adapter × TxPacket × ℕ)) := do
  let len := p.data.length
  let (_, skb, s) ← a.sfmc.e1000SfmcEncapPacket env p.skb
  let a := { a with sfmc := s }
  return ((p.withSkb skb).skbPutPadto ETH_ZLEN io.padGrant).bind fun p =>
    (a.tsoPull io p len).map fun (p, len) => (a, p, len)

section

variable {env : Env} {a a' : E1000Adapter} {io : E1000Io} {p q : TxPacket} {len : ℕ}

theorem e1000Ready_cases (h : e1000Ready env a io p = .ok (some (a', q, len))) :
    ∃ err out s r, a.sfmc.e1000SfmcEncapPacket env p.skb = .ok (err, out, s) ∧
      a' = { a with sfmc := s } ∧ (p.withSkb out).skbPutPadto ETH_ZLEN io.padGrant = some r ∧
      a'.tsoPull io r p.data.length = some (q, len) := by
  unfold e1000Ready at h
  obtain ⟨⟨err, out, s⟩, henc, hrest⟩ := bind_eq_ok.mp h
  obtain ⟨r, hpad, hmap⟩ := Option.bind_eq_some_iff.mp (Except.ok.inj hrest)
  obtain ⟨⟨r', n⟩, hpull, heq⟩ := Option.map_eq_some_iff.mp hmap
  simp only [Prod.mk.injEq] at heq
  obtain ⟨rfl, rfl, rfl⟩ := heq
  exact ⟨err, out, s, r, henc, rfl, hpad, hpull⟩

theorem e1000Ready_xmitFrame (h : e1000Ready env a io p = .ok (some (a', q, len))) :
    e1000XmitFrame env a io p = .ok (a'.xmitReady io q len) := by
  obtain ⟨err, out, s, r, henc, rfl, hpad, hpull⟩ := e1000Ready_cases h
  unfold e1000XmitFrame
  rw [henc]
  dsimp only [bind, Except.bind]
  rw [hpad]
  dsimp only
  rw [hpull]
  rfl

theorem TxPacket.skbPutPadto_gsoSize {n : ℕ} {grant : Grant}
    (h : p.skbPutPadto n grant = some q) : q.gsoSize = p.gsoSize := by
  unfold TxPacket.skbPutPadto at h
  split_ifs at h
  · obtain ⟨tail, -, rfl⟩ := Option.map_eq_some_iff.mp h
    rfl
  · obtain rfl := Option.some.inj h
    rfl

theorem TxPacket.skbPutPadto_data {n : ℕ} {grant : Grant} (h : p.skbPutPadto n grant = some q) :
    q.data.length ≤ max p.data.length n ∧ (q.dataLen = 0 → n ≤ q.data.length) := by
  have hlen : p.skb.len = p.data.length + p.dataLen := rfl
  unfold TxPacket.skbPutPadto at h
  split_ifs at h with hshort
  · obtain ⟨tail, -, rfl⟩ := Option.map_eq_some_iff.mp h
    have hfull : (p.bytes ++ List.replicate (n - p.skb.len) 0).length = n := by
      rw [List.length_append, bytes_length, List.length_replicate]
      omega
    exact ⟨hfull.trans_le (le_max_right _ _), fun _ => hfull.ge⟩
  · obtain rfl := Option.some.inj h
    exact ⟨le_max_left _ _, fun hzero => by omega⟩

theorem e1000SfmcEncapPacket_grows {s s' : Sfmc} {err : ℤ} {out : SkBuff}
    (h : s.e1000SfmcEncapPacket env p.skb = .ok (err, out, s')) :
    (p.withSkb out).data.length ≤ p.data.length + 42 := by
  rcases Sfmc.e1000SfmcEncapPacket_leaves h with hout | ⟨rfl, -⟩
  · obtain ⟨hdr, -, houter, hbytes⟩ := hout.bytes
    rw [TxPacket.withSkb_bytes] at hbytes
    have hlen := congrArg List.length hbytes
    simp only [TxPacket.bytes, List.length_append] at hlen
    have hdata : (p.withSkb out).data.length = out.data.length := rfl
    rcases houter.length with h34 | h42 <;> omega
  · exact Nat.le_add_right _ _

/-- What is ready of a packet that is not segmented. -/
structure E1000Adapter.Counts (a : E1000Adapter) (p : TxPacket) (a' : E1000Adapter)
    (q : TxPacket) (len : ℕ) : Prop where
  plain : q.gsoSize = 0
  device : a'.pcix82544 = a.pcix82544
  counted : len = p.data.length
  grown : q.data.length ≤ max (p.data.length + 42) ETH_ZLEN
  padded : q.dataLen = 0 → ETH_ZLEN ≤ q.data.length

theorem e1000Ready_counts (hplain : p.gsoSize = 0)
    (h : e1000Ready env a io p = .ok (some (a', q, len))) : a.Counts p a' q len := by
  obtain ⟨err, out, s, r, henc, rfl, hpad, hpull⟩ := e1000Ready_cases h
  have hgso : r.gsoSize = 0 := (TxPacket.skbPutPadto_gsoSize hpad).trans hplain
  have hstay : r = q ∧ p.data.length = len := by
    simpa [E1000Adapter.tsoPull, hgso] using hpull
  obtain ⟨rfl, rfl⟩ := hstay
  obtain ⟨hgrown, hpadded⟩ := TxPacket.skbPutPadto_data hpad
  exact {
    plain := hgso
    device := rfl
    counted := rfl
    grown := hgrown.trans (max_le_max_right _ (e1000SfmcEncapPacket_grows henc))
    padded := hpadded }

end

theorem E1000_MAX_DATA_PER_TXD_eq : E1000_MAX_DATA_PER_TXD = 4096 := rfl

/-- The pieces that `len` bytes make when each but the last is as long as it may be. -/
def txdPieces (len : ℕ) : ℕ := (len + (E1000_MAX_DATA_PER_TXD - 1)) / E1000_MAX_DATA_PER_TXD

theorem txdPieces_sub {len size : U32} (hne : len ≠ 0)
    (hsize : size.toNat = min len.toNat E1000_MAX_DATA_PER_TXD) :
    (len - size).toNat < len.toNat ∧ txdPieces (len - size).toNat + 1 = txdPieces len.toNat := by
  have hpos : len.toNat ≠ 0 := fun h => hne (BitVec.eq_of_toNat_eq h)
  rw [BitVec.toNat_sub_of_le (hsize.trans_le (min_le_left _ _)), hsize]
  simp only [txdPieces, E1000_MAX_DATA_PER_TXD_eq]
  omega

theorem txdPieces_mono {len len' : ℕ} (h : len ≤ len') : txdPieces len ≤ txdPieces len' :=
  Nat.div_le_div_right (Nat.add_le_add_right h _)

/-- A mapping that stops has written at most `n` slots. -/
def E1000MapStop.Within (n : ℕ) : E1000MapStop → Prop
  | .dmaError m => m.filled.length ≤ n
  | .outOfRounds => False

namespace E1000Adapter

variable {a : E1000Adapter} {dma : E1000Dma} {p : TxPacket} {m : E1000Mapping} {n : ℕ}

theorem txdPieces_le_useCount (len : ℕ) : txdPieces len ≤ txdUseCount len E1000_MAX_TXD_PWR := by
  simp only [txdPieces, txdUseCount, E1000_MAX_DATA_PER_TXD_eq, E1000_MAX_TXD_PWR,
    Nat.shiftRight_eq_div_pow]
  omega

theorem fill_within (size : U32) (mappedAsPage : Bool) (h : m.filled.length < n) :
    Ensures (E1000MapStop.Within n) (m.fill dma size mappedAsPage) fun m' =>
      m'.filled.length = m.filled.length + 1 ∧ m'.count = m.count + 1 ∧
        m'.lastTxTso = m.lastTxTso := by
  have hlen (b : E1000TxBuffer) : (m.filled ++ [b]).length = m.filled.length + 1 := by simp
  unfold E1000Mapping.fill
  split_ifs
  · exact ⟨hlen _, rfl, rfl⟩
  · exact (hlen _).trans_le h

theorem min_maxPerTxd (hplain : p.gsoSize = 0) (len : U32) :
    (if len < maxPerTxd p then len else maxPerTxd p).toNat =
      min len.toNat E1000_MAX_DATA_PER_TXD := by
  have hmax : (maxPerTxd p).toNat = E1000_MAX_DATA_PER_TXD := by
    rw [maxPerTxd, if_neg (not_not.mpr hplain)]
    rfl
  split_ifs with h
  · rw [BitVec.lt_def] at h
    omega
  · rw [BitVec.lt_def] at h
    omega

theorem fragSize_plain (hplain : p.gsoSize = 0) (hdevice : a.pcix82544 = false) (f : ℕ)
    (len offset : U32) :
    (a.fragSize dma p f len offset).toNat = min len.toNat E1000_MAX_DATA_PER_TXD := by
  rw [← min_maxPerTxd hplain len]
  simp [fragSize, hplain, hdevice]

theorem mapFrag_within (hplain : p.gsoSize = 0) (hdevice : a.pcix82544 = false) (f : ℕ)
    {rounds : ℕ} {len offset : U32} (hrounds : len.toNat < rounds)
    (h : m.filled.length + txdPieces len.toNat ≤ n) :
    Ensures (E1000MapStop.Within n) (a.mapFrag dma p f rounds len offset m) fun m' =>
      m'.filled.length ≤ m.filled.length + txdPieces len.toNat := by
  induction rounds generalizing len offset m with
  | zero => omega
  | succ rounds ih =>
    unfold mapFrag
    split_ifs with hzero
    · exact Nat.le_add_right _ _
    · have hsize : (a.fragSize dma p f len offset).toNat =
          min len.toNat E1000_MAX_DATA_PER_TXD := fragSize_plain hplain hdevice f len offset
      obtain ⟨hless, hpieces⟩ := txdPieces_sub hzero hsize
      refine (fill_within _ true (by dsimp only; omega)).bind fun m' hm' => ?_
      obtain ⟨hfilled, -, -⟩ := hm'
      dsimp only at hfilled
      refine (ih ?_ ?_).mono fun m'' hm'' => ?_
      · omega
      · omega
      · omega

theorem mapFrags_within (hplain : p.gsoSize = 0) (hdevice : a.pcix82544 = false) (f : ℕ)
    (frags : List (List U8))
    (h : m.filled.length +
      (frags.map fun frag => txdUseCount frag.length E1000_MAX_TXD_PWR).sum ≤ n) :
    Ensures (E1000MapStop.Within n) (a.mapFrags dma p f frags m) fun m' =>
      m'.filled.length ≤ n := by
  induction frags generalizing f m with
  | nil => exact h
  | cons frag frags ih =>
    unfold mapFrags
    rw [List.map_cons, List.sum_cons] at h
    have hcut : (BitVec.ofNat 32 frag.length).toNat ≤ frag.length := Nat.mod_le _ _
    have hpieces := (txdPieces_le_useCount _).trans' (txdPieces_mono hcut)
    refine (mapFrag_within hplain hdevice f ?_ ?_).bind fun m' hm' => ih _ ?_
    · exact Nat.lt_add_of_pos_right two_pos
    · omega
    · omega

/-- The piece of linear data that `e1000_tx_map` takes first. -/
def pieceSize (a : E1000Adapter) (p : TxPacket) (m : E1000Mapping) (len : ℕ) : ℕ :=
  let size := min len E1000_MAX_DATA_PER_TXD
  let size := if m.followsTso p then size - 4 else size
  if a.busTypePcix ∧ size > 2015 ∧ m.count = 0 then 2015 else size

theorem linearSize_plain (hplain : p.gsoSize = 0) (hdevice : a.pcix82544 = false)
    {len offset : U32} (hlong : m.followsTso p → 4 ≤ len.toNat) :
    (a.linearSize dma p m len offset).toNat = a.pieceSize p m len.toNat := by
  have hmin := min_maxPerTxd hplain len
  unfold pieceSize
  rw [← hmin]
  simp only [linearSize, hplain, hdevice, ne_eq, not_true_eq_false, decide_false,
    Bool.false_and, Bool.false_eq_true, if_false]
  generalize (if len < maxPerTxd p then len else maxPerTxd p) = size at hmin ⊢
  have hcut : (if m.followsTso p then size - 4 else size).toNat =
      if m.followsTso p then size.toNat - 4 else size.toNat := by
    split_ifs with h
    · have hfour : (4 : U32) ≤ size := by
        rw [BitVec.le_def, hmin, E1000_MAX_DATA_PER_TXD_eq]
        exact le_min (hlong h) (by decide)
      exact BitVec.toNat_sub_of_le hfour
    · rfl
  rw [← hcut]
  generalize (if m.followsTso p then size - 4 else size) = size
  have hlt : size > 2015 ↔ size.toNat > 2015 := BitVec.lt_def
  simp only [Bool.and_eq_true, decide_eq_true_eq, hlt, and_assoc]
  split_ifs <;> rfl

/-- One round over the linear data writes one slot and leaves the errata behind. -/
theorem mapLinear_round {Q : E1000Mapping → Prop} {rounds : ℕ} {len offset : U32}
    (hne : len ≠ 0) (hroom : m.filled.length < n)
    (hrest : ∀ m', m'.filled.length = m.filled.length + 1 → m'.count ≠ 0 →
      m'.followsTso p = false →
      Ensures (E1000MapStop.Within n)
        (a.mapLinear dma p rounds (len - a.linearSize dma p m len offset)
          (offset + a.linearSize dma p m len offset) m') Q) :
    Ensures (E1000MapStop.Within n) (a.mapLinear dma p (rounds + 1) len offset m) Q := by
  have hflag :
      (if m.followsTso p then { m with lastTxTso := false } else m).followsTso p = false := by
    by_cases h : m.followsTso p
    · rw [if_pos h]
      simp [E1000Mapping.followsTso]
    · rw [if_neg h]
      exact Bool.eq_false_iff.mpr h
  have hfilled :
      (if m.followsTso p then { m with lastTxTso := false } else m).filled = m.filled := by
    split_ifs <;> rfl
  unfold mapLinear
  rw [if_neg hne]
  dsimp only
  refine (fill_within _ false (by rw [hfilled]; exact hroom)).bind fun m' hm' => ?_
  obtain ⟨hone, hcount, htso⟩ := hm'
  rw [hfilled] at hone
  have hfollows : m'.followsTso p = false := by
    rw [← hflag, E1000Mapping.followsTso, E1000Mapping.followsTso, htso]
  split_ifs
  · exact hrest _ hone (by dsimp only; omega) hfollows
  · exact hrest _ hone (by omega) hfollows

theorem mapLinear_within (hplain : p.gsoSize = 0) (hdevice : a.pcix82544 = false)
    {rounds : ℕ} {len offset : U32} (hrounds : len.toNat < rounds)
    (hfollows : m.followsTso p = false) (hfirst : a.busTypePcix = false ∨ m.count ≠ 0)
    (h : m.filled.length + txdPieces len.toNat ≤ n) :
    Ensures (E1000MapStop.Within n) (a.mapLinear dma p rounds len offset m) fun m' =>
      m'.filled.length ≤ m.filled.length + txdPieces len.toNat := by
  induction rounds generalizing len offset m with
  | zero => omega
  | succ rounds ih =>
    by_cases hzero : len = 0
    · unfold mapLinear
      rw [if_pos hzero]
      exact Nat.le_add_right _ _
    · have hsize : (a.linearSize dma p m len offset).toNat =
          min len.toNat E1000_MAX_DATA_PER_TXD := by
        rw [linearSize_plain hplain hdevice (by simp [hfollows]), pieceSize, hfollows]
        rcases hfirst with hbus | hcount
        · simp [hbus]
        · simp [hcount]
      obtain ⟨hless, hpieces⟩ := txdPieces_sub hzero hsize
      refine mapLinear_round hzero (by omega) fun m' hfilled hcount hfollows' => ?_
      refine (ih ?_ hfollows' (.inr hcount) ?_).mono fun m'' hm'' => ?_
      · omega
      · omega
      · omega

/-- What is counted for the linear data of a packet that is not segmented. -/
def linearCount (a : E1000Adapter) (m : E1000Mapping) (p : TxPacket) (len : ℕ) : ℕ :=
  1 + (if m.followsTso p then 1 else 0) + txdUseCount len E1000_MAX_TXD_PWR +
    if a.busTypePcix ∧ len > 2015 then 1 else 0

/-- The first piece and those behind it are counted, although the length was taken before the
headers or the padding were added. -/
theorem pieces_le_linearCount {counted len : ℕ} (hlong : m.followsTso p → ETH_ZLEN ≤ len)
    (hgrown : len ≤ max (counted + 42) ETH_ZLEN) :
    txdPieces (len - a.pieceSize p m len) + 1 ≤ a.linearCount m p counted := by
  simp only [ETH_ZLEN] at hlong hgrown
  simp only [linearCount, pieceSize, txdPieces, txdUseCount, E1000_MAX_DATA_PER_TXD_eq,
    E1000_MAX_TXD_PWR, Nat.shiftRight_eq_div_pow]
  by_cases hfollows : m.followsTso p
  · have := hlong hfollows
    simp only [if_pos hfollows]
    split_ifs <;> omega
  · simp only [if_neg hfollows]
    split_ifs <;> omega

theorem pieceSize_le {len : ℕ} (hne : len ≠ 0) (hlong : m.followsTso p → ETH_ZLEN ≤ len) :
    0 < a.pieceSize p m len ∧ a.pieceSize p m len ≤ len := by
  simp only [ETH_ZLEN] at hlong
  simp only [pieceSize, E1000_MAX_DATA_PER_TXD_eq]
  by_cases hfollows : m.followsTso p
  · have := hlong hfollows
    simp only [if_pos hfollows]
    split_ifs <;> omega
  · simp only [if_neg hfollows]
    split_ifs <;> omega

theorem mapLinear_counted (hplain : p.gsoSize = 0) (hdevice : a.pcix82544 = false)
    {rounds counted : ℕ} {len offset : U32} (hrounds : len.toNat < rounds)
    (hlong : m.followsTso p → ETH_ZLEN ≤ len.toNat)
    (hgrown : len.toNat ≤ max (counted + 42) ETH_ZLEN)
    (h : m.filled.length + a.linearCount m p counted ≤ n) :
    Ensures (E1000MapStop.Within n) (a.mapLinear dma p rounds len offset m) fun m' =>
      m'.filled.length ≤ m.filled.length + a.linearCount m p counted := by
  obtain ⟨rounds, rfl⟩ := Nat.exists_eq_add_one_of_ne_zero (Nat.ne_zero_of_lt hrounds)
  by_cases hzero : len = 0
  · unfold mapLinear
    rw [if_pos hzero]
    exact Nat.le_add_right _ _
  · have hne : len.toNat ≠ 0 := fun h => hzero (BitVec.eq_of_toNat_eq h)
    have hsize : (a.linearSize dma p m len offset).toNat = a.pieceSize p m len.toNat :=
      linearSize_plain hplain hdevice fun h => le_trans (by decide) (hlong h)
    obtain ⟨hpos, hle⟩ := pieceSize_le (a := a) hne hlong
    have hcounted := pieces_le_linearCount (a := a) hlong hgrown
    have hleft := BitVec.toNat_sub_of_le (hsize.trans_le hle)
    rw [hsize] at hleft
    refine mapLinear_round hzero (by omega) fun m' hfilled hcount hfollows => ?_
    refine (mapLinear_within hplain hdevice ?_ hfollows (.inr hcount) ?_).mono fun m'' hm'' => ?_
    · omega
    · rw [hleft]
      omega
    · rw [hleft] at hm''
      omega

theorem txdCount_plain (hplain : p.gsoSize = 0) (hdevice : a.pcix82544 = false)
    (htso : m.lastTxTso = a.txRing.lastTxTso) (len : ℕ) :
    a.txdCount p len = (if p.csumPartial then 1 else 0) + a.linearCount m p len +
      (p.frags.map fun frag => txdUseCount frag.length E1000_MAX_TXD_PWR).sum := by
  have hfollows : m.followsTso p = (p.dataLen = 0 && a.txRing.lastTxTso) := by
    simp [E1000Mapping.followsTso, htso, hplain]
  simp only [txdCount, linearCount, hfollows, hplain, hdevice]
  simp
  split_ifs <;> omega

/-- What is counted covers what `e1000_tx_map` writes, to the last slot before an error. -/
theorem e1000TxMap_counted (hplain : p.gsoSize = 0) (hdevice : a.pcix82544 = false) {counted : ℕ}
    (hlen : p.data.length < 2 ^ 32) (hgrown : p.data.length ≤ max (counted + 42) ETH_ZLEN)
    (hpadded : p.dataLen = 0 → ETH_ZLEN ≤ p.data.length) :
    ∃ count m, a.e1000TxMap dma p = some (count, m) ∧
      (if p.csumPartial then 1 else 0) + m.filled.length ≤ a.txdCount p counted := by
  obtain ⟨start, hstart⟩ : ∃ m : E1000Mapping, m =
    { i := a.txRing.nextToUse, count := 0, lastTxTso := a.txRing.lastTxTso, filled := [] } :=
    ⟨_, rfl⟩
  have hnil : start.filled.length = 0 := by rw [hstart]; rfl
  have hcount := txdCount_plain (m := start) hplain hdevice (by rw [hstart]) counted
  have hwhole : (BitVec.ofNat 32 p.data.length).toNat = p.data.length := Nat.mod_eq_of_lt hlen
  -- the linear data first, then the fragments on what is left of the count
  have hmap : Ensures
      (E1000MapStop.Within (a.txdCount p counted - if p.csumPartial then 1 else 0))
      (a.mapLinear dma p (rounds (BitVec.ofNat 32 p.data.length)) (BitVec.ofNat 32 p.data.length) 0
        start >>= a.mapFrags dma p 0 p.frags)
      fun m => m.filled.length ≤ a.txdCount p counted - if p.csumPartial then 1 else 0 := by
    refine (mapLinear_counted hplain hdevice ?_ ?_ (hwhole.trans_le hgrown) ?_).bind fun m hm => ?_
    · exact Nat.lt_add_of_pos_right two_pos
    · intro hfollows
      rw [hwhole]
      simp only [E1000Mapping.followsTso, Bool.and_eq_true, decide_eq_true_eq] at hfollows
      exact hpadded hfollows.1.1
    · omega
    · exact mapFrags_within hplain hdevice 0 p.frags (by omega)
  unfold e1000TxMap
  dsimp only
  rw [← hstart]
  generalize a.mapLinear dma p (rounds (BitVec.ofNat 32 p.data.length))
    (BitVec.ofNat 32 p.data.length) 0 start >>= a.mapFrags dma p 0 p.frags = x at hmap ⊢
  cases x with
  | ok m =>
    have hm := ensures_ok.mp hmap
    exact ⟨m.count, m, rfl, by omega⟩
  | error stop =>
    cases stop with
    | dmaError m =>
      have hm : m.filled.length ≤ a.txdCount p counted - if p.csumPartial then 1 else 0 := hmap
      exact ⟨0, m, rfl, by omega⟩
    | outOfRounds =>
      have hnever : False := hmap
      exact hnever.elim

theorem txdCount_withRing {ring : E1000TxRing} (htso : ring.lastTxTso = a.txRing.lastTxTso)
    (len : ℕ) : { a with txRing := ring }.txdCount p len = a.txdCount p len := by
  simp only [txdCount, htso]

theorem useRing_counted (cow : Bool) (hplain : p.gsoSize = 0) (hdevice : a.pcix82544 = false)
    {counted : ℕ} (hlen : p.data.length < 2 ^ 32)
    (hgrown : p.data.length ≤ max (counted + 42) ETH_ZLEN)
    (hpadded : p.dataLen = 0 → ETH_ZLEN ≤ p.data.length) :
    ∃ use, a.useRing dma cow p = some use ∧ use.slots.length ≤ a.txdCount p counted := by
  obtain ⟨csum, ring, hcsum⟩ : ∃ csum ring, e1000TxCsum a.txRing p = (csum, ring) := ⟨_, _, rfl⟩
  have hcontext : csum = p.csumPartial ∧ ring.lastTxTso = a.txRing.lastTxTso := by
    unfold e1000TxCsum at hcsum
    split_ifs at hcsum with h
    · obtain ⟨rfl, rfl⟩ := Prod.mk.inj hcsum
      exact ⟨h.symm, rfl⟩
    · obtain ⟨rfl, rfl⟩ := Prod.mk.inj hcsum
      exact ⟨(Bool.eq_false_iff.mpr h).symm, rfl⟩
  obtain ⟨rfl, htso⟩ := hcontext
  obtain ⟨count, m, hmap, hcount⟩ :
      ∃ count m, { a with txRing := ring }.e1000TxMap dma p = some (count, m) ∧
        (if p.csumPartial then 1 else 0) + m.filled.length ≤ a.txdCount p counted := by
    rw [← txdCount_withRing htso]
    exact e1000TxMap_counted (a := { a with txRing := ring }) hplain hdevice hlen hgrown hpadded
  have hslots : ((if p.csumPartial then [a.txRing.nextToUse] else []) ++
      m.filled.map E1000TxBuffer.slot).length ≤ a.txdCount p counted := by
    rw [List.length_append, List.length_map, apply_ite List.length]
    exact hcount
  have htsoNone : e1000Tso a.txRing p cow = (0, a.txRing) := if_pos hplain
  unfold useRing
  simp only [htsoNone, hcsum, lt_irrefl, if_false, ne_eq, not_true_eq_false, decide_false,
    Bool.false_or, hmap]
  by_cases hnone : count = 0
  · rw [if_neg (not_not.mpr hnone)]
    exact ⟨_, rfl, hslots⟩
  · rw [if_pos hnone]
    exact ⟨_, rfl, hslots⟩

end E1000Adapter

/-- The count for which `e1000_xmit_frame` looks for room is enough for a packet that is not
segmented, although its length was read before it was encapsulated and padded. The two more
that are asked for stay free. -/
theorem slots_counted {env : Env} {a a' : E1000Adapter} {io : E1000Io} {p q : TxPacket} {len : ℕ}
    (dma : E1000Dma) (cow : Bool) (hplain : p.gsoSize = 0) (hlen : p.data.length ≤ 65000)
    (hdevice : a.pcix82544 = false) (h : e1000Ready env a io p = .ok (some (a', q, len))) :
    e1000XmitFrame env a io p = .ok (a'.xmitReady io q len) ∧
      ∃ use, a'.useRing dma cow q = some use ∧ use.slots.length ≤ a'.txdCount q len := by
  have hready := e1000Ready_counts hplain h
  obtain rfl := hready.counted
  have hlong : q.data.length < 2 ^ 32 := by
    have hgrown := hready.grown
    simp only [ETH_ZLEN] at hgrown
    omega
  refine ⟨e1000Ready_xmitFrame h, ?_⟩
  exact E1000Adapter.useRing_counted cow hready.plain (hready.device.trans hdevice) hlong
    hready.grown hready.padded

def mappedMemory : E1000Dma where
  data := 0
  page := fun _ => 0
  maps := fun _ => true

/-- An adapter in PCI-X mode that has just sent a segmented packet. -/
def pcixAdapter : E1000Adapter :=
  { e1000At readyDevice with
    busTypePcix := true
    txRing := { count := 256, nextToUse := 3, nextToClean := 0, lastTxTso := true } }

/-- An encapsulated packet that wants its checksum filled in. -/
theorem slots_counted_encapsulated : ∃ a q len,
    e1000Ready oneBucket pcixAdapter e1000Attempt { retriedPacket with csumPartial := true } =
      .ok (some (a, q, len)) ∧
    e1000XmitFrame oneBucket pcixAdapter e1000Attempt { retriedPacket with csumPartial := true } =
      .ok (a.xmitReady e1000Attempt q len) ∧
    ∃ use, a.useRing mappedMemory true q = some use ∧ use.slots.length ≤ a.txdCount q len :=
  ⟨_, _, _, rfl, slots_counted mappedMemory true rfl (by decide) rfl
    (rfl : e1000Ready oneBucket pcixAdapter e1000Attempt
      { retriedPacket with csumPartial := true } = _)⟩

example : ((e1000Ready oneBucket pcixAdapter e1000Attempt
    { retriedPacket with csumPartial := true }).toOption.bind id).bind
      (fun (a, q, len) => (a.useRing mappedMemory true q).map fun use =>
        (len, q.data.length, use.slots, a.txdCount q len)) = some (60, 94, [3, 4, 5], 4) := by
  rfl

end Madcap
