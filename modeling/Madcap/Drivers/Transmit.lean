import Madcap.Sfmc.Device

/-!
# Transmission

`e1000_xmit_frame` and `ixgbe_xmit_frame` up to the point where a packet goes on
the ring, is freed, or is handed back with `NETDEV_TX_BUSY`. The offload and
mapping steps that fill the descriptors come after that point: whether they
succeed, and the ring they leave, are inputs of an attempt. So are the answers of
the allocator and what a second look at the ring finds.
-/

namespace Madcap

/-- A socket buffer with its page fragments and offload requests. -/
structure TxPacket where
  data : List U8
  tail : ℕ → U8
  frags : List (List U8)
  headroom : ℤ
  dst : Option NetDev
  gsoSize : ℕ
  csumPartial : Bool

/-- The memory an allocation returns, by what it holds after the data; none on failure. -/
abbrev Grant := Option (ℕ → U8)

namespace TxPacket

/-- The packet as `sfmc_encap_packet` sees it. -/
def skb (p : TxPacket) : SkBuff where
  data := p.data
  tail := p.tail
  fragLen := p.frags.flatten.length
  headroom := p.headroom
  dst := p.dst

/-- The packet with the linear part that `sfmc_encap_packet` leaves. -/
def withSkb (p : TxPacket) (skb : SkBuff) : TxPacket :=
  { p with data := skb.data, tail := skb.tail, headroom := skb.headroom, dst := skb.dst }

def bytes (p : TxPacket) : List U8 := p.data ++ p.frags.flatten

/-- `skb->data_len`. -/
def dataLen (p : TxPacket) : ℕ := p.frags.flatten.length

/-- `skb_put_padto`: zeros up to a minimal length, in linear memory. None when
that takes memory there is not, and the packet is freed. -/
def skbPutPadto (p : TxPacket) (len : ℕ) (grant : Grant) : Option TxPacket :=
  if p.skb.len < len then
    grant.map fun tail =>
      { p with
        data := p.bytes ++ List.replicate (len - p.skb.len) 0
        tail := tail
        frags := [] }
  else
    some p

/-- What `__pskb_pull_tail` leaves of the fragments. -/
def eatFrags : ℕ → List (List U8) → List (List U8)
  | _, [] => []
  | eat, frag :: frags =>
    if frag.length ≤ eat then eatFrags (eat - frag.length) frags
    else frag.drop eat :: eatFrags 0 frags

/-- `__pskb_pull_tail`: bytes of the fragments move behind the linear data. -/
def pskbPullTail (p : TxPacket) (n : ℕ) (grant : Grant) : Option TxPacket :=
  grant.map fun tail =>
    { p with
      data := p.data ++ p.frags.flatten.take n
      tail := tail
      frags := eatFrags n p.frags }

end TxPacket

/-- What becomes of a packet. A busy driver leaves it to the caller to try again. -/
inductive TxVerdict where
  | busy (p : TxPacket)
  | freed
  | placed (p : TxPacket)

/-- The members of `e1000_mac_type` that transmission distinguishes. -/
inductive E1000MacType where
  | e1000_82544
  | e1000_82547
  | other
  deriving DecidableEq, Repr

structure E1000TxRing where
  count : ℕ
  nextToUse : ℕ
  nextToClean : ℕ
  lastTxTso : Bool
  deriving DecidableEq, Repr

/-- `struct e1000_adapter` as transmission uses it, with the madcap device. -/
structure E1000Adapter where
  sfmc : Sfmc
  macType : E1000MacType
  busTypePcix : Bool
  pcix82544 : Bool
  halfDuplex : Bool
  txRing : E1000TxRing
  txFifoSize : U32
  txFifoHead : U32
  txFifoStall : Bool

/-- What one attempt meets. `nextToClean` is read by the second look at the ring,
`hdrLen` is the length of the headers up to the payload, `tailBit` whether
`skb_tail_pointer (skb) - 1` has bit 2 set. -/
structure E1000Io where
  padGrant : Grant
  pullGrant : Grant
  hdrLen : U8
  tailBit : Bool
  nextToClean : ℕ
  mapped : Bool
  txRing : E1000TxRing

def E1000_MAX_TXD_PWR : ℕ := 12

def E1000_MAX_DATA_PER_TXD : ℕ := 1 <<< E1000_MAX_TXD_PWR

def ETH_ZLEN : ℕ := 60

def E1000_FIFO_HDR : U32 := 0x10

def E1000_82547_PAD_LEN : U32 := 0x3E0

/-- `E1000_DESC_UNUSED`. -/
def E1000TxRing.descUnused (r : E1000TxRing) : ℕ :=
  (if r.nextToClean > r.nextToUse then 0 else r.count) + r.nextToClean - r.nextToUse - 1

/-- `e1000_maybe_stop_tx`; true for `-EBUSY`. -/
def e1000MaybeStopTx (r : E1000TxRing) (nextToClean size : ℕ) : Bool :=
  if r.descUnused ≥ size then false
  else { r with nextToClean := nextToClean }.descUnused < size

/-- `ALIGN` to a power of two. -/
def align (x a : U32) : U32 := (x + (a - 1)) &&& ~~~(a - 1)

namespace E1000Adapter

/-- `e1000_82547_fifo_workaround`; true when the packet has to wait. -/
def fifoWorkaround (a : E1000Adapter) (p : TxPacket) : Bool × E1000Adapter :=
  let fifoSpace := a.txFifoSize - a.txFifoHead
  let skbFifoLen := align (BitVec.ofNat 32 p.skb.len + E1000_FIFO_HDR) E1000_FIFO_HDR
  if a.halfDuplex && a.txFifoStall then (true, a)
  else if a.halfDuplex && skbFifoLen ≥ E1000_82547_PAD_LEN + fifoSpace then
    (true, { a with txFifoStall := true })
  else
    let head := a.txFifoHead + skbFifoLen
    (false, { a with txFifoHead := if head ≥ a.txFifoSize then head - a.txFifoSize else head })

/-- The 82544 pulls a dword out of the fragments when a segmented packet has only
its headers in linear memory. Returns the new linear length. -/
def tsoPull (a : E1000Adapter) (io : E1000Io) (p : TxPacket) (len : ℕ) :
    Option (TxPacket × ℕ) :=
  if p.gsoSize ≠ 0 && p.dataLen ≠ 0 && io.hdrLen.toNat = len && a.macType = .e1000_82544 &&
      !io.tailBit then
    (p.pskbPullTail (min 4 p.dataLen) io.pullGrant).map fun p => (p, p.data.length)
  else
    some (p, len)

def txdUseCount (s x : ℕ) : ℕ := (s >>> x) + 1

/-- The descriptors that `e1000_xmit_frame` counts for a packet. -/
def txdCount (a : E1000Adapter) (p : TxPacket) (len : ℕ) : ℕ :=
  let maxPerTxd := min (p.gsoSize <<< 2) E1000_MAX_DATA_PER_TXD
  let maxTxdPwr := if p.gsoSize ≠ 0 then Nat.log2 maxPerTxd else E1000_MAX_TXD_PWR
  let count := if p.gsoSize ≠ 0 || p.csumPartial then 1 else 0
  let count := count + 1
  let count := if p.dataLen = 0 && a.txRing.lastTxTso && p.gsoSize = 0 then count + 1 else count
  let count := count + txdUseCount len maxTxdPwr
  let count := if a.pcix82544 then count + 1 else count
  let count := if a.busTypePcix && len > 2015 then count + 1 else count
  let count := count + (p.frags.map fun frag => txdUseCount frag.length maxTxdPwr).sum
  if a.pcix82544 then count + p.frags.length else count

/-- The part of `e1000_xmit_frame` that looks for room and hands the packet over. -/
def xmitReady (a : E1000Adapter) (io : E1000Io) (p : TxPacket) (len : ℕ) :
    E1000Adapter × TxVerdict :=
  if e1000MaybeStopTx a.txRing io.nextToClean (a.txdCount p len + 2) then (a, .busy p)
  else
    let (stall, a) := if a.macType = .e1000_82547 then a.fifoWorkaround p else (false, a)
    if stall then (a, .busy p)
    else ({ a with txRing := io.txRing }, if io.mapped then .placed p else .freed)

end E1000Adapter

/-- `e1000_xmit_frame`. The linear length is taken before the encapsulation, whose
result is not looked at. -/
def e1000XmitFrame (env : Env) (a : E1000Adapter) (io : E1000Io) (p : TxPacket) :
    Res (E1000Adapter × TxVerdict) := do
  let len := p.data.length
  let (_, skb, s) ← a.sfmc.e1000SfmcEncapPacket env p.skb
  let a := { a with sfmc := s }
  match (p.withSkb skb).skbPutPadto ETH_ZLEN io.padGrant with
  | none => return (a, .freed)
  | some p =>
    match a.tsoPull io p len with
    | none => return (a, .freed)
    | some (p, len) => return a.xmitReady io p len

structure IxgbeRing where
  count : U16
  nextToUse : U16
  nextToClean : U16
  deriving DecidableEq, Repr

/-- `struct ixgbe_adapter` as transmission uses it: the madcap device and the ring of
the packet's queue. -/
structure IxgbeAdapter where
  sfmc : Sfmc
  txRing : IxgbeRing

/-- What one attempt meets, as for e1000. -/
structure IxgbeIo where
  padGrant : Grant
  nextToClean : U16
  mapped : Bool
  txRing : IxgbeRing

def IXGBE_MAX_DATA_PER_TXD : ℕ := 1 <<< 14

/-- `ixgbe_desc_unused`. -/
def IxgbeRing.descUnused (r : IxgbeRing) : U16 :=
  (if r.nextToClean > r.nextToUse then 0 else r.count) + r.nextToClean - r.nextToUse - 1

/-- `ixgbe_maybe_stop_tx`; true for `-EBUSY`. -/
def ixgbeMaybeStopTx (r : IxgbeRing) (nextToClean size : U16) : Bool :=
  if r.descUnused ≥ size then false
  else { r with nextToClean := nextToClean }.descUnused < size

/-- `TXD_USE_COUNT`, as it is added to a `u16`. -/
def ixgbeTxdUseCount (s : ℕ) : U16 :=
  BitVec.ofNat 16 ((s + (IXGBE_MAX_DATA_PER_TXD - 1)) / IXGBE_MAX_DATA_PER_TXD)

/-- The descriptors that `ixgbe_xmit_frame_ring` counts for a packet. -/
def ixgbeTxdCount (p : TxPacket) : U16 :=
  p.frags.foldl (fun count frag => count + ixgbeTxdUseCount frag.length)
    (ixgbeTxdUseCount p.data.length)

def ixgbeXmitFrameRing (a : IxgbeAdapter) (io : IxgbeIo) (p : TxPacket) :
    IxgbeAdapter × TxVerdict :=
  if ixgbeMaybeStopTx a.txRing io.nextToClean (ixgbeTxdCount p + 3) then (a, .busy p)
  else ({ a with txRing := io.txRing }, if io.mapped then .placed p else .freed)

/-- `ixgbe_xmit_frame` with `__ixgbe_xmit_frame`. -/
def ixgbeXmitFrame (env : Env) (a : IxgbeAdapter) (io : IxgbeIo) (p : TxPacket) :
    Res (IxgbeAdapter × TxVerdict) := do
  let (err, skb, s) ← a.sfmc.sfmcEncapPacket env p.skb
  let a := { a with sfmc := s }
  if err < 0 then return (a, .freed)
  else
    match (p.withSkb skb).skbPutPadto 17 io.padGrant with
    | none => return (a, .freed)
    | some p => return ixgbeXmitFrameRing a io p

inductive Driver where
  | e1000
  | ixgbe
  deriving DecidableEq, Repr

namespace Driver

abbrev Adapter : Driver → Type
  | e1000 => E1000Adapter
  | ixgbe => IxgbeAdapter

abbrev Io : Driver → Type
  | e1000 => E1000Io
  | ixgbe => IxgbeIo

/-- The driver's `ndo_start_xmit`. -/
def xmitFrame (env : Env) : (d : Driver) → d.Adapter → d.Io → TxPacket →
    Res (d.Adapter × TxVerdict)
  | e1000 => e1000XmitFrame env
  | ixgbe => ixgbeXmitFrame env

/-- What happens to a waiting packet: an attempt, or anything at all to the device. -/
inductive TxEvent (d : Driver) where
  | attempt (io : d.Io)
  | meanwhile (a : d.Adapter)

/-- The queueing layer hands a packet to the driver again as long as it is busy. -/
def txStep (env : Env) (d : Driver) (t : d.Adapter × TxVerdict) (e : TxEvent d) :
    Res (d.Adapter × TxVerdict) :=
  match e with
  | .attempt io =>
    match t.2 with
    | .busy p => d.xmitFrame env t.1 io p
    | v => return (t.1, v)
  | .meanwhile a => return (a, t.2)

end Driver

end Madcap
