import Madcap.Sfmc.State

/-!
# Encapsulation on the data path

`sfmc_encap_packet` as the ixgbe driver has it, with its cached route, and as the
e1000 driver has it, with a lookup for every packet. Everything after the choice
of the route is shared.
-/

namespace Madcap

/-- The shift loop of `extract_id_from_packet`. -/
def shiftLoop : ℕ → U64 → U64
  | 0, id => id
  | i + 1, id => shiftLoop i (id >>> 1)

/-- `extract_id_from_packet`, also in the raven driver. -/
def extractIdFromPacket (skb : SkBuff) (oc : ObjConfig) : U64 :=
  shiftLoop (64 - oc.length.toNat) (load64 fun i => skb.byte (oc.offset.toNat + i))

/-- The loop of `ipchecksum` over byte pairs. The first argument bounds its rounds. -/
def ipchecksumLoop (data : ℕ → U8) (stop : ℕ) : ℕ → ℕ → U32 → U32
  | 0, _, sum => sum
  | fuel + 1, i, sum =>
    if i < stop then
      let sum := sum + (htons (load16 fun k => data (i + k))).setWidth 32
      let sum := if sum > 0xFFFF then sum - 0xFFFF else sum
      ipchecksumLoop data stop fuel (i + 2) sum
    else
      sum

def ipchecksum (data : ℕ → U8) (len : U16) (sum : U32) : U16 :=
  let stop := (len &&& ~~~1).toNat
  let sum := ipchecksumLoop data stop stop 0 sum
  let sum :=
    if stop < len.toNat then
      let sum := sum + (data stop).setWidth 32 <<< 8
      if sum > 0xFFFF then sum - 0xFFFF else sum
    else
      sum
  htons ((~~~sum &&& 0xFFFF).setWidth 16)

def sizeofUdphdr : ℕ := 8

def sizeofIphdr : ℕ := 20

def udpHeader (ou : ObjUdp) (len : ℕ) : List U8 :=
  bytesOf 2 ou.srcPort ++ bytesOf 2 ou.dstPort ++ bytesOf 2 (htons (BitVec.ofNat 16 len)) ++
    bytesOf 2 (0 : U16)

/-- Version 4, five words, a time to live of 64 and no fragments. -/
def ipHeader (totLen : ℕ) (proto : U8) (check : U16) (saddr daddr : U32) : List U8 :=
  [0x45, 0] ++ bytesOf 2 (htons (BitVec.ofNat 16 totLen)) ++ bytesOf 2 (0 : U16) ++
    bytesOf 2 (0 : U16) ++ [64, proto] ++ bytesOf 2 check ++ bytesOf 4 saddr ++ bytesOf 4 daddr

def ETH_P_IP : U16 := 0x0800

def ethHeader (dest source : Mac) : List U8 :=
  bytesOf 6 dest ++ bytesOf 6 source ++ bytesOf 2 (htons ETH_P_IP)

/-- The end of `sfmc_encap_packet`: UDP when configured, IP and Ethernet. -/
def Sfmc.pushHeaders (s : Sfmc) (skb : SkBuff) (dst : U32) (mac : Mac) : SkBuff :=
  let skb :=
    if s.ou.encapEnable ≠ 0 then skb.push (udpHeader s.ou (skb.len + sizeofUdphdr)) else skb
  let totLen := skb.len + sizeofIphdr
  let blank := ipHeader totLen s.oc.proto 0 s.oc.src dst
  let check := ipchecksum (fun i => (blank[i]?).getD 0) 20 0
  let skb := skb.push (ipHeader totLen s.oc.proto check s.oc.src dst)
  skb.push (ethHeader mac s.permAddr)

namespace Sfmc

def acquired (s : Sfmc) (skb : SkBuff) : Bool :=
  match skb.dst with
  | none => false
  | some dev => (List.finRange sfmcVdevMax).any fun n => s.vdev n = some dev

/-- The part of `sfmc_encap_packet` that uses the route `sf` of the entry `oe`. -/
def encapWith (s : Sfmc) (skb : SkBuff) (oe : ObjEntry) (sf : Ref) : Res (ℤ × SkBuff × Sfmc) := do
  let f ← s.fibs.read sf
  if f.scope = RT_SCOPE_LINK && f.gateway ≠ oe.dst then
    match s.sfmcFibCreate oe.dst 32 oe.dst RT_SCOPE_LINK with
    | (none, _) => throw .badAccess
    | (some llsf, s) => return (-ENOENT, skb, { s with wq := s.wq ++ [llsf] })
  else if !nudValid f.nudState then
    return (-ENOENT, skb, s)
  else
    return (0, s.pushHeaders skb oe.dst f.mac, s)

/-- `sfmc_encap_packet` of the ixgbe driver after the acquisition check. -/
def encapCached (env : Env) (s : Sfmc) (skb : SkBuff) : Res (ℤ × SkBuff × Sfmc) := do
  let id := extractIdFromPacket skb s.oc
  match (s.sfmcTableFind env id).or (s.sfmcTableFind env 0) with
  | none => return (-ENOENT, skb, s)
  | some st =>
    match st.fib with
    | some sf => s.encapWith skb st.oe sf
    | none => do
      let fib ← s.sfmcFibFindBest st.oe.dst 32
      let s := s.sfmcTableCache env st.oe.id fib
      match fib with
      | none => return (-ENOENT, skb, s)
      | some sf => s.encapWith skb st.oe sf

/-- `sfmc_encap_packet` of the ixgbe driver. -/
def sfmcEncapPacket (env : Env) (s : Sfmc) (skb : SkBuff) : Res (ℤ × SkBuff × Sfmc) :=
  if env.madcapEnable && s.acquired skb then s.encapCached env skb else return (0, skb, s)

/-- `sfmc_encap_packet` of the e1000 driver: no cache, and no default entry. -/
def e1000SfmcEncapPacket (env : Env) (s : Sfmc) (skb : SkBuff) : Res (ℤ × SkBuff × Sfmc) :=
  if env.madcapEnable && s.acquired skb then do
    let id := extractIdFromPacket skb s.oc
    match (s.sfmcTableFind env id).or (s.sfmcTableFind env id) with
    | none => return (-ENOENT, skb, s)
    | some st =>
      match ← s.sfmcFibFindBest st.oe.dst 32 with
      | none => return (-ENOENT, skb, s)
      | some sf => s.encapWith skb st.oe sf
  else
    return (0, skb, s)

end Sfmc

end Madcap
