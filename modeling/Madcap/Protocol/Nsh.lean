import Madcap.Buffers
import Madcap.Protocol.Vxlan

/-!
# The NSH driver

`nshkmod` puts a service header in front of an Ethernet frame and sends it on over
one of several transports, or hands it to a device of its own namespace. The
receive side finds the device by the path in the header.
-/

namespace Madcap

def ETH_P_NSH : U16 := 0x894F

def NSH_BASE_MDTYPE1 : U8 := 0x01
def NSH_BASE_MDTYPE2 : U8 := 0x02

def NSH_BASE_PROTO_ETH : U8 := 0x03

/-- Base, path and four context words. -/
def NSH_MDTYPE1_HLEN : ℕ := 24
def NSH_MDTYPE2_0_HLEN : ℕ := 8

def VXLAN_GPE_FLAGS : U32 := 0x0C000000
def VXLAN_GPE_PROTO_NSH : U32 := 0x04

/-- `NSHKMOD_ATTR_ENCAP` values. -/
def NSH_ENCAP_TYPE_VXLAN : U8 := 1
def NSH_ENCAP_TYPE_ETHER : U8 := 2

def nshBaseCheckVersion (flags version : U8) : Bool := flags &&& 0xC0 == version

def nshBaseOam (flags : U8) : Bool := flags &&& 0x20 != 0

def nshBaseLength (length : U8) : ℕ := (length &&& 0x3F).toNat

/-- `struct nsh_dst`. -/
structure NshDst where
  remoteIp : U32
  localIp : U32
  vni : U32
  lowerdev : Option NetDev
  ethAddr : Mac
  deriving DecidableEq, Repr

/-- `struct nsh_table`: a path and its device or its remote node. -/
structure NshTable where
  key : U32
  spi : U32
  si : U8
  mdtype : U8
  encapType : U8
  rdev : Option NetDev
  rdst : Option NshDst
  deriving DecidableEq, Repr

abbrev nshHashSize : ℕ := 256

/-- `struct nsh_net`, with the key of each of its devices. -/
structure NshNet where
  nshTable : Fin nshHashSize → List NshTable
  devKey : NetDev → U32

/-- What the driver gets from the rest of the kernel: the hash function, the madcap
operations and addresses of lower devices, and routes. -/
structure NshEnv where
  madcapEnable : Bool
  hash32 : U32 → Fin nshHashSize
  madcapOps : NetDev → Bool
  devAddr : NetDev → Mac
  routed : U32 → U32 → Option NetDev → Bool

def NshNet.nshFindTable (env : NshEnv) (nnet : NshNet) (key : U32) : Option NshTable :=
  (nnet.nshTable (env.hash32 key)).find? fun nt => key == nt.key

/-- What becomes of a received buffer: not for this driver, rejected with a negative
code, dropped, given to a device with the inner frame at the front, or nothing any more,
since the kernel has stopped. -/
inductive NshVerdict where
  | notOurs
  | rejected
  | dropped
  | delivered (dev : NetDev) (skb : SkBuff)
  | stopped

/-- The frame behind a service header, of which `eth_type_trans` pulls the Ethernet header. -/
def nshStrip (skb : SkBuff) (hdrlen : ℕ) : Res SkBuff := do
  let frame ← skb.pull hdrlen
  let _ ← ethTypeTrans frame
  return { frame with dst := none }

/-- `nsh_recv` of a buffer that starts with the service header. -/
def nshRecv (env : NshEnv) (nnet : NshNet) (skb : SkBuff) : NshVerdict :=
  let flags := skb.byte 0
  let length := skb.byte 1
  let protocol := skb.byte 3
  let spisi := load32 fun i => skb.byte (4 + i)
  if !nshBaseCheckVersion flags 0 then .rejected
  else if nshBaseOam flags then .rejected
  else if protocol ≠ NSH_BASE_PROTO_ETH then .rejected
  else if htonl spisi &&& 0xFF = 0 then .rejected
  else
    match nnet.nshFindTable env spisi with
    | none => .rejected
    | some nt =>
      match nt.rdev with
      | none => .rejected
      | some dev =>
        match nshStrip skb (nshBaseLength length <<< 2) with
        | .error _ => .stopped
        | .ok frame => .delivered dev frame

/-- `nsh_vxlan_udp_encap_recv` of a buffer that starts with its UDP header. -/
def nshVxlanUdpEncapRecv (env : NshEnv) (nnet : NshNet) (skb : SkBuff)
    (pulled : Option (PulledTail skb VXLAN_HLEN)) : NshVerdict :=
  match pskbMayPull skb VXLAN_HLEN pulled with
  | none => .notOurs
  | some skb =>
    let vxFlags := load32 fun i => skb.byte (8 + i)
    if vxFlags ≠ htonl (VXLAN_GPE_FLAGS ||| VXLAN_GPE_PROTO_NSH) then .notOurs
    else
      match skb.pull VXLAN_HLEN with
      | .error _ => .stopped
      | .ok skb => nshRecv env nnet skb

/-- Whom the lower device took a frame to be for. -/
inductive PktType where
  | host
  | broadcast
  | multicast
  | otherhost
  deriving DecidableEq, Repr

/-- `nsh_ether_encap_recv` of a buffer whose Ethernet header has been pulled. -/
def nshEtherEncapRecv (env : NshEnv) (nnet : NshNet) (pktType : PktType) (skb : SkBuff) :
    NshVerdict :=
  if pktType = .otherhost then .dropped else nshRecv env nnet skb

/-- Where a sent buffer goes: nowhere, with an error or unnoticed, into a UDP tunnel,
to a madcap device, out of a lower device, or back into `nsh_recv`. -/
inductive NshTx where
  | txErr
  | unsent
  | udpTunnel (remoteIp : U32) (skb : SkBuff)
  | madcap (lowerdev : NetDev) (skb : SkBuff)
  | ether (lowerdev : NetDev) (skb : SkBuff)
  | looped (verdict : NshVerdict)

def nshPushVxlan (skb : SkBuff) (vni : U32) : SkBuff :=
  let vxh : VxlanHdr :=
    { vxFlags := htonl (VXLAN_GPE_FLAGS ||| VXLAN_GPE_PROTO_NSH), vxVni := htonl (vni <<< 8) }
  skb.push vxh.bytes

def nshXmitVxlanMadcap (skb : SkBuff) (dev : NetDev) (vni : U32) : NshTx :=
  .madcap dev (nshPushVxlan skb vni)

def nshXmitVxlan (env : NshEnv) (skb : SkBuff) (rdst : NshDst) : NshTx :=
  if env.routed rdst.remoteIp rdst.localIp rdst.lowerdev then
    .udpTunnel rdst.remoteIp (nshPushVxlan skb rdst.vni)
  else
    .txErr

def nshXmitEther (env : NshEnv) (skb : SkBuff) (rdst : NshDst) : NshTx :=
  match rdst.lowerdev with
  | none => .txErr
  | some lowerdev =>
    .ether lowerdev (skb.push (bytesOf 6 rdst.ethAddr ++ bytesOf 6 (env.devAddr lowerdev) ++
      bytesOf 2 (htons ETH_P_NSH)))

/-- The test whether to offload, which reads the remote node of every entry. -/
def nshMadcapOn (env : NshEnv) (nt : NshTable) : Res Bool :=
  if env.madcapEnable then
    match nt.rdst with
    | none => throw .badAccess
    | some rdst =>
      match rdst.lowerdev with
      | none => return false
      | some lowerdev => return env.madcapOps lowerdev
  else
    return false

/-- The service header that `nsh_xmit` pushes in three steps. -/
def nshPushHeader (skb : SkBuff) (mdtype : U8) (key : U32) (nhlen : ℕ) : SkBuff :=
  let skb := if mdtype = NSH_BASE_MDTYPE1 then skb.push (List.replicate 16 0) else skb
  let skb := skb.push (bytesOf 4 key)
  skb.push [0, BitVec.ofNat 8 (nhlen >>> 2), mdtype, NSH_BASE_PROTO_ETH]

def nshSend (env : NshEnv) (nt : NshTable) (madcapOn : Bool) (skb : SkBuff) : NshTx :=
  match nt.rdst with
  | none => .unsent
  | some rdst =>
    if nt.encapType = NSH_ENCAP_TYPE_VXLAN then
      match madcapOn, rdst.lowerdev with
      | true, some lowerdev => nshXmitVxlanMadcap skb lowerdev rdst.vni
      | _, _ => nshXmitVxlan env skb rdst
    else if nt.encapType = NSH_ENCAP_TYPE_ETHER then nshXmitEther env skb rdst
    else .txErr

/-- `nsh_xmit` on the device `dev`. -/
def nshXmit (env : NshEnv) (nnet : NshNet) (dev : NetDev) (skb : SkBuff) : Res NshTx :=
  match nnet.nshFindTable env (nnet.devKey dev) with
  | none => return .txErr
  | some nt => do
    let madcapOn ← nshMadcapOn env nt
    let nhlen? :=
      if nt.mdtype = NSH_BASE_MDTYPE1 then some NSH_MDTYPE1_HLEN
      else if nt.mdtype = NSH_BASE_MDTYPE2 then some NSH_MDTYPE2_0_HLEN
      else none
    match nhlen? with
    | none => return .txErr
    | some nhlen =>
      let skb := nshPushHeader skb nt.mdtype (nnet.devKey dev) nhlen
      match nt.rdev with
      | some _ => return .looped (nshRecv env nnet skb)
      | none => return nshSend env nt madcapOn skb

end Madcap
