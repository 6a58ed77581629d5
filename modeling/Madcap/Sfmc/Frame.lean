import Madcap.Sfmc.Checksum
import Madcap.Sfmc.Emission
import Madcap.Sfmc.RouteCache

/-!
# The encapsulated frame on the wire

What a receiver reads from a frame that `sfmc_encap_packet` has built: an Ethernet
header, an IPv4 header whose checksum verifies, a UDP header when it is configured,
and the packet.
-/

namespace Madcap

open Inet

theorem ipHeader_checksumOk (totLen : ℕ) (proto : U8) (saddr daddr : U32) :
    ChecksumOk (ipHeader totLen proto
      (ipchecksum (readByte (ipHeader totLen proto 0 saddr daddr)) 20 0) saddr daddr) := by
  let front : List U8 := [0x45, 0] ++ bytesOf 2 (htons (BitVec.ofNat 16 totLen)) ++
    bytesOf 2 (0 : U16) ++ bytesOf 2 (0 : U16) ++ [64, proto]
  have hcut (check : U16) : ipHeader totLen proto check saddr daddr =
      front ++ bytesOf 2 check ++ (bytesOf 4 saddr ++ bytesOf 4 daddr) := by
    unfold ipHeader
    simp only [front, List.append_assoc]
  have hlen : (ipHeader totLen proto 0 saddr daddr).length = (20 : U16).toNat := by
    simp [ipHeader]
  have hblank := bytesIn_readByte (ipHeader totLen proto 0 saddr daddr)
  rw [hlen, hcut 0] at hblank
  rw [hcut, hcut 0]
  have hsum : (0 : U32).toNat ≤ 65535 := Nat.zero_le 65535
  exact verifiesFrom_zero.mp (ipchecksum_verifies hsum hblank (by simp [front]))

/-- What the outer headers of `eth` and `ip` say: they carry `packet` from this device to
the locator of `oe`, by the next hop of `f`. -/
structure Sfmc.Outer (s : Sfmc) (oe : ObjEntry) (f : SfmcFib) (packet : List U8)
    (eth : EtherFrame) (ip : Ipv4Packet) : Prop where
  dest : eth.dest = bytesOf 6 f.mac
  source : eth.source = bytesOf 6 s.permAddr
  etherType : eth.etherType = 0x0800
  version : ip.version = 4
  ihl : ip.ihl = 5
  unfragmented : ip.fragment = 0
  totalLength : ip.totalLength = eth.payload.length
  protocol : ip.protocol = s.oc.proto.toNat
  saddr : ip.saddr = bytesOf 4 s.oc.src
  daddr : ip.daddr = bytesOf 4 oe.dst
  checksum : ChecksumOk ip.header
  plain : s.ou.encapEnable = 0 → ip.payload = packet
  udp : s.ou.encapEnable ≠ 0 → ∃ dgram, parseUdp ip.payload = some dgram ∧
    dgram.srcPort = bytesOf 2 s.ou.srcPort ∧ dgram.dstPort = bytesOf 2 s.ou.dstPort ∧
    dgram.length = ip.payload.length ∧ dgram.payload = packet

/-- A receiver that reads `frame` finds `packet` behind the right outer headers. -/
def Sfmc.Decodes (s : Sfmc) (oe : ObjEntry) (f : SfmcFib) (packet frame : List U8) : Prop :=
  ∃ eth ip, parseEther frame = some eth ∧ parseIpv4 eth.payload = some ip ∧
    s.Outer oe f packet eth ip

theorem number_length {n : ℕ} (h : n ≤ 65535) :
    number (bytesOf 2 (htons (BitVec.ofNat 16 n))) = n := by
  rw [number_bytesOf_htons, BitVec.toNat_ofNat, Nat.mod_eq_of_lt (by omega)]

def Sfmc.pushUdp (s : Sfmc) (skb : SkBuff) : SkBuff :=
  if s.ou.encapEnable ≠ 0 then skb.push (udpHeader s.ou (skb.len + sizeofUdphdr)) else skb

namespace Sfmc

variable {s : Sfmc} {oe : ObjEntry} {f : SfmcFib} {skb : SkBuff} {frags : List U8}

theorem pushUdp_len_le (s : Sfmc) (skb : SkBuff) : (s.pushUdp skb).len ≤ skb.len + 8 := by
  unfold pushUdp
  split_ifs
  · rw [SkBuff.push_len, Nat.add_comm]
    simp [udpHeader]
  · omega

theorem pushUdp_fragLen (s : Sfmc) (skb : SkBuff) : (s.pushUdp skb).fragLen = skb.fragLen := by
  unfold pushUdp
  split_ifs <;> rfl

theorem pushHeaders_layers (s : Sfmc) (skb : SkBuff) (dst : U32) (mac : Mac) :
    ∃ check, (s.pushHeaders skb dst mac).data = ethHeader mac s.permAddr ++
        (ipHeader ((s.pushUdp skb).len + 20) s.oc.proto check s.oc.src dst ++ (s.pushUdp skb).data) ∧
      ChecksumOk (ipHeader ((s.pushUdp skb).len + 20) s.oc.proto check s.oc.src dst) := by
  refine ⟨_, rfl, ?_⟩
  apply ipHeader_checksumOk

theorem pushUdp_plain (hou : s.ou.encapEnable = 0) : (s.pushUdp skb).data = skb.data := by
  unfold pushUdp
  rw [if_neg (not_not.mpr hou)]

theorem pushUdp_udp (hou : s.ou.encapEnable ≠ 0) (hfrags : frags.length = skb.fragLen)
    (hlen : skb.len + 28 ≤ 65535) : ∃ dgram,
      parseUdp ((s.pushUdp skb).data ++ frags) = some dgram ∧
      dgram.srcPort = bytesOf 2 s.ou.srcPort ∧ dgram.dstPort = bytesOf 2 s.ou.dstPort ∧
      dgram.length = ((s.pushUdp skb).data ++ frags).length ∧ dgram.payload = skb.data ++ frags := by
  have hdata : (s.pushUdp skb).data = udpHeader s.ou (skb.len + 8) ++ skb.data := by
    unfold pushUdp
    rw [if_pos hou]
    rfl
  have hlength : (udpHeader s.ou (skb.len + 8)).length = 8 := by
    simp [udpHeader]
  have hparse := parseUdp_append (skb.data ++ frags) (bytesOf_length 2 s.ou.srcPort)
    (bytesOf_length 2 s.ou.dstPort) (bytesOf_length 2 (htons (BitVec.ofNat 16 (skb.len + 8))))
    (bytesOf_length 2 (0 : U16))
  refine ⟨_, Eq.trans ?_ hparse, rfl, rfl, ?_, rfl⟩
  · rw [hdata, udpHeader]
    simp only [List.append_assoc]
  · dsimp only
    rw [number_length (by omega), hdata, List.append_assoc, List.length_append, hlength,
      List.length_append, hfrags, SkBuff.len]
    omega

theorem pushHeaders_decodes (hfrags : frags.length = skb.fragLen) (hlen : skb.len + 28 ≤ 65535) :
    s.Decodes oe f (skb.data ++ frags) ((s.pushHeaders skb oe.dst f.mac).data ++ frags) := by
  obtain ⟨check, hdata, hcheck⟩ := pushHeaders_layers s skb oe.dst f.mac
  have hle := pushUdp_len_le s skb
  have hheader : (ipHeader ((s.pushUdp skb).len + 20) s.oc.proto check s.oc.src oe.dst).length = 20 := by
    simp [ipHeader]
  have heth := parseEther_append
    (ipHeader ((s.pushUdp skb).len + 20) s.oc.proto check s.oc.src oe.dst ++
      ((s.pushUdp skb).data ++ frags))
    (bytesOf_length 6 f.mac) (bytesOf_length 6 s.permAddr) (bytesOf_length 2 (htons ETH_P_IP))
  have hip := parseIpv4_append ((s.pushUdp skb).data ++ frags) (show (0x45 : U8).toNat % 16 = 5 from rfl)
    (bytesOf_length 2 (htons (BitVec.ofNat 16 ((s.pushUdp skb).len + 20))))
    (bytesOf_length 2 (0 : U16)) (bytesOf_length 2 (0 : U16)) (bytesOf_length 2 check)
    (bytesOf_length 4 s.oc.src) (bytesOf_length 4 oe.dst)
    (show ipHeader ((s.pushUdp skb).len + 20) s.oc.proto check s.oc.src oe.dst ++
      ((s.pushUdp skb).data ++ frags) = [0x45] ++ ([0] ++ (_ ++ (_ ++ (_ ++ ([64] ++
      ([s.oc.proto] ++ (_ ++ (_ ++ (_ ++ _))))))))) by
        unfold ipHeader
        simp only [List.append_assoc]
        rfl)
  refine ⟨_, _, Eq.trans ?_ heth, hip, ?_⟩
  · rw [hdata, ethHeader]
    simp only [List.append_assoc]
  · exact {
      dest := rfl
      source := rfl
      etherType := number_bytesOf_htons ETH_P_IP
      version := rfl
      ihl := rfl
      unfragmented := rfl
      totalLength := by
        dsimp only
        rw [number_length (by omega), List.length_append, hheader, List.length_append, hfrags,
          ← pushUdp_fragLen s skb, SkBuff.len, Nat.add_comm]
      protocol := rfl
      saddr := rfl
      daddr := rfl
      checksum := by
        dsimp only
        rw [List.take_append_of_le_length (le_of_eq hheader.symm), List.take_of_length_le (le_of_eq hheader)]
        exact hcheck
      plain := fun hou => by
        dsimp only
        rw [pushUdp_plain hou]
      udp := fun hou => pushUdp_udp hou hfrags hlen }

theorem Encaps.decodes {U : SfmcTable → Ref → Prop} {out : SkBuff} (h : s.Encaps U skb out)
    (hfrags : frags.length = skb.fragLen) (hlen : skb.len + 28 ≤ 65535) :
    ∃ st sf f, U st sf ∧ s.fibs.cells sf = some f ∧ out.fragLen = skb.fragLen ∧
      s.Decodes st.oe f (skb.data ++ frags) (out.data ++ frags) := by
  obtain ⟨st, sf, f, huse, hf, -, rfl⟩ := h
  refine ⟨st, sf, f, huse, hf, ?_, pushHeaders_decodes hfrags hlen⟩
  exact pushUdp_fragLen s skb

/-- Whichever driver encapsulates a packet, a receiver of the frame reads the addresses of
the entry and the next hop that were used, and the packet unchanged. -/
theorem encap_packet_decodes (env : Env) (s : Sfmc) (skb : SkBuff) (frags : List U8)
    (hfrags : frags.length = skb.fragLen) (hlen : skb.len + 28 ≤ 65535)
    (hacq : s.Acquires env skb) (out : SkBuff) (s' : Sfmc) :
    (s.sfmcEncapPacket env skb = .ok (0, out, s') → ∃ st sf f, s.Uses env skb st sf ∧
      s.fibs.cells sf = some f ∧ out.fragLen = skb.fragLen ∧
      s.Decodes st.oe f (skb.data ++ frags) (out.data ++ frags)) ∧
    (s.e1000SfmcEncapPacket env skb = .ok (0, out, s') → ∃ st sf f, s.E1000Uses env skb st sf ∧
      s.fibs.cells sf = some f ∧ out.fragLen = skb.fragLen ∧
      s.Decodes st.oe f (skb.data ++ frags) (out.data ++ frags)) := by
  constructor
  · intro h
    exact (sfmcEncapPacket_emits hacq h).decodes hfrags hlen
  · intro h
    exact (e1000SfmcEncapPacket_emits hacq h).decodes hfrags hlen

end Sfmc

/-- A device that encapsulates in UDP, with a resolved route to 10.0.1.2. -/
def udpRun : List Event :=
  [.acquireDev 0,
    .lltCfg { obj := { id := MADCAP_OBJ_ID_LLT_CONFIG, tbId := 0 }, offset := 0, length := 24,
              proto := 17, src := 0x0200000A },
    .udpCfg { obj := { id := MADCAP_OBJ_ID_UDP, tbId := 0 }, encapEnable := 1,
              srcHashEnable := 0, dstPort := 0xB512, srcPort := 0xB512 },
    .lltEntryAdd connectedEntry,
    .portObjAdd .commit
      (.ipv4Fib { dst := 0x0A000102, dstLen := Fin.last 32, gateway := 0x0100000A, scope := 0 })
      none,
    .neighChange 0x0100000A { ha := 0x665544332202, nudState := NUD_REACHABLE }]

def udpDevice : World :=
  ((World.init 0 (fun _ => true) fun _ => none).run oneBucket udpRun).toOption.getD
    (World.init 0 (fun _ => true) fun _ => none)

/-- Both drivers send a packet of sixty zeros in UDP to 10.0.1.2. -/
theorem encap_packet_decodes_udp : ∃ out s' st f st' f',
    udpDevice.sfmc.sfmcEncapPacket oneBucket blankPacket = .ok (0, out, s') ∧
    udpDevice.sfmc.e1000SfmcEncapPacket oneBucket blankPacket = .ok (0, out, udpDevice.sfmc) ∧
    udpDevice.sfmc.Decodes st f (blankPacket.data ++ []) (out.data ++ []) ∧
    udpDevice.sfmc.Decodes st' f' (blankPacket.data ++ []) (out.data ++ []) := by
  have hdecodes := Sfmc.encap_packet_decodes oneBucket udpDevice.sfmc blankPacket [] rfl
    (by decide) ⟨rfl, by decide⟩
  obtain ⟨st, sf, f, -, -, -, hixgbe⟩ := (hdecodes _ _).1 rfl
  obtain ⟨st', sf', f', -, -, -, he1000⟩ := (hdecodes _ _).2 rfl
  exact ⟨_, _, st.oe, f, st'.oe, f', rfl, rfl, hixgbe, he1000⟩

end Madcap
