import Madcap.Drivers.NeverBare
import Madcap.Protocol.NshTransmit
import Madcap.Sfmc.Frame

/-!
# Service paths over madcap devices

A frame on a path whose remote node is reached through a madcap device passes `nsh_xmit`,
the driver of the lower device, the wire, the VXLAN hook of the peer and `nsh_recv`. Each
of them pushes or pulls headers of its own, and the drivers pad. The peer's device gets
the frame that was sent.
-/

namespace Madcap

open Inet

/-- The path of a device leads over VXLAN to a node behind a madcap device. -/
structure LeavesByMadcap (env : NshEnv) (nnet : NshNet) (dev : NetDev) (nt : NshTable)
    (rdst : NshDst) (lowerdev : NetDev) : Prop where
  entry : nnet.nshFindTable env (nnet.devKey dev) = some nt
  mdtype : nt.mdtype = NSH_BASE_MDTYPE1 ∨ nt.mdtype = NSH_BASE_MDTYPE2
  remote : nt.rdev = none
  node : nt.rdst = some rdst
  encap : nt.encapType = NSH_ENCAP_TYPE_VXLAN
  lower : rdst.lowerdev = some lowerdev
  offloads : nshMadcapOn env nt = .ok true

/-- A path ends at a device of a namespace. -/
structure EndsAt (env : NshEnv) (nnet : NshNet) (key : U32) (D : NetDev) : Prop where
  index : htonl key &&& 0xFF ≠ 0
  entry : ∃ nt, nnet.nshFindTable env key = some nt ∧ nt.rdev = some D

/-- Behind the outer headers of an entry and a route lies a datagram of which the VXLAN hook gives
the frame to a device, in whatever linear data and fragments it comes, just when its headers and the
Ethernet header of the frame are linear. -/
def Sfmc.Serves (s : Sfmc) (oe : ObjEntry) (f : SfmcFib) (env : NshEnv) (nnet : NshNet)
    (D : NetDev) (mdtype : U8) (inner frame : List U8) : Prop :=
  ∃ packet eth ip, parseEther frame = some eth ∧ parseIpv4 eth.payload = some ip ∧
    s.Outer oe f packet eth ip ∧ ∀ rskb frags pulled, rskb.Holds frags ip.payload →
      (∀ t, pulled = some t → t.skb'.data <+: rskb.data ++ frags) →
      ((nshVxlanUdpEncapRecv env nnet rskb pulled).Delivers D frags inner ↔
        rskb.HeadersLinear (VXLAN_HLEN + nshHlen mdtype) inner)

section

variable {env env' : NshEnv} {nnet nnet' : NshNet} {dev D lowerdev : NetDev} {skb out : SkBuff}
  {nt : NshTable} {rdst : NshDst} {s : Sfmc} {oe : ObjEntry} {f : SfmcFib} {frags : List U8}

theorem nshPushHeader_dst (skb : SkBuff) (mdtype : U8) (key : U32) (nhlen : ℕ) :
    (nshPushHeader skb mdtype key nhlen).dst = skb.dst := by
  unfold nshPushHeader
  by_cases h : mdtype = NSH_BASE_MDTYPE1
  · simp [h]
  · simp [h]

/-- `nsh_xmit` hands the frame to the lower device behind the two headers of the path. -/
theorem LeavesByMadcap.xmit (h : LeavesByMadcap env nnet dev nt rdst lowerdev) (skb : SkBuff) :
    ∃ nhlen, NshHlen nt.mdtype nhlen ∧ nshXmit env nnet dev skb = .ok (.madcap lowerdev
      (nshPushVxlan (nshPushHeader skb nt.mdtype (nnet.devKey dev) nhlen) rdst.vni)) := by
  obtain ⟨nhlen, hlen, hxmit⟩ := nshXmit_eq skb h.entry h.mdtype h.offloads
  refine ⟨nhlen, hlen, ?_⟩
  rw [hxmit, h.remote]
  simp only [nshSend, h.node, h.encap, if_true, h.lower, nshXmitVxlanMadcap]

theorem serviceFrame_len {mdtype : U8} {key vni : U32} {nhlen : ℕ} (hlen : NshHlen mdtype nhlen) :
    skb.len + 16 ≤ (nshPushVxlan (nshPushHeader skb mdtype key nhlen) vni).len ∧
      (nshPushVxlan (nshPushHeader skb mdtype key nhlen) vni).len ≤ skb.len + 32 := by
  have hpush : (nshPushVxlan (nshPushHeader skb mdtype key nhlen) vni).len = 8 + (nhlen + skb.len) := by
    rw [nshPushVxlan, SkBuff.push_len, VxlanHdr.bytes_length, SkBuff.len, nshPushHeader_data,
      List.length_append, nshHeader_length hlen, nshPushHeader_fragLen, Nat.add_assoc, SkBuff.len]
  have hnhlen : 8 ≤ nhlen ∧ nhlen ≤ 24 := by
    rcases hlen with ⟨-, rfl⟩ | ⟨-, rfl⟩ <;> decide
  omega

theorem EndsAt.serves (h : EndsAt env' nnet' (nnet.devKey dev) D) {mdtype : U8} {nhlen : ℕ}
    (hlen : NshHlen mdtype nhlen) (vni : U32) (hou : s.ou.encapEnable ≠ 0)
    (hout : out = nshPushVxlan (nshPushHeader skb mdtype (nnet.devKey dev) nhlen) vni)
    (hfrags : frags.length = skb.fragLen) {frame : List U8}
    (hdec : s.Decodes oe f (out.data ++ frags) frame) :
    s.Serves oe f env' nnet' D mdtype (skb.data ++ frags) frame := by
  obtain ⟨nt', hfind, hrdev⟩ := h.entry
  obtain ⟨eth, ip, heth, hip, houter⟩ := hdec
  refine ⟨_, eth, ip, heth, hip, houter, fun rskb rfrags pulled hholds hpulled => ?_⟩
  obtain ⟨dgram, hdgram, -, -, -, hpayload⟩ := houter.udp hou
  obtain ⟨udp, hudp, hcut⟩ := parseUdp_cut hdgram
  rw [hcut, hpayload, hout] at hholds
  have hreceived := ReceivedByUdp.mk hfrags ⟨udp, hudp, hholds⟩ hpulled
  rw [← hlen.eq_nshHlen]
  exact udp_delivers_iff hlen h.index hfind hrdev vni hreceived

end

section

variable {env : Env} {a a' : E1000Adapter} {io : E1000Io} {p q : TxPacket} {s : Sfmc}
  {U : SfmcTable → Ref → Prop} {out : SkBuff} {n : ℕ}

theorem Sfmc.Encaps.unpadded (h : s.Encaps U p.skb out) (hlen : n ≤ p.skb.len + 34)
    (hbytes : q.bytes = (p.withSkb out).bytes ++ List.replicate (n - (p.withSkb out).skb.len) 0) :
    q.bytes = out.data ++ p.frags.flatten := by
  obtain ⟨hdr, -, houter, hout⟩ := h.bytes
  have hlong : n - (p.withSkb out).skb.len = 0 := by
    rw [← TxPacket.bytes_length, hout, List.length_append, TxPacket.bytes_length]
    rcases houter.length with hhdr | hhdr <;> omega
  rw [hbytes, hlong, List.replicate_zero, List.append_nil, TxPacket.withSkb_bytes]

/-- A frame of an acquired device that is put on the ring has outer headers and no padding, or
it is bare: e1000 had no usable route for it. -/
theorem Driver.xmitFrame_placed (d : Driver) {a a' : d.Adapter} {io : d.Io}
    (hacq : (d.sfmc a).Acquires env p.skb) (hlen : ETH_ZLEN ≤ p.skb.len + 34)
    (h : d.xmitFrame env a io p = .ok (a', .placed q)) :
    (∃ out, (d.sfmc a).Encaps (d.Uses env (d.sfmc a) p.skb) p.skb out ∧
        q.bytes = out.data ++ p.frags.flatten) ∨
      d = .e1000 ∧ (∀ out, ¬ (d.sfmc a).Encaps (d.Uses env (d.sfmc a) p.skb) p.skb out) ∧
        q.bytes = p.bytes ++ List.replicate (ETH_ZLEN - p.skb.len) 0 := by
  cases d with
  | e1000 =>
    obtain ⟨err, out, s, henc, -, hbytes⟩ := e1000XmitFrame_follows h
    rcases Sfmc.e1000SfmcEncapPacket_cases henc with
      ⟨-, ⟨-, hout⟩ | ⟨-, rfl, hnone⟩⟩ | ⟨hno, -⟩
    · exact .inl ⟨out, hout, hout.unpadded hlen hbytes⟩
    · exact .inr ⟨rfl, hnone, hbytes⟩
    · exact absurd hacq hno
  | ixgbe =>
    obtain ⟨err, out, s, henc, hv⟩ := ixgbeXmitFrame_follows h
    obtain ⟨herr, -, hbytes⟩ := hv.resolve_left fun h => nomatch h.2
    rcases Sfmc.sfmcEncapPacket_cases henc with ⟨-, ⟨-, hout⟩ | ⟨hneg, -⟩⟩ | ⟨hno, -⟩
    · refine .inl ⟨out, hout, hout.unpadded ?_ hbytes⟩
      unfold ETH_ZLEN at hlen
      omega
    · exact absurd hneg herr
    · exact absurd hacq hno

end

/-- `nsh_xmit` queues the frame of a service path on the lower device. When that device is acquired
and encapsulates in UDP, its driver puts the frame on the ring behind the outer headers of the entry
and the route that were used, whatever its tables and the ring are. The peer finds the datagram
behind them, and its device gets the frame that was sent just when the headers are linear there.
Only e1000 also puts a frame on the ring bare, when it has no usable route. -/
theorem service_frame_arrives (env env' : NshEnv) (nnet nnet' : NshNet) (dev D lowerdev : NetDev)
    (skb : SkBuff) (nt : NshTable) (rdst : NshDst)
    (hleaves : LeavesByMadcap env nnet dev nt rdst lowerdev)
    (hends : EndsAt env' nnet' (nnet.devKey dev) D)
    (hmin : ETH_HLEN ≤ skb.len) (hmax : skb.len + 60 ≤ 65535) :
    ∃ out, nshXmit env nnet dev skb = .ok (.madcap lowerdev out) ∧ out.dst = skb.dst ∧
      (∀ io stats, io.Granted →
        sinks (Ops.nshXmit env nnet io stats dev skb).trace = [.queueXmit lowerdev out]) ∧
      ∀ (load : Env) (d : Driver) (a a' : d.Adapter) (io : d.Io) (p q : TxPacket),
        p.skb = out → (d.sfmc a).Acquires load out → (d.sfmc a).ou.encapEnable ≠ 0 →
        d.xmitFrame load a io p = .ok (a', .placed q) →
        (∃ st sf f, d.Uses load (d.sfmc a) out st sf ∧ (d.sfmc a).fibs.cells sf = some f ∧
          (d.sfmc a).Serves st.oe f env' nnet' D nt.mdtype (skb.data ++ p.frags.flatten) q.bytes) ∨
        d = .e1000 ∧ (∀ o, ¬ (d.sfmc a).Encaps (d.Uses load (d.sfmc a) out) out o) ∧
          ∃ n, q.bytes = p.bytes ++ List.replicate n 0 := by
  obtain ⟨nhlen, hlen, hxmit⟩ := hleaves.xmit skb
  generalize hout : nshPushVxlan (nshPushHeader skb nt.mdtype (nnet.devKey dev) nhlen) rdst.vni =
    out at hxmit
  have hlong : skb.len + 16 ≤ out.len ∧ out.len ≤ skb.len + 32 := by
    rw [← hout]
    exact serviceFrame_len hlen
  refine ⟨out, hxmit, ?_, fun io stats hio => nshXmit_sinks hio hxmit, ?_⟩
  · rw [← hout, nshPushVxlan, SkBuff.push_dst, nshPushHeader_dst]
  rintro load d a a' io p q rfl hacq hou hplaced
  have hfrags : p.frags.flatten.length = skb.fragLen := by
    rw [show p.frags.flatten.length = p.skb.fragLen from rfl, ← hout, nshPushVxlan,
      SkBuff.push_fragLen, nshPushHeader_fragLen]
  have hroom : ETH_ZLEN ≤ p.skb.len + 34 := by
    unfold ETH_HLEN at hmin
    unfold ETH_ZLEN
    omega
  rcases d.xmitFrame_placed hacq hroom hplaced with ⟨o, henc, hbytes⟩ | ⟨hd, hnone, hbytes⟩
  · obtain ⟨st, sf, f, huse, hf, -, hdec⟩ :=
      henc.decodes (show p.frags.flatten.length = p.skb.fragLen from rfl) (by omega)
    rw [← hbytes] at hdec
    exact .inl ⟨st, sf, f, huse, hf, hends.serves hlen rdst.vni hou hout.symm hfrags hdec⟩
  · exact .inr ⟨hd, hnone, _, hbytes⟩

/-- Path 1 with index 255 leads over device 5, which is a madcap device. -/
def madcapPath : NshTable where
  key := 0xFF010000
  spi := 1
  si := 255
  mdtype := 1
  encapType := 1
  rdev := none
  rdst := some { remoteIp := 1, localIp := 2, vni := 3, lowerdev := some 5, ethAddr := 0 }

/-- Sixty zeros on the path, by the ixgbe driver with an empty ring. -/
theorem service_frame_arrives_ixgbe : ∃ out a q st f,
    nshXmit { plainNsh with madcapEnable := true, madcapOps := fun _ => true } (onePath madcapPath) 0
      blankPacket = .ok (.madcap 5 out) ∧
    Driver.ixgbe.xmitFrame oneBucket (adapterAt udpDevice 0) (attemptAt 0)
      { data := out.data, tail := out.tail, frags := [], headroom := out.headroom, dst := out.dst,
        gsoSize := 0, csumPartial := false } = .ok (a, .placed q) ∧
    udpDevice.sfmc.Serves st f plainNsh (onePath endPath) 7 1 blankPacket.data q.bytes := by
  obtain ⟨out, hxmit, -, -, harrives⟩ := service_frame_arrives
    { plainNsh with madcapEnable := true, madcapOps := fun _ => true } plainNsh (onePath madcapPath)
    (onePath endPath) 0 7 5 blankPacket madcapPath _ ⟨rfl, .inl rfl, rfl, rfl, rfl, rfl, rfl⟩
    ⟨by decide, endPath, rfl, rfl⟩ (by decide) (by decide)
  obtain rfl := NshTx.madcap.inj (Except.ok.inj hxmit) |>.2
  rcases harrives oneBucket .ixgbe (adapterAt udpDevice 0) _ (attemptAt 0)
    { data := _, tail := _, frags := [], headroom := _, dst := _, gsoSize := 0, csumPartial := false }
    _ rfl ⟨rfl, by decide⟩ (by decide) rfl with ⟨st, sf, f, -, -, hserves⟩ | ⟨hd, -⟩
  · exact ⟨_, _, _, st.oe, f, rfl, rfl, hserves⟩
  · cases hd

end Madcap
