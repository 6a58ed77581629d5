import Madcap.Protocol.NshPaths
import Madcap.Protocol.NshReceive
import Madcap.Raven.DefaultEntry

/-!
# Giving up what is sent

`nsh_xmit` has a buffer until it frees it, one of its transports takes it over, or
`nsh_recv` accepts it. Its error exits only count.
-/

namespace Madcap

/-- What the kernel answers to one call of `nsh_xmit`: whether `skb_cow_head` finds memory for
the service header and for the transport's, whether `udp_tunnel_handle_offloads` succeeds, and
the result of the function that takes the buffer over. -/
structure NshIo where
  cowHeader : Bool
  cowTransport : Bool
  offloads : Bool
  xmit : ℤ

namespace Ops

open Traced

def nshXmitVxlanSkb (io : NshIo) (rdst : NshDst) (skb : SkBuff) : Traced SkbOp ℤ := do
  if !io.offloads then
    -- the kernel frees the buffer, and `skb_cow_head` is called with an error pointer
    perform .free
    lift (throw .badAccess)
  else
    perform .edit
    perform (.cow VXLAN_HEADROOM.toNat)
    if !io.cowTransport then
      perform .free
      return -ENOMEM
    else
      perform (.push 8)
      perform (.give (.udpTunnelXmit rdst.remoteIp (nshPushVxlan skb rdst.vni)))
      return io.xmit

/-- `nsh_xmit_vxlan_madcap`, with `madcap_queue_xmit`. -/
def nshXmitVxlanMadcap (io : NshIo) (dev : NetDev) (vni : U32) (skb : SkBuff) :
    Traced SkbOp ℤ := do
  perform (.cow VXLAN_HEADROOM.toNat)
  if !io.cowTransport then
    perform .free
    return -ENOMEM
  else
    perform (.push 8)
    perform .edit
    perform (.give (.queueXmit dev (nshPushVxlan skb vni)))
    return io.xmit

def nshXmitVxlan (env : NshEnv) (io : NshIo) (rdst : NshDst) (skb : SkBuff) : Traced SkbOp ℤ :=
  if env.routed rdst.remoteIp rdst.localIp rdst.lowerdev then nshXmitVxlanSkb io rdst skb
  else return -ENOENT

def nshXmitEther (env : NshEnv) (io : NshIo) (rdst : NshDst) (skb : SkBuff) :
    Traced SkbOp ℤ := do
  perform (.cow ETH_HLEN)
  if !io.cowTransport then
    perform .free
    return -ENOMEM
  else
    match rdst.lowerdev with
    | none => return -ENODEV
    | some lowerdev =>
      let eth := bytesOf 6 rdst.ethAddr ++ bytesOf 6 (env.devAddr lowerdev) ++
        bytesOf 2 (htons ETH_P_NSH)
      perform (.push ETH_HLEN)
      perform .edit
      perform (.give (.queueXmit lowerdev (skb.push eth)))
      return io.xmit

/-- The transport of an entry. The errors it returns are counted. -/
def nshSend (env : NshEnv) (io : NshIo) (nt : NshTable) (madcapOn : Bool) (skb : SkBuff) :
    Traced SkbOp ℤ :=
  match nt.rdst with
  | none => return NETDEV_TX_OK
  | some rdst =>
    if nt.encapType = NSH_ENCAP_TYPE_VXLAN then
      match madcapOn, rdst.lowerdev with
      | true, some lowerdev => nshXmitVxlanMadcap io lowerdev rdst.vni skb
      | _, _ => nshXmitVxlan env io rdst skb
    else if nt.encapType = NSH_ENCAP_TYPE_ETHER then nshXmitEther env io rdst skb
    else return NETDEV_TX_OK

/-- `nsh_xmit` from the room for the service header on. -/
def nshXmitHeader (env : NshEnv) (nnet : NshNet) (io : NshIo) (stats : NetDev → RxStats)
    (nt : NshTable) (madcapOn : Bool) (key : U32) (nhlen : ℕ) (skb : SkBuff) :
    Traced SkbOp (ℤ × (NetDev → RxStats)) := do
  perform (.cow nhlen)
  if !io.cowHeader then
    perform .free
    return (NETDEV_TX_OK, stats)
  else
    perform (.push nhlen)
    let skb := nshPushHeader skb nt.mdtype key nhlen
    match nt.rdev with
    | some _ =>
      let r ← nshRecv env nnet stats skb
      return (NETDEV_TX_OK, r.2)
    | none =>
      let _ ← nshSend env io nt madcapOn skb
      return (NETDEV_TX_OK, stats)

/-- `udp_flow_src_port`, for the frames that the driver itself sends over UDP. -/
def nshSrcPort (nt : NshTable) (madcapOn : Bool) : Traced SkbOp Unit :=
  if nt.encapType = NSH_ENCAP_TYPE_VXLAN ∧ madcapOn = false then perform .look else return ⟨⟩

/-- `nsh_xmit` on the device `dev`, without the counters of the device. -/
def nshXmit (env : NshEnv) (nnet : NshNet) (io : NshIo) (stats : NetDev → RxStats)
    (dev : NetDev) (skb : SkBuff) : Traced SkbOp (ℤ × (NetDev → RxStats)) :=
  match nnet.nshFindTable env (nnet.devKey dev) with
  | none => return (NETDEV_TX_OK, stats)
  | some nt => do
    let madcapOn ← lift (nshMadcapOn env nt)
    perform .look
    let nhlen? :=
      if nt.mdtype = NSH_BASE_MDTYPE1 then some NSH_MDTYPE1_HLEN
      else if nt.mdtype = NSH_BASE_MDTYPE2 then some NSH_MDTYPE2_0_HLEN
      else none
    match nhlen? with
    | none => return (NETDEV_TX_OK, stats)
    | some nhlen =>
      let _ ← nshSrcPort nt madcapOn
      nshXmitHeader env nnet io stats nt madcapOn (nnet.devKey dev) nhlen skb

end Ops

variable {env : NshEnv} {nnet : NshNet} {io : NshIo} {stats : NetDev → RxStats} {nt : NshTable}
  {rdst : NshDst} {madcapOn : Bool} {key : U32} {nhlen : ℕ} {dev : NetDev} {skb : SkBuff}

theorem nshSrcPort_result : (Ops.nshSrcPort nt madcapOn).result = .ok ⟨⟩ := by
  unfold Ops.nshSrcPort
  split_ifs
  · rfl
  · rfl

theorem nshSrcPort_reads : ∀ op ∈ (Ops.nshSrcPort nt madcapOn).trace, op.Reads := by
  unfold Ops.nshSrcPort
  split_ifs
  · exact fun _ hop => List.mem_singleton.mp hop ▸ trivial
  · exact List.forall_mem_nil _

def NshTx.sinks : NshTx → List SkbSink
  | .udpTunnel remoteIp skb => [.udpTunnelXmit remoteIp skb]
  | .madcap lowerdev skb => [.queueXmit lowerdev skb]
  | .ether lowerdev skb => [.queueXmit lowerdev skb]
  | .looped verdict => verdict.sinks
  | _ => []

/-- The kernel has memory for every header. -/
structure NshIo.Granted (io : NshIo) : Prop where
  header : io.cowHeader = true
  transport : io.cowTransport = true
  offloads : io.offloads = true

theorem nshSend_sinks (hio : io.Granted) : sinks (Ops.nshSend env io nt madcapOn skb).trace =
    (nshSend env nt madcapOn skb).sinks := by
  unfold Ops.nshSend nshSend
  cases nt.rdst with
  | none => rfl
  | some rdst =>
    have hplain : sinks (Ops.nshXmitVxlan env io rdst skb).trace =
        (nshXmitVxlan env skb rdst).sinks := by
      unfold Ops.nshXmitVxlan nshXmitVxlan Ops.nshXmitVxlanSkb
      rw [hio.offloads, hio.transport]
      cases env.routed rdst.remoteIp rdst.localIp rdst.lowerdev with
      | false => rfl
      | true => rfl
    dsimp only
    split_ifs
    · cases madcapOn with
      | false => exact hplain
      | true =>
        cases hlower : rdst.lowerdev with
        | none => exact hplain
        | some lowerdev =>
          dsimp only
          unfold Ops.nshXmitVxlanMadcap
          rw [hio.transport]
          rfl
    · unfold Ops.nshXmitEther nshXmitEther
      rw [hio.transport]
      cases rdst.lowerdev with
      | none => rfl
      | some lowerdev => rfl
    · rfl

theorem nshXmit_sinks (hio : io.Granted) {tx : NshTx}
    (h : nshXmit env nnet dev skb = .ok tx) :
    sinks (Ops.nshXmit env nnet io stats dev skb).trace = tx.sinks := by
  unfold nshXmit at h
  unfold Ops.nshXmit
  cases hfind : nnet.nshFindTable env (nnet.devKey dev) with
  | none =>
    rw [hfind] at h
    cases h
    rfl
  | some nt =>
    rw [hfind] at h
    obtain ⟨madcapOn, hon, h⟩ := bind_eq_ok.mp h
    have hheader : ∀ nhlen, (match nt.rdev with
        | some _ => pure (.looped (nshRecv env nnet
            (nshPushHeader skb nt.mdtype (nnet.devKey dev) nhlen)))
        | none => pure (nshSend env nt madcapOn
            (nshPushHeader skb nt.mdtype (nnet.devKey dev) nhlen)) : Res NshTx) = .ok tx →
        sinks (Ops.nshXmitHeader env nnet io stats nt madcapOn (nnet.devKey dev) nhlen
          skb).trace = tx.sinks := by
      intro nhlen htx
      unfold Ops.nshXmitHeader
      rw [hio.header, sinks_bind rfl, if_neg (by decide), sinks_bind rfl]
      cases hdev : nt.rdev with
      | some rdev =>
        rw [hdev] at htx
        cases htx
        dsimp only
        rw [Traced.trace_bind_pure, nshRecv_sinks]
        rfl
      | none =>
        rw [hdev] at htx
        cases htx
        dsimp only
        rw [Traced.trace_bind_pure, nshSend_sinks hio]
        rfl
    dsimp only at h ⊢
    rw [hon, sinks_bind rfl, sinks_bind rfl]
    split_ifs at h ⊢ with h1 h2
    · dsimp only
      rw [sinks_bind nshSrcPort_result, sinks_of_reads nshSrcPort_reads]
      exact hheader _ h
    · dsimp only
      rw [sinks_bind nshSrcPort_result, sinks_of_reads nshSrcPort_reads]
      exact hheader _ h
    · cases h
      rfl

end Madcap
