import Madcap.Buffers
import Madcap.Protocol.NshRoundTrip

/-!
# Receiving a service header

`nsh_recv` and its two callers, by what they do to the buffer. The driver never
asks how long the buffer is or what the length field says, and it leaves a buffer
that it refuses to its caller. The checks it makes and the length of what it
accepts together tell when it stays inside the buffer. The callers dispose of what
passes the checks and does not stop the kernel when it is pulled.
-/

namespace Madcap

namespace Ops

open Traced

/-- The end of `nsh_recv`: the header is pulled, and the frame is counted and queued. -/
def nshDeliver (stats : NetDev → RxStats) (skb : SkBuff) (dev : NetDev) :
    Traced SkbOp (ℤ × (NetDev → RxStats)) := do
  perform (.load skb 1 1)
  let hdrlen := nshBaseLength (skb.byte 1) <<< 2
  perform (.pull skb hdrlen)
  let frame ← lift (skb.pull hdrlen)
  -- `eth_type_trans`, `skb_scrub_packet` and the header offsets
  perform .edit
  let inner ← lift (ethTypeTrans frame)
  perform .look
  let rx : RxStats :=
    { rxPackets := (stats dev).rxPackets + 1
      rxBytes := (stats dev).rxBytes + BitVec.ofNat 64 inner.len }
  perform (.give (.netifRx dev { frame with dst := none }))
  return (0, Function.update stats dev rx)

/-- `nsh_recv` of a buffer that starts with the service header. -/
def nshRecv (env : NshEnv) (nnet : NshNet) (stats : NetDev → RxStats) (skb : SkBuff) :
    Traced SkbOp (ℤ × (NetDev → RxStats)) := do
  perform (.load skb 0 1)
  if !nshBaseCheckVersion (skb.byte 0) 0 then return (-1, stats)
  else if nshBaseOam (skb.byte 0) then return (-1, stats)
  else
    perform (.load skb 3 1)
    if skb.byte 3 ≠ NSH_BASE_PROTO_ETH then return (-1, stats)
    else
      perform (.load skb 4 4)
      let spisi := load32 fun i => skb.byte (4 + i)
      if htonl spisi &&& 0xFF = 0 then return (-1, stats)
      else
        match nnet.nshFindTable env spisi with
        | none => return (-1, stats)
        | some nt =>
          match nt.rdev with
          | none => return (-1, stats)
          | some dev => nshDeliver stats skb dev

/-- `nsh_vxlan_udp_encap_recv` of a buffer that starts with its UDP header. -/
def nshVxlanUdpEncapRecv (env : NshEnv) (nnet : NshNet) (stats : NetDev → RxStats)
    (skb : SkBuff) (pulled : Option (PulledTail skb VXLAN_HLEN)) :
    Traced SkbOp (ℤ × (NetDev → RxStats)) := do
  perform .look
  match pskbMayPull skb VXLAN_HLEN pulled with
  | none => return (1, stats)
  | some skb =>
    perform (.load skb 8 4)
    let vxFlags := load32 fun i => skb.byte (8 + i)
    if vxFlags ≠ htonl (VXLAN_GPE_FLAGS ||| VXLAN_GPE_PROTO_NSH) then return (1, stats)
    else
      perform (.pull skb VXLAN_HLEN)
      let skb ← lift (skb.pull VXLAN_HLEN)
      nshRecv env nnet stats skb

/-- `nsh_ether_encap_recv` of a buffer whose Ethernet header has been pulled. When
`skb_share_check` cannot clone a shared buffer, it frees it. -/
def nshEtherEncapRecv (env : NshEnv) (nnet : NshNet) (stats : NetDev → RxStats)
    (pktType : PktType) (shareCheck : Bool) (skb : SkBuff) :
    Traced SkbOp (ℤ × (NetDev → RxStats)) := do
  perform .look
  if pktType = .otherhost then
    perform .free
    return (NET_RX_DROP, stats)
  else
    perform .look
    if !shareCheck then
      perform .free
      return (NET_RX_DROP, stats)
    else
      let (err, stats) ← nshRecv env nnet stats skb
      if err < 0 then return (NET_RX_DROP, stats) else return (1, stats)

end Ops

section

variable {env : NshEnv} {nnet : NshNet} {stats : NetDev → RxStats} {skb : SkBuff} {dev : NetDev}

/-- The checks of `nsh_recv`. -/
structure NshAccepts (env : NshEnv) (nnet : NshNet) (skb : SkBuff) (dev : NetDev) : Prop where
  version : nshBaseCheckVersion (skb.byte 0) 0 = true
  oam : nshBaseOam (skb.byte 0) = false
  protocol : skb.byte 3 = NSH_BASE_PROTO_ETH
  si : htonl (load32 fun i => skb.byte (4 + i)) &&& 0xFF ≠ 0
  path : ∃ nt, nnet.nshFindTable env (load32 fun i => skb.byte (4 + i)) = some nt ∧
    nt.rdev = some dev

/-- The fields that the checks look at before the first of them fails. -/
def nshLoads (skb : SkBuff) : List SkbOp :=
  if nshBaseCheckVersion (skb.byte 0) 0 && !nshBaseOam (skb.byte 0) then
    if skb.byte 3 = NSH_BASE_PROTO_ETH then [.load skb 0 1, .load skb 3 1, .load skb 4 4]
    else [.load skb 0 1, .load skb 3 1]
  else
    [.load skb 0 1]

/-- A refused buffer is only read. -/
structure Refused (stats : NetDev → RxStats) (loads : List SkbOp)
    (t : Traced SkbOp (ℤ × (NetDev → RxStats))) : Prop where
  trace : t.trace = loads
  result : t.result = .ok (-1, stats)

theorem nshRecv_cases (env : NshEnv) (nnet : NshNet) (stats : NetDev → RxStats) (skb : SkBuff) :
    (∃ dev, NshAccepts env nnet skb dev ∧
      (Ops.nshRecv env nnet stats skb).trace =
        nshLoads skb ++ (Ops.nshDeliver stats skb dev).trace ∧
      (Ops.nshRecv env nnet stats skb).result = (Ops.nshDeliver stats skb dev).result) ∨
    (∀ dev, ¬ NshAccepts env nnet skb dev) ∧
      Refused stats (nshLoads skb) (Ops.nshRecv env nnet stats skb) := by
  have hrefuse : ∀ {P : Prop}, (∀ dev, NshAccepts env nnet skb dev → P) → ¬ P →
      ∀ dev, ¬ NshAccepts env nnet skb dev := fun hP hno dev h => hno (hP dev h)
  unfold Ops.nshRecv nshLoads
  cases hversion : nshBaseCheckVersion (skb.byte 0) 0 with
  | false =>
    exact .inr ⟨hrefuse (fun _ h => h.version) (by rw [hversion]; decide), rfl, rfl⟩
  | true =>
  cases hoam : nshBaseOam (skb.byte 0) with
  | true => exact .inr ⟨hrefuse (fun _ h => h.oam) (by rw [hoam]; decide), rfl, rfl⟩
  | false =>
  by_cases hproto : skb.byte 3 = NSH_BASE_PROTO_ETH
  swap
  · right
    refine ⟨hrefuse (fun _ h => h.protocol) hproto, ?_⟩
    simp only [hproto, ne_eq, not_false_eq_true, if_true, if_false]
    exact ⟨rfl, rfl⟩
  by_cases hsi : htonl (load32 fun i => skb.byte (4 + i)) &&& 0xFF = 0
  · right
    refine ⟨hrefuse (fun _ h => h.si) (not_not.mpr hsi), ?_⟩
    simp only [hproto, hsi, ne_eq, not_true_eq_false, if_true, if_false]
    exact ⟨rfl, rfl⟩
  simp only [hproto, hsi, ne_eq, not_true_eq_false, if_true, if_false]
  cases hfind : nnet.nshFindTable env (load32 fun i => skb.byte (4 + i)) with
  | none =>
    refine .inr ⟨fun dev h => ?_, rfl, rfl⟩
    obtain ⟨nt, hnt, -⟩ := h.path
    cases hfind.symm.trans hnt
  | some nt =>
    dsimp only
    cases hdev : nt.rdev with
    | none =>
      refine .inr ⟨fun dev h => ?_, rfl, rfl⟩
      obtain ⟨nt', hnt, hnt'⟩ := h.path
      cases hfind.symm.trans hnt
      cases hdev.symm.trans hnt'
    | some dev => exact .inl ⟨dev, ⟨hversion, hoam, hproto, hsi, nt, hfind, hdev⟩, rfl, rfl⟩

theorem nshDeliver_cases (stats : NetDev → RxStats) (skb : SkBuff) (dev : NetDev) :
    (∃ frame stats', nshStrip skb (nshBaseLength (skb.byte 1) <<< 2) = .ok frame ∧
      (Ops.nshDeliver stats skb dev).trace = [.load skb 1 1,
        .pull skb (nshBaseLength (skb.byte 1) <<< 2), .edit, .look, .give (.netifRx dev frame)] ∧
      (Ops.nshDeliver stats skb dev).result = .ok (0, stats')) ∨
    ∃ e, nshStrip skb (nshBaseLength (skb.byte 1) <<< 2) = .error e ∧
      (∀ op ∈ (Ops.nshDeliver stats skb dev).trace, ¬ op.Consumes ∧ op.sink? = none) ∧
      (Ops.nshDeliver stats skb dev).result = .error e := by
  unfold Ops.nshDeliver nshStrip
  dsimp only
  generalize nshBaseLength (skb.byte 1) <<< 2 = hdrlen
  cases hframe : skb.pull hdrlen with
  | error e =>
    simp only [Traced.lift_error_bind]
    refine .inr ⟨e, rfl, ?_, rfl⟩
    intro op hop
    have hmem : op ∈ [SkbOp.load skb 1 1, .pull skb hdrlen] := hop
    simp only [List.mem_cons, List.not_mem_nil, or_false] at hmem
    rcases hmem with rfl | rfl <;> exact ⟨not_false, rfl⟩
  | ok frame =>
    simp only [Traced.lift_ok_bind]
    cases hinner : ethTypeTrans frame with
    | error e =>
      simp only [Traced.lift_error_bind]
      refine .inr ⟨e, ?_, ?_, rfl⟩
      · simp only [bind, Except.bind, hinner]
      · intro op hop
        have hmem : op ∈ [SkbOp.load skb 1 1, .pull skb hdrlen, .edit] := hop
        simp only [List.mem_cons, List.not_mem_nil, or_false] at hmem
        rcases hmem with rfl | rfl | rfl <;> exact ⟨not_false, rfl⟩
    | ok inner =>
      simp only [Traced.lift_ok_bind]
      refine .inl ⟨{ frame with dst := none }, _, ?_, rfl, rfl⟩
      simp only [bind, Except.bind, hinner]
      rfl

theorem nshLoads_reads : ∀ op ∈ nshLoads skb, op.Reads := by
  intro op hop
  unfold nshLoads at hop
  split_ifs at hop
  · simp only [List.mem_cons, List.not_mem_nil, or_false] at hop
    rcases hop with rfl | rfl | rfl <;> trivial
  · simp only [List.mem_cons, List.not_mem_nil, or_false] at hop
    rcases hop with rfl | rfl <;> trivial
  · cases List.mem_singleton.mp hop
    trivial

theorem NshAccepts.unique {dev' : NetDev} (h : NshAccepts env nnet skb dev)
    (h' : NshAccepts env nnet skb dev') : dev = dev' := by
  obtain ⟨nt, hnt, hdev⟩ := h.path
  obtain ⟨nt', hnt', hdev'⟩ := h'.path
  cases hnt.symm.trans hnt'
  exact Option.some.inj (hdev.symm.trans hdev')

def NshVerdict.sinks : NshVerdict → List SkbSink
  | .delivered dev skb => [.netifRx dev skb]
  | _ => []

theorem NshAccepts.recv (h : NshAccepts env nnet skb dev) {frame : SkBuff}
    (hstrip : nshStrip skb (nshBaseLength (skb.byte 1) <<< 2) = .ok frame) :
    nshRecv env nnet skb = .delivered dev frame := by
  obtain ⟨nt, hnt, hdev⟩ := h.path
  simp only [nshRecv, h.version, h.oam, h.protocol, h.si, hnt, hdev, hstrip, Bool.not_true, ne_eq,
    not_true_eq_false, Bool.false_eq_true, if_false]

theorem NshAccepts.recv_stopped (h : NshAccepts env nnet skb dev) {e : Fault}
    (hstrip : nshStrip skb (nshBaseLength (skb.byte 1) <<< 2) = .error e) :
    nshRecv env nnet skb = .stopped := by
  obtain ⟨nt, hnt, hdev⟩ := h.path
  simp only [nshRecv, h.version, h.oam, h.protocol, h.si, hnt, hdev, hstrip, Bool.not_true, ne_eq,
    not_true_eq_false, Bool.false_eq_true, if_false]

theorem nshRecv_rejected (h : ∀ dev, ¬ NshAccepts env nnet skb dev) :
    nshRecv env nnet skb = .rejected := by
  unfold nshRecv
  dsimp only
  split_ifs with hversion hoam hproto hsi
  · rfl
  · rfl
  · rfl
  · rfl
  · cases hfind : nnet.nshFindTable env (load32 fun i => skb.byte (4 + i)) with
    | none => rfl
    | some nt =>
      dsimp only
      cases hdev : nt.rdev with
      | none => rfl
      | some dev =>
        exact absurd ⟨by simpa using hversion, by simpa using hoam, not_not.mp hproto, hsi, nt,
          hfind, hdev⟩ (h dev)

theorem nshRecv_sinks : sinks (Ops.nshRecv env nnet stats skb).trace =
    (nshRecv env nnet skb).sinks := by
  rcases nshRecv_cases env nnet stats skb with ⟨dev, haccepts, htrace, -⟩ | ⟨hrefuses, href⟩
  · rw [htrace, sinks, List.filterMap_append, ← sinks, ← sinks, sinks_of_reads nshLoads_reads]
    rcases nshDeliver_cases stats skb dev with
      ⟨frame, stats', hstrip, hdeliver, -⟩ | ⟨e, hstrip, hdeliver, -⟩
    · rw [hdeliver, haccepts.recv hstrip]
      rfl
    · rw [haccepts.recv_stopped hstrip]
      exact List.filterMap_eq_nil_iff.mpr fun op hop => (hdeliver op hop).2
  · rw [href.trace, nshRecv_rejected hrefuses, sinks_of_reads nshLoads_reads]
    rfl

/-- A service header whose length field is right. -/
structure NshWellFormed (skb : SkBuff) : Prop where
  base : 8 ≤ skb.data.length
  length : 2 ≤ nshBaseLength (skb.byte 1)
  mdtype1 : skb.byte 2 = NSH_BASE_MDTYPE1 → nshBaseLength (skb.byte 1) = 6
  inside : 4 * nshBaseLength (skb.byte 1) ≤ skb.data.length

/-- `nsh_recv` accepts well-formed headers only and hands on what follows them; it refuses
everything else without a trace and without leaving the data. -/
def AcceptsWellFormed (env : NshEnv) (nnet : NshNet) (stats : NetDev → RxStats) (skb : SkBuff) :
    Prop :=
  ∃ ret stats', (Ops.nshRecv env nnet stats skb).result = .ok (ret, stats') ∧
    (ret = 0 → NshWellFormed skb ∧ ∃ dev frame,
      sinks (Ops.nshRecv env nnet stats skb).trace = [.netifRx dev frame] ∧
        frame.data = skb.data.drop (4 * nshBaseLength (skb.byte 1)) ∧
        frame.fragLen = skb.fragLen) ∧
    (ret ≠ 0 → ret = -1 ∧ stats' = stats ∧
      ∀ op ∈ (Ops.nshRecv env nnet stats skb).trace, op.Inside)

/-- The buffer holds the fields up to the first that is refused, and the length field of a
header that passes every check is right. The Ethernet header behind it is not in fragments. -/
structure HoldsHeader (env : NshEnv) (nnet : NshNet) (skb : SkBuff) : Prop where
  flags : 1 ≤ skb.data.length
  protocol : nshBaseCheckVersion (skb.byte 0) 0 = true → nshBaseOam (skb.byte 0) = false →
    4 ≤ skb.data.length
  path : nshBaseCheckVersion (skb.byte 0) 0 = true → nshBaseOam (skb.byte 0) = false →
    skb.byte 3 = NSH_BASE_PROTO_ETH → 8 ≤ skb.data.length
  length : ∀ dev, NshAccepts env nnet skb dev →
    2 ≤ nshBaseLength (skb.byte 1) ∧
      (skb.byte 2 = NSH_BASE_MDTYPE1 → nshBaseLength (skb.byte 1) = 6) ∧
      4 * nshBaseLength (skb.byte 1) ≤ skb.data.length
  ethernet : ∀ dev, NshAccepts env nnet skb dev →
    skb.Pullable (4 * nshBaseLength (skb.byte 1) + ETH_HLEN)

theorem nshLoads_inside_iff : (∀ op ∈ nshLoads skb, op.Inside) ↔ 1 ≤ skb.data.length ∧
    (nshBaseCheckVersion (skb.byte 0) 0 = true → nshBaseOam (skb.byte 0) = false →
      4 ≤ skb.data.length ∧ (skb.byte 3 = NSH_BASE_PROTO_ETH → 8 ≤ skb.data.length)) := by
  unfold nshLoads
  cases hversion : nshBaseCheckVersion (skb.byte 0) 0 with
  | false => simp [SkbOp.Inside]
  | true =>
    cases hoam : nshBaseOam (skb.byte 0) with
    | true => simp [SkbOp.Inside]
    | false =>
      by_cases hproto : skb.byte 3 = NSH_BASE_PROTO_ETH
      · simp [hproto, SkbOp.Inside]
      · simp [hproto, SkbOp.Inside]

theorem accepts_well_formed_iff (env : NshEnv) (nnet : NshNet) (stats : NetDev → RxStats)
    (skb : SkBuff) : AcceptsWellFormed env nnet stats skb ↔ HoldsHeader env nnet skb := by
  rcases nshRecv_cases env nnet stats skb with ⟨dev, haccepts, htrace, hresult⟩ | ⟨hrefuses, href⟩
  · have hhdrlen : nshBaseLength (skb.byte 1) <<< 2 = 4 * nshBaseLength (skb.byte 1) := by
      rw [Nat.shiftLeft_eq, Nat.mul_comm]
    have hdeliver := nshDeliver_cases stats skb dev
    rw [hhdrlen] at hdeliver
    constructor
    · rintro ⟨ret, stats'', hret, haccepted, -⟩
      rcases hdeliver with ⟨frame, stats', hstrip, -, hok⟩ | ⟨e, -, -, herror⟩
      · obtain ⟨rfl, -⟩ := ok_pair_inj ((hresult.trans hok).symm.trans hret)
        obtain ⟨hwf, -⟩ := haccepted rfl
        have hbase := hwf.base
        have hshort := nshBaseLength_le (skb.byte 1)
        rw [hhdrlen] at hshort
        have hstrips := (nshStrip_ok_iff hshort).mp ⟨frame, hstrip⟩
        exact ⟨by omega, fun _ _ => by omega, fun _ _ _ => hbase,
          fun _ _ => ⟨hwf.length, hwf.mdtype1, hwf.inside⟩, fun _ _ => hstrips.frame⟩
      · cases (hresult.trans herror).symm.trans hret
    · intro h
      obtain ⟨hlength, hmdtype1, hinside⟩ := h.length dev haccepts
      have hlinear := nshStrip_linear hinside (h.ethernet dev haccepts)
      rcases hdeliver with ⟨frame, stats', hstrip, -, hok⟩ | ⟨e, hstrip, -, -⟩
      · have hframe := Except.ok.inj (hstrip.symm.trans hlinear)
        refine ⟨0, stats', hresult.trans hok, fun _ => ⟨⟨?_, hlength, hmdtype1, hinside⟩, ?_⟩,
          fun hne => absurd rfl hne⟩
        · exact h.path haccepts.version haccepts.oam haccepts.protocol
        · refine ⟨dev, frame, ?_, by rw [hframe], by rw [hframe]⟩
          rw [nshRecv_sinks, haccepts.recv (hhdrlen ▸ hstrip)]
          rfl
      · cases hstrip.symm.trans hlinear
  · constructor
    · rintro ⟨ret, stats', hret, -, hrefused⟩
      obtain ⟨rfl, -⟩ := ok_pair_inj (href.result.symm.trans hret)
      obtain ⟨-, -, hinside⟩ := hrefused (by decide)
      rw [href.trace] at hinside
      obtain ⟨hflags, hrest⟩ := nshLoads_inside_iff.mp hinside
      exact ⟨hflags, fun hv ho => (hrest hv ho).1, fun hv ho => (hrest hv ho).2,
        fun dev hdev => absurd hdev (hrefuses dev), fun dev hdev => absurd hdev (hrefuses dev)⟩
    · intro h
      refine ⟨-1, stats, href.result, fun hzero => absurd hzero (by decide),
        fun _ => ⟨rfl, rfl, ?_⟩⟩
      rw [href.trace]
      exact nshLoads_inside_iff.mpr
        ⟨h.flags, fun hv ho => ⟨h.protocol hv ho, h.path hv ho⟩⟩

def localPath : NshNet :=
  onePath { key := 0xFF010000, spi := 1, si := 255, mdtype := 1, encapType := 0, rdev := some 7,
            rdst := none }

def plainSkb (data : List U8) : SkBuff :=
  { data := data, tail := fun _ => 0, fragLen := 0, headroom := 64, dst := none }

def noRx : NetDev → RxStats := fun _ => { rxPackets := 0, rxBytes := 0 }

/-- A header of no words is accepted and handed on as the frame. -/
theorem empty_header_accepted : ¬ AcceptsWellFormed plainNsh localPath noRx
    (plainSkb [0, 0, 2, 3, 0, 0, 1, 255]) := by
  rintro ⟨ret, stats', hret, haccepted, -⟩
  obtain ⟨rfl, -⟩ := ok_pair_inj hret
  obtain ⟨hwf, -⟩ := haccepted rfl
  exact absurd hwf.length (by decide)

variable {pktType : PktType} {shareCheck : Bool}

/-- A header that passes every check, and does not stop the kernel when it is pulled. -/
structure NshTakesIn (env : NshEnv) (nnet : NshNet) (skb : SkBuff) : Prop where
  accepts : ∃ dev, NshAccepts env nnet skb dev
  strips : Strips skb (nshBaseLength (skb.byte 1) <<< 2)

theorem nshDeliver_disposed_iff : Disposed (Ops.nshDeliver stats skb dev).trace ↔
    Strips skb (nshBaseLength (skb.byte 1) <<< 2) := by
  rw [← nshStrip_ok_iff (nshBaseLength_le (skb.byte 1))]
  rcases nshDeliver_cases stats skb dev with ⟨frame, stats', hstrip, htrace, -⟩ | ⟨e, hstrip, hkeeps, -⟩
  · refine iff_of_true ?_ ⟨frame, hstrip⟩
    rw [htrace]
    refine ⟨[.load skb 1 1, .pull skb (nshBaseLength (skb.byte 1) <<< 2), .edit, .look], _, rfl,
      trivial, fun op hop => ?_⟩
    simp only [List.mem_cons, List.not_mem_nil, or_false] at hop
    rcases hop with rfl | rfl | rfl | rfl <;> exact not_false
  · refine iff_of_false (not_consumedOnce_of_not fun op hop => (hkeeps op hop).1) ?_
    rintro ⟨frame, hframe⟩
    cases hstrip.symm.trans hframe

/-- `nsh_recv` gives up what it takes in, and nothing else. -/
theorem nshRecv_disposed_iff :
    Disposed (Ops.nshRecv env nnet stats skb).trace ↔ NshTakesIn env nnet skb := by
  have hkeeps : ∀ op ∈ nshLoads skb, ¬ op.Consumes :=
    fun op hop => (nshLoads_reads op hop).not_consumes
  rcases nshRecv_cases env nnet stats skb with ⟨dev, haccepts, htrace, -⟩ | ⟨hrefuses, href⟩
  · rw [htrace, Disposed, consumedOnce_append_of_not hkeeps]
    exact nshDeliver_disposed_iff.trans ⟨fun h => ⟨⟨dev, haccepts⟩, h⟩, NshTakesIn.strips⟩
  · constructor
    · intro h
      rw [href.trace] at h
      exact absurd h (not_consumedOnce_of_not hkeeps)
    · rintro ⟨⟨dev, haccepts⟩, -⟩
      exact absurd haccepts (hrefuses dev)

theorem nshRecv_result : NshTakesIn env nnet skb ∧
      (∃ stats', (Ops.nshRecv env nnet stats skb).result = .ok (0, stats')) ∨
    ¬ NshTakesIn env nnet skb ∧ ((Ops.nshRecv env nnet stats skb).result = .ok (-1, stats) ∨
      ∃ e, (Ops.nshRecv env nnet stats skb).result = .error e) := by
  rcases nshRecv_cases env nnet stats skb with ⟨dev, haccepts, -, hresult⟩ | ⟨hrefuses, href⟩
  · have hiff : (∃ frame, nshStrip skb (nshBaseLength (skb.byte 1) <<< 2) = .ok frame) ↔ _ :=
      nshStrip_ok_iff (nshBaseLength_le (skb.byte 1))
    rcases nshDeliver_cases stats skb dev with ⟨frame, stats', hstrip, -, hok⟩ | ⟨e, hstrip, -, herror⟩
    · exact .inl ⟨⟨⟨dev, haccepts⟩, hiff.mp ⟨frame, hstrip⟩⟩, stats', hresult.trans hok⟩
    · refine .inr ⟨fun h => ?_, .inr ⟨e, hresult.trans herror⟩⟩
      obtain ⟨frame, hframe⟩ := hiff.mpr h.strips
      cases hstrip.symm.trans hframe
  · refine .inr ⟨?_, .inl href.result⟩
    rintro ⟨⟨dev, haccepts⟩, -⟩
    exact hrefuses dev haccepts

/-- What the UDP hook may do: leave the buffer as it is and return 1, or take it and return 0. -/
def UdpHookDisposes (t : Traced SkbOp (ℤ × (NetDev → RxStats))) : Prop :=
  ∃ ret stats', t.result = .ok (ret, stats') ∧
    (ret = 1 ∧ (∀ op ∈ t.trace, op.Reads) ∨ ret = 0 ∧ Disposed t.trace)

/-- The outer header is not for the driver, or `nsh_recv` takes the inner one in. -/
def VxlanNshOk (env : NshEnv) (nnet : NshNet) (skb : SkBuff)
    (pulled : Option (PulledTail skb VXLAN_HLEN)) : Prop :=
  ∀ skb' inner, pskbMayPull skb VXLAN_HLEN pulled = some skb' →
    (load32 fun i => skb'.byte (8 + i)) = htonl (VXLAN_GPE_FLAGS ||| VXLAN_GPE_PROTO_NSH) →
    skb'.pull VXLAN_HLEN = .ok inner → NshTakesIn env nnet inner

theorem vxlan_disposes_iff {pulled : Option (PulledTail skb VXLAN_HLEN)} :
    UdpHookDisposes (Ops.nshVxlanUdpEncapRecv env nnet stats skb pulled) ↔
      VxlanNshOk env nnet skb pulled := by
  unfold Ops.nshVxlanUdpEncapRecv VxlanNshOk
  cases hpull : pskbMayPull skb VXLAN_HLEN pulled with
  | none =>
    refine ⟨fun _ skb' _ h => (by cases h), fun _ => ⟨1, stats, rfl, .inl ⟨rfl, ?_⟩⟩⟩
    intro op hop
    cases List.mem_singleton.mp hop
    trivial
  | some skb' =>
    by_cases hflags : (load32 fun i => skb'.byte (8 + i)) =
        htonl (VXLAN_GPE_FLAGS ||| VXLAN_GPE_PROTO_NSH)
    · simp only [hflags, ne_eq, not_true_eq_false, if_false]
      have hpull' := SkBuff.pull_linear (pskbMayPull_linear hpull)
      generalize ({ skb' with
        data := skb'.data.drop VXLAN_HLEN
        headroom := skb'.headroom + (VXLAN_HLEN : ℕ) } : SkBuff) = inner at hpull'
      rw [hpull']
      constructor
      · rintro ⟨ret, stats'', hresult', hdisposes⟩ _ _ hsome - hinner
        cases hsome
        cases hpull'.symm.trans hinner
        rcases @nshRecv_result env nnet stats inner with
          ⟨htakes, -⟩ | ⟨-, hresult | ⟨e, hresult⟩⟩
        · exact htakes
        · -- a negative code tells the stack to look for another protocol
          obtain ⟨rfl, -⟩ := ok_pair_inj (hresult.symm.trans hresult')
          rcases hdisposes with ⟨h, -⟩ | ⟨h, -⟩ <;> exact absurd h (by decide)
        · cases hresult.symm.trans hresult'
      · intro h
        have htakes := h skb' inner rfl hflags hpull'
        rcases @nshRecv_result env nnet stats inner with ⟨-, stats', hresult⟩ | ⟨hno, -⟩
        · refine ⟨0, stats', hresult, .inr ⟨rfl, ?_⟩⟩
          have hkeeps : ∀ op ∈ [SkbOp.look, .load skb' 8 4, .pull skb' VXLAN_HLEN],
              ¬ op.Consumes := by
            intro op hop
            simp only [List.mem_cons, List.not_mem_nil, or_false] at hop
            rcases hop with rfl | rfl | rfl <;> exact not_false
          exact (consumedOnce_append_of_not hkeeps).mpr (nshRecv_disposed_iff.mpr htakes)
        · exact absurd htakes hno
    · simp only [hflags, ne_eq, not_false_eq_true, if_true]
      refine ⟨fun _ _ _ hsome h => ?_, fun _ => ⟨1, stats, rfl, .inl ⟨rfl, ?_⟩⟩⟩
      · cases hsome
        exact absurd h hflags
      · intro op hop
        rcases List.mem_cons.mp hop with rfl | hop
        · trivial
        · cases List.mem_singleton.mp hop
          trivial

/-- The frame is not for this host, the kernel has no memory to unshare it, or `nsh_recv` takes
it in. -/
def EtherNshOk (env : NshEnv) (nnet : NshNet) (pktType : PktType) (shareCheck : Bool)
    (skb : SkBuff) : Prop :=
  pktType = .otherhost ∨ shareCheck = false ∨ NshTakesIn env nnet skb

theorem ether_disposes_iff :
    Disposed (Ops.nshEtherEncapRecv env nnet stats pktType shareCheck skb).trace ↔
      EtherNshOk env nnet pktType shareCheck skb := by
  unfold Ops.nshEtherEncapRecv EtherNshOk
  have hlook : ∀ {ops : List SkbOp}, Disposed (.look :: ops) ↔ Disposed ops :=
    consumedOnce_cons_of_not not_false
  have hfree : Disposed [.free] := (consumedOnce_cons_of trivial).mpr rfl
  rw [Traced.trace_perform_bind, hlook]
  by_cases hhost : pktType = .otherhost
  · simp only [hhost, if_true, true_or, iff_true]
    exact hfree
  · cases shareCheck with
    | false =>
      simp only [hhost, if_false, Bool.not_false, if_true, true_or, or_true, iff_true]
      exact hlook.mpr hfree
    | true =>
      simp only [hhost, if_false, Bool.not_true, Bool.false_eq_true, Bool.true_eq_false, false_or]
      rw [Traced.trace_perform_bind, hlook, ← @nshRecv_disposed_iff env nnet stats skb]
      have hend : (fun res : ℤ × (NetDev → RxStats) => (if res.1 < 0 then
          pure (NET_RX_DROP, res.2) else pure (1, res.2) : Traced SkbOp (ℤ × (NetDev → RxStats)))) =
          fun res => pure (if res.1 < 0 then NET_RX_DROP else 1, res.2) := by
        funext res
        split_ifs <;> rfl
      have htrace := Traced.trace_bind_pure (Ops.nshRecv env nnet stats skb)
        fun res => (if res.1 < 0 then NET_RX_DROP else 1, res.2)
      rw [← hend] at htrace
      exact iff_of_eq (congrArg Disposed htrace)

/-- Both callers dispose of a buffer just when `nsh_recv` does not refuse it, and the kernel does
not stop at a header in its fragments. -/
theorem handlers_dispose_iff (env : NshEnv) (nnet : NshNet) (stats : NetDev → RxStats)
    (skb : SkBuff) :
    (∀ pulled, UdpHookDisposes (Ops.nshVxlanUdpEncapRecv env nnet stats skb pulled) ↔
      VxlanNshOk env nnet skb pulled) ∧
    (∀ pktType shareCheck,
      Disposed (Ops.nshEtherEncapRecv env nnet stats pktType shareCheck skb).trace ↔
        EtherNshOk env nnet pktType shareCheck skb) :=
  ⟨fun _ => vxlan_disposes_iff, fun _ _ => ether_disposes_iff⟩

/-- A maintenance header is handed back to UDP as a packet of protocol 1, and not freed when it
came over Ethernet. -/
theorem refused_header_not_disposed :
    ¬ UdpHookDisposes (Ops.nshVxlanUdpEncapRecv plainNsh localPath noRx
        (plainSkb ([0, 0, 0, 0, 0, 0, 0, 0, 0x0C, 0, 0, 4, 0, 0, 0, 0] ++
          [0x20, 2, 2, 3, 0, 0, 1, 255])) none) ∧
      ¬ Disposed (Ops.nshEtherEncapRecv plainNsh localPath noRx .host true
        (plainSkb [0x20, 2, 2, 3, 0, 0, 1, 255])).trace := by
  constructor
  · rintro ⟨ret, stats', hret, hdisposes⟩
    obtain ⟨rfl, -⟩ := ok_pair_inj hret
    rcases hdisposes with ⟨h, -⟩ | ⟨h, -⟩
    · exact absurd h (by decide)
    · exact absurd h (by decide)
  · refine not_consumedOnce_of_not fun op hop => ?_
    have htrace : op ∈ [SkbOp.look, .look,
        .load (plainSkb [0x20, 2, 2, 3, 0, 0, 1, 255]) 0 1] := hop
    simp only [List.mem_cons, List.not_mem_nil, or_false] at htrace
    rcases htrace with rfl | rfl | rfl <;> exact not_false

end

end Madcap
