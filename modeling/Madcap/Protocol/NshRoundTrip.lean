import Madcap.Protocol.Nsh

/-!
# Decoding a service header undoes encoding it

Encoder and decoder work out the length of the header, its flags and its path on
their own. Whatever transport carries the frame, the receiver looks up the path
the sender used and hands the original frame to the path's device.
-/

namespace Madcap

/-- The lengths `nsh_xmit` picks. -/
def NshHlen (mdtype : U8) (nhlen : ℕ) : Prop :=
  mdtype = NSH_BASE_MDTYPE1 ∧ nhlen = NSH_MDTYPE1_HLEN ∨
    mdtype = NSH_BASE_MDTYPE2 ∧ nhlen = NSH_MDTYPE2_0_HLEN

def nshHeader (mdtype : U8) (key : U32) (nhlen : ℕ) : List U8 :=
  [0, BitVec.ofNat 8 (nhlen >>> 2), mdtype, NSH_BASE_PROTO_ETH] ++ (bytesOf 4 key ++
    if mdtype = NSH_BASE_MDTYPE1 then List.replicate 16 0 else [])

variable {env : NshEnv} {nnet : NshNet} {skb out : SkBuff} {mdtype : U8} {key : U32} {nhlen : ℕ}
  {nt : NshTable} {dev : NetDev} {inner : List U8}

theorem nshHeader_length (h : NshHlen mdtype nhlen) : (nshHeader mdtype key nhlen).length = nhlen := by
  rcases h with ⟨rfl, rfl⟩ | ⟨rfl, rfl⟩
  · simp [nshHeader, NSH_MDTYPE1_HLEN]
  · simp [nshHeader, NSH_MDTYPE2_0_HLEN, NSH_BASE_MDTYPE1, NSH_BASE_MDTYPE2]

theorem nshPushHeader_data : (nshPushHeader skb mdtype key nhlen).data =
    nshHeader mdtype key nhlen ++ skb.data := by
  unfold nshPushHeader nshHeader
  by_cases h : mdtype = NSH_BASE_MDTYPE1
  · simp [h]
  · simp [h]

theorem nshPushHeader_fragLen : (nshPushHeader skb mdtype key nhlen).fragLen = skb.fragLen := by
  unfold nshPushHeader
  by_cases h : mdtype = NSH_BASE_MDTYPE1
  · simp [h]
  · simp [h]

def nshHlen (mdtype : U8) : ℕ :=
  if mdtype = NSH_BASE_MDTYPE1 then NSH_MDTYPE1_HLEN else NSH_MDTYPE2_0_HLEN

theorem NshHlen.eq_nshHlen (h : NshHlen mdtype nhlen) : nhlen = nshHlen mdtype := by
  unfold nshHlen
  rcases h with ⟨rfl, rfl⟩ | ⟨rfl, rfl⟩ <;> rfl

/-- The service header and the Ethernet header behind it can be pulled. -/
structure Strips (skb : SkBuff) (hdrlen : ℕ) : Prop where
  header : skb.Pullable hdrlen
  frame : skb.Pullable (hdrlen + ETH_HLEN)

theorem nshBaseLength_le (length : U8) : nshBaseLength length <<< 2 ≤ 252 := by
  unfold nshBaseLength
  rw [Nat.shiftLeft_eq, BitVec.toNat_and]
  have hmask : length.toNat &&& (0x3F : U8).toNat ≤ 63 := Nat.and_le_right
  omega

theorem ethTypeTrans_ok_iff : (∃ s, ethTypeTrans skb = .ok s) ↔ skb.Pullable ETH_HLEN := by
  unfold ethTypeTrans
  split_ifs with hshort
  · exact iff_of_true ⟨_, rfl⟩ fun hle => absurd hle (Nat.not_le_of_lt hshort)
  · exact SkBuff.pull_ok_iff

theorem nshStrip_cases {hdrlen : ℕ} (h : nshStrip skb hdrlen = .ok out) :
    out.fragLen = skb.fragLen ∧
      (hdrlen ≤ skb.data.length ∧ out.data = skb.data.drop hdrlen ∨
        skb.len < hdrlen ∧ out.data.length = 2 ^ 32 + skb.data.length - hdrlen) := by
  obtain ⟨frame, hframe, h⟩ := bind_eq_ok.mp h
  obtain ⟨-, -, h⟩ := bind_eq_ok.mp h
  cases h
  have hcases := SkBuff.pull_cases hframe
  exact hcases

theorem nshStrip_ok_iff {hdrlen : ℕ} (hle : hdrlen ≤ 252) :
    (∃ r, nshStrip skb hdrlen = .ok r) ↔ Strips skb hdrlen := by
  have heth {frame : SkBuff} (hframe : skb.pull hdrlen = .ok frame) :
      frame.Pullable ETH_HLEN ↔ skb.Pullable (hdrlen + ETH_HLEN) := by
    obtain ⟨hfrag, ⟨hlinear, hdata⟩ | ⟨hpast, hwraps⟩⟩ := SkBuff.pull_cases hframe
    · have hdrop := congrArg List.length hdata
      rw [List.length_drop] at hdrop
      unfold SkBuff.Pullable SkBuff.len
      omega
    · unfold SkBuff.len at hpast
      unfold SkBuff.Pullable SkBuff.len ETH_HLEN
      omega
  constructor
  · rintro ⟨r, h⟩
    obtain ⟨frame, hframe, h⟩ := bind_eq_ok.mp h
    obtain ⟨inner, hinner, -⟩ := bind_eq_ok.mp h
    exact ⟨SkBuff.pull_ok_iff.mp ⟨frame, hframe⟩,
      (heth hframe).mp (ethTypeTrans_ok_iff.mp ⟨inner, hinner⟩)⟩
  · rintro ⟨hheader, hethernet⟩
    obtain ⟨frame, hframe⟩ := SkBuff.pull_ok_iff.mpr hheader
    obtain ⟨inner, hinner⟩ := ethTypeTrans_ok_iff.mpr ((heth hframe).mpr hethernet)
    refine ⟨{ frame with dst := none }, ?_⟩
    unfold nshStrip
    rw [hframe]
    simp only [bind, Except.bind, hinner]
    rfl

theorem nshStrip_linear {hdrlen : ℕ} (hlinear : hdrlen ≤ skb.data.length)
    (heth : skb.Pullable (hdrlen + ETH_HLEN)) : nshStrip skb hdrlen = .ok
      { skb with
        data := skb.data.drop hdrlen
        headroom := skb.headroom + hdrlen
        dst := none } := by
  have hframe := SkBuff.pull_linear hlinear
  generalize hpulled : ({ skb with data := skb.data.drop hdrlen, headroom := skb.headroom + hdrlen } :
    SkBuff) = frame at hframe
  have hpullable : frame.Pullable ETH_HLEN := by
    rw [← hpulled]
    unfold SkBuff.Pullable SkBuff.len at heth ⊢
    dsimp only
    rw [List.length_drop]
    omega
  obtain ⟨inner, hinner⟩ := ethTypeTrans_ok_iff.mpr hpullable
  unfold nshStrip
  rw [hframe]
  simp only [bind, Except.bind, hinner]
  rw [← hpulled]
  rfl

/-- A buffer that starts with a service header. -/
structure StartsWith (skb : SkBuff) (mdtype : U8) (key : U32) (nhlen : ℕ) (inner : List U8) :
    Prop where
  hlen : NshHlen mdtype nhlen
  data : skb.data = nshHeader mdtype key nhlen ++ inner

theorem StartsWith.length_ge (h : StartsWith skb mdtype key nhlen inner) : 8 ≤ skb.data.length := by
  rw [h.data, List.length_append, nshHeader_length h.hlen]
  rcases h.hlen with ⟨-, rfl⟩ | ⟨-, rfl⟩
  · exact Nat.le_trans (by decide) (Nat.le_add_right NSH_MDTYPE1_HLEN _)
  · exact Nat.le_add_right NSH_MDTYPE2_0_HLEN _

theorem StartsWith.base (h : StartsWith skb mdtype key nhlen inner) :
    skb.byte 0 = 0 ∧ skb.byte 1 = BitVec.ofNat 8 (nhlen >>> 2) ∧
      skb.byte 3 = NSH_BASE_PROTO_ETH := by
  have hge := h.length_ge
  refine ⟨?_, ?_, ?_⟩
  · rw [SkBuff.byte_eq_readByte (by omega), h.data]
    rfl
  · rw [SkBuff.byte_eq_readByte (by omega), h.data]
    rfl
  · rw [SkBuff.byte_eq_readByte (by omega), h.data]
    rfl

theorem StartsWith.path (h : StartsWith skb mdtype key nhlen inner) :
    (load32 fun i => skb.byte (4 + i)) = key := by
  have hge := h.length_ge
  apply load32_eq
  intro i hi
  have hread : readByte (nshHeader mdtype key nhlen ++ inner) (4 + i) = byteAt key i := by
    rw [nshHeader, List.append_assoc, List.append_assoc, readByte, List.getElem?_append_right (by simp)]
    have hidx : 4 + i - [0, BitVec.ofNat 8 (nhlen >>> 2), mdtype, NSH_BASE_PROTO_ETH].length = i := by
      simp
    rw [hidx]
    exact readByte_bytesOf 4 key _ hi
  rw [SkBuff.byte_eq_readByte (by omega), h.data, hread]

theorem StartsWith.hdrlen (h : StartsWith skb mdtype key nhlen inner) :
    nshBaseLength (skb.byte 1) <<< 2 = nhlen := by
  rw [h.base.2.1]
  rcases h.hlen with ⟨-, rfl⟩ | ⟨-, rfl⟩ <;> decide

/-- `nsh_recv` looks up the path and hands the inner frame to its device, when the Ethernet header
of the frame can be pulled. -/
theorem StartsWith.recv (h : StartsWith skb mdtype key nhlen inner) (hsi : htonl key &&& 0xFF ≠ 0)
    (hfind : nnet.nshFindTable env key = some nt) (hdev : nt.rdev = some dev)
    (heth : skb.Pullable (nhlen + ETH_HLEN)) :
    ∃ r, nshRecv env nnet skb = .delivered dev r ∧ r.data = inner ∧ r.fragLen = skb.fragLen := by
  have hversion : (!nshBaseCheckVersion 0 0) = false := by decide
  have hoam : nshBaseOam 0 = false := by decide
  have hlinear : nhlen ≤ skb.data.length := by
    rw [h.data, List.length_append, nshHeader_length h.hlen]
    exact Nat.le_add_right nhlen inner.length
  have hstrip := nshStrip_linear hlinear heth
  rw [h.data, List.drop_left' (nshHeader_length h.hlen)] at hstrip
  refine ⟨{ skb with data := inner, headroom := skb.headroom + nhlen, dst := none }, ?_, rfl, rfl⟩
  unfold nshRecv
  simp only [h.base.1, h.base.2.2, h.path, h.hdrlen, hversion, hoam, hfind, hdev, if_neg hsi, hstrip,
    ne_eq, not_true_eq_false, if_false, Bool.false_eq_true]

theorem delivered_stripped (h : nshRecv env nnet skb = .delivered dev out) :
    nshStrip skb (nshBaseLength (skb.byte 1) <<< 2) = .ok out := by
  unfold nshRecv at h
  dsimp only at h
  split_ifs at h
  split at h
  · cases h
  · split at h
    · cases h
    · split at h
      · cases h
      · next hstrip =>
        cases h
        exact hstrip

/-- A buffer holds a byte string, with the end of it in its fragments. -/
structure SkBuff.Holds (skb : SkBuff) (frags bytes : List U8) : Prop where
  bytes : skb.data ++ frags = bytes
  fragLen : skb.fragLen = frags.length

theorem SkBuff.Holds.len {frags bytes : List U8} (h : skb.Holds frags bytes) :
    skb.len = bytes.length := by
  rw [← h.bytes, List.length_append, ← h.fragLen, SkBuff.len]

theorem SkBuff.Holds.pull {frags hdr bytes : List U8} (h : skb.Holds frags (hdr ++ bytes))
    (hlinear : hdr.length ≤ skb.data.length) :
    SkBuff.Holds { skb with data := skb.data.drop hdr.length, headroom := skb.headroom + hdr.length }
      frags bytes where
  bytes := by
    dsimp only
    rw [← List.drop_append_of_le_length hlinear, h.bytes, List.drop_left]
  fragLen := h.fragLen

/-- `n` bytes of headers are linear, and so is the Ethernet header of the frame behind them. -/
structure SkBuff.HeadersLinear (skb : SkBuff) (n : ℕ) (inner : List U8) : Prop where
  headers : n ≤ skb.data.length
  ethernet : ETH_HLEN ≤ inner.length → n + ETH_HLEN ≤ skb.data.length

/-- The verdict gives a frame to a device, in what is left of the data and of the fragments. -/
def NshVerdict.Delivers (v : NshVerdict) (dev : NetDev) (frags inner : List U8) : Prop :=
  ∃ r rest, v = .delivered dev r ∧ rest <:+ frags ∧ r.Holds rest inner

/-- A frame that is delivered whole had its headers in the linear data: behind a header of any
other length lies another number of bytes. -/
theorem delivered_linear (hlen : NshHlen mdtype nhlen) {frags : List U8}
    (hholds : skb.Holds frags (nshHeader mdtype key nhlen ++ inner))
    (hrecv : nshRecv env nnet skb = .delivered dev out) (hout : out.len = inner.length) :
    skb.HeadersLinear nhlen inner := by
  have hstrip := delivered_stripped hrecv
  have hshort := nshBaseLength_le (skb.byte 1)
  generalize nshBaseLength (skb.byte 1) <<< 2 = hdrlen at hstrip hshort
  have hwhole : skb.len = nhlen + inner.length := by
    rw [hholds.len, List.length_append, nshHeader_length hlen]
  obtain ⟨hfrag, ⟨hlinear, hdata⟩ | ⟨hpast, hwraps⟩⟩ := nshStrip_cases hstrip
  · have hsame : hdrlen = nhlen := by
      have hdrop := congrArg List.length hdata
      rw [List.length_drop] at hdrop
      unfold SkBuff.len at hout hwhole
      omega
    subst hsame
    refine ⟨hlinear, fun heth => ?_⟩
    have hstrips := (nshStrip_ok_iff hshort).mp ⟨out, hstrip⟩
    exact hstrips.frame (by omega)
  · unfold SkBuff.len at hout hwhole
    omega

/-- `nsh_recv` delivers the frame behind a service header just when the headers are linear. -/
theorem recv_delivers_iff (hlen : NshHlen mdtype nhlen) (hsi : htonl key &&& 0xFF ≠ 0)
    (hfind : nnet.nshFindTable env key = some nt) (hdev : nt.rdev = some dev) {frags : List U8}
    (hholds : skb.Holds frags (nshHeader mdtype key nhlen ++ inner)) :
    (nshRecv env nnet skb).Delivers dev frags inner ↔ skb.HeadersLinear nhlen inner := by
  constructor
  · rintro ⟨r, rest, hrecv, -, hr⟩
    exact delivered_linear hlen hholds hrecv hr.len
  · intro hlinear
    have hheader : (nshHeader mdtype key nhlen).length = nhlen := nshHeader_length hlen
    have hpulled := hholds.pull (hheader.trans_le hlinear.headers)
    rw [hheader] at hpulled
    have hstart : StartsWith skb mdtype key nhlen (skb.data.drop nhlen) := by
      refine ⟨hlen, ?_⟩
      have htake := congrArg (List.take nhlen) hholds.bytes
      rw [List.take_append_of_le_length hlinear.headers, List.take_left' hheader] at htake
      rw [← htake, List.take_append_drop]
    have heth : skb.Pullable (nhlen + ETH_HLEN) := by
      intro hle
      rw [hholds.len, List.length_append, hheader] at hle
      exact hlinear.ethernet (by omega)
    obtain ⟨r, hr, hdata, hfrag⟩ := hstart.recv hsi hfind hdev heth
    refine ⟨r, frags, hr, List.suffix_rfl, ?_, hfrag.trans hholds.fragLen⟩
    rw [hdata]
    exact hpulled.bytes

/-- What `nsh_vxlan_udp_encap_recv` may get for a datagram that was sent: any UDP header in front
of it, and as much of it in the fragments as there may be. What `__pskb_pull_tail` makes linear
are bytes of the fragments. -/
structure ReceivedByUdp (skb out : SkBuff) (sfrags : List U8) (rskb : SkBuff) (frags : List U8)
    (pulled : Option (PulledTail rskb VXLAN_HLEN)) : Prop where
  sent : sfrags.length = skb.fragLen
  bytes : ∃ udp : List U8, udp.length = 8 ∧ rskb.Holds frags (udp ++ (out.data ++ sfrags))
  pulled : ∀ t, pulled = some t → t.skb'.data <+: rskb.data ++ frags

/-- What `nsh_ether_encap_recv` may get for a frame that was sent to its host. -/
structure ReceivedByEther (skb out : SkBuff) (sfrags : List U8) (rskb : SkBuff) (frags : List U8)
    (pktType : PktType) : Prop where
  sent : sfrags.length = skb.fragLen
  bytes : rskb.Holds frags ((out.data ++ sfrags).drop ETH_HLEN)
  forHost : pktType ≠ .otherhost

/-- The buffer that `pskb_may_pull` leaves holds the same bytes. It is another one only if no more
than the outer headers are then linear. -/
theorem pskbMayPull_holds {rskb s : SkBuff} {frags bytes : List U8}
    {pulled : Option (PulledTail rskb VXLAN_HLEN)} (hholds : rskb.Holds frags bytes)
    (hpulled : ∀ t, pulled = some t → t.skb'.data <+: rskb.data ++ frags)
    (h : pskbMayPull rskb VXLAN_HLEN pulled = some s) :
    ∃ sfrags, s.Holds sfrags bytes ∧ (s = rskb ∨ s.data.length = VXLAN_HLEN) := by
  unfold pskbMayPull at h
  split_ifs at h with hlinear hshort
  · exact ⟨frags, Option.some.inj h ▸ hholds, .inl (Option.some.inj h).symm⟩
  · obtain ⟨t, ht, rfl⟩ := Option.map_eq_some_iff.mp h
    obtain ⟨sfrags, hsfrags⟩ := hpulled t ht
    refine ⟨sfrags, ⟨hsfrags.trans hholds.bytes, ?_⟩, .inr t.linear⟩
    have hsum := congrArg List.length hsfrags
    have hlen := t.len_eq
    rw [List.length_append, List.length_append, ← hholds.fragLen] at hsum
    unfold SkBuff.len at hlen
    omega

theorem vxFlags_eq {udp bytes frags : List U8} {vxh : VxlanHdr} (hudp : udp.length = 8)
    (hholds : skb.Holds frags (udp ++ (vxh.bytes ++ bytes))) (hlinear : VXLAN_HLEN ≤ skb.data.length) :
    (load32 fun i => skb.byte (8 + i)) = vxh.vxFlags := by
  unfold VXLAN_HLEN at hlinear
  apply load32_eq
  intro i hi
  have hlt : 8 + i < skb.data.length := by omega
  have hread : readByte skb.data (8 + i) = readByte (skb.data ++ frags) (8 + i) := by
    rw [readByte, readByte, List.getElem?_append_left hlt]
  rw [SkBuff.byte_eq_readByte hlt, hread, hholds.bytes, readByte,
    List.getElem?_append_right (by omega), hudp, Nat.add_sub_cancel_left, VxlanHdr.bytes,
    List.append_assoc]
  exact readByte_bytesOf 4 vxh.vxFlags _ hi

/-- Of a buffer behind its own service header, only the Ethernet header may be in fragments. -/
theorem headersLinear_pushed (hlen : NshHlen mdtype nhlen) :
    (nshPushHeader skb mdtype key nhlen).HeadersLinear nhlen inner ↔ skb.HeadersLinear 0 inner := by
  have hlong : (nshPushHeader skb mdtype key nhlen).data.length = nhlen + skb.data.length := by
    rw [nshPushHeader_data, List.length_append, nshHeader_length hlen]
  constructor
  · rintro ⟨-, heth⟩
    rw [hlong] at heth
    exact ⟨Nat.zero_le _, fun hle => by have := heth hle; omega⟩
  · rintro ⟨-, heth⟩
    refine ⟨by omega, fun hle => ?_⟩
    have := heth hle
    omega

/-- Over UDP the peer delivers the frame just when all headers are linear. -/
theorem udp_delivers_iff (hlen : NshHlen mdtype nhlen) (hsi : htonl key &&& 0xFF ≠ 0)
    (hfind : nnet.nshFindTable env key = some nt) (hdev : nt.rdev = some dev) (vni : U32)
    {sfrags frags : List U8} {rskb : SkBuff} {pulled : Option (PulledTail rskb VXLAN_HLEN)}
    (h : ReceivedByUdp skb (nshPushVxlan (nshPushHeader skb mdtype key nhlen) vni) sfrags rskb frags
      pulled) :
    (nshVxlanUdpEncapRecv env nnet rskb pulled).Delivers dev frags (skb.data ++ sfrags) ↔
      rskb.HeadersLinear (VXLAN_HLEN + nhlen) (skb.data ++ sfrags) := by
  obtain ⟨udp, hudp, hbytes⟩ := h.bytes
  generalize hh : ({ vxFlags := htonl (VXLAN_GPE_FLAGS ||| VXLAN_GPE_PROTO_NSH),
                     vxVni := htonl (vni <<< 8) } : VxlanHdr) = vxh
  have hflags : vxh.vxFlags = htonl (VXLAN_GPE_FLAGS ||| VXLAN_GPE_PROTO_NSH) := by rw [← hh]
  rw [nshPushVxlan, hh, SkBuff.push_data, nshPushHeader_data, List.append_assoc,
    List.append_assoc] at hbytes
  have houter : (udp ++ vxh.bytes).length = VXLAN_HLEN := by
    rw [List.length_append, hudp, VxlanHdr.bytes_length]
    rfl
  have hrecv {s : SkBuff} {sf : List U8} (hmay : pskbMayPull rskb VXLAN_HLEN pulled = some s)
      (hs : s.Holds sf (udp ++ (vxh.bytes ++ (nshHeader mdtype key nhlen ++ (skb.data ++ sfrags))))) :
      ∃ s', nshVxlanUdpEncapRecv env nnet rskb pulled = nshRecv env nnet s' ∧
        s'.data.length + VXLAN_HLEN = s.data.length ∧
        s'.Holds sf (nshHeader mdtype key nhlen ++ (skb.data ++ sfrags)) := by
    have hlinear := pskbMayPull_linear hmay
    have hload := vxFlags_eq hudp hs hlinear
    rw [← List.append_assoc udp] at hs
    have hpull := hs.pull (houter.trans_le hlinear)
    rw [houter] at hpull
    refine ⟨_, ?_, ?_, hpull⟩
    · unfold nshVxlanUdpEncapRecv
      simp only [hmay, hload, hflags, ne_eq, not_true_eq_false, if_false, SkBuff.pull_linear hlinear]
    · dsimp only
      rw [List.length_drop, Nat.sub_add_cancel hlinear]
  constructor
  · rintro ⟨r, rest, hr, -, hrest⟩
    cases hmay : pskbMayPull rskb VXLAN_HLEN pulled with
    | none =>
      unfold nshVxlanUdpEncapRecv at hr
      rw [hmay] at hr
      cases hr
    | some s =>
      obtain ⟨sf, hs, hsame⟩ := pskbMayPull_holds hbytes h.pulled hmay
      obtain ⟨s', heq, hlong, hs'⟩ := hrecv hmay hs
      obtain ⟨hheader, heth⟩ := delivered_linear hlen hs' (heq ▸ hr) hrest.len
      have hpos : 8 ≤ nhlen := by
        rcases hlen with ⟨-, rfl⟩ | ⟨-, rfl⟩ <;> decide
      rcases hsame with rfl | hexact
      · exact ⟨by omega, fun hle => by have := heth hle; omega⟩
      · omega
  · rintro ⟨hheader, heth⟩
    have hlinear : VXLAN_HLEN ≤ rskb.data.length := by omega
    have hmay : pskbMayPull rskb VXLAN_HLEN pulled = some rskb := if_pos hlinear
    obtain ⟨s', heq, hlong, hs'⟩ := hrecv hmay hbytes
    rw [heq, recv_delivers_iff hlen hsi hfind hdev hs']
    exact ⟨by omega, fun hle => by have := heth hle; omega⟩

theorem ether_delivers_iff (hlen : NshHlen mdtype nhlen) (hsi : htonl key &&& 0xFF ≠ 0)
    (hfind : nnet.nshFindTable env key = some nt) (hdev : nt.rdev = some dev) {eth : List U8}
    (heth : eth.length = ETH_HLEN) {sfrags frags : List U8} {rskb : SkBuff} {pktType : PktType}
    (h : ReceivedByEther skb ((nshPushHeader skb mdtype key nhlen).push eth) sfrags rskb frags
      pktType) :
    (nshEtherEncapRecv env nnet pktType rskb).Delivers dev frags (skb.data ++ sfrags) ↔
      rskb.HeadersLinear nhlen (skb.data ++ sfrags) := by
  have hbytes := h.bytes
  rw [SkBuff.push_data, nshPushHeader_data, List.append_assoc, List.drop_left' heth,
    List.append_assoc] at hbytes
  rw [nshEtherEncapRecv, if_neg h.forHost]
  exact recv_delivers_iff hlen hsi hfind hdev hbytes

theorem nshXmit_eq (skb : SkBuff) (hfind : nnet.nshFindTable env (nnet.devKey dev) = some nt)
    (hmd : nt.mdtype = NSH_BASE_MDTYPE1 ∨ nt.mdtype = NSH_BASE_MDTYPE2) {madcapOn : Bool}
    (hon : nshMadcapOn env nt = .ok madcapOn) :
    ∃ nhlen, NshHlen nt.mdtype nhlen ∧ nshXmit env nnet dev skb =
      .ok (match nt.rdev with
        | some _ => .looped (nshRecv env nnet (nshPushHeader skb nt.mdtype (nnet.devKey dev) nhlen))
        | none => nshSend env nt madcapOn
            (nshPushHeader skb nt.mdtype (nnet.devKey dev) nhlen)) := by
  have hne : NSH_BASE_MDTYPE2 ≠ NSH_BASE_MDTYPE1 := by decide
  unfold nshXmit
  simp only [hfind, hon, bind, Except.bind]
  rcases hmd with hmd | hmd
  · refine ⟨NSH_MDTYPE1_HLEN, .inl ⟨hmd, rfl⟩, ?_⟩
    simp only [hmd, if_true]
    cases nt.rdev <;> rfl
  · refine ⟨NSH_MDTYPE2_0_HLEN, .inr ⟨hmd, rfl⟩, ?_⟩
    simp only [hmd, if_neg hne, if_true]
    cases nt.rdev <;> rfl

/-- Decoding undoes encoding just when the headers are linear. A path of the sender's namespace leads
to a remote node over one of three transports, or to a device of the same namespace. The peer, whose
table maps the path to one of its devices, may get what was sent in any linear data and fragments: it
delivers the original frame to that device if and only if the outer headers, the service header and
the Ethernet header of the frame lie in the linear data. -/
theorem nsh_decode_encode_iff (env env' : NshEnv) (nnet nnet' : NshNet) (dev D : NetDev)
    (skb : SkBuff) (nt nt' : NshTable)
    (hfind : nnet.nshFindTable env (nnet.devKey dev) = some nt)
    (hmd : nt.mdtype = NSH_BASE_MDTYPE1 ∨ nt.mdtype = NSH_BASE_MDTYPE2)
    (hsi : htonl (nnet.devKey dev) &&& 0xFF ≠ 0)
    (hfind' : nnet'.nshFindTable env' (nnet.devKey dev) = some nt') (hD : nt'.rdev = some D) :
    (∀ rdst, nt.rdev = none → nt.rdst = some rdst → nt.encapType = NSH_ENCAP_TYPE_VXLAN →
      nshMadcapOn env nt = .ok false → env.routed rdst.remoteIp rdst.localIp rdst.lowerdev = true →
      ∃ out, nshXmit env nnet dev skb = .ok (.udpTunnel rdst.remoteIp out) ∧
        ∀ sfrags rskb frags pulled, ReceivedByUdp skb out sfrags rskb frags pulled →
          ((nshVxlanUdpEncapRecv env' nnet' rskb pulled).Delivers D frags (skb.data ++ sfrags) ↔
            rskb.HeadersLinear (VXLAN_HLEN + nshHlen nt.mdtype) (skb.data ++ sfrags))) ∧
    (∀ rdst, nt.rdev = none → nt.rdst = some rdst → nt.encapType = NSH_ENCAP_TYPE_VXLAN →
      nshMadcapOn env nt = .ok true →
      ∃ lowerdev out, rdst.lowerdev = some lowerdev ∧
        nshXmit env nnet dev skb = .ok (.madcap lowerdev out) ∧
        ∀ sfrags rskb frags pulled, ReceivedByUdp skb out sfrags rskb frags pulled →
          ((nshVxlanUdpEncapRecv env' nnet' rskb pulled).Delivers D frags (skb.data ++ sfrags) ↔
            rskb.HeadersLinear (VXLAN_HLEN + nshHlen nt.mdtype) (skb.data ++ sfrags))) ∧
    (∀ rdst lowerdev madcapOn, nt.rdev = none → nt.rdst = some rdst →
      nt.encapType = NSH_ENCAP_TYPE_ETHER → rdst.lowerdev = some lowerdev →
      nshMadcapOn env nt = .ok madcapOn →
      ∃ out, nshXmit env nnet dev skb = .ok (.ether lowerdev out) ∧
        ∀ sfrags rskb frags pktType, ReceivedByEther skb out sfrags rskb frags pktType →
          ((nshEtherEncapRecv env' nnet' pktType rskb).Delivers D frags (skb.data ++ sfrags) ↔
            rskb.HeadersLinear (nshHlen nt.mdtype) (skb.data ++ sfrags))) ∧
    (∀ E, env.madcapEnable = false → nt.rdev = some E →
      ∃ verdict, nshXmit env nnet dev skb = .ok (.looped verdict) ∧
        ∀ frags, frags.length = skb.fragLen →
          (verdict.Delivers E frags (skb.data ++ frags) ↔ skb.HeadersLinear 0 (skb.data ++ frags))) := by
  refine ⟨?_, ?_, ?_, ?_⟩
  · intro rdst hdev hdst henc hon hroute
    obtain ⟨nhlen, hlen, hxmit⟩ := nshXmit_eq skb hfind hmd hon
    refine ⟨nshPushVxlan (nshPushHeader skb nt.mdtype (nnet.devKey dev) nhlen) rdst.vni, ?_, ?_⟩
    · rw [hxmit, hdev]
      simp only [nshSend, hdst, henc, if_true, nshXmitVxlan, hroute]
    · intro sfrags rskb frags pulled hreceived
      rw [← hlen.eq_nshHlen]
      exact udp_delivers_iff hlen hsi hfind' hD rdst.vni hreceived
  · intro rdst hdev hdst henc hon
    obtain ⟨nhlen, hlen, hxmit⟩ := nshXmit_eq skb hfind hmd hon
    have hlower : ∃ lowerdev, rdst.lowerdev = some lowerdev := by
      unfold nshMadcapOn at hon
      cases hl : rdst.lowerdev with
      | some lowerdev => exact ⟨lowerdev, rfl⟩
      | none =>
        rw [hdst] at hon
        simp only [hl] at hon
        split_ifs at hon <;> cases hon
    obtain ⟨lowerdev, hl⟩ := hlower
    refine ⟨lowerdev, nshPushVxlan (nshPushHeader skb nt.mdtype (nnet.devKey dev) nhlen) rdst.vni, hl,
      ?_, ?_⟩
    · rw [hxmit, hdev]
      simp only [nshSend, hdst, henc, if_true, hl, nshXmitVxlanMadcap]
    · intro sfrags rskb frags pulled hreceived
      rw [← hlen.eq_nshHlen]
      exact udp_delivers_iff hlen hsi hfind' hD rdst.vni hreceived
  · intro rdst lowerdev madcapOn hdev hdst henc hl hon
    obtain ⟨nhlen, hlen, hxmit⟩ := nshXmit_eq skb hfind hmd hon
    have hne : NSH_ENCAP_TYPE_ETHER ≠ NSH_ENCAP_TYPE_VXLAN := by decide
    have heth : (bytesOf 6 rdst.ethAddr ++ bytesOf 6 (env.devAddr lowerdev) ++
        bytesOf 2 (htons ETH_P_NSH)).length = ETH_HLEN := by
      simp [ETH_HLEN]
    refine ⟨(nshPushHeader skb nt.mdtype (nnet.devKey dev) nhlen).push (bytesOf 6 rdst.ethAddr ++
      bytesOf 6 (env.devAddr lowerdev) ++ bytesOf 2 (htons ETH_P_NSH)), ?_, ?_⟩
    · rw [hxmit, hdev]
      simp only [nshSend, hdst, henc, if_neg hne, if_true, nshXmitEther, hl]
    · intro sfrags rskb frags pktType hreceived
      rw [← hlen.eq_nshHlen]
      exact ether_delivers_iff hlen hsi hfind' hD heth hreceived
  · intro E hoff hdev
    have hon : nshMadcapOn env nt = .ok false := by
      unfold nshMadcapOn
      rw [hoff]
      rfl
    obtain ⟨nhlen, hlen, hxmit⟩ := nshXmit_eq skb hfind hmd hon
    refine ⟨nshRecv env nnet (nshPushHeader skb nt.mdtype (nnet.devKey dev) nhlen), ?_, ?_⟩
    · rw [hxmit, hdev]
    · intro frags hfrags
      have hholds : (nshPushHeader skb nt.mdtype (nnet.devKey dev) nhlen).Holds frags
          (nshHeader nt.mdtype (nnet.devKey dev) nhlen ++ (skb.data ++ frags)) := by
        refine ⟨?_, nshPushHeader_fragLen.trans hfrags.symm⟩
        rw [nshPushHeader_data, List.append_assoc]
      rw [recv_delivers_iff hlen hsi hfind hdev hholds]
      exact headersLinear_pushed hlen

/-- Paths by device: device 0 sends on the path with SPI 1 and SI 255. -/
def onePath (nt : NshTable) : NshNet where
  nshTable := fun _ => [nt]
  devKey := fun _ => 0xFF010000

/-- Everything routed, nothing offloaded. -/
def plainNsh : NshEnv where
  madcapEnable := false
  hash32 := fun _ => 0
  madcapOps := fun _ => false
  devAddr := fun _ => 0
  routed := fun _ _ _ => true

def longFrame : SkBuff where
  data := List.replicate 300 0
  tail := fun _ => 0
  fragLen := 0
  headroom := 64
  dst := none

def vxlanPath : NshTable where
  key := 0xFF010000
  spi := 1
  si := 255
  mdtype := 1
  encapType := 1
  rdev := none
  rdst := some { remoteIp := 1, localIp := 2, vni := 3, lowerdev := none, ethAddr := 0 }

def endPath : NshTable where
  key := 0xFF010000
  spi := 1
  si := 255
  mdtype := 1
  encapType := 0
  rdev := some 7
  rdst := none

def longDatagram : SkBuff := nshPushVxlan (nshPushHeader longFrame 1 0xFF010000 NSH_MDTYPE1_HLEN) 3

/-- The datagram as a driver leaves it that puts no more than the UDP header in the linear data. -/
def splitDatagram : SkBuff where
  data := List.replicate 8 0
  tail := fun _ => 0
  fragLen := longDatagram.data.length
  headroom := 64
  dst := none

set_option maxRecDepth 4000 in
/-- What `__pskb_pull_tail` makes of it. -/
def pulledDatagram : PulledTail splitDatagram VXLAN_HLEN where
  skb' :=
    { splitDatagram with
      data := List.replicate 8 0 ++ longDatagram.data.take 8
      fragLen := longDatagram.data.length - 8 }
  linear := rfl
  keeps := List.prefix_append _ _
  len_eq := by decide

theorem splitDatagram_received :
    ReceivedByUdp longFrame longDatagram [] splitDatagram longDatagram.data (some pulledDatagram) where
  sent := rfl
  bytes := ⟨List.replicate 8 0, rfl, by rw [List.append_nil]; exact ⟨rfl, rfl⟩⟩
  pulled t ht := by
    cases ht
    refine ⟨longDatagram.data.drop 8, ?_⟩
    unfold pulledDatagram
    dsimp only
    rw [List.append_assoc, List.take_append_drop]
    rfl

set_option maxRecDepth 4000 in
/-- The service header of the long frame is not linear when `nsh_recv` looks at it, and the frame
is refused. -/
theorem split_header_refused :
    nshXmit plainNsh (onePath vxlanPath) 0 longFrame = .ok (.udpTunnel 1 longDatagram) ∧
      ReceivedByUdp longFrame longDatagram [] splitDatagram longDatagram.data (some pulledDatagram) ∧
      nshVxlanUdpEncapRecv plainNsh (onePath endPath) splitDatagram (some pulledDatagram) = .rejected ∧
      ¬ (nshVxlanUdpEncapRecv plainNsh (onePath endPath) splitDatagram
          (some pulledDatagram)).Delivers 7 longDatagram.data longFrame.data := by
  have hrefused : nshVxlanUdpEncapRecv plainNsh (onePath endPath) splitDatagram (some pulledDatagram) =
      .rejected := rfl
  refine ⟨rfl, splitDatagram_received, hrefused, ?_⟩
  rintro ⟨r, rest, hr, -⟩
  rw [hrefused] at hr
  cases hr

set_option maxRecDepth 4000 in
/-- The long frame arrives when the datagram is linear. -/
theorem nsh_decode_encode_linear : ∃ out,
    nshXmit plainNsh (onePath vxlanPath) 0 longFrame = .ok (.udpTunnel 1 out) ∧
      (nshVxlanUdpEncapRecv plainNsh (onePath endPath)
        { longFrame with data := List.replicate 8 0 ++ out.data } none).Delivers 7 []
          longFrame.data := by
  obtain ⟨out, hxmit, harrives⟩ := (nsh_decode_encode_iff plainNsh plainNsh (onePath vxlanPath)
    (onePath endPath) 0 7 longFrame _ _ rfl (.inl rfl) (by decide) rfl rfl).1 _ rfl rfl rfl rfl rfl
  obtain rfl := (NshTx.udpTunnel.inj (Except.ok.inj hxmit)).2
  refine ⟨_, hxmit, ?_⟩
  have hdelivers := (harrives [] { longFrame with data := List.replicate 8 0 ++ longDatagram.data } []
    none ⟨rfl, ⟨List.replicate 8 0, rfl, ⟨by simp only [List.append_nil]; rfl, rfl⟩⟩,
      fun t ht => nomatch ht⟩).mpr ⟨by decide, fun _ => by decide⟩
  rw [List.append_nil] at hdelivers
  exact hdelivers

end Madcap
