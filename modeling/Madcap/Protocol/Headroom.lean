import Madcap.Protocol.NshPaths
import Madcap.Protocol.NshRoundTrip
import Madcap.Sfmc.Encap

/-!
# Room for the outer headers

`sfmc_encap_packet` pushes its headers without asking for room. The tunnel drivers
ask for it before they push their own. What is left is theirs to get right: VXLAN
and NSH reserve enough by themselves, GRE as much as the device says, and IPIP
nothing.
-/

namespace Madcap

def VLAN_HLEN : ℕ := 4

/-- The kernel functions that the tunnel drivers call on a packet, as the kernel documents
them: `skb_cow_head`, `iptunnel_handle_offloads` and `gre_build_header`. -/
structure SkbKernel where
  cowHead : SkBuff → ℕ → Option SkBuff
  offloads : SkBuff → Bool
  greHeader : ℕ → List U8
  cow_grants : ∀ {skb n out}, cowHead skb n = some out → n ≤ out.headroom
  cow_keeps : ∀ {skb n out}, cowHead skb n = some out →
    skb.headroom ≤ out.headroom ∧ out.data = skb.data ∧ out.fragLen = skb.fragLen
  greHeader_length : ∀ n, (greHeader n).length = n

/-- A kernel that never gives more than it is asked for. -/
def SkbKernel.sparing : SkbKernel where
  cowHead skb n := some { skb with headroom := max skb.headroom n }
  offloads _ := true
  greHeader n := List.replicate n 0
  cow_grants h := by
    cases h
    exact le_max_right _ _
  cow_keeps h := by
    cases h
    exact ⟨le_max_left _ _, rfl, rfl⟩
  greHeader_length _ := List.length_replicate

/-- The tag that `vlan_hwaccel_push_inside` puts behind the addresses. -/
def vlanInsertTag (skb : SkBuff) (tag : U32) : SkBuff :=
  { skb with
    data := skb.data.take 12 ++ bytesOf 4 tag ++ skb.data.drop 12
    headroom := skb.headroom - VLAN_HLEN }

def vlanHwaccelPushInside (k : SkbKernel) (skb : SkBuff) : Option U32 → Option SkBuff
  | none => some skb
  | some tag => do
    let skb ← k.cowHead skb VLAN_HLEN
    return vlanInsertTag skb tag

namespace Offload

/-- `vxlan_xmit_madcap`, for a packet that may have a VLAN tag beside its data. -/
def vxlanXmitMadcap (k : SkbKernel) (vxlan : VxlanDev) (tag : Option U32) (skb : SkBuff) :
    Option SkBuff := do
  let skb ← k.cowHead skb (VXLAN_HEADROOM.toNat + ETH_HLEN)
  let skb ← vlanHwaccelPushInside k skb tag
  let vxh : VxlanHdr := { vxFlags := htonl VXLAN_HF_VNI, vxVni := vxlan.defaultDst.remoteVni }
  return skb.push vxh.bytes

/-- `nsh_xmit` with `nsh_xmit_vxlan_madcap`. -/
def nshXmitVxlanMadcap (k : SkbKernel) (mdtype : U8) (key : U32) (nhlen : ℕ) (vni : U32)
    (skb : SkBuff) : Option SkBuff := do
  let skb ← k.cowHead skb nhlen
  let skb := nshPushHeader skb mdtype key nhlen
  let skb ← k.cowHead skb VXLAN_HEADROOM.toNat
  return nshPushVxlan skb vni

/-- The fields of a GRE tunnel and its device that transmission reads. -/
structure GreTunnel where
  tunHlen : ℕ
  encapHlen : ℕ
  neededHeadroom : U16
  headerOps : Bool
  deriving DecidableEq, Repr

/-- `tunnel->hlen`. -/
def GreTunnel.hlen (t : GreTunnel) : ℕ := t.tunHlen + t.encapHlen

/-- The device's part of `__gre_tunnel_init`. -/
def greTunnelInit (t : GreTunnel) (llMaxHeader : ℕ) : GreTunnel :=
  { t with neededHeadroom := BitVec.ofNat 16 (llMaxHeader + (t.hlen + sizeofIphdr) + 4) }

/-- `__gre_xmit` over a madcap device. -/
def greXmit (k : SkbKernel) (t : GreTunnel) (skb : SkBuff) : SkBuff :=
  skb.push (k.greHeader t.tunHlen)

/-- The room that `ipgre_xmit` asks for a packet that has its IP header already. -/
def GreTunnel.headerRoom (t : GreTunnel) : ℕ :=
  (t.neededHeadroom.setWidth 32 - BitVec.ofNat 32 (t.hlen + sizeofIphdr)).toNat

/-- `skb_pull`, which leaves a shorter packet alone. -/
def skbPull (skb : SkBuff) (n : ℕ) : Res SkBuff := if n > skb.len then return skb else skb.pull n

/-- `ipgre_xmit`. Nothing is sent if the kernel stops. -/
def ipgreXmit (k : SkbKernel) (t : GreTunnel) (skb : SkBuff) : Option SkBuff := do
  let skb ←
    if t.headerOps then do
      let skb ← k.cowHead skb t.headerRoom
      (skbPull skb (t.hlen + sizeofIphdr)).toOption
    else
      k.cowHead skb t.neededHeadroom.toNat
  if k.offloads skb then return greXmit k t skb else none

def greTapXmit (k : SkbKernel) (t : GreTunnel) (skb : SkBuff) : Option SkBuff :=
  if k.offloads skb then do
    let skb ← k.cowHead skb t.neededHeadroom.toNat
    return greXmit k t skb
  else
    none

/-- `ipip_tunnel_xmit` over a madcap device. -/
def ipipTunnelXmit (k : SkbKernel) (protocol : U16) (skb : SkBuff) : Option SkBuff :=
  if protocol ≠ htons ETH_P_IP then none else if k.offloads skb then some skb else none

end Offload

def Sfmc.outerLen (s : Sfmc) : ℕ := if s.ou.encapEnable ≠ 0 then 42 else 34

@[simp] theorem SkBuff.push_headroom (skb : SkBuff) (hdr : List U8) :
    (skb.push hdr).headroom = skb.headroom - hdr.length := rfl

theorem Sfmc.pushHeaders_headroom (s : Sfmc) (skb : SkBuff) (dst : U32) (mac : Mac) :
    (s.pushHeaders skb dst mac).headroom = skb.headroom - s.outerLen := by
  unfold pushHeaders outerLen
  split_ifs
  · simp [ethHeader, ipHeader, udpHeader]
    omega
  · simp [ethHeader, ipHeader]
    omega

/-- Whatever the kernel answers, what a driver sends has room for the outer headers. -/
def Suffices (s : Sfmc) (xmit : SkbKernel → Option SkBuff) : Prop :=
  ∀ k out, xmit k = some out → s.outerLen ≤ out.headroom

variable {s : Sfmc} {skb : SkBuff} {k : SkbKernel}

theorem Sfmc.outerLen_le (s : Sfmc) : s.outerLen ≤ 42 := by
  unfold outerLen
  split_ifs <;> omega

theorem vlanHwaccelPushInside_headroom {tag : Option U32} {out : SkBuff}
    (h : vlanHwaccelPushInside k skb tag = some out) : skb.headroom - VLAN_HLEN ≤ out.headroom := by
  cases tag with
  | none =>
    cases h
    omega
  | some tag =>
    obtain ⟨room, hroom, h⟩ := Option.bind_eq_some_iff.mp h
    cases h
    have hkeeps := (k.cow_keeps hroom).1
    change skb.headroom - VLAN_HLEN ≤ room.headroom - VLAN_HLEN
    omega

theorem vxlan_suffices (vxlan : VxlanDev) (tag : Option U32) :
    Suffices s fun k => Offload.vxlanXmitMadcap k vxlan tag skb := by
  intro k out h
  obtain ⟨room, hroom, h⟩ := Option.bind_eq_some_iff.mp h
  obtain ⟨tagged, htagged, h⟩ := Option.bind_eq_some_iff.mp h
  cases h
  have hgrants := k.cow_grants hroom
  have htag := vlanHwaccelPushInside_headroom htagged
  have hneed := s.outerLen_le
  simp only [SkBuff.push_headroom, VxlanHdr.bytes_length, VXLAN_HEADROOM, ETH_HLEN,
    VLAN_HLEN] at hgrants htag ⊢
  omega

theorem nsh_suffices (mdtype : U8) (key : U32) (nhlen : ℕ) (vni : U32) :
    Suffices s fun k => Offload.nshXmitVxlanMadcap k mdtype key nhlen vni skb := by
  intro k out h
  obtain ⟨room, -, h⟩ := Option.bind_eq_some_iff.mp h
  obtain ⟨room', hroom, h⟩ := Option.bind_eq_some_iff.mp h
  cases h
  have hgrants := k.cow_grants hroom
  have hneed := s.outerLen_le
  simp only [nshPushVxlan, SkBuff.push_headroom, VxlanHdr.bytes_length, VXLAN_HEADROOM] at hgrants ⊢
  omega

/-- The room that a GRE packet has before its header if the kernel gives no more than it must:
what it came with or what is asked for, and what is pulled of a packet with an IP header. -/
def Offload.GreTunnel.room (t : GreTunnel) (skb : SkBuff) : ℤ :=
  if t.headerOps then
    max skb.headroom t.headerRoom +
      (if t.hlen + sizeofIphdr > skb.len then 0 else t.hlen + sizeofIphdr : ℕ)
  else
    max skb.headroom t.neededHeadroom.toNat

theorem Offload.greXmit_headroom (t : GreTunnel) :
    (greXmit k t skb).headroom = skb.headroom - t.tunHlen := by
  rw [greXmit, SkBuff.push_headroom, k.greHeader_length]

theorem Offload.skbPull_headroom {n : ℕ} {pulled : SkBuff}
    (h : (skbPull skb n).toOption = some pulled) :
    pulled.headroom = skb.headroom + (if n > skb.len then 0 else n : ℕ) := by
  unfold skbPull SkBuff.pull at h
  split_ifs at h ⊢ with hshort hlinear
  · cases h
    exact (add_zero _).symm
  · cases h
    rfl
  · cases h
  · omega

theorem Offload.skbPull_isSome {n : ℕ} (h : skb.Pullable n) :
    ∃ pulled, (skbPull skb n).toOption = some pulled := by
  unfold skbPull
  split_ifs with hshort
  · exact ⟨skb, rfl⟩
  · exact ⟨_, congrArg Except.toOption (SkBuff.pull_linear (h (Nat.le_of_not_lt hshort)))⟩

theorem Offload.pullable_of_skbPull {n : ℕ} {pulled : SkBuff}
    (h : (skbPull skb n).toOption = some pulled) : skb.Pullable n := by
  intro hle
  unfold skbPull SkBuff.pull at h
  split_ifs at h with hshort hlinear
  · exact absurd hle (Nat.not_le_of_lt hshort)
  · exact hlinear
  · cases h

theorem SkbKernel.cow_len {n : ℕ} {out : SkBuff} (h : k.cowHead skb n = some out) :
    out.len = skb.len := by
  obtain ⟨-, hdata, hfrag⟩ := k.cow_keeps h
  rw [SkBuff.len, hdata, hfrag, SkBuff.len]

theorem SkbKernel.cow_pullable {n m : ℕ} {out : SkBuff} (h : k.cowHead skb n = some out) :
    out.Pullable m ↔ skb.Pullable m := by
  unfold SkBuff.Pullable
  rw [k.cow_len h, (k.cow_keeps h).2.1]

theorem ipgre_suffices_iff (t : Offload.GreTunnel) :
    (Suffices s fun k => Offload.ipgreXmit k t skb) ↔
      ((t.headerOps = true → skb.Pullable (t.hlen + sizeofIphdr)) →
        s.outerLen + t.tunHlen ≤ t.room skb) := by
  unfold Suffices Offload.ipgreXmit Offload.GreTunnel.room
  cases hops : t.headerOps with
  | true =>
    simp only [if_true, forall_const]
    constructor
    · intro h hpullable
      have hcow : SkbKernel.sparing.cowHead skb t.headerRoom =
          some { skb with headroom := max skb.headroom t.headerRoom } := rfl
      obtain ⟨pulled, hpulled⟩ := Offload.skbPull_isSome
        ((SkbKernel.cow_pullable hcow).mpr hpullable)
      have hsent : Offload.ipgreXmit .sparing t skb = some (Offload.greXmit .sparing t pulled) := by
        unfold Offload.ipgreXmit
        rw [if_pos hops, hcow]
        simp only [Option.bind_eq_bind, Option.bind_some, hpulled]
        rfl
      unfold Offload.ipgreXmit at hsent
      simp only [hops, if_true] at hsent
      have hsparing := h .sparing _ hsent
      rw [Offload.greXmit_headroom, Offload.skbPull_headroom hpulled,
        SkbKernel.cow_len hcow] at hsparing
      dsimp only at hsparing
      omega
    · intro h k out hout
      obtain ⟨room, hroom, hout⟩ := Option.bind_eq_some_iff.mp hout
      obtain ⟨pulled, hpulled, hout⟩ := Option.bind_eq_some_iff.mp hout
      have hpullable := (SkbKernel.cow_pullable hroom).mp (Offload.pullable_of_skbPull hpulled)
      have hneed := h hpullable
      split_ifs at hout
      cases hout
      have hgrants := k.cow_grants hroom
      have hkeeps := (k.cow_keeps hroom).1
      rw [Offload.greXmit_headroom, Offload.skbPull_headroom hpulled, SkbKernel.cow_len hroom]
      omega
  | false =>
    simp only [Bool.false_eq_true, if_false, false_implies, forall_const]
    constructor
    · intro h
      have hsparing := h .sparing _ rfl
      rw [Offload.greXmit_headroom] at hsparing
      simp only at hsparing
      omega
    · intro h k out hout
      obtain ⟨room, hroom, hout⟩ := Option.bind_eq_some_iff.mp hout
      split_ifs at hout
      cases hout
      have hgrants := k.cow_grants hroom
      have hkeeps := (k.cow_keeps hroom).1
      rw [Offload.greXmit_headroom]
      omega

theorem greTap_suffices_iff (t : Offload.GreTunnel) :
    (Suffices s fun k => Offload.greTapXmit k t skb) ↔
      s.outerLen + t.tunHlen ≤ max skb.headroom t.neededHeadroom.toNat := by
  unfold Suffices Offload.greTapXmit
  constructor
  · intro h
    have hsparing := h .sparing _ rfl
    rw [Offload.greXmit_headroom] at hsparing
    simp only at hsparing
    omega
  · intro h k out hout
    dsimp only at hout
    split_ifs at hout
    obtain ⟨room, hroom, hout⟩ := Option.bind_eq_some_iff.mp hout
    cases hout
    have hgrants := k.cow_grants hroom
    have hkeeps := (k.cow_keeps hroom).1
    rw [Offload.greXmit_headroom]
    omega

theorem ipip_suffices_iff (protocol : U16) :
    (Suffices s fun k => Offload.ipipTunnelXmit k protocol skb) ↔
      (protocol = htons ETH_P_IP → s.outerLen ≤ skb.headroom) := by
  unfold Suffices Offload.ipipTunnelXmit
  constructor
  · intro h hip
    exact h .sparing skb (if_neg (not_not.mpr hip))
  · intro h k out hout
    dsimp only at hout
    split_ifs at hout with hip
    cases hout
    exact h (not_not.mp hip)

/-- The frame is the one that `vxlan_xmit_madcap` builds of an untagged packet. -/
theorem Offload.vxlanXmitMadcap_data {vxlan : VxlanDev} {out : SkBuff}
    (h : Offload.vxlanXmitMadcap k vxlan none skb = some out) :
    out.data = Madcap.vxlanXmitMadcap vxlan skb.data := by
  obtain ⟨room, hroom, h⟩ := Option.bind_eq_some_iff.mp h
  cases h
  obtain ⟨-, hdata, -⟩ := k.cow_keeps hroom
  rw [SkBuff.push_data, hdata]
  rfl

/-- The frame is the one that `nsh_xmit` hands to a madcap device. -/
theorem Offload.nshXmitVxlanMadcap_data {mdtype : U8} {key : U32} {nhlen : ℕ} {vni : U32}
    {out : SkBuff} (h : Offload.nshXmitVxlanMadcap k mdtype key nhlen vni skb = some out) :
    out.data = (nshPushVxlan (nshPushHeader skb mdtype key nhlen) vni).data := by
  obtain ⟨room, hroom, h⟩ := Option.bind_eq_some_iff.mp h
  obtain ⟨room', hroom', h⟩ := Option.bind_eq_some_iff.mp h
  cases h
  obtain ⟨-, hdata, -⟩ := k.cow_keeps hroom
  obtain ⟨-, hdata', -⟩ := k.cow_keeps hroom'
  simp only [nshPushVxlan, SkBuff.push_data, hdata', nshPushHeader_data, hdata]

/-- With the room that `__gre_tunnel_init` reserves, and 32 bytes at least for a link header,
a GRE device always asks for enough, unless a packet that should have its headers is shorter
than they are. -/
theorem Offload.greTunnelInit_room (s : Sfmc) (t : GreTunnel) {llMaxHeader : ℕ}
    (hll : 32 ≤ llMaxHeader) (hfits : llMaxHeader + t.hlen + 24 < 65536)
    (hlong : t.headerOps = true → t.hlen + sizeofIphdr ≤ skb.len) :
    s.outerLen + t.tunHlen ≤ (greTunnelInit t llMaxHeader).room skb ∧
      s.outerLen + t.tunHlen ≤
        max skb.headroom (greTunnelInit t llMaxHeader).neededHeadroom.toNat := by
  have hneed := s.outerLen_le
  have hinit : (greTunnelInit t llMaxHeader).neededHeadroom.toNat = llMaxHeader + t.hlen + 24 := by
    change (BitVec.ofNat 16 (llMaxHeader + (t.hlen + 20) + 4)).toNat = _
    rw [BitVec.toNat_ofNat, Nat.mod_eq_of_lt (by omega)]
    omega
  have hheader : (greTunnelInit t llMaxHeader).headerRoom = llMaxHeader + 4 := by
    have hwide : (greTunnelInit t llMaxHeader).neededHeadroom.setWidth 32 =
        BitVec.ofNat 32 (llMaxHeader + 4) + BitVec.ofNat 32 (t.hlen + 20) := by
      rw [← BitVec.ofNat_add]
      apply BitVec.eq_of_toNat_eq
      rw [BitVec.toNat_setWidth, hinit, BitVec.toNat_ofNat]
      congr 1
      omega
    change ((greTunnelInit t llMaxHeader).neededHeadroom.setWidth 32 -
      BitVec.ofNat 32 (t.hlen + 20)).toNat = _
    rw [hwide, BitVec.add_sub_cancel, BitVec.toNat_ofNat, Nat.mod_eq_of_lt (by omega)]
  have htun : t.tunHlen ≤ t.hlen := Nat.le_add_right _ _
  refine ⟨?_, by rw [hinit]; omega⟩
  unfold GreTunnel.room
  rw [hinit, hheader]
  cases hops : t.headerOps with
  | true =>
    have hshort : ¬ t.hlen + sizeofIphdr > skb.len := not_lt.mpr (hlong hops)
    have hhlen : (greTunnelInit t llMaxHeader).hlen = t.hlen := rfl
    have hops' : (greTunnelInit t llMaxHeader).headerOps = true := hops
    rw [if_pos hops', hhlen, if_neg hshort]
    simp only [sizeofIphdr]
    omega
  | false =>
    have hops' : ¬ (greTunnelInit t llMaxHeader).headerOps = true := by
      change ¬ t.headerOps = true
      simp [hops]
    rw [if_neg hops']
    omega

/-- Every packet that VXLAN and NSH send over a madcap device has room for the outer headers.
A GRE packet has if and only if what it came with or what its device asks for covers its own
header too (or it comes with headers in its fragments, and the kernel stops), and an IPIP packet if
and only if it came with it. -/
theorem headroom_suffices_iff (s : Sfmc) (skb : SkBuff) :
    (∀ vxlan tag, Suffices s fun k => Offload.vxlanXmitMadcap k vxlan tag skb) ∧
    (∀ mdtype key nhlen vni,
      Suffices s fun k => Offload.nshXmitVxlanMadcap k mdtype key nhlen vni skb) ∧
    (∀ t : Offload.GreTunnel, (Suffices s fun k => Offload.ipgreXmit k t skb) ↔
      ((t.headerOps = true → skb.Pullable (t.hlen + sizeofIphdr)) →
        s.outerLen + t.tunHlen ≤ t.room skb)) ∧
    (∀ t : Offload.GreTunnel, (Suffices s fun k => Offload.greTapXmit k t skb) ↔
      s.outerLen + t.tunHlen ≤ max skb.headroom t.neededHeadroom.toNat) ∧
    ∀ protocol, (Suffices s fun k => Offload.ipipTunnelXmit k protocol skb) ↔
      (protocol = htons ETH_P_IP → s.outerLen ≤ skb.headroom) :=
  ⟨vxlan_suffices, nsh_suffices, ipgre_suffices_iff, greTap_suffices_iff, ipip_suffices_iff⟩

/-- An IPIP packet without room is sent without room. -/
theorem ipip_reserves_nothing : ¬ Suffices (sfmcInit 0 (freshZone fun _ => true)) fun k =>
    Offload.ipipTunnelXmit k (htons ETH_P_IP)
      { data := List.replicate 20 0, tail := fun _ => 0, fragLen := 0, headroom := 0,
        dst := some 1 } := by
  intro h
  have hroom := h .sparing _ rfl
  exact absurd hroom (by decide)

end Madcap
