import Madcap.Kernel

/-!
# The VXLAN driver

Two ways to send a frame, through the madcap device and through the IPv4 stack,
and the way a received datagram takes to a VXLAN device. Frames are byte strings.
The kernel's `vxlan.h` gives the constants. Checksums of the offloaded frame are
somebody else's, so their part in a datagram is a parameter.
-/

namespace Madcap

def ERANGE : ℤ := 34

def VXLAN_N_VID : U32 := 1 <<< 24
def VXLAN_VID_MASK : U32 := VXLAN_N_VID - 1
def VXLAN_VNI_MASK : U32 := VXLAN_VID_MASK <<< 8

/-- A UDP header and a VXLAN header. -/
def VXLAN_HLEN : ℕ := 16

def VXLAN_HF_VNI : U32 := 0x08000000
def VXLAN_HF_GBP : U32 := 0x80000000
def VXLAN_HF_RCO : U32 := 0x00200000

def VXLAN_GBP_DONT_LEARN : U32 := 0x00400000
def VXLAN_GBP_POLICY_APPLIED : U32 := 0x00080000
def VXLAN_GBP_ID_MASK : U32 := 0xFFFF
def VXLAN_GBP_USED_BITS : U32 := VXLAN_HF_GBP ||| 0xFFFFFF

def VXLAN_RCO_SHIFT : ℕ := 1
def VXLAN_RCO_SHIFT_MASK : ℕ := 1
def VXLAN_RCO_UDP : U32 := 0x80
def VXLAN_MAX_REMCSUM_START : ℕ := 254

/-- `struct vxlanhdr`, with its fields as the host loads them. -/
structure VxlanHdr where
  vxFlags : U32
  vxVni : U32
  deriving DecidableEq, Repr

def VxlanHdr.bytes (vxh : VxlanHdr) : List U8 := bytesOf 4 vxh.vxFlags ++ bytesOf 4 vxh.vxVni

def VxlanHdr.read (data : List U8) : VxlanHdr where
  vxFlags := load32 (readByte data)
  vxVni := load32 (readByte (data.drop 4))

/-- `struct vxlan_metadata`. -/
structure VxlanMetadata where
  vni : U32
  gbp : U32
  deriving DecidableEq, Repr

/-- The extensions a device or a socket has switched on. -/
structure VxlanFlags where
  gbp : Bool
  remcsumTx : Bool
  remcsumRx : Bool
  deriving DecidableEq, Repr

/-- `struct vxlan_rdst`. -/
structure VxlanRdst where
  remoteVni : U32
  deriving DecidableEq, Repr

/-- `struct vxlan_dev`, with its hardware address. -/
structure VxlanDev where
  defaultDst : VxlanRdst
  flags : VxlanFlags
  devAddr : Mac
  deriving DecidableEq, Repr

/-- The socket buffer's mark, and where a partial checksum starts and is stored. -/
structure TxInfo where
  mark : U32
  partialCsum : Option (ℕ × ℕ)
  deriving DecidableEq, Repr

/-- The test of the identifier in `vxlan_validate`. -/
def vxlanValidate (id : U32) : ℤ := if id ≥ VXLAN_VID_MASK then -ERANGE else 0

/-- `vxlan_xmit_madcap`: the frame that is queued to the madcap device. -/
def vxlanXmitMadcap (vxlan : VxlanDev) (frame : List U8) : List U8 :=
  let vxh : VxlanHdr := { vxFlags := htonl VXLAN_HF_VNI, vxVni := vxlan.defaultDst.remoteVni }
  vxh.bytes ++ frame

def vxlanBuildGbpHdr (vxh : VxlanHdr) (md : VxlanMetadata) : VxlanHdr :=
  if md.gbp = 0 then vxh
  else
    let flags := VXLAN_HF_GBP ||| (md.gbp &&& VXLAN_GBP_DONT_LEARN) |||
      (md.gbp &&& VXLAN_GBP_POLICY_APPLIED) ||| (md.gbp &&& VXLAN_GBP_ID_MASK)
    { vxh with vxFlags := vxh.vxFlags ||| htonl flags }

/-- The frame's checksum is left to the receiver. The offsets of the checksum in a UDP and
a TCP header are 6 and 16. -/
def usesRemcsum (flags : VxlanFlags) (info : TxInfo) : Option (ℕ × ℕ) :=
  match info.partialCsum with
  | none => none
  | some (start, offset) =>
    if flags.remcsumTx && start ≤ VXLAN_MAX_REMCSUM_START && start &&& VXLAN_RCO_SHIFT_MASK = 0 &&
        (offset = 6 || offset = 16) then
      some (start, offset)
    else
      none

/-- The header `vxlan_xmit_skb` writes. -/
def vxlanXmitSkb (frame : List U8) (md : VxlanMetadata) (flags : VxlanFlags) (info : TxInfo) :
    List U8 :=
  let vxh : VxlanHdr := { vxFlags := htonl VXLAN_HF_VNI, vxVni := md.vni }
  let vxh :=
    match usesRemcsum flags info with
    | none => vxh
    | some (start, offset) =>
      let data := BitVec.ofNat 32 (start >>> VXLAN_RCO_SHIFT)
      let data := if offset = 6 then data ||| VXLAN_RCO_UDP else data
      { vxFlags := vxh.vxFlags ||| htonl VXLAN_HF_RCO, vxVni := vxh.vxVni ||| htonl data }
  let vxh := if flags.gbp then vxlanBuildGbpHdr vxh md else vxh
  vxh.bytes ++ frame

/-- `vxlan_xmit_one` to an IPv4 destination that is not local. -/
def vxlanXmitOne (vxlan : VxlanDev) (rdst : VxlanRdst) (frame : List U8) (info : TxInfo) :
    List U8 :=
  let md : VxlanMetadata := { vni := htonl (rdst.remoteVni <<< 8), gbp := info.mark }
  vxlanXmitSkb frame md vxlan.flags info

/-- `struct vxlan_sock`: the bucket of each identifier, and the socket's extensions. -/
structure VxlanSock where
  vniHead : U32 → List VxlanDev
  flags : VxlanFlags

/-- What becomes of a datagram: it is handed back to UDP, dropped or delivered. -/
inductive VxlanVerdict where
  | notVxlan
  | dropped
  | delivered (vxlan : VxlanDev) (frame : List U8)
  deriving DecidableEq, Repr

/-- What the kernel does to a frame on its way: remote checksums, and the checks of
learning and congestion marks, which may drop it. -/
structure VxlanStack where
  remcsum : U32 → List U8 → Option (List U8)
  refuses : VxlanDev → List U8 → Bool

def vxlanVsFindVni (vs : VxlanSock) (id : U32) : Option VxlanDev :=
  (vs.vniHead id).find? fun vxlan => vxlan.defaultDst.remoteVni == id

def vxlanRcv (stack : VxlanStack) (vs : VxlanSock) (md : VxlanMetadata) (frame : List U8) :
    VxlanVerdict :=
  let vni := htonl md.vni >>> 8
  match vxlanVsFindVni vs vni with
  | none => .dropped
  | some vxlan =>
    if (frame.drop 6).take 6 = bytesOf 6 vxlan.devAddr then .dropped
    else if stack.refuses vxlan frame then .dropped
    else .delivered vxlan frame

/-- The flag tests of `vxlan_udp_encap_recv` once checksums are dealt with. -/
def vxlanCheckFlags (stack : VxlanStack) (vs : VxlanSock) (vxh : VxlanHdr) (flags vni : U32)
    (frame : List U8) : VxlanVerdict :=
  let useGbp := flags &&& VXLAN_HF_GBP ≠ 0 && vs.flags.gbp
  let gbp :=
    if useGbp then
      htonl vxh.vxFlags &&&
        (VXLAN_GBP_ID_MASK ||| VXLAN_GBP_DONT_LEARN ||| VXLAN_GBP_POLICY_APPLIED)
    else 0
  let flags := if useGbp then flags &&& ~~~VXLAN_GBP_USED_BITS else flags
  if flags ≠ 0 || vni &&& ~~~VXLAN_VNI_MASK ≠ 0 then .notVxlan
  else vxlanRcv stack vs { vni := vxh.vxVni, gbp := gbp } frame

/-- `vxlan_udp_encap_recv` of a datagram with its UDP header. -/
def vxlanUdpEncapRecv (stack : VxlanStack) (vs : VxlanSock) (datagram : List U8) : VxlanVerdict :=
  if datagram.length < VXLAN_HLEN then .notVxlan
  else
    let vxh := VxlanHdr.read (datagram.drop 8)
    let flags := htonl vxh.vxFlags
    let vni := htonl vxh.vxVni
    let frame := datagram.drop VXLAN_HLEN
    if flags &&& VXLAN_HF_VNI = 0 then .notVxlan
    else if frame.length < ETH_HLEN then .dropped
    else
      let flags := flags &&& ~~~VXLAN_HF_VNI
      if flags &&& VXLAN_HF_RCO ≠ 0 && vs.flags.remcsumRx then
        match stack.remcsum vni frame with
        | none => .dropped
        | some frame =>
          vxlanCheckFlags stack vs vxh (flags &&& ~~~VXLAN_HF_RCO) (vni &&& VXLAN_VNI_MASK) frame
      else
        vxlanCheckFlags stack vs vxh flags vni frame

variable {vxlan : VxlanDev} {vs : VxlanSock} {stack : VxlanStack} {frame rest : List U8}

@[simp] theorem VxlanHdr.bytes_length (vxh : VxlanHdr) : vxh.bytes.length = 8 := by
  simp [VxlanHdr.bytes]

theorem VxlanHdr.read_bytes (vxh : VxlanHdr) (rest : List U8) :
    VxlanHdr.read (vxh.bytes ++ rest) = vxh := by
  have hvni : (vxh.bytes ++ rest).drop 4 = bytesOf 4 vxh.vxVni ++ rest := by
    rw [VxlanHdr.bytes, List.append_assoc, List.drop_left' (by simp)]
  rw [VxlanHdr.read, hvni, load32_bytesOf, VxlanHdr.bytes, List.append_assoc, load32_bytesOf]

theorem vxlanXmitOne_plain {info : TxInfo} (hrco : usesRemcsum vxlan.flags info = none)
    (hmark : info.mark = 0) (rdst : VxlanRdst) : vxlanXmitOne vxlan rdst frame info =
      VxlanHdr.bytes { vxFlags := htonl VXLAN_HF_VNI, vxVni := htonl (rdst.remoteVni <<< 8) } ++
        frame := by
  unfold vxlanXmitOne vxlanXmitSkb
  simp only [hrco, hmark, vxlanBuildGbpHdr, if_true, ite_self]

theorem vxlanCheckFlags_zero (vxh : VxlanHdr) (vni : U32) :
    vxlanCheckFlags stack vs vxh 0 vni frame =
      if byteAt vni 0 = 0 then vxlanRcv stack vs { vni := vxh.vxVni, gbp := 0 } frame
      else .notVxlan := by
  have hgbp : (0 : U32) &&& VXLAN_HF_GBP = 0 := by decide
  have hmask : ~~~VXLAN_VNI_MASK = 0xFF := by decide
  unfold vxlanCheckFlags
  simp only [hgbp, hmask, ne_eq, not_true_eq_false, decide_false, Bool.false_and, Bool.false_or,
    if_false, Bool.false_eq_true, and_ff_eq_zero]
  by_cases h : byteAt vni 0 = 0
  · simp [h]
  · simp

theorem vxlanUdpEncapRecv_eq {udp : List U8} (hudp : udp.length = 8) (vni : U32)
    (hframe : ETH_HLEN ≤ frame.length) :
    vxlanUdpEncapRecv stack vs
        (udp ++ (VxlanHdr.bytes { vxFlags := htonl VXLAN_HF_VNI, vxVni := vni } ++ frame)) =
      if byteAt vni 3 = 0 then vxlanRcv stack vs { vni := vni, gbp := 0 } frame
      else .notVxlan := by
  generalize hh : ({ vxFlags := htonl VXLAN_HF_VNI, vxVni := vni } : VxlanHdr) = vxh
  have hflags : htonl vxh.vxFlags = VXLAN_HF_VNI := by rw [← hh, htonl_htonl]
  have hvni : vxh.vxVni = vni := by rw [← hh]
  have hlen : ¬ (udp ++ (vxh.bytes ++ frame)).length < VXLAN_HLEN := by
    simp only [List.length_append, hudp, VxlanHdr.bytes_length, VXLAN_HLEN]
    omega
  have hhdr : VxlanHdr.read ((udp ++ (vxh.bytes ++ frame)).drop 8) = vxh := by
    rw [List.drop_left' hudp, VxlanHdr.read_bytes]
  have hrest : (udp ++ (vxh.bytes ++ frame)).drop VXLAN_HLEN = frame := by
    rw [← List.append_assoc, List.drop_left' (by simp [hudp, VXLAN_HLEN])]
  have hset : ¬ VXLAN_HF_VNI &&& VXLAN_HF_VNI = 0 := by decide
  have hclear : VXLAN_HF_VNI &&& ~~~VXLAN_HF_VNI = 0 := by decide
  have hrco : (0 : U32) &&& VXLAN_HF_RCO = 0 := by decide
  unfold vxlanUdpEncapRecv
  simp only [if_neg hlen, hhdr, hrest, hflags, if_neg hset, if_neg (Nat.not_lt.mpr hframe), hclear,
    hrco, ne_eq, not_true_eq_false, decide_false, Bool.false_and, Bool.false_eq_true, if_false,
    vxlanCheckFlags_zero, byteAt_htonl _ (show 0 < 4 by decide), hvni]

theorem byteAt_vni {v : U32} (hv : vxlanValidate v = 0) : byteAt v 3 = 0 := by
  have hlt : v < VXLAN_VID_MASK := by
    unfold vxlanValidate at hv
    by_contra h
    rw [if_pos (BitVec.not_lt.mp h)] at hv
    exact absurd hv (by decide)
  have hnat : v.toNat < 0xFFFFFF := hlt
  apply BitVec.eq_of_getLsbD_eq
  intro j hj
  rw [byteAt_getLsbD _ hj]
  have hpow : 2 ^ 24 ≤ 2 ^ (8 * 3 + j) := Nat.pow_le_pow_right (by decide) (by omega)
  rw [← BitVec.testBit_toNat, Nat.testBit_lt_two_pow (by omega)]
  simp

theorem byteAt_wire (v : U32) : byteAt (htonl (v <<< 8)) 0 = byteAt v 2 ∧
    byteAt (htonl (v <<< 8)) 1 = byteAt v 1 ∧ byteAt (htonl (v <<< 8)) 2 = byteAt v 0 ∧
    byteAt (htonl (v <<< 8)) 3 = 0 := by
  refine ⟨?_, ?_, ?_, ?_⟩
  · rw [byteAt_htonl _ (by decide)]
    exact byteAt_shiftLeft_succ v (by decide)
  · rw [byteAt_htonl _ (by decide)]
    exact byteAt_shiftLeft_succ v (by decide)
  · rw [byteAt_htonl _ (by decide)]
    exact byteAt_shiftLeft_succ v (by decide)
  · rw [byteAt_htonl _ (by decide)]
    exact byteAt_shiftLeft_zero v

theorem byteAt_received (x : U32) : byteAt (htonl x >>> 8) 0 = byteAt x 2 ∧
    byteAt (htonl x >>> 8) 1 = byteAt x 1 ∧ byteAt (htonl x >>> 8) 2 = byteAt x 0 ∧
    byteAt (htonl x >>> 8) 3 = 0 := by
  refine ⟨?_, ?_, ?_, ?_⟩
  · rw [byteAt_ushiftRight, byteAt_htonl _ (by decide)]
  · rw [byteAt_ushiftRight, byteAt_htonl _ (by decide)]
  · rw [byteAt_ushiftRight, byteAt_htonl _ (by decide)]
  · rw [byteAt_ushiftRight]
    exact byteAt_of_le _ (by decide)

/-- The receiving device takes the frame: it is not its own, and nothing else objects. -/
def VxlanStack.Accepts (stack : VxlanStack) (vxlan : VxlanDev) (frame : List U8) : Prop :=
  (frame.drop 6).take 6 ≠ bytesOf 6 vxlan.devAddr ∧ stack.refuses vxlan frame = false

/-- The frame reaches a device with the identifier, unchanged. -/
def VxlanVerdict.Reaches (verdict : VxlanVerdict) (vni : U32) (frame : List U8) : Prop :=
  ∃ vxlan, verdict = .delivered vxlan frame ∧ vxlan.defaultDst.remoteVni = vni

theorem vxlanVsFindVni_some {id : U32} {d : VxlanDev} (h : vxlanVsFindVni vs id = some d) :
    d.defaultDst.remoteVni = id := by
  simpa [vxlanVsFindVni] using List.find?_some h

theorem vxlanRcv_reaches {md : VxlanMetadata} {v : U32} {d : VxlanDev}
    (hd : vxlanVsFindVni vs v = some d) (hacc : stack.Accepts d frame) :
    (vxlanRcv stack vs md frame).Reaches v frame ↔ htonl md.vni >>> 8 = v := by
  unfold vxlanRcv
  constructor
  · rintro ⟨d', hdel, hvni⟩
    cases hfind : vxlanVsFindVni vs (htonl md.vni >>> 8) with
    | none => simp [hfind] at hdel
    | some e =>
      simp only [hfind] at hdel
      split_ifs at hdel
      obtain ⟨rfl, -⟩ := VxlanVerdict.delivered.inj hdel
      rw [← hvni, vxlanVsFindVni_some hfind]
  · intro h
    obtain ⟨hsource, hrefuses⟩ := hacc
    refine ⟨d, ?_, vxlanVsFindVni_some hd⟩
    simp only [h, hd, if_neg hsource, hrefuses, Bool.false_eq_true, if_false]

/-- The madcap path writes the header of the plain path, and reaches the device's VNI at a
peer that has it, exactly when the lowest and the highest byte of the VNI are the same. -/
theorem madcap_header_iff (vxlan : VxlanDev) (frame : List U8) (info : TxInfo)
    (hv : vxlanValidate vxlan.defaultDst.remoteVni = 0)
    (hrco : usesRemcsum vxlan.flags info = none) (hmark : info.mark = 0) :
    (vxlanXmitMadcap vxlan frame = vxlanXmitOne vxlan vxlan.defaultDst frame info ↔
      byteAt vxlan.defaultDst.remoteVni 0 = byteAt vxlan.defaultDst.remoteVni 2) ∧
    ∀ stack vs udp d, udp.length = 8 → ETH_HLEN ≤ frame.length →
      vxlanVsFindVni vs vxlan.defaultDst.remoteVni = some d → stack.Accepts d frame →
      ((vxlanUdpEncapRecv stack vs (udp ++ vxlanXmitMadcap vxlan frame)).Reaches
          vxlan.defaultDst.remoteVni frame ↔
        byteAt vxlan.defaultDst.remoteVni 0 = byteAt vxlan.defaultDst.remoteVni 2) := by
  have h3 := byteAt_vni hv
  constructor
  · rw [vxlanXmitOne_plain hrco hmark, vxlanXmitMadcap]
    obtain ⟨w0, w1, w2, w3⟩ := byteAt_wire vxlan.defaultDst.remoteVni
    constructor
    · intro h
      have hhdr := congrArg VxlanHdr.read h
      rw [VxlanHdr.read_bytes, VxlanHdr.read_bytes] at hhdr
      have hvni := (VxlanHdr.mk.inj hhdr).2
      rw [← w0, ← hvni]
    · intro h
      have hvni : vxlan.defaultDst.remoteVni = htonl (vxlan.defaultDst.remoteVni <<< 8) := by
        rw [eq_iff_bytes, w0, w1, w2, w3]
        exact ⟨h, rfl, h.symm, h3⟩
      rw [← hvni]
  · intro stack vs udp d hudp hframe hd hacc
    rw [vxlanXmitMadcap, vxlanUdpEncapRecv_eq hudp _ hframe, if_pos h3, vxlanRcv_reaches hd hacc,
      eq_iff_bytes]
    obtain ⟨r0, r1, r2, r3⟩ := byteAt_received vxlan.defaultDst.remoteVni
    rw [r0, r1, r2, r3]
    constructor
    · rintro ⟨h, -⟩
      exact h.symm
    · intro h
      exact ⟨h.symm, rfl, h, h3.symm⟩

def plainVxlan (vni : U32) : VxlanDev where
  defaultDst := { remoteVni := vni }
  flags := { gbp := false, remcsumTx := false, remcsumRx := false }
  devAddr := 0x010000000002

/-- A frame of VNI 1 leaves with VNI 65536. -/
theorem madcap_header_vni_one : ¬ ∀ (vxlan : VxlanDev) (frame : List U8) (info : TxInfo),
    vxlanValidate vxlan.defaultDst.remoteVni = 0 → usesRemcsum vxlan.flags info = none →
    info.mark = 0 → vxlanXmitMadcap vxlan frame = vxlanXmitOne vxlan vxlan.defaultDst frame info := by
  intro h
  have hone := h (plainVxlan 1) [] { mark := 0, partialCsum := none } (by decide) rfl rfl
  exact absurd hone (by decide)

theorem madcap_header_iff_palindrome : vxlanXmitMadcap (plainVxlan 0x030203) [1, 2] =
    vxlanXmitOne (plainVxlan 0x030203) { remoteVni := 0x030203 } [1, 2]
      { mark := 0, partialCsum := none } :=
  (madcap_header_iff (plainVxlan 0x030203) [1, 2] { mark := 0, partialCsum := none } (by decide)
    rfl rfl).1.mpr (by decide)

end Madcap
