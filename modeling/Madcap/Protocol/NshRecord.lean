import Madcap.Protocol.NshDump
import Madcap.Protocol.NshOffload

/-!
# The record of a new path

A key packs the SPI and the SI of a path into one word, and a record takes them apart
again. The record of the entry that a request leaves should say what the request said.
-/

namespace Madcap

section

variable {spi : U32} {si : U8}

theorem htonl_nshKey (spi : U32) (si : U8) :
    htonl (nshKey spi si) = spi <<< 8 ||| si.setWidth 32 :=
  htonl_htonl _

theorem recorded_si (spi : U32) (si : U8) :
    (htonl (nshKey spi si) &&& 0xFF).setWidth 8 = si := by
  rw [htonl_nshKey]
  apply BitVec.eq_of_getLsbD_eq
  intro i hi
  have hmask : (0xFF : U32).getLsbD i = true := by interval_cases i <;> rfl
  simp only [BitVec.getLsbD_setWidth, BitVec.getLsbD_and, BitVec.getLsbD_or,
    BitVec.getLsbD_shiftLeft, hmask]
  simp [hi, show i < 32 by omega]

/-- A key has no room for the top byte of the SPI. -/
theorem recorded_spi (spi : U32) (si : U8) :
    (htonl (nshKey spi si) >>> 8).toNat = spi.toNat % 2 ^ 24 := by
  have hlow : (si.setWidth 32).toNat < 2 ^ 8 := by
    rw [BitVec.toNat_setWidth]
    exact lt_of_le_of_lt (Nat.mod_le _ _) si.isLt
  rw [htonl_nshKey, BitVec.toNat_ushiftRight, BitVec.toNat_or, BitVec.toNat_shiftLeft,
    Nat.shiftRight_or_distrib, Nat.shiftRight_eq_div_pow _ 8, Nat.shiftRight_eq_div_pow _ 8,
    Nat.div_eq_of_lt hlow, Nat.or_zero, Nat.shiftLeft_eq]
  omega

theorem recorded_spi_eq_iff : htonl (nshKey spi si) >>> 8 = spi ↔ spi.toNat < 2 ^ 24 := by
  rw [← BitVec.toNat_inj, recorded_spi]
  constructor
  · intro h
    rw [← h]
    exact Nat.mod_lt _ (by decide)
  · exact Nat.mod_eq_of_lt

end

/-- The memory held no lower device where the remote node has it. -/
def NshMem.Unlinked (mem : NshMem) : Prop := ∀ held, mem.dst = some held → held.lowerdev = none

namespace NshWorld

/-- The record that says what a request said, with the defaults of what it left out and the
attributes of its encap type. -/
def requestedRecord (a : NshAttrs) : NshAttrs :=
  let encap := a.encap.getD NSH_ENCAP_TYPE_NONE
  { ifindex := a.ifindex
    spi := a.spi
    si := a.si
    mdtype := some (a.mdtype.getD NSH_BASE_MDTYPE1)
    encap := some encap
    remote := if encap = NSH_ENCAP_TYPE_VXLAN then a.remote else none
    localIp := if encap = NSH_ENCAP_TYPE_VXLAN then a.localIp.filter (· ≠ 0) else none
    vni := if encap = NSH_ENCAP_TYPE_VXLAN then some (a.vni.getD 0) else none
    ethaddr := if encap = NSH_ENCAP_TYPE_ETHER then a.ethaddr else none }

def entryOf (env : NshEnv) (w : NshWorld) (a : NshAttrs) (mem : NshMem) : Option NshTable :=
  (w.nshNlCmdPathDstSet env a mem).2.nnet.nshFindTable env (linkKey a.spi a.si)

/-- The dump of the entry says what the request said. -/
def RoundTrips (env : NshEnv) (w : NshWorld) (a : NshAttrs) (mem : NshMem) : Prop :=
  ∃ nt, entryOf env w a mem = some nt ∧
    nshNlTableSend (w.nshNlCmdPathDstSet env a mem).2.ifindexAt nt = .ok (requestedRecord a)

/-- The entry gets memory, the SPI fits into 24 bits, and a VXLAN request names its link or
the memory says that there is none. -/
structure Recordable (a : NshAttrs) (mem : NshMem) : Prop where
  granted : mem.table = true
  spi : ∀ spi, a.spi = some spi → spi.toNat < 2 ^ 24
  linkless : a.encap = some NSH_ENCAP_TYPE_VXLAN → a.ifindex = none → mem.Unlinked

variable {env : NshEnv} {w w' : NshWorld} {a a' : NshAttrs} {mem mem' : NshMem}

theorem Inv.ifindexAt (h : w.Inv env) (hnetdevs : w'.netdevs = w.netdevs) {ifindex : U32}
    {d : NetDevice} (hd : w.devGetByIndex ifindex = some d) : w'.ifindexAt d.dev = .ok ifindex := by
  have hindex : d.ifindex = ifindex := by simpa using List.find?_some hd
  unfold NshWorld.ifindexAt
  rw [hnetdevs, h.find_dev (List.mem_of_find?_eq_some hd), ← hindex]
  rfl

theorem nshRecordHead_entry (spi : U32) (si mdtype encap : U8) (rdev : Option NetDev)
    (rdst : Option NshDst) : nshRecordHead (nshEntry (nshKey spi si) mdtype encap rdev rdst) =
      { ifindex := none
        spi := some (htonl (nshKey spi si) >>> 8)
        si := some si
        mdtype := some mdtype
        encap := some encap
        remote := none
        localIp := none
        vni := none
        ethaddr := none } := by
  have hsi := congrArg some (recorded_si spi si)
  unfold nshRecordHead nshEntry
  dsimp only
  rw [hsi]

theorem localIp_filter (localIp : Option U32) :
    (if localIp.getD 0 ≠ 0 then some (localIp.getD 0) else none) = localIp.filter (· ≠ 0) := by
  cases localIp with
  | none => rfl
  | some ip =>
    rw [Option.getD_some, Option.filter_some]
    by_cases hip : ip = 0 <;> simp [hip]

theorem Inv.tableSend_entry (h : w.Inv env) (hnetdevs : w'.netdevs = w.netdevs) {spi : U32}
    {si encap : U8} {rdev : Option NetDev} {rdst : Option NshDst} (hsi : a.si = some si)
    (hasks : w.Asks a mem.dst encap rdev rdst)
    (hlink : a.encap = some NSH_ENCAP_TYPE_VXLAN → a.ifindex = none → mem.Unlinked) :
    nshNlTableSend w'.ifindexAt
      (nshEntry (nshKey spi si) (a.mdtype.getD NSH_BASE_MDTYPE1) encap rdev rdst) =
        .ok { requestedRecord a with spi := some (htonl (nshKey spi si) >>> 8) } := by
  have hvn : ¬ NSH_ENCAP_TYPE_VXLAN = NSH_ENCAP_TYPE_NONE := by decide
  have hen : ¬ NSH_ENCAP_TYPE_ETHER = NSH_ENCAP_TYPE_NONE := by decide
  have hev : ¬ NSH_ENCAP_TYPE_ETHER = NSH_ENCAP_TYPE_VXLAN := by decide
  unfold nshNlTableSend requestedRecord
  rw [nshRecordHead_entry]
  cases hasks with
  | none hencap hifindex hd hnsh =>
    have hindex := h.ifindexAt hnetdevs hd
    have hvxlan : ¬ NSH_ENCAP_TYPE_NONE = NSH_ENCAP_TYPE_VXLAN := by decide
    have hether : ¬ NSH_ENCAP_TYPE_NONE = NSH_ENCAP_TYPE_ETHER := by decide
    simp only [nshEntry, hencap, if_true, hvxlan, hether, if_false, hindex, hifindex, hsi]
    rfl
  | unlinked hencap hremote hdst hifindex =>
    have hether : ¬ NSH_ENCAP_TYPE_VXLAN = NSH_ENCAP_TYPE_ETHER := by decide
    have hlower := hlink hencap hifindex _ hdst
    simp only [nshEntry, hencap, Option.getD_some, hvn, hether, if_true, if_false, hlower, hifindex,
      hsi, hremote, localIp_filter]
    rfl
  | vxlan hencap hremote hdst hifindex hd hnsh =>
    have hindex := h.ifindexAt hnetdevs hd
    have hether : ¬ NSH_ENCAP_TYPE_VXLAN = NSH_ENCAP_TYPE_ETHER := by decide
    simp only [nshEntry, hencap, Option.getD_some, hvn, hether, if_true, if_false, hindex, hifindex,
      hsi, hremote, localIp_filter]
    rfl
  | ether hencap hifindex heth hd hnsh hdst =>
    have hindex := h.ifindexAt hnetdevs hd
    simp only [nshEntry, hencap, Option.getD_some, hen, hev, if_true, if_false, hindex, hifindex, hsi,
      heth]
    rfl

theorem unlinked_of_record {index : NetDev → Res U32} {spi : U32} {si mdtype encap : U8}
    {rdev : Option NetDev} {rdst : Option NshDst} {record : NshAttrs}
    (hasks : w.Asks a mem.dst encap rdev rdst)
    (hsend : nshNlTableSend index (nshEntry (nshKey spi si) mdtype encap rdev rdst) = .ok record)
    (hrecord : record.ifindex = none) (hencap : a.encap = some NSH_ENCAP_TYPE_VXLAN)
    (hifindex : a.ifindex = none) : mem.Unlinked := by
  have hvn : ¬ NSH_ENCAP_TYPE_VXLAN = NSH_ENCAP_TYPE_NONE := by decide
  intro held hheld
  cases hasks with
  | none hnone => exact absurd hencap (ne_encap_of_none hnone (by decide))
  | unlinked _ _ hdst _ =>
    obtain rfl := Option.some.inj (hheld.symm.trans hdst)
    unfold nshNlTableSend nshEntry at hsend
    rw [if_neg hvn, if_pos rfl] at hsend
    dsimp only at hsend
    cases hlower : held.lowerdev with
    | none => rfl
    | some lowerdev =>
      rw [hlower] at hsend
      obtain ⟨ifindex, -, hok⟩ := bind_eq_ok.mp hsend
      rw [← Except.ok.inj hok] at hrecord
      cases hrecord
  | vxlan _ _ _ hlink =>
    rw [hifindex] at hlink
    cases hlink
  | ether hether =>
    rw [hencap] at hether
    exact absurd (Option.some.inj hether) (by decide)

/-- The entry of an accepted request round-trips exactly when it is recordable. -/
theorem Inv.roundTrips_iff (h : w.Inv env) (haccepted : (w.nshNlCmdPathDstSet env a mem).1 = 0) :
    RoundTrips env w a mem ↔ Recordable a mem := by
  obtain ⟨spi, si, encap, rdev, rdst, hspi, hsi, -, hasks, hentry, hnetdevs⟩ :=
    accepted_asks haccepted
  have hkey : linkKey a.spi a.si = nshKey spi si := by
    rw [hspi, hsi]
    rfl
  unfold RoundTrips entryOf
  rw [hkey, hentry]
  constructor
  · rintro ⟨nt, hnt, hsend⟩
    have hgranted : mem.table = true := by
      by_contra hno
      rw [if_neg hno] at hnt
      cases hnt
    rw [if_pos hgranted] at hnt
    obtain rfl := Option.some.inj hnt
    have hlink : a.encap = some NSH_ENCAP_TYPE_VXLAN → a.ifindex = none → mem.Unlinked :=
      fun hencap hifindex => unlinked_of_record hasks hsend hifindex hencap hifindex
    refine ⟨hgranted, fun spi' hspi' => ?_, hlink⟩
    rw [h.tableSend_entry hnetdevs hsi hasks hlink] at hsend
    have hsame := congrArg NshAttrs.spi (Except.ok.inj hsend)
    obtain rfl := Option.some.inj (hspi.symm.trans hspi')
    exact recorded_spi_eq_iff.mp (Option.some.inj (hsame.trans hspi))
  · rintro ⟨hgranted, hsmall, hlink⟩
    refine ⟨_, if_pos hgranted, ?_⟩
    rw [h.tableSend_entry hnetdevs hsi hasks hlink, recorded_spi_eq_iff.mpr (hsmall spi hspi), ← hspi]
    rfl

theorem nshNlTableSend_path {index : NetDev → Res U32} {nt : NshTable} {record : NshAttrs}
    (hsend : nshNlTableSend index nt = .ok record) :
    record.spi = (nshRecordHead nt).spi ∧ record.si = (nshRecordHead nt).si := by
  unfold nshNlTableSend at hsend
  split_ifs at hsend with hnone hvxlan hether
  · split at hsend
    · cases hsend
    · obtain ⟨ifindex, -, hok⟩ := bind_eq_ok.mp hsend
      obtain rfl := Except.ok.inj hok
      exact ⟨rfl, rfl⟩
  · split at hsend
    · cases hsend
    · dsimp only at hsend
      split at hsend
      · obtain rfl := Except.ok.inj hsend
        exact ⟨rfl, rfl⟩
      · obtain ⟨ifindex, -, hok⟩ := bind_eq_ok.mp hsend
        obtain rfl := Except.ok.inj hok
        exact ⟨rfl, rfl⟩
  · split at hsend
    · cases hsend
    · split at hsend
      · cases hsend
      · obtain ⟨ifindex, -, hok⟩ := bind_eq_ok.mp hsend
        obtain rfl := Except.ok.inj hok
        exact ⟨rfl, rfl⟩
  · obtain rfl := Except.ok.inj hsend
    exact ⟨rfl, rfl⟩

theorem RoundTrips.entryOf_ne (h : RoundTrips env w a mem) (h' : RoundTrips env w' a' mem')
    (hne : (a.spi, a.si) ≠ (a'.spi, a'.si)) : entryOf env w a mem ≠ entryOf env w' a' mem' := by
  obtain ⟨nt, hnt, hsend⟩ := h
  obtain ⟨nt', hnt', hsend'⟩ := h'
  intro hsame
  obtain rfl := Option.some.inj (hnt.symm.trans (hsame.trans hnt'))
  obtain ⟨hspi, hsi⟩ := nshNlTableSend_path hsend
  obtain ⟨hspi', hsi'⟩ := nshNlTableSend_path hsend'
  exact hne (Prod.ext (hspi.trans hspi'.symm) (hsi.trans hsi'.symm))

/-- Two requests that are accepted in reachable namespaces round-trip, and have different
entries if they are for different paths, exactly when both are recordable. -/
theorem path_set_round_trips_iff (env : NshEnv) (es es' : List Event) (w w' : NshWorld)
    (hrun : run env init es = .ok w) (hrun' : run env init es' = .ok w') (a a' : NshAttrs)
    (mem mem' : NshMem) (h : (w.nshNlCmdPathDstSet env a mem).1 = 0)
    (h' : (w'.nshNlCmdPathDstSet env a' mem').1 = 0) :
    (RoundTrips env w a mem ∧ RoundTrips env w' a' mem' ∧
      ((a.spi, a.si) ≠ (a'.spi, a'.si) → entryOf env w a mem ≠ entryOf env w' a' mem')) ↔
    Recordable a mem ∧ Recordable a' mem' := by
  have hinv : w.Inv env := (inv_init.run es).of_eq_ok hrun
  have hinv' : w'.Inv env := (inv_init.run es').of_eq_ok hrun'
  rw [← hinv.roundTrips_iff h, ← hinv'.roundTrips_iff h']
  constructor
  · rintro ⟨ha, ha', -⟩
    exact ⟨ha, ha'⟩
  · rintro ⟨ha, ha'⟩
    exact ⟨ha, ha', ha.entryOf_ne ha'⟩

/-- Two paths of one request, over the same link, that differ in the SI. -/
theorem path_set_round_trips_linked : ∃ w, run plainEnv init [lowerEvent] = .ok w ∧
    RoundTrips plainEnv w { linklessRequest with ifindex := some 2 } (heldMemory none) ∧
    RoundTrips plainEnv w { linklessRequest with ifindex := some 2, si := some 2 } (heldMemory none) := by
  have hboth := path_set_round_trips_iff plainEnv [lowerEvent] [lowerEvent] _ _ rfl rfl
    { linklessRequest with ifindex := some 2 } { linklessRequest with ifindex := some 2, si := some 2 }
    (heldMemory none) (heldMemory none) rfl rfl
  have hrecordable (si : U8) :
      Recordable { linklessRequest with ifindex := some 2, si := some si } (heldMemory none) := by
    refine ⟨rfl, fun spi hspi => ?_, fun _ hifindex => ?_⟩
    · obtain rfl := Option.some.inj hspi
      decide
    · cases hifindex
  obtain ⟨hfirst, hsecond, -⟩ := hboth.mpr ⟨hrecordable 1, hrecordable 2⟩
  exact ⟨_, rfl, hfirst, hsecond⟩

/-- An SPI of 25 bits is recorded without its top bit. -/
theorem wide_spi_not_recorded : ¬ ∀ (env : NshEnv) (es : List Event) (w : NshWorld),
    run env init es = .ok w → ∀ a mem, (w.nshNlCmdPathDstSet env a mem).1 = 0 →
      RoundTrips env w a mem := by
  intro h
  have hwide := h plainNsh [] init rfl { linklessRequest with spi := some 0x01000001 }
    (heldMemory none) rfl
  have hrecordable := (inv_init.roundTrips_iff rfl).mp hwide
  exact absurd (hrecordable.spi _ rfl) (by decide)

end NshWorld

end Madcap
