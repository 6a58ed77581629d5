import Madcap.Protocol.NshRoundTrip
import Madcap.Protocol.NshTargets

/-!
# What a request for a path asks for

A request that passes every check makes an entry whose target its attributes say. One that
does not is refused with nothing changed, except that a VXLAN request with a bad link is
refused after it has taken memory.
-/

namespace Madcap

namespace NshWorld

/-- The request passes the checks of its encap type, with the memory it gets for the remote
node, and its entry has this encap type and this target. -/
inductive Asks (w : NshWorld) (a : NshAttrs) (dst : Option NshDst) :
    U8 → Option NetDev → Option NshDst → Prop
  | none {ifindex : U32} {d : NetDevice} (hencap : a.encap.getD NSH_ENCAP_TYPE_NONE = NSH_ENCAP_TYPE_NONE)
      (hifindex : a.ifindex = some ifindex) (hd : w.devGetByIndex ifindex = some d)
      (hnsh : d.nsh = true) : Asks w a dst NSH_ENCAP_TYPE_NONE (some d.dev) none
  | unlinked {remote : U32} {held : NshDst} (hencap : a.encap = some NSH_ENCAP_TYPE_VXLAN)
      (hremote : a.remote = some remote) (hdst : dst = some held) (hifindex : a.ifindex = none) :
      Asks w a dst NSH_ENCAP_TYPE_VXLAN none (some { held with
        remoteIp := remote
        localIp := a.localIp.getD 0
        vni := a.vni.getD 0 })
  | vxlan {remote ifindex : U32} {held : NshDst} {d : NetDevice}
      (hencap : a.encap = some NSH_ENCAP_TYPE_VXLAN) (hremote : a.remote = some remote)
      (hdst : dst = some held) (hifindex : a.ifindex = some ifindex)
      (hd : w.devGetByIndex ifindex = some d) (hnsh : d.nsh = false) :
      Asks w a dst NSH_ENCAP_TYPE_VXLAN none (some { held with
        remoteIp := remote
        localIp := a.localIp.getD 0
        vni := a.vni.getD 0
        lowerdev := some d.dev })
  | ether {ifindex : U32} {ethAddr : Mac} {held : NshDst} {d : NetDevice}
      (hencap : a.encap = some NSH_ENCAP_TYPE_ETHER) (hifindex : a.ifindex = some ifindex)
      (heth : a.ethaddr = some ethAddr) (hd : w.devGetByIndex ifindex = some d)
      (hnsh : d.nsh = false) (hdst : dst = some held) :
      Asks w a dst NSH_ENCAP_TYPE_ETHER none (some { held with
        lowerdev := some d.dev
        ethAddr := ethAddr })

/-- The path of the request is free and the request passes every check. -/
def Asked (env : NshEnv) (w : NshWorld) (a : NshAttrs) (dst : Option NshDst) : Prop :=
  ∃ spi si, a.spi = some spi ∧ a.si = some si ∧ w.nnet.nshFindTable env (nshKey spi si) = none ∧
    ∃ encap rdev rdst, w.Asks a dst encap rdev rdst

/-- A VXLAN request gets memory for its remote node and then turns out to name no device,
or an nsh device, as its link. -/
def BadLink (env : NshEnv) (w : NshWorld) (a : NshAttrs) (dst : Option NshDst) : Prop :=
  ∃ spi si, a.spi = some spi ∧ a.si = some si ∧ w.nnet.nshFindTable env (nshKey spi si) = none ∧
    a.encap = some NSH_ENCAP_TYPE_VXLAN ∧ a.remote.isSome = true ∧ dst.isSome = true ∧
    ∃ ifindex, a.ifindex = some ifindex ∧ ∀ d, w.devGetByIndex ifindex = some d → d.nsh = true

def nshEntry (key : U32) (mdtype encapType : U8) (rdev : Option NetDev) (rdst : Option NshDst) :
    NshTable where
  key := key
  spi := htonl key >>> 8
  si := (htonl key &&& 0xFF).setWidth 8
  mdtype := mdtype
  encapType := encapType
  rdev := rdev
  rdst := rdst

/-- The namespace with the entry in it, if there was memory for it. -/
def withEntry (env : NshEnv) (w : NshWorld) (nt : NshTable) (granted : Bool) : NshWorld :=
  if granted then
    { w with nnet := { w.nnet with
      nshTable := Buckets.insert env.hash32 NshTable.key w.nnet.nshTable nt } }
  else w

variable {env : NshEnv} {w : NshWorld} {a : NshAttrs} {mem : NshMem} {key : U32} {mdtype : U8}

theorem nshAddTable_eq (env : NshEnv) (w : NshWorld) (key : U32) (mdtype encapType : U8)
    (rdev : Option NetDev) (rdst : Option NshDst) (granted : Bool) :
    (w.nshAddTable env key mdtype encapType rdev rdst granted).2 =
      w.withEntry env (nshEntry key mdtype encapType rdev rdst) granted := by
  unfold nshAddTable withEntry
  cases granted <;> rfl

/-- How a branch of `nsh_nl_cmd_path_dst_set` ends: with nothing done, with memory taken
for a bad link, or with the entry that was asked for. -/
inductive Ends (env : NshEnv) (w : NshWorld) (a : NshAttrs) (mem : NshMem) (key : U32) (mdtype : U8) :
    ℤ × NshWorld → Prop
  | refused {code : ℤ} (hcode : code < 0) (hasks : ∀ encap rdev rdst, ¬ w.Asks a mem.dst encap rdev rdst)
      (hlink : a.encap = some NSH_ENCAP_TYPE_VXLAN → a.remote.isSome = true → mem.dst.isSome = true →
        ∀ ifindex, a.ifindex = some ifindex → ∃ d, w.devGetByIndex ifindex = some d ∧ d.nsh = false) :
      Ends env w a mem key mdtype (code, w)
  | leaked {code : ℤ} {ifindex : U32} (hcode : code < 0) (hencap : a.encap = some NSH_ENCAP_TYPE_VXLAN)
      (hremote : a.remote.isSome = true) (hdst : mem.dst.isSome = true)
      (hifindex : a.ifindex = some ifindex)
      (hlink : ∀ d, w.devGetByIndex ifindex = some d → d.nsh = true) :
      Ends env w a mem key mdtype (code, { w with dsts := w.dsts + 1 })
  | stored {encap : U8} {rdev : Option NetDev} {rdst : Option NshDst} (m : TunnelNet) (n : ℕ)
      (hasks : w.Asks a mem.dst encap rdev rdst) :
      Ends env w a mem key mdtype (0, NshWorld.withEntry env { w with madcap := m, dsts := n }
        (nshEntry key mdtype encap rdev rdst) mem.table)

theorem ne_encap_of_none {encap : U8}
    (hencap : a.encap.getD NSH_ENCAP_TYPE_NONE = NSH_ENCAP_TYPE_NONE)
    (hne : encap ≠ NSH_ENCAP_TYPE_NONE) : a.encap ≠ some encap := by
  intro h
  rw [h, Option.getD_some] at hencap
  exact hne hencap

theorem encap_eq_of_getD {encap : U8} (h : a.encap.getD NSH_ENCAP_TYPE_NONE = encap)
    (hne : encap ≠ NSH_ENCAP_TYPE_NONE) : a.encap = some encap := by
  cases hencap : a.encap with
  | none =>
    rw [hencap] at h
    exact absurd h.symm hne
  | some e =>
    rw [hencap] at h
    exact congrArg some h

/-- Only a VXLAN request can leave memory behind. -/
theorem Ends.refused_other {code : ℤ} (hcode : code < 0)
    (hvxlan : a.encap ≠ some NSH_ENCAP_TYPE_VXLAN)
    (hasks : ∀ encap rdev rdst, ¬ w.Asks a mem.dst encap rdev rdst) :
    Ends env w a mem key mdtype (code, w) :=
  .refused hcode hasks fun h => absurd h hvxlan

theorem pathDstSetNone_ends (hencap : a.encap.getD NSH_ENCAP_TYPE_NONE = NSH_ENCAP_TYPE_NONE) :
    Ends env w a mem key mdtype (w.pathDstSetNone env a key mdtype mem) := by
  have hvxlan := ne_encap_of_none hencap (show NSH_ENCAP_TYPE_VXLAN ≠ NSH_ENCAP_TYPE_NONE by decide)
  have hether := ne_encap_of_none hencap (show NSH_ENCAP_TYPE_ETHER ≠ NSH_ENCAP_TYPE_NONE by decide)
  unfold pathDstSetNone
  split
  · next hifindex =>
    refine .refused_other (show -EINVAL < 0 by decide) hvxlan fun encap rdev rdst h => ?_
    cases h <;> simp_all
  · next ifindex hifindex =>
    split
    · next hd =>
      refine .refused_other (show -ENODEV < 0 by decide) hvxlan fun encap rdev rdst h => ?_
      cases h <;> simp_all
    · next d hd =>
      by_cases hnsh : d.nsh = true
      · simp only [hnsh, Bool.not_true, Bool.false_eq_true, if_false, nshAddTable_eq]
        exact .stored w.madcap w.dsts (.none hencap hifindex hd hnsh)
      · simp only [hnsh, Bool.not_false, if_true]
        refine .refused_other (show -EINVAL < 0 by decide) hvxlan fun encap rdev rdst h => ?_
        cases h <;> simp_all

theorem pathDstSetVxlan_ends (hencap : a.encap = some NSH_ENCAP_TYPE_VXLAN) :
    Ends env w a mem key mdtype (w.pathDstSetVxlan env a key mdtype mem) := by
  have hnone : ¬ NSH_ENCAP_TYPE_VXLAN = NSH_ENCAP_TYPE_NONE := by decide
  have hether : ¬ NSH_ENCAP_TYPE_VXLAN = NSH_ENCAP_TYPE_ETHER := by decide
  unfold pathDstSetVxlan
  rw [hencap]
  cases hremote : a.remote with
  | none =>
    refine .refused (show -EINVAL < 0 by decide) (fun encap rdev rdst h => ?_) fun _ h => ?_
    · cases h <;> simp_all
    · rw [hremote] at h
      cases h
  | some remote =>
    cases hdst : mem.dst with
    | none =>
      refine .refused (show -ENOMEM < 0 by decide) (fun encap rdev rdst h => ?_) fun _ _ h => ?_
      · cases h <;> simp_all
      · rw [hdst] at h
        cases h
    | some held =>
      have hremote' : a.remote.isSome = true := by rw [hremote]; rfl
      have hdst' : mem.dst.isSome = true := by rw [hdst]; rfl
      dsimp only
      cases hifindex : a.ifindex with
      | none =>
        simp only [nshAddTable_eq]
        exact .stored w.madcap (w.dsts + 1) (.unlinked hencap hremote hdst hifindex)
      | some ifindex =>
        dsimp only
        have hget : devGetByIndex { w with dsts := w.dsts + 1 } ifindex = w.devGetByIndex ifindex := rfl
        rw [hget]
        cases hd : w.devGetByIndex ifindex with
        | none =>
          refine .leaked (show -ENODEV < 0 by decide) hencap hremote' hdst' hifindex fun d h => ?_
          rw [hd] at h
          cases h
        | some d =>
          by_cases hnsh : d.nsh = true
          · simp only [hnsh, if_true]
            refine .leaked (show -EINVAL < 0 by decide) hencap hremote' hdst' hifindex fun d' h => ?_
            rw [hd] at h
            exact Option.some.inj h ▸ hnsh
          · simp only [hnsh, nshAddTable_eq]
            exact .stored (acquireAll w.madcap d.dev w.devList) (w.dsts + 1)
              (.vxlan hencap hremote hdst hifindex hd (by simpa using hnsh))

theorem pathDstSetEther_ends (hencap : a.encap = some NSH_ENCAP_TYPE_ETHER) :
    Ends env w a mem key mdtype (w.pathDstSetEther env a key mdtype mem) := by
  have hnone : ¬ NSH_ENCAP_TYPE_ETHER = NSH_ENCAP_TYPE_NONE := by decide
  have hvxlan : a.encap ≠ some NSH_ENCAP_TYPE_VXLAN := by
    rw [hencap]
    decide
  have hne : ¬ NSH_ENCAP_TYPE_ETHER = NSH_ENCAP_TYPE_VXLAN := by decide
  unfold pathDstSetEther
  cases hifindex : a.ifindex with
  | none =>
    refine .refused_other (show -EINVAL < 0 by decide) hvxlan fun encap rdev rdst h => ?_
    cases h <;> simp_all
  | some ifindex =>
    cases heth : a.ethaddr with
    | none =>
      refine .refused_other (show -EINVAL < 0 by decide) hvxlan fun encap rdev rdst h => ?_
      cases h <;> simp_all
    | some ethAddr =>
      dsimp only
      cases hd : w.devGetByIndex ifindex with
      | none =>
        refine .refused_other (show -ENODEV < 0 by decide) hvxlan fun encap rdev rdst h => ?_
        cases h <;> simp_all
      | some d =>
        by_cases hnsh : d.nsh = true
        · simp only [hnsh, if_true]
          refine .refused_other (show -EINVAL < 0 by decide) hvxlan fun encap rdev rdst h => ?_
          cases h <;> simp_all
        · simp only [hnsh]
          cases hdst : mem.dst with
          | none =>
            refine .refused_other (show -ENOMEM < 0 by decide) hvxlan fun encap rdev rdst h => ?_
            cases h <;> simp_all
          | some held =>
            simp only [nshAddTable_eq]
            exact .stored w.madcap (w.dsts + 1)
              (.ether hencap hifindex heth hd (by simpa using hnsh) hdst)

/-- How a request for a path ends. -/
inductive DstSet (env : NshEnv) (w : NshWorld) (a : NshAttrs) (mem : NshMem) : ℤ × NshWorld → Prop
  | refused {code : ℤ} (hcode : code < 0) (hasked : ¬ w.Asked env a mem.dst)
      (hlink : ¬ w.BadLink env a mem.dst) : DstSet env w a mem (code, w)
  | leaked {code : ℤ} (hcode : code < 0) (hlink : w.BadLink env a mem.dst) :
      DstSet env w a mem (code, { w with dsts := w.dsts + 1 })
  | stored {spi : U32} {si encap : U8} {rdev : Option NetDev} {rdst : Option NshDst}
      (m : TunnelNet) (n : ℕ) (hspi : a.spi = some spi) (hsi : a.si = some si)
      (hfree : w.nnet.nshFindTable env (nshKey spi si) = none)
      (hasks : w.Asks a mem.dst encap rdev rdst) :
      DstSet env w a mem (0, NshWorld.withEntry env { w with madcap := m, dsts := n }
        (nshEntry (nshKey spi si) (a.mdtype.getD NSH_BASE_MDTYPE1) encap rdev rdst) mem.table)

theorem Ends.dstSet {spi : U32} {si : U8} {res : ℤ × NshWorld} (hspi : a.spi = some spi)
    (hsi : a.si = some si) (hfree : w.nnet.nshFindTable env (nshKey spi si) = none)
    (h : Ends env w a mem (nshKey spi si) (a.mdtype.getD NSH_BASE_MDTYPE1) res) :
    DstSet env w a mem res := by
  cases h with
  | refused hcode hasks hlink =>
    refine .refused hcode ?_ ?_
    · rintro ⟨-, -, -, -, -, encap, rdev, rdst, hask⟩
      exact hasks encap rdev rdst hask
    · rintro ⟨-, -, -, -, -, hencap, hremote, hdst, ifindex, hifindex, hbad⟩
      obtain ⟨d, hd, hnsh⟩ := hlink hencap hremote hdst ifindex hifindex
      rw [hbad d hd] at hnsh
      cases hnsh
  | leaked hcode hencap hremote hdst hifindex hlink =>
    exact .leaked hcode ⟨spi, si, hspi, hsi, hfree, hencap, hremote, hdst, _, hifindex, hlink⟩
  | stored m n hasks => exact .stored m n hspi hsi hfree hasks

theorem DstSet.refused_of_taken {code : ℤ} (hcode : code < 0)
    (htaken : ∀ spi si, a.spi = some spi → a.si = some si →
      w.nnet.nshFindTable env (nshKey spi si) ≠ none) : DstSet env w a mem (code, w) := by
  refine .refused hcode ?_ ?_
  · rintro ⟨spi, si, hspi, hsi, hfree, -⟩
    exact htaken spi si hspi hsi hfree
  · rintro ⟨spi, si, hspi, hsi, hfree, -⟩
    exact htaken spi si hspi hsi hfree

theorem nshNlCmdPathDstSet_ends (env : NshEnv) (w : NshWorld) (a : NshAttrs) (mem : NshMem) :
    DstSet env w a mem (w.nshNlCmdPathDstSet env a mem) := by
  unfold nshNlCmdPathDstSet
  cases hspi : a.spi with
  | none =>
    refine .refused_of_taken (show -EINVAL < 0 by decide) fun spi si hspi' _ => ?_
    rw [hspi] at hspi'
    cases hspi'
  | some spi =>
    cases hsi : a.si with
    | none =>
      refine .refused_of_taken (show -EINVAL < 0 by decide) fun spi' si _ hsi' => ?_
      rw [hsi] at hsi'
      cases hsi'
    | some si =>
      dsimp only
      cases hfind : w.nnet.nshFindTable env (nshKey spi si) with
      | some nt =>
        refine .refused_of_taken (show -EEXIST < 0 by decide) fun spi' si' hspi' hsi' => ?_
        obtain rfl := Option.some.inj (hspi.symm.trans hspi')
        obtain rfl := Option.some.inj (hsi.symm.trans hsi')
        rw [hfind]
        exact Option.some_ne_none nt
      | none =>
        dsimp only
        split_ifs with hnone hvxlan hether
        · exact (pathDstSetNone_ends hnone).dstSet hspi hsi hfind
        · have hencap := encap_eq_of_getD hvxlan (by decide)
          exact (pathDstSetVxlan_ends hencap).dstSet hspi hsi hfind
        · have hencap := encap_eq_of_getD hether (by decide)
          exact (pathDstSetEther_ends hencap).dstSet hspi hsi hfind
        · refine Ends.dstSet hspi hsi hfind (.refused (show -EINVAL < 0 by decide)
            (fun encap rdev rdst h => ?_) fun h => ?_)
          · cases h <;> simp_all
          · rw [h] at hvxlan
            exact absurd rfl hvxlan

/-- A request that succeeds passed its checks. Its entry is there exactly if there was memory
for it, and the devices are as they were. -/
theorem accepted_asks (h : (w.nshNlCmdPathDstSet env a mem).1 = 0) :
    ∃ spi si encap rdev rdst, a.spi = some spi ∧ a.si = some si ∧
      w.nnet.nshFindTable env (nshKey spi si) = none ∧ w.Asks a mem.dst encap rdev rdst ∧
      (w.nshNlCmdPathDstSet env a mem).2.nnet.nshFindTable env (nshKey spi si) =
        (if mem.table then
          some (nshEntry (nshKey spi si) (a.mdtype.getD NSH_BASE_MDTYPE1) encap rdev rdst)
        else none) ∧
      (w.nshNlCmdPathDstSet env a mem).2.netdevs = w.netdevs := by
  have hends := nshNlCmdPathDstSet_ends env w a mem
  generalize w.nshNlCmdPathDstSet env a mem = res at hends h ⊢
  cases hends with
  | refused hcode => exact absurd h (by dsimp only; omega)
  | leaked hcode => exact absurd h (by dsimp only; omega)
  | stored m n hspi hsi hfree hasks =>
    refine ⟨_, _, _, _, _, hspi, hsi, hfree, hasks, ?_, ?_⟩
    · unfold withEntry
      cases mem.table with
      | true => exact nshFindTable_insert.trans (if_pos rfl)
      | false => exact hfree
    · unfold withEntry
      split <;> rfl

/-- The request is answered with success and one new entry for its path, or with an error
and nothing changed: no entry, no acquired device and no object for a remote node. -/
def AllOrNothing (env : NshEnv) (w : NshWorld) (a : NshAttrs) (res : ℤ × NshWorld) : Prop :=
  (res.1 = 0 ∧ ∃ spi si nt, a.spi = some spi ∧ a.si = some si ∧ nt.key = nshKey spi si ∧
    w.nnet.nshFindTable env (nshKey spi si) = none ∧
    res.2.nnet.nshTable = Buckets.insert env.hash32 NshTable.key w.nnet.nshTable nt) ∨
  (res.1 < 0 ∧ res.2.nnet = w.nnet ∧ res.2.madcap = w.madcap ∧ res.2.dsts = w.dsts)

theorem Asks.not_badLink {encap : U8} {rdev : Option NetDev} {rdst dst : Option NshDst}
    (h : w.Asks a dst encap rdev rdst) : ¬ w.BadLink env a dst := by
  rintro ⟨-, -, -, -, -, hvxlan, -, -, i, hi, hbad⟩
  cases h with
  | none hencap =>
    exact ne_encap_of_none hencap (show NSH_ENCAP_TYPE_VXLAN ≠ NSH_ENCAP_TYPE_NONE by decide) hvxlan
  | unlinked hencap hremote hdst hifindex =>
    rw [hifindex] at hi
    cases hi
  | vxlan hencap hremote hdst hifindex hd hnsh =>
    obtain rfl := Option.some.inj (hifindex.symm.trans hi)
    rw [hbad _ hd] at hnsh
    cases hnsh
  | ether hencap =>
    rw [hencap] at hvxlan
    exact absurd (Option.some.inj hvxlan) (by decide)

theorem insert_ne (env : NshEnv) (table : Fin nshHashSize → List NshTable) (nt : NshTable) :
    Buckets.insert env.hash32 NshTable.key table nt ≠ table := by
  intro h
  have hhead := congrArg List.length (congrFun h (env.hash32 nt.key))
  unfold Buckets.insert at hhead
  rw [Function.update_self, List.length_cons] at hhead
  omega

/-- Setting a path is all or nothing exactly when the request does not get memory for a
remote node behind a bad link, and gets memory for its entry if it passes the checks. -/
theorem path_dst_set_all_or_nothing_iff (env : NshEnv) (w : NshWorld) (a : NshAttrs) (mem : NshMem) :
    AllOrNothing env w a (w.nshNlCmdPathDstSet env a mem) ↔
      ¬ w.BadLink env a mem.dst ∧ (w.Asked env a mem.dst → mem.table = true) := by
  have hends := nshNlCmdPathDstSet_ends env w a mem
  generalize w.nshNlCmdPathDstSet env a mem = res at hends ⊢
  cases hends with
  | refused hcode hasked hlink =>
    exact iff_of_true (.inr ⟨hcode, rfl, rfl, rfl⟩) ⟨hlink, fun h => absurd h hasked⟩
  | leaked hcode hlink =>
    apply iff_of_false
    · rintro (⟨hzero, -⟩ | ⟨-, -, -, hdsts⟩)
      · dsimp only at hzero
        omega
      · exact absurd hdsts (Nat.succ_ne_self w.dsts)
    · exact fun h => h.1 hlink
  | stored m n hspi hsi hfree hasks =>
    cases hmem : mem.table with
    | true =>
      exact iff_of_true (.inl ⟨rfl, _, _, _, hspi, hsi, rfl, hfree, rfl⟩)
        ⟨hasks.not_badLink, fun _ => rfl⟩
    | false =>
      apply iff_of_false
      · rintro (⟨-, -, -, nt, -, -, -, -, htable⟩ | ⟨hneg, -⟩)
        · exact insert_ne env _ nt htable.symm
        · exact absurd hneg (show ¬ (0 : ℤ) < 0 by decide)
      · rintro ⟨-, hmust⟩
        exact absurd (hmust ⟨_, _, hspi, hsi, hfree, _, _, _, hasks⟩) Bool.false_ne_true

def linklessRequest : NshAttrs where
  ifindex := none
  spi := some 1
  si := some 1
  mdtype := none
  encap := some NSH_ENCAP_TYPE_VXLAN
  remote := some 0x0100000a
  localIp := none
  vni := none
  ethaddr := none

/-- Memory for the request that held `lowerdev` where the remote node has its lower device. -/
def heldMemory (lowerdev : Option NetDev) : NshMem where
  dst := some { remoteIp := 0, localIp := 0, vni := 0, lowerdev := lowerdev, ethAddr := 0 }
  table := true

/-- Without memory for its entry a path is not set, and the answer is that it is. -/
theorem path_dst_set_without_memory : ¬ ∀ (env : NshEnv) (w : NshWorld) (a : NshAttrs) (mem : NshMem),
    AllOrNothing env w a (w.nshNlCmdPathDstSet env a mem) := by
  intro h
  rcases h plainNsh init linklessRequest { heldMemory none with table := false } with
    ⟨-, -, -, nt, -, -, -, -, htable⟩ | ⟨hneg, -⟩
  · exact insert_ne plainNsh _ nt htable.symm
  · exact absurd hneg (show ¬ (0 : ℤ) < 0 by decide)

end NshWorld

end Madcap
