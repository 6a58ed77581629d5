import Madcap.Iproute.NshSession
import Madcap.Protocol.NshDevices

/-!
# What `ip nsh` can say

The tool sends two types of metadata only. A path that it has set, with memory that says nothing
of a link, is one that it can describe: over whole runs, each link of a path is a device that is
there.
-/

namespace Madcap

/-- What `add` can say of an entry: a type of metadata that it takes, and a link that is there. -/
structure NshWorld.Sayable (w : NshWorld) (nt : NshTable) : Prop where
  mdtype : nt.mdtype = 1 ∨ nt.mdtype = 2
  link : nt.encapType = NSH_ENCAP_TYPE_VXLAN → ∀ rdst lowerdev, nt.rdst = some rdst →
    rdst.lowerdev = some lowerdev → (lowerdev, false) ∈ w.kinds

namespace NshWorld

variable {env : NshEnv} {w w' : NshWorld} {nt : NshTable}

/-- Every entry is one that `add` can say. -/
def AllSayable (w : NshWorld) : Prop := ∀ nt ∈ w.paths, w.Sayable nt

/-- A request for a path is one that `add` can make, with memory that says nothing of a link. -/
def Event.Said : Event → Prop
  | .pathDstSet a mem => (∀ mdtype, a.mdtype = some mdtype → mdtype = 1 ∨ mdtype = 2) ∧ mem.Unlinked
  | _ => True

/-- Entries that stay can still be said if the devices that they go over stay. -/
theorem AllSayable.kept (h : w.AllSayable) (hpaths : ∀ nt ∈ w'.paths, nt ∈ w.paths)
    (hkinds : ∀ nt ∈ w'.paths, ∀ rdst lowerdev, nt.rdst = some rdst → rdst.lowerdev = some lowerdev →
      (lowerdev, false) ∈ w.kinds → (lowerdev, false) ∈ w'.kinds) : w'.AllSayable := by
  intro nt hnt
  have hsayable := h nt (hpaths nt hnt)
  refine ⟨hsayable.mdtype, fun hencap rdst lowerdev hrdst hlower => ?_⟩
  exact hkinds nt hnt rdst lowerdev hrdst hlower (hsayable.link hencap rdst lowerdev hrdst hlower)

theorem AllSayable.mono (h : w.AllSayable) (htable : w'.nnet.nshTable = w.nnet.nshTable)
    (hkinds : ∀ k ∈ w.kinds, k ∈ w'.kinds) : w'.AllSayable := by
  have hpaths : w'.paths = w.paths := by
    unfold paths
    rw [htable]
  exact h.kept (fun nt hnt => hpaths ▸ hnt) fun _ _ _ _ _ _ hkind => hkinds _ hkind

theorem AllSayable.removed (h : w.AllSayable) (dev : NetDev) (keep : NshTable → Bool)
    (htable : w'.nnet.nshTable = fun n => (w.nnet.nshTable n).filter keep)
    (hlower : ∀ nt rdst, keep nt = true → nt.rdst = some rdst → rdst.lowerdev ≠ some dev)
    (hkinds : w'.kinds = w.kinds.filter fun k => k.1 ≠ dev) : w'.AllSayable := by
  have hmem (nt : NshTable) (hnt : nt ∈ w'.paths) : nt ∈ w.paths ∧ keep nt = true := by
    obtain ⟨n, hn⟩ := mem_paths.mp hnt
    rw [htable] at hn
    obtain ⟨hold, hkeep⟩ := List.mem_filter.mp hn
    exact ⟨mem_paths.mpr ⟨n, hold⟩, hkeep⟩
  refine h.kept (fun nt hnt => (hmem nt hnt).1) fun nt hnt rdst lowerdev hrdst hl hkind => ?_
  have hne : lowerdev ≠ dev := by
    rintro rfl
    exact hlower nt rdst (hmem nt hnt).2 hrdst hl
  rw [hkinds]
  exact List.mem_filter.mpr ⟨hkind, by simpa using hne⟩

theorem AllSayable.registered (h : w.AllSayable) {k : NetDev × Bool}
    (htable : w'.nnet.nshTable = w.nnet.nshTable) (hkinds : w'.kinds = w.kinds ++ [k]) :
    w'.AllSayable := by
  refine h.mono htable fun k' hk' => ?_
  rw [hkinds]
  exact List.mem_append_left _ hk'

theorem AllSayable.nshNewlink (h : w.AllSayable) (dev : NetDev) (ifindex : U32) (spi : Option U32)
    (si : Option U8) (err : ℤ) : (w.nshNewlink dev ifindex spi si err).2.AllSayable := by
  unfold NshWorld.nshNewlink
  dsimp only
  rcases registerNetdevice_cases _ _ err with ⟨code, hcode, hres⟩ | ⟨-, hres⟩
  · rw [hres, if_pos hcode]
    exact h.mono rfl fun _ => id
  · rw [hres]
    exact h.registered rfl (List.map_append ..)

theorem AllSayable.lowerRegister (h : w.AllSayable) (dev : NetDev) (ifindex : U32) (mtu : ℤ)
    (priv : Option FreshMadcap) : (w.lowerRegister dev ifindex mtu priv).2.AllSayable := by
  unfold NshWorld.lowerRegister
  dsimp only
  rcases registerNetdevice_cases w { dev := dev, ifindex := ifindex, nsh := false, mtu := mtu } 0 with
    ⟨code, hcode, hres⟩ | ⟨-, hres⟩
  · rw [hres, if_pos hcode]
    exact h
  · rw [hres]
    exact h.registered rfl (List.map_append ..)

theorem AllSayable.nshDellink (h : w.AllSayable) (dev : NetDev) :
    (w.nshDellink dev).2.AllSayable := by
  refine h.removed dev (fun nt => !decide (nt.rdev = some dev) && !nt.goesOver dev) ?_ ?_
    unregister_kinds
  · funext n
    change (((w.nnet.nshTable n).filter _).filter _) = _
    rw [List.filter_filter]
    apply List.filter_congr
    intro nt _
    exact Bool.and_comm ..
  · intro nt rdst hkeep hrdst
    exact ne_of_not_goesOver (Bool.and_eq_true_iff.mp hkeep).2 hrdst

theorem AllSayable.lowerUnregister (h : w.AllSayable) (dev : NetDev) :
    (w.unregisterNetdevice dev).AllSayable :=
  h.removed dev (fun nt => !nt.goesOver dev) rfl (fun _ _ => ne_of_not_goesOver) unregister_kinds

theorem AllSayable.pathDstUnset (h : w.AllSayable) (a : NshAttrs) :
    (w.nshNlCmdPathDstUnset env a).2.AllSayable := by
  unfold nshNlCmdPathDstUnset
  split
  · split
    · exact h
    · next nt hnt =>
      have herase : (w.nshDeleteTable env nt).nnet.nshTable =
          Buckets.erase env.hash32 NshTable.key w.nnet.nshTable nt.key := by
        simp only [nshDeleteTable, freeDsts, Buckets.erase, BEq.comm]
      refine h.kept (fun e he => ?_) fun _ _ _ _ _ _ hkind => hkind
      obtain ⟨n, hn⟩ := mem_paths.mp he
      rw [herase] at hn
      exact mem_paths.mpr ⟨n, Buckets.mem_of_mem_erase hn⟩
  · exact h

theorem AllSayable.ethChangeMtu (h : w.AllSayable) (dev : NetDev) (newMtu : ℤ) :
    (w.ethChangeMtu dev newMtu).2.AllSayable := by
  refine h.mono ?_ fun k hk => ?_
  · unfold NshWorld.ethChangeMtu
    split <;> rfl
  · rw [ethChangeMtu_kinds]
    exact hk

theorem Asks.sayable {a : NshAttrs} {mem : NshMem} {encap : U8} {rdev : Option NetDev}
    {rdst : Option NshDst} (h : w.Asks a mem.dst encap rdev rdst)
    (hsaid : (Event.pathDstSet a mem).Said) (key : U32) :
    w.Sayable (nshEntry key (a.mdtype.getD NSH_BASE_MDTYPE1) encap rdev rdst) := by
  have hnv : ¬ NSH_ENCAP_TYPE_NONE = NSH_ENCAP_TYPE_VXLAN := by decide
  have hev : ¬ NSH_ENCAP_TYPE_ETHER = NSH_ENCAP_TYPE_VXLAN := by decide
  constructor
  · cases hmdtype : a.mdtype with
    | none => exact .inl rfl
    | some mdtype => exact hsaid.1 mdtype hmdtype
  · intro hencap rdst lowerdev hrdst hlower
    cases h with
    | none => exact absurd hencap hnv
    | unlinked _ _ hdst =>
      obtain rfl := Option.some.inj hrdst
      rw [hsaid.2 _ hdst] at hlower
      cases hlower
    | vxlan _ _ _ _ hd hnsh =>
      obtain rfl := Option.some.inj hrdst
      obtain rfl := Option.some.inj hlower
      exact hnsh ▸ mem_kinds_of_find hd
    | ether => exact absurd hencap hev

/-- A request that can be said leaves an entry that can be said. -/
theorem AllSayable.pathDstSet (h : w.AllSayable) {a : NshAttrs} {mem : NshMem}
    (hsaid : (Event.pathDstSet a mem).Said) : (w.nshNlCmdPathDstSet env a mem).2.AllSayable := by
  have hends := nshNlCmdPathDstSet_ends env w a mem
  generalize w.nshNlCmdPathDstSet env a mem = res at hends
  cases hends with
  | refused => exact h
  | leaked => exact h.mono rfl fun _ => id
  | @stored spi si encap rdev rdst m n hspi hsi hfree hasks =>
    dsimp only
    unfold withEntry
    split
    · intro nt hnt
      obtain ⟨bucket, hbucket⟩ := mem_paths.mp hnt
      rcases Buckets.mem_insert hbucket with rfl | hold
      · have hsayable := hasks.sayable hsaid (nshKey spi si)
        exact ⟨hsayable.mdtype, hsayable.link⟩
      · have hsayable := h nt (mem_paths.mpr ⟨bucket, hold⟩)
        exact ⟨hsayable.mdtype, hsayable.link⟩
    · exact h.mono rfl fun _ => id

/-- Every event that can be said keeps this. -/
theorem AllSayable.step (h : w.AllSayable) {e : Event} (hsaid : e.Said) :
    Ensures (fun _ => True) (w.step env e) fun res => res.2.AllSayable := by
  unfold NshWorld.step
  cases e with
  | newlink dev ifindex spi si err =>
    dsimp only
    rw [ensures_pure]
    split
    · exact h
    · exact h.nshNewlink dev ifindex spi si err
  | dellink dev =>
    dsimp only
    rw [ensures_pure]
    split
    · exact h.nshDellink dev
    · exact h
  | pathDstSet a mem => exact h.pathDstSet hsaid
  | pathDstUnset a => exact h.pathDstUnset a
  | devPathSet a =>
    exact nshNlCmdDevPathSet_keeps (fun _ dev newMtu hw => hw.ethChangeMtu dev newMtu)
      (fun _ _ htable hw => hw.mono htable fun _ => id) h a
  | devPathUnset a =>
    dsimp only
    rw [ensures_pure]
    unfold nshNlCmdDevPathUnset
    split
    · exact h
    · split
      · exact h
      · split
        · exact h
        · exact h.mono rfl fun _ => id
  | lowerRegister dev ifindex mtu priv =>
    dsimp only
    rw [ensures_pure]
    split
    · exact h
    · exact h.lowerRegister dev ifindex mtu priv
  | lowerUnregister dev =>
    dsimp only
    rw [ensures_pure]
    split
    · exact h.lowerUnregister dev
    · exact h

end NshWorld

theorem IpNsh.parseArgs_mdtype {tool : ToolEnv} {argv : List CString} {p : NshParam}
    (h : IpNsh.parseArgs tool argv = .ok p) : p.mdtype = 0 ∨ p.mdtype = 1 ∨ p.mdtype = 2 := by
  let P : NshParam → Prop := fun p => p.mdtype = 0 ∨ p.mdtype = 1 ∨ p.mdtype = 2
  have hmdtype : (Keyword.option (IpNsh.readMdtype tool)).Keeps P := by
    intro arg p p' _ h
    unfold IpNsh.readMdtype at h
    split at h
    · cases h
    · split at h
      · cases h
      · next mdtype _ hok =>
        obtain rfl := Except.ok.inj h
        by_cases hone : mdtype = 1
        · exact .inr (.inl hone)
        · exact .inr (.inr (not_not.mp fun htwo => hok ⟨hone, htwo⟩))
  have hknown : ∀ word, ∀ k ∈ IpNsh.keyword tool word, k.Keeps P := by
    intro word
    unfold IpNsh.keyword
    refine keeps_ite (readDev_keeps fun _ _ => id) ?_
    iterate 2 refine keeps_ite (orInvarg_keeps fun _ _ => id) ?_
    refine keeps_ite hmdtype ?_
    iterate 5 refine keeps_ite (orInvarg_keeps fun _ _ => id) ?_
    refine keeps_ite (readDev_keeps fun _ _ => id) ?_
    intro k hk
    cases hk
  unfold IpNsh.parseArgs at h
  split at h
  · cases h
  · exact parseWords_keeps hknown (.inl rfl) h

theorem NshParam.target_mdtype {p : NshParam} {a : NshAttrs} (h : p.target = .ok a) :
    a.mdtype = if p.mdtype ≠ 0 then some p.mdtype else none := by
  unfold NshParam.target at h
  generalize (if p.mdtype ≠ 0 then some p.mdtype else none) = mdtype at h ⊢
  dsimp only at h
  split at h
  · split at h
    · exact Except.ok.inj h ▸ rfl
    · cases h
  · split at h
    · split at h
      · exact Except.ok.inj h ▸ rfl
      · cases h
    · split at h
      · split at h
        · exact Except.ok.inj h ▸ rfl
        · cases h
      · exact Except.ok.inj h ▸ rfl

theorem aboutPath_eq_ok {p : NshParam} {request : Except Exit NshRequest} {r : NshRequest}
    (h : p.aboutPath request = .ok r) : request = .ok r := by
  unfold NshParam.aboutPath at h
  split at h
  · exact h
  · cases h

theorem aboutDev_eq_ok {p : NshParam} {request : NshAttrs → NshRequest} {a : NshAttrs} {r : NshRequest}
    (h : p.aboutDev request a = .ok r) : ∃ a, r = request a := by
  unfold NshParam.aboutDev at h
  split at h
  · cases h
  · exact ⟨_, (Except.ok.inj h).symm⟩

theorem nshCommandRequest_path {tool : ToolEnv} {argv : List CString} {a : NshAttrs}
    (h : nshCommandRequest tool argv = .ok (.pathDstSet a)) :
    ∃ words p, IpNsh.parseArgs tool words = .ok p ∧ p.target = .ok a := by
  cases argv with
  | nil => cases h
  | cons word argv =>
    unfold nshCommandRequest at h
    dsimp only at h
    split at h
    · obtain ⟨p, hparse, hask⟩ := bind_eq_ok.mp h
      have htarget := aboutPath_eq_ok hask
      cases hp : p.target with
      | error e =>
        rw [hp] at htarget
        cases htarget
      | ok b =>
        rw [hp] at htarget
        obtain rfl := NshRequest.pathDstSet.inj (Except.ok.inj htarget)
        exact ⟨argv, p, hparse, hp⟩
    · split at h
      · obtain ⟨p, -, hask⟩ := bind_eq_ok.mp h
        cases aboutPath_eq_ok hask
      · split at h
        · obtain ⟨p, -, hask⟩ := bind_eq_ok.mp h
          obtain ⟨b, hb⟩ := aboutDev_eq_ok (aboutPath_eq_ok hask)
          cases hb
        · split at h
          · obtain ⟨p, -, hask⟩ := bind_eq_ok.mp h
            obtain ⟨b, hb⟩ := aboutDev_eq_ok hask
            cases hb
          · split at h
            · have hdump := Except.ok.inj h
              split at hdump <;> cases hdump
            · split at h <;> cases h

theorem nshCommandRequest_said {tool : ToolEnv} {argv : List CString} {a : NshAttrs} {mem : NshMem}
    (h : nshCommandRequest tool argv = .ok (.pathDstSet a)) (hmem : mem.Unlinked) :
    (NshWorld.Event.pathDstSet a mem).Said := by
  refine ⟨fun mdtype hmdtype => ?_, hmem⟩
  obtain ⟨words, p, hparse, htarget⟩ := nshCommandRequest_path h
  have hsent := hmdtype.symm.trans (NshParam.target_mdtype htarget)
  rcases IpNsh.parseArgs_mdtype hparse with hzero | hone
  · rw [if_neg (not_not.mpr hzero)] at hsent
    cases hsent
  · split at hsent
    · exact Option.some.inj hsent ▸ hone
    · cases hsent

/-- The table is in order, devices are found by their indexes, and all paths can be said. -/
structure NshWorld.Kept (env : NshEnv) (w : NshWorld) : Prop where
  inv : w.Inv env
  indexed : w.Indexed
  sayable : w.AllSayable

/-- What happens can be said again: commands get memory that says nothing of a link. -/
def NshHappening.Said : NshHappening → Prop
  | .command c => c.mem.Unlinked
  | .event e => e.Said

section

variable {env : NshEnv} {nlmsgParse : List U8 → Option NshAttrs} {w w' : NshWorld}

theorem NshWorld.kept_init : NshWorld.init.Kept env where
  inv := NshWorld.inv_init
  indexed := List.nodup_nil
  sayable nt hnt := by
    obtain ⟨n, hn⟩ := NshWorld.mem_paths.mp hnt
    cases hn

theorem NshWorld.Kept.step (h : w.Kept env) {e : NshWorld.Event} (hsaid : e.Said) {code : ℤ}
    (hstep : w.step env e = .ok (code, w')) : w'.Kept env where
  inv := (h.inv.step e).of_eq_ok hstep
  indexed := (h.indexed.step e).of_eq_ok hstep
  sayable := (h.sayable.step hsaid).of_eq_ok hstep

theorem happen_cases (hparse : FollowsNshPolicy nlmsgParse) {h : NshHappening} {reply : NshReply}
    (hstep : happen env nlmsgParse w h = .ok (reply, w')) :
    w' = w ∨ ∃ e code, h.meaning = .inr e ∧ w.step env e = .ok (code, w') := by
  rw [happen_meaning hparse] at hstep
  cases hmeaning : h.meaning with
  | inl reply' =>
    rw [hmeaning] at hstep
    exact .inl (Prod.mk.inj (Except.ok.inj hstep)).2.symm
  | inr e =>
    rw [hmeaning] at hstep
    dsimp only at hstep
    cases hres : w.step env e with
    | error fault =>
      rw [hres] at hstep
      cases hstep
    | ok res =>
      rw [hres] at hstep
      obtain rfl := (Prod.mk.inj (Except.ok.inj hstep)).2
      exact .inr ⟨e, res.1, rfl, hres⟩

theorem NshHappening.Said.meaning {h : NshHappening} (hsaid : h.Said) {e : NshWorld.Event}
    (hmeaning : h.meaning = .inr e) : e.Said := by
  cases h with
  | event e' => exact Sum.inr.inj hmeaning ▸ hsaid
  | command c =>
    change c.meaning = _ at hmeaning
    unfold NshCommand.meaning at hmeaning
    cases hrequest : nshCommandRequest c.tool c.argv with
    | error e' =>
      rw [hrequest] at hmeaning
      cases hmeaning
    | ok r =>
      rw [hrequest] at hmeaning
      cases r with
      | pathDstSet a =>
        obtain rfl := Sum.inr.inj hmeaning
        exact nshCommandRequest_said hrequest hsaid
      | _ => cases hmeaning <;> trivial

theorem happens_inv (hparse : FollowsNshPolicy nlmsgParse) {hs : List NshHappening}
    {replies : List NshReply} (hrun : runAnswers (happen env nlmsgParse) .init hs = .ok (replies, w)) :
    w.Inv env := by
  refine runAnswers_invariant (P := NshWorld.Inv env) (C := fun _ => True)
    (fun w h reply w' hw _ hstep => ?_) NshWorld.inv_init (fun _ _ => trivial) hrun
  rcases happen_cases hparse hstep with rfl | ⟨e, code, -, he⟩
  · exact hw
  · exact (hw.step e).of_eq_ok he

theorem happens_indexed (hparse : FollowsNshPolicy nlmsgParse) {hs : List NshHappening}
    {replies : List NshReply} (hrun : runAnswers (happen env nlmsgParse) .init hs = .ok (replies, w)) :
    w.Indexed := by
  have hinit : NshWorld.init.Kept env := NshWorld.kept_init
  refine runAnswers_invariant (P := NshWorld.Indexed) (C := fun _ => True)
    (fun w h reply w' hw _ hstep => ?_) hinit.indexed (fun _ _ => trivial) hrun
  rcases happen_cases hparse hstep with rfl | ⟨e, code, -, he⟩
  · exact hw
  · exact (hw.step e).of_eq_ok he

theorem happens_kept (hparse : FollowsNshPolicy nlmsgParse) {hs : List NshHappening}
    (hsaid : ∀ h ∈ hs, h.Said) {replies : List NshReply}
    (hrun : runAnswers (happen env nlmsgParse) .init hs = .ok (replies, w)) : w.Kept env := by
  refine runAnswers_invariant (P := NshWorld.Kept env) (C := NshHappening.Said)
    (fun w h reply w' hw hsaid hstep => ?_) NshWorld.kept_init hsaid hrun
  rcases happen_cases hparse hstep with rfl | ⟨e, code, hmeaning, he⟩
  · exact hw
  · exact hw.step (hsaid.meaning hmeaning) he

end

end Madcap
