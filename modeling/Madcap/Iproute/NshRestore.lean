import Madcap.Iproute.NshSaid
import Madcap.Iproute.NshShow

/-!
# Paths that are saved and restored

The record of a path names its target, and a line of `show` says what the record says. The same
words after `add` ask for the path again, so a path table can be saved as text.
-/

namespace Madcap

theorem nshKey_recorded (key : U32) :
    nshKey (htonl key >>> 8) ((htonl key &&& 0xFF).setWidth 8) = key := by
  have hparts (k : U32) : (k >>> 8) <<< 8 ||| ((k &&& 0xFF).setWidth 8).setWidth 32 = k := by
    apply BitVec.eq_of_getLsbD_eq
    intro i hi
    simp only [BitVec.getLsbD_or, BitVec.getLsbD_shiftLeft, BitVec.getLsbD_ushiftRight,
      BitVec.getLsbD_setWidth, BitVec.getLsbD_and]
    by_cases hlow : i < 8
    · have hmask : (0xFF : U32).getLsbD i = true := by interval_cases i <;> rfl
      simp only [hmask, Bool.and_true]
      simp [hlow, hi]
    · simp [hlow, hi, show 8 + (i - 8) = i by omega]
  unfold nshKey
  rw [hparts, htonl_htonl]

def keySpi (key : U32) : U32 := htonl key >>> 8

def keySi (key : U32) : U8 := (htonl key &&& 0xFF).setWidth 8

theorem keySpi_lt (key : U32) : (keySpi key).toNat < 2 ^ 24 := by
  have hkey : keySpi key = htonl (nshKey (keySpi key) (keySi key)) >>> 8 := by
    rw [show nshKey (keySpi key) (keySi key) = key from nshKey_recorded key]
    rfl
  rw [hkey, recorded_spi]
  exact Nat.mod_lt _ (by decide)

namespace PathTarget

variable {env : NshEnv} {w : NshWorld} {t : PathTarget} {spi : U32} {si mdtype : U8} {mem : NshMem}

/-- The devices that are named are there, and of the kind that the target needs. -/
inductive LeadsIn (w : NshWorld) : PathTarget → Prop
  | inner {ifindex : U32} {d : NetDevice} (hd : w.devGetByIndex ifindex = some d)
      (hnsh : d.nsh = true) : LeadsIn w (.inner ifindex)
  | unlinked {remote vni : U32} {localIp : Option U32} (hlocal : localIp ≠ some 0) :
      LeadsIn w (.vxlan remote localIp vni none)
  | vxlan {remote vni ifindex : U32} {localIp : Option U32} {d : NetDevice}
      (hlocal : localIp ≠ some 0) (hd : w.devGetByIndex ifindex = some d) (hnsh : d.nsh = false) :
      LeadsIn w (.vxlan remote localIp vni (some ifindex))
  | ether {mac : Mac} {ifindex : U32} {d : NetDevice} (hd : w.devGetByIndex ifindex = some d)
      (hnsh : d.nsh = false) : LeadsIn w (.ether mac ifindex)

theorem LeadsIn.congr {w' : NshWorld} (h : t.LeadsIn w) (hsame : w'.SameDevices w) :
    t.LeadsIn w' := by
  cases h with
  | inner hd hnsh =>
    obtain ⟨d', hd', hkind⟩ := hsame.devGetByIndex hd
    exact .inner hd' (hkind.trans hnsh)
  | unlinked hlocal => exact .unlinked hlocal
  | vxlan hlocal hd hnsh =>
    obtain ⟨d', hd', hkind⟩ := hsame.devGetByIndex hd
    exact .vxlan hlocal hd' (hkind.trans hnsh)
  | ether hd hnsh =>
    obtain ⟨d', hd', hkind⟩ := hsame.devGetByIndex hd
    exact .ether hd' (hkind.trans hnsh)

theorem LeadsIn.named (h : t.LeadsIn w) {ifindex : U32} (hifindex : t.ifindex = some ifindex) :
    ∃ d ∈ w.netdevs, d.ifindex = ifindex := by
  have hmem {ifindex : U32} {d : NetDevice} (hd : w.devGetByIndex ifindex = some d) :
      ∃ d ∈ w.netdevs, d.ifindex = ifindex :=
    ⟨d, List.mem_of_find?_eq_some hd, by simpa using List.find?_some hd⟩
  cases h with
  | inner hd => exact Option.some.inj hifindex ▸ hmem hd
  | unlinked => cases hifindex
  | vxlan _ hd => exact Option.some.inj hifindex ▸ hmem hd
  | ether hd => exact Option.some.inj hifindex ▸ hmem hd

theorem filter_ne_zero {x : U32} (hx : x ≠ 0) : (some x).filter (· ≠ 0) = some x := by
  rw [Option.filter_some, if_pos (decide_eq_true hx)]

theorem requestedRecord_vxlan {remote vni : U32} {localIp ifindex : Option U32}
    (hlocal : localIp ≠ some 0) :
    NshWorld.requestedRecord (request spi si mdtype (.vxlan remote localIp vni ifindex)) =
      record spi si mdtype (.vxlan remote localIp vni ifindex) := by
  have hether : ¬ NSH_ENCAP_TYPE_VXLAN = NSH_ENCAP_TYPE_ETHER := by decide
  have hfilter : (localIp.filter (· ≠ 0)).filter (· ≠ 0) = localIp := by
    cases localIp with
    | none => rfl
    | some ip =>
      have hip : ip ≠ 0 := fun hzero => hlocal (congrArg some hzero)
      rw [filter_ne_zero hip, filter_ne_zero hip]
  have hvni : some (((some vni).filter (· ≠ 0)).getD 0) = some vni := by
    by_cases hzero : vni = 0
    · rw [hzero]
      rfl
    · rw [filter_ne_zero hzero, Option.getD_some]
  refine NshAttrs.mk.injEq .. ▸ ⟨rfl, rfl, rfl, rfl, rfl, if_pos rfl, ?_, ?_, if_neg hether⟩
  · exact (if_pos rfl).trans hfilter
  · exact (if_pos rfl).trans hvni

theorem LeadsIn.requestedRecord (h : t.LeadsIn w) :
    NshWorld.requestedRecord (t.request spi si mdtype) = t.record spi si mdtype := by
  have hnv : ¬ NSH_ENCAP_TYPE_NONE = NSH_ENCAP_TYPE_VXLAN := by decide
  have hne : ¬ NSH_ENCAP_TYPE_NONE = NSH_ENCAP_TYPE_ETHER := by decide
  have hev : ¬ NSH_ENCAP_TYPE_ETHER = NSH_ENCAP_TYPE_VXLAN := by decide
  cases h with
  | inner =>
    exact NshAttrs.mk.injEq .. ▸
      ⟨rfl, rfl, rfl, rfl, rfl, if_neg hnv, if_neg hnv, if_neg hnv, if_neg hne⟩
  | unlinked hlocal => exact requestedRecord_vxlan hlocal
  | vxlan hlocal => exact requestedRecord_vxlan hlocal
  | ether =>
    exact NshAttrs.mk.injEq .. ▸
      ⟨rfl, rfl, rfl, rfl, rfl, if_neg hev, if_neg hev, if_neg hev, if_pos rfl⟩

theorem LeadsIn.asks (h : t.LeadsIn w) {held : NshDst} (hheld : mem.dst = some held) :
    ∃ encap rdev rdst, w.Asks (t.request spi si mdtype) mem.dst encap rdev rdst := by
  cases h with
  | inner hd hnsh => exact ⟨_, _, _, .none rfl rfl hd hnsh⟩
  | unlinked => exact ⟨_, _, _, .unlinked rfl rfl hheld rfl⟩
  | vxlan _ hd hnsh => exact ⟨_, _, _, .vxlan rfl rfl hheld rfl hd hnsh⟩
  | ether hd hnsh => exact ⟨_, _, _, .ether rfl rfl rfl hd hnsh hheld⟩

theorem LeadsIn.not_badLink (h : t.LeadsIn w) :
    ¬ w.BadLink env (t.request spi si mdtype) mem.dst := by
  rintro ⟨-, -, -, -, -, hencap, -, -, ifindex, hifindex, hbad⟩
  have hnv : ¬ NSH_ENCAP_TYPE_NONE = NSH_ENCAP_TYPE_VXLAN := by decide
  have hev : ¬ NSH_ENCAP_TYPE_ETHER = NSH_ENCAP_TYPE_VXLAN := by decide
  cases h with
  | inner => exact hnv (Option.some.inj hencap)
  | unlinked => cases hifindex
  | vxlan _ hd hnsh =>
    obtain rfl := Option.some.inj hifindex
    rw [hbad _ hd] at hnsh
    cases hnsh
  | ether => exact hev (Option.some.inj hencap)

variable (mdtype) in
/-- A request for a target that is there, and a path that is free, leaves an entry of which the
record is the one it was made from. -/
theorem LeadsIn.set (h : t.LeadsIn w) (hinv : w.Inv env) (hspi : spi.toNat < 2 ^ 24)
    (hfree : w.nnet.nshFindTable env (nshKey spi si) = none) (htable : mem.table = true)
    (hdst : mem.dst.isSome = true) (hclean : mem.Unlinked) :
    ∃ nt w', w.nshNlCmdPathDstSet env (t.request spi si mdtype) mem = (0, w') ∧
      w'.netdevs = w.netdevs ∧ nt.key = nshKey spi si ∧
      nshNlTableSend w.ifindexAt nt = .ok (t.record spi si mdtype) ∧
      ∀ key, w'.nnet.nshFindTable env key =
        if nt.key = key then some nt else w.nnet.nshFindTable env key := by
  obtain ⟨held, hheld⟩ := Option.isSome_iff_exists.mp hdst
  have hspi' : (t.request spi si mdtype).spi = some spi := by cases h <;> rfl
  have hsi' : (t.request spi si mdtype).si = some si := by cases h <;> rfl
  have hends := NshWorld.nshNlCmdPathDstSet_ends env w (t.request spi si mdtype) mem
  have hnetdevs := hends.netdevs
  generalize w.nshNlCmdPathDstSet env (t.request spi si mdtype) mem = res at hends hnetdevs
  cases hends with
  | refused _ hasked => exact absurd ⟨spi, si, hspi', hsi', hfree, h.asks hheld⟩ hasked
  | leaked _ hlink => exact absurd hlink h.not_badLink
  | @stored _ _ encap rdev rdst m n hspi'' hsi'' _ hasks =>
    obtain rfl := Option.some.inj (hspi'.symm.trans hspi'')
    obtain rfl := Option.some.inj (hsi'.symm.trans hsi'')
    refine ⟨NshWorld.nshEntry (nshKey spi si) ((t.request spi si mdtype).mdtype.getD NSH_BASE_MDTYPE1)
      encap rdev rdst, _, rfl, hnetdevs, rfl, ?_, ?_⟩
    · rw [hinv.tableSend_entry rfl hsi' hasks fun _ _ => hclean, h.requestedRecord,
        recorded_spi_eq_iff.mpr hspi]
      cases h <;> rfl
    · intro key
      unfold NshWorld.withEntry
      rw [if_pos htable]
      exact NshWorld.nshFindTable_insert

end PathTarget

/-- An entry is that of a path that leads to a target. -/
structure PathTarget.IsOf (t : PathTarget) (w : NshWorld) (nt : NshTable) : Prop where
  leads : t.LeadsIn w
  sent : nshNlTableSend w.ifindexAt nt = .ok (t.record (keySpi nt.key) (keySi nt.key) nt.mdtype)

namespace NshWorld

variable {env : NshEnv} {w w' : NshWorld} {nt : NshTable}

theorem mem_paths_of_find {key : U32} (hfind : w.nnet.nshFindTable env key = some nt) :
    nt ∈ w.paths ∧ nt.key = key := by
  rw [nshFindTable_eq] at hfind
  obtain ⟨hkey, hmem⟩ := Buckets.find_eq_some hfind
  exact ⟨mem_paths.mpr ⟨_, hmem⟩, hkey⟩

theorem Inv.not_mem_of_find (h : w.Inv env) {key : U32}
    (hfind : w.nnet.nshFindTable env key = none) : key ∉ w.paths.map NshTable.key := by
  intro hmem
  obtain ⟨nt, hnt, rfl⟩ := List.mem_map.mp hmem
  obtain ⟨n, hn⟩ := mem_paths.mp hnt
  rw [nshFindTable_eq] at hfind
  rw [← h.buckets.placed n nt hn] at hn
  have hno := List.find?_eq_none.mp hfind nt hn
  exact hno (beq_self_eq_true nt.key)

theorem Inv.exists_target (h : w.Inv env) (hindexed : w.Indexed) (hnt : nt ∈ w.paths)
    (hsayable : w.Sayable nt) : ∃ t : PathTarget, t.IsOf w nt := by
  have hvn : ¬ NSH_ENCAP_TYPE_VXLAN = NSH_ENCAP_TYPE_NONE := by decide
  have hen : ¬ NSH_ENCAP_TYPE_ETHER = NSH_ENCAP_TYPE_NONE := by decide
  have hev : ¬ NSH_ENCAP_TYPE_ETHER = NSH_ENCAP_TYPE_VXLAN := by decide
  cases h.target_of_mem hnt with
  | none dev hencap hrdst hrdev hdev =>
    obtain ⟨ifindex, d, hindex, hd, hnsh⟩ := hindexed.of_kind h ((h.listed dev).mp hdev)
    refine ⟨.inner ifindex, .inner hd hnsh, ?_⟩
    unfold nshNlTableSend nshRecordHead
    simp only [hencap, hrdev, hindex, if_true]
    rfl
  | vxlan rdst hencap hrdev hrdst =>
    have hlocal : (if rdst.localIp ≠ 0 then some rdst.localIp else none) ≠ some 0 := by
      split
      · next hne => exact fun heq => hne (Option.some.inj heq)
      · exact Option.some_ne_none 0 |>.symm
    cases hlower : rdst.lowerdev with
    | none =>
      refine ⟨.vxlan rdst.remoteIp _ rdst.vni none, .unlinked hlocal, ?_⟩
      unfold nshNlTableSend nshRecordHead
      simp only [hencap, hrdst, hvn, hlower, if_true, if_false]
      rfl
    | some lowerdev =>
      have hkind := hsayable.link hencap rdst lowerdev hrdst hlower
      obtain ⟨ifindex, d, hindex, hd, hnsh⟩ := hindexed.of_kind h hkind
      refine ⟨.vxlan rdst.remoteIp _ rdst.vni (some ifindex), .vxlan hlocal hd hnsh, ?_⟩
      unfold nshNlTableSend nshRecordHead
      simp only [hencap, hrdst, hvn, hlower, hindex, if_true, if_false]
      rfl
  | ether rdst lowerdev hencap hrdev hrdst hlower hreg =>
    obtain ⟨ifindex, d, hindex, hd, hnsh⟩ := hindexed.of_kind h hreg
    refine ⟨.ether rdst.ethAddr ifindex, .ether hd hnsh, ?_⟩
    unfold nshNlTableSend nshRecordHead
    simp only [hencap, hrdst, hen, hev, hlower, hindex, if_true, if_false]
    rfl

end NshWorld

/-- The line that is printed for an entry that leads to a target. -/
def pathLine (tool : ToolEnv) (nt : NshTable) (t : PathTarget) : CString :=
  [' '].intercalate (t.pathWords (devName tool) (keySpi nt.key) (keySi nt.key) nt.mdtype) ++
    "\n".toList

/-- Memory for a request: it is there, and says nothing of a link. -/
structure NshMem.Clean (mem : NshMem) : Prop where
  table : mem.table = true
  dst : mem.dst.isSome = true
  unlinked : mem.Unlinked

section

variable {env : NshEnv} {nlmsgParse : List U8 → Option NshAttrs} {w : NshWorld} {tool : ToolEnv}
  {nt : NshTable} {t : PathTarget}

theorem PathTarget.LeadsIn.knows (h : t.LeadsIn w) (hnames : ∀ d ∈ w.netdevs, tool.Knows d.ifindex) :
    ∀ ifindex, t.ifindex = some ifindex → tool.Knows ifindex := by
  intro ifindex hifindex
  obtain ⟨d, hd, rfl⟩ := h.named hifindex
  exact hnames d hd

theorem nshCommandRequest_pathLine (h : t.LeadsIn w)
    (hnames : ∀ d ∈ w.netdevs, tool.Knows d.ifindex) (hmdtype : nt.mdtype = 1 ∨ nt.mdtype = 2) :
    nshCommandRequest tool ("add".toList :: lineWords (pathLine tool nt t)) =
      .ok (.pathDstSet (t.request (keySpi nt.key) (keySi nt.key) nt.mdtype)) := by
  have hknows := h.knows hnames
  have hne : t.pathWords (devName tool) (keySpi nt.key) (keySi nt.key) nt.mdtype ≠ [] :=
    List.cons_ne_nil _ _
  unfold pathLine
  rw [lineWords_intercalate (PathTarget.isWord_pathWords hknows) hne,
    PathTarget.nshCommandRequest_pathWords hknows, if_pos hmdtype]

theorem restored_path (hparse : FollowsNshPolicy nlmsgParse)
    (hnames : ∀ d ∈ w.netdevs, tool.Knows d.ifindex) (hof : t.IsOf w nt) (hsayable : w.Sayable nt)
    {w' : NshWorld} (hinv : w'.Inv env) (hsame : w'.SameDevices w)
    (hfree : w'.nnet.nshFindTable env nt.key = none) {c : NshCommand} (htool : c.tool = tool)
    (hargv : c.argv = "add".toList :: lineWords (pathLine tool nt t)) (hclean : c.mem.Clean) :
    ∃ nt' w₁, happen env nlmsgParse w' (.command c) = .ok (.acked 0, w₁) ∧ w₁.Inv env ∧
      w₁.SameDevices w ∧ nshNlTableSend w.ifindexAt nt' = nshNlTableSend w.ifindexAt nt ∧
      ∀ key, w₁.nnet.nshFindTable env key =
        if nt.key = key then some nt' else w'.nnet.nshFindTable env key := by
  have hkey : nshKey (keySpi nt.key) (keySi nt.key) = nt.key := nshKey_recorded nt.key
  have hnew : w'.nnet.nshFindTable env (nshKey (keySpi nt.key) (keySi nt.key)) = none := by
    rw [hkey]
    exact hfree
  obtain ⟨nt', w₁, hset, hnetdevs, hkey', hsent, hfind⟩ :=
    (hof.leads.congr hsame).set nt.mdtype hinv (keySpi_lt nt.key) hnew hclean.table hclean.dst
      hclean.unlinked
  rw [hkey] at hkey'
  have hmeaning : (NshHappening.command c).meaning = .inr (.pathDstSet
      (t.request (keySpi nt.key) (keySi nt.key) nt.mdtype) c.mem) := by
    change c.meaning = _
    unfold NshCommand.meaning
    rw [htool, hargv, nshCommandRequest_pathLine hof.leads hnames hsayable.mdtype]
    rfl
  refine ⟨nt', w₁, ?_, ?_, (NshWorld.SameDevices.of_netdevs hnetdevs).trans hsame, ?_, ?_⟩
  · rw [happen_meaning hparse, hmeaning]
    change Except.map _ (Except.ok (w'.nshNlCmdPathDstSet env _ c.mem)) = _
    rw [hset]
    rfl
  · have hkept := hinv.pathDstSet (t.request (keySpi nt.key) (keySi nt.key) nt.mdtype) c.mem
    rwa [hset] at hkept
  · rw [← hsame.ifindexAt, hsent, hsame.ifindexAt, hof.sent]
  · intro key
    rw [hfind, hkey']

/-- The lines of entries, one after the other, leave their paths again. -/
theorem restored_paths (hparse : FollowsNshPolicy nlmsgParse) {target : NshTable → PathTarget}
    (hnames : ∀ d ∈ w.netdevs, tool.Knows d.ifindex) {nts : List NshTable}
    (hnts : ∀ nt ∈ nts, (target nt).IsOf w nt ∧ w.Sayable nt)
    (hnodup : (nts.map NshTable.key).Nodup) {w' : NshWorld} (hinv : w'.Inv env)
    (hsame : w'.SameDevices w)
    (hfree : ∀ nt ∈ nts, w'.nnet.nshFindTable env nt.key = none) {cs : List NshCommand}
    (hcs : cs.map (fun c => (c.tool, c.argv)) =
      nts.map fun nt => (tool, "add".toList :: lineWords (pathLine tool nt (target nt))))
    (hmem : ∀ c ∈ cs, c.mem.Clean) :
    ∃ replies restored,
      runAnswers (happen env nlmsgParse) w' (cs.map .command) = .ok (replies, restored) ∧
      (∀ reply ∈ replies, reply = .acked 0) ∧ restored.SameDevices w ∧
      (∀ nt ∈ nts, ∃ nt', restored.nnet.nshFindTable env nt.key = some nt' ∧
        nshNlTableSend w.ifindexAt nt' = nshNlTableSend w.ifindexAt nt) ∧
      ∀ key, key ∉ nts.map NshTable.key →
        restored.nnet.nshFindTable env key = w'.nnet.nshFindTable env key := by
  induction nts generalizing w' cs with
  | nil =>
    rw [List.map_nil, List.map_eq_nil_iff] at hcs
    subst hcs
    exact ⟨[], w', rfl, fun _ h => absurd h List.not_mem_nil, hsame,
      fun _ h => absurd h List.not_mem_nil, fun _ _ => rfl⟩
  | cons nt nts ih =>
    obtain ⟨c, cs, rfl, hc, hcs⟩ := List.map_eq_cons_iff.mp hcs
    obtain ⟨htool, hargv⟩ := Prod.mk.inj hc
    obtain ⟨hnot, hnodup⟩ := List.nodup_cons.mp hnodup
    obtain ⟨hof, hsayable⟩ := hnts nt List.mem_cons_self
    obtain ⟨nt', w₁, hstep, hinv₁, hsame₁, hsent, hfind⟩ := restored_path hparse hnames hof hsayable
      hinv hsame (hfree nt List.mem_cons_self) htool hargv (hmem c List.mem_cons_self)
    have hfree₁ : ∀ nt₁ ∈ nts, w₁.nnet.nshFindTable env nt₁.key = none := by
      intro nt₁ hnt₁
      have hne : ¬ nt.key = nt₁.key := fun heq => hnot (heq ▸ List.mem_map_of_mem hnt₁)
      rw [hfind, if_neg hne]
      exact hfree nt₁ (List.mem_cons_of_mem nt hnt₁)
    obtain ⟨replies, restored, hrun, hreplies, hdevices, hthere, hother⟩ :=
      ih (fun nt₁ hnt₁ => hnts nt₁ (List.mem_cons_of_mem nt hnt₁)) hnodup hinv₁
        hsame₁ hfree₁ hcs fun c' hc' => hmem c' (List.mem_cons_of_mem c hc')
    refine ⟨.acked 0 :: replies, restored, ?_, ?_, hdevices, ?_, ?_⟩
    · rw [List.map_cons, runAnswers, hstep]
      simp only [bind, Except.bind, hrun]
      rfl
    · intro reply hreply
      rcases List.mem_cons.mp hreply with rfl | hreply
      · rfl
      · exact hreplies reply hreply
    · intro nt₁ hnt₁
      rcases List.mem_cons.mp hnt₁ with rfl | hnt₁
      · refine ⟨nt', ?_, hsent⟩
        rw [hother _ hnot, hfind, if_pos rfl]
      · exact hthere nt₁ hnt₁
    · intro key hkey₁
      rw [List.map_cons, List.mem_cons, not_or] at hkey₁
      rw [hother key hkey₁.2, hfind, if_neg fun heq => hkey₁.1 heq.symm]

theorem mapM_pathNlmsg {target : NshTable → PathTarget}
    (hnames : ∀ d ∈ w.netdevs, tool.Knows d.ifindex) {nts : List NshTable}
    (hnts : ∀ nt ∈ nts, (target nt).IsOf w nt) {records : List NshAttrs}
    (hrecords : List.Forall₂ (fun nt record => nshNlTableSend w.ifindexAt nt = .ok record) nts records)
    {ms : List (List U8)} (hms : List.Forall₂ NshAttrs.CarriedBy records ms) :
    ms.mapM (IpNsh.pathNlmsg tool) =
      .ok ((nts.map fun nt => pathLine tool nt (target nt)).map fun line => (0, line)) := by
  rw [List.map_map]
  apply mapM_printed hrecords hms
  intro nt hnt record m hsend hm
  have hof := hnts nt hnt
  rw [Except.ok.inj (hsend.symm.trans hof.sent)] at hm
  exact PathTarget.pathNlmsg_record hm
    fun ifindex hifindex => (hof.leads.knows hnames ifindex hifindex).indextoname

/-- What `show` prints of the paths of a namespace can be given to `add`, line by line, in a
namespace that has the same devices and no paths. Each add succeeds, and a search finds for
every key an entry of which the record is the one that was saved. -/
theorem show_add_restores_paths (nlmsgParse : List U8 → Option NshAttrs)
    (hparse : FollowsNshPolicy nlmsgParse) (env : NshEnv) (tool : ToolEnv)
    (hs hs' : List NshHappening) (hsaid : ∀ h ∈ hs, h.Said) (replies replies' : List NshReply)
    (w w' : NshWorld) (hrun : runAnswers (happen env nlmsgParse) .init hs = .ok (replies, w))
    (hrun' : runAnswers (happen env nlmsgParse) .init hs' = .ok (replies', w'))
    (hsame : w'.SameDevices w) (hempty : w'.paths = [])
    (hnames : ∀ d ∈ w.netdevs, tool.Knows d.ifindex) :
    ∃ records, (∀ calls, w.paths.length < calls →
        drain w.nshNlCmdPathDump calls { args0 := 0, args1 := 0 } = .ok records) ∧
      ∀ ms, List.Forall₂ NshAttrs.CarriedBy records ms → ∃ lines : List CString,
        ms.mapM (IpNsh.pathNlmsg tool) = .ok (lines.map fun line => (0, line)) ∧
        ∀ cs : List NshCommand, cs.map (fun c => (c.tool, c.argv)) =
            lines.map (fun line => (tool, "add".toList :: lineWords line)) →
          (∀ c ∈ cs, c.mem.Clean) → ∃ replies restored,
            runAnswers (happen env nlmsgParse) w' (cs.map .command) = .ok (replies, restored) ∧
            (∀ reply ∈ replies, reply = .acked 0) ∧
            ∀ key, (restored.nnet.nshFindTable env key).map (nshNlTableSend restored.ifindexAt) =
              (w.nnet.nshFindTable env key).map (nshNlTableSend w.ifindexAt) := by
  obtain ⟨hinv, hindexed, hsayable⟩ := happens_kept hparse hsaid hrun
  have hinv' := happens_inv hparse hrun'
  have : Nonempty PathTarget := ⟨.inner 0⟩
  choose! target htarget using fun nt (hnt : nt ∈ w.paths) =>
    hinv.exists_target hindexed hnt (hsayable nt hnt)
  have hsent : ∀ nt ∈ w.paths, ∃ record, nshNlTableSend w.ifindexAt nt = .ok record :=
    fun nt hnt => ⟨_, (htarget nt hnt).sent⟩
  obtain ⟨records, hrecords, hdump⟩ :=
    (NshWorld.dumpsEach_iff w.nshNlCmdPathDump_takes).mpr hsent
  refine ⟨records, hdump, fun ms hms => ?_⟩
  refine ⟨w.paths.map fun nt => pathLine tool nt (target nt), mapM_pathNlmsg hnames htarget hrecords hms, ?_⟩
  intro cs hcs hmem
  rw [List.map_map] at hcs
  have hfree (key : U32) : w'.nnet.nshFindTable env key = none := by
    cases hfind : w'.nnet.nshFindTable env key with
    | none => rfl
    | some nt' =>
      have hmem := (NshWorld.mem_paths_of_find hfind).1
      rw [hempty] at hmem
      cases hmem
  obtain ⟨replies, restored, hruns, hreplies, hdevices, hthere, hother⟩ :=
    restored_paths hparse hnames (fun nt hnt => ⟨htarget nt hnt, hsayable nt hnt⟩)
      hinv.pathTable.nodup hinv' hsame (fun nt _ => hfree nt.key) hcs hmem
  refine ⟨replies, restored, hruns, hreplies, fun key => ?_⟩
  rw [hdevices.ifindexAt]
  cases hfind : w.nnet.nshFindTable env key with
  | none =>
    rw [hother key (hinv.not_mem_of_find hfind), hfree]
  | some nt =>
    obtain ⟨hnt, rfl⟩ := NshWorld.mem_paths_of_find hfind
    obtain ⟨nt', hfound, hsame⟩ := hthere nt hnt
    rw [hfound]
    exact congrArg some hsame

end

/-- A namespace with `nsh0`. -/
def bareNsh : NshWorld := (NshWorld.init.nshNewlink 7 3 none none 0).2

def nsh0Path : NshAttrs :=
  { noAttrs with
    ifindex := some 3
    spi := some 1
    si := some 255
    encap := some NSH_ENCAP_TYPE_NONE }

def savedNsh : NshWorld :=
  (bareNsh.nshNlCmdPathDstSet plainNsh nsh0Path (NshWorld.heldMemory none)).2

theorem bareNsh_happens : runAnswers (happen plainNsh nshNlaParse) .init
    [.event (.newlink 7 3 none none 0)] = .ok ([.acked 0], bareNsh) := rfl

theorem savedNsh_happens : runAnswers (happen plainNsh nshNlaParse) .init
    [.event (.newlink 7 3 none none 0), nshLine "add spi 1 si 255 encap none dev nsh0"] =
      .ok ([.acked 0, .acked 0], savedNsh) := by
  have hfirst : happen plainNsh nshNlaParse .init (.event (.newlink 7 3 none none 0)) =
      .ok (.acked 0, bareNsh) := rfl
  have hmeaning : (nshLine "add spi 1 si 255 encap none dev nsh0").meaning =
      .inr (.pathDstSet nsh0Path (NshWorld.heldMemory none)) := rfl
  have hsecond : happen plainNsh nshNlaParse bareNsh
      (nshLine "add spi 1 si 255 encap none dev nsh0") = .ok (.acked 0, savedNsh) := by
    rw [happen_meaning nshNlaParse_follows, hmeaning]
    rfl
  rw [runAnswers, hfirst]
  simp only [bind, Except.bind]
  rw [runAnswers, hsecond]
  rfl

def nsh0Record : NshAttrs :=
  { nsh0Path with mdtype := some NSH_BASE_MDTYPE1 }

def nsh0Entry : NshTable :=
  NshWorld.nshEntry (nshKey 1 255) NSH_BASE_MDTYPE1 NSH_ENCAP_TYPE_NONE (some 7) none

theorem savedNsh_paths : savedNsh.paths = [nsh0Entry] := by
  unfold NshWorld.paths
  rw [Buckets.flatMap_eq_of_nodup (List.nodup_finRange _) (List.mem_finRange (0 : Fin nshHashSize))]
  · rfl
  · intro n _ hne
    exact Function.update_of_ne hne _ _

theorem savedNsh_dumped (calls : ℕ) (hcalls : 1 < calls) :
    drain savedNsh.nshNlCmdPathDump calls { args0 := 0, args1 := 0 } = .ok [nsh0Record] := by
  have hpaths := savedNsh_paths
  have hdump := drain_eq savedNsh.nshNlCmdPathDump_takes calls { args0 := 0, args1 := 0 }
  rw [List.drop_zero, hpaths] at hdump
  exact hdump hcalls

def recordMessage (a : NshAttrs) : List U8 :=
  List.replicate 4 0 ++ Attr.paddedBytes (a.fields.map NshField.attr)

theorem recordMessage_carries (a : NshAttrs) : a.CarriedBy (recordMessage a) := by
  refine ⟨_, _, a.fields.map NshField.attr, rfl, List.length_replicate, encodes_paddedBytes _, ?_⟩
  rw [List.map_map]
  rfl

/-- The line that `show` prints. -/
def nsh0Lines : List CString := ["spi 1 si 255 mdtype 1 encap none dev nsh0\n".toList]

theorem nsh0Lines_printed : [recordMessage nsh0Record].mapM (IpNsh.pathNlmsg nshInterface) =
    .ok (nsh0Lines.map fun line => (0, line)) := by
  decide +kernel

def addPrintedPath : NshCommand where
  tool := nshInterface
  argv := lineWords "add spi 1 si 255 mdtype 1 encap none dev nsh0".toList
  mem := NshWorld.heldMemory none

theorem addPrintedPath_argv : [addPrintedPath].map NshCommand.argv =
    nsh0Lines.map fun line => "add".toList :: lineWords line := by
  decide +kernel

theorem show_add_restores_paths_nsh0 :
    drain savedNsh.nshNlCmdPathDump 2 { args0 := 0, args1 := 0 } = .ok [nsh0Record] ∧
    [recordMessage nsh0Record].mapM (IpNsh.pathNlmsg nshInterface) =
      .ok (nsh0Lines.map fun line => (0, line)) ∧
    ∃ replies restored,
      runAnswers (happen plainNsh nshNlaParse) bareNsh [.command addPrintedPath] =
        .ok (replies, restored) ∧
      (∀ reply ∈ replies, reply = .acked 0) ∧
      (restored.nnet.nshFindTable plainNsh (nshKey 1 255)).map (nshNlTableSend restored.ifindexAt) =
        some (.ok nsh0Record) := by
  have hnetdevs : bareNsh.netdevs = savedNsh.netdevs :=
    (NshWorld.nshNlCmdPathDstSet_ends plainNsh bareNsh nsh0Path (NshWorld.heldMemory none)).netdevs.symm
  have hempty : bareNsh.paths = [] := by
    refine List.eq_nil_iff_forall_not_mem.mpr fun nt hnt => ?_
    obtain ⟨n, hn⟩ := NshWorld.mem_paths.mp hnt
    exact absurd hn List.not_mem_nil
  obtain ⟨records, hdump, hprint⟩ := show_add_restores_paths nshNlaParse nshNlaParse_follows plainNsh
    nshInterface
    [.event (.newlink 7 3 none none 0), nshLine "add spi 1 si 255 encap none dev nsh0"]
    [.event (.newlink 7 3 none none 0)]
    (by
      intro h hh
      rcases List.mem_cons.mp hh with rfl | hh
      · trivial
      · obtain rfl := List.mem_singleton.mp hh
        intro held hheld
        exact Option.some.inj hheld ▸ rfl)
    _ _ savedNsh bareNsh savedNsh_happens bareNsh_happens (.of_netdevs hnetdevs) hempty
    (by
      intro d hd
      rw [← hnetdevs] at hd
      obtain rfl := List.mem_singleton.mp hd
      exact ⟨by decide, by decide, by decide, by decide⟩)
  have hrecords : records = [nsh0Record] :=
    Except.ok.inj ((hdump 2 (by rw [savedNsh_paths]; decide)).symm.trans (savedNsh_dumped 2 (by decide)))
  have hcarried : List.Forall₂ NshAttrs.CarriedBy records [recordMessage nsh0Record] := by
    rw [hrecords]
    exact .cons (recordMessage_carries nsh0Record) .nil
  obtain ⟨lines, hlines, hadd⟩ := hprint _ hcarried
  have hprinted : lines = nsh0Lines := by
    have hpairs := Except.ok.inj (hlines.symm.trans nsh0Lines_printed)
    exact List.map_injective_iff.mpr (fun _ _ h => congrArg Prod.snd h) hpairs
  obtain ⟨replies, restored, hruns, hacked, hfinds⟩ := hadd [addPrintedPath]
    (by
      rw [hprinted]
      exact congrArg (List.map (Prod.mk nshInterface)) addPrintedPath_argv)
    (by
      intro c hc
      obtain rfl := List.mem_singleton.mp hc
      exact ⟨rfl, rfl, fun held hheld => Option.some.inj hheld ▸ rfl⟩)
  have hsaved : (savedNsh.nnet.nshFindTable plainNsh (nshKey 1 255)).map
      (nshNlTableSend savedNsh.ifindexAt) = some (.ok nsh0Record) := rfl
  exact ⟨savedNsh_dumped 2 (by decide), nsh0Lines_printed, replies, restored, hruns, hacked, (hfinds _).trans hsaved⟩

end Madcap
