import Madcap.Iproute.NshRestore

/-!
# Devices that are put back on their paths

`show dev` prints the path of each device. The same words after `set` put the device on it, and
what is said of a device that is on no path is not a request.
-/

namespace Madcap

namespace IpNsh

def devNlmsg (tool : ToolEnv) (m : List U8) : Res (ℤ × CString) :=
  if m.length < 4 then return (-1, [])
  else do
    let msg := m.drop 4
    let (attrs, _) ← parseRtattr nshkmodAttrMax msg
    if attr attrs NSHKMOD_ATTR_SPI = none ∨ attr attrs NSHKMOD_ATTR_SI = none ∨
        attr attrs NSHKMOD_ATTR_IFINDEX = none then
      return (-1, [])
    else do
      let spi ← attrU32 msg attrs NSHKMOD_ATTR_SPI
      let si ← attrU8 msg attrs NSHKMOD_ATTR_SI
      let ifindex ← attrU32 msg attrs NSHKMOD_ATTR_IFINDEX
      match tool.ifs.indextoname ifindex with
      | none => return (-1, [])
      | some devname =>
        if spi = 0 ∧ si = 0 then return (0, "dev ".toList ++ devname ++ " none\n".toList)
        else
          return (0, "dev ".toList ++ devname ++ " spi ".toList ++ decimal spi.toNat ++
            " si ".toList ++ decimal si.toNat ++ "\n".toList)

end IpNsh

def devRecord (ifindex spi : U32) (si : U8) : NshAttrs :=
  { noAttrs with ifindex := some ifindex, spi := some spi, si := some si }

/-- The words that say the path of a device. A device whose SPI and SI are zero is on no path. -/
def devWords (dev : CString) (spi : U32) (si : U8) : List CString :=
  "dev".toList :: dev :: if spi = 0 ∧ si = 0 then ["none".toList]
    else ["spi".toList, decimal spi.toNat, "si".toList, decimal si.toNat]

section

variable {tool : ToolEnv} {ifindex spi : U32} {si : U8} {m : List U8}

theorem devNlmsg_record (h : (devRecord ifindex spi si).CarriedBy m)
    (hdev : tool.ifs.indextoname ifindex ≠ none) :
    IpNsh.devNlmsg tool m =
      .ok (0, [' '].intercalate (devWords (devName tool ifindex) spi si) ++ "\n".toList) := by
  obtain ⟨hlen, attrs, hread⟩ := h.readFrom
  have hname : tool.ifs.indextoname ifindex = some (devName tool ifindex) := by
    obtain ⟨name, hname⟩ := Option.ne_none_iff_exists'.mp hdev
    unfold devName
    rw [hname]
    rfl
  obtain ⟨hspi, hspi'⟩ := hread.spi spi rfl
  obtain ⟨hsi, hsi'⟩ := hread.si si rfl
  obtain ⟨hifindex, hifindex'⟩ := hread.ifindex ifindex rfl
  have hdevText : "dev ".toList = "dev".toList ++ [' '] := rfl
  have hnoneText : " none\n".toList = ' ' :: ("none".toList ++ "\n".toList) := rfl
  have hspiText : " spi ".toList = ' ' :: ("spi".toList ++ [' ']) := rfl
  have hsiText : " si ".toList = ' ' :: ("si".toList ++ [' ']) := rfl
  unfold IpNsh.devNlmsg devWords
  rw [if_neg hlen]
  simp only [bind, Except.bind, pure, Except.pure, hread.parsed]
  rw [if_neg (by simp only [hspi, hsi, hifindex, or_false, not_false_iff])]
  simp only [hspi', hsi', hifindex', hname]
  rw [intercalate_cons, hdevText]
  split_ifs with hzero
  · rw [hnoneText]
    simp
  · rw [hspiText, hsiText]
    simp

theorem isWord_devWords (h : tool.Knows ifindex) :
    ∀ w ∈ devWords (devName tool ifindex) spi si, IsWord w := by
  unfold devWords
  rw [List.forall_mem_cons, List.forall_mem_cons]
  refine ⟨by decide, h.isWord, ?_⟩
  split_ifs
  · simp only [List.forall_mem_cons]
    exact ⟨by decide, fun w hw => absurd hw List.not_mem_nil⟩
  · simp only [List.forall_mem_cons]
    exact ⟨by decide, isWord_decimal _, by decide, isWord_decimal _,
      fun w hw => absurd hw List.not_mem_nil⟩

/-- The words of a device, after `set`, ask for its path. Those of a device that is on no path
ask for nothing. -/
theorem nshCommandRequest_devWords (h : tool.Knows ifindex) :
    nshCommandRequest tool ("set".toList :: devWords (devName tool ifindex) spi si) =
      if spi = 0 ∧ si = 0 then .error (.message "spi and si must be specified")
      else .ok (.devPathSet (devRecord ifindex spi si)) := by
  have hset : wordMatches "set".toList "set" = true := by decide
  have hadd : ¬ wordMatches "set".toList "add" = true := by decide
  have hdel : ¬ (wordMatches "set".toList "del" || wordMatches "set".toList "delete") = true := by decide
  have hparse : IpNsh.parseArgs tool (devWords (devName tool ifindex) spi si) =
      .ok (if spi = 0 ∧ si = 0 then { noNshParam with ifindex := ifindex, fDev := true }
        else { noNshParam with
          ifindex := ifindex
          fDev := true
          spi := spi
          si := si
          fSpisi := 2 }) := by
    unfold IpNsh.parseArgs devWords
    rw [if_neg (List.cons_ne_nil _ _), IpNsh.parseWords_dev h]
    split_ifs with hzero
    · rfl
    · rw [IpNsh.parseWords_spi, IpNsh.parseWords_si]
      rfl
  unfold nshCommandRequest
  dsimp only
  rw [if_neg hadd, if_neg hdel, if_pos hset, hparse]
  change NshParam.aboutPath _ _ = _
  split_ifs with hzero
  · rfl
  · unfold NshParam.aboutPath NshParam.aboutDev
    rw [if_pos rfl, if_neg h.ne_zero]
    rfl

end

theorem key_eq_zero_iff (key : U32) : keySpi key = 0 ∧ keySi key = 0 ↔ key = 0 := by
  constructor
  · rintro ⟨hspi, hsi⟩
    have hkey : nshKey (keySpi key) (keySi key) = key := nshKey_recorded key
    rw [← hkey, hspi, hsi]
    rfl
  · rintro rfl
    exact ⟨rfl, rfl⟩

def devLine (tool : ToolEnv) (ifindex key : U32) : CString :=
  [' '].intercalate (devWords (devName tool ifindex) (keySpi key) (keySi key)) ++ "\n".toList

section

variable {env : NshEnv} {nlmsgParse : List U8 → Option NshAttrs} {w : NshWorld} {tool : ToolEnv}

theorem nshCommandRequest_devLine {ifindex : U32} (h : tool.Knows ifindex) (key : U32) :
    nshCommandRequest tool ("set".toList :: lineWords (devLine tool ifindex key)) =
      if key = 0 then .error (.message "spi and si must be specified")
      else .ok (.devPathSet (devRecord ifindex (keySpi key) (keySi key))) := by
  have hne : devWords (devName tool ifindex) (keySpi key) (keySi key) ≠ [] := List.cons_ne_nil _ _
  unfold devLine
  rw [lineWords_intercalate (isWord_devWords h) hne, nshCommandRequest_devWords h]
  simp only [key_eq_zero_iff]

theorem restored_key (hparse : FollowsNshPolicy nlmsgParse) {w' : NshWorld} (hinv : w'.Inv env)
    (hsame : w'.SameDevices w) {ifindex key : U32} {d : NetDevice}
    (hd : w.devGetByIndex ifindex = some d) (hnsh : d.nsh = true) (hknows : tool.Knows ifindex)
    {c : NshCommand} (htool : c.tool = tool)
    (hargv : c.argv = "set".toList :: lineWords (devLine tool ifindex key)) :
    ∃ w₁, happen env nlmsgParse w' (.command c) =
        .ok (if key = 0 then .exits (.message "spi and si must be specified") else .acked 0, w₁) ∧
      w₁.Inv env ∧ w₁.SameDevices w ∧
      w₁.nnet.devKey = if key = 0 then w'.nnet.devKey
        else Function.update w'.nnet.devKey d.dev key := by
  have hrequest := nshCommandRequest_devLine hknows key
  by_cases hzero : key = 0
  · have hmeaning : (NshHappening.command c).meaning =
        .inl (.exits (.message "spi and si must be specified")) := by
      change c.meaning = _
      unfold NshCommand.meaning
      rw [htool, hargv, hrequest, if_pos hzero]
    refine ⟨w', ?_, hinv, hsame, (if_pos hzero).symm⟩
    rw [happen_meaning hparse, hmeaning, if_pos hzero]
  · have hmeaning : (NshHappening.command c).meaning =
        .inr (.devPathSet (devRecord ifindex (keySpi key) (keySi key))) := by
      change c.meaning = _
      unfold NshCommand.meaning
      rw [htool, hargv, hrequest, if_neg hzero]
      rfl
    obtain ⟨d', hd', hdev, hnsh'⟩ := hsame.found hd
    obtain ⟨⟨code, w₁⟩, hset, hinv₁⟩ :=
      (hinv.devPathSet (devRecord ifindex (keySpi key) (keySi key))).exists_ok fun _ => id
    obtain ⟨hcode, hkey, hsame₁⟩ := (NshWorld.nshNlCmdDevPathSet_key rfl rfl rfl hd' (hnsh'.trans hnsh)).of_eq_ok hset
    dsimp only at hcode hkey hsame₁ hinv₁
    subst hcode
    have hkey' : nshKey (keySpi key) (keySi key) = key := nshKey_recorded key
    refine ⟨w₁, ?_, hinv₁, hsame₁.trans hsame, ?_⟩
    · rw [happen_meaning hparse, hmeaning, if_neg hzero]
      have hstep : w'.step env (.devPathSet (devRecord ifindex (keySpi key) (keySi key))) =
          .ok (0, w₁) := hset
      dsimp only
      rw [hstep]
      rfl
    · rw [hkey, hdev, hkey', if_neg hzero]

theorem restored_keys (hparse : FollowsNshPolicy nlmsgParse) {index : NetDev → U32}
    {devs : List NetDev}
    (hdevs : ∀ dev ∈ devs, tool.Knows (index dev) ∧
      ∃ d, w.devGetByIndex (index dev) = some d ∧ d.dev = dev ∧ d.nsh = true)
    (hnodup : devs.Nodup) {w' : NshWorld} (hinv : w'.Inv env) (hsame : w'.SameDevices w)
    {cs : List NshCommand} (hcs : cs.map (fun c => (c.tool, c.argv)) = devs.map fun dev =>
      (tool, "set".toList :: lineWords (devLine tool (index dev) (w.nnet.devKey dev)))) :
    ∃ replies restored,
      runAnswers (happen env nlmsgParse) w' (cs.map .command) = .ok (replies, restored) ∧
      replies = devs.map (fun dev => if w.nnet.devKey dev = 0 then
        .exits (.message "spi and si must be specified") else .acked 0) ∧
      ∀ dev, restored.nnet.devKey dev = if dev ∈ devs ∧ w.nnet.devKey dev ≠ 0 then w.nnet.devKey dev
        else w'.nnet.devKey dev := by
  induction devs generalizing w' cs with
  | nil =>
    rw [List.map_nil, List.map_eq_nil_iff] at hcs
    subst hcs
    refine ⟨[], w', rfl, rfl, fun dev => ?_⟩
    rw [if_neg fun h => absurd h.1 List.not_mem_nil]
  | cons dev devs ih =>
    obtain ⟨c, cs, rfl, hc, hlines⟩ := List.map_eq_cons_iff.mp hcs
    obtain ⟨htool, hargv⟩ := Prod.mk.inj hc
    obtain ⟨hnot, hrest⟩ := List.nodup_cons.mp hnodup
    obtain ⟨hknows, d, hd, rfl, hnsh⟩ := hdevs dev List.mem_cons_self
    obtain ⟨w₁, hstep, hinv₁, hsame₁, hkey₁⟩ :=
      restored_key hparse hinv hsame hd hnsh hknows htool hargv
    obtain ⟨replies, restored, hrun, rfl, hkeys⟩ :=
      ih (fun dev hdev => hdevs dev (List.mem_cons_of_mem _ hdev)) hrest hinv₁ hsame₁ hlines
    refine ⟨_ :: _, restored, ?_, rfl, fun dev => ?_⟩
    · rw [List.map_cons, runAnswers, hstep]
      simp only [bind, Except.bind, hrun]
      rfl
    · rw [hkeys, hkey₁]
      simp only [List.mem_cons]
      grind

theorem mapM_devNlmsg {index : NetDev → U32} {devs : List NetDev}
    (hdevs : ∀ dev ∈ devs, w.ifindexAt dev = .ok (index dev) ∧ tool.Knows (index dev))
    {records : List NshAttrs}
    (hrecords : List.Forall₂ (fun dev record => w.nshNlDevSend dev = .ok record) devs records)
    {ms : List (List U8)} (hms : List.Forall₂ NshAttrs.CarriedBy records ms) :
    ms.mapM (IpNsh.devNlmsg tool) =
      .ok ((devs.map fun dev => devLine tool (index dev) (w.nnet.devKey dev)).map
        fun line => (0, line)) := by
  rw [List.map_map]
  apply mapM_printed hrecords hms
  intro dev hdev record m hsend hm
  obtain ⟨hindex, hknows⟩ := hdevs dev hdev
  have hsent : w.nshNlDevSend dev = .ok (devRecord (index dev) (keySpi (w.nnet.devKey dev))
      (keySi (w.nnet.devKey dev))) := by
    unfold NshWorld.nshNlDevSend
    rw [hindex]
    rfl
  rw [Except.ok.inj (hsend.symm.trans hsent)] at hm
  exact devNlmsg_record hm hknows.indextoname

/-- What `show dev` prints of the devices of a namespace can be given to `set`, line by line, in
a namespace that has the same devices. The devices that were on a path are put on it again. The
line of a device that was on none says `none`, which the tool refuses: the device stays where
it is. -/
theorem show_set_restores_devices (nlmsgParse : List U8 → Option NshAttrs)
    (hparse : FollowsNshPolicy nlmsgParse) (env : NshEnv) (tool : ToolEnv)
    (hs hs' : List NshHappening) (replies replies' : List NshReply) (w w' : NshWorld)
    (hrun : runAnswers (happen env nlmsgParse) .init hs = .ok (replies, w))
    (hrun' : runAnswers (happen env nlmsgParse) .init hs' = .ok (replies', w'))
    (hsame : w'.SameDevices w) (hnames : ∀ d ∈ w.netdevs, tool.Knows d.ifindex) :
    ∃ records, (∀ calls, w.devList.length < calls →
        drain w.nshNlCmdDevDump calls { args0 := 0, args1 := 0 } = .ok records) ∧
      ∀ ms, List.Forall₂ NshAttrs.CarriedBy records ms → ∃ lines : List CString,
        ms.mapM (IpNsh.devNlmsg tool) = .ok (lines.map fun line => (0, line)) ∧
        ∀ cs : List NshCommand, cs.map (fun c => (c.tool, c.argv)) =
            lines.map (fun line => (tool, "set".toList :: lineWords line)) →
          ∃ restored, runAnswers (happen env nlmsgParse) w' (cs.map .command) =
              .ok (w.devList.map (fun dev => if w.nnet.devKey dev = 0 then
                .exits (.message "spi and si must be specified") else .acked 0), restored) ∧
            ∀ dev ∈ w.devList, restored.nnet.devKey dev =
              if w.nnet.devKey dev = 0 then w'.nnet.devKey dev else w.nnet.devKey dev := by
  have hinv := happens_inv hparse hrun
  have hinv' := happens_inv hparse hrun'
  have hindexed := happens_indexed hparse hrun
  have hdevice : ∀ dev ∈ w.devList, ∃ ifindex, w.ifindexAt dev = .ok ifindex ∧ tool.Knows ifindex ∧
      ∃ d, w.devGetByIndex ifindex = some d ∧ d.dev = dev ∧ d.nsh = true := by
    intro dev hdev
    obtain ⟨d, hd, hkind⟩ := List.mem_map.mp ((hinv.listed dev).mp hdev)
    obtain ⟨rfl, hnsh⟩ := Prod.mk.inj hkind
    have hfound := hindexed.devGetByIndex hd
    exact ⟨d.ifindex, hinv.ifindexAt rfl hfound, hnames d hd, d, hfound, rfl, hnsh⟩
  choose! index hindex hknows hfound using hdevice
  obtain ⟨records, hrecords, hdump⟩ :=
    (NshWorld.dumpsEach_iff w.nshNlCmdDevDump_takes).mpr fun dev => hinv.devSend
  refine ⟨records, hdump, fun ms hms => ?_⟩
  refine ⟨w.devList.map fun dev => devLine tool (index dev) (w.nnet.devKey dev),
    mapM_devNlmsg (fun dev hdev => ⟨hindex dev hdev, hknows dev hdev⟩) hrecords hms, ?_⟩
  intro cs hcs
  rw [List.map_map] at hcs
  obtain ⟨_, restored, hruns, rfl, hkeys⟩ := restored_keys hparse
    (fun dev hdev => ⟨hknows dev hdev, hfound dev hdev⟩)
    hinv.nodup hinv' hsame hcs
  refine ⟨restored, hruns, fun dev hdev => ?_⟩
  rw [hkeys]
  by_cases hzero : w.nnet.devKey dev = 0
  · rw [if_pos hzero, if_neg fun h => h.2 hzero]
  · rw [if_neg hzero, if_pos ⟨hdev, hzero⟩]

end

/-- `nsh0` is made with a path, which is printed and set where it is made without. -/
theorem show_set_restores_devices_nsh0 : ∃ records,
    (∀ calls, 1 < calls →
      drain (NshWorld.init.nshNewlink 7 3 (some 1) (some 255) 0).2.nshNlCmdDevDump calls
        { args0 := 0, args1 := 0 } = .ok records) ∧
    ∀ ms, List.Forall₂ NshAttrs.CarriedBy records ms → ∃ lines : List CString,
      ms.mapM (IpNsh.devNlmsg nshInterface) = .ok (lines.map fun line => (0, line)) ∧
      ∀ cs : List NshCommand, cs.map (fun c => (c.tool, c.argv)) =
          lines.map (fun line => (nshInterface, "set".toList :: lineWords line)) →
        ∃ restored, runAnswers (happen plainNsh nshNlaParse) bareNsh (cs.map .command) =
            .ok ([.acked 0], restored) ∧ restored.nnet.devKey 7 = nshKey 1 255 := by
  obtain ⟨records, hdump, hprint⟩ := show_set_restores_devices nshNlaParse nshNlaParse_follows
    plainNsh nshInterface [.event (.newlink 7 3 (some 1) (some 255) 0)]
    [.event (.newlink 7 3 none none 0)] [.acked 0] _
    (NshWorld.init.nshNewlink 7 3 (some 1) (some 255) 0).2 bareNsh rfl bareNsh_happens
    (.of_netdevs rfl)
    (by
      intro d hd
      obtain rfl := List.mem_singleton.mp hd
      exact ⟨by decide, by decide, by decide, by decide⟩)
  refine ⟨records, hdump, fun ms hms => ?_⟩
  obtain ⟨lines, hlines, hset⟩ := hprint ms hms
  refine ⟨lines, hlines, fun cs hcs => ?_⟩
  obtain ⟨restored, hruns, hkeys⟩ := hset cs hcs
  exact ⟨restored, hruns, hkeys 7 (List.mem_singleton.mpr rfl)⟩

end Madcap
