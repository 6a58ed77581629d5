import Madcap.Protocol.NshDump
import Madcap.Protocol.NshOffload

/-!
# What memory held before

The memory for a remote node is not cleared, and a request writes only the fields of its
encap type. What is never read of an entry does not matter; what is read and was not
written comes from whoever had the memory before.
-/

namespace Madcap

def NshDst.visible (encapType : U8) (rdst : NshDst) : NshDst :=
  if encapType = NSH_ENCAP_TYPE_VXLAN then { rdst with ethAddr := 0 }
  else if encapType = NSH_ENCAP_TYPE_ETHER then { rdst with remoteIp := 0, localIp := 0, vni := 0 }
  else rdst

def NshTable.visible (nt : NshTable) : NshTable :=
  { nt with rdst := nt.rdst.map (NshDst.visible nt.encapType) }

def NshNet.visible (nnet : NshNet) : NshNet :=
  { nnet with nshTable := fun n => (nnet.nshTable n).map NshTable.visible }

def NshWorld.visible (w : NshWorld) : NshWorld := { w with nnet := w.nnet.visible }

theorem NshDst.visible_lowerdev (encapType : U8) (rdst : NshDst) :
    (rdst.visible encapType).lowerdev = rdst.lowerdev := by
  unfold visible
  split_ifs <;> rfl

namespace NshTable

variable {nt : NshTable}

@[simp] theorem visible_key : nt.visible.key = nt.key := rfl

@[simp] theorem visible_mdtype : nt.visible.mdtype = nt.mdtype := rfl

@[simp] theorem visible_encapType : nt.visible.encapType = nt.encapType := rfl

@[simp] theorem visible_rdev : nt.visible.rdev = nt.rdev := rfl

@[simp] theorem visible_rdst : nt.visible.rdst = nt.rdst.map (NshDst.visible nt.encapType) := rfl

theorem visible_lowerdev : nt.visible.rdst.bind NshDst.lowerdev = nt.rdst.bind NshDst.lowerdev := by
  rw [visible_rdst]
  cases nt.rdst with
  | none => rfl
  | some rdst => exact rdst.visible_lowerdev nt.encapType

@[simp] theorem visible_goesOver (dev : NetDev) : nt.visible.goesOver dev = nt.goesOver dev := by
  unfold goesOver
  rw [visible_rdst]
  cases nt.rdst with
  | none => rfl
  | some rdst => simp only [Option.map_some, NshDst.visible_lowerdev]

end NshTable

variable {env : NshEnv} {nnet : NshNet} {nt : NshTable}

theorem nshNlTableSend_visible (index : NetDev → Res U32) :
    nshNlTableSend index nt.visible = nshNlTableSend index nt := by
  have hhead : nshRecordHead nt.visible = nshRecordHead nt := rfl
  unfold nshNlTableSend
  rw [NshTable.visible_encapType, NshTable.visible_rdev, NshTable.visible_rdst, hhead]
  by_cases hvxlan : nt.encapType = NSH_ENCAP_TYPE_VXLAN
  · cases nt.rdst with
    | none => rfl
    | some rdst =>
      simp only [Option.map_some, NshDst.visible, if_pos hvxlan]
  · by_cases hether : nt.encapType = NSH_ENCAP_TYPE_ETHER
    · cases nt.rdst with
      | none => rfl
      | some rdst =>
        simp only [Option.map_some, NshDst.visible, if_neg hvxlan, if_pos hether]
    · simp only [if_neg hvxlan, if_neg hether]

theorem nshMadcapOn_visible : nshMadcapOn env nt.visible = nshMadcapOn env nt := by
  unfold nshMadcapOn
  rw [NshTable.visible_rdst]
  cases nt.rdst with
  | none => rfl
  | some rdst => simp only [Option.map_some, NshDst.visible_lowerdev]

theorem nshSend_visible (madcapOn : Bool) (skb : SkBuff) :
    nshSend env nt.visible madcapOn skb = nshSend env nt madcapOn skb := by
  unfold nshSend
  rw [NshTable.visible_rdst, NshTable.visible_encapType]
  cases nt.rdst with
  | none => rfl
  | some rdst =>
    simp only [Option.map_some, NshDst.visible_lowerdev]
    by_cases hvxlan : nt.encapType = NSH_ENCAP_TYPE_VXLAN
    · simp only [NshDst.visible, if_pos hvxlan]
      rfl
    · by_cases hether : nt.encapType = NSH_ENCAP_TYPE_ETHER
      · simp only [NshDst.visible, if_neg hvxlan, if_pos hether]
        rfl
      · simp only [if_neg hvxlan, if_neg hether]

theorem nshFindTable_visible (key : U32) :
    nnet.visible.nshFindTable env key = (nnet.nshFindTable env key).map NshTable.visible := by
  unfold NshNet.nshFindTable NshNet.visible
  rw [List.find?_map]
  rfl

theorem nshRecv_visible (skb : SkBuff) : nshRecv env nnet.visible skb = nshRecv env nnet skb := by
  unfold nshRecv
  simp only [nshFindTable_visible]
  cases nnet.nshFindTable env (load32 fun i => skb.byte (4 + i)) <;> rfl

theorem nshXmit_visible (dev : NetDev) (skb : SkBuff) :
    nshXmit env nnet.visible dev skb = nshXmit env nnet dev skb := by
  unfold nshXmit
  rw [nshFindTable_visible]
  have hkey : nnet.visible.devKey = nnet.devKey := rfl
  rw [hkey]
  cases nnet.nshFindTable env (nnet.devKey dev) with
  | none => rfl
  | some nt =>
    simp only [Option.map_some, nshMadcapOn_visible, NshTable.visible_mdtype, NshTable.visible_rdev,
      nshRecv_visible, nshSend_visible]
    rfl

namespace NshWorld

variable {w w' : NshWorld} {a : NshAttrs} {mem : NshMem}

/-- Two results agree in the code and in what is visible of the state. -/
abbrev look (res : ℤ × NshWorld) : ℤ × NshWorld := (res.1, res.2.visible)

theorem visible_devGetByIndex (ifindex : U32) :
    w.visible.devGetByIndex ifindex = w.devGetByIndex ifindex := rfl

theorem visible_nshFindTable (key : U32) : w.visible.nnet.nshFindTable env key =
    (w.nnet.nshFindTable env key).map NshTable.visible :=
  nshFindTable_visible key

theorem visible_visible (w : NshWorld) : w.visible.visible = w.visible := by
  have hentry (nt : NshTable) : nt.visible.visible = nt.visible := by
    unfold NshTable.visible
    cases nt.rdst with
    | none => rfl
    | some rdst =>
      simp only [Option.map_some, NshDst.visible]
      split_ifs <;> rfl
  unfold NshWorld.visible NshNet.visible
  simp only [List.map_map, Function.comp_def, hentry]

theorem visible_withEntry (nt : NshTable) (granted : Bool) :
    (w.withEntry env nt granted).visible = w.visible.withEntry env nt.visible granted := by
  unfold withEntry
  cases granted with
  | false => rfl
  | true =>
    simp only [if_true, NshWorld.visible, NshNet.visible, Buckets.insert, NshTable.visible_key]
    congr 2
    funext n
    by_cases hn : n = env.hash32 nt.key
    · subst hn
      rw [Function.update_self, Function.update_self, List.map_cons]
    · rw [Function.update_of_ne hn, Function.update_of_ne hn]

theorem countP_visible (nts : List NshTable) :
    (nts.map NshTable.visible).countP (fun nt => nt.rdst.isSome) =
      nts.countP fun nt => nt.rdst.isSome := by
  rw [List.countP_map]
  apply List.countP_congr
  intro nt _
  rw [Function.comp_apply, NshTable.visible_rdst, Option.isSome_map]

theorem visible_sweep {doomed : NshTable → Bool} (h : ∀ nt : NshTable, doomed nt.visible = doomed nt) :
    (w.nshSweep doomed).visible = w.visible.nshSweep doomed := by
  have hcomp : doomed ∘ NshTable.visible = doomed := funext h
  have hfilter (l : List NshTable) :
      (l.map NshTable.visible).filter doomed = (l.filter doomed).map NshTable.visible := by
    rw [List.filter_map, hcomp]
  unfold nshSweep freeDsts NshWorld.visible NshNet.visible
  dsimp only
  congr 1
  · congr 1
    funext n
    rw [List.filter_map]
    congr 2
    funext nt
    rw [Function.comp_apply, h]
  · rw [← List.map_flatMap, hfilter, countP_visible]

theorem visible_deleteTable (nt : NshTable) :
    (w.nshDeleteTable env nt).visible = w.visible.nshDeleteTable env nt.visible := by
  unfold nshDeleteTable freeDsts NshWorld.visible NshNet.visible
  dsimp only
  congr 1
  · congr 1
    funext n
    rw [NshTable.visible_key]
    by_cases hn : n = env.hash32 nt.key
    · subst hn
      rw [Function.update_self, Function.update_self, List.eraseP_map]
      rfl
    · rw [Function.update_of_ne hn, Function.update_of_ne hn]
  · exact congrArg (w.dsts - ·) (countP_visible [nt]).symm

theorem visible_unregister (dev : NetDev) :
    (w.unregisterNetdevice dev).visible = w.visible.unregisterNetdevice dev :=
  visible_sweep fun nt => nt.visible_goesOver dev

theorem visible_dellink (dev : NetDev) :
    (w.nshDellink dev).2.visible = (w.visible.nshDellink dev).2 := by
  unfold nshDellink
  dsimp only
  rw [visible_unregister, ← visible_sweep fun nt => rfl]
  rfl

theorem look_visible (code : ℤ) (w : NshWorld) : look (code, w.visible) = look (code, w) :=
  congrArg (Prod.mk code) w.visible_visible

section

variable {key : U32} {mdtype : U8}

theorem look_addTable (encapType : U8) (rdev : Option NetDev) (rdst : Option NshDst) :
    (w.visible.nshAddTable env key mdtype encapType rdev rdst mem.table).2.visible =
      (w.nshAddTable env key mdtype encapType rdev rdst mem.table).2.visible := by
  rw [nshAddTable_eq, nshAddTable_eq, visible_withEntry, visible_withEntry, visible_visible]

theorem look_pathDstSetNone :
    look (w.visible.pathDstSetNone env a key mdtype mem) =
      look (w.pathDstSetNone env a key mdtype mem) := by
  unfold pathDstSetNone
  cases a.ifindex with
  | none => exact look_visible _ w
  | some ifindex =>
    dsimp only
    rw [visible_devGetByIndex]
    cases w.devGetByIndex ifindex with
    | none => exact look_visible _ w
    | some d =>
      dsimp only
      cases d.nsh with
      | false => exact look_visible _ w
      | true => exact congrArg (Prod.mk _) (look_addTable _ _ _)

theorem look_pathDstSetVxlan :
    look (w.visible.pathDstSetVxlan env a key mdtype mem) =
      look (w.pathDstSetVxlan env a key mdtype mem) := by
  unfold pathDstSetVxlan
  cases a.encap with
  | none => exact look_visible _ w
  | some encap =>
    cases a.remote with
    | none => exact look_visible _ w
    | some remote =>
      cases mem.dst with
      | none => exact look_visible _ w
      | some held =>
        cases a.ifindex with
        | none =>
          exact congrArg (Prod.mk _) (look_addTable (w := { w with dsts := w.dsts + 1 }) _ _ _)
        | some ifindex =>
          have hnetdevs : w.visible.netdevs = w.netdevs := rfl
          unfold devGetByIndex
          dsimp only
          rw [hnetdevs]
          cases w.netdevs.find? fun d => d.ifindex = ifindex with
          | none => exact look_visible _ { w with dsts := w.dsts + 1 }
          | some d =>
            dsimp only
            cases d.nsh with
            | true => exact look_visible _ { w with dsts := w.dsts + 1 }
            | false =>
              exact congrArg (Prod.mk _) (look_addTable (w := { w with
                dsts := w.dsts + 1, madcap := acquireAll w.madcap d.dev w.devList }) _ _ _)

theorem look_pathDstSetEther :
    look (w.visible.pathDstSetEther env a key mdtype mem) =
      look (w.pathDstSetEther env a key mdtype mem) := by
  unfold pathDstSetEther
  cases a.ifindex with
  | none => exact look_visible _ w
  | some ifindex =>
    cases a.ethaddr with
    | none => exact look_visible _ w
    | some ethAddr =>
      dsimp only
      rw [visible_devGetByIndex]
      cases w.devGetByIndex ifindex with
      | none => exact look_visible _ w
      | some d =>
        dsimp only
        cases d.nsh with
        | true => exact look_visible _ w
        | false =>
          cases mem.dst with
          | none => exact look_visible _ w
          | some held =>
            exact congrArg (Prod.mk _) (look_addTable (w := { w with dsts := w.dsts + 1 }) _ _ _)

end

theorem look_pathDstSet (w : NshWorld) (a : NshAttrs) (mem : NshMem) :
    look (w.visible.nshNlCmdPathDstSet env a mem) = look (w.nshNlCmdPathDstSet env a mem) := by
  unfold nshNlCmdPathDstSet
  cases a.spi with
  | none => exact look_visible _ w
  | some spi =>
    cases a.si with
    | none => exact look_visible _ w
    | some si =>
      dsimp only
      rw [visible_nshFindTable]
      cases w.nnet.nshFindTable env (nshKey spi si) with
      | some nt => exact look_visible _ w
      | none =>
        dsimp only [Option.map_none]
        split_ifs
        · exact look_pathDstSetNone
        · exact look_pathDstSetVxlan
        · exact look_pathDstSetEther
        · exact look_visible _ w

theorem look_pathDstUnset (w : NshWorld) (a : NshAttrs) :
    look (w.visible.nshNlCmdPathDstUnset env a) = look (w.nshNlCmdPathDstUnset env a) := by
  unfold nshNlCmdPathDstUnset
  cases a.spi with
  | none => exact look_visible _ w
  | some spi =>
    cases a.si with
    | none => exact look_visible _ w
    | some si =>
      dsimp only
      rw [visible_nshFindTable]
      cases w.nnet.nshFindTable env (nshKey spi si) with
      | none => exact look_visible _ w
      | some nt =>
        have hdelete : (w.visible.nshDeleteTable env nt.visible).visible =
            (w.nshDeleteTable env nt).visible := by
          rw [← visible_deleteTable, visible_visible]
        exact congrArg (Prod.mk _) hdelete

theorem visible_changeMtu (w : NshWorld) (dev : NetDev) (nt : NshTable) :
    w.visible.nshChangeMtuForPath dev nt.visible =
      Except.map NshWorld.visible (w.nshChangeMtuForPath dev nt) := by
  have hmtu (newMtu : ℤ) : (w.visible.ethChangeMtu dev newMtu).2 = (w.ethChangeMtu dev newMtu).2.visible := by
    unfold ethChangeMtu
    split_ifs <;> rfl
  unfold nshChangeMtuForPath
  rw [NshTable.visible_lowerdev, NshTable.visible_encapType, NshTable.visible_mdtype]
  dsimp only
  by_cases hvxlan : nt.encapType = NSH_ENCAP_TYPE_VXLAN
  · rw [if_pos hvxlan, if_pos hvxlan]
    exact congrArg Except.ok (hmtu _)
  · rw [if_neg hvxlan, if_neg hvxlan]
    by_cases hether : nt.encapType = NSH_ENCAP_TYPE_ETHER
    · rw [if_pos hether, if_pos hether]
      cases nt.rdst.bind NshDst.lowerdev with
      | none => rfl
      | some lowerdev =>
        have hnetdevs : w.visible.netdevs = w.netdevs := rfl
        dsimp only
        rw [hnetdevs]
        cases w.netdevs.find? fun d => d.dev = lowerdev with
        | none => rfl
        | some d => exact congrArg Except.ok (hmtu _)
    · rw [if_neg hether, if_neg hether]
      rfl

theorem look_devPathSet (w : NshWorld) (a : NshAttrs) :
    Except.map look (w.visible.nshNlCmdDevPathSet env a) =
      Except.map look (w.nshNlCmdDevPathSet env a) := by
  have hsame (code : ℤ) : Except.map look (.ok (code, w.visible) : Res (ℤ × NshWorld)) =
      Except.map look (.ok (code, w)) :=
    congrArg Except.ok (look_visible code w)
  unfold nshNlCmdDevPathSet
  cases a.ifindex with
  | none => exact hsame _
  | some ifindex =>
    cases a.spi with
    | none => exact hsame _
    | some spi =>
      cases a.si with
      | none => exact hsame _
      | some si =>
        dsimp only
        rw [visible_devGetByIndex, visible_nshFindTable]
        cases w.devGetByIndex ifindex with
        | none => exact hsame _
        | some d =>
          dsimp only
          cases d.nsh with
          | false => exact hsame _
          | true =>
            cases w.nnet.nshFindTable env (nshKey spi si) with
            | none =>
              exact congrArg Except.ok (look_visible 0 { w with
                nnet := { w.nnet with
                  devKey := Function.update w.nnet.devKey d.dev (nshKey spi si) } })
            | some nt =>
              dsimp only [Option.map_some]
              rw [visible_changeMtu]
              cases w.nshChangeMtuForPath d.dev nt with
              | error e => rfl
              | ok w₁ =>
                exact congrArg Except.ok (look_visible 0 { w₁ with
                  nnet := { w₁.nnet with
                    devKey := Function.update w₁.nnet.devKey d.dev (nshKey spi si) } })

theorem look_register (w : NshWorld) (d : NetDevice) (err : ℤ) :
    w.visible.registerNetdevice d err =
      ((w.registerNetdevice d err).1, (w.registerNetdevice d err).2.visible) := by
  unfold registerNetdevice
  rw [visible_devGetByIndex]
  split_ifs <;> rfl

theorem look_newlink (w : NshWorld) (dev : NetDev) (ifindex : U32) (spi : Option U32) (si : Option U8)
    (err : ℤ) : look (w.visible.nshNewlink dev ifindex spi si err) =
      look (w.nshNewlink dev ifindex spi si err) := by
  have hregister (key : U32) := look_register { w with nnet := { w.nnet with
    devKey := Function.update w.nnet.devKey dev key } }
      { dev := dev, ifindex := ifindex, nsh := true, mtu := DEFAULT_MTU } err
  unfold nshNewlink
  dsimp only
  erw [hregister]
  generalize NshWorld.registerNetdevice _ _ err = res
  dsimp only
  split_ifs
  · exact look_visible _ _
  · exact look_visible 0 { res.2 with devList := res.2.devList ++ [dev] }

theorem look_lowerRegister (w : NshWorld) (dev : NetDev) (ifindex : U32) (mtu : ℤ)
    (priv : Option FreshMadcap) : look (w.visible.lowerRegister dev ifindex mtu priv) =
      look (w.lowerRegister dev ifindex mtu priv) := by
  unfold lowerRegister
  rw [look_register]
  generalize w.registerNetdevice _ 0 = res
  dsimp only
  split_ifs
  · exact look_visible _ _
  · exact look_visible 0 { res.2 with madcap := { res.2.madcap with
      lower := Function.update res.2.madcap.lower dev (priv.map FreshMadcap.priv) } }

theorem look_devPathUnset (w : NshWorld) (a : NshAttrs) :
    look (w.visible.nshNlCmdDevPathUnset a) = look (w.nshNlCmdDevPathUnset a) := by
  unfold nshNlCmdDevPathUnset
  cases a.ifindex with
  | none => exact look_visible _ w
  | some ifindex =>
    dsimp only
    rw [visible_devGetByIndex]
    cases w.devGetByIndex ifindex with
    | none => exact look_visible _ w
    | some d =>
      dsimp only
      cases d.nsh with
      | false => exact look_visible _ w
      | true =>
        exact look_visible 0 { w with
          nnet := { w.nnet with devKey := Function.update w.nnet.devKey d.dev 0 } }

/-- What an event makes visible follows from what was visible. -/
theorem look_step (w : NshWorld) (e : Event) :
    Except.map look (w.visible.step env e) = Except.map look (w.step env e) := by
  have hregistered (dev : NetDev) : w.visible.isRegistered dev = w.isRegistered dev := rfl
  have hnetdevs : w.visible.netdevs = w.netdevs := rfl
  unfold NshWorld.step
  cases e with
  | newlink dev ifindex spi si err =>
    refine congrArg Except.ok ?_
    rw [hregistered]
    split_ifs
    · exact look_visible _ w
    · exact look_newlink w dev ifindex spi si err
  | dellink dev =>
    refine congrArg Except.ok ?_
    rw [hnetdevs]
    split_ifs
    · refine congrArg (Prod.mk 0) ?_
      rw [← visible_dellink, visible_visible]
    · exact look_visible _ w
  | pathDstSet a mem => exact congrArg Except.ok (look_pathDstSet w a mem)
  | pathDstUnset a => exact congrArg Except.ok (look_pathDstUnset w a)
  | devPathSet a => exact look_devPathSet w a
  | devPathUnset a => exact congrArg Except.ok (look_devPathUnset w a)
  | lowerRegister dev ifindex mtu priv =>
    refine congrArg Except.ok ?_
    rw [hregistered]
    split_ifs
    · exact look_visible _ w
    · exact look_lowerRegister w dev ifindex mtu priv
  | lowerUnregister dev =>
    refine congrArg Except.ok ?_
    rw [hnetdevs]
    split_ifs
    · refine congrArg (Prod.mk 0) ?_
      rw [← visible_unregister, visible_visible]
    · exact look_visible _ w

/-- Two namespaces in which the same is visible go on alike. -/
theorem look_run (h : w.visible = w'.visible) (es : List Event) :
    Except.map NshWorld.visible (run env w es) = Except.map NshWorld.visible (run env w' es) := by
  induction es generalizing w w' with
  | nil => exact congrArg Except.ok h
  | cons e es ih =>
    have hstep : Except.map look (w.step env e) = Except.map look (w'.step env e) := by
      rw [← look_step w, ← look_step w', h]
    change Except.map _ (next env w e >>= fun w => run env w es) =
      Except.map _ (next env w' e >>= fun w => run env w es)
    unfold next
    cases hw : w.step env e with
    | error err =>
      cases hw' : w'.step env e with
      | error err' =>
        rw [hw, hw'] at hstep
        cases hstep
        rfl
      | ok res' =>
        rw [hw, hw'] at hstep
        cases hstep
    | ok res =>
      cases hw' : w'.step env e with
      | error err' =>
        rw [hw, hw'] at hstep
        cases hstep
      | ok res' =>
        rw [hw, hw'] at hstep
        exact ih (congrArg Prod.snd (Except.ok.inj hstep))

/-- The dump of a path and what a packet on it does are the same in both namespaces: the
record, whether it is offloaded, and the device it leaves by. -/
structure SameChoices (env : NshEnv) (key : U32) (nnet nnet' : NshNet) : Prop where
  record : ∀ index : NetDev → Res U32, (nnet.nshFindTable env key).map (nshNlTableSend index) =
    (nnet'.nshFindTable env key).map (nshNlTableSend index)
  offload : (nnet.nshFindTable env key).map (nshMadcapOn env) =
    (nnet'.nshFindTable env key).map (nshMadcapOn env)
  lowerdev : (nnet.nshFindTable env key).map (fun nt => nt.rdst.bind NshDst.lowerdev) =
    (nnet'.nshFindTable env key).map fun nt => nt.rdst.bind NshDst.lowerdev
  xmit : ∀ dev skb, nnet.devKey dev = key → nnet'.devKey dev = key →
    nshXmit env nnet dev skb = nshXmit env nnet' dev skb

/-- The same holds whatever happens afterwards. -/
def SameLater (env : NshEnv) (key : U32) (w w' : NshWorld) : Prop :=
  ∀ es, match run env w es, run env w' es with
    | .ok v, .ok v' => SameChoices env key v.nnet v'.nnet
    | .error e, .error e' => e = e'
    | _, _ => False

theorem sameChoices_of_visible {nnet' : NshNet} (key : U32) (h : nnet.visible = nnet'.visible) :
    SameChoices env key nnet nnet' := by
  have hfind : (nnet.nshFindTable env key).map NshTable.visible =
      (nnet'.nshFindTable env key).map NshTable.visible := by
    rw [← nshFindTable_visible, ← nshFindTable_visible, h]
  have hmap {β : Type} {f : NshTable → β} (hf : ∀ nt : NshTable, f nt.visible = f nt) :
      (nnet.nshFindTable env key).map f = (nnet'.nshFindTable env key).map f := by
    have hcomp : f ∘ NshTable.visible = f := funext hf
    have heq := congrArg (Option.map f) hfind
    rwa [Option.map_map, Option.map_map, hcomp] at heq
  refine ⟨fun index => hmap fun nt => nshNlTableSend_visible index, hmap fun nt => nshMadcapOn_visible,
    hmap fun nt => nt.visible_lowerdev, fun dev skb _ _ => ?_⟩
  calc nshXmit env nnet dev skb = nshXmit env nnet.visible dev skb := (nshXmit_visible dev skb).symm
    _ = nshXmit env nnet'.visible dev skb := by rw [h]
    _ = nshXmit env nnet' dev skb := nshXmit_visible dev skb

theorem sameLater_of_visible (key : U32) (h : w.visible = w'.visible) : SameLater env key w w' := by
  intro es
  have hrun : Except.map NshWorld.visible (run env w es) =
      Except.map NshWorld.visible (run env w' es) := look_run h es
  cases hv : run env w es with
  | error e =>
    cases hv' : run env w' es with
    | error e' =>
      rw [hv, hv'] at hrun
      exact Except.error.inj hrun
    | ok v' =>
      rw [hv, hv'] at hrun
      cases hrun
  | ok v =>
    cases hv' : run env w' es with
    | error e' =>
      rw [hv, hv'] at hrun
      cases hrun
    | ok v' =>
      rw [hv, hv'] at hrun
      exact sameChoices_of_visible key (congrArg NshWorld.nnet (Except.ok.inj hrun))

end NshWorld

/-- The same grants, from memory that held `held`. -/
def NshMem.holding (mem : NshMem) (held : NshDst) : NshMem :=
  { mem with dst := mem.dst.map fun _ => held }

namespace NshWorld

variable {w : NshWorld} {a : NshAttrs} {mem : NshMem} {held held' : NshDst}

section

variable {key : U32} {mdtype : U8}

theorem addTable_visible_congr {encapType : U8} {rdev : Option NetDev} {rdst rdst' : Option NshDst}
    (granted : Bool) (h : granted = true →
      rdst.map (NshDst.visible encapType) = rdst'.map (NshDst.visible encapType)) :
    (w.nshAddTable env key mdtype encapType rdev rdst granted).2.visible =
      (w.nshAddTable env key mdtype encapType rdev rdst' granted).2.visible := by
  rw [nshAddTable_eq, nshAddTable_eq, visible_withEntry, visible_withEntry]
  cases granted with
  | false => rfl
  | true =>
    have hentry : (nshEntry key mdtype encapType rdev rdst).visible =
        (nshEntry key mdtype encapType rdev rdst').visible := by
      unfold NshTable.visible nshEntry
      rw [h rfl]
    rw [hentry]

theorem pathDstSetVxlan_holding (h : mem.table = true → a.ifindex.isSome = true) :
    (w.pathDstSetVxlan env a key mdtype (mem.holding held)).2.visible =
      (w.pathDstSetVxlan env a key mdtype (mem.holding held')).2.visible := by
  unfold pathDstSetVxlan NshMem.holding
  cases a.encap with
  | none => rfl
  | some encap =>
    cases a.remote with
    | none => rfl
    | some remote =>
      cases mem.dst with
      | none => rfl
      | some _ =>
        cases hifindex : a.ifindex with
        | none =>
          apply addTable_visible_congr
          intro hgranted
          rw [hifindex] at h
          exact absurd (h hgranted) Bool.false_ne_true
        | some ifindex =>
          dsimp only [Option.map_some]
          split
          · rfl
          · split
            · rfl
            · exact addTable_visible_congr _ fun _ => rfl

theorem pathDstSetEther_holding :
    (w.pathDstSetEther env a key mdtype (mem.holding held)).2.visible =
      (w.pathDstSetEther env a key mdtype (mem.holding held')).2.visible := by
  unfold pathDstSetEther NshMem.holding
  cases a.ifindex with
  | none => rfl
  | some ifindex =>
    cases a.ethaddr with
    | none => rfl
    | some ethAddr =>
      cases mem.dst with
      | none => rfl
      | some _ =>
        dsimp only [Option.map_some]
        split
        · rfl
        · split
          · rfl
          · exact addTable_visible_congr _ fun _ => rfl

end

theorem pathDstSet_holding (h : mem.table = true → a.encap = some NSH_ENCAP_TYPE_VXLAN →
      a.ifindex.isSome = true) :
    (w.nshNlCmdPathDstSet env a (mem.holding held)).2.visible =
      (w.nshNlCmdPathDstSet env a (mem.holding held')).2.visible := by
  unfold nshNlCmdPathDstSet
  split
  · dsimp only
    split
    · rfl
    · split_ifs with hnone hvxlan hether
      · rfl
      · have hencap := encap_eq_of_getD hvxlan (by decide)
        exact pathDstSetVxlan_holding fun hgranted => h hgranted hencap
      · exact pathDstSetEther_holding
      · rfl
  · rfl

theorem Asks.holding {encap : U8} {rdev : Option NetDev} {rdst : Option NshDst} (held : NshDst)
    (h : w.Asks a mem.dst encap rdev rdst) :
    ∃ rdst', w.Asks a (mem.holding held).dst encap rdev rdst' := by
  have hmap {d : NshDst} (hd : mem.dst = some d) : (mem.holding held).dst = some held := by
    unfold NshMem.holding
    rw [hd]
    rfl
  cases h with
  | none hencap hifindex hd hnsh => exact ⟨_, .none hencap hifindex hd hnsh⟩
  | unlinked hencap hremote hdst hifindex => exact ⟨_, .unlinked hencap hremote (hmap hdst) hifindex⟩
  | vxlan hencap hremote hdst hifindex hd hnsh =>
    exact ⟨_, .vxlan hencap hremote (hmap hdst) hifindex hd hnsh⟩
  | ether hencap hifindex heth hd hnsh hdst =>
    exact ⟨_, .ether hencap hifindex heth hd hnsh (hmap hdst)⟩

theorem accepted_holding (h : (w.nshNlCmdPathDstSet env a mem).1 = 0) (held : NshDst) :
    (w.nshNlCmdPathDstSet env a (mem.holding held)).1 = 0 := by
  obtain ⟨spi, si, encap, rdev, rdst, hspi, hsi, hfree, hasks, -, -⟩ := accepted_asks h
  obtain ⟨rdst', hasks'⟩ := hasks.holding held
  have hends := nshNlCmdPathDstSet_ends env w a (mem.holding held)
  generalize w.nshNlCmdPathDstSet env a (mem.holding held) = res at hends ⊢
  cases hends with
  | refused hcode hasked => exact absurd ⟨spi, si, hspi, hsi, hfree, _, _, _, hasks'⟩ hasked
  | leaked hcode hlink => exact absurd hlink hasks'.not_badLink
  | stored => rfl

/-- Without a link the entry has whatever lower device memory held. -/
theorem linkless_lowerdev (h : (w.nshNlCmdPathDstSet env a mem).1 = 0) (hgranted : mem.table = true)
    (hencap : a.encap = some NSH_ENCAP_TYPE_VXLAN) (hifindex : a.ifindex = none) (held : NshDst) :
    ((w.nshNlCmdPathDstSet env a (mem.holding held)).2.nnet.nshFindTable env
      (linkKey a.spi a.si)).map (fun nt => nt.rdst.bind NshDst.lowerdev) = some held.lowerdev := by
  obtain ⟨spi, si, encap, rdev, rdst, hspi, hsi, -, hasks, hentry, -⟩ :=
    accepted_asks (accepted_holding h held)
  have htable : (mem.holding held).table = true := hgranted
  have hkey : linkKey a.spi a.si = nshKey spi si := by
    rw [hspi, hsi]
    rfl
  rw [hkey, hentry, if_pos htable, Option.map_some]
  cases hasks with
  | none hnone =>
    exact absurd hencap (ne_encap_of_none hnone (by decide))
  | unlinked _ _ hdst _ =>
    obtain ⟨d, -, rfl⟩ := Option.map_eq_some_iff.mp hdst
    rfl
  | vxlan _ _ _ hlink =>
    rw [hifindex] at hlink
    cases hlink
  | ether hether =>
    rw [hencap] at hether
    exact absurd (Option.some.inj hether) (by decide)

/-- What an accepted request leaves does not depend on what memory held, then and later,
exactly when it is not a VXLAN path without a link, or its entry got no memory. -/
theorem destination_from_request_iff (env : NshEnv) (w : NshWorld) (a : NshAttrs) (mem : NshMem)
    (h : (w.nshNlCmdPathDstSet env a mem).1 = 0) :
    (∀ held held', SameLater env (linkKey a.spi a.si)
      (w.nshNlCmdPathDstSet env a (mem.holding held)).2
      (w.nshNlCmdPathDstSet env a (mem.holding held')).2) ↔
    (mem.table = true → a.encap = some NSH_ENCAP_TYPE_VXLAN → a.ifindex.isSome = true) := by
  constructor
  · intro hsame hgranted hencap
    by_contra hlink
    have hifindex : a.ifindex = none := by simpa using hlink
    let held (lowerdev : Option NetDev) : NshDst :=
      { remoteIp := 0, localIp := 0, vni := 0, lowerdev := lowerdev, ethAddr := 0 }
    have hnow := (hsame (held none) (held (some 0)) []).lowerdev
    rw [linkless_lowerdev h hgranted hencap hifindex, linkless_lowerdev h hgranted hencap hifindex] at hnow
    cases hnow
  · intro hlink held held'
    exact sameLater_of_visible _ (pathDstSet_holding hlink)

/-- The same path over a link is as it was asked for. -/
theorem destination_from_request_linked : ∃ w, run plainEnv init [lowerEvent] = .ok w ∧
    ∀ held held', SameLater plainEnv (nshKey 1 1)
      (w.nshNlCmdPathDstSet plainEnv { linklessRequest with ifindex := some 2 }
        ((heldMemory none).holding held)).2
      (w.nshNlCmdPathDstSet plainEnv { linklessRequest with ifindex := some 2 }
        ((heldMemory none).holding held')).2 :=
  ⟨_, rfl, (destination_from_request_iff plainEnv _ { linklessRequest with ifindex := some 2 }
    (heldMemory none) rfl).mpr fun _ _ => rfl⟩

/-- With offload on, what memory held decides whether a linkless path is offloaded. -/
theorem destination_from_memory : ¬ ∀ (env : NshEnv) (w : NshWorld) (a : NshAttrs) (mem : NshMem),
    (w.nshNlCmdPathDstSet env a mem).1 = 0 →
    ∀ held held', SameLater env (linkKey a.spi a.si)
      (w.nshNlCmdPathDstSet env a (mem.holding held)).2
      (w.nshNlCmdPathDstSet env a (mem.holding held')).2 := by
  intro h
  have hnow := (h plainEnv init linklessRequest (heldMemory none) rfl
    { remoteIp := 0, localIp := 0, vni := 0, lowerdev := none, ethAddr := 0 }
    { remoteIp := 0, localIp := 0, vni := 0, lowerdev := some 0, ethAddr := 0 } []).offload
  exact absurd hnow (by decide)

end NshWorld

end Madcap
