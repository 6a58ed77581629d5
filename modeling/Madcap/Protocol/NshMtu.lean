import Madcap.Protocol.NshOffload
import Madcap.Protocol.NshRequest

/-!
# The MTU of an nsh device

Assigning a device to a path fits its MTU to the path, if the path has its target by then.
Giving the path its target afterwards leaves the MTU as it is.
-/

namespace Madcap

namespace NshWorld

def mtuAt (w : NshWorld) (dev : NetDev) : Option ℤ :=
  (w.netdevs.find? fun d => d.dev = dev).map NetDevice.mtu

/-- What is left of the underlay's MTU for a path to the target that the request gives it. -/
def pathMtu (w : NshWorld) (a : NshAttrs) : Option ℤ :=
  let hlen : ℤ :=
    if a.mdtype.getD NSH_BASE_MDTYPE1 = NSH_BASE_MDTYPE1 then NSH_MDTYPE1_HLEN
    else NSH_MDTYPE2_0_HLEN
  if a.encap = some NSH_ENCAP_TYPE_VXLAN then some (DEFAULT_MTU - (hlen + VXLAN_HEADROOM))
  else if a.encap = some NSH_ENCAP_TYPE_ETHER then
    (a.ifindex.bind w.devGetByIndex).map fun lowerdev => lowerdev.mtu - (hlen + ETH_HLEN)
  else none

/-- What `eth_change_mtu` stores. -/
def MtuInRange (mtu : ℤ) : Prop := 68 ≤ mtu ∧ mtu ≤ DEFAULT_MTU

/-- The device has one MTU in both states, and it leaves room for the headers of the path if
there is an MTU in range that does. -/
def MtuFits (w : NshWorld) (a : NshAttrs) (dev : NetDev) (w₁ w₂ : NshWorld) : Prop :=
  ∃ mtu, w₁.mtuAt dev = some mtu ∧ w₂.mtuAt dev = some mtu ∧
    ∀ target, w.pathMtu a = some target → MtuInRange target → mtu ≤ target

variable {env : NshEnv} {w w' w₁ w₂ w₁' w₂' : NshWorld} {a b : NshAttrs} {mem mem' : NshMem}
  {dev : NetDev} {d : NetDevice}

theorem Inv.mtuAt (h : w.Inv env) (hd : d ∈ w.netdevs) : w.mtuAt d.dev = some d.mtu := by
  unfold NshWorld.mtuAt
  rw [h.find_dev hd]
  rfl

theorem mtuAt_congr (h : w'.netdevs = w.netdevs) : w'.mtuAt dev = w.mtuAt dev := by
  unfold NshWorld.mtuAt
  rw [h]

theorem ethChangeMtu_mtuAt {mtu : ℤ} (h : w.mtuAt dev = some mtu) (newMtu : ℤ) :
    (MtuInRange newMtu → (w.ethChangeMtu dev newMtu).2.mtuAt dev = some newMtu) ∧
      (¬ MtuInRange newMtu → (w.ethChangeMtu dev newMtu).2.mtuAt dev = some mtu) := by
  unfold MtuInRange NshWorld.ethChangeMtu
  constructor
  · rintro ⟨hlow, hhigh⟩
    rw [if_neg (by omega)]
    unfold NshWorld.mtuAt at h ⊢
    obtain ⟨d, hd, -⟩ := Option.map_eq_some_iff.mp h
    have hdev : d.dev = dev := by simpa using List.find?_some hd
    have hsame : (fun e : NetDevice => decide (e.dev = dev)) ∘
        (fun e => if e.dev = dev then { e with mtu := newMtu } else e) =
        fun e => decide (e.dev = dev) := by
      funext e
      simp only [Function.comp_apply]
      split <;> rfl
    dsimp only
    rw [List.find?_map, hsame, hd, Option.map_some, Option.map_some, if_pos hdev]
  · intro hout
    rw [if_pos (by omega)]
    exact h

theorem devPathSet_mtu (h : w.nshNlCmdDevPathSet env b = .ok (0, w')) :
    ∃ d, b.ifindex.bind w.devGetByIndex = some d ∧ d.nsh = true ∧
      w'.nnet.nshTable = w.nnet.nshTable ∧
      (w.nnet.nshFindTable env (linkKey b.spi b.si) = none → w'.netdevs = w.netdevs) ∧
      ∀ nt, w.nnet.nshFindTable env (linkKey b.spi b.si) = some nt →
        ∃ w₁, w.nshChangeMtuForPath d.dev nt = .ok w₁ ∧ w'.netdevs = w₁.netdevs := by
  obtain ⟨i, d, w₁, hi, hd, hnsh, hfit, rfl⟩ := devPathSet_cases h
  rw [hi, Option.bind_some]
  refine ⟨d, hd, hnsh, ?_⟩
  rcases hfit with ⟨hnone, rfl⟩ | ⟨nt, hnt, hw₁⟩
  · refine ⟨rfl, fun _ => rfl, fun nt hnt => ?_⟩
    rw [hnone] at hnt
    cases hnt
  · have htable : w₁.nnet.nshTable = w.nnet.nshTable :=
      congrArg NshNet.nshTable (nshChangeMtuForPath_mtuOnly hw₁).nnet
    refine ⟨htable, fun hnone => ?_, fun nt' hnt' => ?_⟩
    · rw [hnt] at hnone
      cases hnone
    · obtain rfl := Option.some.inj (hnt.symm.trans hnt')
      exact ⟨w₁, hw₁, rfl⟩

theorem Inv.changeMtu_entry (h : w.Inv env) (hnetdevs : w'.netdevs = w.netdevs) {key : U32}
    {encap : U8} {rdev : Option NetDev} {rdst : Option NshDst}
    (hasks : w.Asks a mem.dst encap rdev rdst)
    (hencap : a.encap = some NSH_ENCAP_TYPE_VXLAN ∨ a.encap = some NSH_ENCAP_TYPE_ETHER) :
    ∃ target, w.pathMtu a = some target ∧
      w'.nshChangeMtuForPath dev
        (nshEntry key (a.mdtype.getD NSH_BASE_MDTYPE1) encap rdev rdst) =
        .ok (w'.ethChangeMtu dev target).2 := by
  have hev : ¬ NSH_ENCAP_TYPE_ETHER = NSH_ENCAP_TYPE_VXLAN := by decide
  unfold pathMtu NshWorld.nshChangeMtuForPath nshEntry
  cases hasks with
  | none hnone =>
    rcases hencap with hvxlan | hether
    · exact absurd hvxlan (ne_encap_of_none hnone (by decide))
    · exact absurd hether (ne_encap_of_none hnone (by decide))
  | unlinked hvxlan =>
    rw [hvxlan]
    exact ⟨_, rfl, rfl⟩
  | vxlan hvxlan =>
    rw [hvxlan]
    exact ⟨_, rfl, rfl⟩
  | ether hether hifindex heth hd hnsh hdst =>
    have hfind := h.find_dev (List.mem_of_find?_eq_some hd)
    rw [hether, hifindex, Option.bind_some, hd]
    simp only [Option.some.injEq, hev, if_false, if_true, Option.map_some, Option.bind_some, hnetdevs,
      hfind]
    exact ⟨_, rfl, rfl⟩

/-- A device that is assigned to a path with its target gets the MTU that fits, if it is in
range. -/
theorem Inv.assigned_mtu (h : w.Inv env)
    (hencap : a.encap = some NSH_ENCAP_TYPE_VXLAN ∨ a.encap = some NSH_ENCAP_TYPE_ETHER)
    (hkey : linkKey a.spi a.si = linkKey b.spi b.si) (hd : b.ifindex.bind w.devGetByIndex = some d)
    (hset : w.nshNlCmdPathDstSet env a mem = (0, w₁))
    (hassign : w₁.nshNlCmdDevPathSet env b = .ok (0, w')) :
    ∃ target, w.pathMtu a = some target ∧
      (mem.table = true → MtuInRange target → w'.mtuAt d.dev = some target) ∧
      ((mem.table = true → ¬ MtuInRange target) → w'.mtuAt d.dev = some d.mtu) := by
  obtain ⟨spi, si, encap, rdev, rdst, hspi, hsi, -, hasks, hentry, hnetdevs⟩ :=
    accepted_asks (congrArg Prod.fst hset)
  rw [hset] at hentry hnetdevs
  dsimp only at hentry hnetdevs
  have hpath : linkKey b.spi b.si = nshKey spi si := by
    rw [← hkey, hspi, hsi]
    rfl
  have hget : w₁.devGetByIndex = w.devGetByIndex := by
    unfold devGetByIndex
    rw [hnetdevs]
  obtain ⟨d₁, hd₁, -, -, hnone, hsome⟩ := devPathSet_mtu hassign
  rw [hget] at hd₁
  obtain rfl := Option.some.inj (hd.symm.trans hd₁)
  obtain ⟨i, -, hi⟩ := Option.bind_eq_some_iff.mp hd
  have hmtu : w₁.mtuAt d.dev = some d.mtu := by
    rw [mtuAt_congr hnetdevs]
    exact h.mtuAt (List.mem_of_find?_eq_some hi)
  obtain ⟨target, htarget, hchange⟩ := h.changeMtu_entry hnetdevs hasks hencap
  refine ⟨target, htarget, ?_⟩
  rw [hpath, hentry] at hnone hsome
  cases hgranted : mem.table with
  | false =>
    rw [hgranted] at hnone
    refine ⟨fun hno => absurd hno Bool.false_ne_true, fun _ => ?_⟩
    rw [mtuAt_congr (hnone rfl), hmtu]
  | true =>
    rw [hgranted] at hsome
    obtain ⟨w₂, hw₂, hnetdevs₂⟩ := hsome _ rfl
    obtain rfl := Except.ok.inj (hchange.symm.trans hw₂)
    obtain ⟨hin, hout⟩ := ethChangeMtu_mtuAt hmtu target
    rw [mtuAt_congr hnetdevs₂]
    exact ⟨fun _ => hin, fun hno => hout (hno rfl)⟩

/-- A target that comes after the assignment leaves the MTU of the device as it is. -/
theorem Inv.unassigned_mtu (h : w.Inv env) (hfree : w.nnet.nshFindTable env (linkKey b.spi b.si) = none)
    (hd : b.ifindex.bind w.devGetByIndex = some d)
    (hassign : w.nshNlCmdDevPathSet env b = .ok (0, w₁))
    (hset : w₁.nshNlCmdPathDstSet env a mem = (0, w')) : w'.mtuAt d.dev = some d.mtu := by
  obtain ⟨-, -, -, -, hnone, -⟩ := devPathSet_mtu hassign
  obtain ⟨-, -, -, -, -, -, -, -, -, -, hnetdevs⟩ := accepted_asks (congrArg Prod.fst hset)
  rw [hset] at hnetdevs
  obtain ⟨i, -, hi⟩ := Option.bind_eq_some_iff.mp hd
  rw [mtuAt_congr (hnetdevs.trans (hnone hfree))]
  exact h.mtuAt (List.mem_of_find?_eq_some hi)

/-- The device needs no other MTU for the path than it has: there is none in range, or it has
that one, or, when the entry of the path gets no memory, one that fits. -/
def MtuFitted (w : NshWorld) (a : NshAttrs) (mem : NshMem) (d : NetDevice) : Prop :=
  ∀ target, w.pathMtu a = some target → MtuInRange target →
    if mem.table then d.mtu = target else d.mtu ≤ target

/-- In every reachable namespace a request for a tunnel and the assignment of a device to its
path give the device an MTU that fits, and the same one in either order, exactly when the
device needs no other MTU than it has. -/
theorem mtu_order_independent_iff (env : NshEnv) (es : List Event) (w : NshWorld)
    (hrun : run env init es = .ok w) (a b : NshAttrs) (mem mem' : NshMem) (d : NetDevice)
    (hencap : a.encap = some NSH_ENCAP_TYPE_VXLAN ∨ a.encap = some NSH_ENCAP_TYPE_ETHER)
    (hkey : linkKey a.spi a.si = linkKey b.spi b.si)
    (hd : b.ifindex.bind w.devGetByIndex = some d) (w₁ w₁' w₂ w₂' : NshWorld)
    (hset : w.nshNlCmdPathDstSet env a mem = (0, w₁))
    (hassigned : w₁.nshNlCmdDevPathSet env b = .ok (0, w₁'))
    (hassign : w.nshNlCmdDevPathSet env b = .ok (0, w₂))
    (hthen : w₂.nshNlCmdPathDstSet env a mem' = (0, w₂')) :
    MtuFits w a d.dev w₁' w₂' ↔ MtuFitted w a mem d := by
  have hinv : w.Inv env := (inv_init.run es).of_eq_ok hrun
  obtain ⟨spi, si, -, -, -, hspi, hsi, hfree, -⟩ := accepted_asks (congrArg Prod.fst hset)
  have hpath : linkKey b.spi b.si = nshKey spi si := by
    rw [← hkey, hspi, hsi]
    rfl
  have hold := hinv.unassigned_mtu (hpath ▸ hfree) hd hassign hthen
  obtain ⟨target, htarget, hin, hout⟩ := hinv.assigned_mtu hencap hkey hd hset hassigned
  have hunique : ∀ t, w.pathMtu a = some t → t = target :=
    fun t ht => Option.some.inj (ht.symm.trans htarget)
  constructor
  · rintro ⟨mtu, hfirst, hsecond, hfits⟩ t ht hrange
    obtain rfl := hunique t ht
    obtain rfl := Option.some.inj (hold.symm.trans hsecond)
    split
    · next hgranted => exact Option.some.inj (hfirst.symm.trans (hin hgranted hrange))
    · exact hfits t ht hrange
  · intro hfitted
    refine ⟨d.mtu, ?_, hold, fun t ht hrange => ?_⟩
    · by_cases hrange : mem.table = true ∧ MtuInRange target
      · have hsame := hfitted target htarget hrange.2
        rw [if_pos hrange.1] at hsame
        rw [hin hrange.1 hrange.2, hsame]
      · exact hout fun hgranted hr => hrange ⟨hgranted, hr⟩
    · have hsame := hfitted t ht hrange
      split at hsame
      · exact hsame.le
      · exact hsame

def underlayRun (mtu : ℤ) : List Event :=
  [.newlink 1 3 none none 0, .lowerRegister 0 2 mtu none]

def neighbourRequest : NshAttrs :=
  { linklessRequest with
    ifindex := some 2
    encap := some NSH_ENCAP_TYPE_ETHER
    remote := none
    ethaddr := some 7 }

/-- Over a lower device with room for the headers the order does not matter. -/
theorem mtu_order_independent_jumbo : ∃ w w₁ w₂ w₁' w₂',
    run plainNsh init (underlayRun 1538) = .ok w ∧
      w.nshNlCmdPathDstSet plainNsh neighbourRequest (heldMemory none) = (0, w₁) ∧
      w₁.nshNlCmdDevPathSet plainNsh { linklessRequest with ifindex := some 3 } = .ok (0, w₁') ∧
      w.nshNlCmdDevPathSet plainNsh { linklessRequest with ifindex := some 3 } = .ok (0, w₂) ∧
      w₂.nshNlCmdPathDstSet plainNsh neighbourRequest (heldMemory none) = (0, w₂') ∧
      MtuFits w neighbourRequest 1 w₁' w₂' := by
  refine ⟨_, _, _, _, _, rfl, rfl, rfl, rfl, rfl, ?_⟩
  refine (mtu_order_independent_iff plainNsh (underlayRun 1538) _ rfl neighbourRequest
    { linklessRequest with ifindex := some 3 } (heldMemory none) (heldMemory none)
    { dev := 1, ifindex := 3, nsh := true, mtu := DEFAULT_MTU } (.inr rfl) rfl rfl _ _ _ _
    rfl rfl rfl rfl).mpr ?_
  intro target htarget _
  obtain rfl := Option.some.inj htarget
  rfl

/-- A VXLAN path leaves room for its headers only if it has its target when the device is
assigned to it. -/
theorem mtu_depends_on_order : ¬ ∀ (env : NshEnv) (es : List Event) (w : NshWorld),
    run env init es = .ok w → ∀ (a b : NshAttrs) (mem mem' : NshMem) (d : NetDevice),
    a.encap = some NSH_ENCAP_TYPE_VXLAN ∨ a.encap = some NSH_ENCAP_TYPE_ETHER →
    linkKey a.spi a.si = linkKey b.spi b.si → b.ifindex.bind w.devGetByIndex = some d →
    ∀ w₁ w₁' w₂ w₂', w.nshNlCmdPathDstSet env a mem = (0, w₁) →
      w₁.nshNlCmdDevPathSet env b = .ok (0, w₁') → w.nshNlCmdDevPathSet env b = .ok (0, w₂) →
      w₂.nshNlCmdPathDstSet env a mem' = (0, w₂') → MtuFits w a d.dev w₁' w₂' := by
  intro h
  obtain ⟨mtu, hfirst, hsecond, -⟩ := h plainNsh (underlayRun 1500) _ rfl linklessRequest
    { linklessRequest with ifindex := some 3 } (heldMemory none) (heldMemory none)
    { dev := 1, ifindex := 3, nsh := true, mtu := DEFAULT_MTU } (.inl rfl) rfl rfl _ _ _ _
    rfl rfl rfl rfl
  exact absurd (hfirst.trans hsecond.symm) (by decide)

end NshWorld

end Madcap
