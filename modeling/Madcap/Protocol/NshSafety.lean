import Madcap.Protocol.NshDump
import Madcap.Protocol.NshOffload

/-!
# Missing targets

An entry has a device or a remote node, never both, and not every remote node has a lower
device. The functions that read an entry must look before they follow a pointer.
-/

namespace Madcap

namespace NshWorld

/-- No handler follows a null pointer: a packet on `dev` is sent or dropped, and each
request and each record is answered, whatever the memory behind other pointers holds. -/
structure FollowsTargets (env : NshEnv) (w : NshWorld) (dev : NetDev) (skb : SkBuff) : Prop where
  xmit : ∃ tx, nshXmit env w.nnet dev skb = .ok tx
  mtu : ∀ nt ∈ w.paths, ∀ d, ∃ w', w.nshChangeMtuForPath d nt = .ok w'
  record : ∀ nt ∈ w.paths, ∀ index : NetDev → U32, ∃ record,
    nshNlTableSend (fun p => .ok (index p)) nt = .ok record
  requests : ∀ e, ∃ res, w.step env e = .ok res

/-- The device has a path to a device of the namespace. -/
def LeadsInside (env : NshEnv) (w : NshWorld) (dev : NetDev) : Prop :=
  ∃ nt, w.nnet.nshFindTable env (w.nnet.devKey dev) = some nt ∧
    nt.encapType = NSH_ENCAP_TYPE_NONE

variable {env : NshEnv} {w : NshWorld} {nt : NshTable} {dev : NetDev} {skb : SkBuff}

theorem Target.tableSend (h : w.Target nt) (index : NetDev → U32) :
    ∃ record, nshNlTableSend (fun p => .ok (index p)) nt = .ok record := by
  unfold nshNlTableSend
  cases h with
  | none dev hencap hrdst hrdev hdev =>
    rw [if_pos hencap, hrdev]
    exact ⟨_, rfl⟩
  | vxlan rdst hencap hrdev hrdst =>
    rw [hencap, if_neg (by decide), if_pos rfl, hrdst]
    dsimp only
    cases rdst.lowerdev with
    | none => exact ⟨_, rfl⟩
    | some lowerdev => exact ⟨_, rfl⟩
  | ether rdst lowerdev hencap hrdev hrdst hlower hreg =>
    rw [hencap, if_neg (by decide), if_neg (by decide), if_pos rfl, hrdst]
    simp only [hlower]
    exact ⟨_, rfl⟩

/-- The offload test reads the remote node of an entry that has none. -/
theorem Target.madcapOn_iff (h : w.Target nt) : (∃ on, nshMadcapOn env nt = .ok on) ↔
    ¬ (env.madcapEnable = true ∧ nt.encapType = NSH_ENCAP_TYPE_NONE) := by
  unfold nshMadcapOn
  cases henable : env.madcapEnable with
  | false =>
    apply iff_of_true ⟨false, rfl⟩
    rintro ⟨hon, -⟩
    cases hon
  | true =>
    simp only [if_true, true_and]
    cases h with
    | none dev hencap hrdst hrdev hdev =>
      rw [hrdst]
      apply iff_of_false
      · rintro ⟨on, hon⟩
        cases hon
      · exact not_not.mpr hencap
    | vxlan rdst hencap hrdev hrdst =>
      rw [hrdst, hencap]
      dsimp only
      apply iff_of_true _ (by decide)
      cases rdst.lowerdev with
      | none => exact ⟨_, rfl⟩
      | some lowerdev => exact ⟨_, rfl⟩
    | ether rdst lowerdev hencap hrdev hrdst hlower hreg =>
      rw [hrdst, hencap]
      simp only [hlower]
      exact iff_of_true ⟨_, rfl⟩ (by decide)

theorem nshXmit_ok_iff : (∃ tx, nshXmit env w.nnet dev skb = .ok tx) ↔
    ∀ nt, w.nnet.nshFindTable env (w.nnet.devKey dev) = some nt →
      ∃ on, nshMadcapOn env nt = .ok on := by
  unfold nshXmit
  cases hfind : w.nnet.nshFindTable env (w.nnet.devKey dev) with
  | none =>
    apply iff_of_true ⟨_, rfl⟩
    intro nt hnt
    cases hnt
  | some nt =>
    dsimp only
    constructor
    · rintro ⟨tx, htx⟩ nt' hnt'
      obtain rfl := Option.some.inj hnt'
      obtain ⟨on, hon, -⟩ := bind_eq_ok.mp htx
      exact ⟨on, hon⟩
    · intro h
      obtain ⟨on, hon⟩ := h nt rfl
      simp only [hon, bind, Except.bind]
      split
      · exact ⟨_, rfl⟩
      · split <;> exact ⟨_, rfl⟩

theorem Inv.xmit_ok_iff (h : w.Inv env) (skb : SkBuff) :
    (∃ tx, nshXmit env w.nnet dev skb = .ok tx) ↔
      ¬ (env.madcapEnable = true ∧ w.LeadsInside env dev) := by
  rw [nshXmit_ok_iff]
  constructor
  · rintro hall ⟨henable, nt, hfind, hencap⟩
    exact (h.found hfind).madcapOn_iff.mp (hall nt hfind) ⟨henable, hencap⟩
  · intro hno nt hfind
    rw [(h.found hfind).madcapOn_iff]
    rintro ⟨henable, hencap⟩
    exact hno ⟨henable, nt, hfind, hencap⟩

/-- In every reachable namespace the handlers follow no null pointer exactly when offload
is off or the path of the sending device does not lead to a device. -/
theorem follows_targets_iff (env : NshEnv) (es : List Event) (w : NshWorld)
    (hrun : run env init es = .ok w) (dev : NetDev) (skb : SkBuff) :
    w.FollowsTargets env dev skb ↔ ¬ (env.madcapEnable = true ∧ w.LeadsInside env dev) := by
  have hinv : w.Inv env := (inv_init.run es).of_eq_ok hrun
  rw [← hinv.xmit_ok_iff skb]
  constructor
  · exact FollowsTargets.xmit
  · intro hxmit
    refine ⟨hxmit, fun nt hnt d => ?_, fun nt hnt => (hinv.target_of_mem hnt).tableSend, fun e => ?_⟩
    · have hmtu := hinv.nshChangeMtuForPath (hinv.target_of_mem hnt) d
      obtain ⟨w', hw', -⟩ := hmtu.exists_ok fun _ => id
      exact ⟨w', hw'⟩
    · obtain ⟨res, hres, -⟩ := (hinv.step e).exists_ok fun _ => id
      exact ⟨res, hres⟩

def insideRun : List Event :=
  [.newlink 1 3 (some 2) (some 2) 0,
    .pathDstSet { linklessRequest with
      ifindex := some 3, spi := some 2, si := some 2, encap := none } (heldMemory none)]

/-- With offload off it may send. -/
theorem follows_targets_offload_off : ∃ w, run plainNsh init insideRun = .ok w ∧
    w.FollowsTargets plainNsh 1 { data := [0, 0], tail := fun _ => 0, fragLen := 0, headroom := 64,
                                  dst := none } := by
  refine ⟨_, rfl, (follows_targets_iff plainNsh insideRun _ rfl 1 _).mpr ?_⟩
  rintro ⟨henable, -⟩
  cases henable

/-- With offload on its first packet reads through a null pointer. -/
theorem inside_path_faults : ¬ ∀ (env : NshEnv) (es : List Event) (w : NshWorld),
    run env init es = .ok w → ∀ dev skb, w.FollowsTargets env dev skb := by
  intro h
  obtain ⟨tx, htx⟩ := (h plainEnv insideRun _ rfl 1
    { data := [0, 0], tail := fun _ => 0, fragLen := 0, headroom := 64, dst := none }).xmit
  cases htx

end NshWorld

end Madcap
