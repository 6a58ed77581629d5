import Madcap.Raven.Device
import Madcap.Sfmc.Invariant

/-!
# Reconfiguring the locator table

A configuration request should take effect and flush the table exactly when it
changes something. The sfmc driver compares one byte of the object, the raven
driver compares bytes that belong to no field.
-/

namespace Madcap

/-- The configuration is stored, and the table is emptied exactly on a change. -/
structure Reconfigured {α : Type*} (previous oc got : ObjConfig) (err : ℤ)
    (table table' : Fin sfmcHashSize → List α) : Prop where
  accepted : err = 0
  stored : got = oc
  flushed : oc ≠ previous → ∀ n, table' n = []
  kept : oc = previous → table' = table

namespace Sfmc

/-- One byte decides: a later change of anything else is ignored. -/
theorem reconfigured_iff (s : Sfmc) (oc : ObjConfig) :
    Reconfigured s.oc oc (s.sfmcLltCfg oc).2.sfmcLltConfigGet (s.sfmcLltCfg oc).1 s.sfmcTable
      (s.sfmcLltCfg oc).2.sfmcTable ↔ byteAt s.oc.obj.id 0 ≠ byteAt oc.obj.id 0 ∨ s.oc = oc := by
  unfold sfmcLltCfg
  by_cases hbyte : byteAt oc.obj.id 0 = byteAt s.oc.obj.id 0
  · simp only [hbyte, ne_eq, not_true_eq_false, if_false, false_or, sfmcLltConfigGet]
    constructor
    · intro h
      exact h.stored
    · intro h
      exact ⟨rfl, h, fun hne => absurd h.symm hne, fun _ => rfl⟩
  · have hne : oc ≠ s.oc := fun h => hbyte (by rw [h])
    rw [if_pos hbyte]
    constructor
    · intro _
      exact .inl fun h => hbyte h.symm
    · intro _
      exact ⟨rfl, rfl, fun _ n => congrFun s.sfmcTableDestroy_table n, fun h => absurd h hne⟩

end Sfmc

theorem bytesOf_injective {w n : ℕ} (hw : w = 8 * n) {a b : BitVec w}
    (h : bytesOf n a = bytesOf n b) : a = b := by
  subst hw
  apply eq_of_netBit
  intro i hi
  have hbyte : byteAt a (i / 8) = byteAt b (i / 8) := by
    have hget : (bytesOf n a)[i / 8]? = (bytesOf n b)[i / 8]? := by rw [h]
    rw [bytesOf_getElem? a (by omega), bytesOf_getElem? b (by omega)] at hget
    exact Option.some.inj hget
  have hbit := (byteAt_eq_iff a b (i / 8)).mp hbyte (i % 8) (Nat.mod_lt i (by decide))
  rwa [Nat.div_add_mod] at hbit

theorem ConfigObject.bytes_injective {c d : ConfigObject} (h : c.bytes = d.bytes) : c = d := by
  unfold ConfigObject.bytes at h
  obtain ⟨h, hsrc⟩ := List.append_inj' h (by simp)
  obtain ⟨h, hhole'⟩ := List.append_inj' h (by simp)
  obtain ⟨h, hproto⟩ := List.append_inj' h (by simp)
  obtain ⟨h, hlength⟩ := List.append_inj' h (by simp)
  obtain ⟨h, hoffset⟩ := List.append_inj' h (by simp)
  obtain ⟨h, hhole⟩ := List.append_inj' h (by simp)
  obtain ⟨hid, htb⟩ := List.append_inj' h (by simp)
  have eid := bytesOf_injective (by rfl) hid
  have etb := bytesOf_injective (by rfl) htb
  have ehole := bytesOf_injective (by rfl) hhole
  have eoffset := bytesOf_injective (by rfl) hoffset
  have elength := bytesOf_injective (by rfl) hlength
  have eproto := bytesOf_injective (by rfl) hproto
  have ehole' := bytesOf_injective (by rfl) hhole'
  have esrc := bytesOf_injective (by rfl) hsrc
  obtain ⟨⟨⟨id, tbId⟩, offset, length, proto, src⟩, hole, hole'⟩ := c
  obtain ⟨⟨⟨id₂, tbId₂⟩, offset₂, length₂, proto₂, src₂⟩, hole₂, hole₂'⟩ := d
  simp only at eid etb ehole eoffset elength eproto ehole' esrc
  rw [eid, etb, ehole, eoffset, elength, eproto, ehole', esrc]

namespace RavenDev

theorem destroyBucket_nil (bucket : List RavenTable) : destroyBucket bucket = [] := by
  induction bucket with
  | nil => rfl
  | cons rt bucket ih => exact ih

/-- An unchanged configuration flushes the table when the unused bytes differ. -/
theorem reconfigured_iff (r : RavenDev) (oc : ConfigObject) :
    Reconfigured r.oc.fields oc.fields (r.ravenLltCfg oc).2.ravenLltConfigGet.fields
      (r.ravenLltCfg oc).1 r.ravenTable (r.ravenLltCfg oc).2.ravenTable ↔
    (oc.fields = r.oc.fields → oc = r.oc ∨ ∀ n, r.ravenTable n = []) := by
  unfold ravenLltCfg
  by_cases hbytes : oc.bytes = r.oc.bytes
  · obtain rfl := ConfigObject.bytes_injective hbytes
    rw [if_neg (by simp)]
    constructor
    · intro _ _
      exact .inl rfl
    · intro _
      exact ⟨rfl, rfl, fun h => absurd rfl h, fun _ => rfl⟩
  · rw [if_pos hbytes]
    constructor
    · intro h hsame
      right
      intro n
      rw [← h.kept hsame]
      exact destroyBucket_nil _
    · intro h
      refine ⟨rfl, rfl, fun _ n => destroyBucket_nil _, fun hsame => ?_⟩
      rcases h hsame with heq | hempty
      · exact absurd (congrArg ConfigObject.bytes heq) hbytes
      · funext n
        rw [hempty n]
        exact destroyBucket_nil _

end RavenDev

/-- In every state of either driver, a configuration request takes effect and flushes exactly
on a change if and only if, in sfmc, the stored object is of another kind or is the same
configuration, and in raven an unchanged configuration has the same unused bytes or finds
an empty table. -/
theorem llt_cfg_takes_effect_iff (s : Sfmc) (r : RavenDev) (oc : ConfigObject) :
    (Reconfigured s.oc oc.fields (s.sfmcLltCfg oc.fields).2.sfmcLltConfigGet
        (s.sfmcLltCfg oc.fields).1 s.sfmcTable (s.sfmcLltCfg oc.fields).2.sfmcTable ↔
      byteAt s.oc.obj.id 0 ≠ byteAt oc.fields.obj.id 0 ∨ s.oc = oc.fields) ∧
    (Reconfigured r.oc.fields oc.fields (r.ravenLltCfg oc).2.ravenLltConfigGet.fields
        (r.ravenLltCfg oc).1 r.ravenTable (r.ravenLltCfg oc).2.ravenTable ↔
      (oc.fields = r.oc.fields → oc = r.oc ∨ ∀ n, r.ravenTable n = [])) :=
  ⟨s.reconfigured_iff oc.fields, r.reconfigured_iff oc⟩

def offsetConfig (offset : U16) : ObjConfig where
  obj := { id := MADCAP_OBJ_ID_LLT_CONFIG, tbId := 0 }
  offset := offset
  length := 32
  proto := 17
  src := 0x0100000A

/-- A second configuration of sfmc is ignored. A raven table is lost when the configuration it
was filled under is sent again with other unused bytes. -/
theorem second_cfg_fails :
    (¬ ∀ (env : Env) (permAddr : Mac) (grants : ℕ → Bool) (arp : ArpTable) (es : List Event)
      (w : World) (oc : ObjConfig), (World.init permAddr grants arp).run env es = .ok w →
      oc.obj.id = MADCAP_OBJ_ID_LLT_CONFIG →
      Reconfigured w.sfmc.oc oc (w.sfmc.sfmcLltCfg oc).2.sfmcLltConfigGet (w.sfmc.sfmcLltCfg oc).1
        w.sfmc.sfmcTable (w.sfmc.sfmcLltCfg oc).2.sfmcTable) ∧
    ¬ ∀ (env : Env) (es : List RavenEvent) (r : RavenDev) (oc : ConfigObject),
      ravenSetup.run env es = r → oc.fields.obj.id = MADCAP_OBJ_ID_LLT_CONFIG →
      Reconfigured r.oc.fields oc.fields (r.ravenLltCfg oc).2.ravenLltConfigGet.fields
        (r.ravenLltCfg oc).1 r.ravenTable (r.ravenLltCfg oc).2.ravenTable := by
  constructor
  · intro h
    have hsecond := h { madcapEnable := true, hash64 := fun _ => 0 } 0 (fun _ => true)
      (fun _ => none) [.lltCfg (offsetConfig 8)] _ (offsetConfig 12) rfl rfl
    have hstored : offsetConfig 8 = offsetConfig 12 := hsecond.stored
    exact absurd hstored (by decide)
  · intro h
    have hagain := h { madcapEnable := true, hash64 := fun _ => 0 }
      [.lltCfg { fields := offsetConfig 8, hole := 0, hole' := 0 },
       .lltEntryAdd { obj := { id := MADCAP_OBJ_ID_LLT_ENTRY, tbId := 0 }, id := 0, dst := 0 } true]
      _ { fields := offsetConfig 8, hole := 1, hole' := 0 } rfl rfl
    have hkept := congrArg List.length (congrFun (hagain.kept rfl) 0)
    exact absurd hkept (by decide)

end Madcap
