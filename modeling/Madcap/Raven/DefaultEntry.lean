import Madcap.Raven.Table
import Madcap.Raven.Transmit
import Madcap.Sfmc.Emission

/-!
# The default entry

Every driver looks a packet's identifier up and has a second lookup for packets
whose identifier is not in the table. In raven and in ixgbe the second lookup is
for the entry with identifier 0. In e1000 it is the first one again.
-/

namespace Madcap

/-- The entry that the configuration promises: the identifier's, else that of 0. -/
def LocatorMap.withDefault (m : LocatorMap) (id : U64) : Option ObjEntry := (m id).or (m 0)

def RavenDev.locators (env : Env) (r : RavenDev) : LocatorMap := fun id =>
  (r.ravenTableFind env id).map RavenTable.oe

namespace Sfmc

def locator (env : Env) (s : Sfmc) (skb : SkBuff) : Option SfmcTable :=
  let id := extractIdFromPacket skb s.oc
  (s.sfmcTableFind env id).or (s.sfmcTableFind env 0)

def e1000Locator (env : Env) (s : Sfmc) (skb : SkBuff) : Option SfmcTable :=
  let id := extractIdFromPacket skb s.oc
  (s.sfmcTableFind env id).or (s.sfmcTableFind env id)

variable {env : Env} {s : Sfmc} {skb : SkBuff}

/-- The rest of the ixgbe driver's `sfmc_encap_packet` goes by the `locator` alone, and without
one the packet is not encapsulated. -/
theorem encapCached_locator : s.encapCached env skb = (
    match s.locator env skb with
    | none => return (-ENOENT, skb, s)
    | some st =>
      match st.fib with
      | some sf => s.encapWith skb st.oe sf
      | none => do
        let fib ← s.sfmcFibFindBest st.oe.dst 32
        let s := s.sfmcTableCache env st.oe.id fib
        match fib with
        | none => return (-ENOENT, skb, s)
        | some sf => s.encapWith skb st.oe sf) := rfl

theorem e1000SfmcEncapPacket_locator (h : s.Acquires env skb) :
    s.e1000SfmcEncapPacket env skb = (
      match s.e1000Locator env skb with
      | none => return (-ENOENT, skb, s)
      | some st => do
        match ← s.sfmcFibFindBest st.oe.dst 32 with
        | none => return (-ENOENT, skb, s)
        | some sf => s.encapWith skb st.oe sf) := by
  unfold e1000SfmcEncapPacket
  rw [if_pos (Bool.and_eq_true_iff.mpr h)]
  rfl

end Sfmc

/-- A device of each driver, raven, ixgbe and e1000, with the same table and the same
configuration. -/
structure SameLocators (env : Env) (m : LocatorMap) (oc : ObjConfig) (r : RavenDev)
    (s s' : Sfmc) : Prop where
  raven_table : r.locators env = m
  ixgbe_table : s.locators env = m
  e1000_table : s'.locators env = m
  raven_oc : r.oc.fields = oc
  ixgbe_oc : s.oc = oc
  e1000_oc : s'.oc = oc

/-- All three choose the entry that is promised. -/
structure ChooseAlike (env : Env) (m : LocatorMap) (oc : ObjConfig) (r : RavenDev)
    (s s' : Sfmc) (skb : SkBuff) : Prop where
  raven : (r.locator env (extractIdFromPacket skb r.oc.fields)).map RavenTable.oe =
    m.withDefault (extractIdFromPacket skb oc)
  ixgbe : (s.locator env skb).map SfmcTable.oe = m.withDefault (extractIdFromPacket skb oc)
  e1000 : (s'.e1000Locator env skb).map SfmcTable.oe =
    m.withDefault (extractIdFromPacket skb oc)

section

variable {env : Env} {m : LocatorMap} {oc : ObjConfig} {r : RavenDev} {s s' : Sfmc}
  {skb : SkBuff}

theorem option_or_eq_left_iff {α : Type*} {a b : Option α} : a = a.or b ↔ a ≠ none ∨ b = none := by
  cases a with
  | none =>
    rw [Option.none_or]
    exact ⟨fun h => .inr h.symm, fun h => (h.resolve_left (fun h => h rfl)).symm⟩
  | some a => simp

theorem SameLocators.raven (h : SameLocators env m oc r s s') (id : U64) :
    (r.locator env id).map RavenTable.oe = m.withDefault id := by
  rw [← h.raven_table, RavenDev.locator, Option.map_or]
  rfl

theorem SameLocators.ixgbe (h : SameLocators env m oc r s s') :
    (s.locator env skb).map SfmcTable.oe =
      m.withDefault (extractIdFromPacket skb oc) := by
  rw [← h.ixgbe_table, ← h.ixgbe_oc, Sfmc.locator, Option.map_or]
  rfl

theorem SameLocators.e1000 (h : SameLocators env m oc r s s') :
    (s'.e1000Locator env skb).map SfmcTable.oe = m (extractIdFromPacket skb oc) := by
  rw [← h.e1000_table, ← h.e1000_oc, Sfmc.e1000Locator, Option.or_self]
  rfl

/-- The drivers agree on a packet if and only if its identifier has an entry or there is no
default entry. -/
theorem drivers_choose_alike_iff (h : SameLocators env m oc r s s') (skb : SkBuff) :
    ChooseAlike env m oc r s s' skb ↔
      m (extractIdFromPacket skb oc) ≠ none ∨ m 0 = none := by
  rw [← option_or_eq_left_iff]
  constructor
  · intro hall
    exact h.e1000.symm.trans hall.e1000
  · intro heq
    refine ⟨?_, h.ixgbe, h.e1000.trans heq⟩
    rw [h.raven_oc]
    exact h.raven _

end

def defaultEntry : ObjEntry where
  obj := { id := MADCAP_OBJ_ID_LLT_ENTRY, tbId := 0 }
  id := 0
  dst := 0x0200000A

def threeEntries : List ObjEntry :=
  [{ defaultEntry with id := 7, dst := 0x0400000A }, defaultEntry,
    { defaultEntry with id := 5, dst := 0x0300000A }]

def threeLocators : LocatorMap := fun id => threeEntries.find? fun oe => oe.id == id

def ravenWithDefault (env : Env) : RavenDev :=
  threeEntries.foldr (fun oe r => (r.ravenLltEntryAdd env oe true).2)
    (ravenSetup.ravenLltCfg { fields := offsetConfig 0, hole := 0, hole' := 0 }).2

def sfmcWithDefault (env : Env) : Sfmc :=
  threeEntries.foldr (fun oe s => (s.sfmcLltEntryAdd env oe).2)
    ((sfmcInit 0 (freshZone fun _ => true)).sfmcLltCfg (offsetConfig 0)).2

theorem sameLocators_default : SameLocators oneBucket threeLocators (offsetConfig 0)
    (ravenWithDefault oneBucket) (sfmcWithDefault oneBucket)
    (sfmcWithDefault oneBucket) := by
  have hsfmc : (sfmcWithDefault oneBucket).locators oneBucket = threeLocators := by
    funext id
    change ((threeEntries.map fun oe => { oe := oe, fib := none : SfmcTable }).find?
      fun st => st.oe.id == id).map SfmcTable.oe = threeEntries.find? fun oe => oe.id == id
    rw [List.find?_map, Option.map_map]
    exact Option.map_id'
  have hraven : (ravenWithDefault oneBucket).locators oneBucket = threeLocators := by
    funext id
    change ((threeEntries.map RavenTable.mk).find? fun rt => id == rt.oe.id).map RavenTable.oe =
      threeEntries.find? fun oe => oe.id == id
    rw [List.find?_map, Option.map_map]
    simp only [BEq.comm (a := id)]
    exact Option.map_id'
  exact ⟨hraven, hsfmc, hsfmc, rfl, rfl, rfl⟩

/-- The drivers agree on a packet whose identifier has an entry of its own. -/
theorem drivers_choose_alike_found : ChooseAlike oneBucket threeLocators (offsetConfig 0)
    (ravenWithDefault oneBucket) (sfmcWithDefault oneBucket) (sfmcWithDefault oneBucket)
    { shortPacket with data := List.replicate 4 0 ++ 5 :: List.replicate 55 0 } :=
  (drivers_choose_alike_iff sameLocators_default _).mpr (.inl (by decide))

/-- A packet whose identifier is not in the table is not encapsulated by e1000, though there is
a default entry. -/
theorem e1000_has_no_default :
    SameLocators oneBucket threeLocators (offsetConfig 0) (ravenWithDefault oneBucket)
      (sfmcWithDefault oneBucket) (sfmcWithDefault oneBucket) ∧
    ¬ ChooseAlike oneBucket threeLocators (offsetConfig 0) (ravenWithDefault oneBucket)
      (sfmcWithDefault oneBucket) (sfmcWithDefault oneBucket)
      { shortPacket with data := List.replicate 60 1 } :=
  ⟨sameLocators_default, fun h => absurd h.e1000 (by decide)⟩

end Madcap
