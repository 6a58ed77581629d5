import Madcap.Foundation.Buckets
import Madcap.Sfmc.Outcome

/-!
# The locator table as a map

The hashed table of the device behaves like a finite map from identifiers to
entries, whatever the hash function does.
-/

namespace Madcap

/-- The operations that put entries in the locator table or take them out. -/
inductive TableOp where
  | add (oe : ObjEntry)
  | del (oe : ObjEntry)
  | destroy
  deriving DecidableEq, Repr

/-- What the table is for: a map from identifiers to entries. -/
abbrev LocatorMap := U64 → Option ObjEntry

/-- The operations on the map, with their return codes. -/
def LocatorMap.step (m : LocatorMap) : TableOp → ℤ × LocatorMap
  | .add oe => if (m oe.id).isSome then (-EEXIST, m) else (0, Function.update m oe.id (some oe))
  | .del oe => if (m oe.id).isSome then (0, Function.update m oe.id none) else (-ENOENT, m)
  | .destroy => (0, fun _ => none)

/-- One operation and its return code, in a log that keeps the destination of the last
successful add of `id` that was not followed by its removal. -/
def logged (id : U64) (last : Option U32) : TableOp × ℤ → Option U32
  | (.add oe, err) => if oe.id = id ∧ err = 0 then some oe.dst else last
  | (.del oe, _) => if oe.id = id then none else last
  | (.destroy, _) => none

def lastAdd (log : List (TableOp × ℤ)) (id : U64) : Option U32 := log.foldl (logged id) none

namespace LocatorMap

theorem step_logged (m : LocatorMap) (op : TableOp) (id : U64) :
    ((m.step op).2 id).map ObjEntry.dst = logged id ((m id).map ObjEntry.dst) (op, (m.step op).1) := by
  cases op with
  | add oe =>
    simp only [step]
    by_cases hsome : (m oe.id).isSome = true
    · have hfail : ¬ (oe.id = id ∧ -EEXIST = 0) := fun h => absurd h.2 (by decide)
      rw [if_pos hsome, logged, if_neg hfail]
    · rw [if_neg hsome]
      simp only [logged]
      by_cases hid : oe.id = id
      · rw [if_pos ⟨hid, trivial⟩, ← hid, Function.update_self]
        rfl
      · rw [Function.update_of_ne (Ne.symm hid), if_neg (fun h => hid h.1)]
  | del oe =>
    simp only [step, logged]
    by_cases hid : oe.id = id
    · subst hid
      rw [if_pos rfl]
      by_cases hsome : (m oe.id).isSome = true
      · rw [if_pos hsome]
        simp only [Function.update_self, Option.map_none]
      · rw [if_neg hsome]
        simp only [Option.not_isSome_iff_eq_none.mp hsome, Option.map_none]
    · rw [if_neg hid]
      split_ifs
      · simp only [Function.update_of_ne (Ne.symm hid)]
      · rfl
  | destroy => rfl

theorem answers_logged (m : LocatorMap) (ops : List TableOp) (id : U64) :
    ((answers step m ops).2 id).map ObjEntry.dst =
      (ops.zip (answers step m ops).1).foldl (logged id) ((m id).map ObjEntry.dst) := by
  induction ops generalizing m with
  | nil => rfl
  | cons op ops ih =>
    rw [answers, List.zip_cons_cons, List.foldl_cons, ← step_logged]
    exact ih (m.step op).2

end LocatorMap

namespace Sfmc

def tableStep (env : Env) (s : Sfmc) : TableOp → ℤ × Sfmc
  | .add oe => s.sfmcLltEntryAdd env oe
  | .del oe => s.sfmcLltEntryDel env oe
  | .destroy => (0, s.sfmcTableDestroy)

def locators (env : Env) (s : Sfmc) : LocatorMap := fun id =>
  (s.sfmcTableFind env id).map SfmcTable.oe

def TableOk (env : Env) (s : Sfmc) : Prop :=
  Buckets.Ok env.hash64 (fun st : SfmcTable => st.oe.id) s.sfmcTable

/-- Allocations of the device succeed from now on. -/
def Granted (s : Sfmc) : Prop := ∀ n, s.fibTree.grants n = true

variable {env : Env} {s : Sfmc} {oe : ObjEntry} {id : U64}

theorem sfmcTableFind_eq : s.sfmcTableFind env id =
    Buckets.find env.hash64 (fun st : SfmcTable => st.oe.id) s.sfmcTable id := rfl

theorem sfmcTableAdd_table : (s.sfmcTableAdd env oe).sfmcTable =
    Buckets.insert env.hash64 (fun st : SfmcTable => st.oe.id) s.sfmcTable
      { oe := oe, fib := none } := rfl

theorem sfmcTableDelete_table : (s.sfmcTableDelete env id).sfmcTable =
    Buckets.erase env.hash64 (fun st : SfmcTable => st.oe.id) s.sfmcTable id := rfl

/-- With an allocation an unknown identifier is added, and nothing else happens. -/
theorem sfmcLltEntryAdd_cases (hg : s.Granted) (env : Env) (oe : ObjEntry) :
    ((s.sfmcTableFind env oe.id).isSome = true ∧ s.sfmcLltEntryAdd env oe = (-EEXIST, s)) ∨
    (s.sfmcTableFind env oe.id = none ∧
      s.sfmcLltEntryAdd env oe = (0, s.requested.sfmcTableAdd env oe)) := by
  unfold sfmcLltEntryAdd
  cases h : s.sfmcTableFind env oe.id with
  | some st => exact .inl ⟨rfl, rfl⟩
  | none =>
    rw [kmalloc_eq, hg s.fibTree.requests]
    exact .inr ⟨rfl, rfl⟩

theorem sfmcLltEntryDel_cases (s : Sfmc) (env : Env) (oe : ObjEntry) :
    ((s.sfmcTableFind env oe.id).isSome = true ∧
      s.sfmcLltEntryDel env oe = (0, s.sfmcTableDelete env oe.id)) ∨
    (s.sfmcTableFind env oe.id = none ∧ s.sfmcLltEntryDel env oe = (-ENOENT, s)) := by
  unfold sfmcLltEntryDel
  cases h : s.sfmcTableFind env oe.id with
  | some st => exact .inl ⟨rfl, rfl⟩
  | none => exact .inr ⟨rfl, rfl⟩

theorem find_add (s : Sfmc) (env : Env) (oe : ObjEntry) (id : U64) :
    (s.sfmcTableAdd env oe).sfmcTableFind env id =
      if oe.id = id then some { oe := oe, fib := none } else s.sfmcTableFind env id := by
  rw [sfmcTableFind_eq, sfmcTableAdd_table, Buckets.find_insert]
  rfl

theorem TableOk.find_delete (h : s.TableOk env) (id' : U64) :
    (s.sfmcTableDelete env id').sfmcTableFind env id =
      if id' = id then none else s.sfmcTableFind env id := by
  rw [sfmcTableFind_eq, sfmcTableDelete_table, Buckets.Ok.find_erase h]
  rfl

theorem find_destroy (s : Sfmc) (env : Env) (id : U64) :
    s.sfmcTableDestroy.sfmcTableFind env id = none := by
  rw [sfmcTableFind_eq, sfmcTableDestroy_table]
  rfl

/-- Every chain holds the same entries, whatever routes are cached with them. -/
def SameEntries (s s' : Sfmc) : Prop :=
  ∀ n, (s'.sfmcTable n).map SfmcTable.oe = (s.sfmcTable n).map SfmcTable.oe

theorem SameEntries.tableOk {s' : Sfmc} (h : s.SameEntries s') (hs : s.TableOk env) :
    s'.TableOk env :=
  Buckets.Ok.congr hs (fun _ => rfl) h

theorem SameEntries.locators {s' : Sfmc} (h : s.SameEntries s') :
    s'.locators env = s.locators env :=
  funext (Buckets.find_congr (fun _ => rfl) h)

theorem Granted.tableStep (hg : s.Granted) (env : Env) (op : TableOp) :
    (s.tableStep env op).2.Granted := by
  cases op with
  | add oe =>
    simp only [Sfmc.tableStep]
    rcases sfmcLltEntryAdd_cases hg env oe with ⟨-, heq⟩ | ⟨-, heq⟩ <;> rw [heq] <;> exact hg
  | del oe =>
    simp only [Sfmc.tableStep]
    rcases s.sfmcLltEntryDel_cases env oe with ⟨-, heq⟩ | ⟨-, heq⟩ <;> rw [heq] <;> exact hg
  | destroy => exact hg

theorem TableOk.tableStep (h : s.TableOk env) (hg : s.Granted) (op : TableOp) :
    (s.tableStep env op).2.TableOk env := by
  cases op with
  | add oe =>
    simp only [Sfmc.tableStep]
    rcases sfmcLltEntryAdd_cases hg env oe with ⟨-, heq⟩ | ⟨hnone, heq⟩
    · rw [heq]
      exact h
    · rw [heq]
      have hfind : Buckets.find env.hash64 (fun st : SfmcTable => st.oe.id) s.sfmcTable
          ({ oe := oe, fib := none } : SfmcTable).oe.id = none := hnone
      exact Buckets.Ok.insert h hfind
  | del oe =>
    simp only [Sfmc.tableStep]
    rcases s.sfmcLltEntryDel_cases env oe with ⟨-, heq⟩ | ⟨-, heq⟩
    · rw [heq]
      exact Buckets.Ok.erase h oe.id
    · rw [heq]
      exact h
  | destroy =>
    unfold TableOk
    simp only [Sfmc.tableStep, sfmcTableDestroy_table]
    exact Buckets.Ok.empty

/-- One operation on the table is the operation on the map. -/
theorem tableStep_refines (h : s.TableOk env) (hg : s.Granted) (op : TableOp) :
    (s.tableStep env op).1 = ((s.locators env).step op).1 ∧
      (s.tableStep env op).2.locators env = ((s.locators env).step op).2 := by
  have hisSome (id : U64) : (s.locators env id).isSome = (s.sfmcTableFind env id).isSome :=
    Option.isSome_map
  cases op with
  | add oe =>
    simp only [Sfmc.tableStep, LocatorMap.step, hisSome]
    rcases sfmcLltEntryAdd_cases hg env oe with ⟨hsome, heq⟩ | ⟨hnone, heq⟩
    · rw [heq, if_pos hsome]
      exact ⟨rfl, rfl⟩
    · rw [heq, if_neg (by rw [hnone]; decide)]
      refine ⟨rfl, funext fun id => ?_⟩
      change ((s.requested.sfmcTableAdd env oe).sfmcTableFind env id).map SfmcTable.oe =
        Function.update (s.locators env) oe.id (some oe) id
      rw [find_add]
      by_cases hid : oe.id = id
      · rw [if_pos hid, ← hid, Function.update_self]
        rfl
      · rw [if_neg hid, Function.update_of_ne (Ne.symm hid)]
        rfl
  | del oe =>
    simp only [Sfmc.tableStep, LocatorMap.step, hisSome]
    rcases s.sfmcLltEntryDel_cases env oe with ⟨hsome, heq⟩ | ⟨hnone, heq⟩
    · rw [heq, if_pos hsome]
      refine ⟨rfl, funext fun id => ?_⟩
      change ((s.sfmcTableDelete env oe.id).sfmcTableFind env id).map SfmcTable.oe =
        Function.update (s.locators env) oe.id none id
      rw [h.find_delete]
      by_cases hid : oe.id = id
      · rw [if_pos hid, ← hid, Function.update_self]
        rfl
      · rw [if_neg hid, Function.update_of_ne (Ne.symm hid)]
        rfl
    · rw [heq, if_neg (by rw [hnone]; decide)]
      exact ⟨rfl, rfl⟩
  | destroy =>
    refine ⟨rfl, funext fun id => ?_⟩
    simp only [locators, Sfmc.tableStep, find_destroy, LocatorMap.step, Option.map_none]

/-- A table that is as it should be, on a device whose allocations succeed. -/
def TableReady (env : Env) (s : Sfmc) : Prop := s.TableOk env ∧ s.Granted

theorem tableReady_init (env : Env) (permAddr : Mac) :
    (sfmcInit permAddr (freshZone fun _ => true)).TableReady env :=
  ⟨Buckets.Ok.empty, fun _ => rfl⟩

theorem TableReady.next (h : s.TableReady env) (op : TableOp) :
    (s.tableStep env op).2.TableReady env :=
  ⟨TableOk.tableStep h.1 h.2 op, Granted.tableStep h.2 env op⟩

theorem TableReady.answers (h : s.TableReady env) (ops : List TableOp) :
    (answers (tableStep env) s ops).2.TableReady env :=
  answers_invariant (fun _ op hs => hs.next op) h ops

theorem TableReady.refines (h : s.TableReady env) (ops : List TableOp) :
    (Madcap.answers (tableStep env) s ops).1 = (Madcap.answers LocatorMap.step (s.locators env) ops).1 ∧
      (Madcap.answers (tableStep env) s ops).2.locators env =
        (Madcap.answers LocatorMap.step (s.locators env) ops).2 := by
  have hstep : ∀ (s : Sfmc) (m : LocatorMap) (op : TableOp),
      s.TableReady env ∧ s.locators env = m → (s.tableStep env op).1 = (m.step op).1 ∧
        (s.tableStep env op).2.TableReady env ∧ (s.tableStep env op).2.locators env = (m.step op).2 := by
    rintro s m op ⟨hs, rfl⟩
    obtain ⟨herr, hnext⟩ := tableStep_refines hs.1 hs.2 op
    exact ⟨herr, hs.next op, hnext⟩
  obtain ⟨herrs, -, hlast⟩ := answers_simulation hstep ⟨h, rfl⟩ ops
  exact ⟨herrs, hlast⟩

/-- The table holds each identifier once and in its bucket, and requests act on it as on a
map: an add of an identifier that is mapped and a delete of one that is not fail and change
nothing, and otherwise they change what is found for their identifier and no other. -/
structure ActsAsMap (env : Env) (s : Sfmc) : Prop where
  placed : ∀ n, ∀ st ∈ s.sfmcTable n, env.hash64 st.oe.id = n
  nodup : (((List.finRange sfmcHashSize).flatMap s.sfmcTable).map fun st => st.oe.id).Nodup
  add_code : ∀ oe, (s.sfmcLltEntryAdd env oe).1 = -EEXIST ↔
    (s.sfmcTableFind env oe.id).isSome = true
  add_mapped : ∀ oe, (s.sfmcTableFind env oe.id).isSome = true → (s.sfmcLltEntryAdd env oe).2 = s
  add_fresh : ∀ oe, s.sfmcTableFind env oe.id = none → (s.sfmcLltEntryAdd env oe).1 = 0 ∧
    ∀ id, (s.sfmcLltEntryAdd env oe).2.sfmcTableFind env id =
      if oe.id = id then some { oe := oe, fib := none } else s.sfmcTableFind env id
  del_code : ∀ oe, (s.sfmcLltEntryDel env oe).1 = -ENOENT ↔ s.sfmcTableFind env oe.id = none
  del_unmapped : ∀ oe, s.sfmcTableFind env oe.id = none → (s.sfmcLltEntryDel env oe).2 = s
  del_mapped : ∀ oe, (s.sfmcTableFind env oe.id).isSome = true →
    (s.sfmcLltEntryDel env oe).1 = 0 ∧ ∀ id, (s.sfmcLltEntryDel env oe).2.sfmcTableFind env id =
      if oe.id = id then none else s.sfmcTableFind env id

theorem TableReady.actsAsMap (h : s.TableReady env) : s.ActsAsMap env where
  placed := h.1.placed
  nodup := Buckets.Ok.nodup h.1 (List.nodup_finRange sfmcHashSize)
  add_code oe := by
    rcases sfmcLltEntryAdd_cases h.2 env oe with ⟨hsome, heq⟩ | ⟨hnone, heq⟩
    · rw [heq]
      exact iff_of_true rfl hsome
    · rw [heq, hnone]
      exact iff_of_false (show ¬ (0 : ℤ) = -EEXIST by decide) Bool.false_ne_true
  add_mapped oe hsome := by
    rcases sfmcLltEntryAdd_cases h.2 env oe with ⟨-, heq⟩ | ⟨hnone, -⟩
    · rw [heq]
    · rw [hnone] at hsome
      cases hsome
  add_fresh oe hnone := by
    rcases sfmcLltEntryAdd_cases h.2 env oe with ⟨hsome, -⟩ | ⟨-, heq⟩
    · rw [hnone] at hsome
      cases hsome
    · rw [heq]
      exact ⟨rfl, s.requested.find_add env oe⟩
  del_code oe := by
    rcases s.sfmcLltEntryDel_cases env oe with ⟨hsome, heq⟩ | ⟨hnone, heq⟩
    · rw [heq]
      refine iff_of_false (show ¬ (0 : ℤ) = -ENOENT by decide) fun hnone => ?_
      rw [hnone] at hsome
      cases hsome
    · rw [heq]
      exact iff_of_true rfl hnone
  del_unmapped oe hnone := by
    rcases s.sfmcLltEntryDel_cases env oe with ⟨hsome, -⟩ | ⟨-, heq⟩
    · rw [hnone] at hsome
      cases hsome
    · rw [heq]
  del_mapped oe hsome := by
    rcases s.sfmcLltEntryDel_cases env oe with ⟨-, heq⟩ | ⟨hnone, -⟩
    · rw [heq]
      exact ⟨rfl, fun id => h.1.find_delete oe.id⟩
    · rw [hnone] at hsome
      cases hsome

/-- The codes and the device after a list of operations on an initialised device whose
allocations succeed. -/
def tableRun (env : Env) (permAddr : Mac) (ops : List TableOp) : List ℤ × Sfmc :=
  answers (tableStep env) (sfmcInit permAddr (freshZone fun _ => true)) ops

/-- After every list of operations the table acts as a map, and it maps an identifier to the
destination of the last successful add that was not followed by a removal. -/
theorem table_refines_map (env : Env) (permAddr : Mac) (ops : List TableOp) :
    (tableRun env permAddr ops).2.ActsAsMap env ∧
    ∀ id, ((tableRun env permAddr ops).2.sfmcTableFind env id).map (fun st => st.oe.dst) =
      lastAdd (ops.zip (tableRun env permAddr ops).1) id := by
  have hready := tableReady_init env permAddr
  refine ⟨(hready.answers ops).actsAsMap, fun id => ?_⟩
  obtain ⟨herrs, hlast⟩ := hready.refines ops
  have hmap := congrArg (fun m : LocatorMap => (m id).map ObjEntry.dst) hlast
  dsimp only [locators] at hmap
  rw [Option.map_map, LocatorMap.answers_logged, ← herrs] at hmap
  exact hmap

end Sfmc

end Madcap
