import Madcap.Raven.Device
import Madcap.Sfmc.RouteCache
import Madcap.Sfmc.Table

/-!
# Two locator tables

The raven and the software device take the same requests for their locator tables.
They part at the first add of an identifier that is there already: the raven device
puts a second entry in front of the first.
-/

namespace Madcap

/-- A request for the locator table. -/
inductive LltRequest where
  | entryAdd (oe : ObjEntry)
  | entryDel (oe : ObjEntry)
  deriving DecidableEq, Repr

def RavenDev.lltRequest (env : Env) (r : RavenDev) : LltRequest → ℤ × RavenDev
  | .entryAdd oe => r.ravenLltEntryAdd env oe true
  | .entryDel oe => r.ravenLltEntryDel env oe

def Sfmc.lltRequest (env : Env) (s : Sfmc) : LltRequest → ℤ × Sfmc
  | .entryAdd oe => s.sfmcLltEntryAdd env oe
  | .entryDel oe => s.sfmcLltEntryDel env oe

/-- The codes of a raven device for a list of requests, and the device after them. -/
def ravenRequests (env : Env) (reqs : List LltRequest) : List ℤ × RavenDev :=
  answers (RavenDev.lltRequest env) ravenSetup reqs

/-- The same for a software device whose allocations succeed. -/
def sfmcRequests (env : Env) (permAddr : Mac) (reqs : List LltRequest) : List ℤ × Sfmc :=
  answers (Sfmc.lltRequest env) (sfmcInit permAddr (freshZone fun _ => true)) reqs

/-- The devices answer alike and end with the same destinations. -/
def TablesAgree (env : Env) (permAddr : Mac) (reqs : List LltRequest) : Prop :=
  (ravenRequests env reqs).1 = (sfmcRequests env permAddr reqs).1 ∧
    ∀ id, ((ravenRequests env reqs).2.ravenTableFind env id).map (fun rt => rt.oe.dst) =
      ((sfmcRequests env permAddr reqs).2.sfmcTableFind env id).map (fun st => st.oe.dst)

/-- The last request for `id` is an add. -/
def lastAdded (id : U64) (reqs : List LltRequest) : Bool :=
  reqs.foldl (fun added req =>
    match req with
    | .entryAdd oe => if oe.id = id then true else added
    | .entryDel oe => if oe.id = id then false else added) false

namespace RavenDev

variable {env : Env} {r : RavenDev} {oe : ObjEntry} {id : U64}

/-- The entries for an identifier, the newest first. -/
def stack (env : Env) (r : RavenDev) (id : U64) : List RavenTable :=
  Buckets.stack env.hash64 (fun rt : RavenTable => rt.oe.id) r.ravenTable id

theorem ravenTableFind_eq : r.ravenTableFind env id = (r.stack env id).head? := by
  unfold stack
  rw [← Buckets.find_eq_head?]
  simp only [ravenTableFind, Buckets.find, BEq.comm]

theorem stack_add (oe : ObjEntry) : (r.ravenLltEntryAdd env oe true).2.stack env id =
    if oe.id = id then { oe := oe } :: r.stack env id else r.stack env id := by
  have hinsert : (r.ravenLltEntryAdd env oe true).2.ravenTable =
      Buckets.insert env.hash64 (fun rt : RavenTable => rt.oe.id) r.ravenTable { oe := oe } := rfl
  unfold stack
  rw [hinsert, Buckets.stack_insert]

theorem stack_delete (id' : U64) : (r.ravenTableDelete env id').stack env id =
    if id' = id then (r.stack env id).tail else r.stack env id := by
  have herase : (r.ravenTableDelete env id').ravenTable =
      Buckets.erase env.hash64 (fun rt : RavenTable => rt.oe.id) r.ravenTable id' := by
    simp only [ravenTableDelete, Buckets.erase, BEq.comm]
  unfold stack
  rw [herase, Buckets.stack_erase]

end RavenDev

/-- Both devices map the same identifiers, and raven has one entry for each. -/
structure SameTables (env : Env) (r : RavenDev) (s : Sfmc) : Prop where
  ready : s.TableReady env
  same : ∀ id, (r.stack env id).map (fun rt => rt.oe) = (s.locators env id).toList

namespace SameTables

variable {env : Env} {r : RavenDev} {s : Sfmc} {oe : ObjEntry}

theorem init (env : Env) (permAddr : Mac) :
    SameTables env ravenSetup (sfmcInit permAddr (freshZone fun _ => true)) :=
  ⟨Sfmc.tableReady_init env permAddr, fun _ => rfl⟩

theorem find (h : SameTables env r s) (id : U64) :
    (r.ravenTableFind env id).map (fun rt => rt.oe) = s.locators env id := by
  rw [RavenDev.ravenTableFind_eq, ← List.head?_map, h.same]
  cases s.locators env id <;> rfl

theorem add (h : SameTables env r s) (hnone : s.sfmcTableFind env oe.id = none) :
    (r.ravenLltEntryAdd env oe true).1 = (s.sfmcLltEntryAdd env oe).1 ∧
      SameTables env (r.ravenLltEntryAdd env oe true).2 (s.sfmcLltEntryAdd env oe).2 := by
  have hready := h.ready.next (.add oe)
  have hadd := h.ready.actsAsMap.add_fresh oe hnone
  refine ⟨hadd.1.symm, hready, fun id => ?_⟩
  rw [RavenDev.stack_add, Sfmc.locators, hadd.2]
  split_ifs with hid
  · have hempty : r.stack env id = [] := by
      rw [← List.map_eq_nil_iff, h.same, ← hid, Sfmc.locators, hnone]
      rfl
    rw [hempty]
    rfl
  · exact h.same id

theorem del (h : SameTables env r s) (oe : ObjEntry) :
    (r.ravenLltEntryDel env oe).1 = (s.sfmcLltEntryDel env oe).1 ∧
      SameTables env (r.ravenLltEntryDel env oe).2 (s.sfmcLltEntryDel env oe).2 := by
  have hready := h.ready.next (.del oe)
  have hfind := h.find oe.id
  unfold RavenDev.ravenLltEntryDel
  cases hs : s.sfmcTableFind env oe.id with
  | none =>
    rw [Sfmc.locators, hs, Option.map_none, Option.map_eq_none_iff] at hfind
    rw [hfind, (h.ready.actsAsMap.del_code oe).mpr hs, h.ready.actsAsMap.del_unmapped oe hs]
    exact ⟨rfl, h⟩
  | some st =>
    have hsome : (s.sfmcTableFind env oe.id).isSome = true := by rw [hs]; rfl
    have hdel := h.ready.actsAsMap.del_mapped oe hsome
    rw [Sfmc.locators, hs, Option.map_some] at hfind
    obtain ⟨rt, hrt, -⟩ := Option.map_eq_some_iff.mp hfind
    rw [hrt]
    refine ⟨hdel.1.symm, hready, fun id => ?_⟩
    rw [RavenDev.stack_delete, Sfmc.locators, hdel.2]
    split_ifs with hid
    · rw [List.map_tail, h.same]
      cases s.locators env id <;> rfl
    · exact h.same id

end SameTables

theorem lastAdded_append (id : U64) (reqs : List LltRequest) (req : LltRequest) :
    lastAdded id (reqs ++ [req]) =
      match req with
      | .entryAdd oe => if oe.id = id then true else lastAdded id reqs
      | .entryDel oe => if oe.id = id then false else lastAdded id reqs := by
  unfold lastAdded
  rw [List.foldl_append]
  rfl

section

variable (env : Env) (permAddr : Mac)

theorem sfmcRequests_append (reqs : List LltRequest) (req : LltRequest) :
    sfmcRequests env permAddr (reqs ++ [req]) =
      ((sfmcRequests env permAddr reqs).1 ++
          [((sfmcRequests env permAddr reqs).2.lltRequest env req).1],
        ((sfmcRequests env permAddr reqs).2.lltRequest env req).2) := by
  unfold sfmcRequests
  rw [answers_append]
  rfl

theorem ravenRequests_append (reqs : List LltRequest) (req : LltRequest) :
    ravenRequests env (reqs ++ [req]) =
      ((ravenRequests env reqs).1 ++ [((ravenRequests env reqs).2.lltRequest env req).1],
        ((ravenRequests env reqs).2.lltRequest env req).2) := by
  unfold ravenRequests
  rw [answers_append]
  rfl

theorem sfmcRequests_ready (reqs : List LltRequest) :
    (sfmcRequests env permAddr reqs).2.TableReady env := by
  apply answers_invariant _ (Sfmc.tableReady_init env permAddr)
  intro s req hs
  cases req with
  | entryAdd oe => exact hs.next (.add oe)
  | entryDel oe => exact hs.next (.del oe)

theorem sfmcRequests_mapped (id : U64) (reqs : List LltRequest) :
    ((sfmcRequests env permAddr reqs).2.sfmcTableFind env id).isSome = lastAdded id reqs := by
  induction reqs using List.reverseRecOn with
  | nil => rfl
  | append_singleton reqs req ih =>
    have hready := sfmcRequests_ready env permAddr reqs
    rw [sfmcRequests_append, lastAdded_append]
    cases req with
    | entryAdd oe =>
      simp only [Sfmc.lltRequest]
      cases hfind : (sfmcRequests env permAddr reqs).2.sfmcTableFind env oe.id with
      | some st =>
        rw [hready.actsAsMap.add_mapped oe (by rw [hfind]; rfl)]
        split_ifs with hid
        · rw [← hid, hfind]
          rfl
        · exact ih
      | none =>
        rw [(hready.actsAsMap.add_fresh oe hfind).2]
        split_ifs
        · rfl
        · exact ih
    | entryDel oe =>
      simp only [Sfmc.lltRequest]
      cases hfind : (sfmcRequests env permAddr reqs).2.sfmcTableFind env oe.id with
      | some st =>
        rw [(hready.actsAsMap.del_mapped oe (by rw [hfind]; rfl)).2]
        split_ifs
        · rfl
        · exact ih
      | none =>
        rw [hready.actsAsMap.del_unmapped oe hfind]
        split_ifs with hid
        · rw [← hid, hfind]
          rfl
        · exact ih

theorem sameTables_of_fresh (reqs : List LltRequest) (hfresh : ∀ past oe rest,
      reqs = past ++ .entryAdd oe :: rest → lastAdded oe.id past = false) :
    (ravenRequests env reqs).1 = (sfmcRequests env permAddr reqs).1 ∧
      SameTables env (ravenRequests env reqs).2 (sfmcRequests env permAddr reqs).2 := by
  induction reqs using List.reverseRecOn with
  | nil => exact ⟨rfl, SameTables.init env permAddr⟩
  | append_singleton reqs req ih =>
    obtain ⟨hcodes, hsame⟩ := ih fun past oe rest hreqs =>
      hfresh past oe (rest ++ [req]) (by rw [hreqs, List.append_assoc, List.cons_append])
    have hstep : ((ravenRequests env reqs).2.lltRequest env req).1 =
          ((sfmcRequests env permAddr reqs).2.lltRequest env req).1 ∧
        SameTables env ((ravenRequests env reqs).2.lltRequest env req).2
          ((sfmcRequests env permAddr reqs).2.lltRequest env req).2 := by
      cases req with
      | entryAdd oe =>
        apply hsame.add
        rw [← Option.not_isSome_iff_eq_none, sfmcRequests_mapped, hfresh reqs oe [] rfl]
        exact Bool.false_ne_true
      | entryDel oe => exact hsame.del oe
    rw [ravenRequests_append, sfmcRequests_append, hcodes, hstep.1]
    exact ⟨rfl, hstep.2⟩

theorem codes_ne_of_readded {past rest : List LltRequest} {oe : ObjEntry}
    (hadded : lastAdded oe.id past = true) :
    (ravenRequests env (past ++ .entryAdd oe :: rest)).1 ≠
      (sfmcRequests env permAddr (past ++ .entryAdd oe :: rest)).1 := by
  intro heq
  unfold ravenRequests sfmcRequests at heq
  rw [answers_append, answers_append] at heq
  have hlen := (answers_length (RavenDev.lltRequest env) ravenSetup past).trans
    (answers_length (Sfmc.lltRequest env) (sfmcInit permAddr (freshZone fun _ => true)) past).symm
  obtain ⟨-, htail⟩ := List.append_inj heq hlen
  obtain ⟨hcode, -⟩ := List.cons.inj htail
  have hmapped := sfmcRequests_mapped env permAddr oe.id past
  have hexist := ((sfmcRequests_ready env permAddr past).actsAsMap.add_code oe).mpr
    (hmapped.trans hadded)
  have hzero : (0 : ℤ) = -EEXIST := hcode.trans hexist
  exact absurd hzero (by decide)

/-- The devices agree on a list of requests exactly when no request adds an identifier
whose last earlier request was an add. -/
theorem tables_agree_iff (reqs : List LltRequest) : TablesAgree env permAddr reqs ↔
    ∀ past oe rest, reqs = past ++ .entryAdd oe :: rest → lastAdded oe.id past = false := by
  constructor
  · rintro ⟨hcodes, -⟩ past oe rest rfl
    by_contra hadded
    exact codes_ne_of_readded env permAddr (by simpa using hadded) hcodes
  · intro hfresh
    obtain ⟨hcodes, hsame⟩ := sameTables_of_fresh env permAddr reqs hfresh
    refine ⟨hcodes, fun id => ?_⟩
    have hfind := congrArg (Option.map ObjEntry.dst) (hsame.find id)
    rw [Sfmc.locators, Option.map_map, Option.map_map] at hfind
    exact hfind

end

/-- Added twice, an identifier has two entries on the raven device. -/
theorem tables_disagree_readded : ¬ ∀ env permAddr reqs, TablesAgree env permAddr reqs := by
  intro h
  have hcodes := (h oneBucket 0 [.entryAdd connectedEntry, .entryAdd connectedEntry]).1
  exact absurd hcodes (by decide)

end Madcap
