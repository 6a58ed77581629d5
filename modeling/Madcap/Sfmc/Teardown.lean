import Madcap.Sfmc.RouteCache

/-!
# Tear-down

`sfmc_exit` frees the FIB before it destroys the work queue, and the queue runs what is
still pending before it is gone. An item can run between any two steps of the exit.
-/

namespace Madcap

/-- How far `sfmc_exit` has come: not called, about to enter `sfmc_fib_destroy`, in its
loop with the routes that are left, waiting for the work queue, or done. The loop keeps
the next element, and items link routes at the head, so it does not see them. -/
inductive ExitPhase where
  | running
  | entered
  | destroying (rest : List Ref)
  | draining
  | returned
  deriving DecidableEq, Repr

structure Teardown where
  world : World
  phase : ExitPhase

/-- What stops a run: a fault of the device, or a use of the freed tree. -/
inductive TeardownFault where
  | fault (e : Fault)
  | freedTree
  deriving DecidableEq, Repr

/-- An event of the device, a queued item that runs, or the next step of `sfmc_exit`. -/
inductive TeardownEvent where
  | event (e : Event)
  | work (sf : Ref) (created : Option Neighbour)
  | exit

namespace Teardown

/-- `sfmc_ll_neigh_work` once the tree is freed: after its allocation `sfmc_fib_insert`
searches the tree. -/
def staleWork (w : World) (sf : Ref) : TeardownFault :=
  match w.sfmc.fibs.read sf with
  | .error e => .fault e
  | .ok f =>
    match w.sfmc.kmallocPrefix (dst2Prefix f.network f.len) with
    | .error e => .fault e
    | .ok _ => .freedTree

/-- One step of `sfmc_exit`. The work queue is destroyed when it is empty. -/
def exitStep (t : Teardown) : Except TeardownFault Teardown :=
  match t.phase with
  | .running =>
    return { world := { t.world with sfmc := t.world.sfmc.sfmcTableDestroy }, phase := .entered }
  | .entered => return { t with phase := .destroying t.world.sfmc.fibList }
  | .destroying (sf :: rest) => do
    let s ← (t.world.sfmc.sfmcFibDelete sf).mapError .fault
    return { world := { t.world with sfmc := s }, phase := .destroying rest }
  | .destroying [] => return { t with phase := .draining }
  | .draining => return if t.world.sfmc.wq = [] then { t with phase := .returned } else t
  | .returned => return t

/-- The device has no other events once `sfmc_exit` is called. -/
def step (env : Env) (t : Teardown) : TeardownEvent → Except TeardownFault Teardown
  | .event e =>
    match t.phase with
    | .running => do
      let w ← (t.world.step env e).mapError .fault
      return { t with world := w }
    | _ => return t
  | .work sf created =>
    match t.phase with
    | .draining => if sf ∈ t.world.sfmc.wq then throw (staleWork t.world sf) else return t
    | .returned => return t
    | _ => do
      let w ← (t.world.runWork sf created).mapError .fault
      return { t with world := w }
  | .exit => t.exitStep

def init (permAddr : Mac) (grants : ℕ → Bool) (arp : ArpTable) : Teardown where
  world := World.init permAddr grants arp
  phase := .running

/-- A run never uses the freed tree, and when the exit is done no route is linked. -/
def Safe (env : Env) (t : Teardown) (es : List TeardownEvent) : Prop :=
  Ensures (fun e => e ≠ .freedTree) (runSteps (step env) t es) fun t' =>
    t'.phase = .returned → t'.world.sfmc.fibList = []

/-- Nothing is pending when `sfmc_fib_destroy` is entered. -/
def NonePending (t : Teardown) (e : TeardownEvent) : Prop :=
  e = .exit → t.phase = .entered → t.world.sfmc.wq = []

/-- While the tree is there the device is in order. From `sfmc_fib_destroy` on nothing is
pending, and the routes that are linked are the ones the loop has left. -/
def Ok (t : Teardown) : Prop :=
  match t.phase with
  | .running | .entered => t.world.sfmc.Inv
  | .destroying rest =>
    t.world.sfmc.FibInv ∧ t.world.sfmc.wq = [] ∧ t.world.sfmc.fibList = rest
  | .draining | .returned => t.world.sfmc.wq = [] ∧ t.world.sfmc.fibList = []

variable {env : Env} {t : Teardown} {w : World}

theorem inv_destroyed {s : Sfmc} (h : s.Inv) : s.sfmcTableDestroy.Inv := by
  refine ⟨h.fib.of_table _, fun {n st} hst => ?_⟩
  rw [Sfmc.sfmcTableDestroy_table] at hst
  cases hst

theorem ensures_mapError {α : Type} {x : Res α} {E : Fault → Prop} {Q : α → Prop}
    (h : Ensures E x Q) : Ensures (fun e => e ≠ .freedTree) (x.mapError TeardownFault.fault) Q := by
  cases x with
  | ok a => exact h
  | error e =>
    intro heq
    cases heq

theorem runWork_inv (h : w.sfmc.Inv) (sf : Ref) (created : Option Neighbour) :
    Ensures w.sfmc.fibTree.Refuses (w.runWork sf created) fun w' => w'.sfmc.Inv :=
  Ensures.mono (Q := Outcome oneBucket w (.llNeighWork sf created))
    (World.runWork_outcome h.fib sf created) fun _ hout => hout.preserves h

theorem runWork_idle (h : w.sfmc.wq = []) (sf : Ref) (created : Option Neighbour) :
    w.runWork sf created = .ok w := by
  unfold World.runWork
  rw [h, if_neg List.not_mem_nil]
  rfl

theorem exitStep_ok (ht : t.Ok) (hpending : t.phase = .entered → t.world.sfmc.wq = []) :
    Ensures (fun e => e ≠ .freedTree) t.exitStep Ok := by
  obtain ⟨w, phase⟩ := t
  cases phase with
  | running => exact inv_destroyed ht
  | entered => exact ⟨ht.fib, hpending rfl, rfl⟩
  | destroying rest =>
    obtain ⟨hinv, hwq, hlist⟩ := ht
    dsimp only at hinv hwq hlist
    cases rest with
    | nil => exact ⟨hwq, hlist⟩
    | cons sf rest =>
      have hsf : sf ∈ w.sfmc.fibList := hlist ▸ List.mem_cons_self
      obtain ⟨s, hs, hdel⟩ := Sfmc.sfmcFibDelete_spec hinv hsf
      simp only [exitStep, hs]
      refine ⟨hdel.inv, hdel.wq.trans hwq, ?_⟩
      rw [hdel.list, hlist, List.erase_cons_head]
  | draining =>
    have hwq : w.sfmc.wq = [] := ht.1
    simp only [exitStep]
    rw [if_pos hwq]
    exact ht
  | returned => exact ht

theorem step_ok (ht : t.Ok) (e : TeardownEvent) (hpending : NonePending t e) :
    Ensures (fun e => e ≠ .freedTree) (t.step env e) Ok := by
  cases e with
  | exit => exact exitStep_ok ht (hpending rfl)
  | event e =>
    obtain ⟨w, phase⟩ := t
    cases phase with
    | running =>
      have hinv : w.sfmc.Inv := ht
      have hstep : Ensures w.sfmc.fibTree.Refuses (w.step env e) (Outcome env w e) :=
        World.step_outcome hinv e
      exact (ensures_mapError (hstep.mono fun _ hout => hout.preserves hinv)).bind fun _ h => h
    | entered => exact ht
    | destroying rest => exact ht
    | draining => exact ht
    | returned => exact ht
  | work sf created =>
    obtain ⟨w, phase⟩ := t
    cases phase with
    | running => exact (ensures_mapError (runWork_inv ht sf created)).bind fun _ h => h
    | entered => exact (ensures_mapError (runWork_inv ht sf created)).bind fun _ h => h
    | destroying rest =>
      have hidle := runWork_idle ht.2.1 sf created
      simp only [step, hidle]
      exact ht
    | draining =>
      have hwq : w.sfmc.wq = [] := ht.1
      simp only [step, hwq, List.not_mem_nil, if_false]
      exact ht
    | returned => exact ht

theorem Ok.returned (ht : t.Ok) (h : t.phase = .returned) : t.world.sfmc.fibList = [] := by
  unfold Ok at ht
  rw [h] at ht
  exact ht.2

theorem Ok.safe (ht : t.Ok) {es : List TeardownEvent} (halong : Along (step env) NonePending t es) :
    Safe env t es :=
  (ensures_runSteps (fun _ e h hC => step_ok h e hC) ht halong).mono fun _ h => h.returned

/-- Before the FIB is destroyed the device is in order, whatever is pending. -/
def Before (grants : ℕ → Bool) (t : Teardown) : Prop :=
  t.phase = .running ∨ t.phase = .entered →
    t.world.sfmc.Inv ∧ t.world.sfmc.fibTree.grants = grants

/-- `sfmc_fib_destroy` has been entered. -/
def Past (t : Teardown) : Prop := t.phase ≠ .running ∧ t.phase ≠ .entered

theorem step_past (ht : t.Past) (e : TeardownEvent) :
    Ensures (fun _ => True) (t.step env e) Past := by
  obtain ⟨w, phase⟩ := t
  obtain ⟨hrunning, hentered⟩ := ht
  cases phase with
  | running => exact absurd rfl hrunning
  | entered => exact absurd rfl hentered
  | destroying rest =>
    cases e with
    | event e => exact ⟨hrunning, hentered⟩
    | work sf created =>
      simp only [step]
      cases (w.runWork sf created).mapError TeardownFault.fault with
      | error e => trivial
      | ok w' => exact ⟨hrunning, hentered⟩
    | exit =>
      cases rest with
      | nil => exact ⟨nofun, nofun⟩
      | cons sf rest =>
        simp only [step, exitStep]
        cases (w.sfmc.sfmcFibDelete sf).mapError TeardownFault.fault with
        | error e => trivial
        | ok s => exact ⟨nofun, nofun⟩
  | draining =>
    cases e with
    | event e => exact ⟨hrunning, hentered⟩
    | work sf created =>
      simp only [step]
      split_ifs
      · trivial
      · exact ⟨hrunning, hentered⟩
    | exit =>
      simp only [step, exitStep]
      split_ifs
      · exact ⟨nofun, nofun⟩
      · exact ⟨hrunning, hentered⟩
  | returned =>
    cases e with
    | event e => exact ⟨hrunning, hentered⟩
    | work sf created => exact ⟨hrunning, hentered⟩
    | exit => exact ⟨hrunning, hentered⟩

theorem step_before {grants : ℕ → Bool} (ht : t.Before grants) (e : TeardownEvent) :
    Ensures (fun _ => True) (t.step env e) (Before grants) := by
  by_cases hphase : t.phase = .running ∨ t.phase = .entered
  · obtain ⟨hinv, hgrants⟩ := ht hphase
    obtain ⟨w, phase⟩ := t
    dsimp only at hphase hinv hgrants
    have hout : ∀ {e w'} phase', Outcome env w e w' →
        Before grants { world := w', phase := phase' } :=
      fun _ h _ => ⟨h.preserves hinv, h.grants.trans hgrants⟩
    have hwork : ∀ sf created, Ensures _ _ (Outcome env w (.llNeighWork sf created)) :=
      fun sf created => ensures_mapError (World.runWork_outcome hinv.fib sf created)
    have hevent : ∀ e, Ensures _ _ (Outcome env w e) :=
      fun e => ensures_mapError (World.step_outcome hinv e)
    rcases hphase with rfl | rfl
    · cases e with
      | event e => exact ((hevent e).weaken fun _ _ => trivial).bind fun _ h => hout _ h
      | work sf created =>
        exact ((hwork sf created).weaken fun _ _ => trivial).bind fun _ h => hout _ h
      | exit => exact fun _ => ⟨inv_destroyed hinv, hgrants⟩
    · cases e with
      | event e => exact ht
      | work sf created =>
        exact ((hwork sf created).weaken fun _ _ => trivial).bind fun _ h => hout _ h
      | exit =>
        rintro (h | h)
        · cases h
        · cases h
  · have hpast : Ensures _ (step env t e) _ := step_past (not_or.mp hphase) e
    exact hpast.mono fun t' h hbefore => absurd hbefore (not_or.mpr h)

theorem along_past (ht : t.Past) (es : List TeardownEvent) :
    Along (step env) NonePending t es := by
  induction es generalizing t with
  | nil => trivial
  | cons e es ih =>
    refine ⟨fun _ hentered => absurd hentered ht.2, fun t' h => ?_⟩
    exact ih ((step_past ht e).of_eq_ok h)

theorem along_idle (hphase : t.phase = .entered) (hwq : t.world.sfmc.wq = [])
    (es : List TeardownEvent) : Along (step env) NonePending t es := by
  obtain ⟨w, phase⟩ := t
  dsimp only at hphase hwq
  subst hphase
  induction es with
  | nil => trivial
  | cons e es ih =>
    refine ⟨fun _ _ => hwq, fun t' h => ?_⟩
    cases e with
    | event e =>
      obtain rfl := Except.ok.inj h
      exact ih
    | work sf created =>
      simp only [step, runWork_idle hwq] at h
      obtain rfl := Except.ok.inj h
      exact ih
    | exit =>
      obtain rfl := Except.ok.inj h
      have hpast : Past { world := w, phase := .destroying w.sfmc.fibList } := ⟨nofun, nofun⟩
      exact along_past hpast es

theorem run_before {permAddr : Mac} {grants : ℕ → Bool} {arp : ArpTable}
    (es : List TeardownEvent) :
    Ensures (fun _ => True) (runSteps (step env) (init permAddr grants arp) es)
      (Before grants) :=
  ensures_runSteps (fun _ e h _ => step_before h e)
    (fun _ => ⟨World.inv_init permAddr grants arp, rfl⟩) (along_trivial _ es)

/-- The loop of `sfmc_fib_destroy` leaves what is pending and what the allocator grants. -/
theorem destroy_loop {w : World} (hinv : w.sfmc.FibInv) (rest : List Ref)
    (hlist : w.sfmc.fibList = rest) :
    ∃ s, runSteps (step env) { world := w, phase := .destroying rest }
        (List.replicate (rest.length + 1) .exit) =
          .ok { world := { w with sfmc := s }, phase := .draining } ∧
      s.wq = w.sfmc.wq ∧ s.FibInv ∧ s.fibTree.grants = w.sfmc.fibTree.grants := by
  induction rest generalizing w with
  | nil => exact ⟨w.sfmc, rfl, rfl, hinv, rfl⟩
  | cons sf rest ih =>
    have hsf : sf ∈ w.sfmc.fibList := hlist ▸ List.mem_cons_self
    obtain ⟨s, hs, hdel⟩ := Sfmc.sfmcFibDelete_spec hinv hsf
    have hlist' : s.fibList = rest := by
      rw [hdel.list, hlist, List.erase_cons_head]
    obtain ⟨s', hrun, hwq, hinv', hgrants⟩ := ih (w := { w with sfmc := s }) hdel.inv hlist'
    refine ⟨s', ?_, hwq.trans hdel.wq, hinv', hgrants.trans hdel.frame.grants⟩
    rw [List.length_cons, List.replicate_succ, runSteps_cons, hrun]
    simp only [step, exitStep, hs]
    rfl

/-- With memory to spare, an item that is pending when `sfmc_fib_destroy` is entered can run
after the tree is freed. -/
theorem pending_not_safe (hphase : t.phase = .entered)
    (hinv : t.world.sfmc.Inv) (hg : t.world.sfmc.fibTree.grants = fun _ => true)
    (hwq : t.world.sfmc.wq ≠ []) : ∃ es, ¬ Safe env t es := by
  obtain ⟨w, phase⟩ := t
  dsimp only at hphase hinv hg hwq
  subst hphase
  obtain ⟨sf, hsf⟩ := List.exists_mem_of_ne_nil _ hwq
  obtain ⟨s, hrun, hwq', hinv', hgrants⟩ :=
    @destroy_loop env w hinv.fib w.sfmc.fibList rfl
  have hsf' : sf ∈ s.wq := hwq' ▸ hsf
  obtain ⟨-, f, hf, -⟩ := hinv'.queued hsf'
  have hstale : staleWork { w with sfmc := s } sf = .freedTree := by
    have hgranted : s.fibTree.grants s.fibTree.requests = true := by rw [hgrants, hg]
    simp only [staleWork, Heap.read_eq hf, Sfmc.kmallocPrefix, Patricia.kmalloc, hgranted]
  use .exit :: (List.replicate (w.sfmc.fibList.length + 1) .exit ++ [.work sf none])
  have hfree : runSteps (step env) { world := w, phase := .entered }
      (.exit :: (List.replicate (w.sfmc.fibList.length + 1) .exit ++ [.work sf none])) =
        .error .freedTree := by
    have henter : step env { world := w, phase := .entered } .exit =
        .ok { world := w, phase := .destroying w.sfmc.fibList } := rfl
    rw [runSteps_cons henter, runSteps_append, hrun]
    simp only [bind, Except.bind, runSteps, step, hsf', if_true, hstale]
    rfl
  unfold Safe
  rw [hfree]
  exact fun h => h rfl

/-- A run of a device is safe if nothing is pending when it comes to free the FIB. While
allocations succeed the condition is exact: from a state in which `sfmc_fib_destroy` is entered
every way on is safe if and only if nothing is pending. -/
theorem fib_gone_safely_iff (env : Env) (permAddr : Mac) (arp : ArpTable) :
    (∀ grants es, Along (step env) NonePending (init permAddr grants arp) es →
      Safe env (init permAddr grants arp) es) ∧
    ∀ es t, runSteps (step env) (init permAddr (fun _ => true) arp) es = .ok t →
      t.phase = .entered → ((∀ es', Safe env t es') ↔ t.world.sfmc.wq = []) := by
  constructor
  · intro grants es halong
    have hinit : (init permAddr grants arp).Ok := World.inv_init permAddr grants arp
    exact hinit.safe halong
  · intro es t hrun hphase
    obtain ⟨hinv, hgrants⟩ := (run_before es).of_eq_ok hrun (.inr hphase)
    constructor
    · intro hsafe
      by_contra hwq
      obtain ⟨es', hunsafe⟩ := @pending_not_safe env t hphase hinv hgrants hwq
      exact hunsafe (hsafe es')
    · intro hwq es'
      have hok : t.Ok := by
        unfold Ok
        rw [hphase]
        exact hinv
      exact hok.safe (along_idle hphase hwq es')

/-- 10.0.1.0/24 is connected and a packet to 10.0.1.2 has queued a host route. -/
def pendingRun : List TeardownEvent := connectedRun.map .event

/-- The host route is linked in the freed tree, or it is linked behind the back of the loop
and outlives the exit. -/
theorem pending_route_outlives_fib :
    (¬ ∀ (env : Env) (permAddr : Mac) (grants : ℕ → Bool) (arp : ArpTable) (es : List TeardownEvent),
      runSteps (step env) (init permAddr grants arp) es ≠ .error .freedTree) ∧
    ¬ ∀ (env : Env) (permAddr : Mac) (grants : ℕ → Bool) (arp : ArpTable) (es : List TeardownEvent) t,
      runSteps (step env) (init permAddr grants arp) es = .ok t → t.phase = .returned →
        t.world.sfmc.fibList = [] := by
  constructor
  · intro h
    have hfreed := h oneBucket 0 (fun _ => true) (fun _ => none)
      (pendingRun ++ [.exit, .exit, .exit, .exit, .work 1 none])
    exact hfreed rfl
  · intro h
    have hlist := h oneBucket 0 (fun _ => true) (fun _ => none)
      (pendingRun ++ [.exit, .exit, .work 1 none, .exit, .exit, .exit]) _ rfl rfl
    cases hlist

/-- Once the item has run, every way out is safe. -/
theorem fib_gone_safely_iff_worked : ∃ t,
    runSteps (step oneBucket) (init 0 (fun _ => true) fun _ => none)
      (pendingRun ++ [.work 1 none, .exit]) = .ok t ∧
    t.phase = .entered ∧ t.world.sfmc.fibList = [1, 0] ∧ ∀ es, Safe oneBucket t es := by
  refine ⟨_, rfl, rfl, rfl, ?_⟩
  have hexact := (fib_gone_safely_iff oneBucket 0 fun _ => none).2
    (pendingRun ++ [.work 1 none, .exit]) _ rfl rfl
  exact hexact.mpr rfl

end Teardown

end Madcap
