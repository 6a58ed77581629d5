import Mathlib.Data.Int.Notation
import Mathlib.Data.List.Basic
import Mathlib.Order.MinMax
import Madcap.Foundation.Runs

/-!
# The traffic generator

Commands to `/proc/driver/netdevgen` start and stop a thread that sends packets. The
thread says that it runs by a flag of its own, which it sets when it first runs: in
between, a start or a stop sees no thread.
-/

namespace Madcap

/-- How far a thread of the generator has come: created and not yet run, in the loop of
`netdevgen_thread`, at `err_out` without a packet, or past its last store. -/
inductive NdgPhase where
  | created
  | looping
  | failing
  | finished
  deriving DecidableEq, Repr

structure NdgThread where
  phase : NdgPhase := .created
  /-- What `kthread_should_stop` reads. -/
  shouldStop : Bool := false
  /-- Source and destination of the packet it clones. -/
  packet : ℕ × ℕ := (0, 0)
  sent : ℕ := 0
  deriving DecidableEq, Repr

/-- The module's static data and the threads it has created, in order. A call of
`kthread_stop` in `stopping` waits for its thread; next to it stands how many threads
there were when it was called. A stop that has returned was called after the first
`stopped` threads were created. -/
structure Netdevgen where
  ndgThreadRunning : Bool := false
  ndgTsk : Option ℕ := none
  start : ℤ := 0
  srcip : ℕ := 0
  dstip : ℕ := 0
  oneThreads : ℕ := 0
  threads : List NdgThread := []
  stopping : List (ℕ × ℕ) := []
  stopped : ℕ := 0
  deriving DecidableEq, Repr

namespace Netdevgen

/-- The thread is created and woken, which is not yet its first step. -/
def kthreadRunOnCpu (s : Netdevgen) : Netdevgen :=
  { s with threads := s.threads ++ [{}], ndgTsk := some s.threads.length }

@[simp] theorem kthreadRunOnCpu_length (s : Netdevgen) :
    s.kthreadRunOnCpu.threads.length = s.threads.length + 1 := List.length_append

def startNetdevgenThread (s : Netdevgen) : Netdevgen :=
  match s.ndgTsk, s.ndgThreadRunning with
  | some _, true => s
  | _, _ => s.kthreadRunOnCpu

/-- The kernel frees the task of a thread that has finished. -/
def kthreadStop (s : Netdevgen) (i : ℕ) : Res Netdevgen :=
  match s.threads[i]? with
  | none => throw .badAccess
  | some t =>
    if t.phase = .finished then throw .badAccess
    else return { s with
      threads := s.threads.set i { t with shouldStop := true }
      stopping := (i, s.threads.length) :: s.stopping }

def stopNetdevgenThread (s : Netdevgen) : Res Netdevgen :=
  match s.ndgTsk, s.ndgThreadRunning with
  | some i, true => s.kthreadStop i
  | _, _ => return { s with stopped := s.threads.length }

def startNetdevgenXmitOneThread (s : Netdevgen) : Netdevgen :=
  { s with oneThreads := s.oneThreads + 1 }

def startStop (s : Netdevgen) : Res Netdevgen :=
  if s.start ≠ 0 then s.stopNetdevgenThread else return s.startNetdevgenThread

def procRead (s : Netdevgen) : Res Netdevgen := s.startStop

/-- The words of `proc_write` that name a protocol, in the order they are compared, with
the source and destination each one sets. -/
def protocolWords : List (List Char × ℕ × ℕ) :=
  [(['v', 'x', 'l', 'a', 'n'], 0x010410AC, 0x020410AC),
    (['g', 'r', 'e', 't', 'a', 'p'], 0x010310AC, 0x020310AC),
    (['g', 'r', 'e'], 0x010210AC, 0x020210AC),
    (['i', 'p', 'i', 'p'], 0x010110AC, 0x020110AC),
    (['n', 's', 'h'], 0x010510AC, 0x020510AC),
    (['n', 'o', 'e', 'n', 'c', 'a', 'p'], 0x010610AC, 0x020610AC)]

def xmitWord : List Char := ['x', 'm', 'i', 't']
def startWord : List Char := ['s', 't', 'a', 'r', 't']
def stopWord : List Char := ['s', 't', 'o', 'p']

def protocolOf (buf : List Char) : Option (List Char × ℕ × ℕ) :=
  protocolWords.find? fun w => w.1.isPrefixOf buf

/-- Each comparison is a `strncmp` over the length of its word. -/
def procWrite (measurePps : ℤ) (s : Netdevgen) (buf : List Char) : Res Netdevgen :=
  if xmitWord.isPrefixOf buf then return s.startNetdevgenXmitOneThread
  else match protocolOf buf with
    | some (_, src, dst) =>
      let s := { s with srcip := src, dstip := dst }
      return if measurePps = 0 then s.startNetdevgenXmitOneThread else s.startNetdevgenThread
    | none =>
      if startWord.isPrefixOf buf then return s.startNetdevgenThread
      else if stopWord.isPrefixOf buf then s.stopNetdevgenThread
      else return s

/-- The first step of a thread. One that was told to stop before it ran does not enter
`netdevgen_thread`. -/
def threadRun (s : Netdevgen) (i : ℕ) (t : NdgThread) (built : Bool) : Netdevgen :=
  if t.shouldStop then { s with threads := s.threads.set i { t with phase := .finished } }
  else { s with
    ndgThreadRunning := true
    threads := s.threads.set i (if built
      then { t with phase := .looping, packet := (s.srcip, s.dstip) }
      else { t with phase := .failing }) }

def threadXmit (s : Netdevgen) (i : ℕ) (t : NdgThread) : Netdevgen :=
  { s with threads := s.threads.set i { t with sent := t.sent + 1 } }

/-- From `err_out` on. -/
def threadLeave (s : Netdevgen) (i : ℕ) (t : NdgThread) : Netdevgen :=
  { s with
    ndgThreadRunning := false
    threads := s.threads.set i { t with phase := .finished } }

end Netdevgen

/-- A command read from or written to the proc file, a step of a thread, or the return of
a `kthread_stop` whose thread has finished. -/
inductive NdgEvent where
  | read
  | write (buf : List Char)
  | run (i : ℕ) (built : Bool)
  | xmit (i : ℕ)
  | leave (i : ℕ)
  | returned (i created : ℕ)
  deriving DecidableEq, Repr

namespace Netdevgen

/-- What a thread does, if it is there and can do it. An event that cannot happen changes
nothing. -/
def onThread (s : Netdevgen) (i : ℕ) (can : NdgThread → Prop) [DecidablePred can]
    (f : NdgThread → Netdevgen) : Netdevgen :=
  match s.threads[i]? with
  | some t => if can t then f t else s
  | none => s

def step (measurePps : ℤ) (s : Netdevgen) : NdgEvent → Res Netdevgen
  | .read => s.procRead
  | .write buf => s.procWrite measurePps buf
  | .run i built =>
    return s.onThread i (fun t => t.phase = .created) fun t => s.threadRun i t built
  | .xmit i =>
    return s.onThread i (fun t => t.phase = .looping ∧ t.shouldStop = false) (s.threadXmit i)
  | .leave i =>
    return s.onThread i
      (fun t => t.phase = .failing ∨ t.phase = .looping ∧ t.shouldStop = true) (s.threadLeave i)
  | .returned i created =>
    return s.onThread i (fun t => (i, created) ∈ s.stopping ∧ t.phase = .finished) fun _ =>
      { s with
        stopping := s.stopping.erase (i, created)
        stopped := max s.stopped created }

def startsOrStops (measurePps : ℤ) (buf : List Char) : Bool :=
  !xmitWord.isPrefixOf buf &&
    match protocolOf buf with
    | some _ => measurePps ≠ 0
    | none => startWord.isPrefixOf buf || stopWord.isPrefixOf buf

end Netdevgen

namespace NdgThread

/-- The thread sends, or will, and was not told to stop. -/
def Untold (t : NdgThread) : Prop := t.phase ≠ .finished ∧ t.shouldStop = false

/-- It has set the flag and not cleared it. -/
def Active (t : NdgThread) : Prop := t.phase = .looping ∨ t.phase = .failing

instance (t : NdgThread) : Decidable t.Active :=
  inferInstanceAs (Decidable (t.phase = .looping ∨ t.phase = .failing))

end NdgThread

namespace Netdevgen

/-- At most one thread was not told to stop, and the threads created before a stop that
has returned are finished. -/
structure Tidy (s : Netdevgen) : Prop where
  one : ∀ (i j : ℕ) (t u : NdgThread), s.threads[i]? = some t → s.threads[j]? = some u →
    t.Untold → u.Untold → i = j
  stopped : ∀ (i : ℕ) (t : NdgThread), i < s.stopped → s.threads[i]? = some t → t.phase = .finished

/-- A command that starts or stops the generator comes when every thread has run. -/
def NoneCreated (measurePps : ℤ) (s : Netdevgen) : NdgEvent → Prop
  | .read => ∀ t ∈ s.threads, t.phase ≠ .created
  | .write buf =>
    startsOrStops measurePps buf = true → ∀ t ∈ s.threads, t.phase ≠ .created
  | _ => True

/-- Only the last thread can be unfinished, and the flag is its own. -/
structure Orderly (s : Netdevgen) : Prop where
  start : s.start = 0
  tsk : ∀ i, s.ndgTsk = some i ↔ i + 1 = s.threads.length
  last : ∀ (i : ℕ) (t : NdgThread), s.threads[i]? = some t → t.phase ≠ .finished →
    i + 1 = s.threads.length
  flag : s.ndgThreadRunning = true ↔ ∃ (i : ℕ) (t : NdgThread), s.threads[i]? = some t ∧ t.Active
  created : ∀ (i : ℕ) (t : NdgThread), s.threads[i]? = some t → t.phase = .created →
    t.shouldStop = false
  waiting : ∀ i b, (i, b) ∈ s.stopping → b ≤ i + 1
  past : s.stopped ≤ s.threads.length
  stopped : ∀ (i : ℕ) (t : NdgThread), i < s.stopped → s.threads[i]? = some t → t.phase = .finished

theorem orderly_init : Orderly {} where
  start := rfl
  tsk i := by simp
  last i t h := by simp at h
  flag := by simp
  created i t h := by simp at h
  waiting i b h := by simp at h
  past := Nat.le_refl 0
  stopped i t h := absurd h (Nat.not_lt_zero i)

namespace Orderly

variable {s : Netdevgen} {i : ℕ} {t : NdgThread}

theorem active_unfinished (h : t.Active) : t.phase ≠ .finished := by
  rcases h with h | h <;> rw [h] <;> decide

theorem unique (h : Orderly s) {j : ℕ} {u : NdgThread} (ht : s.threads[i]? = some t)
    (hu : s.threads[j]? = some u) (htp : t.phase ≠ .finished) (hup : u.phase ≠ .finished) :
    i = j := by
  have hi := h.last i t ht htp
  have hj := h.last j u hu hup
  omega

theorem tidy (h : Orderly s) : Tidy s where
  one _ _ _ _ ht hu htold huold := h.unique ht hu htold.1 huold.1
  stopped := h.stopped

theorem set (h : Orderly s) (ht : s.threads[i]? = some t) (htp : t.phase ≠ .finished)
    {u : NdgThread} {f : Bool} (hf : f = true ↔ u.Active)
    (hu : u.phase = .created → u.shouldStop = false) :
    Orderly { s with ndgThreadRunning := f, threads := s.threads.set i u } := by
  have hi : i < s.threads.length := (List.getElem?_eq_some_iff.mp ht).1
  have hset : (s.threads.set i u)[i]? = some u := List.getElem?_set_self hi
  have hother : ∀ j v, (s.threads.set i u)[j]? = some v → v.phase ≠ .finished → i = j := by
    intro j v hv hvp
    by_contra hne
    rw [List.getElem?_set_ne hne] at hv
    exact hne (h.unique ht hv htp hvp)
  constructor
  case start => exact h.start
  case tsk =>
    intro j
    rw [List.length_set]
    exact h.tsk j
  case last =>
    intro j v hv hvp
    rw [List.length_set, ← hother j v hv hvp]
    exact h.last i t ht htp
  case flag =>
    refine hf.trans ⟨fun hact => ⟨i, u, hset, hact⟩, ?_⟩
    rintro ⟨j, v, hv, hact⟩
    obtain rfl := hother j v hv (active_unfinished hact)
    exact Option.some.inj (hset.symm.trans hv) ▸ hact
  case created =>
    intro j v hv hvp
    obtain rfl := hother j v hv (by rw [hvp]; decide)
    obtain rfl := Option.some.inj (hset.symm.trans hv)
    exact hu hvp
  case waiting => exact h.waiting
  case past =>
    rw [List.length_set]
    exact h.past
  case stopped =>
    intro j v hj hv
    by_cases hne : i = j
    · subst hne
      exact absurd (h.stopped i t hj ht) htp
    · rw [List.getElem?_set_ne hne] at hv
      exact h.stopped j v hj hv

theorem all_finished (h : Orderly s) (hflag : s.ndgThreadRunning = false)
    (hnone : ∀ t ∈ s.threads, t.phase ≠ .created) (ht : s.threads[i]? = some t) :
    t.phase = .finished := by
  have hidle : ¬ t.Active := fun hact => by
    rw [h.flag.mpr ⟨i, t, ht, hact⟩] at hflag
    exact Bool.noConfusion hflag
  have hrun := hnone t (List.mem_of_getElem? ht)
  unfold NdgThread.Active at hidle
  cases hp : t.phase with
  | created => exact absurd hp hrun
  | looping => exact absurd (Or.inl hp) hidle
  | failing => exact absurd (Or.inr hp) hidle
  | finished => rfl

theorem kthreadRunOnCpu (h : Orderly s) (hflag : s.ndgThreadRunning = false)
    (hnone : ∀ t ∈ s.threads, t.phase ≠ .created) : Orderly s.kthreadRunOnCpu := by
  have hnew : ∀ (j : ℕ) (v : NdgThread), (s.threads ++ [({} : NdgThread)])[j]? = some v →
      v.phase ≠ .finished → j = s.threads.length ∧ v = ({} : NdgThread) := by
    intro j v hv hvp
    rcases Nat.lt_or_ge j s.threads.length with hj | hj
    · rw [List.getElem?_append_left hj] at hv
      exact absurd (h.all_finished hflag hnone hv) hvp
    · rw [List.getElem?_append_right hj, List.getElem?_singleton] at hv
      split at hv
      · exact ⟨by omega, (Option.some.inj hv).symm⟩
      · cases hv
  constructor
  case start => exact h.start
  case tsk =>
    intro j
    simp only [Netdevgen.kthreadRunOnCpu, Option.some.injEq, List.length_append,
      List.length_singleton]
    omega
  case last =>
    intro j v hv hvp
    rw [(hnew j v hv hvp).1]
    exact s.kthreadRunOnCpu_length.symm
  case flag =>
    refine ⟨fun hf => Bool.noConfusion (hflag.symm.trans hf), ?_⟩
    rintro ⟨j, v, hv, hact⟩
    obtain ⟨-, rfl⟩ := hnew j v hv (active_unfinished hact)
    exact absurd hact (by decide)
  case created =>
    intro j v hv hvp
    obtain ⟨-, rfl⟩ := hnew j v hv (by rw [hvp]; decide)
    rfl
  case waiting => exact h.waiting
  case past =>
    rw [kthreadRunOnCpu_length]
    exact Nat.le_succ_of_le h.past
  case stopped =>
    intro j v hj hv
    by_contra hvp
    rw [(hnew j v hv hvp).1] at hj
    exact absurd h.past (Nat.not_le.mpr hj)

theorem running_task (h : Orderly s) (hflag : s.ndgThreadRunning = true) :
    ∃ (i : ℕ) (t : NdgThread), s.ndgTsk = some i ∧ s.threads[i]? = some t ∧ t.Active := by
  obtain ⟨i, t, ht, hact⟩ := h.flag.mp hflag
  exact ⟨i, t, (h.tsk i).mpr (h.last i t ht (active_unfinished hact)), ht, hact⟩

theorem flag_created (h : Orderly s) (ht : s.threads[i]? = some t) (hp : t.phase = .created) :
    s.ndgThreadRunning = false := by
  by_contra hflag
  obtain ⟨j, u, hu, hact⟩ := h.flag.mp (eq_true_of_ne_false hflag)
  obtain rfl := h.unique ht hu (by rw [hp]; decide) (active_unfinished hact)
  obtain rfl := Option.some.inj (ht.symm.trans hu)
  unfold NdgThread.Active at hact
  rw [hp] at hact
  exact absurd hact (by decide)

theorem addresses (h : Orderly s) (src dst one : ℕ) :
    Orderly { s with srcip := src, dstip := dst, oneThreads := one } :=
  { h with }

theorem stops (h : Orderly s) {w : List (ℕ × ℕ)} (hw : ∀ i b, (i, b) ∈ w → b ≤ i + 1) :
    Orderly { s with stopping := w } :=
  { h with waiting := hw }

theorem settles (h : Orderly s) {b : ℕ} (hb : b ≤ s.threads.length)
    (hfin : ∀ (i : ℕ) (t : NdgThread), i < b → s.threads[i]? = some t → t.phase = .finished) :
    Orderly { s with stopped := b } :=
  { h with past := hb, stopped := hfin }

end Orderly

section

variable {s s' : Netdevgen} {i : ℕ} {t : NdgThread} {measurePps : ℤ} {buf : List Char}

theorem onThread_rule {P : Netdevgen → Prop} {can : NdgThread → Prop} [DecidablePred can]
    {f : NdgThread → Netdevgen} (h : P s)
    (hf : ∀ t, s.threads[i]? = some t → can t → P (f t)) : P (s.onThread i can f) := by
  unfold onThread
  split
  case h_1 t ht =>
    split
    case isTrue hcan => exact hf t ht hcan
    case isFalse => exact h
  case h_2 => exact h

theorem start_running (ht : s.ndgTsk = some i) (hflag : s.ndgThreadRunning = true) :
    s.startNetdevgenThread = s := by
  simp only [startNetdevgenThread, ht, hflag]

theorem start_idle (hflag : s.ndgThreadRunning = false) :
    s.startNetdevgenThread = s.kthreadRunOnCpu := by
  cases htsk : s.ndgTsk with
  | none => simp only [startNetdevgenThread, htsk]
  | some i => simp only [startNetdevgenThread, htsk, hflag]

theorem stop_running (ht : s.ndgTsk = some i) (hflag : s.ndgThreadRunning = true) :
    s.stopNetdevgenThread = s.kthreadStop i := by
  simp only [stopNetdevgenThread, ht, hflag]

theorem stop_idle (hflag : s.ndgThreadRunning = false) :
    s.stopNetdevgenThread = .ok { s with stopped := s.threads.length } := by
  cases htsk : s.ndgTsk with
  | none => simp only [stopNetdevgenThread, htsk, pure, Except.pure]
  | some i => simp only [stopNetdevgenThread, htsk, hflag, pure, Except.pure]

theorem procWrite_quiet (hc : startsOrStops measurePps buf = false) : ∃ src dst one,
    s.procWrite measurePps buf =
      .ok { s with srcip := src, dstip := dst, oneThreads := one } := by
  unfold startsOrStops at hc
  unfold procWrite
  split
  case isTrue => exact ⟨s.srcip, s.dstip, s.oneThreads + 1, rfl⟩
  case isFalse hx =>
    rw [eq_false_of_ne_true hx, Bool.not_false, Bool.true_and] at hc
    cases hw : protocolOf buf with
    | some w =>
      rw [hw] at hc
      obtain ⟨word, src, dst⟩ := w
      have hmode : measurePps = 0 := not_ne_iff.mp (of_decide_eq_false hc)
      refine ⟨src, dst, s.oneThreads + 1, ?_⟩
      simp only [hmode, if_true]
      rfl
    | none =>
      rw [hw] at hc
      obtain ⟨hstart, hstop⟩ := Bool.or_eq_false_iff.mp hc
      refine ⟨s.srcip, s.dstip, s.oneThreads, ?_⟩
      simp only [hstart, hstop]
      rfl

theorem procWrite_command (hc : startsOrStops measurePps buf = true) :
    (∃ src dst, s.procWrite measurePps buf =
      .ok (startNetdevgenThread { s with srcip := src, dstip := dst })) ∨
    s.procWrite measurePps buf = s.stopNetdevgenThread := by
  unfold startsOrStops at hc
  unfold procWrite
  split
  case isTrue hx =>
    rw [hx] at hc
    exact Bool.noConfusion hc
  case isFalse hx =>
    rw [eq_false_of_ne_true hx, Bool.not_false, Bool.true_and] at hc
    cases hw : protocolOf buf with
    | some w =>
      rw [hw] at hc
      obtain ⟨word, src, dst⟩ := w
      have hmode : measurePps ≠ 0 := of_decide_eq_true hc
      refine .inl ⟨src, dst, ?_⟩
      simp only [if_neg hmode]
      rfl
    | none =>
      rw [hw] at hc
      cases hstart : startWord.isPrefixOf buf with
      | true => exact .inl ⟨s.srcip, s.dstip, if_pos rfl⟩
      | false =>
        rw [hstart, Bool.false_or] at hc
        exact .inr (if_pos hc)

theorem start_orderly (h : Orderly s) (hnone : ∀ t ∈ s.threads, t.phase ≠ .created) :
    Orderly s.startNetdevgenThread := by
  cases hflag : s.ndgThreadRunning with
  | false =>
    rw [start_idle hflag]
    exact h.kthreadRunOnCpu hflag hnone
  | true =>
    obtain ⟨i, -, htsk, -⟩ := h.running_task hflag
    rw [start_running htsk hflag]
    exact h

theorem stop_orderly (h : Orderly s) (hnone : ∀ t ∈ s.threads, t.phase ≠ .created) :
    ∃ s', s.stopNetdevgenThread = .ok s' ∧ Orderly s' := by
  cases hflag : s.ndgThreadRunning with
  | false =>
    refine ⟨_, stop_idle hflag, h.settles (Nat.le_refl _) fun i t _ ht => ?_⟩
    exact h.all_finished hflag hnone ht
  | true =>
    obtain ⟨i, t, htsk, ht, hact⟩ := h.running_task hflag
    have hp := Orderly.active_unfinished hact
    have hlen := h.last i t ht hp
    rw [stop_running htsk hflag]
    have hrun : t.phase ≠ .created := fun hc => by
      rw [h.flag_created ht hc] at hflag
      exact Bool.noConfusion hflag
    have hset : Orderly { s with threads := s.threads.set i { t with shouldStop := true } } :=
      h.set ht hp (iff_of_true hflag hact) fun hc => absurd hc hrun
    refine ⟨_, by simp only [kthreadStop, ht, if_neg hp]; rfl, hset.stops fun j b hb => ?_⟩
    rcases List.mem_cons.mp hb with heq | hb
    · obtain ⟨rfl, rfl⟩ := Prod.mk.inj heq
      exact Nat.le_of_eq hlen.symm
    · exact h.waiting j b hb

theorem threadRun_orderly (h : Orderly s) (ht : s.threads[i]? = some t)
    (hp : t.phase = .created) (built : Bool) : Orderly (s.threadRun i t built) := by
  have hunf : t.phase ≠ .finished := by
    rw [hp]
    decide
  simp only [threadRun, h.created i t ht hp]
  cases built with
  | false => exact h.set ht hunf (iff_of_true rfl (.inr rfl)) fun hc => NdgPhase.noConfusion hc
  | true => exact h.set ht hunf (iff_of_true rfl (.inl rfl)) fun hc => NdgPhase.noConfusion hc

theorem threadXmit_orderly (h : Orderly s) (ht : s.threads[i]? = some t)
    (hp : t.phase = .looping) : Orderly (s.threadXmit i t) := by
  have hact : t.Active := .inl hp
  have hflag : s.ndgThreadRunning = true := h.flag.mpr ⟨i, t, ht, hact⟩
  refine h.set ht (Orderly.active_unfinished hact) (iff_of_true hflag (.inl hp)) fun hc => ?_
  exact NdgPhase.noConfusion (hc.symm.trans hp)

theorem threadLeave_orderly (h : Orderly s) (ht : s.threads[i]? = some t) (hact : t.Active) :
    Orderly (s.threadLeave i t) :=
  h.set ht (Orderly.active_unfinished hact)
    (iff_of_false Bool.noConfusion (by rintro (hp | hp) <;> exact NdgPhase.noConfusion hp))
    fun hc => NdgPhase.noConfusion hc

theorem returned_orderly (h : Orderly s) {b : ℕ} (hb : (i, b) ∈ s.stopping)
    (ht : s.threads[i]? = some t) (hp : t.phase = .finished) :
    Orderly { s with stopping := s.stopping.erase (i, b), stopped := max s.stopped b } := by
  have hlen : i < s.threads.length := (List.getElem?_eq_some_iff.mp ht).1
  have hbi : b ≤ i + 1 := h.waiting i b hb
  have herased : Orderly { s with stopping := s.stopping.erase (i, b) } :=
    h.stops fun j c hc => h.waiting j c (List.mem_of_mem_erase hc)
  refine herased.settles (max_le h.past (hbi.trans hlen)) fun j u hj hu => ?_
  rcases lt_max_iff.mp hj with hj | hj
  · exact h.stopped j u hj hu
  · by_contra hup
    have hlast : j + 1 = s.threads.length := h.last j u hu hup
    obtain rfl : i = j := by omega
    exact hup (Option.some.inj (ht.symm.trans hu) ▸ hp)

theorem step_orderly (h : Orderly s) {e : NdgEvent} (hC : NoneCreated measurePps s e) :
    ∃ s', s.step measurePps e = .ok s' ∧ Orderly s' := by
  cases e with
  | read =>
    refine ⟨s.startNetdevgenThread, ?_, start_orderly h hC⟩
    exact if_neg (not_not.mpr h.start)
  | write buf =>
    cases hc : startsOrStops measurePps buf with
    | false =>
      obtain ⟨src, dst, one, hw⟩ := procWrite_quiet (s := s) hc
      exact ⟨_, hw, h.addresses src dst one⟩
    | true =>
      rcases procWrite_command (s := s) hc with ⟨src, dst, hw⟩ | hw
      · exact ⟨_, hw, start_orderly (h.addresses src dst s.oneThreads) (hC hc)⟩
      · obtain ⟨s', hstop, hs'⟩ := stop_orderly h (hC hc)
        exact ⟨s', hw.trans hstop, hs'⟩
  | run i built =>
    exact ⟨_, rfl, onThread_rule h fun t ht hp => threadRun_orderly h ht hp built⟩
  | xmit i =>
    exact ⟨_, rfl, onThread_rule h fun t ht hp => threadXmit_orderly h ht hp.1⟩
  | leave i =>
    refine ⟨_, rfl, onThread_rule h fun t ht hp => ?_⟩
    exact threadLeave_orderly h ht (hp.symm.imp And.left id)
  | returned i b =>
    exact ⟨_, rfl, onThread_rule h fun t ht hp => returned_orderly h hp.1 ht hp.2⟩

/-- A start before a created thread has run creates a second one. -/
theorem start_untidy (h : Orderly s) (ht : s.threads[i]? = some t) (hp : t.phase = .created) :
    ¬ Tidy s.startNetdevgenThread := by
  rw [start_idle (h.flag_created ht hp)]
  intro htidy
  have hi : i < s.threads.length := (List.getElem?_eq_some_iff.mp ht).1
  have hold : s.kthreadRunOnCpu.threads[i]? = some t := (List.getElem?_append_left hi).trans ht
  have hnew : s.kthreadRunOnCpu.threads[s.threads.length]? = some {} :=
    List.getElem?_concat_length
  have hsame := htidy.one i s.threads.length t {} hold hnew
    ⟨by rw [hp]; decide, h.created i t ht hp⟩ ⟨by decide, rfl⟩
  exact absurd hsame (Nat.ne_of_lt hi)

/-- A stop before a created thread has run returns and leaves it. -/
theorem stop_untidy (h : Orderly s) (ht : s.threads[i]? = some t) (hp : t.phase = .created)
    (hstop : s.stopNetdevgenThread = .ok s') : ¬ Tidy s' := by
  rw [stop_idle (h.flag_created ht hp)] at hstop
  cases hstop
  intro htidy
  have hi : i < s.threads.length := (List.getElem?_eq_some_iff.mp ht).1
  have hfin := htidy.stopped i t hi ht
  rw [hp] at hfin
  exact NdgPhase.noConfusion hfin

theorem noneCreated_of_tidy (h : Orderly s) {e : NdgEvent}
    (hstep : s.step measurePps e = .ok s') (htidy : Tidy s') : NoneCreated measurePps s e := by
  cases e with
  | read =>
    intro t hmem hp
    obtain ⟨i, ht⟩ := List.mem_iff_getElem?.mp hmem
    have hs' : s.startNetdevgenThread = s' :=
      Except.ok.inj ((if_neg (not_not.mpr h.start)).symm.trans hstep)
    exact start_untidy h ht hp (hs' ▸ htidy)
  | write buf =>
    intro hc t hmem hp
    obtain ⟨i, ht⟩ := List.mem_iff_getElem?.mp hmem
    rcases procWrite_command (s := s) hc with ⟨src, dst, hw⟩ | hw
    · have hs' := Except.ok.inj (hw.symm.trans hstep)
      exact start_untidy (h.addresses src dst s.oneThreads) ht hp (hs' ▸ htidy)
    · exact stop_untidy h ht hp (hw.symm.trans hstep) htidy
  | run i built => trivial
  | xmit i => trivial
  | leave i => trivial
  | returned i b => trivial

theorem start_keeps (ht : s.threads[i]? = some t) :
    s.startNetdevgenThread.threads[i]? = some t := by
  unfold startNetdevgenThread
  split
  · exact ht
  · exact (List.getElem?_append_left (List.getElem?_eq_some_iff.mp ht).1).trans ht

theorem set_keeps {j : ℕ} {u v : NdgThread} (ht : s.threads[i]? = some t)
    (hp : t.phase = .finished) (hu : s.threads[j]? = some u) (hup : u.phase ≠ .finished) :
    (s.threads.set j v)[i]? = some t := by
  have hne : j ≠ i := by
    rintro rfl
    exact hup (Option.some.inj (ht.symm.trans hu) ▸ hp)
  rw [List.getElem?_set_ne hne]
  exact ht

theorem stop_keeps (ht : s.threads[i]? = some t) (hp : t.phase = .finished)
    (hstop : s.stopNetdevgenThread = .ok s') : s'.threads[i]? = some t := by
  unfold stopNetdevgenThread kthreadStop at hstop
  split at hstop
  · split at hstop
    · cases hstop
    case h_2 u hu =>
      split at hstop
      · cases hstop
      case isFalse hup =>
        cases hstop
        exact set_keeps ht hp hu hup
  · cases hstop
    exact ht

theorem step_keeps {e : NdgEvent} (ht : s.threads[i]? = some t) (hp : t.phase = .finished)
    (hstep : s.step measurePps e = .ok s') : s'.threads[i]? = some t := by
  cases e with
  | read =>
    simp only [step, procRead, startStop] at hstep
    split at hstep
    · exact stop_keeps ht hp hstep
    · cases hstep
      exact start_keeps ht
  | write buf =>
    cases hc : startsOrStops measurePps buf with
    | false =>
      obtain ⟨src, dst, one, hw⟩ := procWrite_quiet (s := s) hc
      cases hw.symm.trans hstep
      exact ht
    | true =>
      rcases procWrite_command (s := s) hc with ⟨src, dst, hw⟩ | hw
      · cases hw.symm.trans hstep
        exact start_keeps ht
      · exact stop_keeps ht hp (hw.symm.trans hstep)
  | run j built =>
    cases hstep
    refine onThread_rule (P := fun v => v.threads[i]? = some t) ht fun u hu hup => ?_
    have hunf : u.phase ≠ .finished := by
      rw [hup]
      decide
    unfold threadRun
    split
    · exact set_keeps ht hp hu hunf
    · exact set_keeps ht hp hu hunf
  | xmit j =>
    cases hstep
    refine onThread_rule (P := fun v => v.threads[i]? = some t) ht fun u hu hup => ?_
    exact set_keeps ht hp hu (Orderly.active_unfinished (.inl hup.1))
  | leave j =>
    cases hstep
    refine onThread_rule (P := fun v => v.threads[i]? = some t) ht fun u hu hup => ?_
    exact set_keeps ht hp hu (Orderly.active_unfinished (hup.symm.imp And.left id))
  | returned j b =>
    cases hstep
    exact onThread_rule (P := fun v => v.threads[i]? = some t) ht fun _ _ _ => ht

/-- What a returned stop has stopped sends nothing in any run from then on. -/
theorem stopped_silent (htidy : Tidy s) (hi : i < s.stopped) (ht : s.threads[i]? = some t)
    {es : List NdgEvent} (hrun : runSteps (step measurePps) s es = .ok s') :
    s'.threads[i]? = some t := by
  have hp : t.phase = .finished := htidy.stopped i t hi ht
  have hkeep : ∀ (u : Netdevgen) (e : NdgEvent), u.threads[i]? = some t → True →
      Ensures (fun _ => True) (u.step measurePps e) fun v => v.threads[i]? = some t := by
    intro u e hu _
    cases hstep : u.step measurePps e with
    | error e => trivial
    | ok v => exact step_keeps hu hp hstep
  exact (ensures_runSteps hkeep ht (along_trivial s es)).of_eq_ok hrun

end

/-- From a fresh module, every step of a run leads to a tidy state if and only if every
command that starts or stops the generator comes when no created thread has yet to run. -/
theorem generator_tidy_iff (measurePps : ℤ) (es : List NdgEvent) :
    Along (step measurePps) (fun s e => ∃ s', s.step measurePps e = .ok s' ∧ Tidy s') {} es ↔
      Along (step measurePps) (NoneCreated measurePps) {} es := by
  refine along_congr (fun s e h => ⟨?_, fun hC => ?_⟩) (fun s e s' h hC hstep => ?_)
    orderly_init es
  · rintro ⟨s', hstep, htidy⟩
    exact noneCreated_of_tidy h hstep htidy
  · obtain ⟨s', hstep, hs'⟩ := step_orderly h hC
    exact ⟨s', hstep, hs'.tidy⟩
  · obtain ⟨t, ht, hord⟩ := step_orderly h hC
    exact Except.ok.inj (ht.symm.trans hstep) ▸ hord

/-- Two starts before the first thread runs leave two threads that send; a stop there
returns, and the thread of the start before it sends. -/
theorem generator_races :
    (∃ s, runSteps (step 1) {} [.write startWord, .write startWord, .run 0 true, .run 1 true,
        .xmit 0, .xmit 1] = .ok s ∧
      s.threads = [⟨.looping, false, (0, 0), 1⟩, ⟨.looping, false, (0, 0), 1⟩]) ∧
    (∃ s, runSteps (step 1) {} [.write startWord, .write stopWord, .run 0 true, .xmit 0] = .ok s ∧
      s.stopped = 1 ∧ s.threads = [⟨.looping, false, (0, 0), 1⟩]) ∧
    ¬ ∀ es, Along (step 1) (fun s e => ∃ s', s.step 1 e = .ok s' ∧ Tidy s') {} es := by
  refine ⟨⟨_, rfl, rfl⟩, ⟨_, rfl, rfl, rfl⟩, fun hall => ?_⟩
  obtain ⟨-, hrest⟩ := hall [.write startWord, .write startWord]
  obtain ⟨⟨s', hs', htidy⟩, -⟩ := hrest _ rfl
  have hs' : s'.threads = [{}, {}] := (Except.ok.inj hs').symm ▸ rfl
  have hsame := htidy.one 0 1 {} {} (by rw [hs']; rfl) (by rw [hs']; rfl)
    ⟨by decide, rfl⟩ ⟨by decide, rfl⟩
  exact absurd hsame (by decide)

end Netdevgen

end Madcap
