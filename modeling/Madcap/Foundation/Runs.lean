import Madcap.Foundation.Fallible
import Mathlib.Logic.Function.Basic

/-!
# Runs of a fallible machine

A machine takes one input after another and stops at the first fault. What every
step preserves holds after every run. A run may also be restricted to steps that
meet a condition on the state they start from.
-/

namespace Madcap

universe u v

variable {σ ι : Type*} {ε : Type*}

def runSteps {σ : Type u} {ε : Type v} (step : σ → ι → Except ε σ) (s : σ) :
    List ι → Except ε σ
  | [] => .ok s
  | i :: is => do
    let s ← step s i
    runSteps step s is

/-- Every step of a run meets a condition on its input and the state before it. -/
def Along (step : σ → ι → Except ε σ) (C : σ → ι → Prop) (s : σ) : List ι → Prop
  | [] => True
  | i :: is => C s i ∧ ∀ s', step s i = .ok s' → Along step C s' is

variable {step : σ → ι → Except ε σ} {C : σ → ι → Prop} {P : σ → Prop} {E : ε → Prop}
  {s s' : σ} {i : ι} {is : List ι}

theorem runSteps_cons (h : step s i = .ok s') :
    runSteps step s (i :: is) = runSteps step s' is := by
  simp only [runSteps, h, bind, Except.bind]

theorem runSteps_append (s : σ) (is is' : List ι) :
    runSteps step s (is ++ is') = runSteps step s is >>= fun s' => runSteps step s' is' := by
  induction is generalizing s with
  | nil => rfl
  | cons i is ih =>
    rw [List.cons_append, runSteps, runSteps]
    cases step s i with
    | error e => rfl
    | ok s' => exact ih s'

theorem along_cons (hC : C s i) (h : step s i = .ok s') (hs : Along step C s' is) :
    Along step C s (i :: is) := by
  refine ⟨hC, fun t ht => ?_⟩
  rw [h] at ht
  exact Except.ok.inj ht ▸ hs

theorem along_trivial (s : σ) (is : List ι) : Along step (fun _ _ => True) s is := by
  induction is generalizing s with
  | nil => trivial
  | cons i is ih => exact ⟨trivial, fun s' _ => ih s'⟩

/-- A condition that keeps an invariant can be exchanged, along a run, for another that
means the same while the invariant holds. -/
theorem along_congr {P : σ → ι → Prop} {Inv : σ → Prop}
    (hcongr : ∀ s i, Inv s → (P s i ↔ C s i))
    (hkeep : ∀ s i s', Inv s → C s i → step s i = .ok s' → Inv s') (hs : Inv s) (is : List ι) :
    Along step P s is ↔ Along step C s is := by
  induction is generalizing s with
  | nil => exact Iff.rfl
  | cons i is ih =>
    unfold Along
    rw [hcongr s i hs]
    exact and_congr_right fun hC =>
      forall_congr' fun s' => imp_congr_right fun h => ih (hkeep s i s' hs hC h)

/-- A property holds in every state a run comes to if and only if it holds at the start and
every step of the run returns with it. -/
theorem forall_prefix_iff_along :
    (∀ is', is' <+: is → ∃ s', runSteps step s is' = .ok s' ∧ P s') ↔
      P s ∧ Along step (fun s i => ∃ s', step s i = .ok s' ∧ P s') s is := by
  induction is generalizing s with
  | nil =>
    constructor
    · intro h
      obtain ⟨s', hs', hP⟩ := h [] (List.prefix_refl [])
      exact ⟨Except.ok.inj hs' ▸ hP, trivial⟩
    · rintro ⟨hP, -⟩ is' his'
      obtain rfl := List.prefix_nil.mp his'
      exact ⟨s, rfl, hP⟩
  | cons i is ih =>
    constructor
    · intro h
      obtain ⟨s₀, hs₀, hP⟩ := h [] (List.nil_prefix)
      obtain ⟨s₁, hs₁, hP₁⟩ := h [i] (List.prefix_cons_inj i |>.mpr List.nil_prefix)
      obtain ⟨t, ht, hnil⟩ := bind_eq_ok.mp hs₁
      obtain rfl := Except.ok.inj hnil
      refine ⟨Except.ok.inj hs₀ ▸ hP, ⟨t, ht, hP₁⟩, fun s' hs' => ?_⟩
      obtain rfl := Except.ok.inj (ht.symm.trans hs')
      refine (ih.mp fun is' his' => ?_).2
      obtain ⟨u, hu, hPu⟩ := h (i :: is') ((List.prefix_cons_inj i).mpr his')
      exact ⟨u, (runSteps_cons ht).symm.trans hu, hPu⟩
    · rintro ⟨hP, ⟨t, ht, hPt⟩, hrest⟩ is' his'
      rcases List.prefix_cons_iff.mp his' with rfl | ⟨js, rfl, hjs⟩
      · exact ⟨s, rfl, hP⟩
      · obtain ⟨u, hu, hPu⟩ := ih.mpr ⟨hPt, hrest t ht⟩ js hjs
        exact ⟨u, (runSteps_cons ht).trans hu, hPu⟩

/-- The invariant rule for runs. -/
theorem ensures_runSteps (hstep : ∀ s i, P s → C s i → Ensures E (step s i) P) (hs : P s)
    (halong : Along step C s is) : Ensures E (runSteps step s is) P := by
  induction is generalizing s with
  | nil => exact hs
  | cons i is ih =>
    obtain ⟨hC, hrest⟩ := halong
    have hfirst := hstep s i hs hC
    unfold runSteps
    cases h : step s i with
    | error e =>
      rw [h] at hfirst
      exact hfirst
    | ok s' =>
      rw [h] at hfirst
      exact ih hfirst (hrest s' h)

/-- A run that meets a condition is followed by a machine that cannot fail and reads the
same inputs. -/
theorem runSteps_replay {τ : Type*} {R : τ → σ → Prop} {read : τ → ι → τ}
    (hstep : ∀ t s i, R t s → C s i → ∃ s', step s i = .ok s' ∧ R (read t i) s') {t : τ}
    (hs : R t s) (halong : Along step C s is) :
    ∃ s', runSteps step s is = .ok s' ∧ R (is.foldl read t) s' := by
  induction is generalizing s t with
  | nil => exact ⟨s, rfl, hs⟩
  | cons i is ih =>
    obtain ⟨hC, hrest⟩ := halong
    obtain ⟨s', hi, hs'⟩ := hstep t s i hs hC
    obtain ⟨s'', hrun, hlast⟩ := ih hs' (hrest s' hi)
    exact ⟨s'', (runSteps_cons hi).trans hrun, hlast⟩

section

variable {α : Type*}

def answers (step : σ → ι → α × σ) (s : σ) : List ι → List α × σ
  | [] => ([], s)
  | i :: is => ((step s i).1 :: (answers step (step s i).2 is).1, (answers step (step s i).2 is).2)

theorem answers_length (step : σ → ι → α × σ) (s : σ) (is : List ι) :
    (answers step s is).1.length = is.length := by
  induction is generalizing s with
  | nil => rfl
  | cons i is ih => rw [answers, List.length_cons, List.length_cons, ih]

variable {step : σ → ι → α × σ}

theorem answers_append (s : σ) (is is' : List ι) : answers step s (is ++ is') =
    ((answers step s is).1 ++ (answers step (answers step s is).2 is').1,
      (answers step (answers step s is).2 is').2) := by
  induction is generalizing s with
  | nil => rfl
  | cons i is ih => simp only [answers, List.cons_append, ih]

/-- The invariant rule for machines that answer. -/
theorem answers_invariant {P : σ → Prop} (hstep : ∀ s i, P s → P (step s i).2) {s : σ} (hs : P s)
    (is : List ι) : P (answers step s is).2 := by
  induction is generalizing s with
  | nil => exact hs
  | cons i is ih => exact ih (hstep s i hs)

theorem answers_keeps {P : σ → Prop} {C : ι → Prop} (hstep : ∀ s i, C i → P s → P (step s i).2)
    {s : σ} (hs : P s) {is : List ι} (his : ∀ i ∈ is, C i) : P (answers step s is).2 := by
  induction is generalizing s with
  | nil => exact hs
  | cons i is ih =>
    exact ih (hstep s i (his i List.mem_cons_self) hs) fun j hj => his j (List.mem_cons_of_mem i hj)

/-- Two machines that answer alike while related answer alike throughout. -/
theorem answers_simulation {τ : Type*} {step' : τ → ι → α × τ} {R : σ → τ → Prop}
    (hstep : ∀ s t i, R s t → (step s i).1 = (step' t i).1 ∧ R (step s i).2 (step' t i).2)
    {s : σ} {t : τ} (hs : R s t) (is : List ι) :
    (answers step s is).1 = (answers step' t is).1 ∧
      R (answers step s is).2 (answers step' t is).2 := by
  induction is generalizing s t with
  | nil => exact ⟨rfl, hs⟩
  | cons i is ih =>
    obtain ⟨hanswer, hnext⟩ := hstep s t i hs
    obtain ⟨hanswers, hlast⟩ := ih hnext
    exact ⟨congrArg₂ List.cons hanswer hanswers, hlast⟩

/-- The answers to a list of inputs and the state after them, up to the first fault. -/
def runAnswers (step : σ → ι → Except ε (α × σ)) (s : σ) : List ι → Except ε (List α × σ)
  | [] => .ok ([], s)
  | i :: is => do
    let (a, s) ← step s i
    let (as, s) ← runAnswers step s is
    return (a :: as, s)

theorem runAnswers_length {step : σ → ι → Except ε (α × σ)} {s s' : σ} {is : List ι} {as : List α}
    (h : runAnswers step s is = .ok (as, s')) : as.length = is.length := by
  induction is generalizing s as with
  | nil =>
    obtain ⟨rfl, -⟩ := Prod.mk.inj (Except.ok.inj h)
    rfl
  | cons i is ih =>
    rw [runAnswers] at h
    cases hi : step s i with
    | error e =>
      rw [hi] at h
      cases h
    | ok p =>
      rw [hi] at h
      simp only [bind, Except.bind] at h
      cases hrun : runAnswers step p.2 is with
      | error e =>
        rw [hrun] at h
        cases h
      | ok q =>
        rw [hrun] at h
        obtain ⟨rfl, rfl⟩ := Prod.mk.inj (Except.ok.inj h)
        rw [List.length_cons, List.length_cons, ih hrun]

theorem runAnswers_invariant {step : σ → ι → Except ε (α × σ)} {P : σ → Prop}
    {C : ι → Prop} (hstep : ∀ s i a s', P s → C i → step s i = .ok (a, s') → P s') {s s' : σ}
    {is : List ι} {as : List α} (hs : P s) (his : ∀ i ∈ is, C i)
    (hrun : runAnswers step s is = .ok (as, s')) : P s' := by
  induction is generalizing s as with
  | nil => exact (Prod.mk.inj (Except.ok.inj hrun)).2 ▸ hs
  | cons i is ih =>
    rw [runAnswers] at hrun
    obtain ⟨⟨a, s₁⟩, hi, hrest⟩ := bind_eq_ok.mp hrun
    obtain ⟨⟨as₁, s₂⟩, hlast, hend⟩ := bind_eq_ok.mp hrest
    obtain ⟨-, rfl⟩ := Prod.mk.inj (Except.ok.inj hend)
    have hs₁ := hstep s i a s₁ hs (his i List.mem_cons_self) hi
    exact ih hs₁ (fun j hj => his j (List.mem_cons_of_mem i hj)) hlast

/-- The steps of a machine that answers, without the answers. -/
def silent (step : σ → ι → Except ε (α × σ)) (s : σ) (i : ι) : Except ε σ :=
  (step s i).map Prod.snd

/-- A fallible machine does what a machine that cannot fail does, along the runs that meet a
condition. -/
theorem runAnswers_simulation {τ : Type*} {step : σ → ι → Except ε (α × σ)}
    {step' : τ → ι → α × τ} {R : σ → τ → Prop} {C : σ → ι → Prop}
    (hstep : ∀ s t i, R s t → C s i →
      ∃ s', step s i = .ok ((step' t i).1, s') ∧ R s' (step' t i).2)
    {s : σ} {t : τ} (hs : R s t) {is : List ι} (halong : Along (silent step) C s is) :
    ∃ s', runAnswers step s is = .ok ((answers step' t is).1, s') ∧
      R s' (answers step' t is).2 := by
  induction is generalizing s t with
  | nil => exact ⟨s, rfl, hs⟩
  | cons i is ih =>
    obtain ⟨hC, hrest⟩ := halong
    obtain ⟨s', hi, hs'⟩ := hstep s t i hs hC
    have hsilent : silent step s i = .ok s' := by
      unfold silent
      rw [hi]
      rfl
    obtain ⟨s'', hrun, hlast⟩ := ih hs' (hrest s' hsilent)
    refine ⟨s'', ?_, hlast⟩
    rw [runAnswers, hi]
    simp only [bind, Except.bind, hrun]
    rfl

/-- Every step of a run meets a condition on its input and the state before it. -/
def Each (step : σ → ι → α × σ) (C : σ → ι → Prop) (s : σ) : List ι → Prop
  | [] => True
  | i :: is => C s i ∧ Each step C (step s i).2 is

/-- A condition that keeps an invariant can be exchanged, along a run, for another that
means the same while the invariant holds. -/
theorem each_congr {C P : σ → ι → Prop} {Inv : σ → Prop}
    (hcongr : ∀ s i, Inv s → (P s i ↔ C s i))
    (hkeep : ∀ s i, Inv s → P s i → Inv (step s i).2) {s : σ} (hs : Inv s) (is : List ι) :
    Each step P s is ↔ Each step C s is := by
  induction is generalizing s with
  | nil => exact Iff.rfl
  | cons i is ih =>
    unfold Each
    rw [← hcongr s i hs]
    exact and_congr_right fun hP => ih (hkeep s i hs hP)

end

/-- Machines of which each input concerns one at most. An input that concerns none is refused. -/
structure Family (κ τ ι α : Type*) where
  target : ι → Option κ
  part : τ → ι → α × τ
  refused : ι → α

namespace Family

variable {κ τ α : Type*} [DecidableEq κ] (F : Family κ τ ι α)

def move (f : κ → τ) (i : ι) : α × (κ → τ) :=
  match F.target i with
  | none => (F.refused i, f)
  | some k => ((F.part (f k) i).1, Function.update f k (F.part (f k) i).2)

def concerning (k : κ) (is : List ι) : List ι := is.filter fun i => F.target i = some k

/-- What that machine answered, among all answers to a list of inputs. -/
def answersOf (k : κ) (is : List ι) (as : List α) : List α :=
  ((is.zip as).filter fun p => F.target p.1 = some k).map Prod.snd

variable {F} {k : κ} {f : κ → τ} {i : ι}

theorem move_of_ne (h : F.target i ≠ some k) : (F.move f i).2 k = f k := by
  unfold move
  cases htarget : F.target i with
  | none => rfl
  | some k' =>
    refine Function.update_of_ne (fun hk => h ?_) _ f
    rw [htarget, hk]

/-- What each machine keeps, all of them keep together. -/
theorem move_keeps {P : κ → τ → Prop} (hpart : ∀ k t i, P k t → P k (F.part t i).2)
    (hf : ∀ k, P k (f k)) (k : κ) : P k ((F.move f i).2 k) := by
  unfold move
  cases F.target i with
  | none => exact hf k
  | some k' =>
    dsimp only
    by_cases hk : k = k'
    · subst hk
      rw [Function.update_self]
      exact hpart k (f k) i (hf k)
    · rw [Function.update_of_ne hk]
      exact hf k

/-- A machine in a family runs as it would alone on the inputs that concern it. -/
theorem answers_alone (F : Family κ τ ι α) (k : κ) (f : κ → τ) (is : List ι) :
    (F.answersOf k is (answers F.move f is).1, (answers F.move f is).2 k) =
      answers F.part (f k) (F.concerning k is) := by
  induction is generalizing f with
  | nil => rfl
  | cons i is ih =>
    rw [answers]
    unfold answersOf concerning at ih ⊢
    rw [List.zip_cons_cons]
    by_cases htarget : F.target i = some k
    · have hmove : F.move f i = ((F.part (f k) i).1, Function.update f k (F.part (f k) i).2) := by
        unfold move
        rw [htarget]
      rw [List.filter_cons_of_pos (by simpa using htarget),
        List.filter_cons_of_pos (by simpa using htarget), List.map_cons, answers]
      have hrest := ih (F.move f i).2
      rw [hmove] at hrest ⊢
      dsimp only at hrest ⊢
      rw [Function.update_self] at hrest
      rw [← hrest]
    · have hrest := ih (F.move f i).2
      rw [move_of_ne htarget] at hrest
      rw [List.filter_cons_of_neg (by simpa using htarget),
        List.filter_cons_of_neg (by simpa using htarget)]
      exact hrest

theorem forall_of_answersOf {is : List ι} {as : List α} (hlen : as.length = is.length)
    (htarget : ∀ i ∈ is, ∃ k, F.target i = some k) {P : α → Prop}
    (h : ∀ k, ∀ a ∈ F.answersOf k is as, P a) : ∀ a ∈ as, P a := by
  intro a ha
  have hzip : (is.zip as).map Prod.snd = as := List.map_snd_zip (Nat.le_of_eq hlen)
  rw [← hzip] at ha
  obtain ⟨⟨i, a⟩, hmem, rfl⟩ := List.mem_map.mp ha
  obtain ⟨k, hk⟩ := htarget i (List.of_mem_zip hmem).1
  exact h k a (List.mem_map.mpr ⟨(i, a), List.mem_filter.mpr ⟨hmem, by simpa using hk⟩, rfl⟩)

end Family

/-- A machine that cannot fault where an invariant holds runs as one that cannot fault. -/
theorem runAnswers_total {α : Type*} {step : σ → ι → Except ε (α × σ)} {step' : σ → ι → α × σ}
    {P : σ → Prop} (hstep : ∀ s i, P s → step s i = .ok (step' s i))
    (hkeep : ∀ s i, P s → P (step' s i).2) {s : σ} (hs : P s) (is : List ι) :
    runAnswers step s is = .ok (answers step' s is) := by
  induction is generalizing s with
  | nil => rfl
  | cons i is ih =>
    rw [runAnswers, hstep s i hs]
    simp only [bind, Except.bind, ih (hkeep s i hs)]
    rfl

section

variable {κ β ε : Type*} {α ι σ : Type*}

end

end Madcap
