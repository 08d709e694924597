import Mathlib.Tactic.Common

/-!
# Runs of a transition function

A run is a fold of a step function over a list of events. What is proved
about one step is carried over a run by three rules: an invariant kept by every
step whose event is admissible holds at the end (`Run.invariant`), two
runs over the same events whose steps keep a relation end related
(`Run.simulation`), and what each event leaves is left at the end
(`Run.leaves`). Admissibility is a condition on an event *and the state
it meets* (`Run.AllSteps`), so that it can speak of what the event is about
to do.
-/

namespace Run

variable {σ τ ε : Type}

/-- The state a run of events ends in. -/
def run (step : σ → ε → σ) (s : σ) (es : List ε) : σ := es.foldl step s

/-- Every event of a run satisfies `P` in the state it meets. -/
def AllSteps (step : σ → ε → σ) (P : σ → ε → Prop) : σ → List ε → Prop
  | _, [] => True
  | s, e :: es => P s e ∧ AllSteps step P (step s e) es

instance decidableAllSteps (step : σ → ε → σ) (P : σ → ε → Prop)
    [∀ s e, Decidable (P s e)] : ∀ s es, Decidable (AllSteps step P s es)
  | _, [] => .isTrue trivial
  | s, e :: es =>
    haveI := decidableAllSteps step P (step s e) es
    inferInstanceAs (Decidable (P s e ∧ AllSteps step P (step s e) es))

/-- Some event of a run satisfies `P` in the state it meets. -/
def SomeStep (step : σ → ε → σ) (P : σ → ε → Prop) : σ → List ε → Prop
  | _, [] => False
  | s, e :: es => P s e ∨ SomeStep step P (step s e) es

/-- The events of a run that satisfy `p` in the state they meet. -/
def countSteps (step : σ → ε → σ) (p : σ → ε → Bool) : σ → List ε → ℕ
  | _, [] => 0
  | s, e :: es => (if p s e then 1 else 0) + countSteps step p (step s e) es

variable {step step₁ : σ → ε → σ} {step' : τ → ε → τ} {P P' Q : σ → ε → Prop} {s : σ} {t : τ}
  {es es' : List ε} {e : ε}

@[simp] theorem run_nil : run step s [] = s := rfl

@[simp] theorem run_cons : run step s (e :: es) = run step (step s e) es := rfl

theorem run_append : run step s (es ++ es') = run step (run step s es) es' :=
  List.foldl_append

@[simp] theorem allSteps_nil : AllSteps step P s [] := trivial

@[simp] theorem allSteps_cons :
    AllSteps step P s (e :: es) ↔ P s e ∧ AllSteps step P (step s e) es := Iff.rfl

theorem allSteps_append :
    AllSteps step P s (es ++ es') ↔
      AllSteps step P s es ∧ AllSteps step P (run step s es) es' := by
  induction es generalizing s with
  | nil => simp
  | cons e es ih => simp [ih, and_assoc]

/-- A run is admissible for what its steps imply. -/
theorem AllSteps.mono (h : AllSteps step P s es) (hpq : ∀ s e, P s e → Q s e) :
    AllSteps step Q s es := by
  induction es generalizing s with
  | nil => trivial
  | cons e es ih => exact ⟨hpq s e h.1, ih h.2⟩

/-- A run whose events are admissible whatever they meet. -/
theorem AllSteps.of_forall (h : ∀ e ∈ es, ∀ s, P s e) : AllSteps step P s es := by
  induction es generalizing s with
  | nil => trivial
  | cons e es ih =>
    exact ⟨h e List.mem_cons_self s, ih fun e' he => h e' (List.mem_cons_of_mem e he)⟩

theorem AllSteps.and (h : AllSteps step P s es) (h' : AllSteps step Q s es) :
    AllSteps step (fun s e => P s e ∧ Q s e) s es := by
  induction es generalizing s with
  | nil => trivial
  | cons e es ih => exact ⟨⟨h.1, h'.1⟩, ih h.2 h'.2⟩

/-- A condition on every event of the run holds as each is met. -/
theorem AllSteps.and_forall {R : ε → Prop} (h : AllSteps step P s es) (hr : ∀ e ∈ es, R e) :
    AllSteps step (fun s e => P s e ∧ R e) s es := by
  induction es generalizing s with
  | nil => trivial
  | cons e es ih =>
    exact ⟨⟨h.1, hr e List.mem_cons_self⟩, ih h.2 fun e' he => hr e' (List.mem_cons_of_mem e he)⟩

/-- **The invariant rule.** -/
theorem invariant {I : σ → Prop} (hstep : ∀ s e, I s → P s e → I (step s e))
    (h : I s) (hall : AllSteps step P s es) : I (run step s es) := by
  induction es generalizing s with
  | nil => exact h
  | cons e es ih => exact ih (hstep s e h hall.1) hall.2

/-- The invariant rule when every event is admissible. -/
theorem invariant_all {I : σ → Prop} (hstep : ∀ s e, I s → I (step s e)) (h : I s)
    (es : List ε) : I (run step s es) := by
  induction es generalizing s with
  | nil => exact h
  | cons e es ih => exact ih (hstep s e h)

/-- **The simulation rule.** -/
theorem simulation {R : σ → τ → Prop}
    (hstep : ∀ s t e, R s t → P s e → R (step s e) (step' t e)) (h : R s t)
    (hall : AllSteps step P s es) : R (run step s es) (run step' t es) := by
  induction es generalizing s t with
  | nil => exact h
  | cons e es ih => exact ih (hstep s t e h hall.1) hall.2

/-- **What every event leaves.** Each step keeps a relation to the state before, and leaves what
the event is for; where the relation keeps that, a run leaves it for all its events. -/
theorem leaves {R : σ → σ → Prop} {G : ε → σ → Prop} (hrefl : ∀ s, R s s)
    (htrans : ∀ s s' s'', R s s' → R s' s'' → R s s'') (hstep : ∀ s e, R s (step s e))
    (hleaves : ∀ s e, G e (step s e)) (hkept : ∀ e s s', R s s' → G e s → G e s') (s : σ)
    (es : List ε) : R s (run step s es) ∧ ∀ e ∈ es, G e (run step s es) := by
  induction es generalizing s with
  | nil => exact ⟨hrefl s, fun _ he => absurd he List.not_mem_nil⟩
  | cons e es ih =>
    obtain ⟨hrun, hall⟩ := ih (step s e)
    refine ⟨htrans _ _ _ (hstep s e) hrun, fun e' he => ?_⟩
    obtain rfl | he := List.mem_cons.mp he
    · exact hkept _ _ _ hrun (hleaves s _)
    · exact hall e' he

/-- An invariant makes every admissible event admissible for a condition that
holds of it under the invariant. -/
theorem AllSteps.of_invariant {I : σ → Prop} (hstep : ∀ s e, I s → P s e → I (step s e))
    (hq : ∀ s e, I s → P s e → Q s e) (h : I s) (hall : AllSteps step P s es) :
    AllSteps step Q s es := by
  induction es generalizing s with
  | nil => trivial
  | cons e es ih =>
    exact ⟨hq s e h hall.1, ih (hstep s e h hall.1) hall.2⟩

/-! ### Steps that agree

Two step functions that agree on whatever a run meets. -/

/-- They make the same run of it. -/
theorem run_agree {I : σ → Prop}
    (hstep : ∀ s e, I s → P s e → step s e = step₁ s e ∧ I (step s e)) (h : I s)
    (hall : AllSteps step P s es) : run step s es = run step₁ s es := by
  induction es generalizing s with
  | nil => rfl
  | cons e es ih =>
    obtain ⟨heq, hi⟩ := hstep s e h hall.1
    rw [run_cons, run_cons, ← heq]
    exact ih hi hall.2

/-- What is admissible for one is for the other. -/
theorem AllSteps.agree {I : σ → Prop}
    (hstep : ∀ s e, I s → P s e → step s e = step₁ s e ∧ I (step s e)) (h : I s)
    (hall : AllSteps step P s es) (hq : AllSteps step Q s es) : AllSteps step₁ Q s es := by
  induction es generalizing s with
  | nil => trivial
  | cons e es ih =>
    obtain ⟨heq, hi⟩ := hstep s e h hall.1
    refine ⟨hq.1, ?_⟩
    rw [← heq]
    exact ih hi hall.2 hq.2

theorem countSteps_agree {I : σ → Prop} (p : σ → ε → Bool)
    (hstep : ∀ s e, I s → P s e → step s e = step₁ s e ∧ I (step s e)) (h : I s)
    (hall : AllSteps step P s es) : countSteps step p s es = countSteps step₁ p s es := by
  induction es generalizing s with
  | nil => rfl
  | cons e es ih =>
    obtain ⟨heq, hi⟩ := hstep s e h hall.1
    rw [countSteps, countSteps, ← heq, ih hi hall.2]

/-- What happens in the run of one happens in that of the other. -/
theorem SomeStep.agree {I : σ → Prop}
    (hstep : ∀ s e, I s → P s e → step s e = step₁ s e ∧ I (step s e))
    (hq : ∀ s e, step s e = step₁ s e → P' s e → Q s e) (h : I s)
    (hall : AllSteps step P s es) (hsome : SomeStep step₁ P' s es) : SomeStep step Q s es := by
  induction es generalizing s with
  | nil => exact hsome
  | cons e es ih =>
    obtain ⟨heq, hi⟩ := hstep s e h hall.1
    refine hsome.imp (hq s e heq) fun hlater => ih hi hall.2 ?_
    rw [heq]
    exact hlater

end Run
