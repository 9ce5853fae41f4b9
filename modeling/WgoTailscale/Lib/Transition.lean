import Mathlib.Data.List.Basic

/-!
# Transition systems and their runs

A `System` has states, actions and an executable step function; an action that is not enabled in a
state has no step. Two views of a run are used. `Reach P s₀ s` says that `s` is reached from `s₀` by
steps that all satisfy `P`, a condition on the state before the step and the action; its induction
is the invariant rule `Reach.invariant`. `run` executes a given list of actions, so a particular run
can be evaluated, and `reach_of_run` turns it into a `Reach`; `runIf` checks `P` on the way.
`Visits` and `Meets` speak about the states and the steps of one given list of actions, for results
that characterise the good runs exactly (`visits_iff_meets`).
-/

/-- A transition system with an executable step function. -/
structure System (σ α : Type) where
  step : σ → α → Option σ

namespace System

variable {σ α : Type} (S : System σ α)

/-- `s` is reached from `s₀` by steps that all satisfy `P`. -/
inductive Reach (P : σ → α → Prop) (s₀ : σ) : σ → Prop
  | refl : Reach P s₀ s₀
  | step {s s' : σ} {a : α} (h : Reach P s₀ s) (hP : P s a) (hs : S.step s a = some s') :
      Reach P s₀ s'

/-- The state after a list of actions, if they are all enabled in turn. -/
def run (s : σ) : List α → Option σ
  | [] => some s
  | a :: as => (S.step s a).bind fun s' => run s' as

/-- The state after a list of actions, if they are all enabled and satisfy `P` in turn. -/
def runIf (P : σ → α → Prop) [∀ s a, Decidable (P s a)] (s : σ) : List α → Option σ
  | [] => some s
  | a :: as => if P s a then (S.step s a).bind fun s' => runIf P s' as else none

/-- `Q` holds in every state that the list of actions visits. -/
def Visits (Q : σ → Prop) : σ → List α → Prop
  | s, [] => Q s
  | s, a :: as => Q s ∧ ∀ s', S.step s a = some s' → Visits Q s' as

/-- Every step that the list of actions takes satisfies `P`. -/
def Meets (P : σ → α → Prop) : σ → List α → Prop
  | _, [] => True
  | s, a :: as => ∀ s', S.step s a = some s' → P s a ∧ Meets P s' as

variable {S}

variable {P : σ → α → Prop} {s₀ s s' : σ} {Q J : σ → Prop} {as : List α}

/-- The invariant rule: what holds initially and is kept by every admitted step holds in every
state reached. -/
theorem Reach.invariant {I : σ → Prop} (h : S.Reach P s₀ s) (hinit : I s₀)
    (hstep : ∀ s s' a, I s → P s a → S.step s a = some s' → I s') : I s := by
  induction h with
  | refl => exact hinit
  | step _ hP hs ih => exact hstep _ _ _ ih hP hs

theorem Reach.mono {Q : σ → α → Prop} (h : S.Reach P s₀ s) (hPQ : ∀ s a, P s a → Q s a) :
    S.Reach Q s₀ s := by
  induction h with
  | refl => exact .refl
  | step _ hP hs ih => exact .step ih (hPQ _ _ hP) hs

/-- What an invariant says about the steps may be added to the condition on them. -/
theorem Reach.strengthen {Q : σ → α → Prop} (h : S.Reach P s₀ s) (hJ : ∀ s, S.Reach P s₀ s → J s)
    (hQ : ∀ s a, J s → Q s a) : S.Reach Q s₀ s := by
  induction h with
  | refl => exact .refl
  | step h _ hs ih => exact .step ih (hQ _ _ (hJ _ h)) hs

theorem Reach.trans {s₁ s₂ : σ} (h : S.Reach P s₀ s₁) (h' : S.Reach P s₁ s₂) : S.Reach P s₀ s₂ := by
  induction h' with
  | refl => exact h
  | step _ hP hs ih => exact .step ih hP hs

/-- An executed list of actions whose steps satisfy `P` is a run. -/
theorem reach_of_run (h : S.run s as = some s') (hP : S.Meets P s as) : S.Reach P s s' := by
  induction as generalizing s with
  | nil =>
    cases h
    exact .refl
  | cons a as ih =>
    obtain ⟨s₁, hs, hrun⟩ := Option.bind_eq_some_iff.mp h
    obtain ⟨hPa, hrest⟩ := hP s₁ hs
    exact Reach.trans (.step .refl hPa hs) (ih hrun hrest)

/-- An execution that checks `P` on the way is a run; `view` is what is looked at in its last
state. -/
theorem exists_reach_of_runIf [∀ s a, Decidable (P s a)] {β : Type} {view : σ → β} {b : β}
    (h : (S.runIf P s as).map view = some b) : ∃ s', S.Reach P s s' ∧ view s' = b := by
  obtain ⟨s', hrun, rfl⟩ := Option.map_eq_some_iff.mp h
  refine ⟨s', ?_, rfl⟩
  clear h
  induction as generalizing s with
  | nil =>
    cases hrun
    exact .refl
  | cons a as ih =>
    unfold runIf at hrun
    split at hrun
    · next hP =>
      obtain ⟨s₁, hs, hrest⟩ := Option.bind_eq_some_iff.mp hrun
      exact Reach.trans (.step .refl hP hs) (ih hrest)
    · cases hrun

/-- An execution that checks `P` on the way meets it. -/
theorem meets_of_runIf [∀ s a, Decidable (P s a)] (h : (S.runIf P s as).isSome = true) :
    S.Meets P s as := by
  induction as generalizing s with
  | nil => trivial
  | cons a as ih =>
    unfold runIf at h
    split at h
    · next hP =>
      intro s' hs
      rw [hs] at h
      exact ⟨hP, ih h⟩
    · cases h

/-- The invariant rule for one given list of actions. -/
theorem run_invariant {I : σ → Prop} (h : S.run s as = some s') (hs : I s)
    (hstep : ∀ s s' a, a ∈ as → I s → S.step s a = some s' → I s') : I s' := by
  induction as generalizing s with
  | nil =>
    cases h
    exact hs
  | cons a as ih =>
    obtain ⟨s₁, hfirst, hrun⟩ := Option.bind_eq_some_iff.mp h
    exact ih hrun (hstep s s₁ a List.mem_cons_self hs hfirst) fun s s' a ha =>
      hstep s s' a (List.mem_cons_of_mem _ ha)

/-- The state after a list of actions is visited. -/
theorem Visits.of_run (h : S.Visits Q s as) (hrun : S.run s as = some s') : Q s' := by
  induction as generalizing s with
  | nil =>
    cases hrun
    exact h
  | cons a as ih =>
    obtain ⟨s₁, hfirst, hrest⟩ := Option.bind_eq_some_iff.mp hrun
    exact ih (h.2 s₁ hfirst) hrest

theorem Visits.mono {Q' : σ → Prop} (h : S.Visits Q s as) (hQ : ∀ s, Q s → Q' s) :
    S.Visits Q' s as := by
  induction as generalizing s with
  | nil => exact hQ s h
  | cons a as ih => exact ⟨hQ s h.1, fun s' hstep => ih (h.2 s' hstep)⟩

theorem meets_of_forall (h : ∀ a ∈ as, ∀ s, P s a) (s : σ) : S.Meets P s as := by
  induction as generalizing s with
  | nil => trivial
  | cons a as ih =>
    exact fun s' _ => ⟨h a List.mem_cons_self s, ih (fun a ha => h a (List.mem_cons_of_mem _ ha)) s'⟩

theorem meets_true (s : σ) (as : List α) : S.Meets (fun _ _ => True) s as :=
  meets_of_forall (fun _ _ _ => trivial) s

/-- If from a state with `Q` a step leads to a state with `Q` exactly when it satisfies `P`, then a
run visits only states with `Q` exactly when all its steps satisfy `P`. The invariant `J` is
maintained by every step. -/
theorem visits_iff_meets (hJ : ∀ s s' a, J s → S.step s a = some s' → J s')
    (hiff : ∀ s s' a, J s → Q s → S.step s a = some s' → (Q s' ↔ P s a)) (hs : J s) (hQ : Q s)
    (as : List α) : S.Visits Q s as ↔ S.Meets P s as := by
  induction as generalizing s with
  | nil => simp [Visits, Meets, hQ]
  | cons a as ih =>
    simp only [Visits, Meets, hQ, true_and]
    refine forall_congr' fun s' => imp_congr_right fun hstep => ?_
    have hJ' := hJ s s' a hs hstep
    constructor
    · intro hv
      have hQ' : Q s' := by
        cases as with
        | nil => exact hv
        | cons => exact hv.1
      exact ⟨(hiff s s' a hs hQ hstep).mp hQ', (ih hJ' hQ').mp hv⟩
    · rintro ⟨hP, hm⟩
      have hQ' := (hiff s s' a hs hQ hstep).mpr hP
      exact (ih hJ' hQ').mpr hm

/-- A run whose steps all satisfy `P` visits only states with what an invariant of these steps
implies. -/
theorem visits_of_meets (hJ : ∀ s s' a, J s → P s a → S.step s a = some s' → J s')
    (hQ : ∀ s, J s → Q s) (hs : J s) (h : S.Meets P s as) : S.Visits Q s as := by
  induction as generalizing s with
  | nil => exact hQ s hs
  | cons a as ih =>
    refine ⟨hQ s hs, fun s' hstep => ?_⟩
    obtain ⟨hP, hrest⟩ := h s' hstep
    exact ih (hJ s s' a hs hP hstep) hrest

/-- A run visits only states with what an invariant implies. -/
theorem visits_of_invariant (hJ : ∀ s s' a, J s → S.step s a = some s' → J s') (hQ : ∀ s, J s → Q s)
    (hs : J s) (as : List α) : S.Visits Q s as :=
  visits_of_meets (fun s s' a h _ => hJ s s' a h) hQ hs (meets_true s as)

/-- A run visits only states that are reached. -/
theorem visits_of_reach (hP : ∀ s a, P s a) (hQ : ∀ s', S.Reach P s s' → Q s') (as : List α) :
    S.Visits Q s as :=
  visits_of_invariant (J := S.Reach P s) (fun _ _ a h hs => .step h (hP _ a) hs) hQ .refl as

/-- A run takes only steps that satisfy what an invariant implies. -/
theorem meets_of_invariant (hJ : ∀ s s' a, J s → S.step s a = some s' → J s')
    (hP : ∀ s a, J s → P s a) (hs : J s) (as : List α) : S.Meets P s as := by
  induction as generalizing s with
  | nil => trivial
  | cons a as ih => exact fun s' hstep => ⟨hP s a hs, ih (hJ s s' a hs hstep)⟩

end System
