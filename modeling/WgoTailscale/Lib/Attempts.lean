import Mathlib.Data.List.Basic

/-!
# Attempts in order

A list of things to try, one after the other until one succeeds. Which attempts fail, and how, is a
function of their number (`fails`), so that every pattern of failures is one. `tryInOrder` is the
record of what was tried. Either all of it failed, or the last attempt, and only it, succeeded.
-/

section
variable {α ε : Type}

/-- What is tried of a list, from the attempt with number `n` on, with the error of each attempt. -/
def tryInOrder (fails : Nat → Option ε) : (n : Nat) → List α → List (α × Option ε)
  | _, [] => []
  | n, a :: as =>
    match fails n with
    | none => [(a, none)]
    | some err => (a, some err) :: tryInOrder fails (n + 1) as

/-- No attempt succeeded. -/
def AllFailed (l : List (α × Option ε)) : Prop := ∀ x ∈ l, x.2 ≠ none

/-- One attempt succeeded, and it is the last. -/
def SucceededLast (l : List (α × Option ε)) : Prop :=
  ∃ failed a, l = failed ++ [(a, none)] ∧ AllFailed failed

variable {fails : Nat → Option ε} {n : Nat} {as bs : List α} {l l' : List (α × Option ε)}

theorem AllFailed.nil : AllFailed ([] : List (α × Option ε)) := nofun

theorem AllFailed.cons {a : α} {err : ε} (h : AllFailed l) : AllFailed ((a, some err) :: l) := by
  intro x hx
  rcases List.mem_cons.mp hx with rfl | hx
  · exact Option.some_ne_none err
  · exact h x hx

theorem AllFailed.append (h : AllFailed l) (h' : AllFailed l') : AllFailed (l ++ l') := by
  intro x hx
  rcases List.mem_append.mp hx with hx | hx
  · exact h x hx
  · exact h' x hx

theorem AllFailed.not_succeededLast (h : AllFailed l) : ¬ SucceededLast l := by
  rintro ⟨failed, a, rfl, -⟩
  exact h (a, none) (List.mem_append_right failed List.mem_cons_self) rfl

/-- After failures, a success is still the only one. -/
theorem SucceededLast.append (h : AllFailed l) (h' : SucceededLast l') :
    SucceededLast (l ++ l') := by
  obtain ⟨failed, a, rfl, hfailed⟩ := h'
  exact ⟨l ++ failed, a, (List.append_assoc l failed [(a, none)]).symm, h.append hfailed⟩

theorem succeededLast_append_iff (h : AllFailed l) (h' : SucceededLast l' ∨ AllFailed l') :
    SucceededLast (l ++ l') ↔ SucceededLast l' := by
  refine ⟨fun hsucceeded => h'.resolve_right fun hfailed => ?_, .append h⟩
  exact (h.append hfailed).not_succeededLast hsucceeded

/-- The attempts have succeeded with the last, or all have failed; then everything was tried. -/
theorem tryInOrder_cases (fails : Nat → Option ε) (n : Nat) (as : List α) :
    SucceededLast (tryInOrder fails n as) ∨
      AllFailed (tryInOrder fails n as) ∧ (tryInOrder fails n as).map Prod.fst = as := by
  induction as generalizing n with
  | nil => exact .inr ⟨.nil, rfl⟩
  | cons a as ih =>
    rw [tryInOrder]
    cases fails n with
    | none => exact .inl ⟨[], a, rfl, .nil⟩
    | some err =>
      rcases ih (n + 1) with hsucceeded | ⟨hfailed, hall⟩
      · exact .inl (.append (l := [(a, some err)]) (.cons .nil) hsucceeded)
      · exact .inr ⟨.cons hfailed, by rw [List.map_cons, hall]⟩

/-- What is tried is a first part of the list. -/
theorem map_fst_tryInOrder (fails : Nat → Option ε) (n : Nat) (as : List α) :
    (tryInOrder fails n as).map Prod.fst <+: as := by
  induction as generalizing n with
  | nil => exact List.prefix_rfl
  | cons a as ih =>
    rw [tryInOrder]
    cases fails n with
    | none => exact ⟨as, rfl⟩
    | some err => exact List.cons_prefix_cons.mpr ⟨rfl, ih (n + 1)⟩

/-- Nothing more is tried after a success. -/
theorem tryInOrder_append_of_succeededLast (h : SucceededLast (tryInOrder fails n as)) :
    tryInOrder fails n (as ++ bs) = tryInOrder fails n as := by
  induction as generalizing n with
  | nil => exact absurd h (AllFailed.nil (α := α)).not_succeededLast
  | cons a as ih =>
    rw [List.cons_append, tryInOrder, tryInOrder]
    rw [tryInOrder] at h
    cases hfails : fails n with
    | none => rfl
    | some err =>
      rw [hfails] at h
      have hrest : SucceededLast (tryInOrder fails (n + 1) as) :=
        (succeededLast_append_iff (l := [(a, some err)]) (.cons .nil)
          ((tryInOrder_cases fails (n + 1) as).imp_right And.left)).mp h
      rw [ih hrest]

/-- After failures the rest is tried. -/
theorem tryInOrder_append_of_allFailed (h : AllFailed (tryInOrder fails n as)) :
    tryInOrder fails n (as ++ bs) =
      tryInOrder fails n as ++ tryInOrder fails (n + (tryInOrder fails n as).length) bs := by
  induction as generalizing n with
  | nil => rfl
  | cons a as ih =>
    rw [List.cons_append, tryInOrder, tryInOrder]
    rw [tryInOrder] at h
    cases hfails : fails n with
    | none =>
      rw [hfails] at h
      exact absurd rfl (h (a, none) List.mem_cons_self)
    | some err =>
      rw [hfails] at h
      rw [ih fun x hx => h x (List.mem_cons_of_mem _ hx), List.cons_append, List.length_cons,
        Nat.add_assoc, Nat.add_comm 1]

end
