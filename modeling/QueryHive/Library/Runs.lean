import Mathlib.Data.List.Basic

/-! Runs of a guarded step function. `step s a` is the state after action `a`,
or nothing when the action is not enabled in `s`; a run takes a list of actions
one after another. Invariants, and invariants of the runs whose steps all meet a
condition, are proved once here from what one step preserves. -/
namespace QueryHive.Library.Runs

universe u v
variable {σ : Type u} {α : Type v}

/-- The state after all the actions, when every one of them was enabled. -/
def run (step : σ → α → Option σ) : σ → List α → Option σ
  | s, [] => some s
  | s, a :: rest => (step s a).bind fun next => run step next rest

/-- Every action of the run is taken in a state that meets the condition. -/
def Along (step : σ → α → Option σ) (ok : σ → α → Prop) : σ → List α → Prop
  | _, [] => True
  | s, a :: rest => ok s a ∧ ∀ next, step s a = some next → Along step ok next rest

variable {step : σ → α → Option σ} {ok : σ → α → Prop}

@[simp] theorem run_nil (s : σ) : run step s [] = some s := rfl

theorem run_cons (s : σ) (a : α) (rest : List α) :
    run step s (a :: rest) = (step s a).bind fun next => run step next rest := rfl

/-- A run of one action and more begins with that action. -/
theorem run_cons_some (ran : run step s (a :: rest) = some last) :
    ∃ next, step s a = some next ∧ run step next rest = some last :=
  Option.bind_eq_some_iff.mp ran

theorem along_nil : Along step ok s [] := trivial

theorem along_cons (met : ok s a) (stepped : step s a = some next) (later : Along step ok next rest) :
    Along step ok s (a :: rest) :=
  ⟨met, fun _ same => Option.some.inj (stepped.symm.trans same) ▸ later⟩

/-- Whether a run meets a decidable condition can be computed. -/
instance decidableAlong [∀ s a, Decidable (ok s a)] : ∀ s actions, Decidable (Along step ok s actions)
  | _, [] => .isTrue trivial
  | s, a :: rest =>
    match stepped : step s a with
    | none => decidable_of_iff (ok s a) ⟨fun met => ⟨met, fun _ same => nomatch stepped ▸ same⟩, fun along => along.1⟩
    | some next =>
      have := decidableAlong next rest
      decidable_of_iff (ok s a ∧ Along step ok next rest)
        ⟨fun both => along_cons both.1 stepped both.2, fun along => ⟨along.1, along.2 next stepped⟩⟩

theorem run_invariant (Inv : σ → Prop) (preserved : ∀ s a next, Inv s → step s a = some next → Inv next)
    (start : Inv s) (ran : run step s actions = some last) : Inv last := by
  induction actions generalizing s with
  | nil =>
    cases ran
    exact start
  | cons a rest ih =>
    obtain ⟨next, stepped, later⟩ := run_cons_some ran
    exact ih (preserved s a next start stepped) later

/-- What every step that meets the condition preserves holds at the end of every
run whose steps all meet it. -/
theorem run_invariant_along (Inv : σ → Prop)
    (preserved : ∀ s a next, Inv s → ok s a → step s a = some next → Inv next)
    (start : Inv s) (along : Along step ok s actions) (ran : run step s actions = some last) :
    Inv last := by
  induction actions generalizing s with
  | nil =>
    cases ran
    exact start
  | cons a rest ih =>
    obtain ⟨next, stepped, later⟩ := run_cons_some ran
    exact ih (preserved s a next start along.1 stepped) (along.2 next stepped) later

/-- The condition holds of the action that comes after the first part of the run. -/
theorem along_at (along : Along step ok s (first ++ a :: rest)) (reached : run step s first = some middle) :
    ok middle a := by
  induction first generalizing s with
  | nil =>
    cases reached
    exact along.1
  | cons b first ih =>
    obtain ⟨next, stepped, later⟩ := run_cons_some reached
    exact ih (along.2 next stepped) later

/-- A run whose steps meet a condition meets what follows from it and from an invariant that
such steps preserve. -/
theorem along_of_invariant {ok' : σ → α → Prop} (Inv : σ → Prop)
    (preserved : ∀ s a next, Inv s → ok s a → step s a = some next → Inv next) (gives : ∀ s a, Inv s → ok s a → ok' s a)
    (start : Inv s) (along : Along step ok s actions) : Along step ok' s actions := by
  induction actions generalizing s with
  | nil => trivial
  | cons a rest ih =>
    exact ⟨gives s a start along.1, fun next stepped => ih (preserved s a next start along.1 stepped)
      (along.2 next stepped)⟩

/-- What a step keeps exactly when it meets the condition, a run keeps exactly when all of its
steps meet it. -/
theorem kept_iff_along (Inv Kept : σ → Prop) (preserved : ∀ s a next, Inv s → step s a = some next → Inv next)
    (stepwise : ∀ s a next, Inv s → step s a = some next → (Kept next ↔ Kept s ∧ ok s a))
    (start : Inv s) (ran : run step s actions = some last) : Kept last ↔ Kept s ∧ Along step ok s actions := by
  induction actions generalizing s with
  | nil =>
    cases ran
    exact (and_iff_left trivial).symm
  | cons a rest ih =>
    obtain ⟨next, stepped, later⟩ := run_cons_some ran
    have along : Along step ok s (a :: rest) ↔ ok s a ∧ Along step ok next rest :=
      ⟨fun all => ⟨all.1, all.2 next stepped⟩, fun both => along_cons both.1 stepped both.2⟩
    rw [ih (preserved s a next start stepped) later, stepwise s a next start stepped, along, and_assoc]

theorem not_along_split (ran : run step s actions = some last) (failed : ¬Along step ok s actions) :
    ∃ first a rest middle next, actions = first ++ a :: rest ∧ Along step ok s first ∧
      run step s first = some middle ∧ ¬ok middle a ∧ step middle a = some next ∧
      run step next rest = some last := by
  induction actions generalizing s with
  | nil => exact absurd trivial failed
  | cons a rest ih =>
    obtain ⟨next, stepped, later⟩ := run_cons_some ran
    by_cases met : ok s a
    · have below : ¬Along step ok next rest := fun along => failed (along_cons met stepped along)
      obtain ⟨first, b, tail, middle, after, split, along, reached, broken, stepped', ended⟩ := ih later below
      refine ⟨a :: first, b, tail, middle, after, by rw [split, List.cons_append],
        along_cons met stepped along, ?_, broken, stepped', ended⟩
      rw [run_cons, stepped]
      exact reached
    · exact ⟨[], a, rest, s, next, rfl, trivial, rfl, met, stepped, later⟩

end QueryHive.Library.Runs
