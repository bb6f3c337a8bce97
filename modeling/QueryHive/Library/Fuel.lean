/-! Runs with fuel: none means that it ran out. A run settles when from some fuel on it always ends, and
with one result. -/
namespace QueryHive.Library

universe u v
variable {α : Type u} {β : Type v}

def Settles (run : Nat → Option α) (result : α) : Prop := ∃ least, ∀ fuel ≥ least, run fuel = some result

theorem settles_some (result : α) : Settles (fun _ => some result) result := ⟨0, fun _ _ => rfl⟩

theorem Settles.map {run : Nat → Option α} (settles : Settles run result) (f : α → β) :
    Settles (fun fuel => (run fuel).map f) (f result) := by
  obtain ⟨least, ends⟩ := settles
  exact ⟨least, fun fuel enough => congrArg (Option.map f) (ends fuel enough)⟩

/-- A run and what follows it, which may use the fuel again. -/
theorem Settles.bind {run : Nat → Option α} {next : Nat → α → Option β} (settles : Settles run result)
    (later : Settles (fun fuel => next fuel result) final) :
    Settles (fun fuel => (run fuel).bind (next fuel)) final := by
  obtain ⟨least, ends⟩ := settles
  obtain ⟨leastLater, endsLater⟩ := later
  refine ⟨max least leastLater, fun fuel enough => ?_⟩
  have first := congrArg (Option.bind · (next fuel)) (ends fuel (Nat.le_trans (Nat.le_max_left _ _) enough))
  refine first.trans ?_
  exact endsLater fuel (Nat.le_trans (Nat.le_max_right _ _) enough)

end QueryHive.Library
