import Mathlib.Data.List.Basic

/-! Summaries folded in pieces. A running summary is folded over the cells of a
list; another one folds every piece of the list on its own and merges the
results in order. A projection of the summary does not depend on where the list
was cut as soon as one merge and one observation commute on it. -/
namespace QueryHive.Library.Summary

universe u v w
variable {σ : Type u} {α : Type v} {β : Type w}

/-- The summary of one piece, from nothing. -/
def observeAll (observe : σ → α → σ) (init : σ) (cells : List α) : σ := cells.foldl observe init

/-- The summaries of the pieces, merged in order. -/
def mergeAll (observe : σ → α → σ) (merge : σ → σ → σ) (init : σ) (pieces : List (List α)) : σ :=
  pieces.foldl (fun total piece => merge total (observeAll observe init piece)) init

/-- What one projection must satisfy for its value to be independent of the
cuts. `Good` holds of every total that merging can produce. -/
structure CutFree (observe : σ → α → σ) (merge : σ → σ → σ) (init : σ) (Good : σ → Prop)
    (view : σ → β) (step : β → α → β) (join : β → β → β) : Prop where
  observed : ∀ total cell, view (observe total cell) = step (view total) cell
  merged : ∀ total piece, Good total → view (merge total piece) = join (view total) (view piece)
  unit : ∀ seen, join seen (view init) = seen
  exchange : ∀ seen later cell, join seen (step later cell) = step (join seen later) cell

variable {observe : σ → α → σ} {merge : σ → σ → σ} {init : σ} {Good : σ → Prop}
variable {view : σ → β} {step : β → α → β} {join : β → β → β}

/-- A projection of the summary of a list is the fold of its own step. -/
theorem view_observeAll (observed : ∀ total cell, view (observe total cell) = step (view total) cell)
    (cells : List α) (total : σ) :
    view (cells.foldl observe total) = cells.foldl step (view total) := by
  induction cells generalizing total with
  | nil => rfl
  | cons cell cells ih => rw [List.foldl_cons, List.foldl_cons, ih, observed]

private theorem join_fold (free : CutFree observe merge init Good view step join)
    (cells : List α) (seen later : β) :
    join seen (cells.foldl step later) = cells.foldl step (join seen later) := by
  induction cells generalizing later with
  | nil => rfl
  | cons cell cells ih => rw [List.foldl_cons, List.foldl_cons, ih, free.exchange]

theorem view_merge_piece (free : CutFree observe merge init Good view step join)
    {total : σ} (good : Good total) (piece : List α) :
    view (merge total (observeAll observe init piece)) = piece.foldl step (view total) := by
  rw [free.merged total _ good, observeAll, view_observeAll free.observed, join_fold free, free.unit]

theorem view_mergeAll (free : CutFree observe merge init Good view step join)
    (pieces : List (List α)) (start : Good init)
    (kept : ∀ total, Good total → ∀ piece ∈ pieces, Good (merge total (observeAll observe init piece))) :
    view (mergeAll observe merge init pieces) = view (observeAll observe init pieces.flatten) := by
  have run : ∀ (rest : List (List α)), (∀ piece ∈ rest, piece ∈ pieces) → ∀ total, Good total →
      view (rest.foldl (fun total piece => merge total (observeAll observe init piece)) total) =
        rest.flatten.foldl step (view total) := by
    intro rest
    induction rest with
    | nil => intro _ total _; rfl
    | cons piece rest ih =>
      intro within total good
      have next := kept total good piece (within piece List.mem_cons_self)
      rw [List.foldl_cons, ih (fun p member => within p (List.mem_cons_of_mem _ member)) _ next,
        view_merge_piece free good, List.flatten_cons, List.foldl_append]
  rw [mergeAll, run pieces (fun _ member => member) init start, observeAll,
    view_observeAll free.observed]

end QueryHive.Library.Summary
