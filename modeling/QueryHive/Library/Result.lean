import Mathlib.Data.List.Forall2

/-! Fallible steps: when a sequence of them succeeds, and what a traversal that
succeeded left at each place. -/
namespace QueryHive.Library.Result

theorem ok_bind (a : α) (next : α → Except ε β) : (Except.ok a >>= next) = next a := rfl

theorem bind_ok_iff {first : Except ε α} {next : α → Except ε β} :
    (first >>= next) = .ok result ↔ ∃ a, first = .ok a ∧ next a = .ok result := by
  cases first with
  | error e =>
    constructor
    · intro failed
      cases failed
    · rintro ⟨_, failed, _⟩
      cases failed
  | ok a =>
    constructor
    · exact fun later => ⟨a, rfl, later⟩
    · rintro ⟨_, same, later⟩
      cases same
      exact later

theorem mapM_ok_iff {f : α → Except ε β} {xs : List α} {ys : List β} :
    xs.mapM f = .ok ys ↔ List.Forall₂ (fun x y => f x = .ok y) xs ys := by
  induction xs generalizing ys with
  | nil =>
    rw [List.mapM_nil, List.forall₂_nil_left_iff]
    constructor
    · intro same
      cases same
      rfl
    · rintro rfl
      rfl
  | cons x xs ih =>
    rw [List.mapM_cons, bind_ok_iff, List.forall₂_cons_left_iff]
    constructor
    · rintro ⟨y, first, later⟩
      obtain ⟨rest, steps, same⟩ := bind_ok_iff.mp later
      cases same
      exact ⟨y, rest, first, ih.mp steps, rfl⟩
    · rintro ⟨y, rest, first, steps, rfl⟩
      exact ⟨y, first, bind_ok_iff.mpr ⟨rest, ih.mpr steps, rfl⟩⟩

theorem mapM_length {f : α → Except ε β} {xs : List α} {ys : List β} (ran : xs.mapM f = .ok ys) :
    xs.length = ys.length :=
  (mapM_ok_iff.mp ran).length_eq

theorem mapM_get {i : Nat} {f : α → Except ε β} {xs : List α} {ys : List β} (ran : xs.mapM f = .ok ys)
    (place : xs[i]? = some x) :
    ∃ y, f x = .ok y ∧ ys[i]? = some y := by
  obtain ⟨inside, rfl⟩ := List.getElem?_eq_some_iff.mp place
  have inner : i < ys.length := mapM_length ran ▸ inside
  exact ⟨ys[i], (mapM_ok_iff.mp ran).get inside inner, List.getElem?_eq_getElem inner⟩

theorem mapM_succeeds {f : α → Except ε β} {xs : List α} (each : ∀ x ∈ xs, ∃ y, f x = .ok y) :
    ∃ ys, xs.mapM f = .ok ys := by
  induction xs with
  | nil => exact ⟨[], rfl⟩
  | cons x xs ih =>
    obtain ⟨y, first⟩ := each x List.mem_cons_self
    obtain ⟨ys, rest⟩ := ih fun other inside => each other (List.mem_cons_of_mem _ inside)
    refine ⟨y :: ys, ?_⟩
    rw [List.mapM_cons, first, ok_bind, rest]
    rfl

theorem mapM_map {f : α → Except ε β} {g : α → β} {xs : List α} (each : ∀ x ∈ xs, f x = .ok (g x)) :
    xs.mapM f = .ok (xs.map g) := by
  rw [mapM_ok_iff, List.forall₂_map_right_iff, List.forall₂_same]
  exact each

theorem forM_ok {check : α → Except ε Unit} {items : List α} (passed : items.forM check = .ok ()) :
    ∀ item ∈ items, check item = .ok () := by
  induction items with
  | nil => exact fun _ inside => absurd inside List.not_mem_nil
  | cons first rest ih =>
    obtain ⟨_, checked, later⟩ := bind_ok_iff.mp (passed : (check first >>= fun _ => rest.forM check) = .ok ())
    intro item inside
    obtain rfl | after := List.mem_cons.mp inside
    · exact checked
    · exact ih later item after

end QueryHive.Library.Result
