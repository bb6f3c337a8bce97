import Mathlib.Data.List.Basic

/-! Readings of a text by maximal munch. A lexer takes one nonempty lexeme off the front
of a text and may look past it, so a list of lexemes reads a text only when each of them is
what the lexer takes off the lexemes that follow. A reading is unique, every text has one,
and the tail of a reading can be exchanged when no lexeme before it looks that far. -/
namespace QueryHive.Library.Munch

variable {α P : Type*} (bytes : P → List α) (munch : α → List α → P)

def flat (lexemes : List P) : List α := lexemes.flatMap bytes

/-- Every lexeme is what `munch` takes off the text of the lexemes from it on. -/
inductive Reading : List P → Prop where
  | nil : Reading []
  | cons (starts : bytes lexeme = first :: body)
      (taken : munch first (body ++ flat bytes rest) = lexeme) (reads : Reading rest) :
      Reading (lexeme :: rest)

/-- `munch` takes a nonempty prefix of the text. -/
def Progresses : Prop :=
  ∀ first rest, ∃ body tail, bytes (munch first rest) = first :: body ∧ rest = body ++ tail

variable {bytes munch}

@[simp] theorem flat_nil : flat bytes ([] : List P) = [] := rfl

@[simp] theorem flat_cons : flat bytes (lexeme :: rest) = bytes lexeme ++ flat bytes rest := rfl

@[simp] theorem flat_append :
    flat bytes (front ++ rest) = flat bytes front ++ flat bytes rest := by
  simp [flat]

theorem exists_reading (progress : Progresses bytes munch) (text : List α) :
    ∃ lexemes, flat bytes lexemes = text ∧ Reading bytes munch lexemes := by
  cases text with
  | nil => exact ⟨[], rfl, .nil⟩
  | cons first rest =>
    obtain ⟨body, tail, starts, split⟩ := progress first rest
    obtain ⟨lexemes, covers, reads⟩ := exists_reading progress tail
    refine ⟨munch first rest :: lexemes, by rw [flat_cons, starts, covers, split]; rfl,
      .cons starts ?_ reads⟩
    rw [covers, ← split]
termination_by text.length
decreasing_by
  rw [split, List.length_cons, List.length_append]
  omega

theorem Reading.unique (left : Reading bytes munch lexemes) (right : Reading bytes munch others)
    (same : flat bytes lexemes = flat bytes others) : lexemes = others := by
  induction left generalizing others with
  | nil =>
    cases right with
    | nil => rfl
    | cons starts _ _ => simp [starts] at same
  | cons starts taken _ ih =>
    cases right with
    | nil => simp [starts] at same
    | cons starts' taken' reads' =>
      simp only [flat_cons, starts, starts', List.cons_append, List.cons.injEq] at same
      obtain ⟨rfl, rest⟩ := same
      have lexeme := taken.symm.trans (rest ▸ taken')
      subst lexeme
      rw [starts, List.cons.injEq] at starts'
      rw [starts'.2] at rest
      rw [ih reads' (List.append_cancel_left rest)]

theorem Reading.suffix (reads : Reading bytes munch (front ++ rest)) :
    Reading bytes munch rest := by
  induction front with
  | nil => exact reads
  | cons _ _ ih =>
    cases reads with
    | cons _ _ reads => exact ih reads

theorem Reading.tail (reads : Reading bytes munch (lexeme :: rest)) : Reading bytes munch rest := by
  cases reads with
  | cons _ _ reads => exact reads

theorem Reading.flat_eq_nil (reads : Reading bytes munch lexemes)
    (empty : flat bytes lexemes = []) : lexemes = [] := by
  cases reads with
  | nil => rfl
  | cons starts _ _ => simp [starts] at empty

end QueryHive.Library.Munch
