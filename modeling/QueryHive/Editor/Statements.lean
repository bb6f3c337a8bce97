import Mathlib.Algebra.Ring.Nat
import QueryHive.Library.Runs
import QueryHive.Sql.Splice

/-! The statement list of the editor (`statements.rs`). A statement runs from behind the
previous separator through its own, and the list partitions the text. `applyEdit` walks
again only from the statement the edit begins in, and stops at the first old separator
past the edit when the new walk finds one at the same place. The list it leaves is shown
to be the one a scan of the whole text gives, after any sequence of edits. -/
namespace QueryHive.Editor
open Sql Sql.Byte Library.Munch Library.Runs

/-- One statement: where it starts and what is cached for it. The tree, colours, folds and
issues of the source are moved and never read by the list, so they are one opaque value. -/
structure Stmt (Cache : Type*) where
  start : Nat
  treeCost : Nat
  cache : Cache
  deriving DecidableEq, Repr

structure Statements (Cache : Type*) where
  list : List (Stmt Cache)
  lexer : Lexer
  deriving DecidableEq

/-- What `applyEdit` did to the list. -/
structure Change where
  first : Nat
  count : Nat
  reused : Bool
  droppedTreeCost : Nat
  deriving DecidableEq, Repr

variable {Cache : Type*}

/-- `Stmt { start, ..Stmt::default() }`. -/
def Stmt.fresh [Inhabited Cache] (start : Nat) : Stmt Cache := ⟨start, 0, default⟩

def statementStarts (lexer : Lexer) (text : List UInt8) : List Nat :=
  0 :: (walkSeparators lexer text).map (· + 1)

namespace Statements

/-- `Statements::new`. -/
def new [Inhabited Cache] (text : List UInt8) (lexer : Lexer) : Statements Cache where
  list := .fresh 0 :: (walkSeparators lexer text).map fun position => .fresh (position + 1)
  lexer

def starts (statements : Statements Cache) : List Nat := statements.list.map (·.start)

/-- `index_of`: the statement holding a byte, by `partition_point`. -/
def indexOf (statements : Statements Cache) (byte : Nat) : Nat :=
  (statements.list.takeWhile (·.start ≤ byte)).length - 1

/-- The last old statement the walk replaces: the one ending at the first separator beyond
the edit, or the last one. -/
def lastReplaced (statements : Statements Cache) (first oldEnd : Nat) : Nat :=
  first + ((statements.list.drop (first + 1)).takeWhile (·.start - 1 < oldEnd)).length

/-- The separators from `origin` up to the first old one beyond the edit, when the walk
finds a separator at that same place, shifted. -/
def walkWindow (statements : Statements Cache) (text : List UInt8) (origin last : Nat) (delta : Int) :
    Option (List Nat) :=
  (statements.list[last + 1]?).bind fun next =>
    let target := (next.start + delta).toNat
    let found := (walkSeparators statements.lexer ((text.take target).drop origin)).map (origin + ·)
    if found.getLast? = some (target - 1) then some found else none

/-- The list with statements `first` to `last` exchanged for `count` fresh ones and what
stands behind them moved. -/
def splice (list : List (Stmt Cache)) (first last count : Nat) (fresh : List (Stmt Cache))
    (delta : Int) : List (Stmt Cache) :=
  let spliced := list.take first ++ fresh ++ list.drop (last + 1)
  spliced.take (first + count) ++ (spliced.drop (first + count)).map fun stmt =>
    { stmt with start := (stmt.start + delta).toNat }

/-- `apply_edit`: the list for the text after the edit that replaced `oldLen` bytes at
`start` with `newLen` bytes. -/
def applyEdit [Inhabited Cache] (statements : Statements Cache) (text : List UInt8)
    (start oldLen newLen : Nat) : Statements Cache × Change :=
  let delta : Int := newLen - oldLen
  let first := statements.indexOf start
  let origin := (statements.list[first]?).elim 0 (·.start)
  let last := statements.lastReplaced first (start + oldLen)
  let window := statements.walkWindow text origin last delta
  let converged := window.isSome
  let found := window.getD
    ((walkSeparators statements.lexer (text.drop origin)).map (origin + ·))
  let last := if converged then last else statements.list.length - 1
  let count := found.length + if converged then 0 else 1
  let old := (statements.list.take (last + 1)).drop first
  let reused := old.length == 1 && count == 1
  let fresh : List (Stmt Cache) :=
    if reused then old
    else .fresh origin :: (found.take (count - 1)).map fun position => .fresh (position + 1)
  ({ statements with list := splice statements.list first last count fresh delta },
    { first, count, reused,
      droppedTreeCost := if reused then 0 else (old.map (·.treeCost)).sum })

end Statements

/-- One edit: `oldLen` bytes at `start` become `text`. -/
structure Edit where
  start : Nat
  oldLen : Nat
  text : List UInt8
  deriving DecidableEq, Repr

def Edit.applyTo (edit : Edit) (text : List UInt8) : List UInt8 :=
  text.take edit.start ++ edit.text ++ text.drop (edit.start + edit.oldLen)

/-- A text under edit and its statement list. -/
structure Session (Cache : Type*) where
  text : List UInt8
  statements : Statements Cache
  deriving DecidableEq

namespace Session

def opened [Inhabited Cache] (lexer : Lexer) (text : List UInt8) : Session Cache := ⟨text, .new text lexer⟩

def step [Inhabited Cache] (session : Session Cache) (edit : Edit) : Option (Session Cache) :=
  if edit.start + edit.oldLen ≤ session.text.length then
    let text := edit.applyTo session.text
    some ⟨text, (session.statements.applyEdit text edit.start edit.oldLen edit.text.length).1⟩
  else none

end Session

section Exact
variable {lexer : Lexer} {text : List UInt8} {statements : Statements Cache}

def Exact (text : List UInt8) (statements : Statements Cache) : Prop :=
  statements.starts = statementStarts statements.lexer text

theorem new_exact (Cache : Type*) [Inhabited Cache] (text : List UInt8) (lexer : Lexer) :
    Exact text (Statements.new text lexer : Statements Cache) := by
  simp [Exact, Statements.starts, Statements.new, statementStarts, Stmt.fresh, Function.comp_def]

/-- Cut a text where its statement `i` starts. -/
theorem starts_split (within : (statementStarts lexer text)[i]? = some start) :
    ∃ front rest, text = front ++ rest ∧ Boundary lexer front ∧ front.length = start ∧
      (statementStarts lexer text).take (i + 1) = statementStarts lexer front ∧
      (statementStarts lexer text).drop (i + 1) =
        (walkSeparators lexer rest).map (start + · + 1) := by
  have drops (front rest : List UInt8) (split : text = front ++ rest)
      (boundary : Boundary lexer front)
      (takes : (statementStarts lexer text).take (i + 1) = statementStarts lexer front) :
      (statementStarts lexer text).drop (i + 1) =
        (walkSeparators lexer rest).map (front.length + · + 1) := by
    have whole : statementStarts lexer text = statementStarts lexer front ++
        (walkSeparators lexer rest).map (front.length + · + 1) := by
      simp [statementStarts, split, boundary rest, Function.comp_def]
    have parts := List.take_append_drop (i + 1) (statementStarts lexer text)
    rw [takes, whole] at parts
    rw [whole]
    exact List.append_cancel_left parts
  cases i with
  | zero =>
    obtain rfl : 0 = start := by simpa [statementStarts] using within
    refine ⟨[], text, rfl, boundary_nil lexer, rfl, ?_, ?_⟩
    · simp [statementStarts, walkSeparators, walk, walkFrom]
    · exact drops [] text rfl (boundary_nil lexer) (by simp [statementStarts, walkSeparators, walk, walkFrom])
  | succ i =>
    obtain ⟨position, reported, rfl⟩ : ∃ position, (walkSeparators lexer text)[i]? = some position ∧
        position + 1 = start := by
      simpa [statementStarts, Option.map_eq_some_iff] using within
    obtain ⟨front, rest, split, boundary, length, separators⟩ := separators_split lexer text reported
    have takes : (statementStarts lexer text).take (i + 1 + 1) = statementStarts lexer front := by
      simp [statementStarts, separators, List.map_take]
    exact ⟨front, rest, split, boundary, length, takes, length ▸ drops front rest split boundary takes⟩

theorem index_of_spec (isExact : Exact text statements) (byte : Nat) :
    ∃ stmt, statements.list[statements.indexOf byte]? = some stmt ∧ stmt.start ≤ byte := by
  have front : (statements.list.takeWhile (·.start ≤ byte)) <+: statements.list :=
    List.takeWhile_prefix _
  cases list : statements.list with
  | nil => simp [Exact, Statements.starts, list, statementStarts] at isExact
  | cons head rest =>
    have zero : head.start = 0 := by
      simp only [Exact, Statements.starts, list, statementStarts, List.map_cons,
        List.cons.injEq] at isExact
      exact isExact.1
    obtain ⟨last, found⟩ : ∃ last, (statements.list.takeWhile (·.start ≤ byte)).getLast? = some last := by
      simp [list, zero, List.getLast?_cons]
    have kept : last.start ≤ byte := by
      simpa using List.mem_takeWhile_imp (List.mem_of_getLast? found)
    refine ⟨last, ?_, kept⟩
    rw [List.getLast?_eq_getElem?] at found
    rw [← list]
    obtain ⟨tail, split⟩ := front
    have within := (List.getElem?_eq_some_iff.mp found).1
    calc statements.list[statements.indexOf byte]?
        = (statements.list.takeWhile (·.start ≤ byte) ++ tail)[statements.indexOf byte]? := by rw [split]
      _ = some last := (List.getElem?_append_left within).trans found

private theorem after_run {keep : α → Bool} {list : List α}
    (next : list[(list.takeWhile keep).length]? = some value) : keep value = false := by
  induction list with
  | nil => simp at next
  | cons head rest ih =>
    by_cases kept : keep head = true
    · exact ih (by simpa [List.takeWhile_cons, kept] using next)
    · obtain rfl : head = value := by simpa [List.takeWhile_cons, kept] using next
      simpa using kept

theorem last_replaced_spec (first oldEnd : Nat)
    (next : statements.list[statements.lastReplaced first oldEnd + 1]? = some stmt) :
    oldEnd ≤ stmt.start - 1 := by
  have behind : (statements.list.drop (first + 1))[((statements.list.drop (first + 1)).takeWhile
      (·.start - 1 < oldEnd)).length]? = some stmt := by
    rw [List.getElem?_drop, ← next, Statements.lastReplaced]
    congr 1
    omega
  simpa using after_run behind

theorem splice_starts (list fresh : List (Stmt Cache)) (delta : Int) (long : first ≤ list.length)
    (size : fresh.length = count) :
    (Statements.splice list first last count fresh delta).map (·.start) =
      (list.map (·.start)).take first ++ fresh.map (·.start) ++
        ((list.map (·.start)).drop (last + 1)).map fun start : Nat => (start + delta).toNat := by
  have front : (list.take first ++ fresh).length = first + count := by simp [size, long]
  simp only [Statements.splice, ← front, List.take_left, List.drop_left]
  simp [List.map_take, List.map_drop, Function.comp_def]

theorem boundary_starts (boundary : Boundary lexer front) (rest : List UInt8) :
    statementStarts lexer (front ++ rest) = statementStarts lexer front ++
      (walkSeparators lexer rest).map (front.length + · + 1) := by
  simp [statementStarts, boundary rest, Function.comp_def]

theorem apply_to_behind (edit : Edit) (front rest : List UInt8) (behind : front.length ≤ edit.start) :
    edit.applyTo (front ++ rest) = front ++ { edit with start := edit.start - front.length }.applyTo rest := by
  have past : front.length ≤ edit.start + edit.oldLen := by omega
  simp only [Edit.applyTo, List.take_append, List.drop_append, List.append_assoc,
    List.take_of_length_le behind, List.drop_of_length_le past, List.nil_append]
  congr 5
  omega

theorem apply_to_before (edit : Edit) (front rest : List UInt8)
    (before : edit.start + edit.oldLen ≤ front.length) :
    edit.applyTo (front ++ rest) = edit.applyTo front ++ rest := by
  have inside : edit.start ≤ front.length := by omega
  simp only [Edit.applyTo, List.take_append_of_le_length inside,
    List.drop_append_of_le_length before, List.append_assoc]

theorem apply_to_length (edit : Edit) (text : List UInt8)
    (inside : edit.start + edit.oldLen ≤ text.length) :
    (edit.applyTo text).length + edit.oldLen = text.length + edit.text.length := by
  simp only [Edit.applyTo, List.length_append, List.length_take, List.length_drop]
  omega

/-- The walk of a window that closes on the old separator gives the starts up to there; the
old ones behind it stand, moved. -/
theorem window_starts (edit : Edit) (rest : List UInt8) (boundary : Boundary lexer front)
    (behind : front.length ≤ edit.start)
    (before : edit.start + edit.oldLen < (front ++ middle).length)
    (closes : (walkSeparators lexer ({ edit with start := edit.start - front.length }.applyTo middle)).getLast? =
      some position)
    (ends : position + 1 = ({ edit with start := edit.start - front.length }.applyTo middle).length) :
    statementStarts lexer (edit.applyTo (front ++ middle ++ rest)) =
      statementStarts lexer front ++
        (walkSeparators lexer ({ edit with start := edit.start - front.length }.applyTo middle)).map
          (front.length + · + 1) ++
        ((walkSeparators lexer rest).map ((front ++ middle).length + · + 1)).map
          fun start : Nat => (start + (edit.text.length - edit.oldLen : Int)).toNat := by
  set moved : Edit := { edit with start := edit.start - front.length } with movedIs
  have inside : moved.start + moved.oldLen ≤ middle.length := by
    simp only [movedIs, List.length_append] at before ⊢
    omega
  have length := apply_to_length moved middle inside
  have closing := boundary_of_last closes ends
  rw [apply_to_before edit (front ++ middle) rest (by omega), apply_to_behind edit front middle behind,
    ← movedIs, List.append_assoc, boundary_starts boundary, closing rest, List.map_append,
    ← List.append_assoc, List.map_map, List.map_map]
  congr 1
  apply List.map_congr_left
  intro position _
  simp only [Function.comp_apply, List.length_append]
  simp only [movedIs] at length ⊢
  omega

theorem walk_window_spec {separators : List Nat} (isExact : Exact text statements) (edit : Edit)
    (inside : edit.start + edit.oldLen ≤ text.length)
    (holds : statements.list[first]? = some stmt) (before : stmt.start ≤ edit.start)
    (found : statements.walkWindow (edit.applyTo text) stmt.start
      (statements.lastReplaced first (edit.start + edit.oldLen))
      (edit.text.length - edit.oldLen) = some separators) :
    separators ≠ [] ∧ statementStarts statements.lexer (edit.applyTo text) =
      statements.starts.take (first + 1) ++ separators.dropLast.map (· + 1) ++
        (statements.starts.drop (statements.lastReplaced first (edit.start + edit.oldLen) + 1)).map
          fun start : Nat => (start + (edit.text.length - edit.oldLen : Int)).toNat := by
  obtain ⟨next, nextAt, kept⟩ := Option.bind_eq_some_iff.mp found
  dsimp only at kept
  have past := last_replaced_spec first (edit.start + edit.oldLen) nextAt
  set last := statements.lastReplaced first (edit.start + edit.oldLen)
  have startAt : statements.starts[first]? = some stmt.start := by simp [Statements.starts, holds]
  have nextStart : statements.starts[last + 1]? = some next.start := by
    simp [Statements.starts, nextAt]
  have positive : 1 ≤ next.start := by
    rw [isExact] at nextStart
    simp only [statementStarts, List.getElem?_cons_succ, List.getElem?_map,
      Option.map_eq_some_iff] at nextStart
    omega
  obtain ⟨front, rest, split, boundary, length, takes, -⟩ := starts_split (isExact ▸ startAt)
  obtain ⟨front₂, rest₂, split₂, -, length₂, -, drops⟩ := starts_split (isExact ▸ nextStart)
  obtain ⟨middle, rfl⟩ : ∃ middle, front₂ = front ++ middle := by
    have first : front <+: text := ⟨rest, split.symm⟩
    obtain ⟨middle, same⟩ := List.prefix_of_prefix_length_le first ⟨rest₂, split₂.symm⟩ (by omega)
    exact ⟨middle, same.symm⟩
  subst split₂
  set moved : Edit := { edit with start := edit.start - front.length } with movedIs
  have behind : front.length ≤ edit.start := by omega
  have within : edit.start + edit.oldLen < (front ++ middle).length := by omega
  have edited : edit.applyTo (front ++ middle ++ rest₂) = front ++ moved.applyTo middle ++ rest₂ := by
    rw [apply_to_before edit (front ++ middle) rest₂ (by omega), apply_to_behind edit front middle behind]
  have size := apply_to_length moved middle (by
    simp only [movedIs, List.length_append] at within ⊢
    omega)
  have target : ((next.start : Int) + (edit.text.length - edit.oldLen : Int)).toNat =
      (front ++ moved.applyTo middle).length := by
    simp only [← length₂, List.length_append, movedIs] at size ⊢
    omega
  rw [target, edited, List.take_left, ← length, List.drop_left] at kept
  split at kept
  · next closes =>
    obtain rfl := Option.some.inj kept
    rw [List.getLast?_map, Option.map_eq_some_iff] at closes
    obtain ⟨position, closes, located⟩ := closes
    have ends : position + 1 = (moved.applyTo middle).length := by
      have nonempty : 1 ≤ (moved.applyTo middle).length := by
        simp only [movedIs, List.length_append] at size within ⊢
        omega
      simp only [List.length_append] at located
      omega
    have whole := window_starts edit rest₂ boundary behind within closes ends
    obtain ⟨earlier, all⟩ : ∃ earlier, walkSeparators statements.lexer (moved.applyTo middle) =
        earlier ++ [position] := ⟨_, (List.dropLast_append_getLast? position closes).symm⟩
    have behindNext : statements.starts.drop (last + 1) =
        next.start :: (walkSeparators statements.lexer rest₂).map (next.start + · + 1) := by
      obtain ⟨within, is⟩ := List.getElem?_eq_some_iff.mp nextStart
      rw [List.drop_eq_getElem_cons within, is, isExact, drops]
    rw [all, List.map_append, length₂] at whole
    rw [all, List.map_append, behindNext, whole, isExact, takes]
    simp only [List.map_cons, List.map_nil, ne_eq, List.append_eq_nil_iff, reduceCtorEq, and_false,
      not_false_eq_true, List.dropLast_concat, List.map_map, true_and, target]
    have at_next : front.length + position + 1 = (front ++ moved.applyTo middle).length := by
      simp only [List.length_append]
      omega
    simp [Function.comp_def, at_next]
  · simp at kept

/-- What stands for the old statements: the one kept, or fresh ones at the same starts. -/
private theorem fresh_starts [Inhabited Cache] (list : List (Stmt Cache)) (separators : List Nat)
    (holds : list[first]? = some stmt) (ordered : first ≤ last)
    (size : (separators.take (count - 1)).length + 1 = count) :
    let old := (list.take (last + 1)).drop first
    let fresh := if old.length == 1 && count == 1 then old
      else .fresh stmt.start :: (separators.take (count - 1)).map fun position => .fresh (position + 1)
    fresh.map (·.start) = stmt.start :: (separators.take (count - 1)).map (· + 1) ∧
      fresh.length = count := by
  have head : ((list.take (last + 1)).drop first)[0]? = some stmt := by
    rw [List.getElem?_drop, List.getElem?_take_of_lt (by omega)]
    simpa using holds
  dsimp only
  split
  · next reused =>
    simp only [Bool.and_eq_true, beq_iff_eq] at reused
    obtain ⟨only, rfl⟩ := reused
    obtain ⟨kept, is⟩ := List.length_eq_one_iff.mp only
    obtain rfl : kept = stmt := by simpa [is] using head
    simp [is]
  · refine ⟨by simp [Stmt.fresh, Function.comp_def], by simp; simpa using size⟩

/-- The starts of the list an edit leaves, and what they are when a statement was reused. -/
private theorem splice_shape [Inhabited Cache] (list : List (Stmt Cache)) (last count : Nat)
    (separators : List Nat) (delta : Int) (holds : list[first]? = some stmt) (ordered : first ≤ last)
    (inside : last < list.length) (size : (separators.take (count - 1)).length + 1 = count) :
    let old := (list.take (last + 1)).drop first
    let reused := old.length == 1 && count == 1
    let fresh := if reused then old
      else .fresh stmt.start :: (separators.take (count - 1)).map fun position => .fresh (position + 1)
    let starts := list.map (·.start)
    let spliced := Statements.splice list first last count fresh delta
    spliced.map (·.start) = starts.take (first + 1) ++ (separators.take (count - 1)).map (· + 1) ++
        (starts.drop (last + 1)).map (fun start : Nat => (start + delta).toNat) ∧
      (reused = true → spliced.length = list.length ∧
        spliced.map (·.start) = starts.take (first + 1) ++
          (starts.drop (first + 1)).map fun start : Nat => (start + delta).toNat) := by
  intro old reused fresh starts spliced
  obtain ⟨freshStarts, freshSize⟩ := fresh_starts list separators holds ordered size
  have startAt : starts[first]? = some stmt.start := by simp [starts, holds]
  have shape : spliced.map (·.start) =
      starts.take (first + 1) ++ (separators.take (count - 1)).map (· + 1) ++
        (starts.drop (last + 1)).map (fun start : Nat => (start + delta).toNat) := by
    rw [splice_starts list fresh delta (by omega) freshSize, freshStarts, List.take_add_one, startAt]
    simp [starts]
  refine ⟨shape, fun isReused => ?_⟩
  simp only [reused, old, Bool.and_eq_true, beq_iff_eq, List.length_drop, List.length_take] at isReused
  obtain ⟨only, rfl⟩ := isReused
  obtain rfl : last = first := by omega
  rw [Nat.sub_self, List.take_zero, List.map_nil, List.append_nil] at shape
  refine ⟨?_, shape⟩
  have lengths := congrArg List.length shape
  simp only [List.length_map, List.length_append, List.length_take, List.length_drop, starts] at lengths
  omega

theorem last_replaced_ge (statements : Statements Cache) (first oldEnd : Nat) :
    first ≤ statements.lastReplaced first oldEnd := Nat.le_add_right _ _

/-- One edit leaves the list a scan of the new text gives; a statement reused stands where it
stood, and what is behind it moved. -/
theorem apply_edit_exact [Inhabited Cache] (isExact : Exact text statements) (edit : Edit)
    (inside : edit.start + edit.oldLen ≤ text.length) :
    let result := statements.applyEdit (edit.applyTo text) edit.start edit.oldLen edit.text.length
    Exact (edit.applyTo text) result.1 ∧ (result.2.reused = true →
      result.1.list.length = statements.list.length ∧
      result.1.starts = statements.starts.take (result.2.first + 1) ++
        (statements.starts.drop (result.2.first + 1)).map
          fun start : Nat => (start + (edit.text.length - edit.oldLen : Int)).toNat) := by
  obtain ⟨stmt, holds, before⟩ := index_of_spec isExact edit.start
  obtain ⟨within, -⟩ := List.getElem?_eq_some_iff.mp holds
  simp only [Statements.applyEdit, holds, Option.elim_some]
  cases window : statements.walkWindow (edit.applyTo text) stmt.start
      (statements.lastReplaced (statements.indexOf edit.start) (edit.start + edit.oldLen))
      (edit.text.length - edit.oldLen) with
  | none =>
    have startAt : statements.starts[statements.indexOf edit.start]? = some stmt.start := by
      simp [Statements.starts, holds]
    obtain ⟨front, rest, rfl, boundary, length, takes, -⟩ := starts_split (isExact ▸ startAt)
    have shape := splice_shape statements.list (statements.list.length - 1)
      ((walkSeparators statements.lexer ((edit.applyTo (front ++ rest)).drop stmt.start)).length + 1)
      ((walkSeparators statements.lexer ((edit.applyTo (front ++ rest)).drop stmt.start)).map (stmt.start + ·))
      (edit.text.length - edit.oldLen) holds (by omega) (by omega)
      (by simp)
    simp only [Option.isSome_none, Option.getD_none, Bool.false_eq_true, if_false, List.length_map]
    refine ⟨?_, shape.2⟩
    refine shape.1.trans ?_
    have behind : front.length ≤ edit.start := by omega
    rw [← length, apply_to_behind edit front rest behind, List.drop_left, boundary_starts boundary,
      ← takes, ← isExact]
    have whole : statements.list.length - 1 + 1 = statements.starts.length := by
      simp only [Statements.starts, List.length_map]
      omega
    change _ ++ (statements.starts.drop _).map _ = _
    simp [whole, List.take_of_length_le, Statements.starts, Function.comp_def]
  | some separators =>
    obtain ⟨someFound, whole⟩ := walk_window_spec isExact edit inside holds before window
    have inList : statements.lastReplaced (statements.indexOf edit.start) (edit.start + edit.oldLen) <
        statements.list.length := by
      obtain ⟨next, nextAt, -⟩ := Option.bind_eq_some_iff.mp window
      have := (List.getElem?_eq_some_iff.mp nextAt).1
      omega
    have shape := splice_shape statements.list
      (statements.lastReplaced (statements.indexOf edit.start) (edit.start + edit.oldLen)) separators.length separators
      (edit.text.length - edit.oldLen) holds (last_replaced_ge _ _ _) inList (by
        have := List.length_pos_iff.mpr someFound
        simp; omega)
    simp only [Option.isSome_some, Option.getD_some, if_true, Nat.add_zero]
    refine ⟨?_, shape.2⟩
    refine shape.1.trans ?_
    rw [whole, List.dropLast_eq_take]
    rfl

theorem starts_positive (member : start ∈ (statementStarts lexer text).drop (i + 1)) : 1 ≤ start := by
  have inTail : start ∈ (walkSeparators lexer text).map (· + 1) := by
    rw [statementStarts, List.drop_succ_cons] at member
    exact List.mem_of_mem_drop member
  obtain ⟨position, -, rfl⟩ := List.mem_map.mp inTail
  omega

end Exact

/-- The session's list is exact, under the lexer it was opened with. -/
def Session.Sound (lexer : Lexer) (session : Session Cache) : Prop :=
  session.statements.lexer = lexer ∧ Exact session.text session.statements

theorem opened_sound [Inhabited Cache] (lexer : Lexer) (text : List UInt8) :
    (Session.opened lexer text : Session Cache).Sound lexer :=
  ⟨rfl, new_exact Cache text lexer⟩

theorem step_sound [Inhabited Cache] {session : Session Cache} (sound : session.Sound lexer)
    (stepped : session.step edit = some next) : next.Sound lexer := by
  unfold Session.step at stepped
  split at stepped
  · next inside =>
    obtain rfl := Option.some.inj stepped
    exact ⟨sound.1, (apply_edit_exact sound.2 edit inside).1⟩
  · simp at stepped

private theorem take_drop_moved (n : Nat) (list : List Nat) (move : Nat → Nat) :
    (list.take n ++ (list.drop n).map move).take n = list.take n ∧
      (list.take n ++ (list.drop n).map move).drop n = (list.drop n).map move := by
  rcases Nat.le_total n list.length with short | long
  · have length := List.length_take_of_le short
    exact ⟨List.take_left' length, List.drop_left' length⟩
  · simp [List.take_of_length_le long, List.drop_of_length_le long]

/-- After any sequence of edits the list is the one a scan of the text from nothing gives;
an edit that reuses a statement keeps their number and moves only the starts behind it. -/
theorem incremental_list_is_a_scan [Inhabited Cache] (lexer : Lexer) (text : List UInt8)
    (edits : List Edit) (session : Session Cache)
    (ran : run Session.step (Session.opened lexer text) edits = some session) :
    session.statements.starts = (Statements.new session.text lexer : Statements Cache).starts ∧
    session.statements.starts = 0 :: (walkSeparators lexer session.text).map (· + 1) ∧
    ∀ edit : Edit, edit.start + edit.oldLen ≤ session.text.length →
      let result := session.statements.applyEdit (edit.applyTo session.text) edit.start edit.oldLen
        edit.text.length
      let behind := result.2.first + 1
      result.2.reused = true →
        result.1.list.length = session.statements.list.length ∧
        result.1.starts.take behind = session.statements.starts.take behind ∧
        (result.1.starts.drop behind).map (fun start : Nat => (start : Int)) =
          (session.statements.starts.drop behind).map
            fun start : Nat => (start : Int) + (edit.text.length - edit.oldLen) := by
  obtain ⟨sameLexer, isExact⟩ := run_invariant (Session.Sound lexer)
    (fun _ _ _ sound stepped => step_sound sound stepped) (opened_sound lexer text) ran
  refine ⟨?_, sameLexer ▸ isExact, fun edit inside => ?_⟩
  · exact isExact.trans (sameLexer ▸ (new_exact Cache session.text lexer).symm)
  · intro result behind reused
    obtain ⟨newExact, moved⟩ := apply_edit_exact isExact edit inside
    obtain ⟨length, shape⟩ := moved reused
    obtain ⟨takes, drops⟩ := take_drop_moved behind session.statements.starts
      fun start : Nat => (start + (edit.text.length - edit.oldLen : Int)).toNat
    rw [← shape] at takes drops
    refine ⟨length, takes, ?_⟩
    rw [drops, List.map_map]
    apply List.map_congr_left
    intro start member
    have inNew : (start + (edit.text.length - edit.oldLen : Int)).toNat ∈ result.1.starts.drop behind := by
      rw [drops]
      exact List.mem_map_of_mem member
    have positive : 1 ≤ (start + (edit.text.length - edit.oldLen : Int)).toNat := by
      rw [show result.1.starts = _ from newExact] at inNew
      exact starts_positive inNew
    simp only [Function.comp_apply]
    omega

/-- A quote hides the separator and is taken away again. -/
theorem incremental_list_after_a_quote :
    let session : Session Unit := ⟨ofAscii "a;b", ⟨[⟨0, 0, ()⟩, ⟨2, 0, ()⟩], .mysql true false true⟩⟩
    session.statements.starts = 0 :: (walkSeparators (.mysql true false true) session.text).map (· + 1) :=
  (incremental_list_is_a_scan (.mysql true false true) (ofAscii "a;b")
    [⟨1, 0, ofAscii "'"⟩, ⟨1, 1, []⟩] _ (by decide)).2.1

end QueryHive.Editor
