import Mathlib.Data.List.Sort
import QueryHive.Library.Tally
import QueryHive.Transfer.Types

/-! A planned table against MySQL's limit on a row. Long columns become text types, the widest first,
until the sum of the columns fits. MySQL counts a bit for each column that may be NULL as well, which
the sum leaves out, so a row within those few bytes of the limit is one that MySQL refuses. -/
namespace QueryHive.Transfer
open Core (DriverKind)
open QueryHive.Library QueryHive.Library.Tally

def decimalBytes (digits : Nat) : Nat := digits / 9 * 4 + ([0, 1, 1, 2, 2, 3, 3, 4, 4].getD (digits % 9) 0)

/-- `mysql_row_bytes`. -/
def mysqlRowBytes : TargetType → Nat
  | .boolean => 1
  | .int bytes _ => bytes
  | .numeric precision scale =>
    let p := precision.getD mysqlDecimalDigits
    decimalBytes (p - scale) + decimalBytes scale
  | .float double => if double then 8 else 4
  | .varchar n =>
    let bytes := n * 4
    bytes + if bytes > 255 then 2 else 1
  | .char n => n * 4
  | .binary (some n) => n + if n > 255 then 2 else 1
  | .date => 3
  | .time digits => 3 + (digits + 1) / 2
  | .dateTime digits => 5 + (digits + 1) / 2
  | _ => 12

/-- `MYSQL_ROW_LIMIT`. -/
def mysqlRowLimit : Nat := 65535

/-- `mysql_text_size_for`. -/
def mysqlTextSizeFor (n : Nat) : TargetType :=
  if n * 4 ≤ 65535 then .text .text
  else if n * 4 ≤ 16777215 then .text .medium
  else .text .long

/-- What a long column moves to, with the note on it. -/
def demotion : TargetType → Option (TargetType × String)
  | .binary (some _) => some (.binary none, "written as longblob so the row fits MySQL's 65,535 bytes")
  | .varchar n => some (mysqlTextSizeFor n, "written as a text type so the row fits MySQL's 65,535 bytes")
  | .char n => some (mysqlTextSizeFor n, "written as a text type so the row fits MySQL's 65,535 bytes")
  | _ => none

def laterMax {α : Type} (key : α → Nat) : Option α → α → Option α
  | none, item => some item
  | some best, item => if key best ≤ key item then some item else some best

/-- `max_by_key`: of those with the greatest key, the last. -/
def maxByKey {α : Type} (key : α → Nat) (items : List α) : Option α := items.foldl (laterMax key) none

/-- A column that could move. -/
structure Candidate where
  bytes : Nat
  index : Nat
  demoted : TargetType
  note : String
  deriving DecidableEq, Repr

def candidates (columns : List PlannedColumn) : List Candidate :=
  columns.zipIdx.filterMap fun (column, index) =>
    (demotion column.resolved.ty).map fun (demoted, note) =>
      ⟨mysqlRowBytes column.resolved.ty, index, demoted, note⟩

def widest (columns : List PlannedColumn) : Option Candidate := maxByKey Candidate.bytes (candidates columns)

def PlannedColumn.demote (column : PlannedColumn) (demoted : TargetType) (ddl note : String) : PlannedColumn :=
  { column with
    resolved := ⟨demoted, ddl⟩
    outcome := if column.outcome = .exact then .widened else column.outcome
    note := some (match column.note with
      | some old => old ++ "; " ++ note
      | none => note) }

def rowTotal (types : List TargetType) : Nat := (types.map mysqlRowBytes).sum

def typesOf (columns : List PlannedColumn) : List TargetType := columns.map (·.resolved.ty)

/-- The loop of `fit_mysql_row`, for so many turns. -/
def fitLoop : Nat → List PlannedColumn → Option (Except Refusal (List PlannedColumn))
  | 0, _ => none
  | turns + 1, columns =>
    if rowTotal (typesOf columns) ≤ mysqlRowLimit then some (.ok columns)
    else
      match widest columns with
      | none =>
        some (.error ⟨none, "the row is wider than MySQL's 65,535 bytes even with every long " ++
          "column written as a text type"⟩)
      | some found =>
        match render found.demoted .mysql with
        | none => some (.error ⟨some found.index, "a column type MySQL cannot declare"⟩)
        | some ddl => fitLoop turns (columns.modify found.index (·.demote found.demoted ddl found.note))

/-- `fit_mysql_row`: each turn leaves one long column less. -/
def fitMysqlRow (columns : List PlannedColumn) : Option (Except Refusal (List PlannedColumn)) :=
  fitLoop (columns.length + 1) columns

/-- What MySQL counts of a column: a pointer to a text, blob or document is its length bytes and eight. -/
def mysqlStorage : TargetType → Nat
  | .boolean => 1
  | .int bytes _ => bytes
  | .numeric precision scale => decimalBytes (precision.getD 10 - scale) + decimalBytes scale
  | .float double => if double then 8 else 4
  | .varchar n => 4 * n + if 4 * n ≤ 255 then 1 else 2
  | .char n => 4 * n
  | .text .text => 2 + 8
  | .text .medium => 3 + 8
  | .text .long => 4 + 8
  | .binary (some n) => n + if n ≤ 255 then 1 else 2
  | .binary none => 4 + 8
  | .date => 3
  | .time digits => 3 + (digits + 1) / 2
  | .dateTime digits => 5 + (digits + 1) / 2
  | .json => 4 + 8
  -- The others are types that MySQL does not have.
  | .uuid | .timeTz _ | .timestamp _ | .timestampTz _ | .interval | .jsonb | .array _ | .builtin _ _ => 0

/-- The row: its columns, and a bit for each, since every column may be NULL. -/
def mysqlRowSize (types : List TargetType) : Nat := (types.map mysqlStorage).sum + (types.length + 7) / 8

/-- A value of a text or binary column. -/
inductive Content where
  | text (value : List Char)
  | bytes (value : List UInt8)

/-- Whether a column can hold a value. -/
def Carries : TargetType → Content → Prop
  | .varchar n, .text value => value.length ≤ n
  | .char n, .text value => value.length ≤ n
  | .text .text, .text value => (Text.encodeUtf8 value).length ≤ 65535
  | .text .medium, .text value => (Text.encodeUtf8 value).length ≤ 16777215
  | .text .long, .text value => (Text.encodeUtf8 value).length ≤ 4294967295
  | .binary (some n), .bytes value => value.length ≤ n
  | .binary none, .bytes value => value.length ≤ 4294967295
  | _, _ => False

/-- What is greatest, and behind which everything is less, is what `max_by_key` finds. -/
theorem maxByKey_eq {α : Type} {key : α → Nat} {front back : List α} {item : α}
    (before : ∀ other ∈ front, key other ≤ key item) (after : ∀ other ∈ back, key other < key item) :
    maxByKey key (front ++ item :: back) = some item := by
  have reached : ∀ start : Option α, (∀ best ∈ start, key best ≤ key item) →
      ∀ best ∈ front.foldl (laterMax key) start, key best ≤ key item := by
    induction front with
    | nil => exact fun start small => small
    | cons first front ih =>
      intro start small
      have own := before first List.mem_cons_self
      apply ih fun other inside => before other (List.mem_cons_of_mem _ inside)
      intro best found
      cases start with
      | none =>
        cases found
        exact own
      | some held =>
        rw [laterMax] at found
        split at found
        · cases found
          exact own
        · cases found
          exact small _ rfl
  have taken : laterMax key (front.foldl (laterMax key) none) item = some item := by
    cases front_best : front.foldl (laterMax key) none with
    | none => rfl
    | some best =>
      have least := reached none (by simp) best front_best
      rw [laterMax, if_pos least]
  have kept : back.foldl (laterMax key) (some item) = some item := by
    induction back with
    | nil => rfl
    | cons first back ih =>
      have less := Nat.not_le.mpr (after first List.mem_cons_self)
      rw [List.foldl_cons, laterMax, if_neg less]
      exact ih fun other inside => after other (List.mem_cons_of_mem _ inside)
  rw [maxByKey, List.foldl_append, List.foldl_cons, taken, kept]

def typeAt (types : List TargetType) (index : Nat) : TargetType := types.getD index .boolean

def isLong (ty : TargetType) : Bool := (demotion ty).isSome

/-- What a long column moves to; another type stays. -/
def demoted (ty : TargetType) : TargetType := ((demotion ty).map Prod.fst).getD ty

/-- Whether a column moves before another: it is wider, or as wide and behind it. -/
def movesBefore (types : List TargetType) (i j : Nat) : Bool :=
  mysqlRowBytes (typeAt types j) < mysqlRowBytes (typeAt types i) ||
    (mysqlRowBytes (typeAt types i) = mysqlRowBytes (typeAt types j) && j ≤ i)

def widestFirst (types : List TargetType) : List Nat :=
  ((List.range types.length).filter fun index => isLong (typeAt types index)).mergeSort (movesBefore types)

def moved (types : List TargetType) (moves : Nat) : List TargetType :=
  ((widestFirst types).take moves).map (typeAt types)

/-- The sum of the columns once these have moved: each of them counts twelve bytes from then on. -/
def sumAfter (types : List TargetType) (moves : Nat) : Nat :=
  tally mysqlRowBytes types + 12 * (moved types moves).length - tally mysqlRowBytes (moved types moves)

/-- The number of moves at which the sum fits for the first time. -/
def StopsAfter (types : List TargetType) (moves : Nat) : Prop :=
  sumAfter types moves ≤ mysqlRowLimit ∧ ∀ fewer < moves, mysqlRowLimit < sumAfter types fewer

/-- What the sum counts for a column over MySQL's own count: the pointer of a short text is taken high. -/
def spare : TargetType → Nat
  | .text .text => 2
  | .text .medium => 1
  | _ => 0

/-- What it counts over MySQL's for all columns once some have moved. -/
def spareAfter (types : List TargetType) (moves : Nat) : Nat :=
  tally spare types + tally (fun ty => spare (demoted ty)) (moved types moves)

def written (types : List TargetType) (moves : Nat) : List TargetType :=
  types.mapIdx fun index ty => if index ∈ (widestFirst types).take moves then demoted ty else ty

/-- A column moves to a text type or to `longblob`. -/
theorem demoted_cases (long : isLong ty = true) : (∃ size, demoted ty = .text size) ∨ demoted ty = .binary none := by
  have size : ∀ n, ∃ size, mysqlTextSizeFor n = .text size := by
    intro n
    unfold mysqlTextSizeFor
    split_ifs <;> exact ⟨_, rfl⟩
  cases ty with
  | varchar n => exact .inl (size n)
  | char n => exact .inl (size n)
  | binary n =>
    cases n with
    | none => cases long
    | some n => exact .inr rfl
  | _ => cases long

theorem demotion_demoted (long : isLong ty = true) : demotion (demoted ty) = none := by
  obtain ⟨size, same⟩ | same := demoted_cases long <;> rw [same] <;> rfl

theorem mem_widestFirst : index ∈ widestFirst types ↔ index < types.length ∧ isLong (typeAt types index) = true := by
  rw [widestFirst, List.mem_mergeSort, List.mem_filter, List.mem_range]

theorem nodup_widestFirst (types : List TargetType) : (widestFirst types).Nodup :=
  (List.mergeSort_perm _ _).nodup_iff.mpr (List.nodup_range.filter _)

theorem sorted_widestFirst (types : List TargetType) : (widestFirst types).Pairwise (movesBefore types · ·) := by
  apply List.pairwise_mergeSort
  · intro i j k first second
    simp only [movesBefore, Bool.or_eq_true, Bool.and_eq_true, decide_eq_true_eq] at *
    omega
  · intro i j
    simp only [movesBefore, Bool.or_eq_true, Bool.and_eq_true, decide_eq_true_eq]
    omega

theorem length_written (types : List TargetType) (moves : Nat) : (written types moves).length = types.length := by
  rw [written, List.length_mapIdx]

theorem getElem?_written (types : List TargetType) (moves index : Nat) :
    (written types moves)[index]? = types[index]?.map fun ty =>
      if index ∈ (widestFirst types).take moves then demoted ty else ty := by
  rw [written, List.getElem?_mapIdx]

theorem written_zero (types : List TargetType) : written types 0 = types := by
  apply List.ext_getElem?
  intro index
  rw [getElem?_written, List.take_zero]
  simp

theorem typeAt_eq (place : types[index]? = some ty) : typeAt types index = ty := by
  rw [typeAt, List.getD_eq_getElem?_getD, place]
  rfl

theorem long_of_written (place : (written types moves)[index]? = some ty) (long : isLong ty = true) :
    types[index]? = some ty ∧ index ∈ (widestFirst types).drop moves := by
  rw [getElem?_written] at place
  obtain ⟨before, found, same⟩ := Option.map_eq_some_iff.mp place
  have bound := (List.getElem?_eq_some_iff.mp found).1
  by_cases moved : index ∈ (widestFirst types).take moves
  · rw [if_pos moved] at same
    have was := (mem_widestFirst.mp (List.mem_of_mem_take moved)).2
    rw [typeAt_eq found] at was
    rw [← same, isLong, demotion_demoted was] at long
    cases long
  · rw [if_neg moved] at same
    subst same
    have listed : index ∈ widestFirst types := mem_widestFirst.mpr ⟨bound, by rw [typeAt_eq found]; exact long⟩
    rw [← List.take_append_drop moves (widestFirst types)] at listed
    exact ⟨found, (List.mem_append.mp listed).resolve_left moved⟩

theorem mem_candidates : candidate ∈ candidates columns ↔
    ∃ ty, (typesOf columns)[candidate.index]? = some ty ∧ demotion ty = some (candidate.demoted, candidate.note) ∧
      candidate.bytes = mysqlRowBytes ty := by
  simp only [candidates, List.mem_filterMap, Prod.exists, Option.map_eq_some_iff, List.mem_zipIdx_iff_getElem?, typesOf,
    List.getElem?_map]
  constructor
  · rintro ⟨column, index, place, wider, note, moves, rfl⟩
    exact ⟨_, ⟨column, place, rfl⟩, moves, rfl⟩
  · rintro ⟨ty, ⟨column, place, rfl⟩, moves, bytes⟩
    refine ⟨column, candidate.index, place, candidate.demoted, candidate.note, moves, ?_⟩
    rw [← bytes]

theorem candidates_ordered (columns : List PlannedColumn) :
    (candidates columns).Pairwise fun first second => first.index < second.index := by
  have indexes : (columns.zipIdx.map Prod.snd).Pairwise (· < ·) := by
    rw [List.zipIdx_map_snd]
    exact List.pairwise_lt_range'
  apply (List.pairwise_map.mp indexes).filterMap
  rintro ⟨first, i⟩ ⟨second, j⟩ less candidate found candidate' found'
  obtain ⟨moves, -, rfl⟩ := Option.map_eq_some_iff.mp found
  obtain ⟨moves', -, rfl⟩ := Option.map_eq_some_iff.mp found'
  exact less

theorem widest_eq (member : candidate ∈ candidates columns)
    (first : ∀ other ∈ candidates columns, other = candidate ∨ other.bytes < candidate.bytes ∨
      other.bytes = candidate.bytes ∧ other.index < candidate.index) : widest columns = some candidate := by
  obtain ⟨front, back, split⟩ := List.append_of_mem member
  have ordered := candidates_ordered columns
  rw [split] at ordered
  obtain ⟨-, behind, across⟩ := List.pairwise_append.mp ordered
  rw [widest, split]
  apply maxByKey_eq
  · intro other inside
    rcases first other (split ▸ List.mem_append_left _ inside) with rfl | less | ⟨equal, -⟩
    · exact Nat.le_refl _
    · exact Nat.le_of_lt less
    · exact Nat.le_of_eq equal
  · intro other inside
    have later := List.rel_of_pairwise_cons behind inside
    rcases first other (split ▸ List.mem_append_right _ (List.mem_cons_of_mem _ inside)) with rfl | less | ⟨-, before⟩
    · exact absurd later (Nat.lt_irrefl _)
    · exact less
    · exact absurd later (Nat.lt_asymm before)

theorem isLong_iff : isLong ty = true ↔ ∃ note, demotion ty = some (demoted ty, note) := by
  constructor
  · intro long
    obtain ⟨⟨other, note⟩, moves⟩ := Option.isSome_iff_exists.mp long
    exact ⟨note, by rw [demoted, moves]; rfl⟩
  · rintro ⟨note, moves⟩
    rw [isLong, moves]
    rfl

theorem widest_written (types : typesOf columns = written before moves)
    (split : (widestFirst before).drop moves = index :: later) :
    ∃ note, widest columns = some ⟨mysqlRowBytes (typeAt before index), index,
      demoted (typeAt before index), note⟩ := by
  have inside : index ∈ (widestFirst before).drop moves := split ▸ List.mem_cons_self
  obtain ⟨bound, long⟩ := mem_widestFirst.mp (List.mem_of_mem_drop inside)
  have place : before[index]? = some (typeAt before index) := by
    rw [typeAt, List.getD_eq_getElem?_getD, List.getElem?_eq_getElem bound]
    rfl
  obtain ⟨note, move⟩ := isLong_iff.mp long
  have stays : index ∉ (widestFirst before).take moves := fun moved =>
    (List.disjoint_take_drop (nodup_widestFirst before) (Nat.le_refl moves)) moved inside
  have sorted := (sorted_widestFirst before).sublist (List.drop_sublist moves _)
  rw [split] at sorted
  refine ⟨note, widest_eq ?_ ?_⟩
  · refine mem_candidates.mpr ⟨typeAt before index, ?_, move, rfl⟩
    rw [types, getElem?_written, place, Option.map_some, if_neg stays]
  · intro other candidate
    obtain ⟨ty, found, move', bytes⟩ := mem_candidates.mp candidate
    rw [types] at found
    obtain ⟨own, behind⟩ := long_of_written found (by rw [isLong, move']; rfl)
    rw [split] at behind
    have size := typeAt_eq own
    rcases List.mem_cons.mp behind with same | behind
    · left
      have ty_eq : typeAt before index = ty := by rw [← same, size]
      rw [ty_eq, move'] at move
      obtain ⟨demotedSame, noteSame⟩ := Prod.mk.inj (Option.some.inj move)
      cases other
      simp only [Candidate.mk.injEq]
      exact ⟨bytes.trans (by rw [ty_eq]), same, demotedSame.trans (by rw [ty_eq]), noteSame⟩
    · right
      have comes := List.rel_of_pairwise_cons sorted behind
      simp only [movesBefore, Bool.or_eq_true, Bool.and_eq_true, decide_eq_true_eq, size, ← bytes] at comes
      rcases comes with less | ⟨equal, least⟩
      · exact .inl less
      · refine .inr ⟨equal.symm, Nat.lt_of_le_of_ne least ?_⟩
        intro same
        have once := (nodup_widestFirst before).sublist (List.drop_sublist moves _)
        rw [split] at once
        have equal : other.index = index := same
        exact (List.nodup_cons.mp once).1 (equal ▸ behind)

theorem widest_none (types : typesOf columns = written before moves) (all : (widestFirst before).length ≤ moves) :
    widest columns = none := by
  have none : candidates columns = [] := by
    apply List.eq_nil_iff_forall_not_mem.mpr
    intro candidate member
    obtain ⟨ty, found, move, -⟩ := mem_candidates.mp member
    rw [types] at found
    obtain ⟨-, behind⟩ := long_of_written found (by rw [isLong, move]; rfl)
    rw [List.drop_eq_nil_of_le all] at behind
    exact absurd behind List.not_mem_nil
  rw [widest, none]
  rfl

theorem take_widestFirst (split : (widestFirst types).drop moves = index :: later) :
    (widestFirst types).take (moves + 1) = (widestFirst types).take moves ++ [index] := by
  have bound : moves < (widestFirst types).length := by
    rw [← Nat.not_le]
    intro all
    rw [List.drop_eq_nil_of_le all] at split
    cases split
  have head : (widestFirst types)[moves] = index := by
    rw [List.drop_eq_getElem_cons bound] at split
    exact (List.cons.inj split).1
  rw [List.take_succ_eq_append_getElem bound, head]

theorem written_succ (split : (widestFirst types).drop moves = index :: later) :
    (written types moves)[index]? = some (typeAt types index) ∧
      written types (moves + 1) = (written types moves).set index (demoted (typeAt types index)) := by
  have inside : index ∈ (widestFirst types).drop moves := split ▸ List.mem_cons_self
  have bound := (mem_widestFirst.mp (List.mem_of_mem_drop inside)).1
  have place : types[index]? = some (typeAt types index) := by
    rw [typeAt, List.getD_eq_getElem?_getD, List.getElem?_eq_getElem bound]
    rfl
  have stays : index ∉ (widestFirst types).take moves := fun moved =>
    (List.disjoint_take_drop (nodup_widestFirst types) (Nat.le_refl moves)) moved inside
  constructor
  · rw [getElem?_written, place, Option.map_some, if_neg stays]
  · apply List.ext_getElem?
    intro other
    rw [getElem?_written, take_widestFirst split, List.getElem?_set, length_written]
    by_cases here : index = other
    · subst here
      rw [place, if_pos rfl, if_pos bound]
      simp
    · rw [if_neg here, getElem?_written]
      simp only [List.mem_append, List.mem_singleton, Ne.symm here, or_false]

theorem types_modify (types : typesOf columns = written before moves)
    (split : (widestFirst before).drop moves = index :: later) (ddl note : String) :
    typesOf (columns.modify index (·.demote (demoted (typeAt before index)) ddl note)) =
      written before (moves + 1) := by
  rw [(written_succ split).2, ← types]
  apply List.ext_getElem?
  intro place
  rw [typesOf, List.getElem?_map, List.getElem?_modify, List.getElem?_set, typesOf, List.length_map, List.getElem?_map]
  by_cases here : index = place
  · subst here
    by_cases inside : index < columns.length
    · simp [inside, PlannedColumn.demote]
    · simp [inside]
  · cases columns[place]? <;> simp [here]

theorem tally_written (weight : TargetType → Nat) (types : List TargetType) (moves : Nat) :
    tally weight (written types moves) + tally weight (moved types moves) =
      tally weight types + tally (fun ty => weight (demoted ty)) (moved types moves) := by
  induction moves with
  | zero => rw [written_zero]; rfl
  | succ moves ih =>
    cases split : (widestFirst types).drop moves with
    | nil =>
      have all : (widestFirst types).length ≤ moves := List.drop_eq_nil_iff.mp split
      have same : (widestFirst types).take (moves + 1) = (widestFirst types).take moves := by
        rw [List.take_of_length_le all, List.take_of_length_le (Nat.le_succ_of_le all)]
      simpa only [written, moved, same] using ih
    | cons index later =>
      obtain ⟨own, next⟩ := written_succ split
      have one := tally_set weight own (demoted (typeAt types index))
      have more : moved types (moves + 1) = moved types moves ++ [typeAt types index] := by
        rw [moved, take_widestFirst split, List.map_append]
        rfl
      rw [next, more]
      simp only [tally_append, tally_cons, tally_nil]
      omega

theorem isLong_moved (inside : ty ∈ moved types moves) : isLong ty = true := by
  obtain ⟨index, member, rfl⟩ := List.mem_map.mp inside
  exact (mem_widestFirst.mp (List.mem_of_mem_take member)).2

theorem mysqlRowBytes_demoted (long : isLong ty = true) : mysqlRowBytes (demoted ty) = 12 := by
  obtain ⟨size, same⟩ | same := demoted_cases long <;> rw [same] <;> rfl

theorem rowTotal_written (types : List TargetType) (moves : Nat) :
    rowTotal (written types moves) = sumAfter types moves := by
  have whole := tally_written mysqlRowBytes types moves
  have twelve : tally (fun ty => mysqlRowBytes (demoted ty)) (moved types moves) = 12 * (moved types moves).length := by
    have each : ∀ ty ∈ moved types moves, mysqlRowBytes (demoted ty) = 12 := fun ty inside =>
      mysqlRowBytes_demoted (isLong_moved inside)
    rw [tally, List.map_congr_left each, List.map_const', List.sum_replicate_nat, Nat.mul_comm]
  rw [twelve] at whole
  rw [sumAfter, ← whole, Nat.add_sub_cancel]
  rfl

theorem render_demoted (long : isLong ty = true) : ∃ ddl, render (demoted ty) .mysql = some ddl := by
  obtain ⟨size, same⟩ | same := demoted_cases long <;> rw [same]
  · cases size <;> exact ⟨_, rfl⟩
  · exact ⟨_, rfl⟩

theorem sumAfter_all (all : (widestFirst types).length ≤ moves) :
    sumAfter types moves = sumAfter types (widestFirst types).length := by
  simp only [sumAfter, moved, List.take_of_length_le all, List.take_length]

/-- The loop ends, given a turn for each long column that is left. It ends with the first moves after
which the sum fits, or with a refusal where none does. -/
theorem fitLoop_ends (types : typesOf columns = written before moves)
    (wide : ∀ fewer < moves, mysqlRowLimit < sumAfter before fewer) (left : moves ≤ (widestFirst before).length)
    (enough : (widestFirst before).length < moves + turns) :
    (∃ last fitted, StopsAfter before last ∧ fitLoop turns columns = some (.ok fitted) ∧
      typesOf fitted = written before last) ∨
    ((∀ last, ¬StopsAfter before last) ∧ ∃ refusal, fitLoop turns columns = some (.error refusal)) := by
  induction turns generalizing columns moves with
  | zero => exact absurd (Nat.lt_of_le_of_lt left enough) (Nat.lt_irrefl _)
  | succ turns ih =>
    rw [fitLoop, types, rowTotal_written]
    by_cases fits : sumAfter before moves ≤ mysqlRowLimit
    · rw [if_pos fits]
      exact .inl ⟨moves, columns, ⟨fits, wide⟩, rfl, types⟩
    rw [if_neg fits]
    have wider : ∀ fewer < moves + 1, mysqlRowLimit < sumAfter before fewer := by
      intro fewer below
      rcases Nat.lt_succ_iff_lt_or_eq.mp below with less | rfl
      · exact wide fewer less
      · exact Nat.not_le.mp fits
    cases split : (widestFirst before).drop moves with
    | nil =>
      have all : (widestFirst before).length ≤ moves := List.drop_eq_nil_iff.mp split
      rw [widest_none types all]
      refine .inr ⟨?_, _, rfl⟩
      rintro last ⟨small, -⟩
      by_cases few : last ≤ moves
      · exact absurd small (Nat.not_le.mpr (wider last (Nat.lt_succ_of_le few)))
      · rw [sumAfter_all (Nat.le_trans all (Nat.le_of_not_le few)), ← sumAfter_all all] at small
        exact absurd small fits
    | cons index later =>
      obtain ⟨note, found⟩ := widest_written types split
      have long : isLong (typeAt before index) = true :=
        (mem_widestFirst.mp (List.mem_of_mem_drop (split ▸ List.mem_cons_self))).2
      obtain ⟨ddl, named⟩ := render_demoted long
      have more : moves + 1 ≤ (widestFirst before).length := by
        have length := congrArg List.length split
        rw [List.length_drop, List.length_cons] at length
        omega
      rw [found]
      simp only [named]
      exact ih (types_modify types split ddl note) wider more (by omega)

theorem fitMysqlRow_ends (columns : List PlannedColumn) :
    (∃ last fitted, StopsAfter (typesOf columns) last ∧ fitMysqlRow columns = some (.ok fitted) ∧
      typesOf fitted = written (typesOf columns) last) ∨
    ((∀ last, ¬StopsAfter (typesOf columns) last) ∧ ∃ refusal, fitMysqlRow columns = some (.error refusal)) := by
  have long : (widestFirst (typesOf columns)).length ≤ columns.length := by
    rw [widestFirst, List.length_mergeSort]
    have most := List.length_filter_le (fun index => isLong (typeAt (typesOf columns) index))
      (List.range (typesOf columns).length)
    have count : (typesOf columns).length = columns.length := List.length_map _
    rw [List.length_range, count] at most
    rwa [count]
  exact fitLoop_ends (written_zero _).symm (fun fewer below => absurd below (Nat.not_lt_zero _))
    (Nat.zero_le _) (by omega)

theorem StopsAfter.unique (first : StopsAfter types moves) (second : StopsAfter types other) : moves = other := by
  rcases Nat.lt_trichotomy moves other with less | same | less
  · exact absurd first.1 (Nat.not_le.mpr (second.2 moves less))
  · exact same
  · exact absurd second.1 (Nat.not_le.mpr (first.2 other less))

/-- The types that MySQL has, and the lengths that the mapping to them keeps within. -/
def Modest : TargetType → Prop
  | .varchar n => n ≤ mysqlVarcharMax
  | .char n => n ≤ 255
  | .binary (some n) => n ≤ 65535
  | .numeric none _ | .uuid | .timeTz _ | .timestamp _ | .timestampTz _ | .interval | .jsonb | .array
    _ | .builtin _ _ => False
  | _ => True

/-- The sum counts for every column what MySQL counts, and the spare bytes of a text's pointer. -/
theorem mysqlRowBytes_covers (modest : Modest ty) : mysqlRowBytes ty = mysqlStorage ty + spare ty := by
  have lengthBytes (n : Nat) : (if n > 255 then 2 else 1) = if n ≤ 255 then 1 else 2 := by
    split <;> split <;> omega
  cases ty with
  | varchar n => simp only [mysqlRowBytes, mysqlStorage, spare, lengthBytes, Nat.mul_comm 4 n, Nat.add_zero]
  | char n => exact Nat.mul_comm n 4
  | binary length =>
    cases length with
    | none => rfl
    | some n => simp only [mysqlRowBytes, mysqlStorage, spare, lengthBytes, Nat.add_zero]
  | numeric precision scale =>
    cases precision with
    | none => cases modest
    | some precision => rfl
  | text size => cases size <;> rfl
  | uuid | timeTz | timestamp | timestampTz | interval | jsonb | array | builtin => cases modest
  | _ => rfl

theorem modest_demoted (long : isLong ty = true) : Modest (demoted ty) := by
  obtain ⟨size, same⟩ | same := demoted_cases long <;> rw [same] <;> trivial

theorem modest_written (modest : ∀ ty ∈ types, Modest ty) : ∀ ty ∈ written types moves, Modest ty := by
  intro ty inside
  obtain ⟨index, place⟩ := List.getElem?_of_mem inside
  rw [getElem?_written] at place
  obtain ⟨before, found, rfl⟩ := Option.map_eq_some_iff.mp place
  split
  · next moves =>
    have long := (mem_widestFirst.mp (List.mem_of_mem_take moves)).2
    rw [typeAt_eq found] at long
    exact modest_demoted long
  · exact modest before (List.mem_of_getElem? found)

/-- MySQL's count of a row once some columns have moved: the sum, a bit for each column, and less the spare bytes. -/
theorem mysqlRowSize_written (modest : ∀ ty ∈ types, Modest ty) :
    mysqlRowSize (written types moves) + spareAfter types moves = sumAfter types moves + (types.length + 7) / 8 := by
  have covered : tally mysqlRowBytes (written types moves) =
      tally mysqlStorage (written types moves) + tally spare (written types moves) :=
    tally_split fun ty inside => mysqlRowBytes_covers (modest_written modest ty inside)
  have spares := tally_written spare types moves
  have none : tally spare (moved types moves) = 0 := by
    have each : ∀ ty ∈ moved types moves, spare ty = 0 := by
      intro ty inside
      have long := isLong_moved inside
      cases ty with
      | text size => cases long
      | _ => rfl
    rw [tally, List.map_congr_left each, List.map_const', List.sum_replicate_nat, Nat.mul_zero]
  have sum : tally mysqlRowBytes (written types moves) = sumAfter types moves := rowTotal_written types moves
  have size : mysqlRowSize (written types moves) = tally mysqlStorage (written types moves) +
    (types.length + 7) / 8 := by
    rw [mysqlRowSize, length_written]
    rfl
  rw [none] at spares
  rw [size, ← sum, covered, spareAfter]
  omega

theorem length_encodeUtf8_le (value : List Char) : (Text.encodeUtf8 value).length ≤ value.length * 4 := by
  induction value with
  | nil => exact Nat.le_refl _
  | cons c value ih =>
    have size : (String.utf8EncodeChar c).length ≤ 4 := by
      rw [String.length_utf8EncodeChar]
      exact c.utf8Size_le_four
    rw [Text.encodeUtf8, List.flatMap_cons, List.length_append, List.length_cons, Nat.succ_mul, Nat.add_comm]
    exact Nat.add_le_add ih size

theorem carries_textSizeFor (modest : n ≤ mysqlVarcharMax) (fits : value.length ≤ n) :
    Carries (mysqlTextSizeFor n) (.text value) := by
  have bytes := length_encodeUtf8_le value
  simp only [mysqlVarcharMax] at modest
  rw [mysqlTextSizeFor, if_pos (by omega)]
  show (Text.encodeUtf8 value).length ≤ 65535
  omega

theorem carries_demoted (modest : Modest ty) (long : isLong ty = true) (value : Content) (held : Carries ty value) :
    Carries (demoted ty) value := by
  cases ty with
  | varchar n =>
    cases value with
    | text value => exact carries_textSizeFor modest held
    | bytes value => cases held
  | char n =>
    cases value with
    | text value => exact carries_textSizeFor (Nat.le_trans modest (by decide)) held
    | bytes value => cases held
  | binary n =>
    cases n with
    | none => cases long
    | some n =>
      cases value with
      | text value => cases held
      | bytes value =>
        have bound : value.length ≤ 65535 := Nat.le_trans held modest
        show value.length ≤ 4294967295
        omega
  | _ => cases long

/-- A mapping's type, if it has one, is within those lengths. -/
def AllModest (mapping : Mapping) : Prop := ∀ resolved, mapping.resolved = some resolved → Modest resolved.ty

theorem mysqlTextFor_modest (n : Nat) : Modest (mysqlTextFor (some n)) := by
  rw [mysqlTextFor]
  split
  · assumption
  · split <;> trivial

theorem mapText_modest (length : Option Nat) : AllModest (mapText length .mysql) := by
  cases length with
  | none => exact widened_yields (by exact trivial) _ _
  | some n =>
    dsimp only [mapText]
    split
    · exact exact_yields (mysqlTextFor_modest n) _
    · exact widened_yields (mysqlTextFor_modest n) _ _

theorem mapChar_modest (length : Option Nat) (source : DriverKind) : AllModest (mapChar length source .mysql) := by
  cases length with
  | none => exact refuse_yields _
  | some n =>
    dsimp only [mapChar]
    split
    · next short =>
      split
      · exact exact_yields (by exact short) _
      · exact widened_yields (by exact short) _ _
    · exact widened_yields (mysqlTextFor_modest n) _ _

theorem mapBinary_modest (length : Option Nat) : AllModest (mapBinary length .mysql) := by
  cases length with
  | none => exact widened_yields (by exact trivial) _ _
  | some n =>
    dsimp only [mapBinary]
    split
    · next short => exact exact_yields (by exact short) _
    · exact widened_yields (by exact trivial) _ _

theorem mapDecimal_modest (precision : Option Nat) (scale : Option Int) :
    AllModest (mapDecimal precision scale .mysql) := by
  unfold mapDecimal
  split
  · exact refuse_yields _
  · cases precision with
    | none => exact widened_yields (by exact trivial) _ _
    | some p =>
      dsimp only
      split
      · exact refuse_yields _
      · exact exact_yields (by exact trivial) _

/-- No mapping to MySQL is longer than its varchar, char and varbinary columns may be. -/
theorem mapType_modest (ty : SqlType) (source : DriverKind) : AllModest (mapType ty source .mysql) := by
  obtain ⟨base, precision, scale, length, unsigned, timeZone, fractionDigits, decimals, element⟩ := ty
  cases base with
  | bool => exact widened_yields (by exact trivial) _ _
  | int8 => exact exact_yields (by exact trivial) _
  | int16 => exact exact_yields (by exact trivial) _
  | int24 => exact exact_yields (by exact trivial) _
  | int32 => exact exact_yields (by exact trivial) _
  | int64 => exact exact_yields (by exact trivial) _
  | float32 =>
    dsimp only [mapType]
    split
    · exact refuse_yields _
    · exact exact_yields (by exact trivial) _
  | float64 =>
    dsimp only [mapType]
    split
    · exact refuse_yields _
    · exact exact_yields (by exact trivial) _
  | decimal => exact mapDecimal_modest precision scale
  | text => exact mapText_modest length
  | char => exact mapChar_modest length source
  | binary => exact mapBinary_modest length
  | uuid =>
    have short : Modest (.char 36) := show 36 ≤ 255 by decide
    exact fallback_yields short _ _
  | date => exact exact_yields (by exact trivial) _
  | time => exact withFraction_yields _ (exact_yields (by exact trivial) _)
  | timeTz =>
    apply withFraction_yields
    split <;> exact refuse_yields _
  | timestamp =>
    apply withFraction_yields
    unfold mapTimestamp
    dsimp only
    split
    · exact fallback_yields (by exact trivial) _ _
    · exact exact_yields (by exact trivial) _
  | timestampTz => exact withFraction_yields _ (fallback_yields (by exact trivial) _ _)
  | interval => exact refuse_yields _
  | json => exact widened_yields (by exact trivial) _ _
  | jsonb => exact widened_yields (by exact trivial) _ _
  | array =>
    dsimp only [mapType, mapArray]
    split
    · exact refuse_yields _
    · exact fallback_yields (by exact trivial) _ _
  | map | row =>
    dsimp only [mapType, mapDocument]
    exact fallback_yields (by exact trivial) _ _
  | enum | set =>
    have short : Modest (.varchar 255) := show 255 ≤ mysqlVarcharMax by decide
    exact fallback_yields short _ _
  | other => exact refuse_yields _
  | builtin kind =>
    dsimp only [mapType, mapBuiltin]
    rw [if_neg (by simp)]
    exact refuse_yields _

def Planned (column : PlannedColumn) : Prop :=
  ∃ name ty source, PlannedColumn.fromMapping name ty source .mysql (mapType ty source .mysql) = .ok column

theorem Planned.modest (planned : Planned column) : Modest column.resolved.ty := by
  obtain ⟨name, ty, source, made⟩ := planned
  exact fromMapping_yields (mapType_modest ty source) made

/-- Each column keeps its type, or gets one that takes every value the type it had takes. -/
def NothingLost (columns fitted : List PlannedColumn) : Prop :=
  fitted.length = columns.length ∧
    ∀ (index : Nat) before after, columns[index]? = some before → fitted[index]? = some after →
      after.resolved.ty = before.resolved.ty ∨
        isLong before.resolved.ty = true ∧
          ∀ value, Carries before.resolved.ty value → Carries after.resolved.ty value

theorem nothingLost_written (planned : ∀ column ∈ columns, Planned column)
    (types : typesOf fitted = written (typesOf columns) moves) : NothingLost columns fitted := by
  constructor
  · have length := congrArg List.length types
    rwa [length_written, typesOf, typesOf, List.length_map, List.length_map] at length
  · intro index before after place place'
    have same := congrArg (·[index]?) types
    simp only [typesOf, List.getElem?_map, getElem?_written, place, place', Option.map_some, Option.some.injEq] at same
    rw [same]
    split
    · next moved =>
      right
      have long := (mem_widestFirst.mp (List.mem_of_mem_take moved)).2
      have own : typeAt (columns.map fun column => column.resolved.ty) index = before.resolved.ty :=
        typeAt_eq (by rw [List.getElem?_map, place]; rfl)
      rw [own] at long
      exact ⟨long, fun value => carries_demoted (planned before (List.mem_of_getElem? place)).modest long value⟩
    · exact .inl rfl

/-- The loop always ends, and loses no value. A plan that it accepts is one that MySQL accepts exactly when the sum,
at the first number of moves at which it fits, leaves room for a bit of each column beside the spare bytes it has
counted. -/
theorem fit_mysql_row_iff (columns : List PlannedColumn) (planned : ∀ column ∈ columns, Planned column) :
    (∃ outcome, fitMysqlRow columns = some outcome ∧
      ∀ fitted, outcome = .ok fitted → mysqlRowSize (typesOf fitted) ≤ mysqlRowLimit ∧ NothingLost columns fitted) ↔
    ∀ moves, StopsAfter (typesOf columns) moves →
      sumAfter (typesOf columns) moves + (columns.length + 7) / 8 ≤
        mysqlRowLimit + spareAfter (typesOf columns) moves := by
  have modest : ∀ ty ∈ typesOf columns, Modest ty := by
    intro ty inside
    obtain ⟨column, member, rfl⟩ := List.mem_map.mp inside
    exact (planned column member).modest
  have size (moves : Nat) : mysqlRowSize (written (typesOf columns) moves) + spareAfter (typesOf columns) moves =
      sumAfter (typesOf columns) moves + (columns.length + 7) / 8 := by
    rw [mysqlRowSize_written modest, typesOf, List.length_map]
  rcases fitMysqlRow_ends columns with ⟨last, fitted, stops, ended, types⟩ | ⟨never, refusal, ended⟩
  · have counted := size last
    constructor
    · rintro ⟨outcome, result, sound⟩ moves fits
      rw [ended] at result
      cases result
      have small := (sound fitted rfl).1
      rw [types] at small
      rw [fits.unique stops]
      omega
    · intro room
      have bound := room last stops
      refine ⟨_, ended, ?_⟩
      intro other same
      cases same
      exact ⟨by rw [types]; omega, nothingLost_written planned types⟩
  · constructor
    · rintro - moves fits
      exact absurd fits (never moves)
    · intro _
      exact ⟨_, ended, fun fitted same => by cases same⟩

def binaryPlan (length : Nat) : PlannedColumn :=
  ⟨"data", (SqlType.of .binary).withLength length, .mysql, .mysql,
    ⟨.binary (some length), sized "varbinary" length⟩, .exact,
    none⟩

theorem planned_binaryPlan (short : length ≤ 65535) : Planned (binaryPlan length) := by
  refine ⟨"data", (SqlType.of .binary).withLength length, .mysql, ?_⟩
  have mapped : mapType ((SqlType.of .binary).withLength length) .mysql .mysql =
      .exact ⟨.binary (some length), sized "varbinary" length⟩ := by
    dsimp only [SqlType.of, SqlType.withLength, mapType, mapBinary]
    rw [if_pos short]
    rfl
  rw [mapped]
  rfl

def textPlan (length : Nat) : PlannedColumn :=
  ⟨"note", (SqlType.of .text).withLength length, .mysql, .mysql,
    ⟨.varchar length, sized "varchar" length⟩, .exact, none⟩

theorem planned_textPlan (short : length ≤ mysqlVarcharMax) : Planned (textPlan length) := by
  refine ⟨"note", (SqlType.of .text).withLength length, .mysql, ?_⟩
  have mapped : mapType ((SqlType.of .text).withLength length) .mysql .mysql =
      .exact ⟨.varchar length, sized "varchar" length⟩ := by
    have own : mysqlTextFor (some length) = .varchar length := if_pos short
    dsimp only [SqlType.of, SqlType.withLength, mapType, mapText]
    rw [if_pos own, own]
    rfl
  rw [mapped]
  rfl

/-- Two long columns that do not fit together: the wider one moves, and then the row fits by both counts. -/
theorem wide_row_fits : ∃ fitted, fitMysqlRow [binaryPlan 60000, textPlan 1500] = some (.ok fitted) ∧
    typesOf fitted = [.binary none, .varchar 1500] ∧ mysqlRowSize (typesOf fitted) ≤ mysqlRowLimit ∧
      NothingLost [binaryPlan 60000, textPlan 1500] fitted := by
  have planned : ∀ column ∈ [binaryPlan 60000, textPlan 1500], Planned column := by
    simp only [List.mem_cons, List.not_mem_nil, or_false, forall_eq_or_imp, forall_eq]
    exact ⟨planned_binaryPlan (by decide), planned_textPlan (by decide)⟩
  obtain ⟨fitted, ran, types⟩ : ∃ fitted, fitMysqlRow [binaryPlan 60000, textPlan 1500] = some (.ok fitted) ∧
      typesOf fitted = [.binary none, .varchar 1500] := ⟨_, rfl, rfl⟩
  obtain ⟨outcome, result, sound⟩ := (fit_mysql_row_iff _ planned).mpr fun moves stops => by
    rcases fitMysqlRow_ends [binaryPlan 60000, textPlan 1500] with ⟨last, other, first, ended, wrote⟩ |
      ⟨-, refusal, ended⟩
    · rw [ran] at ended
      cases ended
      rw [stops.unique first, ← rowTotal_written, ← wrote, types]
      exact Nat.le_trans (by decide) (Nat.le_add_right _ _)
    · rw [ran] at ended
      cases ended
  rw [ran] at result
  cases result
  obtain ⟨small, kept⟩ := sound fitted rfl
  exact ⟨fitted, ran, types, small, kept⟩

/-- One column of 65,533 bytes is planned for MySQL and accepted, and MySQL counts 65,536 bytes. -/
theorem widest_binary_refused_by_mysql :
    Planned (binaryPlan 65533) ∧ fitMysqlRow [binaryPlan 65533] = some (.ok [binaryPlan 65533]) ∧
      ¬mysqlRowSize (typesOf [binaryPlan 65533]) ≤ mysqlRowLimit :=
  ⟨planned_binaryPlan (by decide), rfl, by decide⟩

end QueryHive.Transfer
