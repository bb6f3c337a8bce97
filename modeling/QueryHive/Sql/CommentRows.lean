import QueryHive.Sql.Comment
import QueryHive.Sql.Seams

/-! The text around the chosen lines. The lines of a text are rows of content, each with what
ends it; `lines` gives the offsets of rows, and changing the content of a row that is not empty
leaves the rows of the text alone. -/
namespace QueryHive.Sql.Comment
open Byte Library.Patch

/-- A line and the bytes that end it; the last line of a reading has none. -/
structure Row where
  content : List UInt8
  ending : List UInt8

def Row.bytes (row : Row) : List UInt8 := row.content ++ row.ending

def rowsText (rows : List Row) : List UInt8 := rows.flatMap Row.bytes

@[simp] theorem rowsText_nil : rowsText [] = [] := rfl

@[simp] theorem rowsText_cons (row : Row) (rest : List Row) :
    rowsText (row :: rest) = row.content ++ (row.ending ++ rowsText rest) := by
  simp [rowsText, Row.bytes]

@[simp] theorem rowsText_append (rows others : List Row) :
    rowsText (rows ++ others) = rowsText rows ++ rowsText others := by
  simp [rowsText]

def indentLength (content : List UInt8) : Nat := (content.takeWhile isIndent).length

def Row.Plain (row : Row) : Prop := ∀ byte ∈ row.content, isNewline byte = false

/-- Rows that stand before a text as the lines of it would be read. -/
inductive Laid : List Row → List UInt8 → Prop
  | last (plain : Row.Plain ⟨content, []⟩) (stops : BreakStart back) : Laid [⟨content, []⟩] back
  | cons (plain : row.Plain) (ends : row.ending ≠ []) (stops : BreakStart row.ending)
      (width : breakWidth (row.ending ++ (rowsText rest ++ back)) = row.ending.length) (laid : Laid rest back) :
      Laid (row :: rest) back

/-- A row, and `left` more, off the front of a text. -/
def readRows : Nat → List UInt8 → Option (List Row × List UInt8)
  | left, rest =>
    let content := rest.takeWhile (!isNewline ·)
    let tail := rest.drop content.length
    match left with
    | 0 => some ([⟨content, []⟩], tail)
    | left + 1 =>
      if tail = [] then none
      else
        (readRows left (tail.drop (breakWidth tail))).map fun read =>
          (⟨content, tail.take (breakWidth tail)⟩ :: read.1, read.2)

/-- The offsets of rows that begin at `start`. -/
def linesOf (start : Nat) : List Row → List Line
  | [] => []
  | row :: rest =>
    ⟨start, start + row.content.length, start + indentLength row.content⟩ :: linesOf (start + row.bytes.length) rest

theorem breakWidth_le {text : List UInt8} (more : text ≠ []) : breakWidth text ≤ text.length ∧ 0 < breakWidth text := by
  unfold breakWidth
  rcases text with _ | ⟨first, _ | ⟨second, rest⟩⟩
  · exact absurd rfl more
  · simp
  · simp only
    split <;> simp

theorem linesFrom_eq (first left n start : Nat) (rest : List UInt8) :
    linesFrom first left n start rest = (readRows left rest).map fun read =>
      (linesOf start read.1).drop (first - n) := by
  induction left generalizing n start rest with
  | zero =>
    unfold linesFrom readRows
    by_cases reached : first ≤ n
    · simp [reached, linesOf, indentLength, Nat.sub_eq_zero_of_le reached]
    · obtain ⟨gap, wide⟩ : ∃ gap, first - n = gap + 1 := ⟨first - n - 1, by omega⟩
      simp [reached, linesOf, wide]
  | succ left ih =>
    unfold linesFrom readRows
    simp only
    split
    · rfl
    · rename_i more
      have width := (breakWidth_le more).1
      rw [ih, Option.map_map, Option.map_map]
      congr 1
      funext read
      have long : ((rest.drop (rest.takeWhile (!isNewline ·)).length).take
          (breakWidth (rest.drop (rest.takeWhile (!isNewline ·)).length))).length =
            breakWidth (rest.drop (rest.takeWhile (!isNewline ·)).length) := List.length_take_of_le width
      simp only [Function.comp_apply, linesOf, Row.bytes, List.length_append, long, ← Nat.add_assoc]
      by_cases reached : first ≤ n
      · simp [reached, Nat.sub_eq_zero_of_le reached, Nat.sub_eq_zero_of_le (Nat.le_succ_of_le reached), indentLength]
      · obtain ⟨gap, wide⟩ : ∃ gap, first - n = gap + 1 := ⟨first - n - 1, by omega⟩
        have less : first - (n + 1) = gap := by omega
        simp [reached, wide, less]

private theorem content_tail (rest : List UInt8) :
    rest = rest.takeWhile (!isNewline ·) ++ rest.drop (rest.takeWhile (!isNewline ·)).length ∧
      BreakStart (rest.drop (rest.takeWhile (!isNewline ·)).length) := by
  have split : rest.takeWhile (!isNewline ·) ++ rest.dropWhile (!isNewline ·) = rest := List.takeWhile_append_dropWhile
  have behind : rest.drop (rest.takeWhile (!isNewline ·)).length = rest.dropWhile (!isNewline ·) := by
    have dropped := congrArg (List.drop (rest.takeWhile (!isNewline ·)).length) split
    rw [List.drop_left] at dropped
    exact dropped.symm
  rw [behind]
  refine ⟨split.symm, fun byte head => ?_⟩
  have stops := List.head?_dropWhile_not (fun byte => !isNewline byte) rest
  rw [head] at stops
  simpa using stops

private theorem content_read {content tail : List UInt8} (plain : ∀ byte ∈ content, isNewline byte = false)
    (stops : BreakStart tail) :
    (content ++ tail).takeWhile (!isNewline ·) = content := by
  rw [List.takeWhile_append_of_pos (fun byte listed => by simp [plain byte listed])]
  cases tail with
  | nil => simp
  | cons byte rest => simp [stops byte rfl]

theorem readRows_laid (read : readRows left text = some (rows, back)) :
    Laid rows back ∧ rows.length = left + 1 ∧ text = rowsText rows ++ back := by
  induction left generalizing text rows with
  | zero =>
    obtain ⟨whole, stops⟩ := content_tail text
    simp only [readRows, Option.some.injEq, Prod.mk.injEq] at read
    obtain ⟨rfl, rfl⟩ := read
    refine ⟨.last (fun byte listed => ?_) stops, rfl, ?_⟩
    · simpa using List.mem_takeWhile_imp listed
    · simpa [rowsText, Row.bytes] using whole
  | succ left ih =>
    obtain ⟨whole, stops⟩ := content_tail text
    unfold readRows at read
    simp only at read
    split at read
    · cases read
    rename_i more
    obtain ⟨⟨later, behind⟩, inner, same⟩ := Option.map_eq_some_iff.mp read
    cases same
    obtain ⟨laid, long, covers⟩ := ih inner
    obtain ⟨width, positive⟩ := breakWidth_le more
    have tail := List.take_append_drop (breakWidth (text.drop (text.takeWhile (!isNewline ·)).length))
      (text.drop (text.takeWhile (!isNewline ·)).length)
    refine ⟨.cons (fun byte listed => ?_) ?_ ?_ ?_ laid, by simp [long], ?_⟩
    · simpa using List.mem_takeWhile_imp listed
    · exact List.ne_nil_of_length_pos (by rwa [List.length_take_of_le width])
    · intro byte head
      refine stops byte ?_
      rw [← tail, List.head?_append, head]
      rfl
    · rw [← covers, tail, List.length_take_of_le width]
    · conv_lhs => rw [whole, ← tail, covers]
      simp [rowsText, Row.bytes]

theorem Laid.read (laid : Laid rows back) (long : rows.length = left + 1) :
    readRows left (rowsText rows ++ back) = some (rows, back) := by
  induction laid generalizing left with
  | @last content back plain stops =>
    obtain rfl : left = 0 := by simpa using long.symm
    have content_ := content_read plain stops
    simp only [readRows, rowsText, List.flatMap_cons, Row.bytes, List.flatMap_nil, List.append_nil, content_,
      List.drop_left]
  | @cons rest back row plain ends stops width laid ih =>
    obtain ⟨left, rfl⟩ : ∃ less, left = less + 1 := by
      obtain ⟨_, _, rfl⟩ : ∃ first more, rest = first :: more := by cases laid <;> exact ⟨_, _, rfl⟩
      exact ⟨left - 1, by simp at long; omega⟩
    have covers : rowsText (row :: rest) ++ back = row.content ++ (row.ending ++ (rowsText rest ++ back)) := by
      simp [rowsText, Row.bytes]
    have content_ : (row.content ++ (row.ending ++ (rowsText rest ++ back))).takeWhile (!isNewline ·) =
      row.content := by
      refine content_read plain fun byte head => stops byte ?_
      rwa [List.head?_append_of_ne_nil _ ends] at head
    have more : row.ending ++ (rowsText rest ++ back) ≠ [] := by simp [ends]
    rw [covers, readRows]
    simp only [content_, List.drop_left, more, if_false, width, List.take_left, ih (by simpa using long)]
    rfl

/-- The rows end alike, and both have content or neither. -/
structure Similar (row other : Row) : Prop where
  ending : other.ending = row.ending
  plain : row.Plain → other.Plain
  empty : other.content = [] ↔ row.content = []

theorem similar_refl (row : Row) : Similar row row := ⟨rfl, id, Iff.rfl⟩

private theorem breakWidth_congr {ending tail other : List UInt8} (more : ending ≠ [])
    (same : tail.head? = some newline ↔ other.head? = some newline) :
    breakWidth (ending ++ tail) = breakWidth (ending ++ other) := by
  rcases ending with _ | ⟨first, _ | ⟨second, ending⟩⟩
  · exact absurd rfl more
  · rcases tail with _ | ⟨byte, tail⟩ <;> rcases other with _ | ⟨byte', other⟩ <;> simp [breakWidth] at same ⊢ <;> grind
  · rfl

/-- Rows laid out begin with the end of a line when their first row has no content. -/
private theorem Laid.head (laid : Laid rows back) (similar : List.Forall₂ Similar rows others) :
    (rowsText rows ++ back).head? = some newline ↔ (rowsText others ++ back).head? = some newline := by
  have sharp {content tail : List UInt8} (plain : ∀ byte ∈ content, isNewline byte = false) (more : content ≠ []) :
      (content ++ tail).head? ≠ some newline := by
    obtain ⟨byte, content, rfl⟩ := List.exists_cons_of_ne_nil more
    simp only [List.cons_append, List.head?_cons, ne_eq, Option.some.injEq]
    rintro rfl
    exact absurd (plain newline List.mem_cons_self) (by decide)
  have step {row other : Row} {rest more : List Row} (plain : row.Plain) (alike : Similar row other)
      (tails : row.content = [] → ((row.ending ++ (rowsText rest ++ back)).head? = some newline ↔
        (row.ending ++ (rowsText more ++ back)).head? = some newline)) :
      (rowsText (row :: rest) ++ back).head? = some newline ↔
        (rowsText (other :: more) ++ back).head? = some newline := by
    have covers (row : Row) (rest : List Row) :
        rowsText (row :: rest) ++ back = row.content ++ (row.ending ++ (rowsText rest ++ back)) := by
      simp [rowsText, Row.bytes]
    rw [covers, covers, alike.ending]
    by_cases none : row.content = []
    · rw [none, alike.empty.mpr none]
      exact tails none
    · exact iff_of_false (sharp plain none) (sharp (alike.plain plain) (fun no => none (alike.empty.mp no)))
  cases laid with
  | last plain stops =>
    cases similar with
    | cons alike rest =>
      cases rest
      exact step plain alike fun _ => Iff.rfl
  | cons plain ends stops width laid =>
    cases similar with
    | cons alike rest =>
      refine step plain alike fun _ => ?_
      rw [List.head?_append_of_ne_nil _ ends, List.head?_append_of_ne_nil _ ends]

theorem Laid.similar (laid : Laid rows back) (similar : List.Forall₂ Similar rows others) : Laid others back := by
  induction laid generalizing others with
  | last plain stops =>
    cases similar with
    | @cons _ other _ _ alike rest =>
      cases rest
      obtain ⟨content, ending⟩ := other
      obtain rfl : ending = [] := alike.ending
      exact .last (alike.plain plain) stops
  | @cons rest back row plain ends stops width laid ih =>
    cases similar with
    | @cons _ other _ more alike later =>
      have same := breakWidth_congr ends (laid.head later)
      refine .cons (alike.plain plain) ?_ ?_ ?_ (ih later) <;> rw [alike.ending]
      · exact ends
      · exact stops
      · rw [← same, width]

end QueryHive.Sql.Comment
