import Mathlib.Data.List.Forall2
import QueryHive.Sql.CommentRows

/-! Commenting comes off again. A call that inserts markers changes the content of the chosen
rows and nothing else; the check it makes against the whole result is what the second call needs
to find every line marked, under every reading, and no line inside a region. -/
namespace QueryHive.Sql.Comment
open Byte Library.Patch

/-- The chosen lines of a text are rows of it, and stay so when similar rows take their place. -/
structure Chosen (text : List UInt8) (first last : Nat) (target : List Line) (front : List UInt8) (rows : List Row)
    (back : List UInt8) : Prop where
  covers : text = front ++ (rowsText rows ++ back)
  offsets : target = linesOf front.length rows
  nonempty : rows ≠ []
  laid : Laid rows back
  begins : BreakEnd front
  again : ∀ others, List.Forall₂ Similar rows others →
    lines (front ++ (rowsText others ++ back)) first last = some (linesOf front.length others)

theorem linesOf_drop (start k : Nat) (rows : List Row) :
    (linesOf start rows).drop k = linesOf (start + (rowsText (rows.take k)).length) (rows.drop k) := by
  induction k generalizing start rows with
  | zero => simp [rowsText]
  | succ k ih =>
    cases rows with
    | nil => simp [linesOf]
    | cons row rest =>
      rw [linesOf, List.drop_succ_cons, ih]
      simp [rowsText, Nat.add_assoc]

private theorem ending_last {ending tail : List UInt8} (ends : ending ≠ []) (stops : BreakStart ending)
    (width : breakWidth (ending ++ tail) = ending.length) : BreakEnd ending := by
  rcases ending with _ | ⟨first, _ | ⟨second, ending⟩⟩
  · exact absurd rfl ends
  · intro byte last
    obtain rfl : first = byte := by simpa using last
    exact stops first rfl
  · simp only [List.cons_append, breakWidth, List.length_cons] at width
    split at width
    · rename_i crlf
      obtain rfl : ending = [] := List.eq_nil_of_length_eq_zero (by omega)
      obtain ⟨-, rfl⟩ : first = carriageReturn ∧ second = newline := by simpa using crlf
      intro byte last
      obtain rfl : newline = byte := by simpa using last
      decide
    · omega

/-- Rows further on are laid out, behind the end of a line. -/
theorem Laid.drop (laid : Laid rows back) (k : Nat) (more : k < rows.length) :
    Laid (rows.drop k) back ∧ BreakEnd (rowsText (rows.take k)) := by
  induction k generalizing rows with
  | zero => exact ⟨laid, fun byte last => by simp [rowsText] at last⟩
  | succ k ih =>
    cases laid with
    | last => simp at more
    | @cons rest _ row plain ends stops width laid =>
      obtain ⟨later, before⟩ := ih laid (by simpa using more)
      refine ⟨later, fun byte last => ?_⟩
      rw [List.take_succ_cons, rowsText, List.flatMap_cons, Row.bytes] at last
      change (row.content ++ row.ending ++ rowsText (rest.take k)).getLast? = some byte at last
      rcases List.eq_nil_or_concat' (rowsText (rest.take k)) with none | ⟨front, final, is⟩
      · rw [none, List.append_nil, List.getLast?_append_of_ne_nil _ ends] at last
        exact ending_last ends stops width byte last
      · rw [is, ← List.append_assoc, List.getLast?_concat] at last
        exact before byte (by rw [is, List.getLast?_concat, last])

theorem lines_chosen (found : lines text first last = some target) :
    ∃ front rows back, Chosen text first last target front rows back := by
  unfold lines at found
  split at found
  · cases found
  rename_i range
  rw [linesFrom_eq, Option.map_eq_some_iff] at found
  obtain ⟨⟨rows, back⟩, read, rfl⟩ := found
  obtain ⟨laid, long, covers⟩ := readRows_laid read
  obtain ⟨later, before⟩ := laid.drop (first - 1) (by omega)
  refine ⟨rowsText (rows.take (first - 1)), rows.drop (first - 1), back, ?_, ?_, ?_, later, before, ?_⟩
  · rw [covers, ← List.append_assoc, ← rowsText_append, List.take_append_drop]
  · rw [linesOf_drop, Nat.zero_add]
  · simp
    omega
  · intro others similar
    have whole : List.Forall₂ Similar rows (rows.take (first - 1) ++ others) := by
      have same : List.Forall₂ Similar (rows.take (first - 1)) (rows.take (first - 1)) :=
        List.forall₂_same.mpr fun row _ => similar_refl row
      have joined : List.Forall₂ Similar (rows.take (first - 1) ++ rows.drop (first - 1))
        (rows.take (first - 1) ++ others) :=
        List.rel_append same similar
      rwa [List.take_append_drop] at joined
    have again := (laid.similar whole).read (whole.length_eq.symm.trans long)
    have covers : rowsText (rows.take (first - 1)) ++ (rowsText others ++ back) =
        rowsText (rows.take (first - 1) ++ others) ++ back := by rw [rowsText_append, List.append_assoc]
    have count : (rows.take (first - 1)).length = first - 1 := List.length_take_of_le (by omega)
    rw [lines, if_neg range, linesFrom_eq, covers, again, Option.map_some, linesOf_drop, List.take_left' count,
      List.drop_left' count, Nat.zero_add]

def Row.blank (row : Row) : Bool := row.content.all isBlankByte

def bodyRows (start : Nat) : List Row → List (Nat × Row)
  | [] => []
  | row :: rest =>
    if row.blank then bodyRows (start + row.bytes.length) rest
    else (start, row) :: bodyRows (start + row.bytes.length) rest

def lineAt (entry : Nat × Row) : Line :=
  ⟨entry.1, entry.1 + entry.2.content.length, entry.1 + indentLength entry.2.content⟩

theorem bodyOf_rows (front back : List UInt8) (rows : List Row) :
    bodyOf (front ++ (rowsText rows ++ back)) (linesOf front.length rows) =
      (bodyRows front.length rows).map lineAt := by
  induction rows generalizing front with
  | nil => rfl
  | cons row rest ih =>
    have next := ih (front ++ row.bytes)
    rw [List.length_append] at next
    have covers : front ++ (rowsText (row :: rest) ++ back) = front ++ row.bytes ++ (rowsText rest ++ back) := by
      simp [Row.bytes]
    have blank : isBlank (front ++ (rowsText (row :: rest) ++ back))
        ⟨front.length, front.length + row.content.length, front.length + indentLength row.content⟩ = row.blank := by
      have shown : front ++ (rowsText (row :: rest) ++ back) =
          front ++ (row.content ++ (row.ending ++ (rowsText rest ++ back))) := by simp
      rw [isBlank, shown, slice_append]
      rfl
    rw [← covers] at next
    unfold bodyOf at next ⊢
    rw [linesOf, bodyRows, List.filter_cons, blank, next]
    cases row.blank <;> rfl

theorem bodyRows_place {front : List UInt8} (back : List UInt8) (member : entry ∈ bodyRows front.length rows) :
    entry.2.blank = false ∧ entry.2 ∈ rows ∧ ∃ before after, before.length = entry.1 ∧
      front ++ (rowsText rows ++ back) = before ++ (entry.2.content ++ (entry.2.ending ++ after)) := by
  induction rows generalizing front with
  | nil => cases member
  | cons row rest ih =>
    have later (further : entry ∈ bodyRows (front.length + row.bytes.length) rest) :
        entry.2.blank = false ∧ entry.2 ∈ row :: rest ∧ ∃ before after, before.length = entry.1 ∧
          front ++ (rowsText (row :: rest) ++ back) = before ++ (entry.2.content ++ (entry.2.ending ++ after)) := by
      rw [← List.length_append] at further
      obtain ⟨some, listed, before, after, start, covers⟩ := ih further
      exact ⟨some, List.mem_cons_of_mem _ listed, before, after, start, by rw [← covers]; simp [Row.bytes]⟩
    unfold bodyRows at member
    split at member
    · exact later member
    · rename_i some
      rcases List.mem_cons.mp member with rfl | further
      · exact ⟨by simpa using some, List.mem_cons_self, front, rowsText rest ++ back, rfl, by simp⟩
      · exact later further

/-- The row with a marker at `k`, unless it is blank. -/
def Row.marked (k : Nat) (row : Row) : Row :=
  if row.blank then row else { row with content := row.content.take k ++ marker ++ row.content.drop k }

@[simp] theorem Row.marked_blank (k : Nat) (row : Row) : (row.marked k).blank = row.blank := by
  unfold Row.marked
  split
  · rfl
  · rename_i some
    have dashed : (marker ++ row.content.drop k).all isBlankByte = false := rfl
    rw [Row.blank, List.append_assoc, List.all_append, dashed, Bool.and_false]
    exact (Bool.eq_false_iff.mpr some).symm

theorem marked_bytes_length (k : Nat) (row : Row) :
    (row.marked k).bytes.length = row.bytes.length + if row.blank then 0 else marker.length := by
  unfold Row.marked Row.bytes
  split
  · rfl
  · have whole : (row.content.take k).length + (row.content.drop k).length = row.content.length := by
      rw [← List.length_append, List.take_append_drop]
    simp only [List.length_append]
    omega

theorem marked_similar (k : Nat) (rows : List Row) : List.Forall₂ Similar rows (rows.map (Row.marked k)) := by
  rw [List.forall₂_map_right_iff, List.forall₂_same]
  intro row _
  unfold Row.marked
  split
  · exact similar_refl row
  · rename_i some
    refine ⟨rfl, fun plain byte listed => ?_, ?_⟩
    · rcases List.mem_append.mp listed with front | behind
      · rcases List.mem_append.mp front with taken | dashed
        · exact plain byte (List.mem_of_mem_take taken)
        · have dashes : ∀ byte ∈ marker, isNewline byte = false := by
            intro byte listed
            simp only [marker, List.mem_cons, List.not_mem_nil, or_false] at listed
            rcases listed with rfl | rfl | rfl <;> rfl
          exact dashes byte dashed
      · exact plain byte (List.mem_of_mem_drop behind)
    · refine iff_of_false (by simp [marker]) fun none => ?_
      simp [Row.blank, none] at some

/-- The marked rows that are not blank are those rows, each moved by the markers before it. -/
theorem bodyRows_marked (k start j : Nat) (rows : List Row) :
    bodyRows (start + j * marker.length) (rows.map (Row.marked k)) =
      ((bodyRows start rows).zipIdx j).map fun ((begun, row), j) => (begun + j * marker.length, row.marked k) := by
  induction rows generalizing start j with
  | nil => rfl
  | cons row rest ih =>
    rw [List.map_cons, bodyRows, bodyRows, Row.marked_blank, marked_bytes_length]
    split
    · rw [← ih]
      congr 1
      omega
    · rw [List.zipIdx_cons, List.map_cons, ← ih]
      congr 2
      rw [Nat.add_mul]
      omega

/-- The row as a block of the text, with an edit `k` bytes into it unless it is blank. -/
def blockOf (k cut : Nat) (row : Row) : Block UInt8 := ⟨row.bytes, if row.blank then none else some (k, cut)⟩

theorem blocks_bodies (k cut : Nat) (rows : List Row) :
    (rows.map (blockOf k cut)).flatMap Block.body = rowsText rows := by
  rw [List.flatMap_map]
  rfl

theorem editsOf_rows (k cut start : Nat) (rows : List Row) :
    editsOf start (rows.map (blockOf k cut)) = (bodyRows start rows).map fun entry => (entry.1 + k, cut) := by
  induction rows generalizing start with
  | nil => rfl
  | cons row rest ih =>
    rw [List.map_cons, editsOf, bodyRows]
    unfold blockOf
    cases row.blank with
    | true => exact ih _
    | false => exact congrArg _ (ih _)

/-- Every row that is not blank has room for an edit of `cut` bytes at `k`. -/
def Room (k cut : Nat) (rows : List Row) : Prop := ∀ row ∈ rows, row.blank = false → k + cut ≤ row.content.length

theorem blocks_fit (room : Room k cut rows) : ∀ block ∈ rows.map (blockOf k cut), block.Fits := by
  intro block listed position gone edited
  obtain ⟨row, member, rfl⟩ := List.mem_map.mp listed
  unfold blockOf at edited ⊢
  simp only at edited ⊢
  split at edited
  · cases edited
  · rename_i some
    obtain ⟨rfl, rfl⟩ := Prod.mk.inj (Option.some.inj edited)
    have fits := room row member (by simpa using some)
    rw [Row.bytes, List.length_append]
    omega

/-- Edits `k` bytes into the rows that are not blank, as one replacement. -/
theorem replaceAll_rows (insert front back : List UInt8) (room : Room k cut rows)
    (more : bodyRows front.length rows ≠ []) :
    (replaceAll (front ++ (rowsText rows ++ back)) insert
        ((bodyRows front.length rows).map fun entry => (entry.1 + k, cut))).applied (front ++ (rowsText rows ++ back)) =
      front ++ ((rows.map (blockOf k cut)).flatMap (Block.patched insert) ++ back) := by
  have whole := patch_blocks insert [] front back (rows.map (blockOf k cut)) (blocks_fit room)
  rw [blocks_bodies, List.nil_append, List.length_nil, Nat.zero_add, editsOf_rows] at whole
  obtain ⟨first, rest, is⟩ := List.exists_cons_of_ne_nil more
  rw [← whole, is]
  exact replace_eq_patch _ _ _ _ _

theorem marked_blocks (room : Room k 0 rows) :
    (rows.map (blockOf k 0)).flatMap (Block.patched marker) = rowsText (rows.map (Row.marked k)) := by
  rw [List.flatMap_map, rowsText, List.flatMap_map]
  refine List.flatMap_congr fun row listed => ?_
  unfold blockOf Block.patched Row.marked Row.bytes
  cases some : row.blank with
  | true => rfl
  | false =>
    have fits : k ≤ row.content.length := room row listed some
    simp only [Bool.false_eq_true, if_false, Nat.add_zero, List.append_assoc]
    rw [List.take_append_of_le_length fits, List.drop_append_of_le_length fits]

theorem unmarked_blocks (room : Room k 0 rows) :
    ((rows.map (Row.marked k)).map (blockOf k marker.length)).flatMap (Block.patched []) = rowsText rows := by
  rw [List.map_map, List.flatMap_map, rowsText]
  refine List.flatMap_congr fun row listed => ?_
  unfold Function.comp blockOf Block.patched
  rw [Row.marked_blank]
  cases some : row.blank with
  | true => simp [Row.marked, some]
  | false =>
    have fits : k ≤ row.content.length := room row listed some
    have off := insert_then_cut row.bytes marker k (by rw [Row.bytes, List.length_append]; omega)
    have bytes : (row.marked k).bytes = row.bytes.take k ++ marker ++ row.bytes.drop k := by
      unfold Row.marked Row.bytes
      rw [some, List.take_append_of_le_length fits, List.drop_append_of_le_length fits]
      simp
    simp only [Bool.false_eq_true, if_false, bytes, List.append_nil]
    exact off

theorem marked_room (room : Room k 0 rows) : Room k marker.length (rows.map (Row.marked k)) := by
  intro row listed some
  obtain ⟨before, member, rfl⟩ := List.mem_map.mp listed
  rw [Row.marked_blank] at some
  have fits : k ≤ before.content.length := room before member some
  unfold Row.marked
  simp only [some, Bool.false_eq_true, if_false, List.length_append]
  rw [List.length_take_of_le fits]
  omega

private theorem foldl_min_le (f : Line → Nat) (lines : List Line) (bound : Nat) :
    lines.foldl (fun n line => min n (f line)) bound ≤ bound ∧
      ∀ line ∈ lines, lines.foldl (fun n line => min n (f line)) bound ≤ f line := by
  induction lines generalizing bound with
  | nil => exact ⟨Nat.le_refl _, by simp⟩
  | cons first rest ih =>
    obtain ⟨low, each⟩ := ih (min bound (f first))
    refine ⟨Nat.le_trans low (Nat.min_le_left _ _), fun line listed => ?_⟩
    rcases List.mem_cons.mp listed with rfl | later
    · exact Nat.le_trans low (Nat.min_le_right _ _)
    · exact each line later

theorem sharedIndent_le (text : List UInt8) (first : Line) (body : List Line) :
    ∀ line ∈ body, sharedIndent text first body ≤ line.indent - line.start := by
  intro line listed
  refine Nat.le_trans ((foldl_min_le _ body _).2 line listed) ?_
  have zipped := (List.takeWhile_prefix (fun pair : UInt8 × UInt8 => pair.1 == pair.2)
    (l := (slice text first.start first.indent).zip (slice text line.start line.indent))).length_le
  have own : (slice text line.start line.indent).length ≤ line.indent - line.start := by
    rw [slice, List.length_drop, List.length_take]
    omega
  rw [List.length_zip] at zipped
  unfold commonLength
  omega

/-- What a call that inserts markers did: the chosen rows have a marker `k` bytes in, no region
reached across the ends of a line, and the check against the whole result went through. -/
structure Inserted (text : List UInt8) (readings : List Lexer) (first last : Nat) (edit : LineEdit)
    (front : List UInt8) (rows : List Row) (back : List UInt8) (k : Nat) : Prop where
  chosen : ∃ target, lines text first last = some target ∧ Chosen text first last target front rows back
  indented : ∀ row ∈ rows, row.blank = false → k ≤ indentLength row.content
  body : bodyRows front.length rows ≠ []
  result : edit.applied text = front ++ (rowsText (rows.map (Row.marked k)) ++ back)
  outside : ∀ lexer ∈ orGeneric readings, ∀ line ∈ linesOf front.length rows,
    inside (regions text lexer) line.start = false ∧ inside (regions text lexer) line.stop = false
  kept : ∀ lexer ∈ orGeneric readings,
    (regions (edit.applied text) lexer).filter (fun region => region.kind ≠ .lineComment) =
      expected front.length (front.length + (rowsText rows).length)
        ((bodyRows front.length rows).length * marker.length) (regions text lexer)
  opens : ∀ lexer ∈ orGeneric readings, ∀ entry ∈ bodyRows front.length (rows.map (Row.marked k)),
    opensComment (edit.applied text) (regions (edit.applied text) lexer) (entry.1 + k)
      (entry.1 + entry.2.content.length) = true

theorem linesOf_head (start : Nat) (nonempty : rows ≠ []) :
    ((linesOf start rows).head?.map Line.start).getD 0 = start := by
  obtain ⟨row, rest, rfl⟩ := List.exists_cons_of_ne_nil nonempty
  rfl

theorem Laid.linesOf_last (laid : Laid rows back) (start : Nat) :
    ((linesOf start rows).getLast?.map Line.stop).getD 0 = start + (rowsText rows).length := by
  induction laid generalizing start with
  | last => simp [linesOf]
  | @cons rest _ row _ _ _ _ laid ih =>
    obtain ⟨first, more, rfl⟩ : ∃ first more, rest = first :: more := by cases laid <;> exact ⟨_, _, rfl⟩
    have next := ih (start + row.bytes.length)
    rw [linesOf] at next ⊢
    rw [linesOf, List.getLast?_cons_cons, next, rowsText_cons row]
    simp [Row.bytes]
    omega

theorem marked_length (k start : Nat) (rows : List Row) :
    (rowsText (rows.map (Row.marked k))).length =
      (rowsText rows).length + (bodyRows start rows).length * marker.length := by
  induction rows generalizing start with
  | nil => rfl
  | cons row rest ih =>
    have here := marked_bytes_length k row
    have later := ih (start + row.bytes.length)
    rw [Row.bytes, Row.bytes, List.length_append, List.length_append] at here
    rw [List.map_cons, rowsText_cons, rowsText_cons, bodyRows]
    simp only [List.length_append, later]
    split
    · rename_i blank
      rw [if_pos blank] at here
      omega
    · rename_i some
      rw [if_neg some] at here
      rw [List.length_cons, Nat.add_mul]
      omega

theorem mem_bodyRows (start : Nat) (listed : row ∈ rows) (some : row.blank = false) :
    ∃ begun, (begun, row) ∈ bodyRows start rows := by
  induction rows generalizing start with
  | nil => cases listed
  | cons first rest ih =>
    rw [bodyRows]
    rcases List.mem_cons.mp listed with rfl | later
    · exact ⟨start, by simp [some]⟩
    · obtain ⟨begun, member⟩ := ih (start + first.bytes.length) later
      refine ⟨begun, ?_⟩
      split
      · exact member
      · exact List.mem_cons_of_mem _ member

theorem room_of_indented (indented : ∀ row ∈ rows, row.blank = false → k ≤ indentLength row.content) : Room k 0 rows :=
  fun row listed some => Nat.le_trans (indented row listed some) (List.takeWhile_prefix _).length_le

private theorem mem_zip_map {readings : List Lexer} (f : Lexer → List Region) (listed : lexer ∈ readings) :
    (lexer, f lexer) ∈ readings.zip (readings.map f) := by
  induction readings with
  | nil => cases listed
  | cons first rest ih =>
    rw [List.map_cons, List.zip_cons_cons]
    rcases List.mem_cons.mp listed with rfl | later
    · exact List.mem_cons_self
    · exact List.mem_cons_of_mem _ (ih later)

theorem mem_bodyRows_marked (member : entry ∈ bodyRows start (rows.map (Row.marked k))) :
    ∃ begun row j, ((begun, row), j) ∈ (bodyRows start rows).zipIdx ∧ entry.1 = begun + j * marker.length ∧
      entry.2 = row.marked k ∧ row.blank = false ∧
        (row.marked k).content = row.content.take k ++ marker ++ row.content.drop k := by
  have moved := bodyRows_marked k start 0 rows
  rw [Nat.zero_mul, Nat.add_zero] at moved
  rw [moved] at member
  obtain ⟨⟨⟨begun, row⟩, j⟩, listed, rfl⟩ := List.mem_map.mp member
  have some : row.blank = false := by
    have place : (begun, row) ∈ bodyRows start rows := List.fst_mem_of_mem_zipIdx listed
    have start_ : (List.replicate start newline).length = start := List.length_replicate
    rw [← start_] at place
    exact (bodyRows_place [] place).1
  exact ⟨begun, row, j, listed, rfl, rfl, some, by simp [Row.marked, some]⟩

theorem toggle_inserted (inserts : inserting text readings first last = true)
    (toggled : toggleLineComment text readings first last = .ok edit) :
    ∃ front rows back k, Inserted text readings first last edit front rows back k := by
  unfold inserting at inserts
  unfold toggleLineComment at toggled
  split at inserts
  · cases inserts
  rename_i target found
  rw [found] at toggled
  simp only at toggled
  split at toggled
  · cases toggled
  rename_i free
  obtain ⟨front, rows, back, chosen⟩ := lines_chosen found
  have body := bodyOf_rows front back rows
  rw [← chosen.covers, ← chosen.offsets] at body
  split at toggled
  · rename_i none
    simp [none] at inserts
  rename_i top rest lead
  have marks : uncomments text readings target = false := by
    simp only [Bool.and_eq_true, Bool.not_eq_true'] at inserts
    exact inserts.2
  simp only [marks, Bool.false_eq_true, if_false, Bool.not_false, Bool.true_and] at toggled
  split at toggled
  · cases toggled
  rename_i spilled
  cases toggled
  have shared := sharedIndent_le text top (top :: rest)
  set k := sharedIndent text top (top :: rest)
  rw [← lead, body] at shared
  have indented : ∀ row ∈ rows, row.blank = false → k ≤ indentLength row.content := by
    intro row listed some
    obtain ⟨begun, member⟩ := mem_bodyRows front.length listed some
    have low := shared _ (List.mem_map_of_mem (f := lineAt) member)
    simp only [lineAt] at low
    omega
  have room := room_of_indented indented
  have more : bodyRows front.length rows ≠ [] := by
    intro none
    rw [none, lead] at body
    cases body
  have edits : lineEdits text false top (top :: rest) = (bodyRows front.length rows).map fun entry =>
    (entry.1 + k, 0) := by
    change (top :: rest).map (fun line => (line.start + k, 0)) = _
    rw [← lead, body, List.map_map]
    rfl
  have result := replaceAll_rows marker front back room more
  rw [marked_blocks room, ← edits, ← chosen.covers] at result
  refine ⟨front, rows, back, k, ⟨target, found, chosen⟩, indented, more, result, ?_, ?_, ?_⟩
  · intro lexer listed line member
    rw [← chosen.offsets] at member
    have quiet := List.findIdx?_eq_none_iff.mp free line member
    have observed : regions text lexer ∈ (orGeneric readings).map (regions text) := List.mem_map_of_mem listed
    have each := List.any_eq_false.mp quiet _ observed
    simpa using each
  · intro lexer listed
    have checked := List.any_eq_false.mp (Bool.eq_false_iff.mpr spilled) _ (mem_zip_map (regions text) listed)
    simp only [spills, Bool.or_eq_true, not_or, decide_eq_true_eq, not_not] at checked
    have head := linesOf_head front.length chosen.nonempty
    have last := chosen.laid.linesOf_last front.length
    rw [← chosen.offsets] at head last
    rw [head, last] at checked
    rw [checked.1, ← lead, body, List.length_map]
  · intro lexer listed entry member
    have checked := List.any_eq_false.mp (Bool.eq_false_iff.mpr spilled) _ (mem_zip_map (regions text) listed)
    simp only [spills, Bool.or_eq_true, not_or] at checked
    obtain ⟨begun, row, j, place, start, is, some, content⟩ := mem_bodyRows_marked member
    have here : (((begun + k, 0), lineAt (begun, row)), j) ∈
        ((lineEdits text false top (top :: rest)).zip (top :: rest)).zipIdx := by
      rw [edits, ← lead, body, List.zip_map', List.zipIdx_map]
      exact List.mem_map.mpr ⟨((begun, row), j), place, rfl⟩
    have opened := List.any_eq_false.mp (Bool.eq_false_iff.mpr checked.2) _ here
    simp only [Bool.not_eq_true, Bool.not_eq_false'] at opened
    have row_ := room row (bodyRows_place back (List.fst_mem_of_mem_zipIdx place)).2.1 some
    have long : (row.marked k).content.length = row.content.length + marker.length := by
      rw [content, List.length_append, List.length_append, List.length_take, List.length_drop]
      omega
    rw [start, is, long]
    have place_ : begun + k + j * marker.length = begun + j * marker.length + k := by omega
    have stop_ : begun + row.content.length + (j + 1) * marker.length =
        begun + j * marker.length + (row.content.length + marker.length) := by
      rw [Nat.add_mul]
      omega
    rw [← place_, ← stop_]
    exact opened

theorem linesOf_bounds (member : line ∈ linesOf start rows) :
    start ≤ line.start ∧ line.start ≤ line.stop ∧ line.stop ≤ start + (rowsText rows).length := by
  induction rows generalizing start with
  | nil => cases member
  | cons row rest ih =>
    have long : (rowsText (row :: rest)).length = row.bytes.length + (rowsText rest).length := by
      simp [Row.bytes]
      omega
    have inner : row.bytes.length = row.content.length + row.ending.length := List.length_append
    rcases List.mem_cons.mp member with rfl | later
    · simp only
      omega
    · have bounds := ih later
      omega

theorem not_inside_between (kept : new.filter (fun region : Region => region.kind ≠ .lineComment) =
    expected start stop shift old)
    (low : start ≤ pos) (high : pos ≤ stop + shift) : inside new pos = false := by
  by_contra reaches
  rw [Bool.not_eq_false, inside, Option.any_eq_true] at reaches
  obtain ⟨region, last, reaches⟩ := reaches
  have begun := List.mem_of_getLast? last
  have before : region.start < pos := by simpa using List.mem_takeWhile_imp begun
  have listed : region ∈ new := (List.takeWhile_prefix _).subset begun
  simp only [Bool.and_eq_true, decide_eq_true_eq] at reaches
  have found : region ∈ expected start stop shift old := by
    rw [← kept]
    exact List.mem_filter.mpr ⟨listed, by simpa using reaches.1⟩
  obtain ⟨was, place, rfl⟩ := List.mem_map.mp found
  have outside := (List.mem_filter.mp place).2
  simp only [Bool.or_eq_true, decide_eq_true_eq] at outside
  by_cases behind : stop ≤ was.start
  · simp only [behind, if_true] at before
    omega
  · simp only [behind, if_false, or_false, Nat.add_zero] at outside reaches
    omega

theorem marked_indent {content rest : List UInt8} (low : k ≤ indentLength content) :
    indentLength (content.take k ++ marker ++ rest) = k := by
  have blanks : ∀ byte ∈ content.take k, isIndent byte = true := by
    have inner : content.take k <+: content.takeWhile isIndent :=
      List.prefix_of_prefix_length_le (List.take_prefix _ _) (List.takeWhile_prefix _)
        (Nat.le_trans (List.length_take_le _ _) low)
    exact fun byte listed => List.mem_takeWhile_imp (inner.subset listed)
  have long : (content.take k).length = k :=
    List.length_take_of_le (Nat.le_trans low (List.takeWhile_prefix _).length_le)
  rw [indentLength, List.append_assoc, List.takeWhile_append_of_pos blanks]
  simp [marker, isIndent, long]

namespace Inserted

variable {text back front : List UInt8} {rows : List Row} {readings : List Lexer}
  (inserted : Inserted text readings first last edit front rows back k)
include inserted

theorem room : Room k 0 rows := room_of_indented inserted.indented

/-- Where the marker of a line stands in the new text. -/
theorem placed (member : entry ∈ bodyRows front.length (rows.map (Row.marked k))) :
    indentLength entry.2.content = k ∧ ∃ before after, before.length = entry.1 + k ∧
      edit.applied text = before ++ (marker ++ after) := by
  obtain ⟨some, _, before, after, start, covers⟩ := bodyRows_place back member
  obtain ⟨begun, row, j, place, _, is, plain, content⟩ := mem_bodyRows_marked member
  have low := inserted.indented row (bodyRows_place back (List.fst_mem_of_mem_zipIdx place)).2.1 plain
  have fits : k ≤ row.content.length := Nat.le_trans low (List.takeWhile_prefix _).length_le
  rw [is, content]
  refine ⟨marked_indent low, before ++ row.content.take k, row.content.drop k ++ (entry.2.ending ++ after), ?_, ?_⟩
  · rw [List.length_append, List.length_take_of_le fits, start]
  · rw [inserted.result, covers, is, content]
    simp only [List.append_assoc]

theorem free (listed : lexer ∈ orGeneric readings) (member : line ∈ linesOf front.length (rows.map (Row.marked k))) :
    inside (regions (edit.applied text) lexer) line.start = false ∧
      inside (regions (edit.applied text) lexer) line.stop = false := by
  have bounds := linesOf_bounds member
  rw [marked_length k front.length] at bounds
  have kept := inserted.kept lexer listed
  exact ⟨not_inside_between kept bounds.1 (by omega), not_inside_between kept (by omega) (by omega)⟩

theorem all_marked (member : entry ∈ bodyRows front.length (rows.map (Row.marked k))) :
    marked (edit.applied text) ((orGeneric readings).map (regions (edit.applied text))) (lineAt entry) = true := by
  obtain ⟨indent, before, after, start, covers⟩ := inserted.placed member
  have at_ : (lineAt entry).indent = before.length := by rw [start, lineAt, indent]
  unfold marked
  rw [at_, Bool.and_eq_true, Bool.and_eq_true]
  refine ⟨⟨?_, ?_⟩, ?_⟩
  · rw [covers, List.drop_left]
    rfl
  · rw [covers, List.getElem?_append_right (by omega)]
    simp [marker]
  · rw [List.all_eq_true]
    intro observed listed
    obtain ⟨lexer, reading, rfl⟩ := List.mem_map.mp listed
    have opened := inserted.opens lexer reading entry member
    unfold opensComment at opened
    obtain ⟨region, last, opened⟩ := Option.any_eq_true _ _ |>.mp opened
    rw [commentedOut, start, last, Option.any_some]
    simp only [Bool.and_eq_true, Bool.or_eq_true, decide_eq_true_eq] at opened ⊢
    refine ⟨opened.1.1, ?_⟩
    change entry.1 + entry.2.content.length ≤ region.stop
    rcases opened.2 with same | same <;> omega

end Inserted

/-- Commenting comes off again: after a call that inserts markers, the same call takes out
exactly the bytes that were put in. -/
theorem commenting_comes_off (text : List UInt8) (readings : List Lexer) (firstLine lastLine : Nat)
    (inserts : inserting text readings firstLine lastLine = true)
    (toggled : toggleLineComment text readings firstLine lastLine = .ok edit) :
    ∃ off, toggleLineComment (edit.applied text) readings firstLine lastLine = .ok off ∧
      off.applied (edit.applied text) = text := by
  obtain ⟨front, rows, back, k, inserted⟩ := toggle_inserted inserts toggled
  obtain ⟨target, found, chosen⟩ := inserted.chosen
  set joined := edit.applied text with joined_
  set marks := rows.map (Row.marked k)
  have again : lines joined firstLine lastLine = some (linesOf front.length marks) := by
    rw [joined_, inserted.result]
    exact chosen.again marks (marked_similar k rows)
  have body : bodyOf joined (linesOf front.length marks) = (bodyRows front.length marks).map lineAt := by
    rw [joined_, inserted.result]
    exact bodyOf_rows front back marks
  have more : bodyRows front.length marks ≠ [] := by
    have moved := bodyRows_marked k front.length 0 rows
    rw [Nat.zero_mul, Nat.add_zero] at moved
    rw [moved]
    simpa using inserted.body
  have quiet : (linesOf front.length marks).findIdx? (fun line =>
      ((orGeneric readings).map (regions joined)).any fun regions => inside regions line.start ||
      inside regions line.stop) =
        none := by
    rw [List.findIdx?_eq_none_iff]
    intro line member
    rw [List.any_eq_false]
    intro observed listed
    obtain ⟨lexer, reading, rfl⟩ := List.mem_map.mp listed
    have free := inserted.free reading member
    simp [joined_, free]
  have all : uncomments joined readings (linesOf front.length marks) = true := by
    rw [uncomments, body, List.all_map, List.all_eq_true]
    exact fun entry member => inserted.all_marked member
  obtain ⟨top, rest, lead⟩ := List.exists_cons_of_ne_nil more
  have edits : lineEdits joined true (lineAt top) ((bodyRows front.length marks).map lineAt) =
      (bodyRows front.length marks).map fun entry => (entry.1 + k, marker.length) := by
    rw [lineEdits, if_pos rfl, List.map_map]
    refine List.map_congr_left fun entry member => ?_
    obtain ⟨indent, before, after, start, covers⟩ := inserted.placed member
    have cut : joined[entry.1 + k + 2]? = some space := by
      rw [joined_, covers, List.getElem?_append_right (by omega), start]
      simp [marker]
    simp only [Function.comp_apply, lineAt, indent, cut]
    rfl
  have off := replaceAll_rows [] front back (marked_room inserted.room) more
  rw [unmarked_blocks inserted.room, ← inserted.result, ← chosen.covers, ← edits] at off
  refine ⟨_, ?_, off⟩
  rw [lead] at body ⊢
  simp only [toggleLineComment, again, quiet, body, List.map_cons, all, Bool.not_true, Bool.false_and,
    Bool.false_eq_true, if_false, if_true]
  rfl

/-- Two lines of a text, indented differently, under PostgreSQL's readings. -/
theorem commenting_comes_off_indented :
    ∃ edit, toggleLineComment (ofAscii " a\r\n  'b'\n") (Dialect.readings .postgres) 1 2 = .ok edit ∧
      edit.applied (ofAscii " a\r\n  'b'\n") = ofAscii " -- a\r\n --  'b'\n" ∧
        ∃ off, toggleLineComment (edit.applied (ofAscii " a\r\n  'b'\n")) (Dialect.readings .postgres) 1 2 = .ok off ∧
          off.applied (edit.applied (ofAscii " a\r\n  'b'\n")) = ofAscii " a\r\n  'b'\n" :=
  ⟨⟨1, 5, ofAscii "-- a\r\n -- "⟩, by decide +kernel, by decide +kernel,
    commenting_comes_off _ _ _ _ (by decide) (by decide +kernel)⟩

end QueryHive.Sql.Comment
