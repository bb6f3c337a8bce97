import Mathlib.Data.List.ModifyLast
import QueryHive.Sql.CommentAgain

/-! Commenting changes nothing outside the chosen lines. The check of `toggle_line_comment`
compares the regions that are not line comments, and where each marker's comment ends. Under one
reading that is enough for the lexemes: the texts are read alike up to the first line that gets a
marker, and behind the last one both walks start afresh. -/
namespace QueryHive.Sql.Comment
open Byte Library.Munch

/-- The regions of lexemes that begin at `index`. -/
def regionsFrom (index : Nat) : List Lexeme → List Region
  | [] => []
  | lexeme :: rest =>
    let stop := index + lexeme.bytes.length
    match lexeme with
    | .region state _ => ⟨state.kind, index, stop⟩ :: regionsFrom stop rest
    | .unclosed state _ => ⟨state.kind, index, usizeMax⟩ :: regionsFrom stop rest
    | _ => regionsFrom stop rest

private theorem endOf_open (ends : endOf lexemes = .openRegion kind) (index : Nat) :
    (eventsFrom index lexemes).filterMap opaqueOnly ≠ [] := by
  induction lexemes generalizing index with
  | nil => cases ends
  | cons lexeme rest ih =>
    by_cases more : rest = []
    · subst more
      cases lexeme <;> simp [endOf] at ends <;> simp [eventsFrom, opaqueOnly]
    · rw [end_of_cons more] at ends
      have next := ih ends (index + lexeme.bytes.length)
      cases lexeme <;> simp_all [eventsFrom, opaqueOnly]

private theorem leaveOpen_cons (region : Region) (ended : EndState) (found : List Region)
    (some : ∀ kind, ended = .openRegion kind → found ≠ []) :
    leaveOpen ended (region :: found) = region :: leaveOpen ended found := by
  cases ended with
  | normal => rfl
  | openRegion kind =>
    have behind := List.modifyLast_append_of_right_ne_nil (fun region : Region => { region with stop := usizeMax })
      [region] found (some kind rfl)
    by_cases line : kind = .lineComment
    · simp only [leaveOpen, line, if_true]
    · simp only [leaveOpen, line, if_false]
      exact behind

theorem kind_lineComment (entered : State.Entered state) : state.kind = .lineComment ↔ state = .lineComment := by
  cases state <;> simp [State.kind]

/-- A region that reads is entered; one without an end is no line comment. -/
theorem reads_entered (reads : Reads lexer (lexeme :: rest)) :
    (∀ state bytes, lexeme = .region state bytes → state.Entered) ∧
      ∀ state bytes, lexeme = .unclosed state bytes → state.kind ≠ .lineComment ∧ rest = [] := by
  have whole := reads
  cases reads with
  | cons starts taken later =>
    have begins := munch_begins taken
    constructor
    · rintro state bytes rfl
      obtain ⟨width, arm⟩ := begins
      exact arm.entered.1
    · rintro state bytes rfl
      obtain ⟨width, arm⟩ := begins
      refine ⟨fun is => ?_, later.flat_eq_nil (reads_follows whole)⟩
      obtain rfl := (kind_lineComment arm.entered.1).mp is
      exact munch_line_comment_ends taken

theorem leaveOpen_regions (reads : Reads lexer lexemes) (index : Nat) :
    leaveOpen (endOf lexemes) ((eventsFrom index lexemes).filterMap opaqueOnly) = regionsFrom index lexemes := by
  induction lexemes generalizing index with
  | nil => rfl
  | cons lexeme rest ih =>
    obtain ⟨entered, unclosed⟩ := reads_entered reads
    have next := ih reads.tail (index + lexeme.bytes.length)
    by_cases more : rest = []
    · subst more
      cases lexeme with
      | region state bytes => cases state <;> rfl
      | unclosed state bytes =>
        obtain ⟨kind, -⟩ := unclosed state bytes rfl
        simp [endOf, leaveOpen, eventsFrom, opaqueOnly, regionsFrom, kind, List.modifyLast, List.modifyLast.go]
      | _ => rfl
    · rw [end_of_cons more]
      have some (kind : OpaqueKind) (ends : endOf rest = .openRegion kind) :=
        endOf_open ends (index + lexeme.bytes.length)
      cases lexeme with
      | region state bytes =>
        change leaveOpen _ (_ :: _) = _
        rw [leaveOpen_cons _ _ _ some]
        exact congrArg _ next
      | unclosed state bytes => exact absurd (unclosed state bytes rfl).2 more
      | _ => exact next

theorem regions_eq (reads : Reads lexer lexemes) : regions (spell lexemes) lexer = regionsFrom 0 lexemes := by
  rw [regions, walk_eq reads]
  exact leaveOpen_regions reads 0

theorem regionsFrom_append (index : Nat) (front rest : List Lexeme) :
    regionsFrom index (front ++ rest) = regionsFrom index front ++ regionsFrom (index + (spell front).length) rest := by
  induction front generalizing index with
  | nil => simp [regionsFrom]
  | cons lexeme front ih =>
    cases lexeme <;> simp [regionsFrom, ih, Nat.add_assoc]

theorem regionsFrom_bounds (long : ∀ lexeme ∈ lexemes, 0 < (Lexeme.bytes lexeme).length)
    (member : region ∈ regionsFrom index lexemes) :
    index ≤ region.start ∧ region.start < index + (spell lexemes).length := by
  induction lexemes generalizing index with
  | nil => cases member
  | cons lexeme rest ih =>
    have more := fun other listed => long other (List.mem_cons_of_mem _ listed)
    have long := long lexeme List.mem_cons_self
    have whole := spell_length lexeme rest
    have later (further : region ∈ regionsFrom (index + lexeme.bytes.length) rest) :
        index ≤ region.start ∧ region.start < index + (spell (lexeme :: rest)).length := by
      have bounds := ih more further
      omega
    cases lexeme with
    | region state bytes | unclosed state bytes =>
      rcases List.mem_cons.mp member with rfl | further
      · simp only
        omega
      · exact later further
    | _ => exact later member

/-- The last region that begins before a place a region reaches across is that region. -/
private theorem lastBefore_crossing (reads : Reads lexer (front ++ lexeme :: rest))
    (before : (spell front).length < n) (after : n < (spell front).length + lexeme.bytes.length)
    (is : regionsFrom (spell front).length (lexeme :: rest) =
      region :: regionsFrom ((spell front).length + lexeme.bytes.length) rest)
    (start : region.start = (spell front).length) :
    lastBefore (fun region => region.start < n) (regions (spell (front ++ lexeme :: rest)) lexer) = some region := by
  have long := reads_positive reads
  have low : ∀ region ∈ regionsFrom 0 front, (decide (region.start < n)) = true := by
    intro region member
    have bounds := regionsFrom_bounds (fun other listed => long other (List.mem_append_left _ listed)) member
    simp only [decide_eq_true_eq]
    omega
  have high : (regionsFrom ((spell front).length + lexeme.bytes.length) rest).takeWhile
      (fun region => decide (region.start < n)) = [] := by
    cases more : regionsFrom ((spell front).length + lexeme.bytes.length) rest with
    | nil => rfl
    | cons first later =>
      have behind : ∀ other ∈ rest, 0 < other.bytes.length :=
        fun other listed => long other (List.mem_append_right _ (List.mem_cons_of_mem _ listed))
      have bound := regionsFrom_bounds behind (more ▸ List.mem_cons_self)
      rw [List.takeWhile_cons, if_neg (by simp only [decide_eq_true_eq]; omega)]
  rw [lastBefore, regions_eq reads, regionsFrom_append, Nat.zero_add, is, List.takeWhile_append_of_pos low,
    List.takeWhile_cons, if_pos (by simp only [decide_eq_true_eq]; omega), high, List.getLast?_concat]

/-- A place that is not inside a region is reached across by a line comment, or by code. -/
theorem outside_crossing (reads : Reads lexer lexemes) (within : n ≤ (spell lexemes).length) (size : n < usizeMax)
    (outside : inside (regions (spell lexemes) lexer) n = false) (found : crossing n lexemes = some lexeme) :
    (∃ bytes, lexeme = .region .lineComment bytes) ∨
      (∀ state bytes, lexeme ≠ .region state bytes) ∧ ∀ state bytes, lexeme ≠ .unclosed state bytes := by
  rcases crossing_split reads within with ⟨_, _, _, _, none⟩ | ⟨front, reached, rest, rfl, before, after, is⟩
  · rw [none] at found
    cases found
  obtain rfl : reached = lexeme := Option.some.inj (is.symm.trans found)
  obtain ⟨entered, unclosed⟩ := reads_entered (reads_behind front reads)
  unfold inside at outside
  cases reached with
  | region state bytes =>
    have line := kind_lineComment (entered state bytes rfl)
    rw [lastBefore_crossing reads before after rfl rfl] at outside
    have kind : state.kind = .lineComment := by
      by_contra other
      simp [other, Lexeme.bytes] at outside
      simp only [Lexeme.bytes] at after
      omega
    rw [line.mp kind]
    exact .inl ⟨bytes, rfl⟩
  | unclosed state bytes =>
    have kind := (unclosed state bytes rfl).1
    rw [lastBefore_crossing reads before after rfl rfl] at outside
    simp [kind] at outside
    omega
  | _ => exact .inr ⟨by simp, by simp⟩

/-- Where a line ends or begins, a place that is not inside a region is quiet. -/
theorem quiet_at_break (reads : Reads lexer lexemes) (covers : spell lexemes = front ++ tail)
    (breaks : BreakEnd front ∨ BreakStart tail) (size : front.length < usizeMax)
    (outside : inside (regions (spell lexemes) lexer) front.length = false) : Quiet front.length lexemes := by
  intro lexeme found
  have within : front.length ≤ (spell lexemes).length := by
    rw [covers, List.length_append]
    omega
  rcases outside_crossing reads within size outside found with line | ⟨plain, closed⟩
  · exact line
  rcases crossing_split reads within with ⟨_, _, _, _, none⟩ | ⟨earlier, reached, rest, rfl, before, after, is⟩
  · rw [none] at found
    cases found
  obtain rfl : reached = lexeme := Option.some.inj (is.symm.trans found)
  -- The line end at the place would be a byte of the lexeme, and no other byte would be.
  obtain ⟨value, listed, ends⟩ : ∃ value, value ∈ reached.bytes ∧ isNewline value = true := by
    obtain ⟨taken, split⟩ : ∃ taken, taken + (spell earlier).length = front.length :=
      ⟨front.length - (spell earlier).length, by omega⟩
    have inner : taken ≤ reached.bytes.length := by omega
    have shown : spell earlier ++ reached.bytes.take taken ++ (reached.bytes.drop taken ++ spell rest) =
      front ++ tail := by
      have whole : spell (earlier ++ reached :: rest) = spell earlier ++ (reached.bytes ++ spell rest) := by simp
      rw [← covers, whole]
      conv_rhs => rw [← List.take_append_drop taken reached.bytes]
      simp only [List.append_assoc]
    obtain ⟨rfl, rfl⟩ := List.append_inj shown (by rw [List.length_append, List.length_take_of_le inner]; omega)
    rcases breaks with ends | starts
    · have some_ : reached.bytes.take taken ≠ [] :=
        List.ne_nil_of_length_pos (by rw [List.length_take_of_le inner]; omega)
      have last := List.getLast?_eq_some_getLast some_
      exact ⟨_, List.mem_of_mem_take (List.getLast_mem some_),
        ends _ (by rw [List.getLast?_append_of_ne_nil _ some_, last])⟩
    · have some_ : reached.bytes.drop taken ≠ [] := List.ne_nil_of_length_pos (by rw [List.length_drop]; omega)
      have head := List.head?_eq_some_head some_
      exact ⟨_, List.mem_of_mem_drop (List.head_mem some_),
        starts _ (by rw [List.head?_append_of_ne_nil _ some_, head])⟩
  have reading := reads_behind earlier reads
  cases reading with
  | cons starts taken _ =>
    have alone := blank_alone taken plain closed listed (space_of_newline ends)
    simp [alone, Lexeme.bytes] at after
    omega

theorem bodyRows_split (start : Nat) (some : bodyRows start rows ≠ []) :
    ∃ blanks row rest, rows = blanks ++ row :: rest ∧ (∀ blank ∈ blanks, blank.blank = true) ∧ row.blank = false := by
  induction rows generalizing start with
  | nil => exact absurd rfl some
  | cons row rest ih =>
    cases blank : row.blank with
    | false => exact ⟨[], row, rest, rfl, by simp, blank⟩
    | true =>
      rw [bodyRows, if_pos blank] at some
      obtain ⟨blanks, first, later, rfl, each, here⟩ := ih _ some
      exact ⟨row :: blanks, first, later, rfl, List.forall_mem_cons.mpr ⟨blank, each⟩, here⟩

theorem bodyRows_split_last (start : Nat) (some : bodyRows start rows ≠ []) :
    ∃ earlier row blanks, rows = earlier ++ row :: blanks ∧ (∀ blank ∈ blanks, blank.blank = true) ∧
      row.blank = false := by
  induction rows generalizing start with
  | nil => exact absurd rfl some
  | cons row rest ih =>
    by_cases more : bodyRows (start + row.bytes.length) rest = []
    · have each : ∀ blank ∈ rest, blank.blank = true := by
        intro other listed
        by_contra plain
        obtain ⟨begun, member⟩ := mem_bodyRows (start + row.bytes.length) listed (by simpa using plain)
        rw [more] at member
        cases member
      refine ⟨[], row, rest, rfl, each, ?_⟩
      by_contra blank
      rw [bodyRows, if_pos (by simpa using blank), more] at some
      exact some rfl
    · obtain ⟨earlier, last, blanks, rfl, each, here⟩ := ih _ more
      exact ⟨row :: earlier, last, blanks, rfl, each, here⟩

theorem marked_blanks {rows : List Row} (k : Nat) (each : ∀ blank ∈ rows, Row.blank blank = true) :
    rows.map (Row.marked k) = rows := by
  refine (List.map_congr_left fun row listed => ?_).trans (List.map_id rows)
  rw [Row.marked, if_pos (each row listed)]
  rfl

theorem linesOf_append (start : Nat) (rows others : List Row) :
    linesOf start (rows ++ others) = linesOf start rows ++ linesOf (start + (rowsText rows).length) others := by
  induction rows generalizing start with
  | nil => simp [linesOf]
  | cons row rest ih =>
    have next := ih (start + row.bytes.length)
    have long : (rowsText (row :: rest)).length = row.bytes.length + (rowsText rest).length := by
      simp [Row.bytes, Nat.add_assoc]
    rw [List.cons_append, linesOf, next, linesOf, long, List.cons_append, Nat.add_assoc]

theorem bodyRows_append (start : Nat) (rows others : List Row) :
    bodyRows start (rows ++ others) = bodyRows start rows ++ bodyRows (start + (rowsText rows).length) others := by
  induction rows generalizing start with
  | nil => simp [bodyRows]
  | cons row rest ih =>
    have next := ih (start + row.bytes.length)
    have long : (rowsText (row :: rest)).length = row.bytes.length + (rowsText rest).length := by
      simp [Row.bytes, Nat.add_assoc]
    rw [List.cons_append, bodyRows, next, bodyRows, long, Nat.add_assoc]
    split <;> rfl

theorem Laid.breakStart (laid : Laid (row :: rest) back) : BreakStart (row.ending ++ (rowsText rest ++ back)) := by
  cases laid with
  | last plain stops => simpa using stops
  | cons plain ends stops width laid =>
    intro byte head
    rw [List.head?_append_of_ne_nil _ ends] at head
    exact stops byte head

theorem comment_lexeme (reads : Reads lexer lexemes) (member : region ∈ regionsFrom index lexemes)
    (kind : region.kind = .lineComment) : ∃ front bytes rest, lexemes = front ++ .region .lineComment bytes :: rest ∧
      region.start = index + (spell front).length ∧ region.stop = region.start + bytes.length := by
  induction lexemes generalizing index with
  | nil => cases member
  | cons lexeme rest ih =>
    obtain ⟨entered, unclosed⟩ := reads_entered reads
    have later (further : region ∈ regionsFrom (index + lexeme.bytes.length) rest) :
        ∃ front bytes more, lexeme :: rest = front ++ .region .lineComment bytes :: more ∧
          region.start = index + (spell front).length ∧ region.stop = region.start + bytes.length := by
      obtain ⟨front, bytes, more, rfl, start, stop⟩ := ih reads.tail further
      exact ⟨lexeme :: front, bytes, more, rfl, by rw [start, spell_length, Nat.add_assoc], stop⟩
    cases lexeme with
    | region state bytes =>
      rcases List.mem_cons.mp member with rfl | further
      · obtain rfl := (kind_lineComment (entered state bytes rfl)).mp kind
        exact ⟨[], bytes, rest, rfl, rfl, rfl⟩
      · exact later further
    | unclosed state bytes =>
      rcases List.mem_cons.mp member with rfl | further
      · exact absurd kind (unclosed state bytes rfl).1
      · exact later further
    | _ => exact later member

/-- A word or a separator, the events a commented line must not have. -/
def isToken : Event → Bool
  | .opaqueRegion _ _ _ => false
  | _ => true

theorem token_lexeme (reads : Reads lexer lexemes) (member : event ∈ eventsFrom index lexemes)
    (token : isToken event = true) : ∃ front lexeme rest, lexemes = front ++ lexeme :: rest ∧
      event.start = index + (spell front).length ∧ event.stop = event.start + lexeme.bytes.length ∧
      (∀ byte ∈ lexeme.bytes, isIndent byte = false) ∧ ∀ state bytes, lexeme ≠ .region state bytes := by
  induction lexemes generalizing index with
  | nil => cases member
  | cons lexeme rest ih =>
    have later (further : event ∈ eventsFrom (index + lexeme.bytes.length) rest) :
        ∃ front inner more, lexeme :: rest = front ++ inner :: more ∧ event.start = index + (spell front).length ∧
          event.stop = event.start + inner.bytes.length ∧ (∀ byte ∈ inner.bytes, isIndent byte = false) ∧
            ∀ state bytes, inner ≠ .region state bytes := by
      obtain ⟨front, inner, more, rfl, start, others⟩ := ih reads.tail further
      exact ⟨lexeme :: front, inner, more, rfl, by rw [start, spell_length, Nat.add_assoc], others⟩
    cases lexeme with
    | code bytes => exact later member
    | region state bytes | unclosed state bytes =>
      rcases List.mem_cons.mp member with rfl | further
      · cases token
      · exact later further
    | separator =>
      rcases List.mem_cons.mp member with rfl | further
      · exact ⟨[], .separator, rest, rfl, rfl, rfl, by simp [Lexeme.bytes, isIndent], by simp⟩
      · exact later further
    | word bytes =>
      rcases List.mem_cons.mp member with rfl | further
      · refine ⟨[], .word bytes, rest, rfl, rfl, rfl, fun byte inside => ?_, by simp⟩
        cases reads with
        | cons starts taken _ =>
          by_contra indents
          have blank : isSpace byte = true := by
            simp only [isIndent] at indents
            simp only [isSpace, isAsciiWhitespace]
            grind
          cases blank_alone taken (by simp) (by simp) inside blank
      · exact later further

theorem row_sharp (plain : Row.Plain row) (some : row.blank = false) (tail : List UInt8) :
    ∃ value, (row.content ++ tail).head? = Option.some value ∧ isNewline value = false := by
  have more : row.content ≠ [] := by
    intro none
    simp [Row.blank, none] at some
  obtain ⟨value, content, is⟩ := List.exists_cons_of_ne_nil more
  exact ⟨value, by rw [is]; rfl, plain value (is ▸ List.mem_cons_self)⟩

theorem Laid.plain (laid : Laid rows back) : ∀ row ∈ rows, row.Plain := by
  induction laid with
  | last plain _ => simpa using plain
  | cons plain _ _ _ _ ih => exact List.forall_mem_cons.mpr ⟨plain, ih⟩

namespace Inserted

variable {text back front : List UInt8} {rows : List Row} {readings : List Lexer} {lexer : Lexer}
  {lexemes others : List Lexeme} (inserted : Inserted text readings first last edit front rows back k)
  (listed : lexer ∈ orGeneric readings)
  (reads' : Reads lexer others) (covers' : spell others = edit.applied text)
include inserted listed reads' covers'

theorem lines_empty (member : entry ∈ bodyRows front.length (rows.map (Row.marked k)))
    (found : event ∈ eventsFrom 0 others) (token : isToken event = true) :
    ¬(event.start < entry.1 + entry.2.content.length ∧ entry.1 < event.stop) := by
  rintro ⟨starts, stops⟩
  have opened := inserted.opens lexer listed _ member
  simp only [opensComment, Option.any_eq_true, Bool.and_eq_true, Bool.or_eq_true, decide_eq_true_eq] at opened
  obtain ⟨region, last, ⟨kind, begun⟩, stop⟩ := opened
  have listed_ := (List.takeWhile_prefix _).subset (List.mem_of_getLast? last)
  rw [← covers', regions_eq reads'] at listed_
  obtain ⟨late, bytes, rest, is, begins, ended⟩ := comment_lexeme reads' listed_ kind
  obtain ⟨early, reached, after, is', start, length, plain, other⟩ := token_lexeme reads' found token
  have comment : entry.1 + entry.2.content.length ≤ (spell late).length + bytes.length := by
    rcases stop with same | same
    · omega
    · split at same <;> omega
  rcases List.append_eq_append_iff.mp (is.symm.trans is') with ⟨more, rfl, tail⟩ | ⟨more, rfl, tail⟩
  · -- The token would stand behind the comment.
    rcases more with _ | ⟨first, more⟩
    · obtain ⟨rfl, -⟩ : Lexeme.region .lineComment bytes = reached ∧ rest = after := by simpa using tail
      exact absurd rfl (other _ _)
    · obtain ⟨rfl, -⟩ : Lexeme.region .lineComment bytes = first ∧
        rest = more ++ reached :: after := by simpa using tail
      have behind : (spell (late ++ .region .lineComment bytes :: more)).length =
          (spell late).length + bytes.length + (spell more).length := by
        simp [Lexeme.bytes, Nat.add_assoc]
      omega
  · -- It would stand before the marker, on the indentation.
    rcases more with _ | ⟨first, more⟩
    · obtain ⟨rfl, -⟩ : reached = Lexeme.region .lineComment bytes ∧ after = rest := by simpa using tail
      exact absurd rfl (other _ _)
    · obtain ⟨rfl, rfl⟩ : reached = first ∧ after = more ++ .region .lineComment bytes :: rest := by simpa using tail
      have behind : (spell (early ++ reached :: more)).length =
          (spell early).length + reached.bytes.length + (spell more).length := by
        simp [Nat.add_assoc]
      obtain ⟨some, _, before, later, begin_, shown⟩ := bodyRows_place back member
      have indent := (inserted.placed member).1
      have low : indentLength entry.2.content ≤ entry.2.content.length := (List.takeWhile_prefix _).length_le
      have long : 0 < reached.bytes.length := reads_positive reads' reached (is' ▸ by simp)
      -- The last byte of the token, as a byte of the text.
      have final : (edit.applied text)[event.stop - 1]? = reached.bytes[reached.bytes.length - 1]? := by
        have whole : edit.applied text = spell early ++
          (reached.bytes ++ spell (more ++ .region .lineComment bytes :: rest)) := by
          rw [← covers', is']
          simp
        rw [whole, List.getElem?_append_right (by omega), List.getElem?_append_left (by omega)]
        congr 1
        omega
      have indents : (edit.applied text)[event.stop - 1]? = entry.2.content[event.stop - 1 - entry.1]? := by
        rw [inserted.result, shown, List.getElem?_append_right (by omega), List.getElem?_append_left (by omega)]
        congr 1
        omega
      have split : entry.2.content.takeWhile isIndent ++ entry.2.content.dropWhile isIndent = entry.2.content :=
        List.takeWhile_append_dropWhile
      have room : event.stop - 1 - entry.1 < (entry.2.content.takeWhile isIndent).length := by
        change _ < indentLength entry.2.content
        omega
      rw [← split, List.getElem?_append_left room, List.getElem?_eq_getElem room] at indents
      rw [indents, List.getElem?_eq_getElem (by omega)] at final
      have blank := List.mem_takeWhile_imp (List.getElem_mem room)
      rw [Option.some.inj final, plain _ (List.getElem_mem _)] at blank
      cases blank

variable (size : text.length < usizeMax) (reads : Reads lexer lexemes) (covers : spell lexemes = text)
include size reads covers

theorem before_alike :
    (eventsFrom 0 others).filter (fun event => event.stop ≤ front.length) =
      (eventsFrom 0 lexemes).filter (fun event => event.stop ≤ front.length) := by
  obtain ⟨target, found, chosen⟩ := inserted.chosen
  obtain ⟨blanks, row, rest, rfl, each, some⟩ := bodyRows_split front.length inserted.body
  obtain ⟨-, before⟩ := chosen.laid.drop blanks.length (by simp)
  rw [List.take_left] at before
  -- The seam is where the first line that gets a marker begins.
  set seam := front ++ rowsText blanks with seam_
  have shown : text = seam ++ (rowsText (row :: rest) ++ back) := by
    rw [chosen.covers, rowsText_append, seam_]
    simp only [List.append_assoc]
  have shown' : edit.applied text = seam ++ (rowsText ((row :: rest).map (Row.marked k)) ++ back) := by
    rw [inserted.result, List.map_append, marked_blanks k each, rowsText_append, seam_]
    simp only [List.append_assoc]
  have ends : BreakEnd seam := by
    intro byte last
    rw [seam_, List.getLast?_append] at last
    cases is : (rowsText blanks).getLast? with
    | none => exact chosen.begins byte (by simpa [is] using last)
    | some final => exact before byte (by simpa [is] using last)
  have within : seam.length < usizeMax := by
    have long := congrArg List.length shown
    rw [List.length_append] at long
    omega
  have line (row : Row) (rows : List Row) :
    ∃ line ∈ linesOf front.length (blanks ++ row :: rows), line.start = seam.length := by
    rw [linesOf_append, linesOf]
    exact ⟨_, List.mem_append_right _ List.mem_cons_self, by rw [seam_, List.length_append]⟩
  have quiet : Quiet seam.length lexemes := by
    obtain ⟨here, member, start⟩ := line row rest
    refine quiet_at_break reads (covers.trans shown) (.inl ends) within ?_
    rw [covers, ← start]
    exact (inserted.outside lexer listed here member).1
  have quiet' : Quiet seam.length others := by
    obtain ⟨here, member, start⟩ := line (row.marked k) (rest.map (Row.marked k))
    refine quiet_at_break reads' (covers'.trans shown') (.inl ends) within ?_
    rw [covers', ← start]
    refine (inserted.free listed ?_).1
    rwa [List.map_append, marked_blanks k each]
  have sharp : ∃ value, (rowsText (row :: rest) ++ back).head? = Option.some value ∧ isNewline value = false := by
    rw [rowsText_cons, List.append_assoc]
    exact row_sharp (chosen.laid.plain row (by simp)) some _
  have sharp' : ∃ value, (rowsText ((row :: rest).map (Row.marked k)) ++ back).head? = Option.some value ∧
      isNewline value = false := by
    have laid := chosen.laid.similar (marked_similar k _)
    rw [List.map_cons, rowsText_cons, List.append_assoc]
    exact row_sharp (laid.plain _ (List.mem_map_of_mem (by simp))) (by rw [Row.marked_blank, some]) _
  have same := within_alike seam reads reads' (covers.trans shown) (covers'.trans shown') ends sharp sharp' quiet quiet'
  have narrow (lexemes : List Lexeme) (reads : Reads lexer lexemes) :
      (eventsFrom 0 lexemes).filter (fun event => event.stop ≤ front.length) =
        (eventsFrom 0 (lexemesWithin seam.length lexemes)).filter (fun event => event.stop ≤ front.length) := by
    have wide := events_within reads 0 seam.length
    rw [Nat.zero_add] at wide
    rw [← wide, List.filter_filter]
    refine List.filter_congr fun event _ => ?_
    have less : front.length ≤ seam.length := by simp [seam_]
    rw [Bool.eq_iff_iff, Bool.and_eq_true, decide_eq_true_eq, decide_eq_true_eq]
    omega
  rw [narrow _ reads', narrow _ reads, same]

/-- Behind the last marker the texts are the same lexemes, each where it stands. -/
theorem behind_same :
    ∃ early late rest, lexemes = early ++ rest ∧ others = late ++ rest ∧
      (spell late).length = (spell early).length + (bodyRows front.length rows).length * marker.length ∧
      (∀ event ∈ eventsFrom 0 early, event.start < front.length + (rowsText rows).length) ∧
      ∀ event ∈ eventsFrom 0 late, event.start <
        front.length + (rowsText rows).length + (bodyRows front.length rows).length * marker.length := by
  obtain ⟨target, found, chosen⟩ := inserted.chosen
  obtain ⟨earlier, row, blanks, rfl, each, some⟩ := bodyRows_split_last front.length inserted.body
  obtain ⟨laid, -⟩ := chosen.laid.drop earlier.length (by simp)
  rw [List.drop_left] at laid
  set behind := row.ending ++ (rowsText blanks ++ back) with behind_
  set place := front ++ (rowsText earlier ++ row.content) with place_
  set place' := front ++ (rowsText (earlier.map (Row.marked k)) ++ (row.marked k).content) with place'_
  have ending : (row.marked k).ending = row.ending := by
    unfold Row.marked
    split <;> rfl
  have shown : text = place ++ behind := by
    rw [chosen.covers, place_, behind_, rowsText_append, rowsText_cons]
    simp only [List.append_assoc]
  have shown' : edit.applied text = place' ++ behind := by
    rw [inserted.result, place'_, behind_, List.map_append, List.map_cons, marked_blanks k each, rowsText_append,
      rowsText_cons, ending]
    simp only [List.append_assoc]
  have starts : BreakStart behind := laid.breakStart
  have whole := chosen.covers
  have whole' := inserted.result
  have longer := marked_length k front.length (earlier ++ row :: blanks)
  set shift := (bodyRows front.length (earlier ++ row :: blanks)).length * marker.length with shift_
  have moved : place'.length = place.length + shift := by
    have long := congrArg List.length (whole.symm.trans shown)
    have long' := congrArg List.length (whole'.symm.trans shown')
    simp only [List.length_append] at long long'
    omega
  have within : place.length ≤ front.length + (rowsText (earlier ++ row :: blanks)).length := by
    rw [place_, rowsText_append, rowsText_cons]
    simp only [List.length_append]
    omega
  have short : place.length < usizeMax := by
    have long := congrArg List.length shown
    rw [List.length_append] at long
    omega
  have quiet : Quiet place.length lexemes := by
    have member : (⟨front.length + (rowsText earlier).length,
      front.length + (rowsText earlier).length + row.content.length,
        front.length + (rowsText earlier).length + indentLength row.content⟩ : Line) ∈
          linesOf front.length (earlier ++ row :: blanks) := by
      rw [linesOf_append, linesOf]
      exact List.mem_append_right _ List.mem_cons_self
    refine quiet_at_break reads (covers.trans shown) (.inr starts) short ?_
    have outside := (inserted.outside lexer listed _ member).2
    rw [covers, place_, List.length_append, List.length_append, ← Nat.add_assoc]
    exact outside
  -- The marker of the last line opens a comment that ends with the line.
  obtain ⟨late, bytes, rest, rfl, before, stop⟩ :
    ∃ late bytes rest, others = late ++ .region .lineComment bytes :: rest ∧
      (spell late).length < place'.length ∧ ((spell late).length + bytes.length = place'.length ∨
        (spell late).length + bytes.length = place'.length + 1 ∧
        ∃ more, behind = carriageReturn :: newline :: more) := by
    have member : (front.length + (rowsText (earlier.map (Row.marked k))).length, row.marked k) ∈
        bodyRows front.length ((earlier ++ row :: blanks).map (Row.marked k)) := by
      rw [List.map_append, bodyRows_append, List.map_cons, bodyRows, Row.marked_blank, some]
      exact List.mem_append_right _ List.mem_cons_self
    have opened := inserted.opens lexer listed _ member
    have stops : front.length + (rowsText (earlier.map (Row.marked k))).length + (row.marked k).content.length =
      place'.length := by
      rw [place'_, List.length_append, List.length_append, Nat.add_assoc]
    have inside_ : front.length + (rowsText (earlier.map (Row.marked k))).length + k < place'.length := by
      obtain ⟨_, _, _, _, _, is, plain, content⟩ := mem_bodyRows_marked member
      have room := inserted.room row (by simp) some
      have long : (row.marked k).content.length = row.content.length + marker.length := by
        simp only [Row.marked, some, Bool.false_eq_true, if_false, List.length_append, List.length_take,
          List.length_drop]
        omega
      rw [← stops, long]
      simp only [marker, List.length_cons, List.length_nil]
      omega
    simp only [stops, opensComment, Option.any_eq_true, Bool.and_eq_true, Bool.or_eq_true, decide_eq_true_eq] at opened
    obtain ⟨region, found, ⟨kind, start⟩, stop⟩ := opened
    have member := (List.takeWhile_prefix _).subset (List.mem_of_getLast? found)
    rw [← covers', regions_eq reads'] at member
    obtain ⟨late, bytes, rest, is, begun, ended⟩ := comment_lexeme reads' member kind
    refine ⟨late, bytes, rest, is, by omega, ?_⟩
    rcases stop with same | same
    · exact .inl (by omega)
    · split at same
      · rename_i crlf
        rw [shown', List.drop_left, List.isPrefixOf_iff_prefix] at crlf
        obtain ⟨more, is⟩ := crlf
        exact .inr ⟨by omega, more, is.symm⟩
      · exact .inl (by omega)
  have lateLong := reads_positive reads'
  have lateStart (event : Event) (member : event ∈ eventsFrom 0 (late ++ [.region .lineComment bytes])) :
      event.start < place'.length := by
    rw [events_append, List.mem_append] at member
    rcases member with inner | comment
    · have bounds := event_bounds (fun lexeme inside => lateLong lexeme (List.mem_append_left _ inside)) inner
      omega
    · obtain rfl : event = .opaqueRegion .lineComment (0 + (spell late).length)
        (0 + (spell late).length + bytes.length) := by
        simpa [eventsFrom, State.kind, Lexeme.bytes] using comment
      simp only [Event.start]
      omega
  have lateLength : (spell (late ++ [.region .lineComment bytes])).length = (spell late).length + bytes.length :=
    spell_concat_length _ _
  have joined : late ++ .region .lineComment bytes :: rest = late ++ [.region .lineComment bytes] ++ rest := by simp
  have restReads : Reads lexer rest := (reads_behind late reads').tail
  have lateCovers : spell (late ++ [.region .lineComment bytes]) ++ spell rest = place' ++ behind := by
    rw [← shown', ← covers', joined]
    exact (flat_append ..).symm
  have finish (early rest' : List Lexeme) (is : lexemes = early ++ rest') (same : spell rest' = spell rest)
      (long : (spell early).length + shift = (spell (late ++ [.region .lineComment bytes])).length)
      (low : ∀ event ∈ eventsFrom 0 early, event.start < place.length) :
      ∃ early late_ rest_, lexemes = early ++ rest_ ∧ late ++ .region .lineComment bytes :: rest = late_ ++ rest_ ∧
        (spell late_).length = (spell early).length + shift ∧
        (∀ event ∈ eventsFrom 0 early, event.start < front.length + (rowsText (earlier ++ row :: blanks)).length) ∧
        ∀ event ∈ eventsFrom 0 late_,
          event.start < front.length + (rowsText (earlier ++ row :: blanks)).length + shift := by
    have agree : rest' = rest := Reading.unique (reads_behind early (is ▸ reads)) restReads same
    refine ⟨early, late ++ [.region .lineComment bytes], rest, agree ▸ is, joined, long.symm, ?_, ?_⟩
    · exact fun event member => Nat.lt_of_lt_of_le (low event member) within
    · intro event member
      have bound := lateStart event member
      omega
  have long := reads_positive reads
  have past {more : List UInt8} (same : (spell late).length + bytes.length = place'.length + 1)
      (crlf : behind = carriageReturn :: newline :: more) : spell rest = newline :: more := by
    have split : place' ++ behind = (place' ++ [carriageReturn]) ++ newline :: more := by simp [crlf]
    exact (List.append_inj (lateCovers.trans split) (by rw [lateLength, same]; simp)).2
  have total : (spell lexemes).length = place.length + behind.length := by
    rw [covers, shown]
    exact List.length_append
  rcases crossing_split reads (n := place.length) (by omega) with
    ⟨early, rest0, rfl, place_, -⟩ | ⟨early, reached, rest0, rfl, starts_, ends_, is⟩
  · have rest0_ : spell rest0 = behind := by
      have split : spell early ++ spell rest0 = place ++ behind := by
        rw [← shown, ← covers]
        exact (flat_append ..).symm
      exact (List.append_inj split place_).2
    have low (event : Event) (member : event ∈ eventsFrom 0 early) : event.start < place.length := by
      have bounds := event_bounds (fun lexeme inside => long lexeme (List.mem_append_left _ inside)) member
      omega
    rcases stop with same | ⟨same, more, crlf⟩
    · refine finish early rest0 rfl ?_ (by omega) low
      rw [rest0_]
      exact (List.append_inj lateCovers (by omega)).2.symm
    · -- The comment took the `\r`, which is code in the old text.
      obtain ⟨rest1, rfl, rest1_⟩ := reads_break (reads_behind early reads) (rest0_.trans crlf) (by decide)
      refine finish (early ++ [.code [carriageReturn]]) rest1 (by simp) ?_ ?_ ?_
      · rw [rest1_, past same crlf]
      · rw [lateLength, spell_concat_length]
        simp only [Lexeme.bytes, List.length_singleton]
        omega
      · intro event member
        rw [events_append] at member
        exact low event (by simpa [eventsFrom] using member)
  · -- A comment that runs past the end of the line runs past a lone `\r`.
    obtain ⟨comment, rfl⟩ := quiet reached is
    have inner := line_comment_plain (reads_behind early reads)
    simp only [Lexeme.bytes] at ends_
    obtain ⟨taken, split⟩ : ∃ taken, (spell early).length + taken = place.length :=
      ⟨place.length - (spell early).length, by omega⟩
    have fits : taken ≤ comment.length := by omega
    have shown_ : (spell early ++ comment.take taken) ++ (comment.drop taken ++ spell rest0) = place ++ behind := by
      rw [← shown, ← covers]
      have whole : spell (early ++ .region .lineComment comment :: rest0) =
        spell early ++ (comment ++ spell rest0) := by
        simp [Lexeme.bytes]
      rw [whole]
      conv_rhs => rw [← List.take_append_drop taken comment]
      simp only [List.append_assoc]
    have over_ := (List.append_inj shown_ (by rw [List.length_append, List.length_take_of_le fits, split])).2
    obtain ⟨value, overrun, is_⟩ : ∃ value overrun, comment.drop taken = value :: overrun :=
      List.exists_cons_of_ne_nil (List.ne_nil_of_length_pos (by rw [List.length_drop]; omega))
    have plain (byte : UInt8) (inside : byte ∈ value :: overrun) : endsLine lexer byte = false :=
      inner byte (List.mem_of_mem_drop (is_ ▸ inside))
    rw [is_] at over_
    rcases stop with same | ⟨same, more, crlf⟩
    · -- The new comment would be ended by a byte that ends no line.
      have follows := reads_follows (reads_behind late reads')
      have rest_ : spell rest = behind := (List.append_inj lateCovers (by omega)).2
      have ending := follows value (by rw [rest_, ← over_]; rfl)
      rw [plain value List.mem_cons_self] at ending
      cases ending
    · rw [crlf, List.cons_append, List.cons.injEq] at over_
      obtain ⟨rfl, over_⟩ := over_
      obtain rfl : overrun = [] := by
        rcases overrun with _ | ⟨next, overrun⟩
        · rfl
        · rw [List.cons_append, List.cons.injEq] at over_
          have ending := plain next (by simp)
          rw [over_.1] at ending
          simp [endsLine] at ending
      have one : comment.length = taken + 1 := by
        have long := congrArg List.length is_
        rw [List.length_drop, List.length_singleton] at long
        omega
      refine finish (early ++ [.region .lineComment comment]) rest0 (by simp) ?_ ?_ ?_
      · rw [past same crlf]
        exact over_
      · rw [lateLength, spell_concat_length]
        simp only [Lexeme.bytes]
        omega
      · intro event member
        rw [events_append, List.mem_append] at member
        rcases member with before | comment_
        · have bounds := event_bounds (fun lexeme inside => long lexeme (List.mem_append_left _ inside)) before
          omega
        · obtain rfl : event =
              .opaqueRegion .lineComment (0 + (spell early).length) (0 + (spell early).length + comment.length) := by
            simpa [eventsFrom, State.kind, Lexeme.bytes] using comment_
          simp only [Event.start]
          omega

end Inserted

/-- Where the first of the lines starts, and where the last stops. -/
def chosenStart (target : List Line) : Nat := (target.head?.map Line.start).getD 0
def chosenStop (target : List Line) : Nat := (target.getLast?.map Line.stop).getD 0

/-- Commenting changes nothing outside the chosen lines: under every reading what the walk reports
before them is the same, what it reports behind them is the same moved by the markers, and on a
line that is not blank it reports no word and no separator. -/
theorem commenting_frame (text : List UInt8) (readings : List Lexer) (firstLine lastLine : Nat)
    (size : text.length < usizeMax) (inserts : inserting text readings firstLine lastLine = true)
    (toggled : toggleLineComment text readings firstLine lastLine = .ok edit) (listed : lexer ∈ orGeneric readings) :
    ∃ target commented, lines text firstLine lastLine = some target ∧
      lines (edit.applied text) firstLine lastLine = some commented ∧
      (walk lexer (edit.applied text)).1.filter (fun event => event.stop ≤ chosenStart target) =
        (walk lexer text).1.filter (fun event => event.stop ≤ chosenStart target) ∧
      (walk lexer (edit.applied text)).1.filter
          (fun event => chosenStop target + (bodyOf text target).length * marker.length ≤ event.start) =
        ((walk lexer text).1.filter (fun event => chosenStop target ≤ event.start)).map
          (Event.moved ((bodyOf text target).length * marker.length)) ∧
      ∀ line ∈ bodyOf (edit.applied text) commented, ∀ event ∈ (walk lexer (edit.applied text)).1,
        isToken event = true → ¬(event.start < line.stop ∧ line.start < event.stop) := by
  obtain ⟨front, rows, back, k, inserted⟩ := toggle_inserted inserts toggled
  obtain ⟨target, found, chosen⟩ := inserted.chosen
  obtain ⟨lexemes, covers, reads⟩ := exists_lexemes lexer text
  obtain ⟨others, covers', reads'⟩ := exists_lexemes lexer (edit.applied text)
  have walked : (walk lexer text).1 = eventsFrom 0 lexemes := by rw [← covers, walk_eq reads]
  have walked' : (walk lexer (edit.applied text)).1 = eventsFrom 0 others := by rw [← covers', walk_eq reads']
  have start : chosenStart target = front.length := by
    rw [chosen.offsets]
    exact linesOf_head _ chosen.nonempty
  have stop : chosenStop target = front.length + (rowsText rows).length := by
    rw [chosen.offsets]
    exact chosen.laid.linesOf_last _
  have body : (bodyOf text target).length = (bodyRows front.length rows).length := by
    rw [chosen.covers, chosen.offsets, bodyOf_rows, List.length_map]
  refine ⟨target, linesOf front.length (rows.map (Row.marked k)), found, ?_, ?_, ?_, ?_⟩
  · rw [inserted.result]
    exact chosen.again _ (marked_similar k rows)
  · rw [walked, walked', start]
    exact inserted.before_alike listed reads' covers' size reads covers
  · obtain ⟨early, late, rest, rfl, rfl, long, low, high⟩ :=
      inserted.behind_same listed reads' covers' size reads covers
    rw [walked, walked', stop, body, events_append, events_append, List.filter_append, List.filter_append]
    have none : (eventsFrom 0 early).filter (fun event => front.length + (rowsText rows).length ≤ event.start) = [] :=
      List.filter_eq_nil_iff.mpr fun event member => by
        have bound := low event member
        simp only [decide_eq_true_eq]
        omega
    have none' : (eventsFrom 0 late).filter (fun event => front.length + (rowsText rows).length +
        (bodyRows front.length rows).length * marker.length ≤ event.start) = [] :=
      List.filter_eq_nil_iff.mpr fun event member => by
        have bound := high event member
        simp only [decide_eq_true_eq]
        omega
    rw [none, none', List.nil_append, List.nil_append, long, ← Nat.add_assoc, events_moved, List.filter_map]
    congr 1
    refine List.filter_congr fun event _ => ?_
    simp
  · rintro line member event happened token
    rw [inserted.result, bodyOf_rows] at member
    obtain ⟨entry, place, rfl⟩ := List.mem_map.mp member
    rw [walked'] at happened
    exact inserted.lines_empty listed reads' covers' place happened token

/-- A line between two statements, under a reading of MySQL. -/
theorem commenting_frame_between :
    ∃ target commented, lines (ofAscii "a;\n b;\nc") 2 2 = some target ∧
      lines (ofAscii "a;\n -- b;\nc") 2 2 = some commented ∧
      (walk (.mysql true false true) (ofAscii "a;\n -- b;\nc")).1.filter
      (fun event => event.stop ≤ chosenStart target) =
        (walk (.mysql true false true) (ofAscii "a;\n b;\nc")).1.filter
        (fun event => event.stop ≤ chosenStart target) := by
  have toggled : toggleLineComment (ofAscii "a;\n b;\nc") (Dialect.readings .mysql) 2 2 =
    .ok ⟨4, 4, marker⟩ := by decide +kernel
  have listed : Lexer.mysql true false true ∈ orGeneric (Dialect.readings .mysql) := by decide
  obtain ⟨target, commented, found, found', before, _⟩ :=
    commenting_frame _ _ 2 2 (by decide) (by decide) toggled listed
  exact ⟨target, commented, found, found', before⟩

end QueryHive.Sql.Comment
