import QueryHive.Sql.Trivia
import QueryHive.Sql.Classify

/-! What the stored-program tracker may swallow. Whatever the splitter takes as the body of
a program begins, past blanks and comments, with the word that opened it; the classifier
reads that same word from the trimmed piece or gives up before it. So a swallowed script is
refused by every mode that refuses anything. -/
namespace QueryHive.Sql
open Byte Library.Munch

/-- A lexeme the splitter's visitor is not told of, or takes as part of a gap. -/
def Lexeme.Quiet : Lexeme → Prop
  | .code _ => True
  | .region state _ | .unclosed state _ => state.kind = .lineComment ∨ state.kind = .blockComment
  | _ => False

/-- The words `start` opens anything on. -/
def isOpening (word : List UInt8) : Bool := isAnyKeyword word ["CREATE", "ALTER", "BEGIN"]

/-- A statement whose first token is an opening word. -/
def Opens (group : List Lexeme) : Prop :=
  ∃ front word rest, group = front ++ .word word :: rest ∧ (∀ lexeme ∈ front, lexeme.Quiet) ∧
    isOpening word = true

def Swallows (group : List Lexeme) : Prop := .separator ∈ group → Opens group

theorem Opens.append (opens : Opens group) (more : List Lexeme) : Opens (group ++ more) := by
  obtain ⟨front, word, rest, rfl, quiet, opening⟩ := opens
  exact ⟨front, word, rest ++ more, by simp, quiet, opening⟩

def Standing (current : List Lexeme) : Top → Prop
  | .start => ∀ lexeme ∈ current, lexeme.Quiet
  | .plain => Swallows current
  | .begin _ | .head _ | .body _ => Opens current

theorem Standing.swallows (standing : Standing current top) : Swallows current := by
  cases top with
  | start => exact fun held => (standing _ held).elim
  | plain => exact standing
  | begin | head | body => exact fun _ => standing

theorem Standing.quiet (standing : Standing current top) (quiet : Lexeme.Quiet lexeme) :
    Standing (current ++ [lexeme]) top := by
  cases top with
  | start =>
    intro other held
    rcases List.mem_append.mp held with before | here
    · exact standing other before
    · exact List.mem_singleton.mp here ▸ quiet
  | plain =>
    intro held
    have before : Lexeme.separator ∈ current := by
      rcases List.mem_append.mp held with before | here
      · exact before
      · exact (List.mem_singleton.mp here ▸ quiet : Lexeme.separator.Quiet).elim
    exact (standing before).append _
  | begin | head | body => exact Opens.append standing _

theorem gap_standing (splitter : Splitter) (text : List UInt8) (upto : Nat) :
    (splitter.gap text upto).separators = splitter.separators ∧
      ∀ current, Standing current splitter.top → Standing current (splitter.gap text upto).top := by
  have byte (splitter : Splitter) (segment : List UInt8) :
      (segment.foldl Splitter.gapByte splitter).separators = splitter.separators ∧
        (segment.foldl Splitter.gapByte splitter).top = splitter.top := by
    induction segment generalizing splitter with
    | nil => exact ⟨rfl, rfl⟩
    | cons byte rest ih =>
      obtain ⟨separators, top⟩ := ih (splitter.gapByte byte)
      rw [List.foldl_cons, separators, top]
      unfold Splitter.gapByte
      split_ifs <;> exact ⟨rfl, rfl⟩
  unfold Splitter.gap
  split
  · exact ⟨rfl, fun _ standing => standing⟩
  · exact ⟨rfl, fun _ standing => standing⟩
  · exact ⟨rfl, fun _ standing => standing⟩
  · next is =>
    obtain ⟨separators, top⟩ := byte splitter ((text.take upto).drop splitter.pos)
    exact ⟨separators, fun _ standing => top ▸ standing⟩
  · next is =>
    obtain ⟨separators, -⟩ := byte splitter ((text.take upto).drop splitter.pos)
    refine ⟨separators, fun _ standing => ?_⟩
    rw [is] at standing
    exact standing

/-- A token moves the tracker on; it leaves the start only for `plain`, or on an opening word. -/
theorem event_standing (splitter : Splitter) (text : List UInt8) (event : Ev)
    (standing : Standing current splitter.top)
    (token : (∃ word, lexeme = .word word ∧ event = .word word) ∨
      lexeme ≠ .separator ∧ ∃ kind, event = .quoted kind) :
    Standing (current ++ [lexeme]) (splitter.event text event).top := by
  have plain : lexeme ≠ .separator := by
    rcases token with ⟨word, rfl, -⟩ | ⟨plain, -⟩
    · simp
    · exact plain
  have opened (opens : Opens current) (top : Top) (left : top ≠ .start) :
      Standing (current ++ [lexeme]) top := by
    cases top with
    | start => exact absurd rfl left
    | plain => exact fun _ => opens.append _
    | begin | head | body => exact opens.append _
  have leaves (stayed : Top) (step : Step) (left : stayed ≠ .start) :
      Splitter.stepTop stayed step ≠ .start := by
    cases step <;> simp [Splitter.stepTop, left]
  unfold Splitter.event
  cases top : splitter.top with
  | plain =>
    rw [top] at standing
    intro held
    have before : Lexeme.separator ∈ current := by
      simpa [plain.symm] using held
    exact (standing before).append _
  | begin notSeen =>
    rw [top] at standing
    exact opened standing _ (leaves _ _ (by simp))
  | head head =>
    rw [top] at standing
    exact opened standing _ (leaves _ _ (by simp))
  | body body =>
    rw [top] at standing
    refine opened standing _ ?_
    dsimp only
    split <;> simp
  | start =>
    rw [top] at standing
    have still : Swallows (current ++ [lexeme]) := by
      intro held
      rcases List.mem_append.mp held with before | here
      · exact (standing _ before).elim
      · exact absurd (List.mem_singleton.mp here).symm plain
    rcases token with ⟨word, rfl, rfl⟩ | ⟨-, kind, rfl⟩
    · have opens (opening : isOpening word = true) : Opens (current ++ [.word word]) :=
        ⟨current, word, [], rfl, standing, opening⟩
      simp only [Splitter.start]
      split
      · next is => exact opens (by simp [isOpening, isAnyKeyword, is])
      split
      · next is => exact opens (by simp [isOpening, isAnyKeyword, is])
      split
      · next is => exact opens (by simp [isOpening, isAnyKeyword, is])
      · exact still
    · exact still

/-- The statements so far, each with its separator, and the current one. -/
def joined (groups : List (List Lexeme)) (current : List Lexeme) : List Lexeme :=
  groups.flatMap (· ++ [.separator]) ++ current

/-- Where statements that begin at `index` end. -/
def groupEnds (index : Nat) : List (List Lexeme) → List Nat
  | [] => []
  | group :: groups =>
    (index + (spell group).length) :: groupEnds (index + (spell group).length + 1) groups

theorem joined_cons (group : List Lexeme) (groups : List (List Lexeme)) (last : List Lexeme) :
    joined (group :: groups) last = group ++ .separator :: joined groups last := by
  simp [joined]

theorem spell_joined_cons (group : List Lexeme) (groups : List (List Lexeme)) (last : List Lexeme) :
    (spell (joined (group :: groups) last)).length =
      (spell group).length + 1 + (spell (joined groups last)).length := by
  simp [spell, joined_cons, Lexeme.bytes]
  omega

theorem group_ends_append (index : Nat) (groups : List (List Lexeme)) (current : List Lexeme) :
    groupEnds index (groups ++ [current]) =
      groupEnds index groups ++ [index + (spell (joined groups current)).length] := by
  induction groups generalizing index with
  | nil => simp [groupEnds, joined]
  | cons group groups ih =>
    simp only [List.cons_append, groupEnds, ih, spell_joined_cons, Nat.add_assoc]

/-- The tracker after the statements so far and a part of the next. -/
structure Tracked (groups : List (List Lexeme)) (current : List Lexeme) (splitter : Splitter) :
    Prop where
  separators : splitter.separators = groupEnds 0 groups
  standing : Standing current splitter.top
  swallows : ∀ group ∈ groups, Swallows group

theorem visit_separator (tracked : Tracked groups current splitter) (text : List UInt8) :
    ∃ groups' current', joined groups' current' = joined groups current ++ [.separator] ∧
      Tracked groups' current'
        (splitter.visit text (.separator (spell (joined groups current)).length)) := by
  obtain ⟨separators, standing⟩ :=
    gap_standing splitter text (spell (joined groups current)).length
  have here := standing current tracked.standing
  have ended : Tracked (groups ++ [current]) [] (Splitter.reset
      { splitter.gap text (spell (joined groups current)).length with
        pos := (spell (joined groups current)).length + 1
        separators := (splitter.gap text (spell (joined groups current)).length).separators ++
          [(spell (joined groups current)).length] }) := by
    refine ⟨?_, ?_, ?_⟩
    · simp [Splitter.reset, separators, tracked.separators, group_ends_append]
    · simp [Splitter.reset, Standing]
    · intro group member
      rcases List.mem_append.mp member with before | last
      · exact tracked.swallows group before
      · exact List.mem_singleton.mp last ▸ here.swallows
  have closed : joined (groups ++ [current]) [] = joined groups current ++ [.separator] := by
    simp [joined]
  simp only [Splitter.visit]
  split
  · next body is =>
    split
    · refine ⟨groups, current ++ [.separator], by simp [joined], ?_, ?_, tracked.swallows⟩
      · exact separators.trans tracked.separators
      · replace is : (splitter.gap text (spell (joined groups current)).length).top = .body body := is
        rw [is] at here
        exact Opens.append here _
    · exact ⟨groups ++ [current], [], closed, ended⟩
  · exact ⟨groups ++ [current], [], closed, ended⟩

theorem visit_lexeme (tracked : Tracked groups current splitter)
    (covers : text = spell (joined groups current ++ lexeme :: rest)) :
    ∃ groups' current', joined groups' current' = joined groups current ++ [lexeme] ∧
      Tracked groups' current' ((eventsFrom (spell (joined groups current)).length [lexeme]).foldl
        (Splitter.visit text) splitter) := by
  have stays (splitter' : Splitter) (separators : splitter'.separators = splitter.separators)
      (standing : Standing (current ++ [lexeme]) splitter'.top) :
      ∃ groups' current', joined groups' current' = joined groups current ++ [lexeme] ∧
        Tracked groups' current' splitter' :=
    ⟨groups, current ++ [lexeme], by simp [joined],
      separators.trans tracked.separators, standing, tracked.swallows⟩
  have gapped (upto : Nat) := gap_standing splitter text upto
  -- A region is a comment, part of a gap, or a quoted token.
  have region (kind : OpaqueKind) (start stop : Nat) (plain : lexeme ≠ .separator)
      (quiet : kind = .lineComment ∨ kind = .blockComment → lexeme.Quiet) :
      ∃ groups' current', joined groups' current' = joined groups current ++ [lexeme] ∧
        Tracked groups' current' (splitter.visit text (.opaqueRegion kind start stop)) := by
    obtain ⟨separators, standing⟩ := gapped start
    simp only [Splitter.visit]
    split
    · next comment => exact stays _ separators ((standing _ tracked.standing).quiet (quiet comment))
    · exact stays _ separators
        (event_standing _ _ _ (standing _ tracked.standing) (.inr ⟨plain, kind, rfl⟩))
  cases lexeme with
  | code bytes => exact stays _ rfl (tracked.standing.quiet trivial)
  | separator => exact visit_separator tracked text
  | region state bytes => exact region state.kind _ _ (by simp) id
  | unclosed state bytes => exact region state.kind _ _ (by simp) id
  | word run =>
    obtain ⟨separators, standing⟩ := gapped (spell (joined groups current)).length
    have slice : (text.take ((spell (joined groups current)).length + run.length)).drop
        (spell (joined groups current)).length = run := by
      simp [covers, Lexeme.bytes, List.take_append, List.take_of_length_le]
    simp only [eventsFrom, Lexeme.bytes, List.foldl_cons, List.foldl_nil, Splitter.visit, slice]
    exact stays _ separators
      (event_standing _ _ _ (standing _ tracked.standing) (.inl ⟨run, rfl, rfl⟩))

theorem events_from_cons (index : Nat) (lexeme : Lexeme) (rest : List Lexeme) :
    eventsFrom index (lexeme :: rest) =
      eventsFrom index [lexeme] ++ eventsFrom (index + lexeme.bytes.length) rest := by
  cases lexeme <;> simp [eventsFrom]

theorem visit_lexemes (rest : List Lexeme) (tracked : Tracked groups current splitter)
    (covers : text = spell (joined groups current ++ rest)) :
    ∃ groups' current', joined groups' current' = joined groups current ++ rest ∧
      Tracked groups' current' ((eventsFrom (spell (joined groups current)).length rest).foldl
        (Splitter.visit text) splitter) := by
  induction rest generalizing groups current splitter with
  | nil => exact ⟨groups, current, by simp, tracked⟩
  | cons lexeme rest ih =>
    obtain ⟨groups', current', joins, tracked'⟩ := visit_lexeme tracked covers
    have stop : (spell (joined groups' current')).length =
        (spell (joined groups current)).length + lexeme.bytes.length := by simp [joins]
    obtain ⟨groups'', current'', joins', tracked''⟩ := ih tracked' (by simpa [joins] using covers)
    refine ⟨groups'', current'', by simp [joins', joins], ?_⟩
    rwa [events_from_cons, List.foldl_append, ← stop]

/-- The statements of a script: where they end, and that each one that holds a separator
has been opened. -/
theorem separators_groups (mysql : lexer.isMysql = true) (reads : Reads lexer lexemes) :
    ∃ groups last, joined groups last = lexemes ∧
      separators lexer (spell lexemes) = groupEnds 0 groups ∧
      ∀ group ∈ groups ++ [last], Swallows group := by
  have start : Tracked [] [] Splitter.initial := ⟨rfl, by simp [Standing, Splitter.initial], by simp⟩
  obtain ⟨groups, last, joins, tracked⟩ := visit_lexemes lexemes start rfl
  refine ⟨groups, last, joins, ?_, ?_⟩
  · rw [separators, if_pos mysql, walk_eq reads]
    exact tracked.separators
  · intro group member
    rcases List.mem_append.mp member with before | here
    · exact tracked.swallows group before
    · exact List.mem_singleton.mp here ▸ tracked.standing.swallows

/-- The slices `statements_with_lines_dialect` pushes: between separators, from `start`. -/
def piecesFrom (start : Nat) (separators : List Nat) (length : Nat) : List (Nat × Nat) :=
  match separators with
  | [] => [(start, length)]
  | separator :: rest => (start, separator) :: piecesFrom (separator + 1) rest length

/-- The statement a piece gives. -/
def Trimmed (text : List UInt8) (start stop : Nat) (statement : ScriptStatement) : Prop :=
  statement.start = start + trimmedStart ((text.take stop).drop start) ∧
    statement.text = trim ((text.take stop).drop start)

theorem push_with_line_cases (lexer : Lexer) (text : List UInt8)
    (found : List ScriptStatement × LineCounter) (start stop : Nat)
    (member : statement ∈ (pushWithLine lexer text found start stop).1) :
    statement ∈ found.1 ∨ Trimmed text start stop statement := by
  unfold pushWithLine at member
  dsimp only at member
  split at member
  · exact .inl member
  · rcases List.mem_append.mp member with before | pushed
    · exact .inl before
    · exact .inr (List.mem_singleton.mp pushed ▸ ⟨rfl, rfl⟩)

theorem statement_piece (member : statement ∈ statementsWithLines lexer text) :
    ∃ piece ∈ piecesFrom 0 (separators lexer text) text.length,
      Trimmed text piece.1 piece.2 statement := by
  have walked (separators : List Nat) (start : Nat) (found : List ScriptStatement × LineCounter)
      (member : statement ∈ (let walked := separators.foldl (fun walked separator =>
          (pushWithLine lexer text walked.1 walked.2 separator, separator + 1)) (found, start)
        (pushWithLine lexer text walked.1 walked.2 text.length).1)) :
      statement ∈ found.1 ∨ ∃ piece ∈ piecesFrom start separators text.length,
        Trimmed text piece.1 piece.2 statement := by
    induction separators generalizing start found with
    | nil =>
      refine (push_with_line_cases lexer text found start text.length member).imp_right fun piece => ?_
      exact ⟨_, List.mem_singleton.mpr rfl, piece⟩
    | cons separator rest ih =>
      obtain pushed | ⟨piece, later, trimmed⟩ := ih _ _ member
      · refine (push_with_line_cases lexer text found start separator pushed).imp_right fun piece => ?_
        exact ⟨_, List.mem_cons_self, piece⟩
      · exact .inr ⟨piece, List.mem_cons_of_mem _ later, trimmed⟩
  unfold statementsWithLines at member
  split at member
  · simpa using walked _ _ _ member
  · simp at member

theorem piece_group (groups : List (List Lexeme)) (last : List Lexeme)
    (member : piece ∈ piecesFrom index (groupEnds index groups)
      (index + (spell (joined groups last)).length)) :
    ∃ before group after, joined groups last = before ++ group ++ after ∧ group ∈ groups ++ [last] ∧
      piece = (index + (spell before).length, index + (spell (before ++ group)).length) := by
  induction groups generalizing index with
  | nil =>
    obtain rfl := List.mem_singleton.mp member
    exact ⟨[], last, [], by simp [joined], by simp, by simp [joined]⟩
  | cons group groups ih =>
    rcases List.mem_cons.mp member with rfl | later
    · exact ⟨[], group, .separator :: joined groups last, by simp [joined], by simp, by simp⟩
    · rw [spell_joined_cons, ← Nat.add_assoc, ← Nat.add_assoc] at later
      obtain ⟨before, inner, after, joins, among, rfl⟩ := ih later
      refine ⟨group ++ .separator :: before, inner, after, ?_, by simp_all, ?_⟩
      · rw [joined_cons, joins]
        simp
      · simp only [spell, flat_append, flat_cons, Lexeme.bytes, List.length_append, List.length_singleton]
        congr 1 <;> omega

theorem reads_plain_front (front : List UInt8) (reads : Reads lexer lexemes)
    (covers : spell lexemes = front ++ tail) (plain : ∀ byte ∈ front, PlainCode lexer byte) :
    ∃ rest, lexemes = front.map (fun byte => .code [byte]) ++ rest := by
  induction front generalizing lexemes with
  | nil => exact ⟨lexemes, rfl⟩
  | cons byte front ih =>
    cases reads with
    | nil => simp at covers
    | @cons lexeme first body rest starts taken reads =>
      simp only [spell, flat_cons, starts, List.cons_append, List.cons.injEq] at covers
      obtain ⟨rfl, covers⟩ := covers
      have step : munch lexer first (body ++ flat Lexeme.bytes rest) = .code [first] := by
        simp [munch, (plain first (by simp)).step]
      obtain rfl := taken.symm.trans step
      obtain rfl : body = [] := by simpa [Lexeme.bytes] using starts.symm
      obtain ⟨after, rfl⟩ := ih reads covers fun value member => plain value (by simp [member])
      exact ⟨after, rfl⟩

theorem leading_blank_bytes {good : UInt8 → Prop} {text : List UInt8}
    (blanks : ∀ blank ∈ characters, blank ≠ [] ∧ ∀ byte ∈ blank, good byte)
    (begun : ∀ byte ∈ text.take skip, good byte) :
    ∀ byte ∈ text.take (leadingBlank characters skip text), good byte := by
  induction text generalizing skip with
  | nil => simp [leadingBlank]
  | cons byte rest ih =>
    cases skip with
    | succ skip =>
      simp only [List.take_succ_cons, List.forall_mem_cons] at begun
      rw [leadingBlank, Nat.add_comm, List.take_succ_cons, List.forall_mem_cons]
      exact ⟨begun.1, ih begun.2⟩
    | zero =>
      simp only [leadingBlank]
      split
      · next blank found =>
        obtain ⟨nonempty, all⟩ := blanks blank (List.mem_of_find?_eq_some found)
        obtain ⟨first, blank, rfl⟩ := List.exists_cons_of_ne_nil nonempty
        have starts : first :: blank <+: byte :: rest := by simpa using List.find?_some found
        rw [List.prefix_iff_eq_take.mp starts, List.length_cons, List.take_succ_cons,
          List.forall_mem_cons] at all
        rw [Nat.add_comm, List.take_succ_cons, List.forall_mem_cons]
        exact ⟨all.1, ih all.2⟩
      · simp

theorem trimmed_start_plain (mysql : lexer.isMysql = true) (text : List UInt8) :
    ∀ byte ∈ text.take (trimmedStart text), PlainCode lexer byte := by
  have listed : (WHITE_SPACE.all fun blank => !blank.isEmpty && blank.all fun byte => isSpace byte ||
    decide (0x80 ≤ byte)) = true := by
    decide +kernel
  have characters : ∀ blank ∈ WHITE_SPACE, blank ≠ [] ∧ ∀ byte ∈ blank, isSpace byte = true ∨ 0x80 ≤ byte := by
    simpa only [List.all_eq_true, Bool.and_eq_true, Bool.not_eq_true', List.isEmpty_eq_false_iff, Bool.or_eq_true,
      decide_eq_true_eq] using listed
  have other := (lexer.families.1 mysql).2
  intro byte member
  rcases leading_blank_bytes characters (by simp) byte member with blank | high
  · exact plain_of_space blank
  · refine ⟨?_, ?_, ?_, ?_, ?_, ?_, ?_, ?_, ?_⟩
    on_goal 9 => simp only [isIdentStart, Lexer.unicodeIdent, other, isAsciiAlphabetic]
    all_goals grind

/-- A keyword in any case is read back as it is listed. -/
theorem keyword_at_keyword (notPostgres : lexer.postgres = false) (is : isKeyword word keyword = true)
    (listed : (∀ byte ∈ asciiLowercase (ofAscii keyword), isAsciiAlphabetic byte = true) ∧
      asciiUppercase (asciiLowercase (ofAscii keyword)) = ofAscii keyword ∧ ofAscii keyword ≠ []) :
    keywordAt lexer word = some (ofAscii keyword) := by
  obtain ⟨letters, listed, nonempty⟩ := listed
  have lower (byte : UInt8) : isAsciiAlphabetic (toAsciiLowercase byte) = isAsciiAlphabetic byte ∧
      toAsciiUppercase (toAsciiLowercase byte) = toAsciiUppercase byte := by
    simp only [isAsciiAlphabetic, toAsciiLowercase, toAsciiUppercase]
    grind
  have same : asciiLowercase word = asciiLowercase (ofAscii keyword) := by
    simpa [isKeyword, eqIgnoreAsciiCase] using is
  have upper : asciiUppercase word = ofAscii keyword := by
    rw [← listed, ← same]
    simp [asciiUppercase, asciiLowercase, lower]
  have whole : word.takeWhile (fun byte => isAsciiAlphabetic byte || byte == underscore) = word := by
    refine List.takeWhile_eq_self_iff.mpr fun byte member => ?_
    rw [← same] at letters
    have letter := letters (toAsciiLowercase byte) (List.mem_map_of_mem member)
    simp [← (lower byte).1, letter]
  simp only [keywordAt, notPostgres, Bool.false_eq_true, if_false, whole]
  cases word with
  | nil => simp [← upper, asciiUppercase] at nonempty
  | cons => simp [upper]

theorem code_starts (reads : Reads lexer (.code bytes :: rest)) :
    ∃ byte body, bytes = byte :: body ∧ isIdentStart lexer byte = false := by
  cases reads with
  | @cons _ byte body _ starts taken _ =>
    obtain ⟨width, arm⟩ := munch_begins taken
    refine ⟨byte, body, starts, ?_⟩
    cases arm with
    | code _ _ _ _ _ _ _ start => exact start
    | opener opens =>
      obtain ⟨-, more, covers, -⟩ := opener_cases opens
      obtain ⟨rfl, -⟩ := List.cons.inj covers
      simp [isIdentStart, isAsciiAlphabetic]

/-- The keyword of a statement that opens with a word is that word, or is not read at all. -/
theorem leading_keyword_opens (front : List Lexeme) (quiet : ∀ lexeme ∈ front, lexeme.Quiet)
    (reads : Reads lexer (front ++ .word word :: rest)) (notPostgres : lexer.postgres = false) :
    leadingKeyword lexer (spell (front ++ .word word :: rest)) = none ∨
      leadingKeyword lexer (spell (front ++ .word word :: rest)) = keywordAt lexer word := by
  rw [leading_keyword_eq, skip_trivia_lexemes reads]
  induction front with
  | nil => exact .inr (keyword_at_lexeme reads)
  | cons lexeme front ih =>
    replace reads : Reads lexer (lexeme :: (front ++ .word word :: rest)) := reads
    have inner : Reads lexer (front ++ .word word :: rest) := reads.tail
    have later := ih (fun other member => quiet other (List.mem_cons_of_mem _ member)) inner
    have here := quiet lexeme List.mem_cons_self
    cases lexeme with
    | word | separator => exact here.elim
    | region state bytes =>
      rcases here with line | block <;> cases state <;> simp_all [State.kind, afterTrivia]
    | unclosed state bytes =>
      have none := reads_follows reads
      have opening : Reads lexer (.word word :: rest) := inner.suffix
      obtain ⟨byte, body, starts⟩ := reads_starts opening
      simp [Lexeme.Follows, starts] at none
    | code bytes =>
      obtain ⟨byte, body, rfl, start⟩ := code_starts reads
      cases body with
      | cons second body => simpa [afterTrivia] using later
      | nil =>
        simp only [List.cons_append, afterTrivia]
        split
        · exact later
        · left
          have letter : (isAsciiAlphabetic byte || byte == underscore) = false := by
            simp only [isIdentStart] at start
            grind
          rw [keyword_at_lexeme reads]
          simp [keywordAt, notPostgres, Lexeme.bytes, letter]

theorem opening_keyword (mysql : lexer.isMysql = true) (opening : isOpening word = true) :
    keywordAt lexer word = some (ofAscii "CREATE") ∨ keywordAt lexer word = some (ofAscii "ALTER") ∨
      keywordAt lexer word = some (ofAscii "BEGIN") := by
  have notPostgres := (lexer.families.1 mysql).2
  have one : isKeyword word "CREATE" = true ∨ isKeyword word "ALTER" = true ∨
      isKeyword word "BEGIN" = true := by simpa [isOpening, isAnyKeyword] using opening
  rcases one with is | is | is
  · exact .inl (keyword_at_keyword notPostgres is (by decide +kernel))
  · exact .inr (.inl (keyword_at_keyword notPostgres is (by decide +kernel)))
  · exact .inr (.inr (keyword_at_keyword notPostgres is (by decide +kernel)))

theorem classify_cases (notPostgres : lexer.postgres = false) (text : List UInt8) :
    classify lexer text = .unknown ∨ ∃ leading, leadingKeyword lexer text = some leading ∧
      classify lexer text = kindOf leading (keywords lexer text) (.of lexer text) := by
  unfold classify
  dsimp only
  split
  · exact .inl rfl
  split
  · exact .inl rfl
  split
  · exact .inl rfl
  · next leading is =>
    right
    refine ⟨leading, is, ?_⟩
    simp [Lexer.isPostgres, notPostgres]

theorem classify_opens (mysql : lexer.isMysql = true) (front : List Lexeme)
    (quiet : ∀ lexeme ∈ front, lexeme.Quiet) (opening : isOpening word = true)
    (reads : Reads lexer (front ++ .word word :: rest)) :
    classify lexer (spell (front ++ .word word :: rest)) = .ddl ∨
      classify lexer (spell (front ++ .word word :: rest)) = .unknown := by
  have notPostgres := (lexer.families.1 mysql).2
  rcases classify_cases notPostgres (spell (front ++ .word word :: rest)) with
    unknown | ⟨leading, is, kind⟩
  · exact .inr unknown
  rcases leading_keyword_opens front quiet reads notPostgres with none | read
  · exact absurd (none.symm.trans is) (by simp)
  rw [is] at read
  rw [kind]
  rcases opening_keyword mysql opening with create | alter | begins
  · obtain rfl := Option.some.inj (read.trans create)
    exact .inl rfl
  · obtain rfl := Option.some.inj (read.trans alter)
    exact .inl rfl
  · obtain rfl := Option.some.inj (read.trans begins)
    exact .inr rfl

theorem split_later {first second : Lexeme}
    (split : front ++ first :: rest = front' ++ second :: rest') (other : second ≠ first)
    (absent : first ∉ front') : ∃ middle, front = front' ++ second :: middle := by
  rcases List.append_eq_append_iff.mp split with ⟨more, rfl, same⟩ | ⟨more, rfl, same⟩
  · cases more with
    | nil => exact absurd (List.cons.inj same).1.symm other
    | cons next more =>
      obtain ⟨rfl, -⟩ := List.cons.inj same
      simp at absent
  · cases more with
    | nil => exact absurd (List.cons.inj same).1 other
    | cons next more =>
      obtain ⟨rfl, -⟩ := List.cons.inj same
      exact ⟨more, rfl⟩

/-- A statement that was opened is still opened once its blanks are cut, and reads on its
own as far as a separator in it is kept. -/
theorem opened_text (opens : Opens group) (reads : Reads lexer (group ++ after))
    (covers : spell group = blanks ++ text) (plain : ∀ byte ∈ blanks, PlainCode lexer byte)
    (held : group = before ++ .separator :: rest)
    (kept : (spell before).length < blanks.length + (text.take length).length) :
    ∃ front word rest, (∀ lexeme ∈ front, lexeme.Quiet) ∧ isOpening word = true ∧
      Reads lexer (front ++ .word word :: rest) ∧
      text.take length = spell (front ++ .word word :: rest) := by
  obtain ⟨front, word, tail, rfl, quiet, opening⟩ := opens
  have whole : spell (front ++ .word word :: tail ++ after) = blanks ++ (text ++ spell after) := by
    rw [← List.append_assoc, ← covers, spell, flat_append]
  obtain ⟨others, cut⟩ := reads_plain_front blanks reads whole plain
  -- The blanks are lexemes of the quiet front.
  obtain ⟨inner, rfl⟩ : ∃ inner, front = blanks.map (fun byte => .code [byte]) ++ inner := by
    rw [List.append_assoc, List.cons_append] at cut
    rcases List.append_eq_append_iff.mp cut with ⟨more, codes, begins⟩ | ⟨inner, codes, -⟩
    · cases more with
      | nil => exact ⟨[], by rw [codes, List.append_nil, List.append_nil]⟩
      | cons next more =>
        obtain ⟨rfl, -⟩ := List.cons.inj begins
        have word : Lexeme.word word ∈ blanks.map (fun byte => Lexeme.code [byte]) := by
          rw [codes]
          simp
        simp at word
    · exact ⟨inner, codes⟩
  have blank : spell (blanks.map fun byte => .code [byte]) = blanks := by
    simp [spell, flat, List.flatMap_map, Lexeme.bytes]
  -- The separator is behind the opening word.
  obtain ⟨middle, rfl⟩ := split_later held.symm (by simp)
    (fun member => (quiet _ member : Lexeme.separator.Quiet))
  obtain rfl : tail = middle ++ .separator :: rest := by simpa using held
  obtain rfl : text = spell (inner ++ .word word :: middle) ++ semicolon :: spell rest := by
    simpa [blank, Lexeme.bytes, eq_comm] using covers
  have long : (spell (inner ++ .word word :: middle)).length <
      ((spell (inner ++ .word word :: middle) ++ semicolon :: spell rest).take length).length := by
    have before : (spell (blanks.map (fun byte => .code [byte]) ++ inner ++ .word word :: middle)).length =
        blanks.length + (spell (inner ++ .word word :: middle)).length := by
      simp [blank]
    omega
  obtain ⟨more, rfl⟩ : ∃ more, length = (spell (inner ++ .word word :: middle)).length + (more + 1) := by
    rw [List.length_take] at long
    exact ⟨length - (spell (inner ++ .word word :: middle)).length - 1, by omega⟩
  obtain ⟨lexemes, ending, tailReads⟩ := exists_lexemes lexer ((spell rest).take more)
  have whole : Reads lexer ((inner ++ .word word :: middle) ++ .separator :: (rest ++ after)) := by
    have all : Reads lexer (blanks.map (fun byte => .code [byte]) ++
        ((inner ++ .word word :: middle) ++ .separator :: (rest ++ after))) := by
      simpa using reads
    exact all.suffix
  refine ⟨inner, word, middle ++ .separator :: lexemes, ?_, opening, ?_, ?_⟩
  · exact fun lexeme member => quiet lexeme (by simp [member])
  · simpa using reads_cut (inner ++ .word word :: middle) whole tailReads
  · rw [List.take_length_add_append, List.take_succ_cons, ← ending]
    simp [Lexeme.bytes]

theorem separators_from_bounds (lexemes : List Lexeme) (member : position ∈ separatorsFrom index lexemes) :
    index ≤ position ∧ position < index + (spell lexemes).length := by
  induction lexemes generalizing index with
  | nil => simp [separatorsFrom] at member
  | cons lexeme rest ih =>
    have long : (spell (lexeme :: rest)).length = lexeme.bytes.length + (spell rest).length := by simp
    by_cases is : lexeme = .separator
    · subst is
      rcases List.mem_cons.mp member with rfl | later
      · simp [Lexeme.bytes]
      · have bounds := ih later
        simp only [long, Lexeme.bytes, List.length_singleton]
        omega
    · have later : position ∈ separatorsFrom (index + lexeme.bytes.length) rest := by
        cases lexeme <;> simp_all [separatorsFrom]
      have bounds := ih later
      omega

/-- A script the tracker swallowed is refused by every mode below full access. -/
theorem swallowed_script_is_refused (lexer : Lexer) (script : List UInt8) (statement : ScriptStatement)
    (index : Nat) (mysql : lexer.isMysql = true)
    (member : statement ∈ statementsWithLines lexer script)
    (separator : index ∈ walkSeparators lexer script)
    (inside : statement.start ≤ index ∧ index < statement.start + statement.text.length) :
    (classify lexer statement.text = .ddl ∨ classify lexer statement.text = .unknown) ∧
      ∀ mode, mode ≠ SafeMode.full → mode.decision (classify lexer statement.text) = .refuse := by
  have written : classify lexer statement.text = .ddl ∨ classify lexer statement.text = .unknown := by
    obtain ⟨lexemes, rfl, reads⟩ := exists_lexemes lexer script
    obtain ⟨groups, last, rfl, ends, swallows⟩ := separators_groups mysql reads
    obtain ⟨piece, among, trimmed⟩ := statement_piece member
    rw [show separators lexer _ = _ from ends, ← Nat.zero_add (List.length _)] at among
    obtain ⟨before, group, after, joins, which, rfl⟩ := piece_group groups last among
    have slice : ((spell (joined groups last)).take (0 + (spell (before ++ group)).length)).drop
        (0 + (spell before).length) = spell group := by
      simp [joins, List.take_append, List.take_of_length_le]
    obtain ⟨start, text⟩ := trimmed
    rw [slice] at start text
    have kept : statement.text.length ≤ (spell group).length - trimmedStart (spell group) := by
      simp [text, trim]
    have span : (spell (before ++ group)).length = (spell before).length + (spell group).length := by
      simp
    simp only [Nat.zero_add] at start
    -- The separator is one of the group's own.
    rw [walk_separators_eq reads, joins, separators_from_append, separators_from_append,
      List.mem_append, List.mem_append, Nat.zero_add, Nat.zero_add] at separator
    rcases separator with (outside | own) | outside
    · have bounds := separators_from_bounds before outside
      omega
    · obtain ⟨position, located⟩ := List.mem_iff_getElem?.mp own
      obtain ⟨front, rest, held, rfl, -⟩ := separators_from_split group located
      rw [joins, List.append_assoc] at reads
      have long : ((spell group).take (trimmedStart (spell group))).length =
          trimmedStart (spell group) := List.length_take_of_le (by omega)
      rw [trim] at text
      obtain ⟨inner, word, tail, quiet, opening, alone, same⟩ :=
        opened_text (swallows group which (by simp [held])) reads.suffix
          (List.take_append_drop _ _).symm (trimmed_start_plain mysql (spell group)) held
          (by rw [← text]; omega)
      rw [text, same]
      exact classify_opens mysql inner quiet opening alone
    · have bounds := separators_from_bounds after outside
      omega
  refine ⟨written, fun mode below => ?_⟩
  rcases written with is | is <;> rw [is] <;> cases mode <;> simp [SafeMode.decision] at below ⊢

/-- A body holds its `;` inside one statement, behind a comment and a blank of two bytes. -/
theorem swallowed_procedure_is_refused :
    (classify (.mysql true false true)
        (ofAscii "/* p */ CREATE PROCEDURE p() BEGIN DELETE FROM a; END") = .ddl ∨
      classify (.mysql true false true)
        (ofAscii "/* p */ CREATE PROCEDURE p() BEGIN DELETE FROM a; END") = .unknown) ∧
      ∀ mode, mode ≠ SafeMode.full → mode.decision (classify (.mysql true false true)
        (ofAscii "/* p */ CREATE PROCEDURE p() BEGIN DELETE FROM a; END")) = .refuse :=
  swallowed_script_is_refused (.mysql true false true)
    ([0xc2, 0xa0] ++ ofAscii "/* p */ CREATE PROCEDURE p() BEGIN DELETE FROM a; END;")
    ⟨1, 2, ofAscii "/* p */ CREATE PROCEDURE p() BEGIN DELETE FROM a; END"⟩ 50 rfl (by decide +kernel)
      (by decide +kernel) (by decide +kernel)

end QueryHive.Sql
