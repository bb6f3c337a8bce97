import QueryHive.Sql.Lexemes

/-! Where a text can be cut. A separator is read the same whatever follows it and nothing
before it looks past it, so a reading may be given another tail behind any separator. The
one lexeme that looks arbitrarily far is a string of PostgreSQL's, which may go on past
blanks and comments; that lookahead is restated on lexemes first. -/
namespace QueryHive.Sql
open Byte Library.Munch

def Lexeme.Begins (lexer : Lexer) (byte : UInt8) (rest : List UInt8) : Lexeme → Prop
  | .region state _ | .unclosed state _ => ∃ width, Arm lexer byte rest (.enters state width)
  | .word _ => ∃ width, Arm lexer byte rest (.word width)
  | .separator => Arm lexer byte rest .separator
  | .code _ => ∃ width, Arm lexer byte rest (.code width)

theorem munch_begins (taken : munch lexer byte rest = lexeme) : lexeme.Begins lexer byte rest := by
  have arm := normal_step_arm lexer byte rest
  unfold munch at taken
  cases step : normalStep lexer byte rest with
  | enters state width =>
    rw [step] at arm
    simp only [step] at taken
    split at taken <;> subst taken <;> exact ⟨width, arm⟩
  | separator =>
    simp only [step] at taken
    subst taken
    exact (step ▸ arm : Arm lexer byte rest .separator)
  | word width =>
    simp only [step] at taken
    subst taken
    exact ⟨width, step ▸ arm⟩
  | code width =>
    simp only [step] at taken
    subst taken
    exact ⟨width, step ▸ arm⟩

theorem line_comment_length (lexer : Lexer) (text : List UInt8) :
    regionLength lexer .lineComment 0 text = some (text.takeWhile (!endsLine lexer ·)).length := by
  induction text with
  | nil => rfl
  | cons byte rest ih =>
    by_cases ends : endsLine lexer byte = true <;>
      simp [regionLength, regionStep, ends, ih]

theorem dashes_cases (opens : dashOpensComment lexer (byte :: rest) = true) :
    byte = dash ∧ ∃ more, rest = dash :: more := by
  unfold dashOpensComment at opens
  grind

theorem line_comment_bytes (taken : munch lexer byte (body ++ tail) = .region .lineComment (byte :: body)) :
    (byte = dash ∧ ∃ rest, body = dash :: rest ∧ ∀ value ∈ rest, endsLine lexer value = false) ∨
      (byte = hash ∧ lexer.hashComment = true ∧ ∀ value ∈ body, endsLine lexer value = false) := by
  have arm := normal_step_arm lexer byte (body ++ tail)
  unfold munch at taken
  split at taken <;> try simp at taken
  next state width step =>
  split at taken <;> try simp at taken
  next length ends =>
  obtain ⟨rfl, same⟩ := taken
  rw [step] at arm
  cases arm with
  | dashes opens =>
    left
    obtain ⟨rfl, more, covers⟩ := dashes_cases opens
    rw [covers, regionLength, line_comment_length] at ends
    obtain rfl := Option.some.inj ends
    rw [covers, List.take_succ_cons, take_run] at same
    refine ⟨rfl, _, same.symm, fun value member => ?_⟩
    simpa using List.mem_takeWhile_imp member
  | hash is opens =>
    right
    rw [Nat.sub_self, line_comment_length] at ends
    obtain rfl := Option.some.inj ends
    rw [take_run] at same
    exact ⟨is, opens, fun value member => by simpa using (run_split same).1 value member⟩
  | prefixed start run quotes =>
    obtain ⟨-, -, ⟨-, -, kind⟩ | ⟨-, -, kind⟩⟩ := string_prefix_cases quotes <;> simp at kind

/-- Whether a string ended here goes on past these lexemes: blanks and line comments with
a line end among them, and then a plain string. -/
def continues (lexer : Lexer) (pastLine : Bool) : List Lexeme → Bool
  | .code [byte] :: rest =>
    if isContinuationSpace lexer byte then continues lexer pastLine rest
    else if isNewline byte then continues lexer true rest
    else false
  | .region .lineComment _ :: rest => continues lexer pastLine rest
  | .region .singleQuoted _ :: _ | .unclosed .singleQuoted _ :: _ => pastLine
  | _ => false

/-- The phase of the byte loop outside a comment. -/
private def phaseOf (pastLine : Bool) : ContinuationPhase := if pastLine then .lines else .gap

private def commentPhaseOf (pastLine : Bool) : ContinuationPhase :=
  if pastLine then .linesComment else .gapComment

private theorem comment_passed (lexer : Lexer) (pastLine : Bool) (body : List UInt8)
    (inLine : ∀ value ∈ body, isNewline value = false)
    (lineEnd : ∀ value, List.head? tail = some value → isNewline value = true) :
    (continuationFrom lexer (commentPhaseOf pastLine) (body ++ tail)).isSome =
      (continuationFrom lexer (phaseOf pastLine) tail).isSome := by
  induction body with
  | nil =>
    cases tail with
    | nil => simp [continuationFrom]
    | cons value rest =>
      have ending := lineEnd value rfl
      have plain : value ≠ dash ∧ isContinuationSpace lexer value = false := by
        simp only [isNewline, isContinuationSpace] at ending ⊢
        grind
      cases pastLine <;> simp [commentPhaseOf, phaseOf, continuationFrom, ending, plain]
  | cons value body ih =>
    have here := inLine value (by simp)
    cases pastLine <;> simp_all [commentPhaseOf, phaseOf, continuationFrom]

private theorem continuation_stops (pastLine : Bool)
    (other : isContinuationSpace lexer byte = false ∧ isNewline byte = false ∧ byte ≠ quote)
    (noComment : ¬(byte = dash ∧ rest.head? = some dash)) :
    (continuationFrom lexer (phaseOf pastLine) (byte :: rest)).isSome = false := by
  cases pastLine <;> simp_all [phaseOf, continuationFrom]

/-- A byte that begins a word or a region other than a plain string and a `--` comment. -/
private def Blocks (byte : UInt8) : Prop :=
  isNewline byte = false ∧ byte ≠ space ∧ byte ≠ tab ∧ byte ≠ formFeed ∧ byte ≠ verticalTab ∧
    byte ≠ quote ∧ byte ≠ dash

private theorem Blocks.stops (blocks : Blocks byte) (pastLine : Bool) :
    (continuationFrom lexer (phaseOf pastLine) (byte :: rest)).isSome = false := by
  obtain ⟨line, blank, tabbed, fed, vertical, quoted, dashed⟩ := blocks
  apply continuation_stops pastLine _ (fun h => dashed h.1)
  simp_all [isContinuationSpace]

private theorem ident_blocks (start : isIdentStart lexer byte = true) : Blocks byte := by
  refine ⟨?_, ?_, ?_, ?_, ?_, ?_, ?_⟩
  · by_contra line
    have newlines : byte = newline ∨ byte = carriageReturn := by
      simp only [isNewline] at line
      grind
    rcases newlines with rfl | rfl <;> simp [isIdentStart, isAsciiAlphabetic] at start
  all_goals
    rintro rfl
    simp [isIdentStart, isAsciiAlphabetic] at start

/-- What opens a region, as far as a continuation can tell. -/
private theorem Arm.enters_cases (arm : Arm lexer byte rest (.enters state width)) :
    (state = .singleQuoted ∧ byte = quote) ∨ state = .lineComment ∨
      (Blocks byte ∧ state ≠ .singleQuoted ∧ state ≠ .lineComment) := by
  cases arm with
  | quoted is => exact .inl ⟨rfl, is⟩
  | dashes => exact .inr (.inl rfl)
  | hash => exact .inr (.inl rfl)
  | doubleQuoted is => exact .inr (.inr (by simp [is, Blocks, isNewline]))
  | backtick is => exact .inr (.inr (by simp [is, Blocks, isNewline]))
  | block is => exact .inr (.inr (by simp [is, Blocks, isNewline]))
  | dollar is => exact .inr (.inr (by simp [is, Blocks, isNewline]))
  | prefixed start run quotes =>
    refine .inr (.inr ⟨ident_blocks start, ?_⟩)
    obtain ⟨-, -, ⟨-, -, rfl | rfl⟩ | ⟨-, -, rfl⟩⟩ := string_prefix_cases quotes <;> simp

theorem munch_line_comment_ends : munch lexer byte rest ≠ .unclosed .lineComment bytes := by
  intro taken
  have begins := munch_begins taken
  obtain ⟨width, arm⟩ := begins
  have fits := arm.entered.2.2
  unfold munch at taken
  rw [arm.eq] at taken
  simp only [region_length_skip lexer .lineComment (width - 1) rest fits, line_comment_length,
    Option.map_some, reduceCtorEq] at taken

theorem continuation_lexemes (postgres : lexer.postgres = true) (reads : Reads lexer lexemes)
    (pastLine : Bool) :
    (continuationFrom lexer (phaseOf pastLine) (spell lexemes)).isSome =
      continues lexer pastLine lexemes := by
  obtain ⟨mysql, trino, executable⟩ := lexer.postgres_alone postgres
  have lineEnds (value : UInt8) : endsLine lexer value = isNewline value := by
    simp [endsLine, isNewline, Lexer.crEndsLine, postgres]
  induction reads generalizing pastLine with
  | nil => cases pastLine <;> rfl
  | @cons lexeme byte body rest starts taken reads ih =>
    replace taken : munch lexer byte (body ++ spell rest) = lexeme := taken
    have begins := munch_begins taken
    obtain ⟨follows, -⟩ := munch_exchange taken starts
    simp only [flat_cons, starts, List.cons_append]
    cases lexeme with
    | separator =>
      cases begins with
      | separator is =>
        subst is
        exact Blocks.stops (by simp [Blocks, isNewline]) pastLine
    | word run =>
      obtain ⟨width, arm⟩ := begins
      cases arm with
      | word start _ _ => exact (ident_blocks start).stops pastLine
    | code bytes =>
      obtain ⟨width, arm⟩ := begins
      obtain rfl : bytes = byte :: body := starts
      cases arm with
      | opener opens => simp [(opener_cases opens).1] at executable
      | code quotes plain dashes hash block statement tag start =>
        obtain rfl : body = [] := by
          simpa [munch, (Arm.code quotes plain dashes hash block statement tag start).eq,
            eq_comm] using taken
        have noComment : ¬(byte = dash ∧ (spell rest).head? = some dash) := by
          rintro ⟨rfl, next⟩
          obtain ⟨more, covers⟩ := List.head?_eq_some_iff.mp next
          rw [List.nil_append, covers] at dashes
          simp [dashOpensComment, Lexer.dashNeedsSpace, mysql] at dashes
        simp only [List.nil_append, continues]
        split
        · rw [← ih]
          cases pastLine <;> simp [phaseOf, continuationFrom, *]
        split
        · rw [← ih]
          cases pastLine <;> simp [phaseOf, continuationFrom, *]
        · exact continuation_stops pastLine (by simp_all) noComment
    | region state bytes =>
      obtain ⟨width, arm⟩ := begins
      obtain rfl : bytes = byte :: body := starts
      obtain ⟨rfl, rfl⟩ | rfl | ⟨blocks, notQuoted, notLine⟩ := arm.enters_cases
      · cases pastLine <;> simp [continues, phaseOf, continuationFrom, isContinuationSpace, isNewline]
      · obtain ⟨rfl, line, rfl, inLine⟩ | ⟨rfl, hashes, -⟩ := line_comment_bytes taken
        · simp only [lineEnds] at inLine
          have passed := comment_passed lexer pastLine line inLine
            (fun value next => lineEnds value ▸ follows value next)
          rw [continues, ← ih, ← passed]
          cases pastLine <;> simp [phaseOf, commentPhaseOf, continuationFrom, isContinuationSpace,
            isNewline]
        · simp [Lexer.hashComment, mysql] at hashes
      · rw [blocks.stops pastLine]
        cases state <;> simp_all [continues]
    | unclosed state bytes =>
      obtain ⟨width, arm⟩ := begins
      obtain rfl : bytes = byte :: body := starts
      obtain ⟨rfl, rfl⟩ | rfl | ⟨blocks, notQuoted, notLine⟩ := arm.enters_cases
      · cases pastLine <;> simp [continues, phaseOf, continuationFrom, isContinuationSpace, isNewline]
      · exact absurd taken munch_line_comment_ends
      · rw [blocks.stops pastLine]
        cases state <;> simp_all [continues]

theorem string_continuation_none (reads : Reads lexer lexemes) :
    stringContinuation lexer (spell lexemes) = none ↔
      (lexer.postgres = true → continues lexer false lexemes = false) := by
  unfold stringContinuation
  split
  · next postgres =>
    have same := continuation_lexemes postgres reads false
    simp only [phaseOf, Bool.false_eq_true, if_false] at same
    rw [← same, Option.isSome_eq_false_iff, Option.isNone_iff_eq_none]
    simp [postgres]
  · simp [*]

/-- A byte no token goes on into: a blank, or punctuation that stands alone. -/
def isSoft (byte : UInt8) : Bool :=
  isSpace byte || byte == comma || byte == semicolon || byte == closeParen

/-- A tail that no token goes on into. -/
def SoftStart (tail : List UInt8) : Prop := ∀ byte, tail.head? = some byte → isSoft byte = true

/-- Two tails alike up to a soft byte, where one may have a blank and the other any. -/
def Ahead (tail other : List UInt8) : Prop :=
  ∃ front rest rest', tail = front ++ rest ∧ other = front ++ rest' ∧
    SoftStart rest ∧ SoftStart rest' ∧
    (rest.head? = rest'.head? ∨ ∃ byte, rest.head? = some byte ∧ isSpace byte = true)

theorem soft_plain (lexer : Lexer) (first : Bool) (soft : isSoft byte = true) :
    isIdentCont lexer byte = false ∧ isAsciiDigit byte = false ∧ tagByte lexer first byte = false ∧
      byte ≠ quote ∧ byte ≠ doubleQuote ∧ byte ≠ backtick ∧ byte ≠ star ∧ byte ≠ bang ∧
      byte ≠ dash ∧ byte ≠ ampersand ∧ byte ≠ dollar := by
  have known : byte = space ∨ byte = tab ∨ byte = newline ∨ byte = formFeed ∨
      byte = carriageReturn ∨ byte = verticalTab ∨ byte = comma ∨ byte = semicolon ∨
      byte = closeParen := by
    simp only [isSoft, isSpace, isAsciiWhitespace] at soft
    grind
  rcases known with rfl | rfl | rfl | rfl | rfl | rfl | rfl | rfl | rfl <;>
    simp [isIdentCont, isAsciiAlphanumeric, isAsciiAlphabetic, isAsciiDigit, tagByte]

theorem read_tag_stops (front : List UInt8)
    (soft : SoftStart tail) :
    readTag lexer first (front ++ tail) = none ↔ readTag lexer first front = none := by
  induction front generalizing first with
  | nil =>
    cases tail with
    | nil => simp
    | cons byte rest =>
      obtain ⟨-, -, tag, -, -, -, -, -, -, -, dollar⟩ :=
        soft_plain lexer first (soft byte rfl)
      simp [readTag, tag, dollar]
  | cons byte front ih =>
    simp only [List.cons_append, readTag]
    split
    · simp
    split
    · simpa using ih
    · simp

/-- A byte that is not soft stands in both tails. -/
private theorem ahead_head {front : List UInt8} (sharp : isSoft value = false)
    (soft : SoftStart rest) : (front ++ rest).head? = some value ↔ front.head? = some value := by
  cases front with
  | nil =>
    simp only [List.nil_append, List.head?_nil, reduceCtorEq, iff_false]
    intro head
    simp [soft value head] at sharp
  | cons => simp

private theorem ahead_pair {front : List UInt8}
    (sharp : isSoft first = false ∧ isSoft second = false) (soft : SoftStart rest) :
    (front ++ rest).take 2 = [first, second] ↔ front.take 2 = [first, second] := by
  rcases front with _ | ⟨value, _ | ⟨next, front⟩⟩
  · cases rest with
    | nil => simp
    | cons value rest =>
      have := soft value rfl
      grind
  · cases rest with
    | nil => simp
    | cons next rest =>
      have := soft next rfl
      simp
      grind
  · simp

private theorem dashes_ahead {front : List UInt8}
    (heads : rest.head? = rest'.head? ∨ ∃ byte, rest.head? = some byte ∧ isSpace byte = true)
    (shut : dashOpensComment lexer (dash :: (dash :: front ++ rest)) = false) :
    dashOpensComment lexer (dash :: (dash :: front ++ rest')) = false := by
  cases front with
  | cons third front => simpa [dashOpensComment] using shut
  | nil =>
    rcases heads with heads | ⟨byte, head, blank⟩
    · cases rest <;> cases rest' <;> simp_all [dashOpensComment]
    · exfalso
      obtain ⟨more, rfl⟩ := List.head?_eq_some_iff.mp head
      have opens : (isAsciiWhitespace byte || isAsciiControl byte) = true := by
        simp only [isSpace, isAsciiControl] at blank ⊢
        grind
      simp [dashOpensComment] at shut
      grind

/-- The states of a string that may go on past a newline. -/
def State.isString : State → Bool
  | .singleQuoted | .escapeQuoted | .unicodeQuoted | .bitQuoted => true
  | _ => false

/-- What a lexeme asks of its tail it asks of every tail alike, the end of a line and the
lookahead of a string apart. -/
theorem follows_ahead {lexeme : Lexeme} (follows : lexeme.Follows lexer tail)
    (ahead : Ahead tail other) (closed : ∀ state bytes, lexeme ≠ .unclosed state bytes)
    (line : ∀ bytes, lexeme = .region .lineComment bytes →
      ∀ byte, other.head? = some byte → endsLine lexer byte = true)
    (string : ∀ state bytes, lexeme = .region state bytes → state.isString = true →
      stringContinuation lexer tail = none → stringContinuation lexer other = none) :
    lexeme.Follows lexer other := by
  obtain ⟨front, rest, rest', rfl, rfl, soft, soft', heads⟩ := ahead
  have same (value : UInt8) (sharp : isSoft value = false) :
      (front ++ rest).head? = some value ↔ (front ++ rest').head? = some value :=
    (ahead_head sharp soft).trans (ahead_head sharp soft').symm
  have digits (stops : ∀ byte, (front ++ rest).head? = some byte → isAsciiDigit byte = false) :
      ∀ byte, (front ++ rest').head? = some byte → isAsciiDigit byte = false := by
    intro byte head
    by_cases softly : isSoft byte = true
    · exact (soft_plain lexer true softly).2.1
    · exact stops byte ((same byte (by simpa using softly)).mpr head)
  cases lexeme with
  | separator => trivial
  | unclosed state bytes => exact absurd rfl (closed state bytes)
  | word run =>
    obtain ⟨stops, bare⟩ := follows
    refine ⟨fun byte head => ?_, ?_⟩
    · by_cases softly : isSoft byte = true
      · exact (soft_plain lexer true softly).1
      · exact stops byte ((same byte (by simpa using softly)).mpr head)
    · rw [← bare]
      exact string_prefix_congr (same quote (by decide)).symm
        ((ahead_pair (by decide) soft').trans (ahead_pair (by decide) soft).symm)
  | code bytes =>
    rcases bytes with _ | ⟨byte, _ | ⟨second, bytes⟩⟩
    · exact digits follows
    · obtain ⟨plain, dashes, block, tag⟩ := follows
      refine ⟨?_, ?_, ?_, ?_⟩
      · by_contra opens
        obtain ⟨width, opens⟩ := Option.ne_none_iff_exists'.mp opens
        obtain ⟨executable, more, covers, -⟩ := opener_cases opens
        obtain ⟨rfl, covered⟩ := List.cons.inj covers
        exact block ⟨rfl, (same star (by decide)).mpr (by rw [covered]; rfl)⟩
      · by_contra opens
        obtain ⟨rfl, more, covers⟩ := dashes_cases (by simpa using opens)
        have next : front.head? = some dash :=
          (ahead_head (by decide) soft').mp (by rw [covers]; rfl)
        obtain ⟨front, rfl⟩ := List.head?_eq_some_iff.mp next
        exact opens (dashes_ahead heads dashes)
      · rwa [← same star (by decide)]
      · intro is quotes
        simpa [readDollarTag, read_tag_stops front soft, read_tag_stops front soft'] using tag is quotes
    · exact digits follows
  | region state bytes =>
    cases state with
    | lineComment => exact line bytes rfl
    | singleQuoted | escapeQuoted | unicodeQuoted =>
      exact ⟨fun next => follows.1 ((same quote (by decide)).mpr next), string _ bytes rfl rfl follows.2⟩
    | bitQuoted => exact string _ bytes rfl rfl follows
    | doubleQuoted => exact fun next => follows ((same doubleQuote (by decide)).mpr next)
    | backtickQuoted => exact fun next => follows ((same backtick (by decide)).mpr next)
    | normal | blockComment | dollarQuoted => trivial

theorem reads_starts (reads : Reads lexer (lexeme :: rest)) :
    ∃ byte body, lexeme.bytes = byte :: body := by
  cases reads with
  | cons starts _ _ => exact ⟨_, _, starts⟩

theorem continues_cut (pastLine : Bool) (front : List Lexeme) :
    continues lexer pastLine (front ++ .separator :: rest) =
      continues lexer pastLine (front ++ .separator :: other) := by
  induction front generalizing pastLine with
  | nil => rfl
  | cons lexeme front ih =>
    unfold continues
    simp only [List.cons_append]
    grind

/-- Behind a separator a reading can be given any other tail. -/
theorem reads_cut (front : List Lexeme) (reads : Reads lexer (front ++ .separator :: rest))
    (tail : Reads lexer rest') : Reads lexer (front ++ .separator :: rest') := by
  induction front with
  | nil => exact reads_exchange reads tail trivial
  | cons lexeme front ih =>
    replace reads : Reads lexer (lexeme :: (front ++ .separator :: rest)) := reads
    have inner : Reads lexer (front ++ .separator :: rest) := reads.tail
    have other := ih inner
    have soft (tail : List UInt8) : SoftStart (semicolon :: tail) := by
      intro byte head
      obtain rfl := Option.some.inj head
      decide
    change Reads lexer (lexeme :: (front ++ .separator :: rest'))
    refine reads_exchange reads other (follows_ahead (reads_follows reads) ?_ ?_ ?_ ?_)
    · exact ⟨spell front, semicolon :: spell rest, semicolon :: spell rest', by simp [Lexeme.bytes],
        by simp [Lexeme.bytes], soft _, soft _, .inl rfl⟩
    · rintro state bytes rfl
      have none := reads_follows reads
      simp [Lexeme.Follows, Lexeme.bytes] at none
    · rintro bytes rfl byte head
      refine reads_follows reads byte ?_
      cases front with
      | nil => exact head
      | cons next front =>
        obtain ⟨first, body, starts⟩ := reads_starts inner
        simpa [starts] using head
    · intro _ _ _ _ stops
      rw [string_continuation_none inner] at stops
      rw [string_continuation_none other]
      exact fun postgres => continues_cut false front ▸ stops postgres

/-- The separators of lexemes that begin at `index`. -/
def separatorsFrom (index : Nat) : List Lexeme → List Nat
  | [] => []
  | .separator :: rest => index :: separatorsFrom (index + 1) rest
  | lexeme :: rest => separatorsFrom (index + lexeme.bytes.length) rest

@[simp] theorem separators_from_nil (index : Nat) : separatorsFrom index [] = [] := rfl

theorem separators_from_separator (index : Nat) (rest : List Lexeme) :
    separatorsFrom index (.separator :: rest) = index :: separatorsFrom (index + 1) rest := rfl

theorem separators_from_other (index : Nat) (rest : List Lexeme) (other : lexeme ≠ .separator) :
    separatorsFrom index (lexeme :: rest) = separatorsFrom (index + lexeme.bytes.length) rest := by
  cases lexeme <;> first
    | rfl
    | exact absurd rfl other

theorem walk_separators_eq (reads : Reads lexer lexemes) :
    walkSeparators lexer (spell lexemes) = separatorsFrom 0 lexemes := by
  rw [walkSeparators, walk_eq reads]
  clear reads
  generalize 0 = index
  induction lexemes generalizing index with
  | nil => rfl
  | cons lexeme rest ih =>
    cases lexeme <;> simp [eventsFrom, separators_from_separator, separators_from_other, ih, Lexeme.bytes]

theorem separators_from_append (index : Nat) (front rest : List Lexeme) :
    separatorsFrom index (front ++ rest) =
      separatorsFrom index front ++ separatorsFrom (index + (spell front).length) rest := by
  induction front generalizing index with
  | nil => rfl
  | cons lexeme front ih =>
    cases lexeme <;>
      simp only [List.cons_append, separators_from_separator, separators_from_other, ne_eq, reduceCtorEq,
        not_false_eq_true, ih,
        flat_cons, List.length_append, Nat.add_assoc]
    simp [Lexeme.bytes]

theorem separators_from_shift (index shift : Nat) (lexemes : List Lexeme) :
    separatorsFrom (shift + index) lexemes = (separatorsFrom index lexemes).map (shift + ·) := by
  induction lexemes generalizing index with
  | nil => rfl
  | cons lexeme rest ih =>
    cases lexeme <;>
      simp only [separators_from_separator, separators_from_other, ne_eq, reduceCtorEq, not_false_eq_true,
        Nat.add_assoc, ih,
        List.map_cons]

/-- A text that ends where a statement does: whatever follows is walked on its own. -/
def Boundary (lexer : Lexer) (text : List UInt8) : Prop :=
  ∀ tail, walkSeparators lexer (text ++ tail) =
    walkSeparators lexer text ++ (walkSeparators lexer tail).map (text.length + ·)

theorem boundary_nil (lexer : Lexer) : Boundary lexer [] := by
  intro tail
  simp [walkSeparators, walk, walkFrom]

theorem boundary_separator (reads : Reads lexer (front ++ .separator :: rest)) :
    Boundary lexer (spell (front ++ [.separator])) := by
  intro tail
  obtain ⟨lexemes, rfl, tailReads⟩ := exists_lexemes lexer tail
  have whole := reads_cut front reads tailReads
  have alone := reads_cut front reads (.nil : Reads lexer [])
  have covers : spell (front ++ .separator :: lexemes) =
      spell (front ++ [.separator]) ++ spell lexemes := by simp
  rw [← covers, walk_separators_eq whole, walk_separators_eq alone, walk_separators_eq tailReads,
    List.append_cons, separators_from_append, ← separators_from_shift]
  simp

theorem separators_from_split (lexemes : List Lexeme)
    (within : (separatorsFrom index lexemes)[i]? = some position) :
    ∃ front rest, lexemes = front ++ .separator :: rest ∧
      position = index + (spell front).length ∧ (separatorsFrom index front).length = i := by
  induction lexemes generalizing index i with
  | nil => cases within
  | cons lexeme lexemes ih =>
    by_cases is : lexeme = .separator
    · subst is
      cases i with
      | zero => exact ⟨[], lexemes, rfl, by simpa [separators_from_separator, eq_comm] using within, rfl⟩
      | succ i =>
        obtain ⟨front, rest, rfl, rfl, length⟩ := ih (by simpa [separators_from_separator] using within)
        refine ⟨.separator :: front, rest, rfl, ?_, by simp [separators_from_separator, length]⟩
        simp only [spell, flat_cons, Lexeme.bytes, List.length_append, List.length_singleton]
        omega
    · have skips (others : List Lexeme) := separators_from_other index others is
      obtain ⟨front, rest, rfl, rfl, length⟩ := ih (skips lexemes ▸ within)
      refine ⟨lexeme :: front, rest, rfl, ?_, by rw [skips, length]⟩
      simp [Nat.add_assoc]

/-- Cut a text behind its separator `i`. -/
theorem separators_split (lexer : Lexer) (text : List UInt8)
    (within : (walkSeparators lexer text)[i]? = some position) :
    ∃ front rest, text = front ++ rest ∧ Boundary lexer front ∧ front.length = position + 1 ∧
      walkSeparators lexer front = (walkSeparators lexer text).take (i + 1) := by
  obtain ⟨lexemes, rfl, reads⟩ := exists_lexemes lexer text
  rw [walk_separators_eq reads] at within ⊢
  obtain ⟨front, rest, rfl, rfl, length⟩ := separators_from_split lexemes within
  refine ⟨spell (front ++ [.separator]), spell rest, by simp, boundary_separator reads,
    by simp [Lexeme.bytes], ?_⟩
  rw [walk_separators_eq (reads_cut front reads .nil), separators_from_append,
    separators_from_append, ← length]
  simp [separators_from_separator, List.take_append, List.take_of_length_le]

theorem boundary_of_last (last : (walkSeparators lexer text).getLast? = some position)
    (ends : position + 1 = text.length) : Boundary lexer text := by
  rw [List.getLast?_eq_getElem?] at last
  obtain ⟨front, rest, rfl, boundary, length, -⟩ := separators_split lexer text last
  obtain rfl : rest = [] := by
    simp only [List.length_append] at ends
    exact List.eq_nil_of_length_eq_zero (by omega)
  simpa using boundary

end QueryHive.Sql
