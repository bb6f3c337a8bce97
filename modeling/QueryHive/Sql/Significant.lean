import QueryHive.Sql.Seams
import QueryHive.Sql.Trivia

/-! Where a text begins to say something. `first_significant` and `leading_keyword` skip blanks,
comments and the openers of executable comments with a loop of their own; the guard takes it that
they stop where the walk reads its first token. Both loops skip the same lexemes, and only a string
with a letter before its quote is a keyword to one and no word to the other. -/
namespace QueryHive.Sql
open Byte Library.Munch

/-- The blanks of `first_significant`. -/
def significantBlank (byte : UInt8) : Bool := isAsciiWhitespace byte || byte == semicolon

/-- Inside a comment that the walk reports. -/
def InComment (lexer : Lexer) (text : List UInt8) (place : Nat) : Prop :=
  ∃ kind start stop, .opaqueRegion kind start stop ∈ (walk lexer text).1 ∧
    (kind = .lineComment ∨ kind = .blockComment) ∧ start ≤ place ∧ place < stop

/-- The walk takes the opener of an executable comment here, and before it nothing but blanks,
separators, comments and other openers. -/
def LeadingOpener (lexer : Lexer) (text : List UInt8) (start stop : Nat) : Prop :=
  ∃ front bytes rest, Reads lexer (front ++ .code bytes :: rest) ∧ spell (front ++ .code bytes :: rest) = text ∧
    (∀ lexeme ∈ front, lexeme.isTrivia significantBlank = true) ∧
    executableCommentOpener lexer (bytes ++ spell rest) = some bytes.length ∧
    start = (spell front).length ∧ stop = start + bytes.length

/-- A byte that says nothing: white space, a separator, in a comment, or in a leading opener. -/
def Insignificant (lexer : Lexer) (text : List UInt8) (place : Nat) : Prop :=
  (∃ byte, text[place]? = some byte ∧ (isAsciiWhitespace byte = true ∨ byte = semicolon)) ∨
    InComment lexer text place ∨ ∃ start stop, LeadingOpener lexer text start stop ∧ start ≤ place ∧ place < stop

/-- The least place whose byte says something, or none where every byte says nothing. -/
def LeastSignificant (lexer : Lexer) (text : List UInt8) : Option Nat → Prop
  | some place =>
    place < text.length ∧ ¬Insignificant lexer text place ∧ ∀ before < place, Insignificant lexer text before
  | none => ∀ place < text.length, Insignificant lexer text place

def firstWord (events : List Event) : Option (Nat × Nat) :=
  events.findSome? fun
    | .word start stop => some (start, stop)
    | _ => none

/-- Where `leading_keyword` stops skipping. -/
def keywordStart (lexer : Lexer) (text : List UInt8) : Nat :=
  text.length - (skipTrivia lexer isAsciiWhitespace 0 text).length

/-- The leading keyword begins the first word, and is all of it for PostgreSQL. -/
def KeywordIsFirstWord (lexer : Lexer) (text : List UInt8) : Prop :=
  ∀ keyword, leadingKeyword lexer text = some keyword →
    ∃ stop, firstWord (walk lexer text).1 = some (keywordStart lexer text, stop) ∧
      keyword <+: asciiUppercase ((text.take stop).drop (keywordStart lexer text)) ∧
      (lexer.postgres = true → keyword = asciiUppercase ((text.take stop).drop (keywordStart lexer text)))

/-- A text that begins with one of PostgreSQL's string prefixes: `E'`, `B'`, `X'` or `U&'`. -/
def StringPrefixed (lexer : Lexer) (text : List UInt8) : Prop :=
  (stringPrefix lexer (text.takeWhile (isIdentCont lexer))
    (text.drop (text.takeWhile (isIdentCont lexer)).length)).isSome = true

/-- Behind its blanks, comments and openers the text begins with a string prefix. -/
def StringOpens (lexer : Lexer) (text : List UInt8) : Prop :=
  ∃ front rest, Reads lexer (front ++ rest) ∧ spell (front ++ rest) = text ∧
    (∀ lexeme ∈ front, lexeme.isTrivia isAsciiWhitespace = true) ∧ StringPrefixed lexer (spell rest)

theorem spell_append (front rest : List Lexeme) : spell (front ++ rest) = spell front ++ spell rest := flat_append

theorem mem_events (member : event ∈ eventsFrom index lexemes) :
    ∃ front lexeme rest, lexemes = front ++ lexeme :: rest ∧
      event ∈ eventsFrom (index + (spell front).length) [lexeme] := by
  induction lexemes generalizing index with
  | nil => cases member
  | cons lexeme rest ih =>
    have split := events_append index [lexeme] rest
    rw [List.singleton_append] at split
    rw [split] at member
    rcases List.mem_append.mp member with here | later
    · exact ⟨[], lexeme, rest, rfl, here⟩
    · obtain ⟨front, other, more, rfl, there⟩ := ih later
      refine ⟨lexeme :: front, other, more, rfl, ?_⟩
      rwa [spell_length, ← Nat.add_assoc, ← show (spell [lexeme]).length = lexeme.bytes.length by simp]

theorem place_unique {front front' : List Lexeme} (same : front ++ lexeme :: rest = front' ++ other :: rest')
    (low : (spell front).length ≤ place) (high : place < (spell front).length + lexeme.bytes.length)
    (low' : (spell front').length ≤ place) (high' : place < (spell front').length + other.bytes.length) :
    front = front' ∧ lexeme = other ∧ rest = rest' := by
  rcases List.append_eq_append_iff.mp same with ⟨middle, longer, split⟩ | ⟨middle, longer, split⟩
  all_goals
    cases middle with
    | nil =>
      obtain ⟨rfl, rfl⟩ := List.cons.inj split
      exact ⟨by rw [longer, List.append_nil], rfl, rfl⟩
    | cons first middle =>
      obtain ⟨rfl, -⟩ := List.cons.inj split
      have longer := congrArg (fun lexemes => (spell lexemes).length) longer
      simp only [spell_append, List.length_append, spell_length] at longer
      omega

theorem lexeme_at (lexemes : List Lexeme) (inside : place < (spell lexemes).length) :
    ∃ front lexeme rest, lexemes = front ++ lexeme :: rest ∧ (spell front).length ≤ place ∧
      place < (spell front).length + lexeme.bytes.length := by
  induction lexemes generalizing place with
  | nil => cases inside
  | cons lexeme rest ih =>
    rw [spell_length] at inside
    rcases Nat.lt_or_ge place lexeme.bytes.length with here | past
    · exact ⟨[], lexeme, rest, rfl, Nat.zero_le _, by simpa using here⟩
    · obtain ⟨front, other, more, rfl, low, high⟩ := @ih (place - lexeme.bytes.length) (by omega)
      exact ⟨lexeme :: front, other, more, rfl, by rw [spell_length]; omega, by rw [spell_length]; omega⟩

theorem byte_at (front : List Lexeme) (rest : List Lexeme) (starts : lexeme.bytes = byte :: body) :
    (spell (front ++ lexeme :: rest))[(spell front).length]? = some byte := by
  have text : spell (lexeme :: rest) = byte :: (body ++ spell rest) := by simp [starts]
  rw [spell_append, List.getElem?_append_right (Nat.le_refl _), Nat.sub_self, text, List.getElem?_cons_zero]

theorem code_cases (reads : Reads lexer (.code bytes :: rest)) :
    (∃ byte, bytes = [byte]) ∨ (executableCommentOpener lexer (bytes ++ spell rest) = some bytes.length ∧
      ∃ byte second more, bytes = byte :: second :: more) := by
  cases reads with
  | @cons _ byte body _ starts taken _ =>
    replace taken : munch lexer byte (body ++ spell rest) = .code bytes := taken
    obtain rfl : bytes = byte :: body := starts
    obtain ⟨width, arm⟩ := munch_begins taken
    cases arm with
    | opener opens =>
      have same : (body ++ spell rest).take (width - 1) = body := by simpa [munch, (Arm.opener opens).eq] using taken
      obtain ⟨rfl, two, -, -⟩ := opener_exchange opens same
      obtain ⟨second, more, rfl⟩ := List.exists_cons_of_length_pos (Nat.lt_of_lt_of_le (by decide) two)
      exact .inr ⟨opens, byte, second, more, rfl⟩
    | code quotes plain dashes hash block statement tag start =>
      left
      refine ⟨byte, ?_⟩
      simpa [munch, (Arm.code quotes plain dashes hash block statement tag start).eq, eq_comm] using taken

theorem comment_trivia (reads : Reads lexer (lexeme :: rest)) (blank : UInt8 → Bool)
    (member : .opaqueRegion kind start stop ∈ eventsFrom index [lexeme])
    (comment : kind = .lineComment ∨ kind = .blockComment) : lexeme.isTrivia blank = true := by
  cases lexeme with
  | region state bytes =>
    obtain ⟨rfl, -⟩ := Event.opaqueRegion.inj (List.mem_singleton.mp member)
    exact (region_trivia blank state bytes).mpr comment
  | unclosed state bytes =>
    obtain ⟨rfl, -⟩ := Event.opaqueRegion.inj (List.mem_singleton.mp member)
    have line : state ≠ .lineComment := by
      rintro rfl
      cases reads with
      | cons _ taken _ => exact munch_line_comment_ends taken
    exact (unclosed_trivia blank state bytes).mpr (comment.resolve_left ((line_kind state).not.mpr line))
  | word bytes => cases List.mem_singleton.mp member
  | separator => cases List.mem_singleton.mp member
  | code bytes => cases member

theorem significant_soft : Soft significantBlank := by
  intro byte is
  simpa [significantBlank] using is

/-- A lexeme that is no trivia begins with a byte that is neither white space nor a separator. -/
theorem stop_sharp (reads : Reads lexer (lexeme :: rest)) (stops : lexeme.isTrivia significantBlank = false) :
    ∃ byte body, lexeme.bytes = byte :: body ∧ isAsciiWhitespace byte = false ∧ byte ≠ semicolon := by
  cases reads with
  | @cons _ byte body _ starts taken _ =>
    refine ⟨byte, body, starts, ?_⟩
    replace taken : munch lexer byte (body ++ spell rest) = lexeme := taken
    have begins := munch_begins taken
    cases lexeme with
    | separator => cases stops
    | word run =>
      obtain ⟨width, arm⟩ := begins
      cases arm with
      | word start _ _ =>
        obtain ⟨white, separates, -⟩ := ident_sharp start
        exact ⟨white, separates⟩
    | code bytes =>
      obtain rfl : bytes = byte :: body := starts
      cases body with
      | nil =>
        have blank : significantBlank byte = false := stops
        simpa [significantBlank] using blank
      | cons second more => cases stops
    | region state bytes =>
      obtain ⟨width, arm⟩ := begins
      have quoted := not_or.mp fun comment => Bool.eq_false_iff.mp stops ((region_trivia _ state bytes).mpr comment)
      obtain ⟨white, separates, -⟩ := quoted_sharp arm quoted
      exact ⟨white, separates⟩
    | unclosed state bytes =>
      obtain ⟨width, arm⟩ := begins
      have line : state ≠ .lineComment := by
        rintro rfl
        exact munch_line_comment_ends taken
      have block := fun comment => Bool.eq_false_iff.mp stops ((unclosed_trivia _ state bytes).mpr comment)
      obtain ⟨white, separates, -⟩ := quoted_sharp arm ⟨(line_kind state).not.mpr line, block⟩
      exact ⟨white, separates⟩

theorem trivia_insignificant (reads : Reads lexer (front ++ rest))
    (trivial : ∀ lexeme ∈ front, lexeme.isTrivia significantBlank = true) (inside : place < (spell front).length) :
    Insignificant lexer (spell (front ++ rest)) place := by
  obtain ⟨before, lexeme, after, rfl, low, high⟩ := lexeme_at front inside
  have whole : before ++ lexeme :: after ++ rest = before ++ lexeme :: (after ++ rest) := List.append_assoc ..
  rw [whole] at reads ⊢
  have own : Reads lexer (lexeme :: (after ++ rest)) := reads.suffix
  have is := trivial lexeme (List.mem_append_right _ List.mem_cons_self)
  -- A byte alone is at the start of its lexeme.
  have alone (length : lexeme.bytes.length = 1) : place = (spell before).length := by omega
  -- A region is reported from the start of its lexeme to its end.
  have comment (state : State) (region : ∀ index, eventsFrom index [lexeme] =
      [.opaqueRegion state.kind index (index + lexeme.bytes.length)])
      (kind : state.kind = .lineComment ∨ state.kind = .blockComment) :
      Insignificant lexer (spell (before ++ lexeme :: (after ++ rest))) place := by
    refine .inr (.inl ⟨state.kind, (spell before).length, (spell before).length + lexeme.bytes.length, ?_,
      kind, low, high⟩)
    have split := events_append (0 + (spell before).length) [lexeme] (after ++ rest)
    rw [List.singleton_append] at split
    rw [walk_eq reads, events_append, split, region, Nat.zero_add]
    exact List.mem_append_right _ (List.mem_append_left _ List.mem_cons_self)
  cases lexeme with
  | word bytes => cases is
  | separator =>
    rw [alone rfl]
    exact .inl ⟨semicolon, byte_at before _ rfl, .inr rfl⟩
  | code bytes =>
    rcases code_cases own with ⟨byte, rfl⟩ | ⟨opens, -⟩
    · rw [alone rfl]
      refine .inl ⟨byte, byte_at before _ rfl, significant_soft byte is⟩
    · refine .inr (.inr ⟨_, _, ⟨before, bytes, after ++ rest, reads, rfl, fun lexeme member => ?_, opens, rfl,
        rfl⟩, low, high⟩)
      exact trivial lexeme (List.mem_append_left _ member)
  | region state bytes => exact comment state (fun _ => rfl) ((region_trivia _ state bytes).mp is)
  | unclosed state bytes => exact comment state (fun _ => rfl) (.inr ((unclosed_trivia _ state bytes).mp is))

theorem stop_significant (reads : Reads lexer (front ++ lexeme :: rest))
    (stops : lexeme.isTrivia significantBlank = false) :
    ¬Insignificant lexer (spell (front ++ lexeme :: rest)) (spell front).length := by
  have own : Reads lexer (lexeme :: rest) := reads.suffix
  obtain ⟨byte, body, starts, white, separates⟩ := stop_sharp own stops
  have positive : (spell front).length < (spell front).length + lexeme.bytes.length := by simp [starts]
  rintro (⟨other, there, blank⟩ | ⟨kind, start, stop, reported, comment, low, high⟩ | ⟨start, stop, opener, low, high⟩)
  · obtain rfl := Option.some.inj ((byte_at front rest starts).symm.trans there)
    rcases blank with is | is
    · simp [white] at is
    · exact separates is
  · rw [walk_eq reads] at reported
    obtain ⟨before, other, after, split, there⟩ := mem_events reported
    have bounds : start = (spell before).length ∧ stop = (spell before).length + other.bytes.length := by
      rw [Nat.zero_add] at there
      cases other with
      | code bytes => cases there
      | word bytes => cases List.mem_singleton.mp there
      | separator => cases List.mem_singleton.mp there
      | region state bytes =>
        obtain ⟨-, rfl, rfl⟩ := Event.opaqueRegion.inj (List.mem_singleton.mp there)
        exact ⟨rfl, rfl⟩
      | unclosed state bytes =>
        obtain ⟨-, rfl, rfl⟩ := Event.opaqueRegion.inj (List.mem_singleton.mp there)
        exact ⟨rfl, rfl⟩
    obtain ⟨rfl, rfl⟩ := bounds
    obtain ⟨-, rfl, -⟩ := place_unique split (Nat.le_refl _) positive low high
    rw [comment_trivia own significantBlank there comment] at stops
    cases stops
  · obtain ⟨before, bytes, after, reads', same, -, opens, rfl, rfl⟩ := opener
    have split := reads.unique reads' same.symm
    obtain ⟨-, rfl, rfl⟩ := place_unique split (Nat.le_refl _) positive low high
    obtain ⟨-, more, covers, width⟩ := opener_cases opens
    have long : 3 ≤ bytes.length := width ▸ Nat.le_add_right 3 _
    obtain ⟨first, second, third, rfl⟩ : ∃ first second third, bytes = first :: second :: third := by
      rcases bytes with _ | ⟨first, _ | ⟨second, third⟩⟩
      · simp at long
      · simp at long
      · exact ⟨first, second, third, rfl⟩
    cases stops

/-- The trivia at the front, and what the loop stops at. -/
theorem trivia_split (blank : UInt8 → Bool) (lexemes : List Lexeme) :
    ∃ front rest, lexemes = front ++ rest ∧ (∀ lexeme ∈ front, lexeme.isTrivia blank = true) ∧
      (∀ lexeme more, rest = lexeme :: more → lexeme.isTrivia blank = false) ∧
      lexemes.dropWhile (Lexeme.isTrivia blank) = rest := by
  refine ⟨lexemes.takeWhile (Lexeme.isTrivia blank), lexemes.dropWhile (Lexeme.isTrivia blank), ?_, ?_, ?_, rfl⟩
  · exact List.takeWhile_append_dropWhile.symm
  · exact fun lexeme member => List.mem_takeWhile_imp member
  · intro lexeme more same
    have head := List.head?_dropWhile_not (Lexeme.isTrivia blank) lexemes
    rw [same] at head
    exact head

theorem first_significant_least (lexer : Lexer) (text : List UInt8) :
    LeastSignificant lexer text (firstSignificant lexer text) := by
  obtain ⟨lexemes, rfl, reads⟩ := exists_lexemes lexer text
  have skipped := skip_trivia_reads significant_soft reads
  obtain ⟨front, behind, rfl, trivial, stops, same⟩ := trivia_split significantBlank lexemes
  rw [same] at skipped
  have before := fun place => @trivia_insignificant _ _ _ place reads trivial
  change skipTrivia lexer (fun byte => isAsciiWhitespace byte || byte == semicolon) 0 _ = _ at skipped
  rw [firstSignificant, skipped]
  cases behind with
  | nil =>
    intro place inside
    refine before place ?_
    rwa [List.append_nil] at inside
  | cons lexeme rest =>
    obtain ⟨byte, body, starts⟩ := reads_starts (reads.suffix : Reads lexer (lexeme :: rest))
    have text : spell (lexeme :: rest) = byte :: (body ++ spell rest) := by simp [starts]
    have place : (spell (front ++ lexeme :: rest)).length - (spell (lexeme :: rest)).length = (spell front).length := by
      rw [spell_append, List.length_append, Nat.add_sub_cancel]
    have inside : (spell front).length < (spell (front ++ lexeme :: rest)).length := by
      rw [spell_append, List.length_append, text]
      exact Nat.lt_add_of_pos_right (Nat.zero_lt_succ _)
    have tells := stop_significant reads (stops lexeme rest rfl)
    rw [text] at place ⊢
    dsimp only
    rw [place]
    exact ⟨inside, tells, before⟩

theorem keyword_at_none (start : isIdentStart lexer byte = false) : keywordAt lexer (byte :: body) = none := by
  have letter : (isAsciiAlphabetic byte || byte == underscore) = false := by
    simp only [isIdentStart] at start
    grind
  simp [keywordAt, start, letter]

theorem word_run (reads : Reads lexer (.word bytes :: rest)) :
    (∃ byte body, bytes = byte :: body ∧ isIdentStart lexer byte = true) ∧ ∀ byte ∈ bytes,
    isIdentCont lexer byte = true := by
  cases reads with
  | @cons _ byte body _ starts taken _ =>
    replace taken : munch lexer byte (body ++ spell rest) = .word bytes := taken
    obtain rfl : bytes = byte :: body := starts
    obtain ⟨width, arm⟩ := munch_begins taken
    cases arm with
    | @word word start run bare =>
      have same : (body ++ spell rest).take (word.length - 1) = body := by
        simpa [munch, (Arm.word start run bare).eq] using taken
      have first := @ident_run_cons lexer byte (body ++ spell rest) start
      have whole : (body ++ spell rest).takeWhile (isIdentCont lexer) = body := by
        rwa [run, first, List.length_cons, Nat.add_sub_cancel, take_run] at same
      refine ⟨⟨byte, body, rfl, start⟩, List.forall_mem_cons.mpr ⟨?_, (run_split whole).1⟩⟩
      have head : byte ∈ (byte :: (body ++ spell rest)).takeWhile (isIdentCont lexer) := first ▸ List.mem_cons_self
      exact List.mem_takeWhile_imp head

theorem keyword_cases (reads : Reads lexer (lexeme :: rest)) :
    (∃ bytes, lexeme = .word bytes) ∨ keywordAt lexer (spell (lexeme :: rest)) = none ∨
      StringPrefixed lexer (spell (lexeme :: rest)) := by
  have first := keyword_at_lexeme reads
  cases reads with
  | @cons _ byte body _ starts taken _ =>
    replace taken : munch lexer byte (body ++ spell rest) = lexeme := taken
    have covers : spell (lexeme :: rest) = byte :: (body ++ spell rest) := by simp [starts]
    rcases lexeme_starts taken starts with word | plain | ⟨-, word, quoted, run, quotes⟩
    · exact .inl word
    · rw [first, starts]
      exact .inr (.inl (keyword_at_none plain))
    · rw [StringPrefixed, covers, ← run, quotes]
      exact .inr (.inr rfl)

theorem prefix_letter (quotes : stringPrefix lexer [letter] after = some (quoted, width)) :
    isIdentStart lexer letter = true := by
  have letters : ∀ byte : UInt8, toAsciiLowercase byte = 0x65 ∨ toAsciiLowercase byte = 0x62 ∨
    toAsciiLowercase byte = 0x78 ∨
      toAsciiLowercase byte = 0x75 → isAsciiAlphabetic byte = true := by
    intro byte
    unfold toAsciiLowercase
    split
    · next upper => exact fun _ => by rw [isAsciiAlphabetic, upper, Bool.true_or]
    · rintro (rfl | rfl | rfl | rfl) <;> rfl
  have alphabetic : isAsciiAlphabetic letter = true := by
    refine letters letter ?_
    simp only [stringPrefix] at quotes
    grind
  simp [isIdentStart, alphabetic]

theorem prefixed_lexeme (reads : Reads lexer (lexeme :: rest))
    (prefixed : StringPrefixed lexer (spell (lexeme :: rest))) :
    (keywordAt lexer (spell (lexeme :: rest))).isSome = true ∧ (∀ blank, lexeme.isTrivia blank = false) ∧
      ∀ bytes, lexeme ≠ .word bytes := by
  cases reads with
  | @cons _ byte body _ starts taken _ =>
    replace taken : munch lexer byte (body ++ spell rest) = lexeme := taken
    have covers : spell (lexeme :: rest) = byte :: (body ++ spell rest) := by simp [starts]
    rw [StringPrefixed, covers] at prefixed
    obtain ⟨⟨quoted, width⟩, quotes⟩ := Option.isSome_iff_exists.mp prefixed
    obtain ⟨postgres, ⟨letter, run⟩, kinds⟩ := string_prefix_cases quotes
    have first : byte = letter := by
      rw [List.takeWhile_cons] at run
      split at run
      · exact (List.cons.inj run).1
      · cases run
    subst first
    rw [run] at quotes
    have start := prefix_letter quotes
    have arm : Arm lexer byte (body ++ spell rest) (.enters quoted ([byte].length + width)) :=
      .prefixed start run.symm quotes
    have other : quoted = .escapeQuoted ∨ quoted = .bitQuoted ∨ quoted = .unicodeQuoted := by
      rcases kinds with ⟨-, -, escape | bits⟩ | ⟨-, -, unicode⟩
      · exact .inl escape
      · exact .inr (.inl bits)
      · exact .inr (.inr unicode)
    refine ⟨?_, fun blank => ?_, ?_⟩
    · rw [covers, keywordAt, if_pos postgres]
      simp only [start, if_true]
      rfl
    · rw [← taken, munch, arm.eq]
      dsimp only
      rcases other with rfl | rfl | rfl <;> split <;> rfl
    · rintro bytes rfl
      rw [munch, arm.eq] at taken
      dsimp only at taken
      split at taken <;> cases taken

theorem first_word_behind (index : Nat) (rest : List Lexeme)
    (trivial : ∀ lexeme ∈ front, lexeme.isTrivia blank = true) :
    firstWord (eventsFrom index (front ++ rest)) = firstWord (eventsFrom (index + (spell front).length) rest) := by
  induction front generalizing index with
  | nil => rfl
  | cons lexeme front ih =>
    have is := trivial lexeme List.mem_cons_self
    have later := ih (index + lexeme.bytes.length) fun other member => trivial other (List.mem_cons_of_mem _ member)
    rw [Nat.add_assoc, ← spell_length] at later
    rw [← later]
    cases lexeme with
    | word bytes => cases is
    | _ => rfl

theorem keyword_behind (reads : Reads lexer (front ++ rest))
    (trivial : ∀ lexeme ∈ front, lexeme.isTrivia isAsciiWhitespace = true)
    (stops : ∀ lexeme more, rest = lexeme :: more → lexeme.isTrivia isAsciiWhitespace = false) :
    leadingKeyword lexer (spell (front ++ rest)) = keywordAt lexer (spell rest) ∧
      keywordStart lexer (spell (front ++ rest)) = (spell front).length ∧
      firstWord (walk lexer (spell (front ++ rest))).1 = firstWord (eventsFrom (spell front).length rest) := by
  have behind : (front ++ rest).dropWhile (Lexeme.isTrivia isAsciiWhitespace) = rest := by
    rw [List.dropWhile_append_of_pos trivial]
    cases rest with
    | nil => rfl
    | cons lexeme more => exact List.dropWhile_cons_of_neg (Bool.eq_false_iff.mp (stops lexeme more rfl))
  have skipped : skipTrivia lexer isAsciiWhitespace 0 (spell (front ++ rest)) = spell rest := by
    rw [skip_trivia_reads (fun _ is => .inl is) reads, behind]
  refine ⟨?_, ?_, ?_⟩
  · rw [leading_keyword_eq, skipped]
  · rw [keywordStart, skipped, spell_append, List.length_append, Nat.add_sub_cancel]
  · rw [walk_eq reads, first_word_behind 0 rest trivial, Nat.zero_add]

theorem keyword_of_word (reads : Reads lexer (front ++ .word bytes :: rest))
    (trivial : ∀ lexeme ∈ front, lexeme.isTrivia isAsciiWhitespace = true) :
    KeywordIsFirstWord lexer (spell (front ++ .word bytes :: rest)) := by
  obtain ⟨leads, place, word⟩ := keyword_behind reads trivial fun lexeme more same => by cases same; rfl
  have own : Reads lexer (.word bytes :: rest) := reads.suffix
  obtain ⟨⟨byte, body, rfl, start⟩, inside⟩ := word_run own
  have slice :
      ((spell (front ++ .word (byte :: body) :: rest)).take ((spell front).length + (byte :: body).length)).drop
      (spell front).length = byte :: body := by
    have text : spell (front ++ .word (byte :: body) :: rest) = spell front ++ ((byte :: body) ++ spell rest) := by
      rw [spell_append]
      rfl
    rw [text, List.take_length_add_append, List.drop_left, List.take_left' rfl]
  intro keyword leading
  rw [leads, keyword_at_lexeme own] at leading
  refine ⟨(spell front).length + (byte :: body).length, by rw [word, place]; rfl, ?_⟩
  rw [place, slice]
  change keywordAt lexer (byte :: body) = some keyword at leading
  unfold keywordAt at leading
  split at leading
  · next postgres =>
    have whole : (byte :: body).takeWhile (isIdentCont lexer) = byte :: body := List.takeWhile_eq_self_iff.mpr inside
    simp only [start, if_true, whole, Option.some.injEq] at leading
    rw [← leading]
    exact ⟨List.prefix_rfl, fun _ => rfl⟩
  · next other =>
    split at leading
    · cases leading
    · cases leading
      exact ⟨(List.takeWhile_prefix _).map _, fun postgres => absurd postgres other⟩

/-- A string with a prefix behind the trivia is a keyword and not the first word. -/
theorem keyword_of_prefix (reads : Reads lexer (front ++ rest))
    (trivial : ∀ lexeme ∈ front, lexeme.isTrivia isAsciiWhitespace = true)
    (prefixed : StringPrefixed lexer (spell rest)) :
    ¬KeywordIsFirstWord lexer (spell (front ++ rest)) := by
  cases rest with
  | nil => simp [StringPrefixed, stringPrefix] at prefixed
  | cons lexeme rest =>
    have own : Reads lexer (lexeme :: rest) := reads.suffix
    obtain ⟨known, other, noWord⟩ := prefixed_lexeme own prefixed
    obtain ⟨keyword, leading⟩ := Option.isSome_iff_exists.mp known
    obtain ⟨leads, place, word⟩ := keyword_behind reads trivial fun lexeme' more same => by cases same; exact other _
    intro agrees
    obtain ⟨stop, first, -⟩ := agrees keyword (leads.trans leading)
    rw [place, word] at first
    -- The first word is behind the string, and so at a later place.
    have later : firstWord (eventsFrom ((spell front).length + lexeme.bytes.length) rest) =
      some ((spell front).length, stop) := by
      rw [← first]
      cases lexeme with
      | word bytes => exact absurd rfl (noWord bytes)
      | _ => rfl
    obtain ⟨event, member, found⟩ := List.exists_of_findSome?_eq_some later
    have long : ∀ lexeme ∈ rest, 0 < (Lexeme.bytes lexeme).length := by
      intro lexeme member
      obtain ⟨before, after, rfl⟩ := List.append_of_mem member
      have inner : Reads lexer (lexeme :: after) := own.tail.suffix
      obtain ⟨byte, body, starts⟩ := reads_starts inner
      exact starts ▸ Nat.zero_lt_succ _
    have bounds := (event_bounds long member).1
    obtain ⟨byte, body, starts⟩ := reads_starts own
    cases event with
    | word start stop' =>
      obtain ⟨rfl, rfl⟩ := Prod.mk.inj (Option.some.inj found)
      simp only [Event.start, starts, List.length_cons] at bounds
      omega
    | separator index => cases found
    | opaqueRegion kind start stop' => cases found

/-- `first_significant` always finds the first byte that says something; `leading_keyword` finds the
walk's first word exactly when the text does not open with a string that has a letter before its
quote. -/
theorem skippers_agree_iff (lexer : Lexer) (text : List UInt8) :
    LeastSignificant lexer text (firstSignificant lexer text) ∧ KeywordIsFirstWord lexer text ↔
      ¬StringOpens lexer text := by
  constructor
  · rintro ⟨-, agrees⟩ ⟨front, rest, reads, rfl, trivial, prefixed⟩
    exact keyword_of_prefix reads trivial prefixed agrees
  · intro plain
    refine ⟨first_significant_least lexer text, ?_⟩
    obtain ⟨lexemes, rfl, reads⟩ := exists_lexemes lexer text
    obtain ⟨front, rest, rfl, trivial, stops, -⟩ := trivia_split isAsciiWhitespace lexemes
    obtain ⟨leads, -, -⟩ := keyword_behind reads trivial stops
    cases rest with
    | nil =>
      intro keyword leading
      rw [leads] at leading
      cases postgres : lexer.postgres <;> simp [keywordAt, postgres] at leading
    | cons lexeme rest =>
      rcases keyword_cases (reads.suffix : Reads lexer (lexeme :: rest)) with ⟨bytes, rfl⟩ | none | prefixed
      · exact keyword_of_word reads trivial
      · intro keyword leading
        rw [leads, none] at leading
        cases leading
      · exact absurd ⟨front, lexeme :: rest, reads, rfl, trivial, prefixed⟩ plain

/-- `E'a'` has the keyword `E` and no word. -/
theorem escape_string_is_no_word :
    ¬∀ lexer text, LeastSignificant lexer text (firstSignificant lexer text) ∧ KeywordIsFirstWord lexer text := by
  intro claimed
  obtain ⟨stop, first, -⟩ := (claimed (.onPostgres false true) [0x45, quote, 0x61, quote]).2 [0x45] rfl
  cases first

end QueryHive.Sql
