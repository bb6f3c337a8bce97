import QueryHive.Sql.Splice

/-! Leading trivia on lexemes. `leading_keyword` has a loop of its own over blanks, comments
and the openers of executable comments; what it skips is whole lexemes, and the keyword it
reads lies inside the lexeme it stops at. -/
namespace QueryHive.Sql
open Byte Library.Munch

/-- What is left of a text once its leading trivia are skipped. -/
def afterTrivia : List Lexeme → List Lexeme
  | [] => []
  | .code [byte] :: rest => if isAsciiWhitespace byte then afterTrivia rest else .code [byte] :: rest
  | .code _ :: rest => afterTrivia rest
  | .region .lineComment _ :: rest | .region (.blockComment _) _ :: rest => afterTrivia rest
  | .unclosed (.blockComment _) _ :: rest => afterTrivia rest
  | lexeme :: rest => lexeme :: rest

def Lexeme.isTrivia (blank : UInt8 → Bool) : Lexeme → Bool
  | .code [byte] => blank byte
  | .code _ => true
  | .separator => blank semicolon
  | .region .lineComment _ | .region (.blockComment _) _ | .unclosed (.blockComment _) _ => true
  | _ => false

theorem region_trivia (blank : UInt8 → Bool) (state : State) (bytes : List UInt8) :
    (Lexeme.region state bytes).isTrivia blank = true ↔ state.kind = .lineComment ∨ state.kind = .blockComment := by
  cases state with
  | lineComment => exact iff_of_true rfl (.inl rfl)
  | blockComment depth => exact iff_of_true rfl (.inr rfl)
  | _ => exact iff_of_false Bool.false_ne_true (by rintro (line | block) <;> contradiction)

theorem unclosed_trivia (blank : UInt8 → Bool) (state : State) (bytes : List UInt8) :
    (Lexeme.unclosed state bytes).isTrivia blank = true ↔ state.kind = .blockComment := by
  cases state with
  | blockComment depth => exact iff_of_true rfl rfl
  | _ => exact iff_of_false Bool.false_ne_true (by rintro block; contradiction)

theorem line_kind (state : State) : state.kind = .lineComment ↔ state = .lineComment := by
  cases state <;> simp [State.kind]

theorem block_kind (state : State) : state.kind = .blockComment ↔ ∃ depth, state = .blockComment depth := by
  cases state <;> simp [State.kind]

theorem after_trivia_eq (lexemes : List Lexeme) :
    afterTrivia lexemes = lexemes.dropWhile (Lexeme.isTrivia isAsciiWhitespace) := by
  induction lexemes with
  | nil => rfl
  | cons lexeme rest ih =>
    rw [List.dropWhile_cons]
    cases lexeme with
    | code bytes =>
      rcases bytes with _ | ⟨byte, _ | ⟨second, more⟩⟩
      · exact ih
      · rw [afterTrivia, ih]
        rfl
      · exact ih
    | region state bytes => cases state <;> first | exact ih | rfl
    | unclosed state bytes => cases state <;> first | exact ih | rfl
    | word bytes => rfl
    | separator => rfl

def keywordAt (lexer : Lexer) (text : List UInt8) : Option (List UInt8) :=
  if lexer.postgres then
    match text with
    | [] => none
    | byte :: _ =>
      if isIdentStart lexer byte then some (asciiUppercase (text.takeWhile (isIdentCont lexer)))
      else none
  else
    match text.takeWhile fun byte => isAsciiAlphabetic byte || byte == underscore with
    | [] => none
    | word => some (asciiUppercase word)

theorem leading_keyword_eq (lexer : Lexer) (text : List UInt8) :
    leadingKeyword lexer text = keywordAt lexer (skipTrivia lexer isAsciiWhitespace 0 text) := rfl

theorem block_end_eq (lexer : Lexer) (depth skip : Nat) (text : List UInt8) :
    blockEnd lexer depth skip text =
      (regionLength lexer (.blockComment depth) skip text).getD text.length := by
  have counted (width : Option Nat) (length : Nat) :
      1 + width.getD length = (width.map (· + 1)).getD (length + 1) := by
    cases width <;> simp [Nat.add_comm]
  induction text generalizing depth skip with
  | nil => simp [blockEnd, regionLength]
  | cons byte rest ih =>
    cases skip with
    | succ skip => simp only [blockEnd, regionLength, ih, counted, List.length_cons]
    | zero =>
      simp only [blockEnd, regionLength, regionStep]
      split
      · simp only [ih, counted, List.length_cons, Nat.add_one_sub_one]
      split
      · split
        · simp
        · simp only [ih, counted, List.length_cons, Nat.add_one_sub_one]
      · simp only [ih, counted, List.length_cons, Nat.sub_self]

theorem block_arm (arm : Arm lexer byte rest (.enters (.blockComment depth) width)) :
    byte = slash ∧ rest.head? = some star ∧ executableCommentOpener lexer (byte :: rest) = none ∧
      depth = 1 ∧ width = 2 := by
  cases arm with
  | block is next plain => exact ⟨is, next, plain, rfl, rfl⟩
  | prefixed start run quotes =>
    obtain ⟨-, -, ⟨-, -, kind⟩ | ⟨-, -, kind⟩⟩ := string_prefix_cases quotes <;> simp at kind

/-- A comment at the front of a text, for the loop over trivia. -/
theorem comment_end_block {rest : List UInt8} (is : byte = slash) (next : rest.head? = some star) :
    commentEnd lexer (byte :: rest) =
      some ((regionLength lexer (.blockComment 1) 1 rest).getD rest.length + 1) := by
  subst is
  obtain ⟨rest, rfl⟩ := List.head?_eq_some_iff.mp next
  have counted (width : Option Nat) (length : Nat) :
      (width.map (· + 1)).getD (length + 1) = width.getD length + 1 := by
    cases width <;> simp
  simp [commentEnd, dashes_at_dash, block_end_eq, regionLength, counted]
  omega

theorem comment_end_line (taken : munch lexer byte (body ++ tail) = .region .lineComment (byte :: body))
    (ends : ∀ value, tail.head? = some value → endsLine lexer value = true) :
    commentEnd lexer (byte :: (body ++ tail)) = some (body.length + 1) := by
  obtain ⟨width, arm⟩ := munch_begins taken
  have stops (line : List UInt8) (inLine : ∀ value ∈ line, endsLine lexer value = false) :
      (line ++ tail).takeWhile (!endsLine lexer ·) = line := by
    rw [List.takeWhile_append_of_pos (by simpa using inLine)]
    cases tail with
    | nil => simp
    | cons value rest => simp [ends value rfl]
  obtain ⟨rfl, line, rfl, inLine⟩ | ⟨rfl, opens, inLine⟩ := line_comment_bytes taken
  · cases arm with
    | dashes opens =>
      rw [commentEnd, if_pos opens]
      simp only [List.cons_append, List.drop_succ_cons, List.drop_zero, stops line inLine,
        List.length_cons]
      congr 1
      omega
    | hash is => simp at is
    | prefixed start => simp [isIdentStart, isAsciiAlphabetic] at start
  · simp [commentEnd, dashes_at_dash, opens, stops body inLine, Nat.add_comm]

theorem comment_end_none (dashes : dashOpensComment lexer (byte :: rest) = false)
    (hash : ¬(byte = Byte.hash ∧ lexer.hashComment = true))
    (block : ¬(byte = slash ∧ rest.head? = some star)) :
    commentEnd lexer (byte :: rest) = none := by
  have pair : (byte :: rest).take 2 ≠ [slash, star] := by
    rcases rest with _ | ⟨second, rest⟩
    · simp
    · simpa using block
  simp only [commentEnd, dashes, pair, List.head?_cons, Option.some.injEq]
  grind

theorem skip_trivia_skip (lexer : Lexer) (blank : UInt8 → Bool) (front rest : List UInt8) :
    skipTrivia lexer blank front.length (front ++ rest) = skipTrivia lexer blank 0 rest := by
  induction front with
  | nil => rfl
  | cons byte front ih => exact ih

/-- The blanks of a caller: white space, and for some of them the separator. -/
def Soft (blank : UInt8 → Bool) : Prop :=
  ∀ byte, blank byte = true → isAsciiWhitespace byte = true ∨ byte = semicolon

section
variable {blank : UInt8 → Bool}

theorem Soft.sharp (soft : Soft blank) (other : isAsciiWhitespace byte = false) (separates : byte ≠ semicolon) :
    blank byte = false := by
  by_contra is
  rcases soft byte (by simpa using is) with white | rfl
  · simp [other] at white
  · exact separates rfl

theorem skip_trivia_opener (sharp : blank byte = false)
    (opener : executableCommentOpener lexer (byte :: (body ++ rest)) = some (body.length + 1)) :
    skipTrivia lexer blank 0 (byte :: (body ++ rest)) = skipTrivia lexer blank 0 rest := by
  rw [skipTrivia, ← skip_trivia_skip lexer _ body rest]
  simp [sharp, opener]

theorem skip_trivia_comment (sharp : blank byte = false)
    (opener : executableCommentOpener lexer (byte :: (body ++ rest)) = none)
    (comment : commentEnd lexer (byte :: (body ++ rest)) = some (body.length + 1)) :
    skipTrivia lexer blank 0 (byte :: (body ++ rest)) = skipTrivia lexer blank 0 rest := by
  rw [skipTrivia, ← skip_trivia_skip lexer _ body rest]
  simp [sharp, opener, comment]

theorem skip_trivia_stops (sharp : blank byte = false)
    (opener : executableCommentOpener lexer (byte :: rest) = none)
    (comment : commentEnd lexer (byte :: rest) = none) :
    skipTrivia lexer blank 0 (byte :: rest) = byte :: rest := by
  simp [skipTrivia, sharp, opener, comment]

theorem skip_trivia_sharp (sharp : blank byte = false) (plain : byte ≠ slash ∧ byte ≠ dash ∧ byte ≠ hash) :
    skipTrivia lexer blank 0 (byte :: rest) = byte :: rest :=
  skip_trivia_stops sharp (opener_at_slash plain.1)
    (comment_end_none (dashes_at_dash plain.2.1) (fun h => plain.2.2 h.1) (fun h => plain.1 h.1))

end

theorem ident_sharp (start : isIdentStart lexer byte = true) :
    isAsciiWhitespace byte = false ∧ byte ≠ semicolon ∧ byte ≠ slash ∧ byte ≠ dash ∧ byte ≠ hash := by
  obtain ⟨-, -, -, dashed, hashed, slashed, separates, -⟩ := ident_start_plain start
  refine ⟨?_, separates, slashed, dashed, hashed⟩
  by_contra blank
  have known : byte = space ∨ byte = tab ∨ byte = newline ∨ byte = formFeed ∨
      byte = carriageReturn := by
    simp only [isAsciiWhitespace] at blank
    grind
  rcases known with rfl | rfl | rfl | rfl | rfl <;> simp [isIdentStart, isAsciiAlphabetic] at start

/-- A region that is no comment begins with a byte the loop stops at. -/
theorem quoted_sharp (arm : Arm lexer byte rest (.enters state width))
    (quoted : state.kind ≠ .lineComment ∧ state.kind ≠ .blockComment) :
    isAsciiWhitespace byte = false ∧ byte ≠ semicolon ∧ byte ≠ slash ∧ byte ≠ dash ∧ byte ≠ hash := by
  cases arm with
  | quoted is => simp [is, isAsciiWhitespace]
  | doubleQuoted is => simp [is, isAsciiWhitespace]
  | backtick is => simp [is, isAsciiWhitespace]
  | dashes => simp [State.kind] at quoted
  | hash => simp [State.kind] at quoted
  | block => simp [State.kind] at quoted
  | dollar is => simp [is, isAsciiWhitespace]
  | prefixed start => exact ident_sharp start

theorem skip_trivia_reads (soft : Soft blank) (reads : Reads lexer lexemes) :
    skipTrivia lexer blank 0 (spell lexemes) = spell (lexemes.dropWhile (Lexeme.isTrivia blank)) := by
  induction reads with
  | nil => rfl
  | @cons lexeme byte body rest starts taken reads ih =>
    replace taken : munch lexer byte (body ++ spell rest) = lexeme := taken
    have begins := munch_begins taken
    obtain ⟨follows, -⟩ := munch_exchange taken starts
    have covers : spell (lexeme :: rest) = byte :: (body ++ spell rest) := by simp [starts]
    -- A lexeme that is trivia takes the loop to what follows, and any other stops it.
    have skips (is : lexeme.isTrivia blank = true)
        (passed : skipTrivia lexer blank 0 (byte :: (body ++ spell rest)) = skipTrivia lexer blank 0 (spell rest)) :
        skipTrivia lexer blank 0 (spell (lexeme :: rest)) =
          spell ((lexeme :: rest).dropWhile (Lexeme.isTrivia blank)) := by
      rw [covers, passed, ih, List.dropWhile_cons_of_pos is]
    have stops (other : lexeme.isTrivia blank = false)
        (stays : skipTrivia lexer blank 0 (byte :: (body ++ spell rest)) = byte :: (body ++ spell rest)) :
        skipTrivia lexer blank 0 (spell (lexeme :: rest)) =
          spell ((lexeme :: rest).dropWhile (Lexeme.isTrivia blank)) := by
      rw [covers, stays, List.dropWhile_cons_of_neg (Bool.eq_false_iff.mp other), covers]
    cases lexeme with
    | separator =>
      obtain ⟨rfl, rfl⟩ : semicolon = byte ∧ [] = body := by simpa [Lexeme.bytes] using starts
      cases separates : blank semicolon with
      | true =>
        refine skips separates ?_
        rw [skipTrivia, if_pos separates]
        rfl
      | false => exact stops separates (skip_trivia_sharp separates (by decide))
    | word run =>
      obtain ⟨width, arm⟩ := begins
      cases arm with
      | word start _ _ =>
        obtain ⟨white, separates, plain⟩ := ident_sharp start
        exact stops rfl (skip_trivia_sharp (soft.sharp white separates) plain)
    | code bytes =>
      obtain ⟨width, arm⟩ := begins
      obtain rfl : bytes = byte :: body := starts
      cases arm with
      | opener opens =>
        have same : (body ++ spell rest).take (width - 1) = body := by
          simpa [munch, (Arm.opener opens).eq] using taken
        obtain ⟨rfl, two, -, -⟩ := opener_exchange opens same
        have slashed : byte = slash := by
          by_contra elsewhere
          simp [opener_at_slash elsewhere] at opens
        obtain ⟨second, more, rfl⟩ : ∃ second more, body = second :: more := by
          cases body with
          | nil => simp at two
          | cons second more => exact ⟨second, more, rfl⟩
        have sharp : blank byte = false := soft.sharp (by simp [slashed, isAsciiWhitespace]) (by simp [slashed])
        exact skips rfl (skip_trivia_opener sharp opens)
      | code quotes plain dashes hash block statement tag start =>
        obtain rfl : body = [] := by
          simpa [munch, (Arm.code quotes plain dashes hash block statement tag start).eq,
            eq_comm] using taken
        cases is : blank byte with
        | true =>
          refine skips is ?_
          rw [skipTrivia, if_pos is]
          rfl
        | false => exact stops is (skip_trivia_stops is plain (comment_end_none dashes hash block))
    | region state bytes =>
      obtain ⟨width, arm⟩ := begins
      obtain rfl : bytes = byte :: body := starts
      by_cases line : state = .lineComment
      · subst line
        have opener : executableCommentOpener lexer (byte :: (body ++ spell rest)) = none := by
          obtain ⟨rfl, -⟩ | ⟨rfl, -⟩ := line_comment_bytes taken <;> exact opener_at_slash (by decide)
        have sharp : blank byte = false := by
          obtain ⟨rfl, -⟩ | ⟨rfl, -⟩ := line_comment_bytes taken <;> exact soft.sharp rfl (by decide)
        exact skips rfl (skip_trivia_comment sharp opener (comment_end_line taken follows))
      by_cases block : ∃ depth, state = .blockComment depth
      · obtain ⟨depth, rfl⟩ := block
        obtain ⟨rfl, next, opener, rfl, rfl⟩ := block_arm arm
        have ends : regionLength lexer (.blockComment 1) 1 (body ++ spell rest) = some body.length := by
          have begins := arm.entered
          unfold munch at taken
          rw [arm.eq] at taken
          dsimp only at taken
          split at taken
          · next length ends =>
            have same : (body ++ spell rest).take length = body := by simpa using taken
            have bounds := region_length_bounds begins.1 ends begins.2.2
            have := congrArg List.length same
            rw [List.length_take_of_le bounds.2] at this
            rwa [this] at ends
          · simp at taken
        have comment : commentEnd lexer (slash :: (body ++ spell rest)) = some (body.length + 1) := by
          rw [comment_end_block rfl next, ends]
          rfl
        exact skips rfl (skip_trivia_comment (soft.sharp rfl (by decide)) opener comment)
      · have quoted : state.kind ≠ .lineComment ∧ state.kind ≠ .blockComment :=
          ⟨(line_kind state).not.mpr line, (block_kind state).not.mpr block⟩
        obtain ⟨white, separates, plain⟩ := quoted_sharp arm quoted
        have read : (Lexeme.region state (byte :: body)).isTrivia blank = false :=
          Bool.eq_false_iff.mpr fun is => ((region_trivia blank state _).mp is).elim quoted.1 quoted.2
        exact stops read (skip_trivia_sharp (soft.sharp white separates) plain)
    | unclosed state bytes =>
      obtain ⟨width, arm⟩ := begins
      obtain rfl : bytes = byte :: body := starts
      obtain rfl : rest = [] := reads.flat_eq_nil follows
      by_cases block : ∃ depth, state = .blockComment depth
      · obtain ⟨depth, rfl⟩ := block
        obtain ⟨rfl, next, opener, rfl, rfl⟩ := block_arm arm
        have ends : regionLength lexer (.blockComment 1) 1 (body ++ spell []) = none := by
          unfold munch at taken
          rw [arm.eq] at taken
          dsimp only at taken
          split at taken
          · simp at taken
          · assumption
        have comment : commentEnd lexer (slash :: (body ++ spell [])) = some (body.length + 1) := by
          rw [comment_end_block rfl next, ends]
          simp
        exact skips rfl (skip_trivia_comment (soft.sharp rfl (by decide)) opener comment)
      · have line : state ≠ .lineComment := by
          rintro rfl
          exact munch_line_comment_ends taken
        have quoted : state.kind ≠ .lineComment ∧ state.kind ≠ .blockComment :=
          ⟨(line_kind state).not.mpr line, (block_kind state).not.mpr block⟩
        obtain ⟨white, separates, plain⟩ := quoted_sharp arm quoted
        have read : (Lexeme.unclosed state (byte :: body)).isTrivia blank = false :=
          Bool.eq_false_iff.mpr fun is => quoted.2 ((unclosed_trivia blank state _).mp is)
        exact stops read (skip_trivia_sharp (soft.sharp white separates) plain)

theorem skip_trivia_lexemes (reads : Reads lexer lexemes) :
    skipTrivia lexer isAsciiWhitespace 0 (spell lexemes) = spell (afterTrivia lexemes) := by
  rw [after_trivia_eq]
  exact skip_trivia_reads (fun _ is => .inl is) reads

/-- A run of bytes that all continue an identifier ends with a word. -/
theorem run_in_word {keep : UInt8 → Bool} (front : List UInt8)
    (kept : ∀ byte, keep byte = true → isIdentCont lexer byte = true)
    (stops : ∀ byte, tail.head? = some byte → isIdentCont lexer byte = false) :
    (front ++ tail).takeWhile keep = front.takeWhile keep := by
  induction front with
  | nil =>
    cases tail with
    | nil => rfl
    | cons byte rest =>
      have stop : keep byte = false := by
        by_contra goes
        simp [kept byte (by simpa using goes)] at stops
      simp [stop]
  | cons byte front ih => simp only [List.cons_append, List.takeWhile_cons, ih]

/-- What a lexeme begins with: a word, a byte that begins none, or the prefix of a string. -/
theorem lexeme_starts (taken : munch lexer byte (body ++ tail) = lexeme) (starts : lexeme.bytes = byte :: body) :
    (∃ bytes, lexeme = .word bytes) ∨ isIdentStart lexer byte = false ∨
      isIdentStart lexer byte = true ∧ ∃ word quoted, word = (byte :: (body ++ tail)).takeWhile (isIdentCont lexer) ∧
        stringPrefix lexer word ((byte :: (body ++ tail)).drop word.length) = some quoted := by
  have begins := munch_begins taken
  have region {state : State} {width : Nat} (arm : Arm lexer byte (body ++ tail) (.enters state width)) :
      isIdentStart lexer byte = false ∨
        isIdentStart lexer byte = true ∧ ∃ word quoted, word = (byte :: (body ++ tail)).takeWhile (isIdentCont lexer) ∧
          stringPrefix lexer word ((byte :: (body ++ tail)).drop word.length) = some quoted := by
    cases arm with
    | prefixed start run quotes => exact .inr ⟨start, _, _, run, quotes⟩
    | dashes opens =>
      obtain ⟨rfl, -⟩ := dashes_cases opens
      exact .inl (by simp [isIdentStart, isAsciiAlphabetic])
    | quoted is | doubleQuoted is | backtick is | hash is | block is | dollar is =>
      exact .inl (by simp [is, isIdentStart, isAsciiAlphabetic])
  cases lexeme with
  | word bytes => exact .inl ⟨bytes, rfl⟩
  | separator =>
    obtain ⟨rfl, -⟩ : semicolon = byte ∧ [] = body := by simpa [Lexeme.bytes] using starts
    exact .inr (.inl (by simp [isIdentStart, isAsciiAlphabetic]))
  | code bytes =>
    obtain ⟨width, arm⟩ := begins
    right; left
    cases arm with
    | opener opens =>
      obtain ⟨-, more, covers, -⟩ := opener_cases opens
      obtain ⟨rfl, -⟩ := List.cons.inj covers
      simp [isIdentStart, isAsciiAlphabetic]
    | code quotes plain dashes hash block statement tag start => exact start
  | region state bytes =>
    obtain ⟨width, arm⟩ := begins
    exact .inr (region arm)
  | unclosed state bytes =>
    obtain ⟨width, arm⟩ := begins
    exact .inr (region arm)

theorem keyword_at_lexeme (reads : Reads lexer (lexeme :: rest)) :
    keywordAt lexer (spell (lexeme :: rest)) = keywordAt lexer lexeme.bytes := by
  have follows := reads_follows reads
  have alphabetic (byte : UInt8) (is : (isAsciiAlphabetic byte || byte == underscore) = true) :
      isIdentCont lexer byte = true := by
    simp only [isIdentCont, isAsciiAlphanumeric]
    grind
  cases reads with
  | @cons _ byte body _ starts taken reads =>
    replace taken : munch lexer byte (body ++ spell rest) = lexeme := taken
    have covers : spell (lexeme :: rest) = byte :: (body ++ spell rest) := by simp [starts]
    rw [covers, starts]
    have runs (same : ∀ keep : UInt8 → Bool, (∀ value, keep value = true → isIdentCont lexer value = true) →
        (byte :: (body ++ spell rest)).takeWhile keep = (byte :: body).takeWhile keep) :
        keywordAt lexer (byte :: (body ++ spell rest)) = keywordAt lexer (byte :: body) := by
      simp only [keywordAt, same _ fun _ is => is, same _ alphabetic]
    have sharp (start : isIdentStart lexer byte = false) :
        keywordAt lexer (byte :: (body ++ spell rest)) = keywordAt lexer (byte :: body) := by
      have letter : (isAsciiAlphabetic byte || byte == underscore) = false := by
        simp only [isIdentStart] at start
        grind
      simp only [keywordAt, start, Bool.false_eq_true, if_false, List.takeWhile_cons, letter]
    rcases lexeme_starts taken starts with ⟨bytes, rfl⟩ | plain | ⟨start, word, quoted, run, quotes⟩
    · exact runs fun keep kept => run_in_word (byte :: body) kept follows.1
    · exact sharp plain
    · obtain ⟨-, ⟨letter, rfl⟩, -⟩ := string_prefix_cases quotes
      rw [ident_run_cons start] at run
      have alone : [] = (body ++ spell rest).takeWhile (isIdentCont lexer) := (List.cons.inj run).2
      have stops (value : UInt8) (head : (body ++ spell rest).head? = some value) :
          isIdentCont lexer value = false := by
        obtain ⟨more, split⟩ := List.head?_eq_some_iff.mp head
        rw [split, List.takeWhile_cons] at alone
        by_contra goes
        simp [goes] at alone
      have inner (value : UInt8) (head : body.head? = some value) : isIdentCont lexer value = false := by
        obtain ⟨more, rfl⟩ := List.head?_eq_some_iff.mp head
        exact stops value rfl
      exact runs fun keep kept =>
        (run_in_word [byte] kept stops).trans (run_in_word [byte] kept inner).symm

end QueryHive.Sql
