import Mathlib.Data.List.TakeWhile
import QueryHive.Library.Munch
import QueryHive.Sql.Scan

/-! The walk as a reading by maximal munch. A lexeme is a whole opaque region, a bare word,
a separator, or one step of code; `munch` takes it off the front of a text. The walk of a
text is the list of its lexemes with their offsets. What a lexeme asks of the bytes behind
it is `Follows`, and two texts that agree there are cut alike. -/
namespace QueryHive.Sql
open Byte Library.Munch

inductive Lexeme where
  /-- A region that ended; a line comment is ended by the end of the text as well. -/
  | region (state : State) (bytes : List UInt8)
  /-- A region that runs to the end of the text. -/
  | unclosed (state : State) (bytes : List UInt8)
  | word (bytes : List UInt8)
  | separator
  /-- One byte of code, or the opener of an executable comment. -/
  | code (bytes : List UInt8)
  deriving DecidableEq, Repr

def Lexeme.bytes : Lexeme → List UInt8
  | .region _ bytes | .unclosed _ bytes | .word bytes | .code bytes => bytes
  | .separator => [semicolon]

/-- The bytes up to where the region read in `state` ends, past `skip` bytes already taken. -/
def regionLength (lexer : Lexer) (state : State) (skip : Nat) : List UInt8 → Option Nat
  | [] => if state = .lineComment then some 0 else none
  | byte :: rest =>
    match skip with
    | skip + 1 => (regionLength lexer state skip rest).map (· + 1)
    | 0 =>
      match regionStep lexer state byte rest with
      | .inside state width => (regionLength lexer state (width - 1) rest).map (· + 1)
      | .closes width => some width
      | .endsLine => some 0

def munch (lexer : Lexer) (byte : UInt8) (rest : List UInt8) : Lexeme :=
  match normalStep lexer byte rest with
  | .enters state width =>
    match regionLength lexer state (width - 1) rest with
    | some length => .region state (byte :: rest.take length)
    | none => .unclosed state (byte :: rest)
  | .separator => .separator
  | .word width => .word (byte :: rest.take (width - 1))
  | .code width => .code (byte :: rest.take (width - 1))

/-- `lexemes` are the lexemes of their own text. -/
abbrev Reads (lexer : Lexer) : List Lexeme → Prop := Reading Lexeme.bytes (munch lexer)

abbrev spell (lexemes : List Lexeme) : List UInt8 := flat Lexeme.bytes lexemes

/-- What the walk reports for lexemes that begin at `index`. -/
def eventsFrom (index : Nat) : List Lexeme → List Event
  | [] => []
  | lexeme :: rest =>
    let stop := index + lexeme.bytes.length
    match lexeme with
    | .region state _ | .unclosed state _ =>
      .opaqueRegion state.kind index stop :: eventsFrom stop rest
    | .word _ => .word index stop :: eventsFrom stop rest
    | .separator => .separator index :: eventsFrom stop rest
    | .code _ => eventsFrom stop rest

def endOf (lexemes : List Lexeme) : EndState :=
  match lexemes.getLast? with
  | some (.region .lineComment _) => .openRegion .lineComment
  | some (.unclosed state _) => .openRegion state.kind
  | _ => .normal

/-! ### One step of the walk -/

/-- The arm `normalStep` takes at a byte, with what decides it. -/
inductive Arm (lexer : Lexer) (byte : UInt8) (rest : List UInt8) : NormalStep → Prop where
  | quoted (is : byte = quote) : Arm lexer byte rest (.enters .singleQuoted 1)
  | doubleQuoted (is : byte = doubleQuote) : Arm lexer byte rest (.enters .doubleQuoted 1)
  | backtick (is : byte = backtick) (quotes : lexer.backtickQuotes = true) :
      Arm lexer byte rest (.enters .backtickQuoted 1)
  | opener (opens : executableCommentOpener lexer (byte :: rest) = some width) :
      Arm lexer byte rest (.code width)
  | dashes (opens : dashOpensComment lexer (byte :: rest) = true) :
      Arm lexer byte rest (.enters .lineComment 2)
  | hash (is : byte = Byte.hash) (opens : lexer.hashComment = true) :
      Arm lexer byte rest (.enters .lineComment 1)
  | block (is : byte = slash) (next : rest.head? = some star)
      (plain : executableCommentOpener lexer (byte :: rest) = none) :
      Arm lexer byte rest (.enters (.blockComment 1) 2)
  | separator (is : byte = semicolon) : Arm lexer byte rest .separator
  | dollar (is : byte = Byte.dollar) (quotes : lexer.dollarQuotes = true)
      (tagged : readDollarTag lexer rest = some tag) :
      Arm lexer byte rest (.enters (.dollarQuoted tag) tag.length)
  | prefixed (start : isIdentStart lexer byte = true)
      (run : word = (byte :: rest).takeWhile (isIdentCont lexer))
      (quotes : stringPrefix lexer word ((byte :: rest).drop word.length) = some (quoted, width)) :
      Arm lexer byte rest (.enters quoted (word.length + width))
  | word (start : isIdentStart lexer byte = true)
      (run : word = (byte :: rest).takeWhile (isIdentCont lexer))
      (bare : stringPrefix lexer word ((byte :: rest).drop word.length) = none) :
      Arm lexer byte rest (.word word.length)
  | code (quotes : byte ≠ quote ∧ byte ≠ doubleQuote ∧ ¬(byte = Byte.backtick ∧ lexer.backtickQuotes))
      (plain : executableCommentOpener lexer (byte :: rest) = none)
      (dashes : dashOpensComment lexer (byte :: rest) = false)
      (hash : ¬(byte = Byte.hash ∧ lexer.hashComment))
      (block : ¬(byte = slash ∧ rest.head? = some star)) (statement : byte ≠ semicolon)
      (tag : byte = Byte.dollar → lexer.dollarQuotes → readDollarTag lexer rest = none)
      (start : isIdentStart lexer byte = false) :
      Arm lexer byte rest (.code 1)

theorem normal_step_arm (lexer : Lexer) (byte : UInt8) (rest : List UInt8) :
    Arm lexer byte rest (normalStep lexer byte rest) := by
  unfold normalStep
  split
  · exact .quoted ‹_›
  split
  · exact .doubleQuoted ‹_›
  split
  · next h => exact .backtick h.1 h.2
  split
  · exact .opener ‹_›
  split
  · exact .dashes ‹_›
  split
  · next h => exact .hash h.1 h.2
  split
  · next h => exact .block h.1 h.2 ‹_›
  split
  · exact .separator ‹_›
  split
  · next h =>
    split
    · exact .dollar h.1 h.2 ‹_›
    · refine .code ⟨‹_›, ‹_›, ‹_›⟩ ‹_› (Bool.not_eq_true _ ▸ ‹_›) ‹_› ‹_› ‹_› (fun _ _ => ‹_›) ?_
      simp [h.1, isIdentStart, isAsciiAlphabetic]
  next noTag =>
  split
  · next start =>
    dsimp only
    split
    · exact .prefixed start rfl ‹_›
    · exact .word start rfl ‹_›
  · next start =>
    exact .code ⟨‹_›, ‹_›, ‹_›⟩ ‹_› (Bool.not_eq_true _ ▸ ‹_›) ‹_› ‹_› ‹_›
      (fun is quotes => absurd ⟨is, quotes⟩ noTag) (by simpa using start)

/-- An identifier byte opens nothing else. -/
theorem ident_start_plain (start : isIdentStart lexer byte = true) :
    byte ≠ quote ∧ byte ≠ doubleQuote ∧ byte ≠ backtick ∧ byte ≠ dash ∧ byte ≠ hash ∧
      byte ≠ slash ∧ byte ≠ semicolon ∧ byte ≠ dollar := by
  refine ⟨?_, ?_, ?_, ?_, ?_, ?_, ?_, ?_⟩ <;> rintro rfl <;>
    simp [isIdentStart, isAsciiAlphabetic] at start

theorem opener_at_slash (elsewhere : byte ≠ slash) :
    executableCommentOpener lexer (byte :: rest) = none := by
  unfold executableCommentOpener
  grind

theorem dashes_at_dash (elsewhere : byte ≠ dash) :
    dashOpensComment lexer (byte :: rest) = false := by
  unfold dashOpensComment
  grind

theorem Arm.eq (arm : Arm lexer byte rest step) : normalStep lexer byte rest = step := by
  cases arm with
  | quoted is => simp [normalStep, is]
  | doubleQuoted is => simp [normalStep, is]
  | backtick is quotes => simp [normalStep, is, quotes]
  | opener opens =>
    have is : byte = slash := by
      by_contra elsewhere
      simp [opener_at_slash elsewhere] at opens
    subst is
    simp only [normalStep, opens]
    simp
  | dashes opens =>
    have is : byte = dash := by
      by_contra elsewhere
      simp [dashes_at_dash elsewhere] at opens
    subst is
    simp only [normalStep, opens, opener_at_slash (by decide : dash ≠ slash)]
    simp
  | hash is opens =>
    subst is
    simp [normalStep, opens, opener_at_slash, dashes_at_dash]
  | block is next plain =>
    subst is
    simp only [normalStep, plain, next, dashes_at_dash (by decide : slash ≠ dash)]
    simp
  | separator is =>
    subst is
    simp [normalStep, opener_at_slash, dashes_at_dash]
  | dollar is quotes tagged =>
    subst is
    simp [normalStep, opener_at_slash, dashes_at_dash, quotes, tagged]
  | prefixed start run quotes =>
    obtain ⟨plain, double, tick, dashed, hashed, slashed, separates, dollar⟩ := ident_start_plain start
    subst run
    simp [normalStep, start, plain, double, tick, dashes_at_dash dashed, hashed,
      opener_at_slash slashed, slashed, separates, dollar, quotes]
  | word start run bare =>
    obtain ⟨plain, double, tick, dashed, hashed, slashed, separates, dollar⟩ := ident_start_plain start
    subst run
    simp [normalStep, start, plain, double, tick, dashes_at_dash dashed, hashed,
      opener_at_slash slashed, slashed, separates, dollar, bare]
  | code quotes plain dashes hash block statement tag start =>
    simp only [normalStep, quotes, plain, dashes, hash, block, statement, start]
    grind

/-- A byte that opens nothing, wherever it stands. -/
def PlainCode (lexer : Lexer) (byte : UInt8) : Prop :=
  byte ≠ quote ∧ byte ≠ doubleQuote ∧ byte ≠ backtick ∧ byte ≠ slash ∧ byte ≠ dash ∧
    byte ≠ hash ∧ byte ≠ semicolon ∧ byte ≠ dollar ∧ isIdentStart lexer byte = false

theorem PlainCode.step (plain : PlainCode lexer byte) : normalStep lexer byte rest = .code 1 := by
  obtain ⟨quoted, double, tick, slashed, dashed, hashed, separates, dollar, start⟩ := plain
  exact (Arm.code ⟨quoted, double, fun h => tick h.1⟩ (opener_at_slash slashed)
    (dashes_at_dash dashed) (fun h => hashed h.1) (fun h => slashed h.1) separates
    (fun h => absurd h dollar) start).eq

theorem plain_of_space (blank : isSpace byte = true) : PlainCode lexer byte := by
  have known : byte = space ∨ byte = tab ∨ byte = newline ∨ byte = formFeed ∨
      byte = carriageReturn ∨ byte = verticalTab := by
    simp only [isSpace, isAsciiWhitespace] at blank
    grind
  rcases known with rfl | rfl | rfl | rfl | rfl | rfl <;>
    simp [PlainCode, isIdentStart, isAsciiAlphabetic]

theorem plain_of_ends_line (ends : endsLine lexer byte = true) : PlainCode lexer byte := by
  apply plain_of_space
  simp only [endsLine, isSpace, isAsciiWhitespace] at ends ⊢
  grind

theorem read_tag_split (read : readTag lexer first rest = some tag) :
    tag ≠ [] ∧ ∃ tail, rest = tag ++ tail := by
  induction rest generalizing first tag with
  | nil => simp [readTag] at read
  | cons byte rest ih =>
    unfold readTag at read
    split at read
    · next is =>
      obtain rfl := Option.some.inj read
      exact ⟨by simp, rest, by simp [is]⟩
    split at read
    · obtain ⟨inner, innerRead, rfl⟩ := Option.map_eq_some_iff.mp read
      obtain ⟨-, tail, rfl⟩ := ih innerRead
      exact ⟨by simp, tail, by simp⟩
    · simp at read

theorem dollar_tag_split (read : readDollarTag lexer rest = some tag) :
    ∃ body tail, tag = dollar :: body ∧ rest = body ++ tail := by
  obtain ⟨body, inner, rfl⟩ := Option.map_eq_some_iff.mp read
  obtain ⟨-, tail, rfl⟩ := read_tag_split inner
  exact ⟨body, tail, rfl, rfl⟩

theorem ident_run_cons (start : isIdentStart lexer byte = true) :
    (byte :: rest).takeWhile (isIdentCont lexer) = byte :: rest.takeWhile (isIdentCont lexer) := by
  have continues : isIdentCont lexer byte = true := by
    simp only [isIdentStart, isIdentCont, isAsciiAlphanumeric] at *
    grind
  simp [continues]

/-- A string prefix is one letter of PostgreSQL's, and the quote is behind it. -/
theorem string_prefix_cases (quotes : stringPrefix lexer word after = some (quoted, width)) :
    lexer.postgres = true ∧ (∃ letter, word = [letter]) ∧
      ((∃ tail, after = quote :: tail) ∧ width = 1 ∧ (quoted = .escapeQuoted ∨ quoted = .bitQuoted) ∨
        (∃ tail, after = ampersand :: quote :: tail) ∧ width = 2 ∧ quoted = .unicodeQuoted) := by
  unfold stringPrefix at quotes
  split at quotes
  · next letter =>
    have pairs : after.take 2 = [ampersand, quote] → ∃ tail, after = ampersand :: quote :: tail := by
      rcases after with _ | ⟨first, _ | ⟨second, tail⟩⟩ <;> simp
    split_ifs at quotes with other escape next bits next unicode next <;>
      simp only [Option.some.injEq, Prod.mk.injEq] at quotes <;> obtain ⟨rfl, rfl⟩ := quotes
    · exact ⟨by simpa using other, ⟨letter, rfl⟩, .inl ⟨List.head?_eq_some_iff.mp next, by simp⟩⟩
    · exact ⟨by simpa using other, ⟨letter, rfl⟩, .inl ⟨List.head?_eq_some_iff.mp next, by simp⟩⟩
    · exact ⟨by simpa using other, ⟨letter, rfl⟩, .inr ⟨pairs next, by simp⟩⟩
  · simp at quotes

/-- The states the walk enters: never `normal`, and no dollar tag is empty. -/
def State.Entered : State → Prop
  | .normal => False
  | .dollarQuoted tag => tag ≠ []
  | _ => True

/-- A region is entered by a known state, and the opening bytes are there. -/
theorem Arm.entered (arm : Arm lexer byte rest (.enters state width)) :
    state.Entered ∧ 1 ≤ width ∧ width - 1 ≤ rest.length := by
  cases arm with
  | quoted => exact ⟨trivial, by simp⟩
  | doubleQuoted => exact ⟨trivial, by simp⟩
  | backtick => exact ⟨trivial, by simp⟩
  | dashes opens =>
    refine ⟨trivial, by simp, ?_⟩
    cases rest with
    | nil => simp [dashOpensComment] at opens
    | cons => simp
  | hash => exact ⟨trivial, by simp⟩
  | block _ next =>
    refine ⟨trivial, by simp, ?_⟩
    cases rest with
    | nil => simp at next
    | cons => simp
  | dollar _ _ tagged =>
    obtain ⟨body, tail, rfl, rfl⟩ := dollar_tag_split tagged
    exact ⟨by simp [State.Entered], by simp, by simp⟩
  | prefixed start run quotes =>
    obtain ⟨-, ⟨letter, rfl⟩, after⟩ := string_prefix_cases quotes
    rcases after with ⟨⟨tail, behind⟩, rfl, kinds⟩ | ⟨⟨tail, behind⟩, rfl, rfl⟩ <;>
      simp only [List.length_singleton, List.drop_succ_cons, List.drop_zero] at behind
    · subst behind
      rcases kinds with rfl | rfl <;> exact ⟨trivial, by simp⟩
    · subst behind
      exact ⟨trivial, by simp⟩

/-! ### Regions -/

theorem region_length_skip (lexer : Lexer) (state : State) (skip : Nat) (text : List UInt8)
    (within : skip ≤ text.length) :
    regionLength lexer state skip text =
      (regionLength lexer state 0 (text.drop skip)).map (· + skip) := by
  induction skip generalizing text with
  | zero => simp
  | succ skip ih =>
    cases text with
    | nil => simp at within
    | cons byte rest =>
      rw [regionLength, ih rest (by simpa using within), Option.map_map]
      rfl

/-- How many bytes close a region: none of a line comment's, which ends before its newline. -/
def State.closeWidth : State → Nat
  | .lineComment => 0
  | .blockComment _ => 2
  | .dollarQuoted tag => tag.length
  | _ => 1

/-- What a region that ended asks of the bytes behind it. -/
def CloseFollows (lexer : Lexer) (state : State) (tail : List UInt8) : Prop :=
  match state with
  | .singleQuoted | .escapeQuoted | .unicodeQuoted =>
    tail.head? ≠ some quote ∧ stringContinuation lexer tail = none
  | .bitQuoted => stringContinuation lexer tail = none
  | .doubleQuoted => tail.head? ≠ some doubleQuote
  | .backtickQuoted => tail.head? ≠ some backtick
  | .lineComment => ∀ byte, tail.head? = some byte → endsLine lexer byte = true
  | _ => True

theorem continuation_positive (read : continuationFrom lexer phase text = some width) :
    1 ≤ width := by
  cases text with
  | nil => simp [continuationFrom] at read
  | cons byte rest =>
    have step (more : Option Nat) (is : more.map (· + 1) = some width) : 1 ≤ width := by
      obtain ⟨inner, -, rfl⟩ := Option.map_eq_some_iff.mp is
      omega
    cases phase <;> simp only [continuationFrom] at read <;> grind

/-- A continuation is read from the bytes it takes and no others. -/
theorem continuation_exchange (front : List UInt8)
    (read : continuationFrom lexer phase (front ++ tail) = some width)
    (within : width ≤ front.length) :
    continuationFrom lexer phase (front ++ other) = some width := by
  induction front generalizing phase width with
  | nil =>
    have positive := continuation_positive read
    simp at within
    omega
  | cons byte rest ih =>
    have step (next : ContinuationPhase)
        (more : (continuationFrom lexer next (rest ++ tail)).map (· + 1) = some width) :
        rest ≠ [] ∧ (continuationFrom lexer next (rest ++ other)).map (· + 1) = some width := by
      obtain ⟨inner, innerRead, rfl⟩ := Option.map_eq_some_iff.mp more
      have positive := continuation_positive innerRead
      refine ⟨?_, by rw [ih innerRead (by simpa using within)]; rfl⟩
      rintro rfl
      simp at within
      omega
    have heads : rest ≠ [] → (rest ++ tail).head? = (rest ++ other).head? := by
      cases rest <;> simp
    cases phase <;> simp only [List.cons_append, continuationFrom] at read ⊢ <;> grind

theorem region_step_stays (entered : state.Entered)
    (inside : regionStep lexer state byte rest = .inside next width) :
    next.Entered ∧ next.closeWidth = state.closeWidth ∧ next.kind = state.kind ∧ 1 ≤ width ∧
      CloseFollows lexer next = CloseFollows lexer state ∧ (next = .lineComment → width = 1) := by
  cases state <;> simp only [regionStep, closingQuote] at inside <;>
    grind [State.Entered, State.closeWidth, State.kind, CloseFollows]

theorem region_step_closes (entered : state.Entered)
    (closes : regionStep lexer state byte rest = .closes width) :
    width = state.closeWidth ∧ 1 ≤ width ∧ width - 1 ≤ rest.length ∧
      CloseFollows lexer state (rest.drop (width - 1)) := by
  have head (value : UInt8) (is : rest.head? = some value) : 1 ≤ rest.length := by
    cases rest <;> simp at is ⊢
  have tagged (tag : List UInt8) (is : tag.isPrefixOf (byte :: rest) = true) :
      tag.length ≤ rest.length + 1 := by
    simpa using (List.isPrefixOf_iff_prefix.mp is).length_le
  cases state <;> simp only [regionStep, closingQuote] at closes <;>
    grind [State.Entered, State.closeWidth, CloseFollows]

private theorem prefix_in_front (fits : List.length tag ≤ List.length front) :
    tag.isPrefixOf (front ++ tail : List UInt8) = tag.isPrefixOf front := by
  rw [Bool.eq_iff_iff, List.isPrefixOf_iff_prefix, List.isPrefixOf_iff_prefix]
  constructor
  · exact fun is => List.prefix_of_prefix_length_le is (List.prefix_append front tail) fits
  · exact fun is => is.trans (List.prefix_append front tail)

private theorem closing_quote_exchange
    (inside : closingQuote lexer state (front ++ tail) = .inside next width)
    (within : width - 1 ≤ front.length) :
    front ≠ [] ∧ closingQuote lexer state (front ++ other) = .inside next width := by
  unfold closingQuote stringContinuation at inside ⊢
  split at inside
  · next taken read =>
    split at read
    · obtain ⟨rfl, rfl⟩ := RegionStep.inside.inj inside
      have positive := continuation_positive read
      refine ⟨?_, by rw [if_pos ‹_›, continuation_exchange front read (by omega)]⟩
      rintro rfl
      simp at within
      omega
    · simp at read
  · simp at inside

/-- A step that stays inside looks no further than the end of its region. -/
theorem region_step_exchange (entered : state.Entered)
    (inside : regionStep lexer state byte (front ++ tail) = .inside next width)
    (within : width - 1 + state.closeWidth ≤ front.length) :
    regionStep lexer state byte (front ++ other) = .inside next width := by
  have heads : front ≠ [] → (front ++ tail).head? = (front ++ other).head? := by
    cases front <;> simp
  have quoted : closingQuote lexer state (front ++ tail) = .inside next width →
      front ≠ [] ∧ closingQuote lexer state (front ++ other) = .inside next width :=
    fun more => closing_quote_exchange more (by omega)
  have some_front : 1 ≤ front.length → front ≠ [] := List.ne_nil_of_length_pos
  cases state with
  | normal => exact entered.elim
  | lineComment => simpa only [regionStep] using inside
  | dollarQuoted tag =>
    have prefixes : tag.isPrefixOf (byte :: (front ++ tail)) =
        tag.isPrefixOf (byte :: (front ++ other)) := by
      simp only [State.closeWidth] at within
      rw [← List.cons_append, ← List.cons_append, prefix_in_front, prefix_in_front] <;>
        simp only [List.length_cons] <;> omega
    simp only [regionStep, ← prefixes] at inside ⊢
    exact inside
  | _ =>
    simp only [State.closeWidth] at within
    simp only [regionStep] at inside ⊢
    grind

theorem region_step_closes_exchange
    (closes : regionStep lexer state byte (front ++ tail) = .closes (front.length + 1))
    (entered : state.Entered) (follows : CloseFollows lexer state other) :
    regionStep lexer state byte (front ++ other) = .closes (front.length + 1) := by
  have width := (region_step_closes entered closes).1
  cases state with
  | normal => exact entered.elim
  | lineComment => simp [State.closeWidth] at width
  | blockComment depth =>
    obtain ⟨second, rfl⟩ := List.length_eq_one_iff.mp (by simpa [State.closeWidth] using width)
    simp only [regionStep, List.cons_append, List.head?_cons] at closes ⊢
    grind
  | dollarQuoted tag =>
    simp only [State.closeWidth] at width
    simp only [regionStep] at closes ⊢
    rw [← List.cons_append, prefix_in_front (by simp; omega)] at closes ⊢
    exact closes
  | _ =>
    obtain rfl : front = [] := by simpa [State.closeWidth] using width
    simp only [regionStep, closingQuote, CloseFollows, List.nil_append, List.length_nil] at *
    grind

theorem region_step_ends_line (ends : regionStep lexer state byte rest = .endsLine) :
    state = .lineComment ∧ endsLine lexer byte = true := by
  cases state <;> simp only [regionStep, closingQuote] at ends <;> grind

theorem region_length_overrun (past : text.length < skip) (other : state ≠ .lineComment) :
    regionLength lexer state skip text = none := by
  induction text generalizing skip with
  | nil => simp [regionLength, other]
  | cons byte rest ih =>
    cases skip with
    | zero => simp at past
    | succ skip => simp [regionLength, ih (by simpa using past)]

/-- A region that ends takes its closing bytes, inside the text. -/
theorem region_length_bounds (entered : state.Entered)
    (ends : regionLength lexer state skip text = some length) (within : skip ≤ text.length) :
    skip + state.closeWidth ≤ length ∧ length ≤ text.length := by
  induction text generalizing state skip length with
  | nil =>
    obtain rfl : skip = 0 := by simpa using within
    unfold regionLength at ends
    split at ends
    · next is =>
      obtain rfl := Option.some.inj ends
      simp [is, State.closeWidth]
    · simp at ends
  | cons byte rest ih =>
    unfold regionLength at ends
    cases skip with
    | succ skip =>
      obtain ⟨inner, innerEnds, rfl⟩ := Option.map_eq_some_iff.mp ends
      have bounds := ih entered innerEnds (by simpa using within)
      simp only [List.length_cons]
      omega
    | zero =>
      dsimp only at ends
      split at ends
      · next next width step =>
        obtain ⟨inner, innerEnds, rfl⟩ := Option.map_eq_some_iff.mp ends
        obtain ⟨nextEntered, sameWidth, -, positive, -, line⟩ := region_step_stays entered step
        by_cases fits : width - 1 ≤ rest.length
        · have bounds := ih nextEntered innerEnds fits
          simp only [List.length_cons]
          omega
        · have unended : regionLength lexer next (width - 1) rest = none :=
            region_length_overrun (by omega) (fun is => by have := line is; omega)
          simp [unended] at innerEnds
      · next width step =>
        obtain rfl := Option.some.inj ends
        obtain ⟨is, -, fits, -⟩ := region_step_closes entered step
        simp only [List.length_cons]
        omega
      · next step =>
        obtain rfl := Option.some.inj ends
        simp [(region_step_ends_line step).1, State.closeWidth]

theorem region_length_exchange (body : List UInt8) (entered : state.Entered)
    (ends : regionLength lexer state skip (body ++ tail) = some body.length)
    (within : skip ≤ body.length) :
    CloseFollows lexer state tail ∧ ∀ other, CloseFollows lexer state other →
      regionLength lexer state skip (body ++ other) = some body.length := by
  induction body generalizing state skip with
  | nil =>
    obtain rfl : skip = 0 := by simpa using within
    have closeWidth := (region_length_bounds entered ends (by simp)).1
    have is : state = .lineComment := by
      cases state with
      | lineComment => rfl
      | normal => exact entered.elim
      | dollarQuoted tag =>
        exact absurd (List.eq_nil_of_length_eq_zero (by simpa [State.closeWidth] using closeWidth)) entered
      | _ => simp [State.closeWidth] at closeWidth
    subst is
    have here (other : List UInt8) : regionLength lexer .lineComment 0 other = some 0 ↔
        CloseFollows lexer .lineComment other := by
      cases other with
      | nil => simp [regionLength, CloseFollows]
      | cons byte rest =>
        by_cases ending : endsLine lexer byte = true <;>
          simp [regionLength, regionStep, CloseFollows, ending]
    exact ⟨(here tail).mp (by simpa using ends), fun other => (here other).mpr⟩
  | cons byte rest ih =>
    cases skip with
    | succ skip =>
      simp only [List.cons_append, regionLength, List.length_cons, Option.map_eq_some_iff,
        Nat.add_right_cancel_iff, exists_eq_right] at ends ⊢
      exact ih entered ends (by simpa using within)
    | zero =>
      simp only [List.cons_append, regionLength] at ends ⊢
      split at ends
      · next next width step =>
        obtain ⟨inner, innerEnds, same⟩ := Option.map_eq_some_iff.mp ends
        obtain rfl : inner = rest.length := by simpa using same
        obtain ⟨nextEntered, sameWidth, -, positive, closes, line⟩ := region_step_stays entered step
        have fits : width - 1 ≤ (rest ++ tail).length := by
          by_contra past
          rw [region_length_overrun (by omega) (fun is => by have := line is; omega)] at innerEnds
          simp at innerEnds
        have bounds := region_length_bounds nextEntered innerEnds fits
        obtain ⟨follows, exchange⟩ := ih nextEntered innerEnds (by omega)
        rw [closes] at follows exchange
        refine ⟨follows, fun other allowed => ?_⟩
        rw [region_step_exchange entered step (by omega)]
        simp [exchange other allowed]
      · next width step =>
        obtain rfl : width = rest.length + 1 := by simpa using ends
        obtain ⟨-, -, -, follows⟩ := region_step_closes entered step
        refine ⟨by simpa using follows, fun other allowed => ?_⟩
        rw [region_step_closes_exchange step entered allowed]
        rfl
      · simp at ends

/-! ### What a lexeme asks of its tail -/

def Lexeme.Follows (lexer : Lexer) (tail : List UInt8) : Lexeme → Prop
  | .separator => True
  | .word run =>
    (∀ byte, tail.head? = some byte → isIdentCont lexer byte = false) ∧
      stringPrefix lexer run tail = none
  | .code [byte] =>
    executableCommentOpener lexer (byte :: tail) = none ∧
      dashOpensComment lexer (byte :: tail) = false ∧
      ¬(byte = slash ∧ tail.head? = some star) ∧
      (byte = dollar → lexer.dollarQuotes → readDollarTag lexer tail = none)
  | .code _ => ∀ byte, tail.head? = some byte → isAsciiDigit byte = false
  | .region state _ => CloseFollows lexer state tail
  | .unclosed _ _ => tail = []

theorem read_tag_exchange (read : readTag lexer first (front ++ tail) = some tag)
    (fits : tag.length ≤ front.length) : readTag lexer first (front ++ other) = some tag := by
  induction front generalizing first tag with
  | nil =>
    have nonempty := (read_tag_split read).1
    exact absurd (List.eq_nil_of_length_eq_zero (by simpa using fits)) nonempty
  | cons byte front ih =>
    simp only [List.cons_append, readTag] at read ⊢
    split at read
    · simpa [‹byte = dollar›] using read
    split at read
    · obtain ⟨inner, innerRead, rfl⟩ := Option.map_eq_some_iff.mp read
      rw [if_neg ‹_›, if_pos ‹_›, ih innerRead (by simpa using fits)]
      rfl
    · simp at read

theorem string_prefix_congr (quoted : after.head? = some quote ↔ other.head? = some quote)
    (unicode : after.take 2 = [ampersand, quote] ↔ other.take 2 = [ampersand, quote]) :
    stringPrefix lexer word after = stringPrefix lexer word other := by
  simp only [stringPrefix, quoted, unicode]

/-- An identifier run stops at the same place before any tail that stops it. -/
theorem ident_run_exact (start : isIdentStart lexer byte = true) (front : List UInt8)
    (inside : ∀ value ∈ front, isIdentCont lexer value = true)
    (stops : ∀ value, tail.head? = some value → isIdentCont lexer value = false) :
    (byte :: (front ++ tail)).takeWhile (isIdentCont lexer) = byte :: front := by
  rw [ident_run_cons start, List.takeWhile_append_of_pos inside]
  cases tail with
  | nil => simp
  | cons value rest => simp [stops value rfl]

/-- A region is entered on its own bytes; a line comment, on what lets it end. -/
theorem Arm.enters_exchange (arm : Arm lexer byte (body ++ tail) (.enters state width))
    (within : width - 1 + state.closeWidth ≤ body.length)
    (follows : state = .lineComment → CloseFollows lexer state other) :
    Arm lexer byte (body ++ other) (.enters state width) := by
  have heads : body ≠ [] → (body ++ tail).head? = (body ++ other).head? := by
    cases body <;> simp
  cases arm with
  | quoted is => exact .quoted is
  | doubleQuoted is => exact .doubleQuoted is
  | backtick is quotes => exact .backtick is quotes
  | hash is opens => exact .hash is opens
  | dashes opens =>
    refine .dashes ?_
    rcases body with _ | ⟨second, _ | ⟨third, body⟩⟩
    · simp [State.closeWidth] at within
    · replace follows := follows rfl
      simp only [List.cons_append, List.nil_append, dashOpensComment, CloseFollows] at opens follows ⊢
      cases other with
      | nil => grind
      | cons third rest =>
        have ends := follows third rfl
        have blank : isAsciiWhitespace third = true := by
          simp only [endsLine, isAsciiWhitespace] at ends ⊢
          grind
        grind
    · simpa [dashOpensComment] using opens
  | block is next plain =>
    simp only [State.closeWidth] at within
    refine .block is ((heads (List.ne_nil_of_length_pos (by omega))).symm.trans next) ?_
    rcases body with _ | ⟨second, _ | ⟨third, body⟩⟩
    · simp at within
    · simp at within
    · simp only [List.cons_append, executableCommentOpener] at plain ⊢
      grind
  | dollar is quotes tagged =>
    refine .dollar is quotes ?_
    obtain ⟨rest, read, rfl⟩ := Option.map_eq_some_iff.mp tagged
    have fits : rest.length ≤ body.length := by simp [State.closeWidth] at within; omega
    simp [readDollarTag, read_tag_exchange read fits]
  | @prefixed word quoted width start run quotes =>
    obtain ⟨-, ⟨letter, rfl⟩, behind⟩ := string_prefix_cases quotes
    rw [ident_run_cons start] at run
    obtain ⟨rfl, alone⟩ : letter = byte ∧ [] = (body ++ tail).takeWhile (isIdentCont lexer) := by
      simpa using run
    have long : 2 ≤ body.length := by
      rcases behind with ⟨-, rfl, rfl | rfl⟩ | ⟨-, rfl, rfl⟩ <;>
        simp only [State.closeWidth, List.length_singleton] at within <;> omega
    obtain ⟨second, third, body, rfl⟩ : ∃ second third rest, body = second :: third :: rest := by
      rcases body with _ | ⟨second, _ | ⟨third, rest⟩⟩
      · simp at long
      · simp at long
      · exact ⟨second, third, rest, rfl⟩
    have stops : isIdentCont lexer second = false := by
      simpa [List.takeWhile_cons] using alone
    refine .prefixed start ?_ ?_
    · exact (ident_run_exact start [] (by simp) (by simpa using stops)).symm
    · rw [← quotes]
      exact string_prefix_congr (by simp) (by simp)

theorem take_run {keep : UInt8 → Bool} {text : List UInt8} :
    text.take (text.takeWhile keep).length = text.takeWhile keep :=
  (List.prefix_iff_eq_take.mp (List.takeWhile_prefix keep)).symm

theorem run_split {keep : UInt8 → Bool} {front tail : List UInt8}
    (run : (front ++ tail).takeWhile keep = front) :
    (∀ value ∈ front, keep value = true) ∧
      ∀ value, tail.head? = some value → keep value = false := by
  have inside : ∀ value ∈ front, keep value = true := fun value member =>
    List.mem_takeWhile_imp (run ▸ member)
  refine ⟨inside, fun value head => ?_⟩
  rw [List.takeWhile_append_of_pos inside, List.append_right_eq_self] at run
  cases tail with
  | nil => simp at head
  | cons first rest =>
    obtain rfl := Option.some.inj head
    by_contra kept
    simp [List.takeWhile_cons, kept] at run

theorem opener_cases (opens : executableCommentOpener lexer text = some width) :
    lexer.executableCode = true ∧ ∃ rest, text = slash :: star :: bang :: rest ∧
      width = 3 + (rest.takeWhile isAsciiDigit).length := by
  unfold executableCommentOpener at opens
  split at opens
  · next first second third rest =>
    split at opens
    · next is =>
      simp only [Bool.and_eq_true, beq_iff_eq] at is
      obtain ⟨⟨⟨executable, rfl⟩, rfl⟩, rfl⟩ := is
      exact ⟨executable, rest, rfl, (Option.some.inj opens).symm⟩
    · simp at opens
  · simp at opens

theorem opener_exchange (opens : executableCommentOpener lexer (byte :: (body ++ tail)) = some width)
    (starts : (body ++ tail).take (width - 1) = body) :
    width = body.length + 1 ∧ 2 ≤ body.length ∧
      (∀ value, tail.head? = some value → isAsciiDigit value = false) ∧
      ∀ other, (∀ value, other.head? = some value → isAsciiDigit value = false) →
        executableCommentOpener lexer (byte :: (body ++ other)) = some (body.length + 1) := by
  obtain ⟨executable, rest, covers, rfl⟩ := opener_cases opens
  obtain ⟨rfl, covered⟩ := List.cons.inj covers
  have width : 3 + (rest.takeWhile isAsciiDigit).length - 1 =
      (rest.takeWhile isAsciiDigit).length + 2 := by omega
  have bodyIs : body = star :: bang :: rest.takeWhile isAsciiDigit := by
    rw [← starts, covered, width]
    simp [take_run]
  rw [bodyIs] at covered
  have run : (rest.takeWhile isAsciiDigit ++ tail).takeWhile isAsciiDigit =
      rest.takeWhile isAsciiDigit := by
    rw [show rest.takeWhile isAsciiDigit ++ tail = rest by simpa using covered]
  obtain ⟨inside, stops⟩ := run_split run
  subst bodyIs
  refine ⟨by simp; omega, by simp, stops, fun other allowed => ?_⟩
  have again : (rest.takeWhile isAsciiDigit ++ other).takeWhile isAsciiDigit =
      rest.takeWhile isAsciiDigit := by
    rw [List.takeWhile_append_of_pos inside]
    cases other with
    | nil => simp
    | cons value rest => simp [allowed value rfl]
  simp [executableCommentOpener, executable, again]
  omega

theorem munch_exchange (taken : munch lexer byte (body ++ tail) = lexeme)
    (starts : lexeme.bytes = byte :: body) :
    lexeme.Follows lexer tail ∧ ∀ other, lexeme.Follows lexer other →
      munch lexer byte (body ++ other) = lexeme := by
  have arm := normal_step_arm lexer byte (body ++ tail)
  unfold munch at taken
  split at taken
  · next state width step =>
    rw [step] at arm
    obtain ⟨entered, positive, fits⟩ := arm.entered
    split at taken
    · next length ends =>
      subst taken
      have bounds := region_length_bounds entered ends fits
      obtain rfl : length = body.length := by
        have same : (body ++ tail).take length = body := by simpa [Lexeme.bytes] using starts
        have := congrArg List.length same
        rw [List.length_take, Nat.min_eq_left bounds.2] at this
        exact this
      obtain ⟨follows, exchange⟩ := region_length_exchange body entered ends (by omega)
      refine ⟨follows, fun other allowed => ?_⟩
      have step' := (arm.enters_exchange bounds.1 fun _ => allowed).eq
      simp [munch, step', exchange other allowed]
    · next unended =>
      subst taken
      obtain rfl : tail = [] := by simpa [Lexeme.bytes] using starts
      refine ⟨rfl, fun other allowed => ?_⟩
      obtain rfl : other = [] := allowed
      rw [munch, step]
      simp only [unended]
  · next step =>
    rw [step] at arm
    subst taken
    refine ⟨trivial, fun other _ => ?_⟩
    cases arm with
    | separator is => simp [munch, (Arm.separator is : Arm lexer byte (body ++ other) _).eq]
  · next width step =>
    rw [step] at arm
    subst taken
    cases arm with
    | @word run start is bare =>
      rw [ident_run_cons start] at is
      subst is
      simp only [Lexeme.bytes, List.length_cons, Nat.add_sub_cancel, take_run, List.cons.injEq,
        true_and] at starts
      obtain ⟨inside, stops⟩ := run_split starts
      rw [starts, List.length_cons, List.drop_succ_cons, List.drop_left] at bare
      simp only [List.length_cons, Nat.add_sub_cancel, starts]
      rw [List.take_left] at *
      refine ⟨⟨stops, bare⟩, fun other allowed => ?_⟩
      have run := ident_run_exact start body inside allowed.1
      have step' : normalStep lexer byte (body ++ other) = .word (byte :: body).length :=
        (Arm.word start run.symm (by simpa using allowed.2)).eq
      simp [munch, step']
  · next width step =>
    rw [step] at arm
    subst taken
    cases arm with
    | opener opens =>
      have same : (body ++ tail).take (width - 1) = body := by simpa [Lexeme.bytes] using starts
      obtain ⟨rfl, two, stops, exchange⟩ := opener_exchange opens same
      obtain ⟨second, third, body, rfl⟩ : ∃ second third rest, body = second :: third :: rest := by
        rcases body with _ | ⟨second, _ | ⟨third, rest⟩⟩
        · simp at two
        · simp at two
        · exact ⟨second, third, rest, rfl⟩
      rw [same]
      refine ⟨stops, fun other allowed => ?_⟩
      have step' := (Arm.opener (exchange other allowed)).eq
      rw [munch, step']
      simp
    | code quotes plain dashes hash block statement tag start =>
      obtain rfl : body = [] := by simpa [Lexeme.bytes] using starts.symm
      refine ⟨⟨plain, dashes, block, tag⟩, fun other allowed => ?_⟩
      obtain ⟨plain, dashes, block, tag⟩ := allowed
      have step' : normalStep lexer byte other = .code 1 :=
        (Arm.code quotes plain dashes hash block statement tag start).eq
      simp [munch, step']

theorem munch_progress (lexer : Lexer) : Progresses Lexeme.bytes (munch lexer) := by
  intro byte rest
  unfold munch
  split
  · split
    · next length _ => exact ⟨_, rest.drop length, rfl, (List.take_append_drop length rest).symm⟩
    · exact ⟨rest, [], rfl, by simp⟩
  · next step =>
    have arm := normal_step_arm lexer byte rest
    rw [step] at arm
    cases arm with
    | separator is => exact ⟨[], rest, by simp [Lexeme.bytes, is], rfl⟩
  · next width _ => exact ⟨_, rest.drop (width - 1), rfl, (List.take_append_drop _ rest).symm⟩
  · next width _ => exact ⟨_, rest.drop (width - 1), rfl, (List.take_append_drop _ rest).symm⟩

theorem exists_lexemes (lexer : Lexer) (text : List UInt8) :
    ∃ lexemes, spell lexemes = text ∧ Reads lexer lexemes :=
  exists_reading (munch_progress lexer) text

theorem reads_follows (reads : Reads lexer (lexeme :: rest)) : lexeme.Follows lexer (spell rest) := by
  cases reads with
  | cons starts taken _ => exact (munch_exchange taken starts).1

/-- The rest of a reading can be exchanged for any that the first lexeme can stand before. -/
theorem reads_exchange (reads : Reads lexer (lexeme :: rest)) (other : Reads lexer rest')
    (follows : lexeme.Follows lexer (spell rest')) : Reads lexer (lexeme :: rest') := by
  cases reads with
  | cons starts taken _ => exact .cons starts ((munch_exchange taken starts).2 _ follows) other

/-! ### The walk -/

theorem walk_from_skip (lexer : Lexer) (state : State) (start skip index : Nat)
    (front rest : List UInt8) (long : front.length = skip) :
    walkFrom lexer state start skip index (front ++ rest) =
      walkFrom lexer state start 0 (index + skip) rest := by
  induction front generalizing skip index with
  | nil => simp [← long]
  | cons byte front ih =>
    subst long
    rw [List.length_cons, List.cons_append, walkFrom, ih _ _ rfl]
    congr 1
    omega

/-- Outside a region the walk does not know where one began. -/
theorem walk_from_start (lexer : Lexer) (start other skip index : Nat) (text : List UInt8) :
    walkFrom lexer .normal start skip index text = walkFrom lexer .normal other skip index text := by
  induction text generalizing skip index with
  | nil => rfl
  | cons byte rest ih =>
    cases skip with
    | succ skip => exact ih skip (index + 1)
    | zero => simp only [walkFrom, if_true]

theorem entered_ne_normal (entered : State.Entered state) : state ≠ .normal := by
  rintro rfl
  exact entered

/-- The walk of a region that ends before the end of the text, or not at its line's. -/
theorem walk_region (start index : Nat) (entered : state.Entered)
    (ends : regionLength lexer state skip text = some length) (within : skip ≤ text.length)
    (closed : length < text.length ∨ state ≠ .lineComment) :
    walkFrom lexer state start skip index text =
      let walked := walkFrom lexer .normal 0 0 (index + length) (text.drop length)
      (.opaqueRegion state.kind start (index + length) :: walked.1, walked.2) := by
  induction text generalizing state skip index length with
  | nil =>
    obtain rfl : skip = 0 := by simpa using within
    unfold regionLength at ends
    grind
  | cons byte rest ih =>
    cases skip with
    | succ skip =>
      obtain ⟨inner, innerEnds, rfl⟩ := Option.map_eq_some_iff.mp ends
      rw [walkFrom, ih _ entered innerEnds (by simpa using within) (by simpa using closed)]
      simp only [List.drop_succ_cons, Nat.add_assoc, Nat.add_comm 1]
    | zero =>
      simp only [walkFrom, entered_ne_normal entered, if_false]
      simp only [regionLength] at ends
      split at ends
      · next next width step =>
        obtain ⟨inner, innerEnds, rfl⟩ := Option.map_eq_some_iff.mp ends
        obtain ⟨nextEntered, -, kind, positive, -, line⟩ := region_step_stays entered step
        have fits : width - 1 ≤ rest.length := by
          by_contra past
          rw [region_length_overrun (by omega) (fun is => by have := line is; omega)] at innerEnds
          simp at innerEnds
        have same : inner < rest.length ∨ next ≠ .lineComment := by
          rcases closed with short | other
          · exact .inl (by simpa using short)
          · right
            rintro rfl
            cases state <;> simp_all [State.kind]
        simp only [step, ih _ nextEntered innerEnds fits same, kind, List.drop_succ_cons,
          Nat.add_assoc, Nat.add_comm 1]
      · next width step =>
        obtain rfl := Option.some.inj ends
        obtain ⟨-, positive, fits, -⟩ := region_step_closes entered step
        obtain ⟨taken, rfl⟩ : ∃ taken, width = taken + 1 := ⟨width - 1, by omega⟩
        have skipped := walk_from_skip lexer .normal start taken (index + 1) (rest.take taken)
          (rest.drop taken) (List.length_take_of_le (by simpa using fits))
        rw [List.take_append_drop] at skipped
        simp only [step, Nat.add_sub_cancel, skipped, List.drop_succ_cons,
          walk_from_start lexer start 0, Nat.add_assoc, Nat.add_comm 1]
      · next step =>
        obtain rfl := Option.some.inj ends
        obtain ⟨rfl, ending⟩ := region_step_ends_line step
        simp only [step, Nat.add_zero, List.drop_zero]
        conv_rhs => rw [walkFrom]
        simp [(plain_of_ends_line ending).step, walk_from_start lexer start index]

theorem walk_open_region (start index : Nat) (entered : state.Entered)
    (unended : regionLength lexer state skip text = none ∨
      state = .lineComment ∧ regionLength lexer state skip text = some text.length) :
    walkFrom lexer state start skip index text =
      ([.opaqueRegion state.kind start (index + text.length)], .openRegion state.kind) := by
  induction text generalizing state skip index with
  | nil => simp [walkFrom, entered_ne_normal entered]
  | cons byte rest ih =>
    cases skip with
    | succ skip =>
      rw [walkFrom, ih _ entered (by simpa [regionLength] using unended)]
      simp only [List.length_cons, Nat.add_assoc, Nat.add_comm 1]
    | zero =>
      simp only [walkFrom, entered_ne_normal entered, if_false]
      simp only [regionLength] at unended
      cases step : regionStep lexer state byte rest with
      | inside next width =>
        obtain ⟨nextEntered, -, kind, positive, -, line⟩ := region_step_stays entered step
        have more : regionLength lexer next (width - 1) rest = none ∨
            next = .lineComment ∧ regionLength lexer next (width - 1) rest = some rest.length := by
          simp only [step, Option.map_eq_none_iff, List.length_cons, Option.map_eq_some_iff,
            Nat.add_right_cancel_iff, exists_eq_right] at unended
          refine unended.imp id fun ⟨is, ends⟩ => ⟨?_, ends⟩
          cases next <;> simp_all [State.kind]
        simp only [ih _ nextEntered more, kind, List.length_cons, Nat.add_assoc, Nat.add_comm 1]
      | closes width =>
        simp only [step, reduceCtorEq, false_or] at unended
        have closes := (region_step_closes entered step).1
        simp [unended.1, State.closeWidth] at closes
        simp [closes] at unended
      | endsLine => simp [step] at unended

theorem end_of_cons (more : rest ≠ []) : endOf (lexeme :: rest) = endOf rest := by
  obtain ⟨next, rest, rfl⟩ := List.exists_cons_of_ne_nil more
  simp [endOf]

theorem walk_lexemes (reads : Reads lexer lexemes) (start index : Nat) :
    walkFrom lexer .normal start 0 index (spell lexemes) =
      (eventsFrom index lexemes, endOf lexemes) := by
  induction reads generalizing start index with
  | nil => rfl
  | @cons lexeme byte body rest starts taken reads ih =>
    have arm := normal_step_arm lexer byte (body ++ spell rest)
    have covers : spell (lexeme :: rest) = byte :: (body ++ spell rest) := by simp [starts]
    have stop : index + lexeme.bytes.length = index + 1 + body.length := by simp [starts]; omega
    have skipped (other : Nat) := walk_from_skip lexer .normal other body.length (index + 1) body
      (spell rest) rfl
    rw [covers, walkFrom]
    simp only [if_true]
    unfold munch at taken
    cases step : normalStep lexer byte (body ++ spell rest) with
    | enters state width =>
      rw [step] at arm
      obtain ⟨entered, positive, fits⟩ := arm.entered
      cases ends : regionLength lexer state (width - 1) (body ++ spell rest) with
      | some length =>
        simp only [step, ends] at taken
        have same : (body ++ spell rest).take length = body := by
          simpa [← taken, Lexeme.bytes] using starts
        obtain rfl : length = body.length := by
          have := congrArg List.length same
          rwa [List.length_take_of_le (region_length_bounds entered ends fits).2] at this
        obtain rfl : lexeme = .region state (byte :: body) := by rw [← taken, same]
        by_cases last : rest = [] ∧ state = .lineComment
        · obtain ⟨rfl, rfl⟩ := last
          have whole := walk_open_region index (index + 1) entered
            (.inr ⟨rfl, by simpa using ends⟩)
          simp [whole, eventsFrom, stop, endOf, State.kind]
        · have closed : body.length < (body ++ spell rest).length ∨ state ≠ .lineComment := by
            by_cases line : state = .lineComment
            · left
              have more : spell rest ≠ [] := fun none => last ⟨reads.flat_eq_nil none, line⟩
              simpa using List.length_pos_iff.mpr more
            · exact .inr line
          have closing := walk_region index (index + 1) entered ends fits closed
          have finish : endOf (.region state (byte :: body) :: rest) = endOf rest := by
            by_cases more : rest = []
            · have other : state ≠ .lineComment := fun line => last ⟨more, line⟩
              subst more
              cases state <;> simp_all [endOf]
            · exact end_of_cons more
          simp only [closing, List.drop_left, ih, eventsFrom, stop, finish]
      | none =>
        simp only [step, ends] at taken
        have none : spell rest = [] := by simpa [← taken, Lexeme.bytes] using starts
        obtain rfl := reads.flat_eq_nil none
        obtain rfl : lexeme = .unclosed state (byte :: body) := by simp [← taken]
        rw [none, List.append_nil] at ends
        have whole := walk_open_region index (index + 1) entered (.inl ends)
        simp [whole, eventsFrom, stop, endOf]
    | separator =>
      simp only [step] at taken
      subst taken
      obtain ⟨-, rfl⟩ : semicolon = byte ∧ [] = body := by simpa [Lexeme.bytes] using starts
      have finish : endOf (.separator :: rest) = endOf rest := by
        cases rest <;> simp [endOf]
      simp [ih, eventsFrom, finish, Lexeme.bytes]
    | word width =>
      simp only [step] at taken
      have same : (body ++ spell rest).take (width - 1) = body := by
        simpa [← taken, Lexeme.bytes] using starts
      obtain rfl : lexeme = .word (byte :: body) := by rw [← taken, same]
      obtain rfl : width = body.length + 1 := by
        rw [step] at arm
        cases arm with
        | word start is bare =>
          rw [ident_run_cons start] at is
          simp only [is, List.length_cons, Nat.add_sub_cancel, take_run] at same ⊢
          rw [same]
      have finish : endOf (.word (byte :: body) :: rest) = endOf rest := by
        cases rest <;> simp [endOf]
      simp only [Nat.add_sub_cancel, skipped, walk_from_start lexer index start, ih, eventsFrom,
        stop, finish]
      simp only [Nat.add_assoc, Nat.add_comm 1]
    | code width =>
      simp only [step] at taken
      have same : (body ++ spell rest).take (width - 1) = body := by
        simpa [← taken, Lexeme.bytes] using starts
      obtain rfl : lexeme = .code (byte :: body) := by rw [← taken, same]
      have long : width - 1 = body.length := by
        rw [step] at arm
        cases arm with
        | opener opens => simp [(opener_exchange opens same).1]
        | code => simpa using congrArg List.length same
      have finish : endOf (.code (byte :: body) :: rest) = endOf rest := by
        cases rest <;> simp [endOf]
      simp only [long, skipped, walk_from_start lexer index start, ih, eventsFrom, stop, finish]

theorem walk_eq (reads : Reads lexer lexemes) :
    walk lexer (spell lexemes) = (eventsFrom 0 lexemes, endOf lexemes) :=
  walk_lexemes reads 0 0

end QueryHive.Sql
