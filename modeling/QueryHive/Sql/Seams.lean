import QueryHive.Sql.Splice

/-! Two texts with a common front that ends a line. Nothing a walk reads in the front looks past
it but the lookahead of a string, so the two walks read the front alike as long as neither has a
region, a line comment apart, that reaches across the seam. -/
namespace QueryHive.Sql
open Byte Library.Munch

/-- The text begins with a line end, or is empty. -/
def BreakStart (text : List UInt8) : Prop := ∀ byte, text.head? = some byte → isNewline byte = true

def BreakEnd (text : List UInt8) : Prop := ∀ byte, text.getLast? = some byte → isNewline byte = true

private theorem string_step_stays (string : state.isString = true)
    (inside : regionStep lexer state byte rest = .inside next width) : next = state := by
  cases state <;> simp only [State.isString, Bool.false_eq_true] at string <;>
    simp only [regionStep, closingQuote] at inside <;> grind

private theorem continued_bounds (continued : stringContinuation lexer text = some width) :
    text.head? ≠ some quote ∧ width ≤ text.length := by
  have long (phase : ContinuationPhase) (width : Nat) (read : continuationFrom lexer phase text = some width) :
      width ≤ text.length := by
    clear continued
    induction text generalizing phase width with
    | nil => simp [continuationFrom] at read
    | cons byte rest ih =>
      have step (next : ContinuationPhase) (more : (continuationFrom lexer next rest).map (· + 1) = some width) :
          width ≤ rest.length + 1 := by
        obtain ⟨inner, innerRead, rfl⟩ := Option.map_eq_some_iff.mp more
        exact Nat.succ_le_succ (ih next inner innerRead)
      rw [List.length_cons]
      cases phase <;> simp only [continuationFrom] at read <;> grind
  unfold stringContinuation at continued
  split at continued
  · refine ⟨fun head => ?_, long _ _ continued⟩
    obtain ⟨rest, rfl⟩ := List.head?_eq_some_iff.mp head
    simp [continuationFrom, isContinuationSpace, isNewline] at continued
  · cases continued

theorem region_length_continues (body : List UInt8) (entered : state.Entered) (string : state.isString = true)
    (ends : regionLength lexer state skip (body ++ tail) = some body.length) (within : skip ≤ body.length)
    (continued : stringContinuation lexer other = some width) :
    regionLength lexer state skip (body ++ other) = (regionLength lexer state width other).map (· + body.length) := by
  induction body generalizing skip with
  | nil =>
    obtain rfl : skip = 0 := by simpa using within
    have closeWidth := (region_length_bounds entered ends (by simp)).1
    cases state <;> simp [State.isString, State.closeWidth] at string closeWidth
  | cons byte rest ih =>
    cases skip with
    | succ skip =>
      simp only [List.cons_append, regionLength, List.length_cons, Option.map_eq_some_iff,
        Nat.add_right_cancel_iff, exists_eq_right] at ends ⊢
      rw [ih ends (by simpa using within), Option.map_map]
      rfl
    | zero =>
      simp only [List.cons_append, regionLength] at ends ⊢
      split at ends
      · next next step_ step =>
        obtain ⟨inner, innerEnds, same⟩ := Option.map_eq_some_iff.mp ends
        obtain rfl : inner = rest.length := by simpa using same
        obtain rfl := string_step_stays string step
        have other_ : next ≠ .lineComment := by
          rintro rfl
          cases string
        have fits : step_ - 1 ≤ (rest ++ tail).length := by
          by_contra past
          rw [region_length_overrun (by omega) other_] at innerEnds
          simp at innerEnds
        have bounds := region_length_bounds entered innerEnds fits
        rw [region_step_exchange entered step (by omega)]
        simp only [ih innerEnds (by omega), Option.map_map]
        rfl
      · next step_ step =>
        obtain rfl : step_ = rest.length + 1 := by simpa using ends
        have closing := (region_step_closes entered step).1
        obtain rfl : rest = [] := by
          cases state <;> simp [State.isString, State.closeWidth] at string closing <;> exact closing
        have unquoted := (continued_bounds continued).1
        have goes : regionStep lexer state byte other = .inside state (width + 1) := by
          cases state <;> simp only [State.isString, Bool.false_eq_true] at string <;>
            simp only [regionStep, closingQuote, continued] at step ⊢ <;> grind
        simp only [List.nil_append, goes, Nat.add_sub_cancel]
        rfl
      · simp at ends

/-- A region at the front of a text, with how it is entered and where it ends. -/
theorem munch_region (taken : munch lexer byte (body ++ tail) = .region state (byte :: body)) :
    ∃ width, Arm lexer byte (body ++ tail) (.enters state width) ∧
      regionLength lexer state (width - 1) (body ++ tail) = some body.length := by
  have arm := normal_step_arm lexer byte (body ++ tail)
  unfold munch at taken
  split at taken <;> try simp at taken
  next entered width step =>
  rw [step] at arm
  split at taken <;> try simp at taken
  next length ends =>
  obtain ⟨rfl, same⟩ := taken
  refine ⟨width, arm, ?_⟩
  have long := congrArg List.length same
  rw [List.length_take_of_le (region_length_bounds arm.entered.1 ends arm.entered.2.2).2] at long
  rw [← long, ends]

theorem munch_continues (taken : munch lexer byte (body ++ tail) = .region state (byte :: body))
    (string : state.isString = true) (continued : stringContinuation lexer other = some width) :
    ∃ lexeme, munch lexer byte (body ++ other) = lexeme ∧ body.length + width < lexeme.bytes.length ∧
      ∀ bytes, lexeme ≠ .region .lineComment bytes := by
  obtain ⟨taken_, arm, ends⟩ := munch_region taken
  obtain ⟨entered, positive, fits⟩ := arm.entered
  have bounds := region_length_bounds entered ends fits
  have line : state ≠ .lineComment := by
    rintro rfl
    cases string
  have step : normalStep lexer byte (body ++ other) = .enters state taken_ :=
    (arm.enters_exchange bounds.1 fun is => absurd is line).eq
  have goes := region_length_continues body entered string ends (by omega) continued
  have long := (continued_bounds continued).2
  refine ⟨_, rfl, ?_, ?_⟩
  · unfold munch
    rw [step]
    simp only [goes]
    cases rest : regionLength lexer state width other with
    | none =>
      simp only [Option.map_none, Lexeme.bytes, List.length_cons, List.length_append]
      omega
    | some length =>
      have more := region_length_bounds entered rest long
      have fits : length + body.length ≤ (body ++ other).length := by
        rw [List.length_append]
        omega
      simp only [Option.map_some, Lexeme.bytes, List.length_cons, List.length_take_of_le fits]
      omega
  · intro bytes is
    unfold munch at is
    rw [step] at is
    simp only at is
    split at is <;> simp_all

theorem space_of_newline (ends : isNewline value = true) : isSpace value = true := by
  simp only [isNewline] at ends
  simp only [isSpace, isAsciiWhitespace]
  grind

theorem blank_alone (taken : munch lexer byte rest = lexeme) (plain : ∀ state bytes, lexeme ≠ .region state bytes)
    (closed : ∀ state bytes, lexeme ≠ .unclosed state bytes) (listed : value ∈ lexeme.bytes)
    (blank : isSpace value = true) : lexeme = .code [value] := by
  have known : value = space ∨ value = tab ∨ value = newline ∨ value = formFeed ∨ value = carriageReturn ∨
      value = verticalTab := by
    simp only [isSpace, isAsciiWhitespace] at blank
    grind
  have noIdent : isIdentCont lexer value = false := (soft_plain lexer true (by simp [isSoft, blank])).1
  have arm := normal_step_arm lexer byte rest
  unfold munch at taken
  split at taken
  · split at taken <;> subst taken
    · exact absurd rfl (plain _ _)
    · exact absurd rfl (closed _ _)
  · subst taken
    rcases known with rfl | rfl | rfl | rfl | rfl | rfl <;> simp [Lexeme.bytes] at listed
  · next width step =>
    rw [step] at arm
    subst taken
    cases arm with
    | @word run start is bare =>
      rw [ident_run_cons start] at is
      subst is
      simp only [Lexeme.bytes, List.length_cons, Nat.add_sub_cancel, take_run] at listed
      rw [← ident_run_cons start] at listed
      have inside := List.mem_takeWhile_imp listed
      rw [noIdent] at inside
      cases inside
  · next width step =>
    rw [step] at arm
    subst taken
    cases arm with
    | opener opens =>
      obtain ⟨-, more, covers, rfl⟩ := opener_cases opens
      obtain ⟨rfl, rfl⟩ := List.cons.inj covers
      have taken : (star :: bang :: more).take (3 + (more.takeWhile isAsciiDigit).length - 1) =
          star :: bang :: more.takeWhile isAsciiDigit := by
        have two : 3 + (more.takeWhile isAsciiDigit).length - 1 = (more.takeWhile isAsciiDigit).length + 2 := by omega
        simp [two, take_run]
      rw [Lexeme.bytes, taken] at listed
      have digits (byte : UInt8) (inside : byte ∈ more.takeWhile isAsciiDigit) : isAsciiDigit byte = true :=
        List.mem_takeWhile_imp inside
      rcases known with rfl | rfl | rfl | rfl | rfl | rfl <;> simp at listed <;>
        exact absurd (digits _ listed) (by decide)
    | code =>
      obtain rfl : value = byte := by simpa [Lexeme.bytes] using listed
      rfl

private theorem region_last (body : List UInt8) (entered : state.Entered) (one : state.closeWidth = 1)
    (ends : regionLength lexer state skip (body ++ tail) = some body.length) (within : skip ≤ body.length) :
    ∃ byte, body.getLast? = some byte ∧ isNewline byte = false := by
  induction body generalizing state skip with
  | nil =>
    obtain rfl : skip = 0 := by simpa using within
    have bounds := (region_length_bounds entered ends (by simp)).1
    simp [one] at bounds
  | cons byte rest ih =>
    have later {next : State} {skip : Nat} (entered : next.Entered) (one : next.closeWidth = 1)
        (ends : regionLength lexer next skip (rest ++ tail) = some rest.length) (within : skip ≤ rest.length) :
        ∃ value, (byte :: rest).getLast? = some value ∧ isNewline value = false := by
      obtain ⟨value, last, plain⟩ := ih entered one ends within
      exact ⟨value, by rw [List.getLast?_cons, last]; rfl, plain⟩
    cases skip with
    | succ skip =>
      simp only [List.cons_append, regionLength, List.length_cons, Option.map_eq_some_iff,
        Nat.add_right_cancel_iff, exists_eq_right] at ends
      exact later entered one ends (by simpa using within)
    | zero =>
      simp only [List.cons_append, regionLength] at ends
      split at ends
      · next next width step =>
        obtain ⟨inner, innerEnds, same⟩ := Option.map_eq_some_iff.mp ends
        obtain rfl : inner = rest.length := by simpa using same
        obtain ⟨nextEntered, sameWidth, -, positive, -, line⟩ := region_step_stays entered step
        have fits : width - 1 ≤ (rest ++ tail).length := by
          by_contra past
          rw [region_length_overrun (by omega) (fun is => by have := line is; omega)] at innerEnds
          simp at innerEnds
        have bounds := region_length_bounds nextEntered innerEnds fits
        exact later nextEntered (sameWidth.trans one) innerEnds (by omega)
      · next width step =>
        have closing := (region_step_closes entered step).1
        obtain rfl : rest = [] := by
          refine List.eq_nil_of_length_eq_zero ?_
          have same : width = rest.length + 1 := by simpa using ends
          omega
        refine ⟨byte, rfl, ?_⟩
        cases state <;> simp only [regionStep, closingQuote, State.closeWidth, reduceCtorEq] at step one <;>
          grind [isNewline, State.Entered]
      · simp at ends

theorem reads_break (reads : Reads lexer lexemes) (covers : spell lexemes = value :: tail)
    (ends : isNewline value = true) : ∃ rest, lexemes = .code [value] :: rest ∧ spell rest = tail := by
  cases reads with
  | nil => cases covers
  | @cons lexeme byte body rest starts taken later =>
    rw [spell, flat_cons, starts, List.cons_append, List.cons.injEq] at covers
    obtain ⟨rfl, covers⟩ := covers
    have code : munch lexer byte (body ++ flat Lexeme.bytes rest) = .code [byte] := by
      rw [munch, (plain_of_space (space_of_newline ends)).step]
      simp
    obtain rfl := taken.symm.trans code
    obtain rfl : body = [] := by simpa [Lexeme.bytes] using starts.symm
    exact ⟨rest, rfl, covers⟩

theorem line_comment_plain (reads : Reads lexer (.region .lineComment bytes :: rest)) :
    ∀ value ∈ bytes, endsLine lexer value = false := by
  cases reads with
  | @cons _ byte body _ starts taken later =>
    obtain rfl : bytes = byte :: body := starts
    intro value listed
    rcases line_comment_bytes taken with ⟨rfl, more, rfl, plain⟩ | ⟨rfl, -, plain⟩
    · rcases List.mem_cons.mp listed with rfl | inner
      · simp [endsLine]
      · rcases List.mem_cons.mp inner with rfl | inner
        · simp [endsLine]
        · exact plain value inner
    · rcases List.mem_cons.mp listed with rfl | inner
      · simp [endsLine]
      · exact plain value inner

/-- The lexeme that begins before `n` and ends after it. -/
def crossing (n : Nat) : List Lexeme → Option Lexeme
  | [] => none
  | lexeme :: rest =>
    if lexeme.bytes.length ≤ n then crossing (n - lexeme.bytes.length) rest else if n = 0 then none else some lexeme

/-- The lexemes that end at `n` or before. -/
def lexemesWithin (n : Nat) : List Lexeme → List Lexeme
  | [] => []
  | lexeme :: rest =>
    if lexeme.bytes.length ≤ n then lexeme :: lexemesWithin (n - lexeme.bytes.length) rest else []

/-- Nothing but a line comment reaches across. -/
def Quiet (n : Nat) (lexemes : List Lexeme) : Prop :=
  ∀ lexeme, crossing n lexemes = some lexeme → ∃ bytes, lexeme = .region .lineComment bytes

theorem reads_long (reads : Reads lexer (lexeme :: rest)) : 0 < lexeme.bytes.length := by
  obtain ⟨byte, body, starts⟩ := reads_starts reads
  simp [starts]

theorem reads_behind (front : List Lexeme) (reads : Reads lexer (front ++ rest)) : Reads lexer rest :=
  Reading.suffix reads

theorem reads_positive (reads : Reads lexer lexemes) : ∀ lexeme ∈ lexemes, 0 < lexeme.bytes.length := by
  intro lexeme listed
  obtain ⟨front, rest, rfl⟩ := List.append_of_mem listed
  exact reads_long (reads_behind front reads)

theorem spell_length (lexeme : Lexeme) (rest : List Lexeme) :
    (spell (lexeme :: rest)).length = lexeme.bytes.length + (spell rest).length := by
  simp

theorem spell_concat_length (front : List Lexeme) (lexeme : Lexeme) :
    (spell (front ++ [lexeme])).length = (spell front).length + lexeme.bytes.length := by
  simp

/-- A place in a text is between two lexemes, or one reaches across it. -/
theorem crossing_split (reads : Reads lexer lexemes) (within : n ≤ (spell lexemes).length) :
    (∃ front rest, lexemes = front ++ rest ∧ (spell front).length = n ∧ crossing n lexemes = none) ∨
      ∃ front lexeme rest, lexemes = front ++ lexeme :: rest ∧ (spell front).length < n ∧
        n < (spell front).length + lexeme.bytes.length ∧ crossing n lexemes = some lexeme := by
  induction lexemes generalizing n with
  | nil => exact .inl ⟨[], [], rfl, (Nat.le_zero.mp within).symm, rfl⟩
  | cons lexeme rest ih =>
    have long := reads_long reads
    rw [spell_length] at within
    by_cases fits : lexeme.bytes.length ≤ n
    · simp only [crossing, fits, if_true]
      rcases ih reads.tail (n := n - lexeme.bytes.length) (by omega) with
        ⟨front, later, rfl, place, none⟩ | ⟨front, reached, later, rfl, before, after, is⟩
      · refine .inl ⟨lexeme :: front, later, rfl, ?_, none⟩
        rw [spell_length]
        omega
      · refine .inr ⟨lexeme :: front, reached, later, rfl, ?_, ?_, is⟩ <;>
          rw [spell_length] <;> omega
    · simp only [crossing, fits, if_false]
      by_cases zero : n = 0
      · exact .inl ⟨[], lexeme :: rest, rfl, by simp [zero], by simp [zero]⟩
      · exact .inr ⟨[], lexeme, rest, rfl, by simpa using Nat.pos_of_ne_zero zero, by simpa using fits, by simp [zero]⟩

private theorem follows_line_end (taken : munch lexer byte (body ++ tail) = lexeme)
    (starts : lexeme.bytes = byte :: body)
    (ends : BreakEnd (byte :: body)) (sharp : ∃ value, tail.head? = some value ∧ isNewline value = false) :
    lexeme.Follows lexer other := by
  obtain ⟨value, last⟩ : ∃ value, (byte :: body).getLast? = some value := ⟨_, List.getLast?_eq_some_getLast (by simp)⟩
  have newline_ := ends value last
  have listed : value ∈ lexeme.bytes := starts ▸ List.mem_of_getLast? last
  have follows := (munch_exchange taken starts).1
  obtain ⟨sharp, head, notNewline⟩ := sharp
  have code (is : lexeme = .code [value]) : lexeme.Follows lexer other := by
    have known : value = newline ∨ value = carriageReturn := by
      simp only [isNewline] at newline_
      grind
    subst is
    refine ⟨opener_at_slash ?_, dashes_at_dash ?_, ?_, ?_⟩ <;> rcases known with rfl | rfl <;> simp
  cases lexeme with
  | region state bytes =>
    obtain rfl : bytes = byte :: body := starts
    obtain ⟨width, arm, ended⟩ := munch_region taken
    obtain ⟨entered, positive, fits⟩ := arm.entered
    have bounds := region_length_bounds entered ended fits
    have close (one : state.closeWidth = 1) : False := by
      obtain ⟨final, is, plain⟩ := region_last body entered one ended (by omega)
      rw [List.getLast?_cons, is] at last
      obtain rfl : final = value := by simpa using last
      rw [newline_] at plain
      cases plain
    cases state with
    | normal => exact entered.elim
    | blockComment | dollarQuoted => trivial
    | lineComment =>
      have line := follows sharp head
      simp only [endsLine, isNewline] at line notNewline
      grind
    | _ => exact (close rfl).elim
  | unclosed state bytes =>
    obtain rfl : tail = [] := follows
    cases head
  | separator => trivial
  | word bytes => exact code (blank_alone taken (by simp) (by simp) listed (space_of_newline newline_))
  | code bytes => exact code (blank_alone taken (by simp) (by simp) listed (space_of_newline newline_))

/-- What is read in a front that ends a line is read there before any other text, unless that
lets a region reach across. -/
theorem munch_alike {rest tail : List UInt8} (other : List UInt8) (taken : munch lexer byte (rest ++ tail) = lexeme)
    (fits : lexeme.bytes.length ≤ rest.length + 1) (ends : BreakEnd (byte :: rest))
    (sharp : ∃ value, tail.head? = some value ∧ isNewline value = false)
    (quiet : rest.length + 1 < (munch lexer byte (rest ++ other)).bytes.length →
      ∃ bytes, munch lexer byte (rest ++ other) = .region .lineComment bytes) :
    munch lexer byte (rest ++ other) = lexeme := by
  obtain ⟨body, behind, starts, covers⟩ := munch_progress lexer byte (rest ++ tail)
  rw [taken] at starts
  rw [starts, List.length_cons] at fits
  obtain ⟨after, rfl, rfl⟩ : ∃ after, rest = body ++ after ∧ behind = after ++ tail := by
    rcases List.append_eq_append_iff.mp covers with ⟨more, is, is'⟩ | ⟨more, is, is'⟩
    · obtain rfl : more = [] := by
        have long := congrArg List.length is
        rw [List.length_append] at long
        exact List.eq_nil_of_length_eq_zero (by omega)
      exact ⟨[], by simpa using is.symm, by simpa using is'.symm⟩
    · exact ⟨more, is, is'⟩
  rw [List.append_assoc] at taken
  obtain ⟨follows, exchange⟩ := munch_exchange taken starts
  rw [List.append_assoc]
  refine exchange (after ++ other) ?_
  rcases List.eq_nil_or_concat' after with rfl | ⟨front, final, rfl⟩
  · simp only [List.append_nil, List.nil_append] at *
    exact follows_line_end taken starts ends sharp
  have newline_ : isNewline final = true :=
    ends final (by rw [← List.append_assoc, ← List.cons_append, List.getLast?_concat])
  have soft (tail : List UInt8) : SoftStart (final :: tail) := by
    rintro value head
    obtain rfl := Option.some.inj head
    simp only [isNewline] at newline_
    simp only [isSoft, isSpace, isAsciiWhitespace]
    grind
  refine follows_ahead follows
    ⟨front, final :: tail, final :: other, by simp, by simp, soft _, soft _, .inl rfl⟩ ?_ ?_ ?_
  · rintro state bytes rfl
    simp [Lexeme.Follows] at follows
  · rintro bytes rfl value head
    refine follows value ?_
    cases front <;> exact head
  · rintro state bytes rfl string stops
    obtain rfl : bytes = byte :: body := starts
    by_contra goes
    obtain ⟨width, goes⟩ := Option.ne_none_iff_exists'.mp goes
    by_cases inner : width ≤ (front ++ [final]).length
    · -- Then the other tail would continue it as well.
      unfold stringContinuation at goes stops
      split at goes
      · rw [if_pos ‹_›, continuation_exchange _ goes inner] at stops
        cases stops
      · cases goes
    · obtain ⟨longer, is, reaches, plain⟩ := munch_continues taken string goes
      rw [List.append_assoc, is, List.length_append] at quiet
      obtain ⟨bytes, line⟩ := quiet (by omega)
      exact plain bytes line

theorem lexemesWithin_zero (reads : Reads lexer lexemes) : lexemesWithin 0 lexemes = [] := by
  cases lexemes with
  | nil => rfl
  | cons lexeme rest =>
    have long := reads_long reads
    rw [lexemesWithin, if_neg (by omega)]

private theorem breakEnd_drop (front : List UInt8) (ends : BreakEnd front) (n : Nat) : BreakEnd (front.drop n) := by
  intro byte last
  refine ends byte ?_
  rw [List.getLast?_drop] at last
  split at last
  · cases last
  · exact last

theorem quiet_tail (quiet : Quiet n (lexeme :: rest)) (fits : lexeme.bytes.length ≤ n) :
    Quiet (n - lexeme.bytes.length) rest := by
  intro reached is
  refine quiet reached ?_
  rw [crossing, if_pos fits, is]

/-- The front of two texts is read alike when it ends a line and nothing but line comments
reach across its end. -/
theorem within_alike (front : List UInt8) (reads : Reads lexer lexemes) (reads' : Reads lexer others)
    (covers : spell lexemes = front ++ tail) (covers' : spell others = front ++ tail') (ends : BreakEnd front)
    (sharp : ∃ value, tail.head? = some value ∧ isNewline value = false)
    (sharp' : ∃ value, tail'.head? = some value ∧ isNewline value = false)
    (quiet : Quiet front.length lexemes) (quiet' : Quiet front.length others) :
    lexemesWithin front.length lexemes = lexemesWithin front.length others := by
  induction reads generalizing front others with
  | nil =>
    obtain ⟨value, head, -⟩ := sharp
    obtain ⟨-, rfl⟩ := List.append_eq_nil_iff.mp covers.symm
    cases head
  | @cons lexeme byte body rest starts taken reads ih =>
    have whole : Reads lexer (lexeme :: rest) := .cons starts taken reads
    rcases front with _ | ⟨first, front⟩
    · rw [List.length_nil, lexemesWithin_zero whole, lexemesWithin_zero reads']
    cases reads' with
    | nil => cases covers'
    | @cons lexeme' first' body' rest' starts' taken' reads' =>
      have whole' : Reads lexer (lexeme' :: rest') := .cons starts' taken' reads'
      rw [spell, flat_cons, starts, List.cons_append, List.cons_append, List.cons.injEq] at covers
      rw [spell, flat_cons, starts', List.cons_append, List.cons_append, List.cons.injEq] at covers'
      obtain ⟨rfl, covers⟩ := covers
      obtain ⟨rfl, covers'⟩ := covers'
      rw [covers] at taken
      rw [covers'] at taken'
      have reaches {n : Nat} {lexeme : Lexeme} {rest : List Lexeme} (quiet : Quiet (n + 1) (lexeme :: rest))
          (long : n + 1 < lexeme.bytes.length) : ∃ bytes, lexeme = .region .lineComment bytes :=
        quiet lexeme (by rw [crossing, if_neg (by omega), if_neg (by omega)])
      have agree (fits : lexeme.bytes.length ≤ front.length + 1 ∨ lexeme'.bytes.length ≤ front.length + 1) :
          lexeme = lexeme' := by
        rcases fits with fits | fits
        · have same := munch_alike tail' taken fits ends sharp (taken'.symm ▸ reaches quiet')
          exact same.symm.trans taken'
        · have same := munch_alike tail taken' fits ends sharp' (taken.symm ▸ reaches quiet)
          exact taken.symm.trans same
      by_cases fits : lexeme.bytes.length ≤ front.length + 1
      · obtain rfl := agree (.inl fits)
        obtain rfl : body = body' := by
          rw [starts] at starts'
          exact (List.cons.inj starts').2
        have inner : body.length ≤ front.length := by
          rw [starts, List.length_cons] at fits
          omega
        have later (rest : List Lexeme) (tail : List UInt8) (covers : body ++ spell rest = front ++ tail) :
            spell rest = front.drop body.length ++ tail := by
          have dropped := congrArg (List.drop body.length) covers
          rwa [List.drop_left, List.drop_append_of_le_length inner] at dropped
        have same : (first' :: front).length - lexeme.bytes.length = (front.drop body.length).length := by
          rw [starts, List.length_cons, List.length_cons, List.length_drop]
          omega
        have further := ih (front.drop body.length) reads' (later _ _ covers) (later _ _ covers')
          (breakEnd_drop (first' :: front) ends (body.length + 1)) (same ▸ quiet_tail quiet fits)
          (same ▸ quiet_tail quiet' fits)
        rw [lexemesWithin, lexemesWithin, List.length_cons, if_pos fits, if_pos fits]
        rw [List.length_cons] at same
        rw [same, further]
      · have fits' : ¬lexeme'.bytes.length ≤ front.length + 1 := fun fits' => fits (agree (.inr fits') ▸ fits')
        rw [lexemesWithin, lexemesWithin, List.length_cons, if_neg fits, if_neg fits']

def Event.start : Event → Nat
  | .separator index => index
  | .opaqueRegion _ start _ | .word start _ => start

def Event.stop : Event → Nat
  | .separator index => index + 1
  | .opaqueRegion _ _ stop | .word _ stop => stop

/-- The event of a text that is `shift` bytes further on. -/
def Event.moved (shift : Nat) : Event → Event
  | .separator index => .separator (index + shift)
  | .opaqueRegion kind start stop => .opaqueRegion kind (start + shift) (stop + shift)
  | .word start stop => .word (start + shift) (stop + shift)

@[simp] theorem Event.moved_start (shift : Nat) (event : Event) : (event.moved shift).start = event.start + shift := by
  cases event <;> rfl

theorem events_append (index : Nat) (front rest : List Lexeme) :
    eventsFrom index (front ++ rest) = eventsFrom index front ++ eventsFrom (index + (spell front).length) rest := by
  induction front generalizing index with
  | nil => simp [eventsFrom]
  | cons lexeme front ih =>
    cases lexeme <;> simp [eventsFrom, ih, Nat.add_assoc]

theorem events_moved (index shift : Nat) (lexemes : List Lexeme) :
    eventsFrom (index + shift) lexemes = (eventsFrom index lexemes).map (Event.moved shift) := by
  induction lexemes generalizing index with
  | nil => rfl
  | cons lexeme rest ih =>
    have next := ih (index + lexeme.bytes.length)
    have swap : index + shift + lexeme.bytes.length = index + lexeme.bytes.length + shift := by omega
    cases lexeme <;> simp only [eventsFrom, swap, next, List.map_cons, Event.moved]

theorem event_bounds (long : ∀ lexeme ∈ lexemes, 0 < (Lexeme.bytes lexeme).length)
    (member : event ∈ eventsFrom index lexemes) :
    index ≤ event.start ∧ event.start < event.stop ∧ event.stop ≤ index + (spell lexemes).length := by
  induction lexemes generalizing index with
  | nil => cases member
  | cons lexeme rest ih =>
    have more := fun other listed => long other (List.mem_cons_of_mem _ listed)
    have long := long lexeme List.mem_cons_self
    have whole := spell_length lexeme rest
    have later (further : event ∈ eventsFrom (index + lexeme.bytes.length) rest) :
        index ≤ event.start ∧ event.start < event.stop ∧ event.stop ≤ index + (spell (lexeme :: rest)).length := by
      have bounds := ih more further
      omega
    cases lexeme with
    | code bytes => exact later member
    | _ =>
      rcases List.mem_cons.mp member with rfl | further
      · simp only [Event.start, Event.stop, Lexeme.bytes, List.length_cons, List.length_nil] at long whole ⊢
        omega
      · exact later further

theorem events_within (reads : Reads lexer lexemes) (index n : Nat) :
    (eventsFrom index lexemes).filter (fun event => event.stop ≤ index + n) =
    eventsFrom index (lexemesWithin n lexemes) := by
  induction lexemes generalizing index n with
  | nil => rfl
  | cons lexeme rest ih =>
    have split : eventsFrom index (lexeme :: rest) =
        eventsFrom index [lexeme] ++ eventsFrom (index + lexeme.bytes.length) rest := by
      simpa using events_append index [lexeme] rest
    have alone : ∀ event ∈ eventsFrom index [lexeme], event.stop = index + lexeme.bytes.length := by
      intro event member
      cases lexeme <;> simp [eventsFrom, Lexeme.bytes] at member <;> subst member <;> rfl
    by_cases fits : lexeme.bytes.length ≤ n
    · have here : (eventsFrom index [lexeme]).filter (fun event => event.stop ≤ index + n) =
        eventsFrom index [lexeme] := by
        refine List.filter_eq_self.mpr fun event member => ?_
        rw [alone event member]
        simpa using fits
      have sum : index + lexeme.bytes.length + (n - lexeme.bytes.length) = index + n := by omega
      have next := ih reads.tail (index + lexeme.bytes.length) (n - lexeme.bytes.length)
      rw [sum] at next
      have whole := events_append index [lexeme] (lexemesWithin (n - lexeme.bytes.length) rest)
      rw [lexemesWithin, if_pos fits, split, List.filter_append, here, next]
      simpa using whole.symm
    · rw [lexemesWithin, if_neg fits, split, List.filter_append]
      refine List.append_eq_nil_iff.mpr ⟨?_, ?_⟩ <;> refine List.filter_eq_nil_iff.mpr fun event member => ?_
      · rw [alone event member]
        simpa using fits
      · have bounds := event_bounds (reads_positive reads.tail) member
        simp only [decide_eq_true_eq]
        omega

end QueryHive.Sql
