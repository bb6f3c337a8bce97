import QueryHive.Library.Json
import QueryHive.Library.Text

/-! The iterative JSON validator: a stack of open containers with the separator state of
each, and two flags for what the next token has to be. It accepts the texts of the JSON
grammar, and besides those the texts in which a member's name opens with another byte
than a quotation mark, which it steps over without looking. -/
namespace QueryHive.Store.JsonValidate
open QueryHive.Library QueryHive.Library.Json

/-! ### Scanning -/

/-- `skip_ws`. -/
def skipWs (bytes : List UInt8) : List UInt8 := bytes.dropWhile isWs

/-- The loop of `skip_string`. -/
def skipStringFrom : List UInt8 → Option (List UInt8)
  | [] => none
  | b :: rest =>
    if b = quote then some rest
    else if b = backslash then
      match rest with
      | [] => none
      | e :: rest =>
        if isEscape e then skipStringFrom rest
        else if e = letterU then
          match rest with
          | h1 :: h2 :: h3 :: h4 :: rest =>
            if isHexDigit h1 && isHexDigit h2 && isHexDigit h3 && isHexDigit h4 then skipStringFrom rest else none
          | _ => none
        else none
    else if b < 0x20 then none
    else skipStringFrom rest

/-- `skip_string`: the byte it starts at is stepped over. -/
def skipString (bytes : List UInt8) : Option (List UInt8) := skipStringFrom bytes.tail

/-- `expect_literal`. -/
def expectLiteral (bytes literal : List UInt8) : Option (List UInt8) :=
  if literal.isPrefixOf bytes then some (bytes.drop literal.length) else none

def skipDigits1 : List UInt8 → Option (List UInt8)
  | [] => none
  | b :: rest => if isDigit b then some (rest.dropWhile isDigit) else none

/-- The integer part of `skip_number`. -/
def skipWhole : List UInt8 → Option (List UInt8)
  | [] => none
  | b :: rest => if !isDigit b then none else if b = zero then some rest else some (rest.dropWhile isDigit)

/-- The fraction of `skip_number`. -/
def skipFraction (bytes : List UInt8) : Option (List UInt8) :=
  match bytes with
  | b :: rest => if b = point then skipDigits1 rest else some bytes
  | [] => some []

/-- The exponent of `skip_number`. -/
def skipExponent (bytes : List UInt8) : Option (List UInt8) :=
  match bytes with
  | b :: rest =>
    if isExponent b then
      match rest with
      | sign :: digits => if sign = plus ∨ sign = minus then skipDigits1 digits else skipDigits1 rest
      | [] => none
    else some bytes
  | [] => some []

/-- `skip_number`. -/
def skipNumber (bytes : List UInt8) : Option (List UInt8) := do
  let rest := if bytes.head? = some minus then bytes.tail else bytes
  skipExponent (← skipFraction (← skipWhole rest))

/-! ### The loop -/

inductive ObjState where
  | first | key | colon | value | comma
  deriving DecidableEq, Repr

inductive ArrState where
  | first | value | comma
  deriving DecidableEq, Repr

inductive Frame where
  | obj (state : ObjState)
  | arr (state : ArrState)
  deriving DecidableEq, Repr

def Frame.completed : Frame → Frame
  | .obj _ => .obj .comma
  | .arr _ => .arr .comma

/-- The variables of the loop; the index is the rest of the bytes. -/
structure Loop where
  stack : List Frame := []
  rest : List UInt8
  expectValue : Bool := false
  afterValue : Bool := false

/-- How one turn of the loop ends. -/
inductive Turn where
  | stop (valid : Bool)
  | again (loop : Loop)

/-- A token was skipped and a value is complete, or there was no such token. -/
def completed (stack : List Frame) : Option (List UInt8) → Turn
  | some rest => .again { stack := stack, rest := rest, afterValue := true }
  | none => .stop false

/-- `expect_value`: the next token begins a value. -/
def turnValue (stack : List Frame) (rest : List UInt8) : Turn :=
  match skipWs rest with
  | [] => .stop false
  | b :: after =>
    let bytes := b :: after
    if b = openBrace then .again { stack := .obj .first :: stack, rest := after }
    else if b = openBracket then .again { stack := .arr .first :: stack, rest := after }
    else if b = quote then completed stack (skipString bytes)
    else if b = 0x74 then completed stack (expectLiteral bytes [0x74, 0x72, 0x75, 0x65])
    else if b = 0x66 then completed stack (expectLiteral bytes [0x66, 0x61, 0x6C, 0x73, 0x65])
    else if b = 0x6E then completed stack (expectLiteral bytes [0x6E, 0x75, 0x6C, 0x6C])
    else if b = minus || isDigit b then completed stack (skipNumber bytes)
    else .stop false

/-- A name was skipped, or there was none. -/
def named (stack : List Frame) : Option (List UInt8) → Turn
  | some rest => .again { stack := .obj .colon :: stack, rest := rest }
  | none => .stop false

/-- The next token belongs to the innermost container. -/
def turnFrame (stack : List Frame) (rest : List UInt8) : Turn :=
  match skipWs rest with
  | [] => .stop false
  | b :: after =>
    let bytes := b :: after
    match stack with
    | [] => .again { stack := [], rest := bytes, expectValue := true }
    | .obj .first :: below =>
      if b = closeBrace then .again { stack := below, rest := after, afterValue := true }
      else named below (skipString bytes)
    | .obj .key :: below => named below (skipString bytes)
    | .obj .colon :: below =>
      if b ≠ Json.colon then .stop false else .again { stack := .obj .value :: below, rest := after }
    | .obj .value :: below => .again { stack := .obj .value :: below, rest := bytes, expectValue := true }
    | .obj .comma :: below =>
      if b = Json.comma then .again { stack := .obj .key :: below, rest := after }
      else if b = closeBrace then .again { stack := below, rest := after, afterValue := true }
      else .stop false
    | .arr .first :: below =>
      if b = closeBracket then .again { stack := below, rest := after, afterValue := true }
      else .again { stack := .arr .first :: below, rest := bytes, expectValue := true }
    | .arr .value :: below => .again { stack := .arr .value :: below, rest := bytes, expectValue := true }
    | .arr .comma :: below =>
      if b = Json.comma then .again { stack := .arr .value :: below, rest := after }
      else if b = closeBracket then .again { stack := below, rest := after, afterValue := true }
      else .stop false

def turn (loop : Loop) : Turn :=
  if loop.afterValue then
    match loop.stack with
    | [] => .stop (skipWs loop.rest).isEmpty
    | frame :: below => .again { stack := frame.completed :: below, rest := skipWs loop.rest }
  else if loop.expectValue then turnValue loop.stack loop.rest
  else turnFrame loop.stack loop.rest

/-! ### Tokens -/

theorem ws_skipWs (bytes : List UInt8) : Ws bytes (skipWs bytes) :=
  ⟨bytes.takeWhile isWs, (List.takeWhile_append_dropWhile).symm, fun _ inside => List.mem_takeWhile_imp inside⟩

/-- White space before another byte is all the white space there is. -/
theorem skipWs_of_ws (blank : Ws before (b :: after)) (printed : isWs b = false) : skipWs before = b :: after := by
  obtain ⟨blanks, rfl, white⟩ := blank
  rw [skipWs, List.dropWhile_append_of_pos white, List.dropWhile_cons_of_neg (by simp [printed])]

theorem skipWs_nil_iff : skipWs bytes = [] ↔ Ws bytes [] := by
  rw [skipWs, List.dropWhile_eq_nil_iff]
  constructor
  · exact fun white => ⟨bytes, (List.append_nil _).symm, white⟩
  · rintro ⟨blanks, rfl, white⟩
    simpa using white

theorem skipWs_skipWs (bytes : List UInt8) : skipWs (skipWs bytes) = skipWs bytes :=
  List.dropWhile_idempotent isWs bytes

theorem ws_iff_skipWs (printed : isWs b = false) : Ws before (b :: after) ↔ skipWs before = b :: after :=
  ⟨fun blank => skipWs_of_ws blank printed, fun skipped => skipped ▸ ws_skipWs before⟩

theorem skipStringFrom_iff : skipStringFrom before = some after ↔ StringEnd before after := by
  constructor
  · intro skipped
    fun_induction skipStringFrom before with
    | case1 => cases skipped
    | case2 rest =>
      cases skipped
      exact .close
    | case3 => cases skipped
    | case4 e rest known _ ih => exact .escape known (ih skipped)
    | case5 h1 h2 h3 h4 rest hex _ _ ih => exact .unicode (by simpa [and_assoc] using hex) (ih skipped)
    | case6 => cases skipped
    | case7 => cases skipped
    | case8 => cases skipped
    | case9 => cases skipped
    | case10 b rest unquoted unescaped low ih =>
      exact .plain (UInt8.not_lt.mp low) unquoted unescaped (ih skipped)
  · intro ended
    induction ended with
    | close =>
      unfold skipStringFrom
      simp
    | @plain b before after printed unquoted unescaped rest ih =>
      unfold skipStringFrom
      rw [if_neg unquoted, if_neg unescaped, if_neg (UInt8.not_lt.mpr printed), ih]
    | @escape b before after known rest ih =>
      unfold skipStringFrom
      simp [show backslash ≠ quote by decide, known, ih]
    | @unicode a b c d before after hex rest ih =>
      unfold skipStringFrom
      simp [show backslash ≠ quote by decide, show isEscape letterU = false by decide, hex, ih]

def continuesNumber (b : UInt8) : Bool := isDigit b || b = point || isExponent b

/-- No number goes on here. -/
def Stops (bytes : List UInt8) : Prop := ∀ b ∈ bytes.head?, continuesNumber b = false

/-- No digit stands here. -/
def StopsDigits (bytes : List UInt8) : Prop := ∀ b ∈ bytes.head?, isDigit b = false

theorem Stops.digits (stops : Stops bytes) : StopsDigits bytes := by
  intro b head
  have stopped := stops b head
  simp only [continuesNumber, Bool.or_eq_false_iff] at stopped
  exact stopped.1.1

theorem digits_dropWhile (bytes : List UInt8) : Digits bytes (bytes.dropWhile isDigit) :=
  ⟨bytes.takeWhile isDigit, (List.takeWhile_append_dropWhile).symm, fun _ inside => List.mem_takeWhile_imp inside⟩

theorem dropWhile_of_digits (digits : Digits before after) (stops : StopsDigits after) :
    before.dropWhile isDigit = after := by
  obtain ⟨digits, rfl, allDigits⟩ := digits
  rw [List.dropWhile_append_of_pos allDigits]
  cases after with
  | nil => rfl
  | cons b rest => exact List.dropWhile_cons_of_neg (by simp [stops b rfl])

theorem digits1_of_skip (skipped : skipDigits1 before = some after) : Digits1 before after := by
  cases before with
  | nil => cases skipped
  | cons b rest =>
    rw [skipDigits1] at skipped
    split at skipped
    · next digit =>
      cases skipped
      exact ⟨b, rest, rfl, digit, digits_dropWhile rest⟩
    · cases skipped

theorem skip_of_digits1 (digits : Digits1 before after) (stops : StopsDigits after) :
    skipDigits1 before = some after := by
  obtain ⟨digit, rest, rfl, isOne, digits⟩ := digits
  rw [skipDigits1, if_pos isOne, dropWhile_of_digits digits stops]

theorem whole_of_skip (skipped : skipWhole before = some after) : Whole before after := by
  cases before with
  | nil => cases skipped
  | cons b rest =>
    rw [skipWhole] at skipped
    split at skipped
    · cases skipped
    · next digit =>
      split at skipped
      · next isZero =>
        cases skipped
        exact .inl (by rw [isZero])
      · next nonzero =>
        cases skipped
        exact .inr ⟨b, rest, rfl, by simpa using digit, nonzero, digits_dropWhile rest⟩

theorem skip_of_whole (whole : Whole before after) (stops : StopsDigits after) : skipWhole before = some after := by
  rcases whole with rfl | ⟨digit, rest, rfl, isOne, nonzero, digits⟩
  · rfl
  · simp [skipWhole, isOne, nonzero, dropWhile_of_digits digits stops]

theorem fraction_of_skip (skipped : skipFraction before = some after) : Fraction before after := by
  cases before with
  | nil =>
    cases skipped
    exact .inl rfl
  | cons b rest =>
    simp only [skipFraction] at skipped
    split at skipped
    · next isPoint => exact .inr ⟨rest, by rw [isPoint], digits1_of_skip skipped⟩
    · cases skipped
      exact .inl rfl

theorem skip_of_fraction (fraction : Fraction before after) (stops : StopsDigits after)
    (pointless : ∀ b ∈ after.head?, b ≠ point) : skipFraction before = some after := by
  rcases fraction with rfl | ⟨rest, rfl, digits⟩
  · cases before with
    | nil => rfl
    | cons b rest => simp [skipFraction, pointless b rfl]
  · simp [skipFraction, skip_of_digits1 digits stops]

theorem exponent_of_skip (skipped : skipExponent before = some after) : Exponent before after := by
  cases before with
  | nil =>
    cases skipped
    exact .inl rfl
  | cons e rest =>
    simp only [skipExponent] at skipped
    split at skipped
    · next isE =>
      cases rest with
      | nil => cases skipped
      | cons sign digits =>
        simp only at skipped
        split at skipped
        · next signed => exact .inr ⟨e, _, rfl, isE, .inr ⟨sign, digits, rfl, signed, digits1_of_skip skipped⟩⟩
        · exact .inr ⟨e, _, rfl, isE, .inl (digits1_of_skip skipped)⟩
    · cases skipped
      exact .inl rfl

theorem sign_not_digit (signed : sign = plus ∨ sign = minus) : isDigit sign = false := by
  rcases signed with rfl | rfl <;> decide

theorem skip_of_exponent (exponent : Exponent before after) (stops : Stops after) :
    skipExponent before = some after := by
  rcases exponent with rfl | ⟨e, rest, rfl, isE, digits | ⟨sign, digits, rfl, signed, number⟩⟩
  · cases before with
    | nil => rfl
    | cons b rest =>
      have stopped := stops b rfl
      simp only [continuesNumber, Bool.or_eq_false_iff] at stopped
      simp [skipExponent, stopped.2]
  · obtain ⟨digit, more, rfl, isOne, digits⟩ := digits
    have unsigned : ¬(digit = plus ∨ digit = minus) := fun signed => by simp [sign_not_digit signed] at isOne
    simp only [skipExponent, isE, if_true, if_neg unsigned]
    exact skip_of_digits1 ⟨digit, more, rfl, isOne, digits⟩ stops.digits
  · simp only [skipExponent, isE, if_true, if_pos signed]
    exact skip_of_digits1 number stops.digits

/-- Before an exponent nothing stands by which a whole or a fraction could go on. -/
theorem Exponent.start (exponent : Exponent before after) (stops : Stops after) :
    StopsDigits before ∧ ∀ b ∈ before.head?, b ≠ point := by
  rcases exponent with rfl | ⟨e, rest, rfl, isE, -⟩
  · refine ⟨stops.digits, fun b head isPoint => ?_⟩
    have stopped := stops b head
    simp [continuesNumber, isPoint] at stopped
  · have kinds : e = 0x65 ∨ e = 0x45 := by simpa [isExponent] using isE
    constructor <;> rintro b ⟨⟩ <;> rcases kinds with rfl | rfl <;> decide

theorem Fraction.start (fraction : Fraction before after) (stops : StopsDigits after) : StopsDigits before := by
  rcases fraction with rfl | ⟨rest, rfl, -⟩
  · exact stops
  · rintro b ⟨⟩
    decide

theorem unsigned_of_skip (skipped : ((skipWhole before).bind skipFraction).bind skipExponent = some after) :
    Unsigned before after := by
  simp only [Option.bind_eq_some_iff] at skipped
  obtain ⟨fraction, ⟨whole, skippedWhole, skippedFraction⟩, skippedExponent⟩ := skipped
  exact ⟨whole, fraction, whole_of_skip skippedWhole, fraction_of_skip skippedFraction,
    exponent_of_skip skippedExponent⟩

theorem skip_of_unsigned (unsigned : Unsigned before after) (stops : Stops after) :
    ((skipWhole before).bind skipFraction).bind skipExponent = some after := by
  obtain ⟨whole, fraction, isWhole, isFraction, isExp⟩ := unsigned
  have start := Exponent.start isExp stops
  rw [skip_of_whole isWhole (Fraction.start isFraction start.1), Option.bind_some,
    skip_of_fraction isFraction start.1 start.2,
    Option.bind_some, skip_of_exponent isExp stops]

theorem Whole.unsigned (whole : Whole (b :: before) after) : b ≠ minus := by
  rintro rfl
  rcases whole with isZero | ⟨digit, rest, same, isOne, -⟩
  · exact absurd (List.cons.inj isZero).1 (by decide)
  · rw [← (List.cons.inj same).1] at isOne
    exact absurd isOne (by decide)

theorem skipNumber_eq (bytes : List UInt8) : skipNumber bytes =
    ((skipWhole (if bytes.head? = some minus then bytes.tail else bytes)).bind skipFraction).bind skipExponent := by
  exact (Option.bind_assoc ..).symm

theorem number_of_skip (skipped : skipNumber before = some after) : Number before after := by
  rw [skipNumber_eq] at skipped
  split at skipped
  · next signed =>
    obtain ⟨rest, rfl⟩ := List.head?_eq_some_iff.mp signed
    exact .inr ⟨rest, rfl, unsigned_of_skip skipped⟩
  · exact .inl (unsigned_of_skip skipped)

theorem skip_of_number (number : Number before after) (stops : Stops after) : skipNumber before = some after := by
  rw [skipNumber_eq]
  rcases number with unsigned | ⟨rest, rfl, unsigned⟩
  · have notSigned : before.head? ≠ some minus := by
      obtain ⟨whole, -, isWhole, -⟩ := unsigned
      intro signed
      obtain ⟨rest, rfl⟩ := List.head?_eq_some_iff.mp signed
      exact Whole.unsigned isWhole rfl
    rw [if_neg notSigned, skip_of_unsigned unsigned stops]
  · exact skip_of_unsigned unsigned stops

theorem expectLiteral_iff : expectLiteral before literal = some after ↔ before = literal ++ after := by
  unfold expectLiteral
  split
  · next starts =>
    obtain ⟨rest, rfl⟩ := List.isPrefixOf_iff_prefix.mp starts
    simp
  · next differs =>
    simp only [reduceCtorEq, false_iff]
    rintro rfl
    exact differs (by simp)

/-! ### What a token takes -/

theorem skipWs_length (bytes : List UInt8) : (skipWs bytes).length ≤ bytes.length :=
  (List.dropWhile_sublist _).length_le

theorem StringEnd.shorter (ended : StringEnd before after) : after.length < before.length := by
  induction ended with
  | close => exact Nat.lt_succ_self _
  | plain _ _ _ _ ih => exact Nat.lt_succ_of_lt ih
  | escape _ _ ih => exact Nat.lt_succ_of_lt (Nat.lt_succ_of_lt ih)
  | unicode _ _ ih =>
    simp only [List.length_cons]
    omega

theorem Digits.shorter (digits : Digits before after) : after.length ≤ before.length := by
  obtain ⟨digits, rfl, -⟩ := digits
  simp

theorem Digits1.shorter (digits : Digits1 before after) : after.length < before.length := by
  obtain ⟨digit, rest, rfl, -, digits⟩ := digits
  exact Nat.lt_succ_of_le (Digits.shorter digits)

theorem Whole.shorter (whole : Whole before after) : after.length < before.length := by
  rcases whole with rfl | ⟨digit, rest, rfl, -, -, digits⟩
  · exact Nat.lt_succ_self _
  · exact Nat.lt_succ_of_le (Digits.shorter digits)

theorem Fraction.shorter (fraction : Fraction before after) : after.length ≤ before.length := by
  rcases fraction with rfl | ⟨rest, rfl, digits⟩
  · exact Nat.le_refl _
  · exact (Nat.lt_succ_of_lt (Digits1.shorter digits)).le

theorem Exponent.shorter (exponent : Exponent before after) : after.length ≤ before.length := by
  rcases exponent with rfl | ⟨e, rest, rfl, -, digits | ⟨sign, digits, rfl, -, number⟩⟩
  · exact Nat.le_refl _
  · exact (Nat.lt_succ_of_lt (Digits1.shorter digits)).le
  · exact (Nat.lt_succ_of_lt (Nat.lt_succ_of_lt (Digits1.shorter number))).le

theorem Number.shorter (number : Number before after) : after.length < before.length := by
  have unsigned {before : List UInt8} (number : Unsigned before after) : after.length < before.length := by
    obtain ⟨whole, fraction, isWhole, isFraction, isExp⟩ := number
    have first := Whole.shorter isWhole
    have second := Fraction.shorter isFraction
    have third := Exponent.shorter isExp
    omega
  rcases number with number | ⟨rest, rfl, number⟩
  · exact unsigned number
  · exact Nat.lt_succ_of_lt (unsigned number)

/-! ### The run -/

/-- The bytes that are left, and below them the flags: what is left of a run. -/
def Loop.left (loop : Loop) : Nat :=
  3 * loop.rest.length + if loop.afterValue then 2 else if loop.expectValue then 0 else 1

theorem completed_left (again : completed stack after = .again next)
    (shorter : ∀ rest, after = some rest → rest.length < length) : next.left < 3 * length := by
  cases after with
  | none => cases again
  | some rest =>
    cases again
    have shorter := shorter rest rfl
    simp only [Loop.left, if_true]
    omega

theorem named_left (again : named stack after = .again next)
    (shorter : ∀ rest, after = some rest → rest.length < length) : next.left < 3 * length := by
  cases after with
  | none => cases again
  | some rest =>
    cases again
    have shorter := shorter rest rfl
    simp only [Loop.left, Bool.false_eq_true, if_false]
    omega

theorem skipString_shorter (skipped : skipString (b :: before) = some after) : after.length < (b :: before).length :=
  Nat.lt_succ_of_lt (StringEnd.shorter (skipStringFrom_iff.mp skipped))

theorem turnValue_left (again : turnValue stack rest = .again next) : next.left < 3 * rest.length := by
  have bound := skipWs_length rest
  unfold turnValue at again
  split at again
  · cases again
  · next b after skipped =>
    rw [skipped] at bound
    have token {result : Option (List UInt8)} (again : completed stack result = .again next)
        (shorter : ∀ left, result = some left → left.length < (b :: after).length) : next.left < 3 * rest.length :=
      (completed_left again shorter).trans_le (by omega)
    have open' (frame : Frame) : Loop.left { stack := frame :: stack, rest := after } < 3 * rest.length := by
      simp only [List.length_cons] at bound
      simp only [Loop.left, Bool.false_eq_true, if_false]
      omega
    have literal (name : List UInt8) (nonempty : name ≠ []) (left : List UInt8)
        (skipped : expectLiteral (b :: after) name = some left) : left.length < (b :: after).length := by
      rw [expectLiteral_iff.mp skipped, List.length_append]
      have := List.length_pos_of_ne_nil nonempty
      omega
    simp only at again
    split at again
    · cases again
      exact open' _
    split at again
    · cases again
      exact open' _
    split at again
    · exact token again fun _ => skipString_shorter
    split at again
    · exact token again (literal _ (by simp))
    split at again
    · exact token again (literal _ (by simp))
    split at again
    · exact token again (literal _ (by simp))
    split at again
    · exact token again fun _ skipped => Number.shorter (number_of_skip skipped)
    · cases again

theorem turnFrame_left (again : turnFrame stack rest = .again next) : next.left < 3 * rest.length + 1 := by
  have bound := skipWs_length rest
  unfold turnFrame at again
  split at again
  · cases again
  · next b after skipped =>
    rw [skipped, List.length_cons] at bound
    have name {below : List Frame} (again : named below (skipString (b :: after)) = .again next) :
        next.left < 3 * rest.length + 1 :=
      (named_left again fun _ => skipString_shorter).trans_le (by simp only [List.length_cons]; omega)
    simp only at again
    repeat' split at again
    all_goals first
      | cases again
        simp only [Loop.left, List.length_cons, if_true, Bool.false_eq_true, if_false]
        omega
      | exact name again
      | cases again

theorem turn_left (again : turn loop = .again next) : next.left < loop.left := by
  unfold turn at again
  split at again
  · next after =>
    have bound := skipWs_length loop.rest
    split at again
    · cases again
    · cases again
      simp only [Loop.left, after, if_true, Bool.false_eq_true, if_false]
      omega
  · next before =>
    split at again
    · next expecting =>
      have bound := turnValue_left again
      have left : loop.left = 3 * loop.rest.length := by simp [Loop.left, before, expecting]
      exact left ▸ bound
    · next idle =>
      have bound := turnFrame_left again
      simpa only [Loop.left, before, idle, Bool.false_eq_true, if_false] using bound

def run (loop : Loop) : Bool :=
  match _ended : turn loop with
  | .stop valid => valid
  | .again next => run next
termination_by loop.left
decreasing_by exact turn_left ‹_›

/-- `json_validate`. -/
def jsonValidate (text : String) : Bool := run { rest := Text.utf8 text, expectValue := true }

/-! ### What is still to come -/

variable {opens : Bool → UInt8 → Prop}

def AfterMember (opens : Bool → UInt8 → Prop) (rest after : List UInt8) : Prop :=
  Ws rest (closeBrace :: after) ∨
    ∃ next, Ws rest (comma :: next) ∧ Derives opens (.members false) next (closeBrace :: after)

def AfterElement (opens : Bool → UInt8 → Prop) (rest after : List UInt8) : Prop :=
  Ws rest (closeBracket :: after) ∨
    ∃ next, Ws rest (comma :: next) ∧ Derives opens .elements next (closeBracket :: after)

/-- What is left of an object after a colon. -/
def MemberValue (opens : Bool → UInt8 → Prop) (rest after : List UInt8) : Prop :=
  ∃ start stop, Ws rest start ∧ Derives opens .value start stop ∧ AfterMember opens stop after

/-- The bytes from `rest` to `after` are what is left of the open container. -/
def Pending (opens : Bool → UInt8 → Prop) : Frame → List UInt8 → List UInt8 → Prop
  | .obj .first, rest, after =>
    Ws rest (closeBrace :: after) ∨ Derives opens (.members true) rest (closeBrace :: after)
  | .obj .key, rest, after => Derives opens (.members false) rest (closeBrace :: after)
  | .obj .colon, rest, after => ∃ next, Ws rest (Json.colon :: next) ∧ MemberValue opens next after
  | .obj .value, rest, after => MemberValue opens rest after
  | .obj .comma, rest, after => AfterMember opens rest after
  | .arr .first, rest, after =>
    Ws rest (closeBracket :: after) ∨ Derives opens .elements rest (closeBracket :: after)
  | .arr .value, rest, after => Derives opens .elements rest (closeBracket :: after)
  | .arr .comma, rest, after => AfterElement opens rest after

/-- What is left of the containers of a stack after a value in the innermost one, and white space. -/
def Closes (opens : Bool → UInt8 → Prop) : List Frame → List UInt8 → Prop
  | [], rest => Ws rest []
  | frame :: below, rest => ∃ after, Pending opens frame.completed rest after ∧ Closes opens below after

/-- A value, and what is left of the containers after it. -/
def FitsValue (opens : Bool → UInt8 → Prop) (stack : List Frame) (rest : List UInt8) : Prop :=
  ∃ start stop, Ws rest start ∧ Derives opens .value start stop ∧ Closes opens stack stop

/-- What is left of the innermost container, and of those around it. -/
def FitsFrame (opens : Bool → UInt8 → Prop) : List Frame → List UInt8 → Prop
  | [], rest => FitsValue opens [] rest
  | frame :: below, rest => ∃ after, Pending opens frame rest after ∧ Closes opens below after

/-- The rest of the bytes is what the loop still waits for. -/
def Fits (opens : Bool → UInt8 → Prop) (loop : Loop) : Prop :=
  if loop.afterValue then Closes opens loop.stack loop.rest
  else if loop.expectValue then FitsValue opens loop.stack loop.rest
  else FitsFrame opens loop.stack loop.rest

/-- What the end of a turn says about the bytes. -/
def Turn.Fits (opens : Bool → UInt8 → Prop) : Turn → Prop
  | .stop valid => valid = true
  | .again next => JsonValidate.Fits opens next

theorem members_iff : Derives opens (.members first) rest (closeBrace :: after) ↔
    ∃ b name next, Ws rest (b :: name) ∧ opens first b ∧ StringEnd name next ∧
      Pending opens (.obj .colon) next after := by
  constructor
  · intro derives
    cases derives with
    | member lead opened named gap gap' value trail =>
      exact ⟨_, _, _, lead, opened, named, _, gap, _, _, gap', value, .inl trail⟩
    | members lead opened named gap gap' value trail rest =>
      exact ⟨_, _, _, lead, opened, named, _, gap, _, _, gap', value, .inr ⟨_, trail, rest⟩⟩
  · rintro ⟨b, name, next, lead, opened, named, beforeValue, gap, start, stop, gap', value, trail | ⟨more, trail, rest⟩⟩
    · exact .member lead opened named gap gap' value trail
    · exact .members lead opened named gap gap' value trail rest

theorem elements_iff : Derives opens .elements rest (closeBracket :: after) ↔
    ∃ start stop, Ws rest start ∧ Derives opens .value start stop ∧ AfterElement opens stop after := by
  constructor
  · intro derives
    cases derives with
    | @element _ start stop _ lead value trail => exact ⟨start, stop, lead, value, .inl trail⟩
    | @elements _ start stop next _ lead value trail rest => exact ⟨start, stop, lead, value, .inr ⟨next, trail, rest⟩⟩
  · rintro ⟨start, stop, lead, value, trail | ⟨next, trail, rest⟩⟩
    · exact .element lead value trail
    · exact .elements lead value trail rest

theorem Number.start (number : Number (b :: rest) after) : (b = minus || isDigit b) = true := by
  have unsigned (unsigned : Unsigned (b :: rest) after) : isDigit b = true := by
    obtain ⟨whole, -, isWhole | ⟨digit, more, same, isOne, -⟩, -⟩ := unsigned
    · rw [(List.cons.inj isWhole).1]
      decide
    · rw [(List.cons.inj same).1]
      exact isOne
  rcases number with number | ⟨more, same, -⟩
  · simp [unsigned number]
  · simp [(List.cons.inj same).1]

/-- A literal name begins with the first letter of `true`, `false` or `null`. -/
theorem literal_start (word : name ∈ literals) (text : b :: rest = name ++ after) :
    b = 0x74 ∧ name = [0x74, 0x72, 0x75, 0x65] ∨ b = 0x66 ∧ name = [0x66, 0x61, 0x6C, 0x73, 0x65] ∨
      b = 0x6E ∧ name = [0x6E, 0x75, 0x6C, 0x6C] := by
  simp only [literals, List.mem_cons, List.not_mem_nil, or_false] at word
  rcases word with rfl | rfl | rfl <;> simp only [List.cons_append, List.cons.injEq] at text <;> simp [text.1]

theorem value_cons_iff : Derives opens .value (b :: rest) after ↔
    if b = openBrace then Pending opens (.obj .first) rest after
    else if b = openBracket then Pending opens (.arr .first) rest after
    else if b = quote then StringEnd rest after
    else if b = 0x74 then b :: rest = [0x74, 0x72, 0x75, 0x65] ++ after
    else if b = 0x66 then b :: rest = [0x66, 0x61, 0x6C, 0x73, 0x65] ++ after
    else if b = 0x6E then b :: rest = [0x6E, 0x75, 0x6C, 0x6C] ++ after
    else if (b = minus || isDigit b) = true then Number (b :: rest) after
    else False := by
  constructor
  · intro derives
    generalize text : b :: rest = before at derives
    cases derives with
    | literal word =>
      rcases literal_start word text with ⟨rfl, rfl⟩ | ⟨rfl, rfl⟩ | ⟨rfl, rfl⟩ <;>
        simp [openBrace, openBracket, quote]
    | number number =>
      subst text
      have start := Number.start number
      iterate 6
        split
        · next same =>
          rw [same] at start
          exact absurd start (by decide)
      exact number
    | string rest =>
      cases text
      exact rest
    | emptyArray blank =>
      cases text
      exact .inl blank
    | array elements =>
      cases text
      exact .inr elements
    | emptyObject blank =>
      cases text
      exact .inl blank
    | object members =>
      cases text
      exact .inr members
  · intro pending
    split at pending
    · next brace =>
      subst brace
      rcases pending with blank | members
      · exact .emptyObject blank
      · exact .object members
    split at pending
    · next bracket =>
      subst bracket
      rcases pending with blank | elements
      · exact .emptyArray blank
      · exact .array elements
    split at pending
    · next quoted =>
      subst quoted
      exact .string pending
    split at pending
    · rw [pending]
      exact .literal (by simp [literals])
    split at pending
    · rw [pending]
      exact .literal (by simp [literals])
    split at pending
    · rw [pending]
      exact .literal (by simp [literals])
    split at pending
    · exact .number pending
    · exact pending.elim

theorem value_start (derives : Derives opens .value start stop) : ∃ b rest, start = b :: rest ∧ isWs b = false := by
  cases derives with
  | literal word =>
    simp only [literals, List.mem_cons, List.not_mem_nil, or_false] at word
    rcases word with rfl | rfl | rfl <;> exact ⟨_, _, rfl, by decide⟩
  | number number =>
    cases start with
    | nil => exact absurd (Number.shorter number) (by simp)
    | cons b rest =>
      refine ⟨b, rest, rfl, ?_⟩
      by_contra blank
      have start := Number.start number
      simp only [isWs, Bool.or_eq_true, decide_eq_true_eq, Bool.not_eq_false] at blank
      rcases blank with ((rfl | rfl) | rfl) | rfl <;> exact absurd start (by decide)
  | string => exact ⟨_, _, rfl, by decide⟩
  | emptyArray => exact ⟨_, _, rfl, by decide⟩
  | array => exact ⟨_, _, rfl, by decide⟩
  | emptyObject => exact ⟨_, _, rfl, by decide⟩
  | object => exact ⟨_, _, rfl, by decide⟩

/-- Where a value is due, the white space before it is passed over. -/
theorem fitsValue_iff : FitsValue opens stack rest ↔
    ∃ stop, Derives opens .value (skipWs rest) stop ∧ Closes opens stack stop := by
  constructor
  · rintro ⟨start, stop, lead, value, closes⟩
    obtain ⟨b, more, rfl, printed⟩ := value_start value
    exact ⟨stop, (skipWs_of_ws lead printed) ▸ value, closes⟩
  · rintro ⟨stop, value, closes⟩
    exact ⟨_, stop, ws_skipWs rest, value, closes⟩

/-- White space, and a byte by which no number goes on, or nothing. -/
theorem Ws.stops (blank : Ws rest after) (stops : Stops after) : Stops rest := by
  obtain ⟨blanks, rfl, white⟩ := blank
  cases blanks with
  | nil => exact stops
  | cons b blanks =>
    rintro b ⟨⟩
    have blank := white b List.mem_cons_self
    simp only [isWs, Bool.or_eq_true, decide_eq_true_eq] at blank
    rcases blank with ((rfl | rfl) | rfl) | rfl <;> decide

theorem stops_cons (stopped : continuesNumber b = false) : Stops (b :: after) := by
  rintro b ⟨⟩
  exact stopped

/-- What follows a value is nothing by which a number could go on. -/
theorem Closes.stops (closes : Closes opens stack rest) : Stops rest := by
  cases stack with
  | nil => exact Ws.stops closes (by rintro b ⟨⟩)
  | cons frame below =>
    obtain ⟨after, pending, -⟩ := closes
    cases frame with
    | obj =>
      rcases pending with trail | ⟨next, trail, -⟩
      · exact Ws.stops trail (stops_cons (by decide))
      · exact Ws.stops trail (stops_cons (by decide))
    | arr =>
      rcases pending with trail | ⟨next, trail, -⟩
      · exact Ws.stops trail (stops_cons (by decide))
      · exact Ws.stops trail (stops_cons (by decide))

/-- A token that the scanner skips as the grammar takes it. -/
theorem completed_fits {Token : List UInt8 → Prop}
    (takes : ∀ stop, Closes opens stack stop → (skipped = some stop ↔ Token stop)) :
    (completed stack skipped).Fits opens ↔ ∃ stop, Token stop ∧ Closes opens stack stop := by
  cases skipped with
  | none =>
    simp only [completed, Turn.Fits, Bool.false_eq_true, false_iff]
    rintro ⟨stop, token, closes⟩
    cases (takes stop closes).mpr token
  | some rest =>
    simp only [completed, Turn.Fits, Fits, if_true]
    constructor
    · intro closes
      exact ⟨rest, (takes rest closes).mp rfl, closes⟩
    · rintro ⟨stop, token, closes⟩
      cases (takes stop closes).mpr token
      exact closes

theorem turnValue_fits : (turnValue stack rest).Fits opens ↔ FitsValue opens stack rest := by
  rw [fitsValue_iff]
  unfold turnValue
  cases skipWs rest with
  | nil =>
    simp only [Turn.Fits, Bool.false_eq_true, false_iff]
    rintro ⟨stop, value, -⟩
    obtain ⟨b, more, same, -⟩ := value_start value
    cases same
  | cons b after =>
    simp only [value_cons_iff]
    split
    · exact Iff.rfl
    split
    · exact Iff.rfl
    split
    · exact completed_fits fun stop _ => skipStringFrom_iff
    split
    · exact completed_fits fun stop _ => expectLiteral_iff
    split
    · exact completed_fits fun stop _ => expectLiteral_iff
    split
    · exact completed_fits fun stop _ => expectLiteral_iff
    split
    · exact completed_fits fun stop closes =>
        ⟨number_of_skip, fun number => skip_of_number number (Closes.stops closes)⟩
    · simp [Turn.Fits]

/-- The bytes that the validator takes for the opening of a name: all but white space, and
but the brace that closes an empty object. -/
def loose (first : Bool) (b : UInt8) : Prop := isWs b = false ∧ (first = true → b ≠ closeBrace)

theorem fitsValue_skipWs : FitsValue opens stack (skipWs rest) ↔ FitsValue opens stack rest := by
  rw [fitsValue_iff, fitsValue_iff, skipWs_skipWs]

/-- White space before a byte, where the next byte that is not white space is known. -/
theorem ws_cons_iff (skipped : skipWs rest = b :: after) (printed : isWs c = false) :
    Ws rest (c :: next) ↔ b = c ∧ after = next := by
  rw [ws_iff_skipWs printed, skipped, List.cons.injEq]

theorem skipWs_printed (skipped : skipWs rest = b :: after) : isWs b = false := by
  by_contra blank
  have once := skipWs_skipWs rest
  have shorter := skipWs_length after
  rw [skipped, skipWs, List.dropWhile_cons_of_pos (by simpa using blank), ← skipWs] at once
  rw [once, List.length_cons] at shorter
  omega

theorem members_cons_iff (skipped : skipWs rest = b :: name) :
    Derives loose (.members first) rest (closeBrace :: after) ↔
    (first = true → b ≠ closeBrace) ∧ ∃ next, StringEnd name next ∧ Pending loose (.obj .colon) next after := by
  rw [members_iff]
  constructor
  · rintro ⟨c, text, next, lead, opened, ended, pending⟩
    obtain ⟨rfl, rfl⟩ := (ws_cons_iff skipped opened.1).mp lead
    exact ⟨opened.2, next, ended, pending⟩
  · rintro ⟨opened, next, ended, pending⟩
    have printed := skipWs_printed skipped
    exact ⟨b, name, next, (ws_cons_iff skipped printed).mpr ⟨rfl, rfl⟩, ⟨printed, opened⟩, ended, pending⟩

theorem named_fits : (named below (skipStringFrom name)).Fits opens ↔
    ∃ after, (∃ next, StringEnd name next ∧ Pending opens (.obj .colon) next after) ∧ Closes opens below after := by
  cases scanned : skipStringFrom name with
  | none =>
    simp only [named, Turn.Fits, Bool.false_eq_true, false_iff]
    rintro ⟨-, ⟨next, ended, -⟩, -⟩
    cases scanned.symm.trans (skipStringFrom_iff.mpr ended)
  | some rest =>
    simp only [named, Turn.Fits, Fits, FitsFrame, Bool.false_eq_true, if_false]
    constructor
    · rintro ⟨after, pending, closes⟩
      exact ⟨after, ⟨rest, skipStringFrom_iff.mp scanned, pending⟩, closes⟩
    · rintro ⟨after, ⟨next, ended, pending⟩, closes⟩
      cases scanned.symm.trans (skipStringFrom_iff.mpr ended)
      exact ⟨after, pending, closes⟩

theorem memberValue_fits : FitsValue opens (.obj state :: below) rest ↔
    ∃ after, MemberValue opens rest after ∧ Closes opens below after := by
  constructor
  · rintro ⟨start, stop, lead, value, after, trail, closes⟩
    exact ⟨after, ⟨start, stop, lead, value, trail⟩, closes⟩
  · rintro ⟨after, ⟨start, stop, lead, value, trail⟩, closes⟩
    exact ⟨start, stop, lead, value, after, trail, closes⟩

/-- A value due in an array is what is left of the array. -/
theorem element_fits : FitsValue opens (.arr state :: below) rest ↔
    ∃ after, Derives opens .elements rest (closeBracket :: after) ∧ Closes opens below after := by
  constructor
  · rintro ⟨start, stop, lead, value, after, trail, closes⟩
    exact ⟨after, elements_iff.mpr ⟨start, stop, lead, value, trail⟩, closes⟩
  · rintro ⟨after, elements, closes⟩
    obtain ⟨start, stop, lead, value, trail⟩ := elements_iff.mp elements
    exact ⟨start, stop, lead, value, after, trail, closes⟩

theorem pending_printed (pending : Pending loose frame rest after) : skipWs rest ≠ [] := by
  have cons {c : UInt8} {next : List UInt8} (printed : isWs c = false) (lead : Ws rest (c :: next)) :
    skipWs rest ≠ [] := by
    rw [skipWs_of_ws lead printed]
    exact List.cons_ne_nil _ _
  have value {start stop : List UInt8} (lead : Ws rest start) (value : Derives loose .value start stop) :
    skipWs rest ≠ [] := by
    obtain ⟨b, more, rfl, printed⟩ := value_start value
    exact cons printed lead
  have members {first : Bool} (members : Derives loose (.members first) rest (closeBrace :: after)) :
    skipWs rest ≠ [] := by
    obtain ⟨b, name, -, lead, opened, -⟩ := members_iff.mp members
    exact cons opened.1 lead
  have elements (elements : Derives loose .elements rest (closeBracket :: after)) : skipWs rest ≠ [] := by
    obtain ⟨start, stop, lead, derives, -⟩ := elements_iff.mp elements
    exact value lead derives
  match frame, pending with
  | .obj .first, .inl lead => exact cons (by decide) lead
  | .obj .first, .inr derives => exact members derives
  | .obj .key, derives => exact members derives
  | .obj .colon, ⟨_, lead, _⟩ => exact cons (by decide) lead
  | .obj .value, ⟨_, _, lead, derives, _⟩ => exact value lead derives
  | .obj .comma, .inl lead => exact cons (by decide) lead
  | .obj .comma, .inr ⟨_, lead, _⟩ => exact cons (by decide) lead
  | .arr .first, .inl lead => exact cons (by decide) lead
  | .arr .first, .inr derives => exact elements derives
  | .arr .value, derives => exact elements derives
  | .arr .comma, .inl lead => exact cons (by decide) lead
  | .arr .comma, .inr ⟨_, lead, _⟩ => exact cons (by decide) lead

theorem turnFrame_fits : (turnFrame stack rest).Fits loose ↔ FitsFrame loose stack rest := by
  unfold turnFrame
  cases skipped : skipWs rest with
  | nil =>
    simp only [Turn.Fits, Bool.false_eq_true, false_iff]
    intro fits
    cases stack with
    | nil =>
      obtain ⟨stop, value, -⟩ := fitsValue_iff.mp fits
      obtain ⟨b, more, same, -⟩ := value_start value
      cases skipped.symm.trans same
    | cons frame below =>
      obtain ⟨after, pending, -⟩ := fits
      exact pending_printed pending skipped
  | cons b after =>
    have due (stack : List Frame) : FitsValue loose stack (b :: after) ↔ FitsValue loose stack rest := by
      rw [← skipped, fitsValue_skipWs]
    match stack with
    | [] => exact due []
    | .obj .first :: below =>
      change Turn.Fits loose _ ↔ ∃ end', (Ws rest (closeBrace :: end') ∨
        Derives loose (.members true) rest (closeBrace :: end')) ∧ _
      simp only [ws_cons_iff skipped (show isWs closeBrace = false by decide), members_cons_iff skipped]
      split
      · next brace => simp [brace, Turn.Fits, Fits]
      · next other =>
        simp only [other, false_and, false_or, ne_eq, not_false_eq_true, implies_true, true_and]
        exact named_fits
    | .obj .key :: below =>
      change Turn.Fits loose _ ↔ ∃ end', Derives loose (.members false) rest (closeBrace :: end') ∧ _
      simp only [members_cons_iff skipped, Bool.false_eq_true, false_implies, true_and]
      exact named_fits
    | .obj .colon :: below =>
      change Turn.Fits loose _ ↔ ∃ end', (∃ next, Ws rest (Json.colon :: next) ∧ MemberValue loose next end') ∧ _
      simp only [ws_cons_iff skipped (show isWs Json.colon = false by decide)]
      split
      · next other => simp [other, Turn.Fits]
      · next isColon =>
        simp only [not_not] at isColon
        simp [isColon, Turn.Fits, Fits, FitsFrame, Pending]
    | .obj .value :: below => exact (due _).trans memberValue_fits
    | .obj .comma :: below =>
      change Turn.Fits loose _ ↔ ∃ end', (Ws rest (closeBrace :: end') ∨
        ∃ next, Ws rest (Json.comma :: next) ∧ Derives loose (.members false) next (closeBrace :: end')) ∧ _
      simp only [ws_cons_iff skipped (show isWs closeBrace = false by decide),
        ws_cons_iff skipped (show isWs Json.comma = false by decide)]
      split
      · next isComma =>
        simp [isComma, show Json.comma ≠ closeBrace by decide, Turn.Fits, Fits, FitsFrame, Pending]
      split
      · next brace => simp [brace, show closeBrace ≠ Json.comma by decide, Turn.Fits, Fits]
      · next noComma noBrace => simp [noComma, noBrace, Turn.Fits]
    | .arr .first :: below =>
      have noElement (closing : b = closeBracket) (end' : List UInt8) :
          ¬ Derives loose .elements rest (closeBracket :: end') := by
        intro elements
        obtain ⟨start, stop, lead, value, -⟩ := elements_iff.mp elements
        obtain ⟨c, more, rfl, printed⟩ := value_start value
        obtain ⟨rfl, rfl⟩ := (ws_cons_iff skipped printed).mp lead
        rw [value_cons_iff, closing] at value
        simp [openBrace, openBracket, closeBracket, quote, minus, isDigit] at value
      change Turn.Fits loose _ ↔ ∃ end', (Ws rest (closeBracket :: end') ∨
        Derives loose .elements rest (closeBracket :: end')) ∧ _
      simp only [ws_cons_iff skipped (show isWs closeBracket = false by decide)]
      split
      · next closing => simp [closing, noElement closing, Turn.Fits, Fits]
      · next other =>
        simp only [other, false_and, false_or]
        exact (due _).trans element_fits
    | .arr .value :: below => exact (due _).trans element_fits
    | .arr .comma :: below =>
      change Turn.Fits loose _ ↔ ∃ end', (Ws rest (closeBracket :: end') ∨
        ∃ next, Ws rest (Json.comma :: next) ∧ Derives loose .elements next (closeBracket :: end')) ∧ _
      simp only [ws_cons_iff skipped (show isWs closeBracket = false by decide),
        ws_cons_iff skipped (show isWs Json.comma = false by decide)]
      split
      · next isComma =>
        simp [isComma, show Json.comma ≠ closeBracket by decide, Turn.Fits, Fits, FitsFrame, Pending]
      split
      · next closing => simp [closing, show closeBracket ≠ Json.comma by decide, Turn.Fits, Fits]
      · next noComma noBracket => simp [noComma, noBracket, Turn.Fits]

theorem completed_skipWs : Pending opens (Frame.completed frame) (skipWs rest) after ↔
    Pending opens (Frame.completed frame) rest after := by
  have trimmed {c : UInt8} (printed : isWs c = false) (next : List UInt8) :
      Ws (skipWs rest) (c :: next) ↔ Ws rest (c :: next) := by
    rw [ws_iff_skipWs printed, ws_iff_skipWs printed, skipWs_skipWs]
  have isComma := trimmed (show isWs Json.comma = false by decide)
  cases frame with
  | obj => exact or_congr (trimmed (by decide) _) (exists_congr fun next => and_congr_left' (isComma next))
  | arr => exact or_congr (trimmed (by decide) _) (exists_congr fun next => and_congr_left' (isComma next))

theorem turn_fits : (turn loop).Fits loose ↔ Fits loose loop := by
  unfold turn Fits
  split
  · cases loop.stack with
    | nil =>
      simp only [Turn.Fits, Closes, List.isEmpty_iff]
      exact skipWs_nil_iff
    | cons frame below =>
      simp only [Turn.Fits, Fits, FitsFrame, Closes, Bool.false_eq_true, if_false, completed_skipWs]
  · split
    · exact turnValue_fits
    · exact turnFrame_fits

theorem run_fits : run loop = true ↔ Fits loose loop := by
  fun_induction run loop with
  | case1 loop valid stopped =>
    rw [← turn_fits, stopped]
    rfl
  | case2 loop next again ih =>
    rw [ih, ← @turn_fits loop, again]
    rfl

theorem jsonValidate_iff : jsonValidate text = true ↔ IsText loose (Text.utf8 text) := by
  rw [jsonValidate, run_fits]
  rfl

/-- JSON but for the byte that opens some member's name. -/
def Misnamed (text : List UInt8) : Prop := IsText loose text ∧ ¬ IsJson text

theorem isJson_loose (isJson : IsJson text) : IsText loose text :=
  isJson.mono fun first b opened => by
    subst opened
    exact ⟨by decide, fun _ => by decide⟩

/-- The validator decides whether a text is JSON, unless it is but for the opening of a name. -/
theorem jsonValidate_json (text : String) :
    (jsonValidate text = true ↔ IsJson (Text.utf8 text)) ↔ ¬ Misnamed (Text.utf8 text) := by
  rw [jsonValidate_iff, Misnamed, not_and_not_right]
  exact ⟨fun same => same.mp, fun named => ⟨named, isJson_loose⟩⟩

/-- `{x":1}`: an `x` stands for the quotation mark that opens the name. -/
theorem jsonValidate_misnamed : ¬ (jsonValidate "\x7bx\":1\x7d" = true ↔ IsJson (Text.utf8 "\x7bx\":1\x7d")) := by
  have bytes : Text.utf8 "\x7bx\":1\x7d" = [openBrace, 0x78, quote, Json.colon, 0x31, closeBrace] := by decide
  have accepted : jsonValidate "\x7bx\":1\x7d" = true := by decide +kernel
  intro same
  obtain ⟨start, stop, lead, value, -⟩ := bytes ▸ same.mp accepted
  obtain ⟨b, more, rfl, printed⟩ := value_start value
  obtain ⟨rfl, rfl⟩ := (ws_cons_iff rfl printed).mp lead
  rcases value_cons_iff.mp value with blank | members
  · exact absurd ((ws_cons_iff rfl (by decide)).mp blank).1 (by decide)
  · obtain ⟨b, name, next, lead, rfl, -⟩ := members_iff.mp members
    exact absurd ((ws_cons_iff rfl (by decide)).mp lead).1 (by decide)

end QueryHive.Store.JsonValidate
