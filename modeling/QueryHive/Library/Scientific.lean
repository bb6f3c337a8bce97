import Mathlib.Data.List.TakeWhile
import QueryHive.Library.Binary64
import QueryHive.Library.Numeral

/-! Decimal numbers as a standard library reads floats: a sign, digits with an optional point among them, and an
exponent; or one of the words for what is not a number. -/
namespace QueryHive.Library.Scientific
open Numeral Binary64

structure Parts where
  negative : Bool
  whole : List Char
  fraction : List Char
  exponent : Int
  deriving DecidableEq, Repr

def Parts.number (parts : Parts) : ℚ :=
  (if parts.negative then -1 else 1) * value (parts.whole ++ parts.fraction) * 10 ^
    (parts.exponent - parts.fraction.length)

/-- The text after one optional sign, and whether that is a minus. -/
def splitSign : List Char → Bool × List Char
  | '-' :: rest => (true, rest)
  | '+' :: rest => (false, rest)
  | text => (false, text)

/-- The digits behind the point, and what stands behind them. -/
def splitFraction : List Char → List Char × List Char
  | '.' :: rest => (rest.takeWhile Char.isDigit, rest.dropWhile Char.isDigit)
  | rest => ([], rest)

/-- The exponent behind its letter; without one it is zero. -/
def readExponent : List Char → Option Int
  | [] => some 0
  | e :: rest =>
    if e = 'e' ∨ e = 'E' then
      let (negative, digits) := splitSign rest
      (readNat digits).map fun n : Nat => if negative then -(n : Int) else n
    else none

def readParts (text : List Char) : Option Parts :=
  let (negative, body) := splitSign text
  let whole := body.takeWhile Char.isDigit
  let (fraction, behind) := splitFraction (body.dropWhile Char.isDigit)
  if whole = [] ∧ fraction = [] then none
  else (readExponent behind).map fun exponent => ⟨negative, whole, fraction, exponent⟩

def isInfinityWord (word : List Char) : Bool :=
  word = ['i', 'n', 'f'] || word = ['i', 'n', 'f', 'i', 'n', 'i', 't', 'y']

def readDouble (text : List Char) : Option Double :=
  match readParts text with
  | some parts =>
    match nearest parts.number with
    | some x => some (.finite x)
    | none => some .infinite
  | none =>
    let word := (splitSign text).2.map Char.toLower
    if isInfinityWord word then some .infinite
    else if word = ['n', 'a', 'n'] then some .nan
    else none

/-- A sign in front of a number. -/
inductive Sign : Bool → List Char → Prop
  | none : Sign false []
  | plus : Sign false ['+']
  | minus : Sign true ['-']

inductive Point : List Char → List Char → Prop
  | none : Point [] []
  | point (digits : allDigits fraction = true) : Point fraction ('.' :: fraction)

inductive Exponent : Int → List Char → Prop
  | none : Exponent 0 []
  | some (letter : e = 'e' ∨ e = 'E') (sign : Sign negative mark) (filled : digits ≠ [])
    (all : allDigits digits = true) :
      Exponent (if negative then -(value digits : Int) else value digits) (e :: (mark ++ digits))

/-- A text of these parts. -/
inductive Spells (parts : Parts) : List Char → Prop
  | mk (sign : Sign parts.negative mark) (whole : allDigits parts.whole = true) (point : Point parts.fraction fraction)
      (filled : parts.whole ≠ [] ∨ parts.fraction ≠ []) (exponent : Exponent parts.exponent behind) :
      Spells parts (mark ++ (parts.whole ++ (fraction ++ behind)))

theorem sign_splitSign (text : List Char) :
    ∃ mark, Sign (splitSign text).1 mark ∧ text = mark ++ (splitSign text).2 := by
  unfold splitSign
  split
  · exact ⟨['-'], .minus, rfl⟩
  · exact ⟨['+'], .plus, rfl⟩
  · exact ⟨[], .none, rfl⟩

theorem point_splitFraction (text : List Char) :
    ∃ fraction, Point (splitFraction text).1 fraction ∧ text = fraction ++ (splitFraction text).2 := by
  unfold splitFraction
  split
  · next rest =>
    refine ⟨'.' :: rest.takeWhile Char.isDigit, .point (List.all_eq_true.mpr fun _ => List.mem_takeWhile_imp), ?_⟩
    rw [List.cons_append, List.takeWhile_append_dropWhile]
  · exact ⟨[], .none, rfl⟩

theorem exponent_of_readExponent (read : readExponent text = some exponent) : Exponent exponent text := by
  cases text with
  | nil =>
    cases read
    exact .none
  | cons e rest =>
    rw [readExponent] at read
    split_ifs at read with letter
    obtain ⟨mark, sign, split⟩ := sign_splitSign rest
    cases taken : splitSign rest with
    | mk negative digits =>
      rw [taken] at read sign split
      obtain ⟨n, number, rfl⟩ := Option.map_eq_some_iff.mp read
      unfold readNat at number
      split_ifs at number with whole
      cases number
      rw [split]
      exact .some letter sign whole.1 whole.2

theorem spells_of_readParts (read : readParts text = some parts) : Spells parts text := by
  obtain ⟨mark, sign, split⟩ := sign_splitSign text
  unfold readParts at read
  dsimp only at read
  generalize body : (splitSign text).2 = rest at *
  obtain ⟨fraction, point, behind⟩ := point_splitFraction (rest.dropWhile Char.isDigit)
  split_ifs at read with empty
  obtain ⟨exponent, found, rfl⟩ := Option.map_eq_some_iff.mp read
  have whole : rest = rest.takeWhile Char.isDigit ++ (fraction ++ (splitFraction (rest.dropWhile Char.isDigit)).2) := by
    rw [← behind, List.takeWhile_append_dropWhile]
  have filled : rest.takeWhile Char.isDigit ≠ [] ∨ (splitFraction (rest.dropWhile Char.isDigit)).1 ≠ [] := by
    simpa [or_iff_not_and_not] using empty
  have spelled : Spells ⟨(splitSign text).1, rest.takeWhile Char.isDigit,
    (splitFraction (rest.dropWhile Char.isDigit)).1, exponent⟩
      (mark ++ (rest.takeWhile Char.isDigit ++ (fraction ++ (splitFraction (rest.dropWhile Char.isDigit)).2))) :=
    .mk sign (List.all_eq_true.mpr fun _ => List.mem_takeWhile_imp) point filled (exponent_of_readExponent found)
  rwa [← whole, ← split] at spelled

theorem splitSign_sign (sign : Sign negative mark) (bare : ∀ c ∈ text.head?, c ≠ '+' ∧ c ≠ '-') :
    splitSign (mark ++ text) = (negative, text) := by
  cases sign with
  | none =>
    cases text with
    | nil => rfl
    | cons c rest =>
      obtain ⟨plus, minus⟩ := bare c rfl
      simp [splitSign, plus, minus]
  | plus => rfl
  | minus => rfl

theorem digit_ne_sign {c : Char} (digit : c.isDigit = true) : c ≠ '+' ∧ c ≠ '-' :=
  ⟨fun same => absurd (same ▸ digit) (by decide), fun same => absurd (same ▸ digit) (by decide)⟩

theorem head_digits (all : allDigits digits = true) : ∀ c ∈ digits.head?, c ≠ '+' ∧ c ≠ '-' :=
  fun _ head => digit_ne_sign (digit_of_allDigits all (List.mem_of_head? head))

theorem takeWhile_digits (all : allDigits digits = true) (ends : ∀ c ∈ text.head?, c.isDigit = false) :
    (digits ++ text).takeWhile Char.isDigit = digits ∧ (digits ++ text).dropWhile Char.isDigit = text := by
  have digit : ∀ c ∈ digits, c.isDigit = true := fun _ => digit_of_allDigits all
  rw [List.takeWhile_append_of_pos digit, List.dropWhile_append_of_pos digit]
  cases text with
  | nil => exact ⟨List.append_nil _, rfl⟩
  | cons c rest =>
    have other := ends c rfl
    simp [other]

theorem readExponent_of_exponent (written : Exponent exponent text) : readExponent text = some exponent := by
  cases written with
  | none => rfl
  | some letter sign filled all =>
    rw [readExponent, if_pos letter, splitSign_sign sign (head_digits all)]
    dsimp only
    rw [readNat_digits filled all]
    rfl

theorem head_exponent (written : Exponent exponent text) : ∀ c ∈ text.head?, c.isDigit = false ∧ c ≠ '.' := by
  intro c head
  cases written with
  | none => cases head
  | some letter =>
    cases head
    rcases letter with rfl | rfl <;> decide

theorem head_body (digits : allDigits whole = true) (point : Point fraction fractionText)
    (filled : whole ≠ [] ∨ fraction ≠ [])
    (behind : List Char) : ∀ c ∈ (whole ++ (fractionText ++ behind)).head?, c ≠ '+' ∧ c ≠ '-' := by
  intro c head
  cases whole with
  | cons d rest => exact head_digits digits c head
  | nil =>
    cases point with
    | none => exact absurd rfl (filled.resolve_left fun some => some rfl)
    | point => cases head; decide

theorem readParts_of_spells (spells : Spells parts text) : readParts text = some parts := by
  obtain ⟨negative, whole, fraction, exponent⟩ := parts
  cases spells with
  | @mk mark fractionText behind sign digits point filled written =>
    have ends : ∀ c ∈ behind.head?, c.isDigit = false := fun c head => (head_exponent written c head).1
    have split : (whole ++ (fractionText ++ behind)).takeWhile Char.isDigit = whole ∧
        (whole ++ (fractionText ++ behind)).dropWhile Char.isDigit = fractionText ++ behind := by
      refine takeWhile_digits digits fun c head => ?_
      cases point with
      | none => exact ends c head
      | point => cases head; rfl
    have decimals : splitFraction (fractionText ++ behind) = (fraction, behind) := by
      cases point with
      | none =>
        cases behind with
        | nil => rfl
        | cons c rest => simp [splitFraction, (head_exponent written c rfl).2]
      | point all =>
        obtain ⟨taken, left⟩ := takeWhile_digits all ends
        rw [List.cons_append, splitFraction, taken, left]
    have bare := head_body digits point filled behind
    have some : ¬(whole = [] ∧ fraction = []) := fun empty => filled.elim (fun h => h empty.1) fun h => h empty.2
    unfold readParts
    rw [splitSign_sign sign bare]
    dsimp only
    rw [split.1, split.2, decimals]
    dsimp only
    rw [if_neg some, readExponent_of_exponent written]
    rfl

theorem digits_of_readNat (read : readNat text = some n) : text ≠ [] ∧ allDigits text = true := by
  unfold readNat at read
  split_ifs at read with whole
  exact whole

theorem readParts_of_readSigned (some : (readSigned bits text).isSome) : ∃ parts, readParts text = .some parts := by
  obtain ⟨n, read⟩ := Option.isSome_iff_exists.mp some
  clear some
  unfold readSigned at read
  split at read
  · next digits =>
    obtain ⟨m, number, _⟩ := Option.bind_eq_some_iff.mp read
    obtain ⟨filled, all⟩ := digits_of_readNat number
    have spelled : Spells ⟨true, digits, [], 0⟩ (['-'] ++ (digits ++ ([] ++ []))) :=
      .mk .minus all .none (.inl filled) .none
    rw [List.append_nil, List.append_nil] at spelled
    exact ⟨_, readParts_of_spells spelled⟩
  · obtain ⟨m, number, _⟩ := Option.bind_eq_some_iff.mp read
    obtain ⟨filled, all⟩ := digits_of_readNat number
    have bare : Spells ⟨false, afterPlus text, [], 0⟩ ([] ++ (afterPlus text ++ ([] ++ []))) :=
      .mk .none all .none (.inl filled) .none
    have signed : Spells ⟨false, afterPlus text, [], 0⟩ (['+'] ++ (afterPlus text ++ ([] ++ []))) :=
      .mk .plus all .none (.inl filled) .none
    rw [List.append_nil, List.append_nil] at bare signed
    unfold afterPlus at bare signed
    split at bare
    · exact ⟨_, readParts_of_spells signed⟩
    · exact ⟨_, readParts_of_spells bare⟩

end QueryHive.Library.Scientific
