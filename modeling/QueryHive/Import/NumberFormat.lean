import Mathlib.Algebra.Order.Field.Rat
import QueryHive.Library.Ascii
import QueryHive.Library.Numeral

/-! A number in the format of a file: its decimal separator, and perhaps a separator between thousands. It is
handed on as a plain numeral, which denotes the same number, or refused. -/
namespace QueryHive.Import.NumberFormat
open QueryHive.Library Text Numeral

def takeSign : List Char → Option Char × List Char
  | '+' :: body => (some '+', body)
  | '-' :: body => (some '-', body)
  | text => (none, text)

/-- What stands before and behind the decimal separator. -/
def takeFraction (decimal : Char) (body : List Char) : List Char × Option (List Char) :=
  match splitOnce (· = decimal) body with
  | some (whole, fraction) => (whole, some fraction)
  | none => (body, none)

/-- The whole part without the separators between thousands. Lengths are counted in bytes. -/
def joinGroups (whole : List Char) : Option Char → Option (List Char)
  | none => some whole
  | some group =>
    if group ∈ whole then
      match whole.splitOn group with
      | [] => none
      | first :: rest =>
        if (encodeUtf8 first).length < 1 ∨ 3 < (encodeUtf8 first).length then none
        else if rest.any fun part => (encodeUtf8 part).length ≠ 3 then none
        else some (first ++ rest.flatten)
    else some whole

def plain (sign : Option Char) (digits : List Char) (fraction : Option (List Char)) : List Char :=
  sign.toList ++ ((if digits = [] then ['0'] else digits) ++
    match fraction with
    | some fraction => '.' :: fraction
    | none => [])

/-- `normalize_number`. -/
def normalizeNumber (text : List Char) (decimal : Char) (grouping : Option Char) : Option (List Char) :=
  let text := trim text
  if text = [] then none
  else
    let (sign, body) := takeSign text
    let (whole, fraction) := takeFraction decimal body
    if fraction.any fun fraction => fraction = [] || !allDigits fraction then none
    else
      (joinGroups whole grouping).bind fun digits =>
        if !allDigits digits || (digits = [] && fraction.isNone) then none
        else some (plain sign digits fraction)

/-- The characters that can separate the parts of a number. -/
def IsSeparator (c : Char) : Prop := c.isDigit = false ∧ c ≠ '+' ∧ c ≠ '-' ∧ isWhitespace c = false

instance (c : Char) : Decidable (IsSeparator c) :=
  inferInstanceAs (Decidable (c.isDigit = false ∧ c ≠ '+' ∧ c ≠ '-' ∧ isWhitespace c = false))

structure Separators (decimal : Char) (grouping : Option Char) : Prop where
  point : IsSeparator decimal
  between : ∀ group ∈ grouping, IsSeparator group
  differ : grouping ≠ some decimal

/-- The ways to write the digits of a whole part: bare, or in groups of three behind a group of one to three. -/
inductive Whole (grouping : Option Char) : List Char → List Char → Prop
  | bare (digits : allDigits text = true) : Whole grouping text text
  | grouped (between : grouping = some group) (digits : allDigits (first ++ rest.flatten) = true) (leading : first ≠ [])
      (short : first.length ≤ 3) (more : rest ≠ []) (threes : ∀ part ∈ rest, part.length = 3) :
      Whole grouping (first ++ rest.flatten) ([group].intercalate (first :: rest))

def fractionText (decimal : Char) : Option (List Char) → List Char
  | some fraction => decimal :: fraction
  | none => []

/-- A text is a sign, these digits as a whole part, and this fraction. -/
structure Spells (decimal : Char) (grouping : Option Char) (sign : Option Char) (digits : List Char)
    (fraction : Option (List Char)) (text : List Char) : Prop where
  signed : ∀ c ∈ sign, c = '+' ∨ c = '-'
  decimals : ∀ fraction' ∈ fraction, fraction' ≠ [] ∧ allDigits fraction' = true
  filled : digits ≠ [] ∨ fraction ≠ none
  written : ∃ whole, Whole grouping digits whole ∧ text = sign.toList ++ (whole ++ fractionText decimal fraction)

def number (sign : Option Char) (digits fraction : List Char) : ℚ :=
  (if sign = some '-' then -1 else 1) * (value digits + value fraction / 10 ^ fraction.length)

def Denotes (decimal : Char) (grouping : Option Char) (text : List Char) (sign : Option Char) (q : ℚ) : Prop :=
  ∃ digits fraction, Spells decimal grouping sign digits fraction text ∧ q = number sign digits (fraction.getD [])

section
variable {decimal : Char} {grouping sign : Option Char} {digits whole text : List Char} {fraction : Option (List Char)}

theorem clear_of_digits (digits : allDigits text = true) (separator : IsSeparator c) : c ∉ text := by
  intro inside
  have digit := digit_of_allDigits digits inside
  rw [separator.1] at digit
  cases digit

theorem takeSign_signed (signed : ∀ c ∈ sign, c = '+' ∨ c = '-') (bare : ∀ c ∈ text.head?, c ≠ '+' ∧ c ≠ '-') :
    takeSign (sign.toList ++ text) = (sign, text) := by
  cases sign with
  | none =>
    cases text with
    | nil => rfl
    | cons c rest =>
      obtain ⟨plus, minus⟩ := bare c rfl
      simp [takeSign, plus, minus]
  | some c =>
    rcases signed c rfl with rfl | rfl
    · rfl
    · rfl

theorem takeSign_spec (text : List Char) :
    (∀ c ∈ (takeSign text).1, c = '+' ∨ c = '-') ∧ text = (takeSign text).1.toList ++ (takeSign text).2 := by
  unfold takeSign
  split <;> simp

theorem takeFraction_at (clear : decimal ∉ whole) :
    takeFraction decimal (whole ++ fractionText decimal fraction) = (whole, fraction) := by
  have before : ∀ c ∈ whole, decide (c = decimal) = false := by
    intro c inside
    rw [decide_eq_false_iff_not]
    rintro rfl
    exact clear inside
  cases fraction with
  | none => rw [fractionText, List.append_nil, takeFraction, splitOnce_none before]
  | some fraction => rw [fractionText, takeFraction, splitOnce_at before (decide_eq_true rfl)]

theorem takeFraction_spec (taken : takeFraction decimal text = (whole, fraction)) :
    text = whole ++ fractionText decimal fraction := by
  unfold takeFraction at taken
  split at taken
  · next split =>
    cases taken
    obtain ⟨c, found, rfl⟩ := of_splitOnce split
    rw [fractionText, of_decide_eq_true found]
  · cases taken
    exact (List.append_nil _).symm

theorem length_digits (digits : allDigits text = true) : (encodeUtf8 text).length = text.length :=
  Ascii.length_encodeUtf8 (Ascii.isAscii_of_digits fun _ => digit_of_allDigits digits)

theorem digits_of_parts {first : List Char} {rest : List (List Char)}
    (digits : allDigits (first ++ rest.flatten) = true) :
    allDigits first = true ∧ ∀ part ∈ rest, allDigits part = true := by
  rw [allDigits_append, Bool.and_eq_true_iff] at digits
  refine ⟨digits.1, fun part inside => List.all_eq_true.mpr fun c held => ?_⟩
  exact digit_of_allDigits digits.2 (List.mem_flatten.mpr ⟨part, inside, held⟩)

theorem joinGroups_whole (separators : Separators decimal grouping) (written : Whole grouping digits whole) :
    joinGroups whole grouping = some digits ∧ allDigits digits = true := by
  cases written with
  | bare plain =>
    refine ⟨?_, plain⟩
    cases grouping with
    | none => rfl
    | some group => rw [joinGroups, if_neg (clear_of_digits plain (separators.between group rfl))]
  | @grouped group first rest between plain leading short more threes =>
    subst between
    obtain ⟨front, parts⟩ := digits_of_parts plain
    have clear : ∀ part ∈ first :: rest, group ∉ part := by
      refine List.forall_mem_cons.mpr ⟨clear_of_digits front (separators.between group rfl), fun part inside => ?_⟩
      exact clear_of_digits (parts part inside) (separators.between group rfl)
    have inside : group ∈ [group].intercalate (first :: rest) := by
      obtain ⟨next, later, rfl⟩ := List.exists_cons_of_ne_nil more
      simp [List.intercalate]
    have split : ([group].intercalate (first :: rest)).splitOn group = first :: rest :=
      List.splitOn_intercalate group clear (List.cons_ne_nil first rest)
    have lengths : (rest.any fun part => decide ((encodeUtf8 part).length ≠ 3)) = false := by
      refine List.any_eq_false.mpr fun part held => ?_
      rw [length_digits (parts part held), threes part held]
      decide
    have length : ¬((encodeUtf8 first).length < 1 ∨ 3 < (encodeUtf8 first).length) := by
      rw [length_digits front]
      have := List.length_pos_iff.mpr leading
      omega
    refine ⟨?_, plain⟩
    rw [joinGroups, if_pos inside, split]
    dsimp only
    rw [if_neg length, lengths]
    rfl

theorem whole_of_joinGroups (joined : joinGroups whole grouping = some digits) (plain : allDigits digits = true) :
    Whole grouping digits whole := by
  cases grouping with
  | none =>
    cases joined
    exact .bare plain
  | some group =>
    rw [joinGroups] at joined
    split at joined
    · next inside =>
      have glued : [group].intercalate (whole.splitOn group) = whole := List.intercalate_splitOn group
      cases pieces : whole.splitOn group with
      | nil => exact absurd pieces (List.splitOn_ne_nil group whole)
      | cons first rest =>
        rw [pieces] at joined glued
        dsimp only at joined
        split_ifs at joined with length lengths
        cases joined
        obtain ⟨front, parts⟩ := digits_of_parts plain
        rw [length_digits front] at length
        rw [← glued]
        refine .grouped rfl plain (List.length_pos_iff.mp (by omega)) (by omega) ?_ fun part held => ?_
        · rintro rfl
          -- One piece alone holds no separator.
          have clear := not_mem_piece (pieces ▸ List.mem_cons_self : first ∈ whole.splitOn group)
          rw [← glued] at inside
          exact clear (by simpa using inside)
        · by_contra other
          refine lengths (List.any_eq_true.mpr ⟨part, held, decide_eq_true ?_⟩)
          rwa [length_digits (parts part held)]
    · cases joined
      exact .bare plain

theorem mem_intercalate {group c : Char} (parts : List (List Char)) (inside : c ∈ [group].intercalate parts) :
    c = group ∨ ∃ part ∈ parts, c ∈ part := by
  induction parts with
  | nil => cases inside
  | cons first rest ih =>
    cases rest with
    | nil => exact .inr ⟨first, List.mem_cons_self, by simpa using inside⟩
    | cons next rest =>
      have split : c ∈ first ∨ c = group ∨ c ∈ [group].intercalate (next :: rest) := by
        simpa [List.intercalate, List.intersperse] using inside
      rcases split with here | same | later
      · exact .inr ⟨first, List.mem_cons_self, here⟩
      · exact .inl same
      · rcases ih later with same | ⟨part, held, inside⟩
        · exact .inl same
        · exact .inr ⟨part, List.mem_cons_of_mem _ held, inside⟩

theorem mem_whole (written : Whole grouping digits whole) (inside : c ∈ whole) :
    c.isDigit = true ∨ grouping = some c := by
  cases written with
  | bare plain => exact .inl (digit_of_allDigits plain inside)
  | grouped between plain =>
    rcases mem_intercalate _ inside with same | ⟨part, held, within⟩
    · exact .inr (same ▸ between)
    · obtain ⟨front, parts⟩ := digits_of_parts plain
      rcases List.mem_cons.mp held with rfl | later
      · exact .inl (digit_of_allDigits front within)
      · exact .inl (digit_of_allDigits (parts part later) within)

theorem head_whole (written : Whole grouping digits whole) (head : whole.head? = some c) : c.isDigit = true := by
  cases written with
  | bare plain => exact digit_of_allDigits plain (List.mem_of_head? head)
  | @grouped group first rest between plain leading short more threes =>
    obtain ⟨front, _⟩ := digits_of_parts plain
    obtain ⟨d, later, rfl⟩ := List.exists_cons_of_ne_nil leading
    obtain ⟨next, others, rfl⟩ := List.exists_cons_of_ne_nil more
    obtain rfl : d = c := by simpa [List.intercalate] using head
    exact digit_of_allDigits front List.mem_cons_self

/-- The parts a numeral was written with are the parts it is taken into. -/
theorem taken_of_spells (separators : Separators decimal grouping)
    (spells : Spells decimal grouping sign digits fraction text) :
    ∃ whole, takeSign text = (sign, whole ++ fractionText decimal fraction) ∧
      takeFraction decimal (whole ++ fractionText decimal fraction) = (whole, fraction) ∧
      joinGroups whole grouping = some digits ∧ allDigits digits = true := by
  obtain ⟨signed, _, _, whole, written, rfl⟩ := spells
  have bare : ∀ c ∈ (whole ++ fractionText decimal fraction).head?, c ≠ '+' ∧ c ≠ '-' := by
    intro c head
    rw [Option.mem_def, List.head?_append] at head
    cases front : whole.head? with
    | some d =>
      have digit := head_whole written front
      rw [front] at head
      cases head
      exact ⟨fun same => absurd (same ▸ digit) (by decide), fun same => absurd (same ▸ digit) (by decide)⟩
    | none =>
      rw [front] at head
      cases fraction with
      | none => cases head
      | some _ =>
        cases head
        exact ⟨separators.point.2.1, separators.point.2.2.1⟩
  have clear : decimal ∉ whole := by
    intro inside
    rcases mem_whole written inside with digit | between
    · rw [separators.point.1] at digit
      cases digit
    · exact separators.differ between
  obtain ⟨joined, plain⟩ := joinGroups_whole separators written
  exact ⟨whole, takeSign_signed signed bare, takeFraction_at clear, joined, plain⟩

/-- A text is a numeral in one way only. -/
theorem spells_unique {sign' : Option Char} {digits' : List Char} {fraction' : Option (List Char)}
    (separators : Separators decimal grouping) (spells : Spells decimal grouping sign digits fraction text)
    (spells' : Spells decimal grouping sign' digits' fraction' text) :
    sign = sign' ∧ digits = digits' ∧ fraction = fraction' := by
  obtain ⟨whole, signed, split, joined, _⟩ := taken_of_spells separators spells
  obtain ⟨whole', signed', split', joined', _⟩ := taken_of_spells separators spells'
  obtain ⟨rfl, same⟩ := Prod.mk.inj (signed.symm.trans signed')
  rw [same, split'] at split
  obtain ⟨rfl, rfl⟩ := Prod.mk.inj split
  exact ⟨rfl, Option.some.inj (joined.symm.trans joined'), rfl⟩

theorem denotes_unique {sign' : Option Char} {q q' : ℚ} (separators : Separators decimal grouping)
    (denotes : Denotes decimal grouping text sign q) (denotes' : Denotes decimal grouping text sign' q') :
    sign = sign' ∧ q = q' := by
  obtain ⟨_, _, spells, rfl⟩ := denotes
  obtain ⟨_, _, spells', rfl⟩ := denotes'
  obtain ⟨rfl, rfl, rfl⟩ := spells_unique separators spells spells'
  exact ⟨rfl, rfl⟩

/-- A numeral is handed on, -/
theorem normalize_of_spells (separators : Separators decimal grouping)
    (spells : Spells decimal grouping sign digits fraction (trim text)) :
    normalizeNumber text decimal grouping = some (plain sign digits fraction) := by
  obtain ⟨whole, signed, split, joined, plain⟩ := taken_of_spells separators spells
  have filled : trim text ≠ [] := by
    intro empty
    rw [empty] at signed
    obtain ⟨rfl, same⟩ := Prod.mk.inj signed
    obtain ⟨rfl, rest⟩ := List.append_eq_nil_iff.mp same.symm
    have absent : fraction = none := by
      cases fraction with
      | none => rfl
      | some fraction => cases rest
    have bare : joinGroups [] grouping = some [] := by
      cases grouping <;> rfl
    have nothing : digits = [] := Option.some.inj (joined.symm.trans bare)
    exact spells.filled.elim (fun h => h nothing) fun h => h absent
  have decimals : (fraction.any fun fraction => decide (fraction = []) || !allDigits fraction) = false := by
    cases fraction with
    | none => rfl
    | some fraction =>
      obtain ⟨nonempty, digits⟩ := spells.decimals fraction rfl
      simp [nonempty, digits]
  have enough : (!allDigits digits || (decide (digits = []) && fraction.isNone)) = false := by
    rw [plain]
    rcases spells.filled with whole | present
    · simp [whole]
    · simp [Option.isNone_eq_false_iff, Option.isSome_iff_ne_none, present]
  simp only [normalizeNumber, if_neg filled, signed, split, decimals, joined, Option.bind_some, enough]
  rfl

/-- and nothing else is. -/
theorem spells_of_normalize {n : List Char} (normalized : normalizeNumber text decimal grouping = some n) :
    ∃ sign digits fraction, Spells decimal grouping sign digits fraction (trim text) ∧
      n = plain sign digits fraction := by
  obtain ⟨signed, split⟩ := takeSign_spec (trim text)
  unfold normalizeNumber at normalized
  dsimp only at normalized
  cases taken : takeSign (trim text) with
  | mk sign body =>
    cases parts : takeFraction decimal body with
    | mk whole fraction =>
      rw [taken] at normalized signed split
      dsimp only at normalized
      rw [parts] at normalized
      dsimp only at normalized
      split_ifs at normalized with empty decimals
      obtain ⟨digits, joined, normalized⟩ := Option.bind_eq_some_iff.mp normalized
      split_ifs at normalized with short
      cases normalized
      rw [Bool.or_eq_true, not_or, Bool.not_eq_true', Bool.not_eq_false, Bool.and_eq_true, not_and_or] at short
      refine ⟨sign, digits, fraction, ⟨signed, ?_, ?_, whole, whole_of_joinGroups joined short.1, ?_⟩, rfl⟩
      · rintro fraction' rfl
        simpa [not_or] using decimals
      · simpa using short.2
      · rw [split, takeFraction_spec parts]

theorem separators_plain : Separators '.' none where
  point := by decide
  between group inside := by cases inside
  differ := by decide

theorem spells_plain (spells : Spells decimal grouping sign digits fraction text) (plain' : allDigits digits = true) :
    Spells '.' none sign (if digits = [] then ['0'] else digits) fraction (plain sign digits fraction) := by
  have digits' : allDigits (if digits = [] then ['0'] else digits) = true := by
    split
    · rfl
    · exact plain'
  refine ⟨spells.signed, spells.decimals, .inl ?_, _, .bare digits', ?_⟩
  · split
    · exact List.cons_ne_nil _ _
    · assumption
  · cases fraction <;> rfl

theorem trim_plain (spells : Spells '.' none sign digits fraction text) : trim text = text := by
  refine trim_of_clear fun c inside => ?_
  obtain ⟨signed, decimals, _, whole, written, rfl⟩ := spells
  rw [List.mem_append, List.mem_append] at inside
  rcases inside with mark | inside | inside
  · rcases signed c (Option.mem_toList.mp mark) with rfl | rfl <;> decide
  · exact digit_not_whitespace ((mem_whole written inside).resolve_right fun between => by cases between)
  · cases fraction with
    | none => cases inside
    | some fraction =>
      rcases List.mem_cons.mp inside with rfl | inside
      · decide
      · exact digit_not_whitespace (digit_of_allDigits (decimals fraction rfl).2 inside)

theorem number_zero (sign : Option Char) (digits fraction : List Char) :
    number sign (if digits = [] then ['0'] else digits) fraction = number sign digits fraction := by
  split
  · next empty =>
    rw [empty, number, number]
    rfl
  · rfl

/-- A number is never changed: exactly the numerals of the format are handed on, each as a plain numeral with its
sign and its number, which is handed on as it is when it is read again. -/
theorem normalize_number_exact (separators : Separators decimal grouping) (text : List Char) :
    ((normalizeNumber text decimal grouping).isSome ↔ ∃ sign q, Denotes decimal grouping (trim text) sign q) ∧
      ∀ n, normalizeNumber text decimal grouping = some n →
        (∃ sign digits fraction, digits ≠ [] ∧ Spells '.' none sign digits fraction n) ∧
          (∀ sign q, Denotes decimal grouping (trim text) sign q ↔ Denotes '.' none n sign q) ∧
          normalizeNumber n '.' none = some n := by
  constructor
  · constructor
    · intro given
      obtain ⟨n, normalized⟩ := Option.isSome_iff_exists.mp given
      obtain ⟨sign, digits, fraction, spells, _⟩ := spells_of_normalize normalized
      exact ⟨sign, _, digits, fraction, spells, rfl⟩
    · rintro ⟨sign, _, digits, fraction, spells, _⟩
      rw [normalize_of_spells separators spells]
      rfl
  · intro n normalized
    obtain ⟨sign, digits, fraction, spells, rfl⟩ := spells_of_normalize normalized
    obtain ⟨_, _, _, _, plain'⟩ := taken_of_spells separators spells
    have again := spells_plain spells plain'
    have filled : (if digits = [] then ['0'] else digits) ≠ [] := by
      split
      · exact List.cons_ne_nil _ _
      · assumption
    have first : Denotes decimal grouping (trim text) sign (number sign digits (fraction.getD [])) :=
      ⟨digits, fraction, spells, rfl⟩
    have second : Denotes '.' none (plain sign digits fraction) sign (number sign digits (fraction.getD [])) :=
      ⟨_, fraction, again, (number_zero sign digits _).symm⟩
    refine ⟨⟨sign, _, fraction, filled, again⟩, fun sign' q => ⟨fun denotes => ?_, fun denotes => ?_⟩, ?_⟩
    · obtain ⟨rfl, rfl⟩ := denotes_unique separators denotes first
      exact second
    · obtain ⟨rfl, rfl⟩ := denotes_unique separators_plain denotes second
      exact first
    · rw [normalize_of_spells separators_plain ((trim_plain again).symm ▸ again)]
      unfold plain
      rw [if_neg filled]

theorem normalize_number_exact_thousands :
    normalizeNumber [' ', '-', '1', '.', '2', '3', '4', ',', '5'] ',' (some '.') =
      some ['-', '1', '2', '3', '4', '.', '5'] ∧
      normalizeNumber ['-', '1', '2', '3', '4', '.', '5'] '.' none = some ['-', '1', '2', '3', '4', '.', '5'] := by
  have separators : Separators ',' (some '.') := ⟨by decide, by simp; decide, by decide⟩
  have handed : normalizeNumber [' ', '-', '1', '.', '2', '3', '4', ',', '5'] ',' (some '.') =
      some ['-', '1', '2', '3', '4', '.', '5'] := by decide
  exact ⟨handed, ((normalize_number_exact separators _).2 _ handed).2.2⟩

end

end QueryHive.Import.NumberFormat
