import QueryHive.Library.Numeral
import QueryHive.Library.Text

/-! The natural key of a text. `natural_key` writes five levels one after another, each ended by
a zero byte: classes and letters, accents, case, the zeros in front of digit runs, and the text
itself. Keys are compared byte by byte, so the order of the levels must survive that they stand
in one line. -/
namespace QueryHive.Store.NaturalKey
open QueryHive.Library Lexical

/-- The tables of Unicode the key reads: normalization, and the classes of characters. -/
structure Unicode where
  nfd : List Char → List Char
  isNonspacingMark : Char → Bool
  isAlphabetic : Char → Bool
  isNumeric : Char → Bool
  isLowercase : Char → Bool

def AsciiText (text : List Char) : Prop := ∀ c ∈ text, c.toNat < 128

/-- Normalization leaves ASCII as it stands, whatever follows it, and drops no text; no ASCII
character is a combining mark. -/
structure Unicode.Ascii (u : Unicode) : Prop where
  nfd : ∀ text rest, AsciiText text → u.nfd (text ++ rest) = text ++ u.nfd rest
  nothing : ∀ text, u.nfd text = [] ↔ text = []
  mark : ∀ c : Char, c.toNat < 128 → u.isNonspacingMark c = false

/-- A base with its combining marks; a mark at the front has no base. -/
structure Element where
  base : Option Char
  marks : List Char
  deriving DecidableEq, Repr

/-- The levels of a key, without the bytes that end them. -/
structure Levels where
  primary : List UInt8 := []
  secondary : List UInt8 := []
  tertiary : List UInt8 := []
  quaternary : List UInt8 := []
  deriving DecidableEq, Repr

instance : Append Levels where
  append first second :=
    { primary := first.primary ++ second.primary
      secondary := first.secondary ++ second.secondary
      tertiary := first.tertiary ++ second.tertiary
      quaternary := first.quaternary ++ second.quaternary }

def byte (n : Nat) : UInt8 := UInt8.ofNat n

/-- The three low bytes, the highest first. -/
def be3 (n : Nat) : List UInt8 := [byte (n / 65536), byte (n / 256), byte n]

/-- Katakana as the Hiragana of the same sound; every other code point is its own. -/
def otherScriptCp (base : Char) : Nat :=
  if 0x30A1 ≤ base.toNat ∧ base.toNat ≤ 0x30F6 then base.toNat - 0x60 else base.toNat

/-- A mark goes to the base before it; anything else is a new element. -/
def pushChar (u : Unicode) (elements : List Element) (c : Char) : List Element :=
  if u.isNonspacingMark c then
    match elements.getLast? with
    | some ⟨some base, marks⟩ => elements.dropLast ++ [⟨some base, marks ++ [c]⟩]
    | _ => elements ++ [⟨none, [c]⟩]
  else elements ++ [⟨some c, []⟩]

def splitElements (u : Unicode) (text : List Char) : List Element := text.foldl (pushChar u) []

def Element.isDigit (element : Element) : Bool := element.base.any Char.isDigit

def significantDigits (run : List Char) : List Char := run.dropWhile (· == '0')

def leadingZeros (run : List Char) : Nat := (run.takeWhile (· == '0')).length

def digitRun (run : List Char) : Levels :=
  { primary := 3 :: byte (min (significantDigits run).length 255) :: (significantDigits run).map (byte ·.toNat)
    quaternary := [byte (min (leadingZeros run) 255)] }

/-- The class of an element that is no digit, and what orders it within the class. -/
def Element.primary (u : Unicode) : Option Char → List UInt8
  | some base =>
    if Text.isWhitespace base then [1]
    else if base.isLower then [4, byte base.toNat]
    else if base.isUpper then [4, byte base.toLower.toNat]
    else if u.isAlphabetic base || u.isNumeric base then 5 :: be3 (otherScriptCp base)
    else 2 :: be3 base.toNat
  | none => 2 :: be3 0

def Element.levels (u : Unicode) (element : Element) : Levels :=
  { primary := Element.primary u element.base
    secondary :=
      if element.marks.isEmpty then [0]
      else byte (min element.marks.length 255) :: element.marks.flatMap fun mark => be3 mark.toNat
    tertiary :=
      match element.base with
      | some base => if u.isLowercase base then [1] else [2]
      | none => [0]
    quaternary := [0] }

def elementLevels (u : Unicode) : List Element → Levels
  | [] => {}
  | element :: rest =>
    if element.isDigit then
      digitRun ((element :: rest.takeWhile Element.isDigit).filterMap Element.base) ++
        elementLevels u (rest.dropWhile Element.isDigit)
    else element.levels u ++ elementLevels u rest
  termination_by elements => elements.length
  decreasing_by
    · exact Nat.lt_succ_of_le (List.dropWhile_sublist _).length_le
    · exact Nat.lt_succ_self _

/-- The bytes of a key: every level ends with a zero byte, and the text is last. -/
def Levels.bytes (levels : Levels) (raw : List UInt8) : List UInt8 :=
  levels.primary ++ 0 :: (levels.secondary ++ 0 :: (levels.tertiary ++ 0 :: (levels.quaternary ++ 0 :: raw)))

/-- `natural_key`. -/
def naturalKey (u : Unicode) (text : String) : List UInt8 :=
  (elementLevels u (splitElements u (u.nfd text.toList))).bytes (Text.utf8 text)

@[simp] theorem levels_append_primary (first second : Levels) :
    (first ++ second).primary = first.primary ++ second.primary := rfl

theorem levels_append_assoc (first second third : Levels) : first ++ second ++ third = first ++ (second ++ third) := by
  change Levels.mk _ _ _ _ = Levels.mk _ _ _ _
  simp only [Levels.mk.injEq]
  exact ⟨List.append_assoc .., List.append_assoc .., List.append_assoc .., List.append_assoc ..⟩

@[simp] theorem levels_append_nil (levels : Levels) : levels ++ ({} : Levels) = levels := by
  change Levels.mk _ _ _ _ = _
  simp

/-- No digit run goes on from one part into the next. -/
def Apart (digit : α → Bool) (first second : List α) : Prop :=
  (∀ last ∈ first.getLast?, digit last = false) ∨ ∀ next ∈ second.head?, digit next = false

theorem next_of_apart {digit : α → Bool} (apart : Apart digit first second) (some : first ≠ [])
    (all : ∀ x ∈ first, digit x = true) : ∀ next ∈ second.head?, digit next = false := by
  rcases apart with last | next
  · have kept := all _ (List.getLast_mem some)
    rw [last _ (List.getLast?_eq_some_getLast some)] at kept
    cases kept
  · exact next

theorem run_apart {digit : α → Bool} (apart : Apart digit (first :: rest) second) (one : digit first = true) :
    (rest ++ second).takeWhile digit = rest.takeWhile digit ∧
      (rest ++ second).dropWhile digit = rest.dropWhile digit ++ second ∧
      Apart digit (rest.dropWhile digit) second := by
  by_cases all : ∀ x ∈ rest, digit x = true
  · have next := next_of_apart apart (List.cons_ne_nil _ _) (by simpa [one] using all)
    have stop : second.takeWhile digit = [] ∧ second.dropWhile digit = second := by
      cases second with
      | nil => exact ⟨rfl, rfl⟩
      | cons x later => simp [next x rfl]
    rw [List.takeWhile_append_of_pos all, List.dropWhile_append_of_pos all, stop.1, stop.2,
      List.takeWhile_eq_self_iff.mpr all, List.dropWhile_eq_nil_iff.mpr all]
    exact ⟨List.append_nil _, rfl, .inr next⟩
  · have stays : rest.dropWhile digit ≠ [] := fun none => all (List.dropWhile_eq_nil_iff.mp none)
    have short : (rest.takeWhile digit).length ≠ rest.length := by
      intro same
      exact all (List.takeWhile_eq_self_iff.mp ((List.takeWhile_prefix digit).eq_of_length same))
    refine ⟨by rw [List.takeWhile_append, if_neg short], ?_, ?_⟩
    · rw [List.dropWhile_append, if_neg (by simpa using stays)]
    · refine apart.imp_left fun last final member => last final ?_
      have kept : (rest.dropWhile digit).getLast? = rest.getLast? := by
        have split := congrArg List.getLast? (List.takeWhile_append_dropWhile (p := digit) (l := rest))
        rw [List.getLast?_append_of_ne_nil _ stays] at split
        exact split
      have more : rest ≠ [] := by
        rintro rfl
        exact stays rfl
      rw [List.getLast?_cons_of_ne_nil more, ← kept]
      exact member

theorem elementLevels_append (u : Unicode) (apart : Apart Element.isDigit first second) :
    elementLevels u (first ++ second) = elementLevels u first ++ elementLevels u second := by
  induction first using elementLevels.induct with
  | case1 =>
    rw [elementLevels]
    rfl
  | case2 element rest one ih =>
    obtain ⟨run, later, apart'⟩ := run_apart apart one
    rw [List.cons_append, elementLevels, if_pos one, run, later, ih apart', elementLevels, if_pos one]
    exact (levels_append_assoc _ _ _).symm
  | case3 element rest other ih =>
    have apart' : Apart Element.isDigit rest second := by
      refine apart.imp_left fun last final member => last final ?_
      cases rest with
      | nil => cases member
      | cons x rest => rwa [List.getLast?_cons_cons]
    rw [List.cons_append, elementLevels, if_neg other, ih apart', elementLevels, if_neg other]
    exact (levels_append_assoc _ _ _).symm

theorem primary_class (u : Unicode) (some : elements ≠ []) :
    ∃ cls rest, (elementLevels u elements).primary = cls :: rest ∧ 0 < cls ∧ cls < 48 := by
  cases elements with
  | nil => exact absurd rfl some
  | cons element rest =>
    rw [elementLevels]
    split
    · exact ⟨3, _, rfl, by decide, by decide⟩
    · have head : ∃ cls more, Element.primary u element.base = cls :: more ∧ 0 < cls ∧ cls < 48 := by
        unfold Element.primary
        split
        · split_ifs
          all_goals exact ⟨_, _, rfl, by decide, by decide⟩
        · exact ⟨2, _, rfl, by decide, by decide⟩
      obtain ⟨cls, more, shape, bounds⟩ := head
      exact ⟨cls, more ++ _, by rw [levels_append_primary, Element.levels, shape]; rfl, bounds⟩

theorem elementLevels_run (u : Unicode) (digits : ∀ element ∈ run, element.isDigit = true) (some : run ≠ []) :
    elementLevels u run = digitRun (run.filterMap Element.base) := by
  cases run with
  | nil => exact absurd rfl some
  | cons element rest =>
    obtain ⟨one, all⟩ := List.forall_mem_cons.mp digits
    rw [elementLevels, if_pos one, List.takeWhile_eq_self_iff.mpr all, List.dropWhile_eq_nil_iff.mpr all, elementLevels,
      levels_append_nil]

/-- A character without marks. -/
def plain (c : Char) : Element := ⟨some c, []⟩

theorem plain_bases (text : List Char) : (text.map plain).filterMap Element.base = text := by
  rw [List.filterMap_map]
  exact List.filterMap_some

theorem splitElements_ascii {u : Unicode} (tables : u.Ascii) (ascii : AsciiText text) :
    splitElements u text = text.map plain := by
  induction text using List.reverseRecOn with
  | nil => rfl
  | append_singleton before c ih =>
    have mark := tables.mark c (ascii c (by simp))
    have earlier := ih fun d member => ascii d (by simp [member])
    rw [splitElements] at earlier ⊢
    rw [List.foldl_append, earlier, List.foldl_cons, List.foldl_nil, pushChar, if_neg (by simp [mark]), List.map_append]
    rfl

theorem naturalKey_ascii {u : Unicode} (tables : u.Ascii) (ascii : AsciiText text.toList) :
    naturalKey u text = (elementLevels u (text.toList.map plain)).bytes (Text.utf8 text) := by
  have kept := tables.nfd text.toList [] ascii
  rw [(tables.nothing []).mpr rfl, List.append_nil] at kept
  rw [naturalKey, kept, splitElements_ascii tables ascii]

theorem apart_plain {first second : List Char} (apart : Apart Char.isDigit first second) :
    Apart Element.isDigit (first.map plain) (second.map plain) := by
  refine apart.imp (fun last element member => ?_) (fun next element member => ?_)
  · rw [List.getLast?_map] at member
    obtain ⟨c, final, rfl⟩ := Option.map_eq_some_iff.mp member
    exact last c final
  · rw [List.head?_map] at member
    obtain ⟨c, head, rfl⟩ := Option.map_eq_some_iff.mp member
    exact next c head

/-- How runs are ordered: by the count of significant digits as far as a byte tells it, and
then digit by digit. -/
def RunBefore (run other : List Char) : Prop :=
  min (significantDigits run).length 255 < min (significantDigits other).length 255 ∨
    min (significantDigits run).length 255 = min (significantDigits other).length 255 ∧
      significantDigits run < significantDigits other

theorem byte_lt_byte (less : m < n) (small : n < 256) : byte m < byte n := by
  rw [UInt8.lt_iff_toNat_lt, byte, byte, UInt8.toNat_ofNat', UInt8.toNat_ofNat', Nat.mod_eq_of_lt small,
    Nat.mod_eq_of_lt (less.trans small)]
  exact less

theorem significant_digits (digits : Numeral.allDigits run = true) : Numeral.allDigits (significantDigits run) = true :=
  List.all_eq_true.mpr fun _ inside => Numeral.digit_of_allDigits digits ((List.dropWhile_sublist _).subset inside)

/-- Runs are ordered as `RunBefore` has it, whatever follows them that is no digit. -/
theorem run_below (digits : Numeral.allDigits other = true) (order : RunBefore run other) {cls : UInt8}
    (small : cls < 48) (rest after : List UInt8) :
    Below ((digitRun run).primary ++ cls :: rest) ((digitRun other).primary ++ after) := by
  rcases order with count | ⟨same, text⟩
  · refine Below.append (Below.behind ?_ [3]) _ _
    exact below_head (byte_lt_byte count (by omega)) _ _
  · have bound : ∀ c ∈ significantDigits other, 48 ≤ c.toNat ∧ c.toNat ≤ 57 := fun c inside =>
      Numeral.digit_toNat (Numeral.digit_of_allDigits (significant_digits digits) inside)
    rcases below_or_proper text with below | ⟨x, more, longer⟩
    · have bytes : Below ((significantDigits run).map (byte ·.toNat)) ((significantDigits other).map (byte ·.toNat)) :=
        below.map fun _ _ d inside less => byte_lt_byte (UInt32.lt_iff_toNat_lt.mp less)
          (by have := bound d inside; omega)
      rw [digitRun, digitRun, same]
      exact (bytes.append (cls :: rest) after).behind [3, _]
    · have next := bound x (by simp [longer])
      have head : cls < byte x.toNat := by
        rw [UInt8.lt_iff_toNat_lt, byte, UInt8.toNat_ofNat', Nat.mod_eq_of_lt (by omega)]
        exact Nat.lt_of_lt_of_le (UInt8.lt_iff_toNat_lt.mp small) next.1
      have tail : Below ((significantDigits run).map (byte ·.toNat) ++ cls :: rest)
          ((significantDigits other).map (byte ·.toNat) ++ after) := by
        rw [longer, List.map_append, List.append_assoc]
        exact (below_head head rest _).behind _
      rw [digitRun, digitRun, same]
      exact tail.behind [3, _]

/-- A first difference in a level decides, whatever the later levels are. -/
theorem level_below {level other : List UInt8} (below : Below (level ++ [0]) (other ++ [0]))
    (after after' : List UInt8) :
    level ++ 0 :: after < other ++ 0 :: after' := by
  rw [List.append_cons level, List.append_cons other]
  exact (below.append after after').lt

/-- Behind equal levels the later ones decide. -/
theorem level_same (level : List UInt8) (less : after < after') : level ++ 0 :: after < level ++ 0 :: after' :=
  List.append_left_lt (List.Lex.cons less)

/-- Around a common beginning and end, runs order the keys. -/
theorem around_lt (u : Unicode) (digits : Numeral.allDigits other = true)
    (before : Levels) (after : List Element) (order : RunBefore run other) (raw raw' : List UInt8) :
    (before ++ (digitRun run ++ elementLevels u after)).bytes raw <
      (before ++ (digitRun other ++ elementLevels u after)).bytes raw' := by
  obtain ⟨cls, rest, shape, small⟩ : ∃ cls rest, (elementLevels u after).primary ++ [0] = cls :: rest ∧ cls < 48 := by
    by_cases none : after = []
    · exact ⟨0, [], by rw [none, elementLevels]; rfl, by decide⟩
    · obtain ⟨cls, rest, shape, _, small⟩ := primary_class u none
      exact ⟨cls, rest ++ [0], by rw [shape, List.cons_append], small⟩
  refine level_below ?_ _ _
  simp only [levels_append_primary, List.append_assoc, shape]
  exact (run_below digits order small rest _).behind _

theorem value_significantDigits (run : List Char) : Numeral.value (significantDigits run) = Numeral.value run :=
  Numeral.value_dropWhile run

theorem significant_length_le (digits : Numeral.allDigits run = true) (digits' : Numeral.allDigits other = true)
    (less : Numeral.value run < Numeral.value other) :
    (significantDigits run).length ≤ (significantDigits other).length := by
  have above := Numeral.value_lt (significant_digits digits')
  rw [value_significantDigits] at above
  cases shape : significantDigits run with
  | nil => exact Nat.zero_le _
  | cons c rest =>
    have nonzero : c ≠ '0' := by
      have kept := List.head?_dropWhile_not (· == '0') run
      rw [show run.dropWhile (· == '0') = c :: rest from shape] at kept
      simpa using kept
    have one : c.isDigit = true := Numeral.digit_of_allDigits (significant_digits digits) (by simp [shape])
    have low := @Numeral.le_value rest _ one nonzero
    rw [← shape, value_significantDigits] at low
    exact (Nat.pow_lt_pow_iff_right (by decide : 1 < 10)).mp (low.trans_lt (less.trans above))

/-- Runs with the smaller number first are ordered so unless both have 255 significant digits or
more, in different counts, and the text of the smaller number is the later one. -/
theorem runBefore_of_value (digits : Numeral.allDigits run = true) (digits' : Numeral.allDigits other = true)
    (less : Numeral.value run < Numeral.value other) :
    RunBefore run other ↔
      (significantDigits run).length < 255 ∨ (significantDigits run).length = (significantDigits other).length ∨
        significantDigits run < significantDigits other := by
  have short := significant_length_le digits digits' less
  have text (same : (significantDigits run).length = (significantDigits other).length) :
      significantDigits run < significantDigits other := by
    refine (Numeral.below_of_value (significant_digits digits) (significant_digits digits') same ?_).lt
    rwa [value_significantDigits, value_significantDigits]
  unfold RunBefore
  constructor
  · rintro (count | ⟨_, order⟩)
    · exact .inl (by omega)
    · exact .inr (.inr order)
  · rintro (few | same | order)
    · rcases Nat.lt_or_eq_of_le short with fewer | same
      · exact .inl (by omega)
      · exact .inr ⟨by rw [same], text same⟩
    · exact .inr ⟨by rw [same], text same⟩
    · have capped : min (significantDigits run).length 255 ≤ min (significantDigits other).length 255 := by omega
      rcases Nat.lt_or_eq_of_le capped with count | count
      · exact .inl count
      · exact .inr ⟨count, order⟩

theorem runBefore_total (differ : significantDigits run ≠ significantDigits other) (not : ¬ RunBefore run other) :
    RunBefore other run := by
  unfold RunBefore at not ⊢
  rcases Nat.lt_trichotomy (min (significantDigits run).length 255) (min (significantDigits other).length 255) with
    count | count | count
  · exact absurd (.inl count) not
  · have later := List.not_lt.mp fun less => not (.inr ⟨count, less⟩)
    rcases List.le_iff_lt_or_eq.mp later with less | same
    · exact .inr ⟨count.symm, less⟩
    · exact absurd same.symm differ
  · exact .inl count

/-- The first level that differs has the smaller bytes in the first key; case never differs. -/
def NotAfter (first second : Levels) : Prop :=
  Below (first.primary ++ [0]) (second.primary ++ [0]) ∨
    first.primary = second.primary ∧
      (Below (first.secondary ++ [0]) (second.secondary ++ [0]) ∨
        first.secondary = second.secondary ∧ first.tertiary = second.tertiary ∧
          (Below (first.quaternary ++ [0]) (second.quaternary ++ [0]) ∨ first.quaternary = second.quaternary))

theorem bytes_lt_of_notAfter {first second : Levels} (order : NotAfter first second) (less : raw < raw') :
    first.bytes raw < second.bytes raw' := by
  rcases order with below | ⟨primary, below | ⟨secondary, tertiary, below | quaternary⟩⟩
  · exact level_below below _ _
  · rw [Levels.bytes, Levels.bytes, primary]
    exact level_same _ (level_below below _ _)
  · rw [Levels.bytes, Levels.bytes, primary, secondary, tertiary]
    exact level_same _ (level_same _ (level_same _ (level_below below _ _)))
  · rw [Levels.bytes, Levels.bytes, primary, secondary, tertiary, quaternary]
    exact level_same _ (level_same _ (level_same _ (level_same _ less)))

theorem run_longer (run : List Char) (more : later ≠ []) :
    RunBefore run (run ++ later) ∨ significantDigits run = [] ∧ significantDigits (run ++ later) = [] := by
  have whole : significantDigits (run ++ later) =
      if (significantDigits run).isEmpty then significantDigits later else significantDigits run ++ later :=
    List.dropWhile_append
  obtain ⟨x, rest, rfl⟩ := List.exists_cons_of_ne_nil more
  by_cases none : significantDigits run = []
  · rw [none, List.isEmpty_nil, if_pos rfl] at whole
    by_cases zeros : significantDigits (x :: rest) = []
    · exact .inr ⟨none, whole.trans zeros⟩
    · have some := List.length_pos_of_ne_nil zeros
      refine .inl (.inl ?_)
      rw [none, whole, List.length_nil]
      omega
  · rw [if_neg (by simpa using none)] at whole
    refine .inl ?_
    unfold RunBefore
    rw [whole, List.length_append, List.length_cons]
    rcases Nat.lt_or_ge (significantDigits run).length 255 with few | many
    · exact .inl (by omega)
    · refine .inr ⟨by omega, ?_⟩
      simpa using @List.append_left_lt _ _ (significantDigits run) _ _ (List.nil_lt_cons x rest)

theorem leadingZeros_le (run later : List Char) : leadingZeros run ≤ leadingZeros (run ++ later) := by
  unfold leadingZeros
  rw [List.takeWhile_append]
  split
  · next whole => rw [whole, List.length_append]; exact Nat.le_add_right _ _
  · exact Nat.le_refl _

theorem split_last (digit : α → Bool) (whole : List α) :
    ∃ before run, whole = before ++ run ∧ (∀ x ∈ run, digit x = true) ∧ ∀ last ∈ before.getLast?,
      digit last = false := by
  refine ⟨whole.rdropWhile digit, whole.rtakeWhile digit, List.rdropWhile_append_rtakeWhile.symm,
    fun x member => List.mem_rtakeWhile_imp member, ?_⟩
  intro last member
  by_cases some : whole.rdropWhile digit = []
  · rw [some] at member
    cases member
  · rw [List.getLast?_eq_some_getLast some] at member
    cases member
    simpa using List.rdropWhile_last_not digit whole some

theorem split_head (digit : α → Bool) (whole : List α) :
    ∃ run after, whole = run ++ after ∧ (∀ x ∈ run, digit x = true) ∧ ∀ next ∈ after.head?, digit next = false := by
  refine ⟨whole.takeWhile digit, whole.dropWhile digit, List.takeWhile_append_dropWhile.symm,
    fun x member => List.mem_takeWhile_imp member, ?_⟩
  intro next member
  have kept := List.head?_dropWhile_not digit whole
  rw [Option.mem_def.mp member] at kept
  simpa using kept

theorem base_of_digit {element : Element} (digit : element.isDigit = true) :
    ∃ c, element.base = some c ∧ c.isDigit = true := by
  unfold Element.isDigit at digit
  cases base : element.base with
  | none => rw [base] at digit; cases digit
  | some c => exact ⟨c, rfl, by simpa [base] using digit⟩

theorem allDigits_bases {run : List Element} (digits : ∀ element ∈ run, Element.isDigit element = true) :
    Numeral.allDigits (run.filterMap Element.base) = true := by
  refine List.all_eq_true.mpr fun c member => ?_
  obtain ⟨element, inside, base⟩ := List.mem_filterMap.mp member
  obtain ⟨d, base', digit⟩ := base_of_digit (digits element inside)
  cases base.symm.trans base'
  exact digit

theorem bases_ne_nil {run : List Element} (digits : ∀ element ∈ run, Element.isDigit element = true) (some : run ≠ []) :
    run.filterMap Element.base ≠ [] := by
  obtain ⟨element, rest, rfl⟩ := List.exists_cons_of_ne_nil some
  obtain ⟨c, base, _⟩ := base_of_digit (digits element List.mem_cons_self)
  rw [List.filterMap_cons_some base]
  exact List.cons_ne_nil _ _

theorem NotAfter.behind (order : NotAfter first second) (before : Levels) :
    NotAfter (before ++ first) (before ++ second) := by
  have shift {level other : List UInt8} (front : List UInt8) (below : Below (level ++ [0]) (other ++ [0])) :
      Below (front ++ level ++ [0]) (front ++ other ++ [0]) := by
    rw [List.append_assoc, List.append_assoc]
    exact below.behind front
  rcases order with below | ⟨primary, below | ⟨secondary, tertiary, below | quaternary⟩⟩
  · exact .inl (shift before.primary below)
  · exact .inr ⟨congrArg (before.primary ++ ·) primary, .inl (shift before.secondary below)⟩
  · exact .inr ⟨congrArg (before.primary ++ ·) primary, .inr ⟨congrArg (before.secondary ++ ·) secondary,
      congrArg (before.tertiary ++ ·) tertiary, .inl (shift before.quaternary below)⟩⟩
  · exact .inr ⟨congrArg (before.primary ++ ·) primary, .inr ⟨congrArg (before.secondary ++ ·) secondary,
      congrArg (before.tertiary ++ ·) tertiary, .inr (congrArg (before.quaternary ++ ·) quaternary)⟩⟩

theorem notAfter_run (u : Unicode) (digits : Numeral.allDigits run = true) (digits' : Numeral.allDigits later = true)
    (more : later ≠ []) (after : List Element) :
    NotAfter (digitRun run) (digitRun (run ++ later) ++ elementLevels u after) := by
  rcases run_longer run more with order | ⟨none, none'⟩
  · have all : Numeral.allDigits (run ++ later) = true := by rw [Numeral.allDigits_append, digits, digits']; rfl
    left
    rw [levels_append_primary, List.append_assoc]
    exact run_below all order (by decide) [] _
  · have same : (digitRun (run ++ later)).primary = (digitRun run).primary := by rw [digitRun, digitRun, none, none']
    by_cases nothing : after = []
    · rw [nothing, elementLevels, levels_append_nil]
      refine .inr ⟨same.symm, .inr ⟨rfl, rfl, ?_⟩⟩
      have zeros := leadingZeros_le run later
      have capped : min (leadingZeros run) 255 ≤ min (leadingZeros (run ++ later)) 255 := by omega
      rcases Nat.lt_or_eq_of_le capped with less | equal
      · exact .inl (below_head (byte_lt_byte less (by omega)) _ _)
      · exact .inr (by rw [digitRun, digitRun, equal])
    · obtain ⟨cls, rest, shape, positive, _⟩ := primary_class u nothing
      left
      rw [levels_append_primary, same, shape, List.append_assoc]
      exact (below_head positive [] _).behind _

theorem notAfter_append (u : Unicode) (first : List Element) (more : second ≠ []) :
    NotAfter (elementLevels u first) (elementLevels u (first ++ second)) := by
  by_cases apart : Apart Element.isDigit first second
  · obtain ⟨cls, rest, shape, positive, _⟩ := primary_class u more
    left
    rw [elementLevels_append u apart, levels_append_primary, shape, List.append_assoc]
    exact (below_head positive [] _).behind _
  · -- A run of digits goes on: it is cut out of both lists.
    obtain ⟨before, run, rfl, digits, last⟩ := split_last Element.isDigit first
    obtain ⟨later, after, rfl, digits', head⟩ := split_head Element.isDigit second
    have some : run ≠ [] := by
      rintro rfl
      exact apart (.inl (by simpa using last))
    have some' : later ≠ [] := by
      rintro rfl
      exact apart (.inr (by simpa using head))
    have all : ∀ element ∈ run ++ later, element.isDigit = true := by
      intro element member
      exact (List.mem_append.mp member).elim (digits element) (digits' element)
    have shape : before ++ run ++ (later ++ after) = before ++ (run ++ later ++ after) := by
      simp only [List.append_assoc]
    rw [shape, elementLevels_append u (.inl last), elementLevels_append u (.inl last),
      elementLevels_append u (.inr head),
      elementLevels_run u digits some, elementLevels_run u all (List.append_ne_nil_of_left_ne_nil some _),
      List.filterMap_append]
    exact (notAfter_run u (allDigits_bases digits) (allDigits_bases digits')
      (bases_ne_nil digits' some') after).behind _

theorem pushChar_behind (u : Unicode) (before : List Element) (some : elements ≠ []) (c : Char) :
    pushChar u (before ++ elements) c = before ++ pushChar u elements c ∧ pushChar u elements c ≠ [] := by
  unfold pushChar
  rw [List.getLast?_append_of_ne_nil _ some, List.dropLast_append_of_ne_nil some]
  split_ifs
  · split <;> simp
  · simp

theorem foldl_behind (u : Unicode) (before : List Element) (some : elements ≠ []) (text : List Char) :
    text.foldl (pushChar u) (before ++ elements) = before ++ text.foldl (pushChar u) elements := by
  induction text generalizing elements with
  | nil => rfl
  | cons c rest ih =>
    obtain ⟨kept, still⟩ := pushChar_behind u before some c
    rw [List.foldl_cons, List.foldl_cons, kept, ih still]

theorem foldl_base (u : Unicode) (before : List Element) (base : Char) (marks text : List Char) :
    text.foldl (pushChar u) (before ++ [⟨base, marks⟩]) =
      before ++ [⟨base, marks ++ text.takeWhile u.isNonspacingMark⟩] ++
        splitElements u (text.dropWhile u.isNonspacingMark) := by
  induction text generalizing marks with
  | nil => simp [splitElements]
  | cons c rest ih =>
    cases mark : u.isNonspacingMark c with
    | true =>
      rw [List.foldl_cons, pushChar, if_pos mark, List.takeWhile_cons_of_pos mark, List.dropWhile_cons_of_pos mark]
      simp only [List.getLast?_concat, List.dropLast_concat]
      rw [ih]
      simp
    | false =>
      rw [List.foldl_cons, List.takeWhile_cons_of_neg (by simp [mark]), List.dropWhile_cons_of_neg (by simp [mark]),
        pushChar, if_neg (by simp [mark]), foldl_behind u _ (List.cons_ne_nil _ _), splitElements, List.foldl_cons,
        List.append_nil]
      simp [pushChar, mark]

theorem splitElements_ne_nil (u : Unicode) (some : text ≠ []) : splitElements u text ≠ [] := by
  obtain ⟨c, rest, rfl⟩ := List.exists_cons_of_ne_nil some
  rw [splitElements, List.foldl_cons]
  have first : pushChar u [] c ≠ [] := by
    unfold pushChar
    split_ifs <;> simp
  generalize pushChar u [] c = elements at first
  clear some
  induction rest generalizing elements with
  | nil => exact first
  | cons d rest ih => exact ih _ (pushChar_behind u [] first d).2

def Element.bare (element : Element) : Element := if element.isDigit then ⟨element.base, []⟩ else element

@[simp] theorem bare_base (element : Element) : element.bare.base = element.base := by
  unfold Element.bare
  split <;> rfl

@[simp] theorem bare_isDigit (element : Element) : element.bare.isDigit = element.isDigit := by
  simp [Element.isDigit]

/-- Marks on digits are not read. -/
theorem elementLevels_bare (u : Unicode) (elements : List Element) :
    elementLevels u (elements.map Element.bare) = elementLevels u elements := by
  have same : Element.isDigit ∘ Element.bare = Element.isDigit := funext bare_isDigit
  have bases : Element.base ∘ Element.bare = Element.base := funext bare_base
  induction elements using elementLevels.induct with
  | case1 => rfl
  | case2 element rest one ih =>
    have one' : element.bare.isDigit = true := (bare_isDigit element).trans one
    rw [List.map_cons, elementLevels, if_pos one', elementLevels, if_pos one, List.takeWhile_map,
      List.dropWhile_map, same,
      ih, ← List.map_cons, List.filterMap_map, bases]
  | case3 element rest other ih =>
    have bare : element.bare = element := by rw [Element.bare, if_neg other]
    rw [List.map_cons, bare, elementLevels, if_neg other, elementLevels, if_neg other, ih]

theorem notAfter_refl (levels : Levels) : NotAfter levels levels := .inr ⟨rfl, .inr ⟨rfl, rfl, .inr rfl⟩⟩

theorem notAfter_marks (u : Unicode) (before : List Element) (base : Char) (marks : List Char) (after : List Element) :
    NotAfter (elementLevels u (before ++ [⟨base, []⟩])) (elementLevels u (before ++ [⟨base, marks⟩] ++ after)) := by
  cases digit : base.isDigit with
  | true =>
    have bare : (before ++ [(⟨some base, marks⟩ : Element)] ++ after).map Element.bare =
        (before ++ [(⟨some base, []⟩ : Element)] ++ after).map Element.bare := by
      simp [Element.bare, Element.isDigit, digit]
    rw [← elementLevels_bare u (before ++ [(⟨some base, marks⟩ : Element)] ++ after), bare, elementLevels_bare]
    by_cases more : after = []
    · rw [more, List.append_nil]
      exact notAfter_refl _
    · exact notAfter_append u _ more
  | false =>
    have other (marks : List Char) : (⟨some base, marks⟩ : Element).isDigit = false := by simp [Element.isDigit, digit]
    have single (marks : List Char) (rest : List Element) :
        elementLevels u (⟨some base, marks⟩ :: rest) = Element.levels u ⟨base, marks⟩ ++ elementLevels u rest := by
      rw [elementLevels, if_neg (by simp [other])]
    rw [List.append_assoc, elementLevels_append u (.inr (by simpa using other [])),
      elementLevels_append u (.inr (by simpa using other marks)), List.cons_append, List.nil_append, single, single,
      elementLevels, levels_append_nil]
    refine NotAfter.behind ?_ _
    by_cases more : after = []
    · rw [more, elementLevels, levels_append_nil]
      refine .inr ⟨rfl, ?_⟩
      by_cases none : marks = []
      · rw [none]
        exact .inr ⟨rfl, rfl, .inr rfl⟩
      · have count := List.length_pos_of_ne_nil none
        have positive : byte 0 < byte (min marks.length 255) := byte_lt_byte (by omega) (by omega)
        have marked : marks.isEmpty = false := by simpa using none
        left
        simp only [Element.levels, marked, List.isEmpty_nil]
        exact below_head positive [0] _
    · obtain ⟨cls, rest, shape, positive, _⟩ := primary_class u more
      left
      rw [levels_append_primary, shape, List.append_assoc]
      exact (below_head positive [] _).behind _

theorem utf8_append (first second : String) : Text.utf8 (first ++ second) = Text.utf8 first ++ Text.utf8 second := by
  simp [Text.utf8]

theorem utf8_ne_nil (some : text ≠ "") : Text.utf8 text ≠ [] := by
  intro none
  have read : Text.fromUtf8 (Text.utf8 text) = Text.fromUtf8 (Text.utf8 "") := congrArg Text.fromUtf8 none
  rw [Text.fromUtf8_utf8, Text.fromUtf8_utf8] at read
  exact some (Option.some.inj read)

theorem naturalKey_longer {u : Unicode} (tables : u.Ascii) (ascii : AsciiText text.toList) (more : rest ≠ "") :
    naturalKey u text < naturalKey u (text ++ rest) := by
  have raw : Text.utf8 text < Text.utf8 (text ++ rest) := by
    obtain ⟨x, later, shape⟩ := List.exists_cons_of_ne_nil (utf8_ne_nil more)
    rw [utf8_append, shape]
    simpa using @List.append_left_lt _ _ (Text.utf8 text) _ _ (List.nil_lt_cons x later)
  have normal : u.nfd rest.toList ≠ [] := by
    intro none
    exact more (String.toList_eq_nil_iff.mp ((tables.nothing _).mp none))
  rw [naturalKey_ascii tables ascii, naturalKey, String.toList_append, tables.nfd _ _ ascii]
  refine bytes_lt_of_notAfter ?_ raw
  have parts : splitElements u (text.toList ++ u.nfd rest.toList) =
      (u.nfd rest.toList).foldl (pushChar u) (text.toList.map plain) := by
    rw [splitElements, List.foldl_append, ← splitElements, splitElements_ascii tables ascii]
  rw [parts]
  rcases List.eq_nil_or_concat' text.toList with none | ⟨before, base, shape⟩
  · obtain ⟨cls, later, head, positive, _⟩ := primary_class u (splitElements_ne_nil u normal)
    left
    rw [none, List.map_nil, elementLevels, ← splitElements, head]
    exact below_head positive [] _
  · rw [shape, List.map_append, List.map_singleton, plain, foldl_base]
    exact notAfter_marks u _ base _ _

/-- A run of ASCII digits between two ASCII texts, none of which goes on with a digit. -/
structure Around (front run back : String) : Prop where
  frontAscii : AsciiText front.toList
  backAscii : AsciiText back.toList
  some : run ≠ ""
  digits : Numeral.allDigits run.toList = true
  opens : ∀ c ∈ front.toList.getLast?, c.isDigit = false
  closes : ∀ c ∈ back.toList.head?, c.isDigit = false

theorem naturalKey_around {u : Unicode} (tables : u.Ascii) (around : Around front run back) :
    naturalKey u (front ++ run ++ back) =
      (elementLevels u (front.toList.map plain) ++
        (digitRun run.toList ++ elementLevels u (back.toList.map plain))).bytes (Text.utf8 (front ++ run ++ back)) := by
  have ascii : AsciiText (front ++ run ++ back).toList := by
    intro c member
    rw [String.toList_append, String.toList_append, List.mem_append, List.mem_append] at member
    rcases member with (member | member) | member
    · exact around.frontAscii c member
    · exact Nat.lt_of_le_of_lt (Numeral.digit_toNat (Numeral.digit_of_allDigits around.digits member)).2 (by decide)
    · exact around.backAscii c member
  have some : run.toList.map plain ≠ [] := by
    simpa [String.toList_eq_nil_iff] using around.some
  have digits : ∀ element ∈ run.toList.map plain, element.isDigit = true := by
    intro element member
    obtain ⟨c, inside, rfl⟩ := List.mem_map.mp member
    simpa [plain, Element.isDigit] using Numeral.digit_of_allDigits around.digits inside
  rw [naturalKey_ascii tables ascii, String.toList_append, String.toList_append, List.append_assoc, List.map_append,
    elementLevels_append u, List.map_append, elementLevels_append u, elementLevels_run u digits some, plain_bases]
  · exact apart_plain (.inr around.closes)
  · exact apart_plain (.inl around.opens)

theorem naturalKey_lt_iff {u : Unicode} (tables : u.Ascii) (around : Around front run back)
    (around' : Around front other back) (differ : significantDigits run.toList ≠ significantDigits other.toList) :
    naturalKey u (front ++ run ++ back) < naturalKey u (front ++ other ++ back) ↔
      RunBefore run.toList other.toList := by
  rw [naturalKey_around tables around, naturalKey_around tables around']
  refine ⟨fun less => ?_, fun order => around_lt u around'.digits _ _ order _ _⟩
  by_contra not
  exact List.lt_asymm less (around_lt u around.digits _ _ (runBefore_total differ not) _ _)

/-- Around equal texts, the key of the smaller number is smaller as long as it has fewer than 255
significant digits or as many as the other one; longer runs of different length are compared
digit by digit. A text comes before every longer one that begins with it. -/
theorem natural_key_order {u : Unicode} (tables : u.Ascii) :
    (∀ front run other back, Around front run back → Around front other back →
      Numeral.value run.toList < Numeral.value other.toList →
        (naturalKey u (front ++ run ++ back) < naturalKey u (front ++ other ++ back) ↔
          (significantDigits run.toList).length < 255 ∨
            (significantDigits run.toList).length = (significantDigits other.toList).length ∨
              significantDigits run.toList < significantDigits other.toList)) ∧
      ∀ text rest, AsciiText text.toList → rest ≠ "" → naturalKey u text < naturalKey u (text ++ rest) := by
  refine ⟨fun front run other back around around' less => ?_,
    fun text rest ascii more => naturalKey_longer tables ascii more⟩
  have differ : significantDigits run.toList ≠ significantDigits other.toList := by
    intro same
    rw [← value_significantDigits run.toList, ← value_significantDigits other.toList, same] at less
    exact Nat.lt_irrefl _ less
  rw [naturalKey_lt_iff tables around around' differ]
  exact runBefore_of_value around.digits around'.digits less

def asciiTables : Unicode :=
  { nfd := id
    isNonspacingMark := fun _ => false
    isAlphabetic := Char.isAlpha
    isNumeric := Char.isDigit
    isLowercase := Char.isLower }

theorem asciiTables_ascii : asciiTables.Ascii := ⟨fun _ _ _ => rfl, fun _ => Iff.rfl, fun _ _ => rfl⟩

/-- `b9c` comes before `b10c`, and `row` before `rows`. -/
theorem natural_key_order_rows :
    naturalKey asciiTables ("b" ++ "9" ++ "c") < naturalKey asciiTables ("b" ++ "10" ++ "c") ∧
      naturalKey asciiTables "row" < naturalKey asciiTables ("row" ++ "s") := by
  refine ⟨((natural_key_order asciiTables_ascii).1 "b" "9" "10" "c" ?_ ?_ (by decide)).mpr (.inl (by decide)), ?_⟩
  · exact ⟨by simp [AsciiText], by simp [AsciiText], by simp, by simp [Numeral.allDigits], by simp, by simp⟩
  · exact ⟨by simp [AsciiText], by simp [AsciiText], by simp, by simp [Numeral.allDigits], by simp, by simp⟩
  · exact (natural_key_order asciiTables_ascii).2 "row" "s" (by simp [AsciiText]) (by decide)

theorem significant_of_head {c : Char} (nonzero : c ≠ '0') (rest : List Char) :
    significantDigits (c :: rest) = c :: rest :=
  List.dropWhile_cons_of_neg (by rwa [beq_iff_eq])

theorem allDigits_replicate {c : Char} (digit : c.isDigit = true) (count : Nat) :
    Numeral.allDigits (List.replicate count c) = true :=
  List.all_eq_true.mpr fun _ inside => (List.eq_of_mem_replicate inside).symm ▸ digit

theorem around_nothing (nonempty : run ≠ []) (digits : Numeral.allDigits run = true) :
    Around "" (String.ofList run) "" where
  frontAscii := by simp [AsciiText]
  backAscii := by simp [AsciiText]
  some empty := nonempty (by simpa using congrArg String.toList empty)
  digits := by rwa [String.toList_ofList]
  opens := by simp
  closes := by simp

/-- 255 nines are a smaller number than a one with 255 zeros, and the larger key. -/
theorem many_digits_out_of_order :
    Numeral.value (List.replicate 255 '9') < Numeral.value ('1' :: List.replicate 255 '0') ∧
      ¬ naturalKey asciiTables ("" ++ String.ofList (List.replicate 255 '9') ++ "") <
        naturalKey asciiTables ("" ++ String.ofList ('1' :: List.replicate 255 '0') ++ "") := by
  have nines : Numeral.allDigits (List.replicate 255 '9') = true := allDigits_replicate rfl 255
  have zeros : Numeral.allDigits ('1' :: List.replicate 255 '0') = true := by
    rw [Numeral.allDigits, List.all_cons, ← Numeral.allDigits, allDigits_replicate rfl 255]
    rfl
  constructor
  · calc Numeral.value (List.replicate 255 '9')
        < 10 ^ (List.replicate 255 '9').length := Numeral.value_lt nines
      _ = 10 ^ (List.replicate 255 '0').length := by rw [List.length_replicate, List.length_replicate]
      _ ≤ Numeral.value ('1' :: List.replicate 255 '0') := Numeral.le_value rfl (by decide)
  · have fewer : significantDigits (List.replicate 255 '9') = '9' :: List.replicate 254 '9' :=
      significant_of_head (by decide) _
    have more : significantDigits ('1' :: List.replicate 255 '0') = '1' :: List.replicate 255 '0' :=
      significant_of_head (by decide) _
    have differ : significantDigits (String.ofList (List.replicate 255 '9')).toList ≠
        significantDigits (String.ofList ('1' :: List.replicate 255 '0')).toList := by
      rw [String.toList_ofList, String.toList_ofList, fewer, more]
      intro same
      exact absurd (List.cons.inj same).1 (by decide)
    have around : Around "" (String.ofList (List.replicate 255 '9')) "" := around_nothing (List.cons_ne_nil _ _) nines
    have around' : Around "" (String.ofList ('1' :: List.replicate 255 '0')) "" :=
      around_nothing (List.cons_ne_nil _ _) zeros
    rw [naturalKey_lt_iff asciiTables_ascii around around' differ, String.toList_ofList,
      String.toList_ofList, RunBefore,
      fewer, more]
    rintro (short | ⟨-, less⟩)
    · simp only [List.length_cons, List.length_replicate] at short
      omega
    · rcases List.cons_lt_cons_iff.mp less with digit | ⟨digit, -⟩
      · exact absurd digit (by decide)
      · exact absurd digit (by decide)

end QueryHive.Store.NaturalKey
