import Mathlib.Data.List.Pairwise
import Mathlib.Tactic.IntervalCases
import QueryHive.Import.DateFields

/-! The timestamp a date pattern makes of a text agrees with every field of it, when the pattern names nothing twice
and has an hour for its minutes. -/
namespace QueryHive.Import.Dates
open QueryHive.Library Text Numeral MarchYear

structure Stamp where
  year : Nat
  month : Nat
  day : Nat
  hour : Nat
  minute : Nat
  second : Nat
  fraction : ℚ

/-- The number behind the point of the seconds. -/
def fractionNumber (digits : List Char) : ℚ := value digits / 10 ^ digits.length

def pointText (fraction : List Char) : List Char := if fraction = [] then [] else '.' :: fraction

/-- The date and time a text `YYYY-MM-DD HH:MM:SS[.fraction]` denotes. -/
def Denotes (text : List Char) (stamp : Stamp) : Prop :=
  ∃ year month day hour minute second fraction : List Char,
    (year.length = 4 ∧ month.length = 2 ∧ day.length = 2 ∧ hour.length = 2 ∧ minute.length = 2 ∧ second.length = 2) ∧
    (∀ digits ∈ [year, month, day, hour, minute, second, fraction], allDigits digits = true) ∧
    text = year ++ '-' :: (month ++ '-' :: (day ++ ' ' ::
      (hour ++ ':' :: (minute ++ ':' :: (second ++ pointText fraction))))) ∧
    stamp = ⟨value year, value month, value day, value hour, value minute, value second, fractionNumber fraction⟩

theorem pointText_injective (same : pointText first = pointText second) : first = second := by
  unfold pointText at same
  split_ifs at same with none none'
  · rw [none, none']
  · exact (List.cons.inj same).2

theorem denotes_unique (denotes : Denotes text stamp) (denotes' : Denotes text stamp') : stamp = stamp' := by
  obtain ⟨year, month, day, hour, minute, second, fraction, ⟨y, mo, d, h, mi, s⟩, _, rfl, rfl⟩ := denotes
  obtain ⟨year', month', day', hour', minute', second', fraction', ⟨y', mo', d', h', mi', s'⟩, _, same, rfl⟩ := denotes'
  obtain ⟨rfl, afterYear⟩ := List.append_inj same (y.trans y'.symm)
  obtain ⟨rfl, afterMonth⟩ := List.append_inj (List.cons.inj afterYear).2 (mo.trans mo'.symm)
  obtain ⟨rfl, afterDay⟩ := List.append_inj (List.cons.inj afterMonth).2 (d.trans d'.symm)
  obtain ⟨rfl, afterHour⟩ := List.append_inj (List.cons.inj afterDay).2 (h.trans h'.symm)
  obtain ⟨rfl, afterMinute⟩ := List.append_inj (List.cons.inj afterHour).2 (mi.trans mi'.symm)
  obtain ⟨rfl, afterSecond⟩ := List.append_inj (List.cons.inj afterMinute).2 (s.trans s'.symm)
  rw [pointText_injective afterSecond]

/-- A date of the calendar and a time of day. -/
structure Real (stamp : Stamp) : Prop where
  date : ValidDate gregorianLeap (stamp.year, stamp.month, stamp.day)
  hour : stamp.hour ≤ 23
  minute : stamp.minute ≤ 59
  second : stamp.second ≤ 59

/-- A date and time agrees with a field of the text. -/
def Agrees (stamp : Stamp) : Token → List Char → Prop
  | .year4, field => stamp.year = value field
  | .year2, field => stamp.year = centuryYear (value field)
  | .month _, field => stamp.month = value field
  | .day _, field => stamp.day = value field
  | .hour24 _, field => stamp.hour = value field
  | .hour12 _, field => (1 ≤ value field ∧ value field ≤ 12) ∧ stamp.hour % 12 = value field % 12
  | .minute, field => stamp.minute = value field
  | .second, field => stamp.second = value field
  | .fraction, field => stamp.fraction = fractionNumber field
  | .amPm, field => 12 ≤ stamp.hour ↔ field.map Char.toUpper = ['P', 'M']
  | .literal _, _ => True

/-- What a reading is for: it does not panic, and what it accepts is one field for each token and becomes the
timestamp of a real date and time that agrees with all of them. -/
def Faithful (pattern : DatePattern) (text : List Char) : Prop :=
  pattern.read text ≠ .error .panicked ∧
    ∀ iso, pattern.read text = .ok iso →
      ∃ fields, trim text = fields.flatten ∧ List.Forall₂ Takes pattern.tokens fields ∧
        ∃ stamp, Denotes iso.timestamp stamp ∧ Real stamp ∧ ∀ pair ∈ pattern.tokens.zip fields,
          Agrees stamp pair.1 pair.2

inductive Kind where
  | year | month | day | hour | minute | second | fraction | amPm
  deriving DecidableEq, Repr

def Token.kind : Token → Option Kind
  | .year4 | .year2 => some .year
  | .month _ => some .month
  | .day _ => some .day
  | .hour24 _ | .hour12 _ => some .hour
  | .minute => some .minute
  | .second => some .second
  | .fraction => some .fraction
  | .amPm => some .amPm
  | .literal _ => none

/-- Two tokens about different things. -/
def Apart (token other : Token) : Prop := ∀ kind ∈ token.kind, kind ∉ other.kind

instance (token other : Token) : Decidable (Apart token other) :=
  inferInstanceAs (Decidable (∀ kind ∈ token.kind, kind ∉ other.kind))

/-- A pattern that names nothing twice, and the hour if it names a part of one. -/
structure Clear (tokens : List Token) : Prop where
  once : tokens.Pairwise Apart
  hour : ∀ token ∈ tokens, token.kind ∈ [some .minute, some .second, some .fraction] →
    ∃ hour ∈ tokens, hour.kind = some .hour

/-- A pattern that no text fits, which are read without the blanks around them. -/
def Unreadable (tokens : List Token) : Prop :=
  (∃ c text, tokens.head? = some (.literal (c :: text)) ∧ isWhitespace c = true) ∨
    ∃ text c, tokens.getLast? = some (.literal (text ++ [c])) ∧ isWhitespace c = true

section
variable {s : Reading} {token other : Token} {field : List Char} {tokens : List Token} {fields : List (List Char)}

def Holds (s : Reading) : Token → List Char → Prop
  | .year4, field => s.year = some (value field)
  | .year2, field => s.year = some (centuryYear (value field))
  | .month _, field => s.month = some (value field)
  | .day _, field => s.day = some (value field)
  | .hour24 _, field | .hour12 _, field => s.hour = some (value field)
  | .minute, field => s.minute = value field
  | .second, field => s.second = value field
  | .fraction, field => s.fraction = some field
  | .amPm, field => s.pm = some (decide (field.map Char.toUpper = ['P', 'M']))
  | .literal _, _ => True

theorem holds_note (s : Reading) (token : Token) (field : List Char) : Holds (note s token field) token field := by
  cases token <;> first | rfl | trivial

theorem holds_note_apart (apart : Apart token other) (holds : Holds s token field) (later : List Char) :
    Holds (note s other later) token field := by
  cases token <;> cases other <;> first | exact holds | exact absurd rfl (apart _ rfl)

theorem holds_noteAll_apart (apart : ∀ other ∈ tokens, Apart token other) (holds : Holds s token field)
    (fields : List (List Char)) :
    Holds (noteAll s (tokens.zip fields)) token field := by
  induction tokens generalizing s fields with
  | nil => exact holds
  | cons next tokens ih =>
    cases fields with
    | nil => exact holds
    | cons later fields =>
      obtain ⟨first, rest⟩ := List.forall_mem_cons.mp apart
      exact ih rest (holds_note_apart first holds later) fields

/-- Behind the loop the variables hold all fields, when no token is about the same as another. -/
theorem holds_noteAll (once : tokens.Pairwise Apart) (s : Reading) (fields : List (List Char)) :
    ∀ pair ∈ tokens.zip fields, Holds (noteAll s (tokens.zip fields)) pair.1 pair.2 := by
  induction tokens generalizing s fields with
  | nil => exact List.forall_mem_nil _
  | cons token tokens ih =>
    cases fields with
    | nil => exact List.forall_mem_nil _
    | cons field fields =>
      obtain ⟨apart, once⟩ := List.pairwise_cons.mp once
      exact List.forall_mem_cons.mpr ⟨holds_noteAll_apart apart (holds_note s token field) fields, ih once _ fields⟩

theorem isSome_noteAll {get : Reading → Option Nat} {is : Token → Bool}
    (sets : ∀ s token field, is token = true → (get (note s token field)).isSome)
    (keeps : ∀ s token field, (get s).isSome → (get (note s token field)).isSome)
    (takes : List.Forall₂ Takes tokens fields) (named : tokens.any is = true ∨ (get s).isSome) :
    (get (noteAll s (tokens.zip fields))).isSome := by
  induction takes generalizing s with
  | nil => exact named.resolve_left Bool.false_ne_true
  | @cons token field _ _ _ _ ih =>
    refine ih ?_
    rw [List.any_cons, Bool.or_eq_true] at named
    rcases named with (here | later) | already
    · exact .inr (sets s token field here)
    · exact .inl later
    · exact .inr (keeps s token field already)

theorem pm_noteAll (absent : .amPm ∉ tokens) (s : Reading) (fields : List (List Char)) :
    (noteAll s (tokens.zip fields)).pm = s.pm := by
  induction tokens generalizing s fields with
  | nil => rfl
  | cons token tokens ih =>
    cases fields with
    | nil => rfl
    | cons field fields =>
      obtain ⟨here, later⟩ := not_or.mp fun inside => absent (List.mem_cons.mpr inside)
      refine (ih later _ fields).trans ?_
      cases token <;> first | rfl | exact absurd rfl here

/-- The variables hold a year of four digits, and a fraction in digits. -/
structure Sound (s : Reading) : Prop where
  year : ∀ year ∈ s.year, year < 10000
  fraction : ∀ digits ∈ s.fraction, digits ≠ [] ∧ allDigits digits = true

theorem sound_note (sound : Sound s) (takes : Takes token field) : Sound (note s token field) := by
  cases takes with
  | @digits low high _ _ numeric least most all =>
    have small := value_lt all
    cases token with
    | year4 =>
      cases numeric
      have length : field.length = 4 := Nat.le_antisymm most least
      rw [length] at small
      exact ⟨fun year same => Option.some.inj same ▸ small, sound.fraction⟩
    | year2 =>
      cases numeric
      have length : field.length = 2 := Nat.le_antisymm most least
      rw [length] at small
      refine ⟨fun year same => Option.some.inj same ▸ ?_, sound.fraction⟩
      unfold centuryYear
      split <;> omega
    | fraction =>
      cases numeric
      exact ⟨sound.year, fun digits same => Option.some.inj same ▸ ⟨List.length_pos_iff.mp least, all⟩⟩
    | _ => exact ⟨sound.year, sound.fraction⟩
  | amPm => exact ⟨sound.year, sound.fraction⟩
  | literal => exact ⟨sound.year, sound.fraction⟩

theorem sound_start : Sound .start where
  year year absent := by cases absent
  fraction digits absent := by cases absent

theorem sound_noteAll (takes : List.Forall₂ Takes tokens fields) (sound : Sound s) :
    Sound (noteAll s (tokens.zip fields)) := by
  induction takes generalizing s with
  | nil => exact sound
  | cons first _ ih => exact ih (sound_note sound first)

theorem daysInMonth_eq (year : Nat) (valid : 1 ≤ month ∧ month ≤ 12) :
    daysInMonth year month = MarchYear.daysInMonth gregorianLeap year month := by
  have leap : gregorianLeap year = decide (year % 4 = 0 ∧ (year % 100 ≠ 0 ∨ year % 400 = 0)) := by
    rw [gregorianLeap, Bool.eq_iff_iff]
    simp only [Bool.and_eq_true, Bool.or_eq_true, beq_iff_eq, bne_iff_ne, decide_eq_true_eq]
    omega
  obtain ⟨low, high⟩ := valid
  interval_cases month <;> simp [daysInMonth, MarchYear.daysInMonth, leap]

/-- The date and time of these variables; without an hour it is midnight. -/
def stampOf (s : Reading) (year month day : Nat) : Option Nat → Stamp
  | some hour => ⟨year, month, day, hour, s.minute, s.second, fractionNumber (s.fraction.getD [])⟩
  | none => ⟨year, month, day, 0, 0, 0, fractionNumber []⟩

theorem length_two (fits : n ≤ 99) : (padded 2 n).length = 2 := length_padded (by decide) (Nat.lt_succ_of_le fits)

theorem denotes_time {year month day hour minute second : Nat} {fraction : Option (List Char)}
    (date : year < 10000 ∧ month ≤ 99 ∧ day ≤ 99) (time : hour ≤ 99 ∧ minute ≤ 99 ∧ second ≤ 99)
    (decimals : ∀ digits ∈ fraction, digits ≠ [] ∧ allDigits digits = true) :
    Denotes (IsoDateTime.timestamp ⟨padded 4 year ++ '-' :: (padded 2 month ++ '-' :: padded 2 day),
        timeText (some hour) minute second fraction⟩)
      ⟨year, month, day, hour, minute, second, fractionNumber (fraction.getD [])⟩ := by
  have all : ∀ digits ∈ [padded 4 year, padded 2 month, padded 2 day, padded 2 hour, padded 2 minute, padded 2 second],
      allDigits digits = true := by simp
  refine ⟨padded 4 year, padded 2 month, padded 2 day, padded 2 hour, padded 2 minute, padded 2 second,
    fraction.getD [],
    ⟨length_padded (by decide) date.1, length_two date.2.1, length_two date.2.2, length_two time.1, length_two time.2.1,
      length_two time.2.2⟩, ?_, ?_, by simp⟩
  · intro digits inside
    rcases List.mem_append.mp (show digits ∈ [_, _, _, _, _, _] ++ [fraction.getD []] from inside) with padded | last
    · exact all digits padded
    · rw [List.mem_singleton.mp last]
      cases fraction with
      | none => rfl
      | some fraction => exact (decimals fraction rfl).2
  · cases fraction with
    | none => simp [IsoDateTime.timestamp, timeText, pointText]
    | some fraction => simp [IsoDateTime.timestamp, timeText, pointText, (decimals fraction rfl).1]

theorem denotes_midnight {year month day : Nat} (date : year < 10000 ∧ month ≤ 99 ∧ day ≤ 99) :
    Denotes (IsoDateTime.timestamp ⟨padded 4 year ++ '-' :: (padded 2 month ++ '-' :: padded 2 day), none⟩)
      ⟨year, month, day, 0, 0, 0, fractionNumber []⟩ := by
  have none : ∀ digits ∈ (none : Option (List Char)), digits ≠ [] ∧
    allDigits digits = true := fun _ absent => by cases absent
  have zero : 0 ≤ 99 ∧ 0 ≤ 99 ∧ 0 ≤ 99 := by decide
  exact denotes_time date zero none

/-- What is accepted is the text of a real date and time. -/
theorem conclude_ok {bad : String → Stop} (sound : Sound s) (concluded : conclude bad s = .ok iso) :
    ∃ year month day hour, s.year = some year ∧ s.month = some month ∧ s.day = some day ∧
      hourOf bad s.hour s.pm = .ok hour ∧
      Denotes iso.timestamp (stampOf s year month day hour) ∧ Real (stampOf s year month day hour) := by
  unfold conclude at concluded
  split at concluded
  · next year month day named named' named'' =>
    split_ifs at concluded with valid past
    cases clock : hourOf bad s.hour s.pm with
    | error e =>
      rw [clock] at concluded
      cases concluded
    | ok hour =>
      rw [clock] at concluded
      dsimp only [Except.bind] at concluded
      split_ifs at concluded with late
      cases concluded
      rw [Bool.or_eq_true, Bool.or_eq_true, not_or, not_or, decide_eq_true_eq, decide_eq_true_eq] at late
      obtain ⟨⟨hours, minutes⟩, seconds⟩ := late
      rw [not_or, daysInMonth_eq year valid] at past
      have date : ValidDate gregorianLeap (year, month, day) := ⟨valid.1, valid.2, by omega, by omega⟩
      have small : year < 10000 ∧ month ≤ 99 ∧ day ≤ 99 := by
        have days : MarchYear.daysInMonth gregorianLeap year month ≤ 31 := by
          unfold MarchYear.daysInMonth
          split
          · split <;> decide
          all_goals decide
        exact ⟨sound.year year named, by omega, by omega⟩
      refine ⟨year, month, day, hour, named, named', named'', rfl, ?_, ?_⟩
      · cases hour with
        | none => exact denotes_midnight small
        | some hour =>
          have hours : ¬23 < hour := by simpa using hours
          exact denotes_time small (by omega) sound.fraction
      · cases hour with
        | none => exact ⟨date, Nat.zero_le _, Nat.zero_le _, Nat.zero_le _⟩
        | some hour =>
          have hours : ¬23 < hour := by simpa using hours
          exact ⟨date, Nat.not_lt.mp hours, Nat.not_lt.mp minutes, Nat.not_lt.mp seconds⟩
  · cases concluded

/-- What `parse` makes sure of. -/
structure Compiled (tokens : List Token) : Prop where
  year : tokens.any Token.isYear = true
  month : tokens.any Token.isMonth = true
  day : tokens.any Token.isDay = true
  clock : tokens.any Token.isHour12 = tokens.contains .amPm
  literals : ∀ text, .literal text ∈ tokens → text ≠ []

theorem literals_snoc {tokens : List Token} (literals : ∀ text, .literal text ∈ tokens → text ≠ [])
    (last : ∀ text, token = .literal text → text ≠ []) : ∀ text, .literal text ∈ tokens ++ [token] → text ≠ [] := by
  intro text inside
  rcases List.mem_append.mp inside with before | here
  · exact literals text before
  · exact last text (List.mem_singleton.mp here).symm

theorem tokenOf_ne_literal (c : Char) (run : Nat) (text : List Char) : tokenOf c run ≠ some (.literal text) := by
  unfold tokenOf
  split_ifs <;> exact fun same => by cases same

theorem literals_pushLiteral {tokens : List Token} (literals : ∀ text, .literal text ∈ tokens → text ≠ []) :
    ∀ text, .literal text ∈ pushLiteral tokens c → text ≠ [] := by
  unfold pushLiteral
  split
  · refine literals_snoc (fun text inside => literals text (List.dropLast_subset _ inside)) ?_
    rintro text same rfl
    exact List.append_ne_nil_of_right_ne_nil _ (List.cons_ne_nil _ _) (Token.literal.inj same)
  · refine literals_snoc literals ?_
    rintro text same rfl
    exact List.cons_ne_nil _ _ (Token.literal.inj same)

theorem literals_compile (compiled : compile pattern tokens rest = .ok result)
    (literals : ∀ text, .literal text ∈ tokens → text ≠ []) : ∀ text, .literal text ∈ result → text ≠ [] := by
  induction tokens, rest using compile.induct with
  | case1 tokens =>
    rw [compile] at compiled
    cases compiled
    exact literals
  | case2 tokens rest unclosed =>
    rw [compile, if_pos rfl] at compiled
    split at compiled
    · cases compiled
    · next found => cases unclosed.symm.trans found
  | case3 tokens rest quoted behind found ih =>
    rw [compile, if_pos rfl] at compiled
    split at compiled
    · cases compiled
    · next found' =>
      cases found.symm.trans found'
      refine ih compiled (literals_snoc literals ?_)
      rintro text same rfl
      have empty : quotedText quoted = [] := Token.literal.inj same
      unfold quotedText at empty
      split_ifs at empty with none
      exact none empty
  | case4 tokens c rest unquoted letter run unknown =>
    rw [compile, if_neg unquoted, if_pos letter] at compiled
    dsimp only at compiled
    rw [unknown] at compiled
    cases compiled
  | case5 tokens c rest unquoted letter run token known ih =>
    rw [compile, if_neg unquoted, if_pos letter] at compiled
    dsimp only at compiled
    rw [known] at compiled
    refine ih compiled (literals_snoc literals ?_)
    rintro text rfl
    exact absurd known (tokenOf_ne_literal c run text)
  | case6 tokens c rest unquoted other ih =>
    rw [compile, if_neg unquoted, if_neg other] at compiled
    exact ih compiled (literals_pushLiteral literals)

/-- What `parse` accepts is compiled. -/
theorem compiled_of_parse (parsed : parse source = .ok pattern) : Compiled pattern.tokens := by
  unfold parse at parsed
  cases found : compile source [] source.toList with
  | error e =>
    rw [found] at parsed
    cases parsed
  | ok tokens =>
    rw [found] at parsed
    dsimp only [Except.bind] at parsed
    split at parsed
    · cases parsed
    · split_ifs at parsed with unnamed unclocked
      cases parsed
      simp only [Bool.not_eq_true', Bool.not_eq_false, Bool.and_eq_true, bne_iff_ne, ne_eq,
        not_not] at unnamed unclocked
      exact ⟨unnamed.1.1, unnamed.1.2, unnamed.2, unclocked, literals_compile found (fun _ inside => by cases inside)⟩

/-- A reading takes the whole text apart into fields, or refuses it. -/
theorem read_cases (pattern : DatePattern) (text : List Char) :
    (∃ fields, trim text = fields.flatten ∧ List.Forall₂ Takes pattern.tokens fields ∧
        pattern.read text = conclude (bad pattern text) (noteAll .start (pattern.tokens.zip fields))) ∨
      ∃ why, pattern.read text = .error (bad pattern text why) := by
  have start : Reading.start.place = (encodeUtf8 []).length := rfl
  rcases steps_at (bad pattern text) pattern.tokens
    (trim text) start with ⟨fields, behind, split, takes, place, run⟩ | ⟨why, refused⟩
  · rw [List.nil_append] at place run
    by_cases whole : behind = []
    · subst whole
      rw [List.append_nil] at split
      refine .inl ⟨fields, split, takes, ?_⟩
      simp only [DatePattern.read, run, bind, Except.bind]
      rw [if_neg (by rw [place, split, not_not])]
    · refine .inr ⟨"unexpected text after the date", ?_⟩
      simp only [DatePattern.read, run, bind, Except.bind]
      refine if_pos ?_
      rw [place, split, encodeUtf8_append, List.length_append]
      obtain ⟨c, rest, rfl⟩ := List.exists_cons_of_ne_nil whole
      have := List.length_pos_iff.mpr (String.utf8EncodeChar_ne_nil : String.utf8EncodeChar c ≠ [])
      simp only [encodeUtf8, List.flatMap_cons, List.length_append]
      omega
  · rw [List.nil_append] at refused
    exact .inr ⟨why, by simp only [DatePattern.read, refused, bind, Except.bind]⟩

theorem isSome_year (compiled : Compiled tokens) (takes : List.Forall₂ Takes tokens fields) (s : Reading) :
    (noteAll s (tokens.zip fields)).year.isSome :=
  isSome_noteAll (fun s token field is => by cases token <;> first | rfl | cases is)
    (fun s token field some => by cases token <;> first | rfl | exact some) takes (.inl compiled.year)

theorem isSome_month (compiled : Compiled tokens) (takes : List.Forall₂ Takes tokens fields) (s : Reading) :
    (noteAll s (tokens.zip fields)).month.isSome :=
  isSome_noteAll (fun s token field is => by cases token <;> first | rfl | cases is)
    (fun s token field some => by cases token <;> first | rfl | exact some) takes (.inl compiled.month)

theorem isSome_day (compiled : Compiled tokens) (takes : List.Forall₂ Takes tokens fields) (s : Reading) :
    (noteAll s (tokens.zip fields)).day.isSome :=
  isSome_noteAll (fun s token field is => by cases token <;> first | rfl | cases is)
    (fun s token field some => by cases token <;> first | rfl | exact some) takes (.inl compiled.day)

theorem bad_ne_panicked (pattern : DatePattern) (text : List Char) (why : String) : bad pattern text why ≠ .panicked :=
  fun same => by cases same

theorem hourOf_cases (bad : String → Stop) (hour : Option Nat) (pm : Option Bool) :
    (∃ clock, hourOf bad hour pm = .ok clock) ∨ ∃ why, hourOf bad hour pm = .error (bad why) := by
  unfold hourOf
  split
  · split
    · exact .inr ⟨_, rfl⟩
    · exact .inl ⟨_, rfl⟩
  · exact .inl ⟨_, rfl⟩

theorem conclude_cases (bad : String → Stop) (year : s.year.isSome) (month : s.month.isSome) (day : s.day.isSome) :
    (∃ iso, conclude bad s = .ok iso) ∨ ∃ why, conclude bad s = .error (bad why) := by
  obtain ⟨y, year⟩ := Option.isSome_iff_exists.mp year
  obtain ⟨m, month⟩ := Option.isSome_iff_exists.mp month
  obtain ⟨d, day⟩ := Option.isSome_iff_exists.mp day
  simp only [conclude, year, month, day]
  split
  · exact .inr ⟨_, rfl⟩
  · split
    · exact .inr ⟨_, rfl⟩
    · rcases hourOf_cases bad s.hour s.pm with ⟨clock, found⟩ | ⟨why, refused⟩
      · rw [found]
        dsimp only [Except.bind]
        split
        · exact .inr ⟨_, rfl⟩
        · exact .inl ⟨_, rfl⟩
      · rw [refused]
        exact .inr ⟨why, rfl⟩

theorem read_ne_panicked {pattern : DatePattern} (compiled : Compiled pattern.tokens) (text : List Char) :
    pattern.read text ≠ .error .panicked := by
  rcases read_cases pattern text with ⟨fields, _, takes, read⟩ | ⟨why, read⟩
  · rw [read]
    rcases conclude_cases (bad pattern text) (isSome_year compiled takes .start) (isSome_month compiled takes .start)
      (isSome_day compiled takes .start) with ⟨iso, concluded⟩ | ⟨why, concluded⟩
    · rw [concluded]
      exact fun same => by cases same
    · rw [concluded]
      exact fun same => bad_ne_panicked _ _ _ (Except.error.inj same)
  · rw [read]
    exact fun same => bad_ne_panicked _ _ _ (Except.error.inj same)

theorem mem_zip_of_mem (takes : List.Forall₂ Takes tokens fields) (inside : token ∈ tokens) :
    ∃ field, (token, field) ∈ tokens.zip fields := by
  induction takes with
  | nil => cases inside
  | cons _ _ ih =>
    rcases List.mem_cons.mp inside with rfl | later
    · exact ⟨_, List.mem_cons_self⟩
    · obtain ⟨field, held⟩ := ih later
      exact ⟨field, List.mem_cons_of_mem _ held⟩

instance : Std.Symm Apart := ⟨fun _ _ apart kind held held' => apart kind held' held⟩

theorem once_of_clear (once : tokens.Pairwise Apart) (inside : token ∈ tokens) (inside' : other ∈ tokens)
    (same : token.kind = some kind) (same' : other.kind = some kind) : token = other := by
  by_contra different
  exact once.forall inside inside' different kind same same'

theorem hourOf_bare {bad : String → Stop} (clock : hourOf bad (some v) none = .ok hour) : hour = some v :=
  (Except.ok.inj clock).symm

theorem hourOf_marked {bad : String → Stop} {pm : Bool} (clock : hourOf bad (some v) (some pm) = .ok hour) :
    (1 ≤ v ∧ v ≤ 12) ∧ hour = some (v % 12 + if pm then 12 else 0) := by
  rw [hourOf] at clock
  split at clock
  · cases clock
  · next valid => exact ⟨not_not.mp valid, (Except.ok.inj clock).symm⟩

theorem isSome_hourOf {bad : String → Stop} {pm : Option Bool} (clock : hourOf bad (some v) pm = .ok hour) :
    ∃ h, hour = some h := by
  cases pm with
  | none => exact ⟨v, hourOf_bare clock⟩
  | some pm => exact ⟨_, (hourOf_marked clock).2⟩

theorem stampOf_date (s : Reading) (year month day : Nat) (hour : Option Nat) :
    (stampOf s year month day hour).year = year ∧ (stampOf s year month day hour).month = month ∧
      (stampOf s year month day hour).day = day := by
  cases hour <;> exact ⟨rfl, rfl, rfl⟩

theorem faithful_of_clear {pattern : DatePattern} (compiled : Compiled pattern.tokens) (clear : Clear pattern.tokens)
    (text : List Char) : Faithful pattern text := by
  refine ⟨read_ne_panicked compiled text, fun iso accepted => ?_⟩
  rcases read_cases pattern text with ⟨fields, split, takes, read⟩ | ⟨why, read⟩
  swap
  · cases read.symm.trans accepted
  have holds := holds_noteAll clear.once .start fields
  have sound : Sound (noteAll .start (pattern.tokens.zip fields)) :=
    sound_noteAll takes sound_start
  have unmarked : .amPm ∉ pattern.tokens → (noteAll .start (pattern.tokens.zip fields)).pm = none :=
    fun absent => pm_noteAll absent .start fields
  obtain ⟨year, month, day, hour, named, named', named'', clock, denotes, real⟩ :=
    conclude_ok sound (read.symm.trans accepted)
  generalize noteAll .start (pattern.tokens.zip fields) = s at *
  obtain ⟨isYear, isMonth, isDay⟩ := stampOf_date s year month day hour
  have marked : ∀ width, .hour12 width ∈ pattern.tokens → ∃ field, Holds s .amPm field := by
    intro width inside
    have any : pattern.tokens.any Token.isHour12 = true := List.any_eq_true.mpr ⟨_, inside, rfl⟩
    rw [compiled.clock, List.contains_iff_mem] at any
    obtain ⟨field, held⟩ := mem_zip_of_mem takes any
    exact ⟨field, holds _ held⟩
  have hourly : ∀ token ∈ pattern.tokens, token.kind ∈ [some .minute, some .second, some .fraction] →
    ∃ h, hour = some h := by
    intro token inside kind
    obtain ⟨other, inside', isHour⟩ := clear.hour token inside kind
    obtain ⟨field, held⟩ := mem_zip_of_mem takes inside'
    have set : s.hour = some (value field) := by
      have here := holds _ held
      cases other <;> first | exact here | cases isHour
    rw [set] at clock
    exact isSome_hourOf clock
  refine ⟨fields, split, takes, _, denotes, real, ?_⟩
  rintro ⟨token, field⟩ held
  have here := holds _ held
  have inside := (List.of_mem_zip held).1
  cases token with
  | year4 => exact isYear.trans (Option.some.inj (named.symm.trans here))
  | year2 => exact isYear.trans (Option.some.inj (named.symm.trans here))
  | month width => exact isMonth.trans (Option.some.inj (named'.symm.trans here))
  | day width => exact isDay.trans (Option.some.inj (named''.symm.trans here))
  | hour24 width =>
    have absent : .amPm ∉ pattern.tokens := by
      intro marker
      have any := compiled.clock.trans (List.contains_iff_mem.mpr marker)
      obtain ⟨other, inside', is⟩ := List.any_eq_true.mp any
      cases other with
      | hour12 width' => cases once_of_clear clear.once inside inside' rfl rfl
      | _ => cases is
    rw [show s.hour = some (value field) from here, unmarked absent] at clock
    obtain rfl := hourOf_bare clock
    rfl
  | hour12 width =>
    obtain ⟨marker, pm⟩ := marked width inside
    rw [show s.hour = some (value field) from here, show s.pm = some _ from pm] at clock
    obtain ⟨valid, rfl⟩ := hourOf_marked clock
    refine ⟨valid, ?_⟩
    show (value field % 12 + _) % 12 = value field % 12
    split <;> omega
  | minute =>
    obtain ⟨h, rfl⟩ := hourly _ inside (by decide)
    exact here
  | second =>
    obtain ⟨h, rfl⟩ := hourly _ inside (by decide)
    exact here
  | fraction =>
    obtain ⟨h, rfl⟩ := hourly _ inside (by decide)
    show fractionNumber (s.fraction.getD []) = fractionNumber field
    rw [show s.fraction = some field from here]
    rfl
  | amPm =>
    have any := compiled.clock.trans (List.contains_iff_mem.mpr inside)
    obtain ⟨other, inside', is⟩ := List.any_eq_true.mp any
    obtain ⟨digits, held'⟩ := mem_zip_of_mem takes inside'
    have set : s.hour = some (value digits) := by
      have there := holds _ held'
      cases other <;> first | exact there | cases is
    rw [set, show s.pm = some _ from here] at clock
    obtain ⟨valid, rfl⟩ := hourOf_marked clock
    show 12 ≤ value digits % 12 + _ ↔ _
    by_cases pm : field.map Char.toUpper = ['P', 'M']
    · simp [pm]
    · simp only [pm, decide_false, Bool.false_eq_true, if_false, iff_false]
      omega
  | literal text => trivial

end

end QueryHive.Import.Dates
