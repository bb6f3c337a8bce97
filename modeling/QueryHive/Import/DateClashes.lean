import Mathlib.Data.List.Forall2
import QueryHive.Import.DateStamps

/-! A date pattern that names a thing twice, or parts of an hour without the hour, drops what it read from some text:
of the widest fields the one that is overwritten, or the minutes, can say something else than the timestamp. -/
namespace QueryHive.Import.Dates
open QueryHive.Library Text Numeral Weights MarchYear

inductive Full : Token → List Char → Prop
  | digits (numeric : token.widths = some (low, high)) (least : low ≤ high) (width : field.length = high)
      (digits : allDigits field = true) : Full token field
  | am : Full .amPm ['A', 'M']
  | pm : Full .amPm ['P', 'M']
  | literal (text : List Char) : Full (.literal text) text

section
variable {s : Reading} {token : Token} {field front rest : List Char} {tokens : List Token} {fields : List (List Char)}

theorem takes_of_full (full : Full token field) : Takes token field := by
  cases full with
  | digits numeric least width all => exact .digits numeric (width ▸ least) (Nat.le_of_eq width) all
  | am => exact .amPm (.inl rfl)
  | pm => exact .amPm (.inr rfl)
  | literal => exact .literal _

theorem length_le_full (full : Full token field) (takes : Takes token other) : other.length ≤ field.length := by
  cases full with
  | digits numeric least width all =>
    cases takes with
    | digits numeric' _ most =>
      obtain ⟨_, rfl⟩ := Prod.mk.inj (Option.some.inj (numeric.symm.trans numeric'))
      exact width ▸ most
    | amPm => cases numeric
    | literal => cases numeric
  | am | pm =>
    cases takes with
    | digits numeric => cases numeric
    | amPm marker => exact Nat.le_of_eq (by simpa using marker.elim (congrArg List.length) (congrArg List.length))
  | literal =>
    cases takes with
    | digits numeric => cases numeric
    | literal => exact Nat.le_refl _

theorem width_full (full : Full token field) (full' : Full token field') :
    (encodeUtf8 field).length = (encodeUtf8 field').length := by
  cases full with
  | digits numeric least width all =>
    cases full' with
    | digits numeric' least' width' all' =>
      obtain ⟨_, rfl⟩ := Prod.mk.inj (Option.some.inj (numeric.symm.trans numeric'))
      rw [Ascii.length_encodeUtf8 (Ascii.isAscii_of_digits fun _ => digit_of_allDigits all),
        Ascii.length_encodeUtf8 (Ascii.isAscii_of_digits fun _ => digit_of_allDigits all'), width, width']
    | am | pm | literal => cases numeric
  | am | pm =>
    cases full' with
    | digits numeric => cases numeric
    | am | pm => rfl
  | literal =>
    cases full' with
    | digits numeric => cases numeric
    | literal => rfl

theorem fields_unique (full : List.Forall₂ Full tokens fields) (takes : List.Forall₂ Takes tokens others)
    (same : fields.flatten = others.flatten) : fields = others := by
  have shorter : ∀ {tokens : List Token} {fields others : List (List Char)}, List.Forall₂ Full tokens fields →
      List.Forall₂ Takes tokens others → others.flatten.length ≤ fields.flatten.length := by
    intro tokens fields others full takes
    induction full generalizing others with
    | nil =>
      cases takes
      exact Nat.le_refl 0
    | cons first _ ih =>
      cases takes with
      | cons first' rest' =>
        rw [List.flatten_cons, List.flatten_cons, List.length_append, List.length_append]
        exact Nat.add_le_add (length_le_full first first') (ih rest')
  induction full generalizing others with
  | nil =>
    cases takes
    rfl
  | cons first rest ih =>
    cases takes with
    | cons first' rest' =>
      rw [List.flatten_cons, List.flatten_cons] at same
      have lengths := congrArg List.length same
      rw [List.length_append, List.length_append] at lengths
      have width := length_le_full first first'
      have behind := shorter rest rest'
      obtain ⟨rfl, later⟩ := List.append_inj same (by omega)
      rw [ih rest' later]

theorem slice_at (front field rest : List Char) :
    sliceTo Char.utf8Size (front ++ (field ++ rest))
      (encodeUtf8 front).length ((encodeUtf8 front).length + (encodeUtf8 field).length) =
      some field := by
  have found := sliceTo_total Char.utf8Size_pos front field rest
  rwa [total_append, total_utf8Size, total_utf8Size] at found

theorem step_full (bad : String → Stop) (full : Full token field) (filled : field ≠ [])
    (here : s.place = (encodeUtf8 front).length) :
    step bad (front ++ (field ++ rest)) s token = .ok (note s token field) := by
  cases full with
  | @digits low high _ _ numeric least width all =>
    have digit : ∀ c ∈ field, c.isDigit = true := fun c => digit_of_allDigits all
    have bytes := Ascii.length_encodeUtf8 (Ascii.isAscii_of_digits digit)
    have found : digitsOf high (field ++ rest) = field := by
      rw [digitsOf, ← width, List.take_left]
      exact List.takeWhile_eq_self_iff.mpr digit
    have found' : ∀ why, digits bad why (encodeUtf8 (front ++ (field ++ rest))) (encodeUtf8 front).length low high =
        .ok (value field, (encodeUtf8 field).length) := by
      intro why
      rw [digits_at, found, if_neg (by omega)]
    cases token with
    | year4 | year2 | month | day | hour24 | hour12 | minute | second =>
      cases numeric
      simp only [step, here, found']
      rw [note, here]
      rfl
    | fraction =>
      cases numeric
      have some : field.map Ascii.byteOf ≠ [] := fun empty => filled (List.map_eq_nil_iff.mp empty)
      have cut := slice_at front field rest
      rw [bytes] at cut
      simp only [step, here, digitRun_at, found, bind, Except.bind, if_neg some, List.length_map, cut, note]
      rw [bytes]
    | amPm | literal => cases numeric
  | am =>
    have cut := slice_at front ['A', 'M'] rest
    simp only [step, here]
    rw [show (encodeUtf8 front).length + 2 = (encodeUtf8 front).length + (encodeUtf8 ['A', 'M']).length from rfl,
      cut, note, here]
    rfl
  | pm =>
    have cut := slice_at front ['P', 'M'] rest
    simp only [step, here]
    rw [show (encodeUtf8 front).length + 2 = (encodeUtf8 front).length + (encodeUtf8 ['P', 'M']).length from rfl,
      cut, note, here]
    rfl
  | literal =>
    have there : dropTo Char.utf8Size (front ++ (field ++ rest)) s.place = some (field ++ rest) := by
      rw [here, ← total_utf8Size, dropTo_total Char.utf8Size_pos]
    simp only [step, there, if_pos (List.isPrefixOf_iff_prefix.mpr (List.prefix_append field rest)), note]

theorem steps_full (bad : String → Stop) (full : List.Forall₂ Full tokens fields)
    (filled : ∀ field ∈ fields, field ≠ []) (here : s.place = (encodeUtf8 front).length) :
    tokens.foldlM (step bad (front ++ fields.flatten)) s = .ok (noteAll s (tokens.zip fields)) ∧
      (noteAll s (tokens.zip fields)).place = (encodeUtf8 (front ++ fields.flatten)).length := by
  induction full generalizing s front with
  | nil => exact ⟨rfl, by rw [List.flatten_nil, List.append_nil]; exact here⟩
  | @cons token field tokens fields first _ ih =>
    obtain ⟨some, later⟩ := List.forall_mem_cons.mp filled
    have next : (note s token field).place = (encodeUtf8 (front ++ field)).length := by
      rw [place_note, here, encodeUtf8_append, List.length_append]
    rw [List.flatten_cons, List.foldlM_cons, step_full bad first some here, ← List.append_assoc]
    exact ih later next

theorem blank_full (full : Full token field) (inside : c ∈ field) (blank : isWhitespace c = true) :
    token = .literal field := by
  cases full with
  | digits numeric least width all => cases blank.symm.trans (digit_not_whitespace (digit_of_allDigits all inside))
  | am | pm =>
    simp only [List.mem_cons, List.not_mem_nil, or_false] at inside
    rcases inside with rfl | rfl <;> cases blank
  | literal => rfl

theorem last_full (full : List.Forall₂ Full tokens fields) (filled : ∀ field ∈ fields, field ≠ [])
    (last : fields.flatten.getLast? = some c) :
    ∃ token field, tokens.getLast? = some token ∧ Full token field ∧ field.getLast? = some c := by
  induction full with
  | nil => cases last
  | @cons token field tokens fields first rest ih =>
    obtain ⟨_, later⟩ := List.forall_mem_cons.mp filled
    rw [List.flatten_cons] at last
    cases rest with
    | nil =>
      rw [List.flatten_nil, List.append_nil] at last
      exact ⟨token, field, rfl, first, last⟩
    | @cons token' field' tokens fields _ _ =>
      have more : (field' :: fields).flatten ≠ [] := by
        rw [List.flatten_cons]
        exact List.append_ne_nil_of_left_ne_nil (later field' List.mem_cons_self) _
      rw [List.getLast?_append_of_ne_nil _ more] at last
      obtain ⟨token, field, there, full, ends⟩ := ih later last
      exact ⟨token, field, by rw [List.getLast?_cons_cons]; exact there, full, ends⟩

/-- The widest fields of a pattern that can be read begin and end without blanks. -/
theorem trim_full (full : List.Forall₂ Full tokens fields) (filled : ∀ field ∈ fields, field ≠ [])
    (readable : ¬Unreadable tokens) :
    trim fields.flatten = fields.flatten := by
  refine trim_of_ends (fun c head => ?_) fun c last => ?_
  · by_contra blank
    cases full with
    | nil => cases head
    | @cons token field tokens fields first _ =>
      obtain ⟨d, more, rfl⟩ := List.exists_cons_of_ne_nil (filled field List.mem_cons_self)
      obtain rfl := Option.some.inj head
      obtain rfl := blank_full first List.mem_cons_self (Bool.not_eq_false _ ▸ blank)
      exact readable (.inl ⟨d, more, rfl, Bool.not_eq_false _ ▸ blank⟩)
  · by_contra blank
    obtain ⟨token, field, there, full, ends⟩ := last_full full filled last
    obtain ⟨front, rfl⟩ := List.getLast?_eq_some_iff.mp ends
    obtain rfl := blank_full full (List.mem_append_right _ List.mem_cons_self) (Bool.not_eq_false _ ▸ blank)
    exact readable (.inr ⟨front, c, there, Bool.not_eq_false _ ▸ blank⟩)

theorem read_full {pattern : DatePattern} (full : List.Forall₂ Full pattern.tokens fields)
    (filled : ∀ field ∈ fields, field ≠ []) (readable : ¬Unreadable pattern.tokens) :
    pattern.read fields.flatten = conclude (bad pattern fields.flatten)
      (noteAll .start (pattern.tokens.zip fields)) := by
  have start : Reading.start.place = (encodeUtf8 []).length := rfl
  obtain ⟨run, place⟩ := steps_full (bad pattern fields.flatten) full filled start
  rw [List.nil_append] at run place
  simp only [DatePattern.read, trim_full full filled readable, run, bind, Except.bind]
  exact if_neg (not_not.mpr place)

theorem literal_of_takes {text : List Char} (takes : Takes (.literal text) field) : field = text := by
  cases takes with
  | digits numeric => cases numeric
  | literal => rfl

theorem last_takes {text : List Char} (takes : List.Forall₂ Takes tokens fields)
    (last : tokens.getLast? = some (.literal (text ++ [c]))) : fields.flatten.getLast? = some c := by
  induction takes with
  | nil => cases last
  | @cons token field tokens fields first rest ih =>
    rw [List.flatten_cons, List.getLast?_append]
    cases rest with
    | nil =>
      obtain rfl := Option.some.inj last
      rw [literal_of_takes first]
      simp
    | cons _ _ =>
      rw [List.getLast?_cons_cons] at last
      rw [ih last]
      rfl

theorem faithful_of_unreadable {pattern : DatePattern} (compiled : Compiled pattern.tokens)
    (unreadable : Unreadable pattern.tokens) (text : List Char) : Faithful pattern text := by
  refine ⟨read_ne_panicked compiled text, fun iso accepted => ?_⟩
  rcases read_cases pattern text with ⟨fields, split, takes, _⟩ | ⟨why, read⟩
  · rcases unreadable with ⟨c, literal, head, blank⟩ | ⟨literal, c, last, blank⟩
    · have first : (trim text).head? = some c := by
        rw [split]
        generalize pattern.tokens = tokens at takes head
        cases takes with
        | nil => cases head
        | cons first _ =>
          obtain rfl := Option.some.inj head
          rw [literal_of_takes first]
          rfl
      cases blank.symm.trans (head_trim first)
    · cases blank.symm.trans (last_trim (split ▸ last_takes takes last))
  · cases read.symm.trans accepted

/-- The widest field of a token that says `n`. -/
def wide (n : Nat) : Token → List Char
  | .year4 => padded 4 (2000 + n)
  | .year2 | .month _ | .day _ | .hour24 _ | .hour12 _ | .minute | .second => padded 2 n
  | .fraction => padded 9 n
  | .amPm => if n = 1 then ['A', 'M'] else ['P', 'M']
  | .literal text => text

theorem full_wide (small : n ≤ 9) (token : Token) : Full token (wide n token) := by
  have two : (padded 2 n).length = 2 := length_padded (by decide) (by omega)
  cases token with
  | year4 => exact .digits rfl (Nat.le_refl 4) (length_padded (by decide) (by omega)) (allDigits_padded 4 _)
  | year2 | minute | second => exact .digits rfl (Nat.le_refl 2) two (allDigits_padded 2 n)
  | month width | day width | hour24 width | hour12 width =>
    exact .digits rfl (Nat.min_le_right width 2) two (allDigits_padded 2 n)
  | fraction => exact .digits rfl (by decide) (length_padded (by decide) (by omega)) (allDigits_padded 9 n)
  | amPm =>
    rw [wide]
    split
    · exact .am
    · exact .pm
  | literal text => exact .literal text

/-- The variables without what a token of this kind sets. -/
def forget (s : Reading) : Kind → Reading
  | .year => { s with year := none }
  | .month => { s with month := none }
  | .day => { s with day := none }
  | .hour => { s with hour := none }
  | .minute => { s with minute := 0 }
  | .second => { s with second := 0 }
  | .fraction => { s with fraction := none }
  | .amPm => { s with pm := none }

theorem forget_note (s : Reading) (kind : Kind) (token : Token) (field : List Char) :
    forget (note s token field) kind = forget (note (forget s kind) token field) kind := by
  cases kind <;> cases token <;> rfl

theorem note_forget (is : token.kind = some kind) (s : Reading) (field : List Char) :
    note s token field = note (forget s kind) token field := by
  cases token <;> cases is <;> rfl

theorem noteAll_forget {later : Token} (inside : later ∈ tokens) (is : later.kind = some kind)
    (same : forget s kind = forget s' kind) (fields : Token → List Char) :
    noteAll s (tokens.zip (tokens.map fields)) = noteAll s' (tokens.zip (tokens.map fields)) := by
  induction tokens generalizing s s' with
  | nil => cases inside
  | cons token tokens ih =>
    rw [List.map_cons, List.zip_cons_cons, noteAll, noteAll, List.foldl_cons, List.foldl_cons]
    rcases List.mem_cons.mp inside with rfl | inside
    · rw [note_forget is s, note_forget is s', same]
    · exact ih inside (by rw [forget_note s, forget_note s', same])

theorem forget_note_same (is : token.kind = some kind)
    (width : (encodeUtf8 field).length = (encodeUtf8 field').length) (s : Reading) :
    forget (note s token field) kind = forget (note s token field') kind := by
  cases token <;> cases is <;> simp only [forget, note, width]

theorem exists_clash (clash : ¬tokens.Pairwise Apart) :
    ∃ front token back later kind, tokens = front ++ token :: back ∧ later ∈ back ∧ token.kind = some kind ∧
      later.kind = some kind := by
  induction tokens with
  | nil => exact absurd .nil clash
  | cons token tokens ih =>
    by_cases apart : ∀ other ∈ tokens, Apart token other
    · obtain ⟨front, first, back, later, kind, rfl, held⟩ := ih fun once => clash (.cons apart once)
      exact ⟨token :: front, first, back, later, kind, rfl, held⟩
    · simp only [Apart, not_forall, not_not] at apart
      obtain ⟨later, inside, kind, is, is'⟩ := apart
      exact ⟨[], token, tokens, later, kind, rfl, inside, is, is'⟩

/-- The variables behind fields that all say one. -/
structure Based (s : Reading) : Prop where
  year : ∀ year ∈ s.year, year = 2001
  month : ∀ month ∈ s.month, month = 1
  day : ∀ day ∈ s.day, day = 1
  hour : ∀ hour ∈ s.hour, hour = 1
  minute : s.minute ≤ 1
  second : s.second ≤ 1
  fraction : ∀ digits ∈ s.fraction, digits = padded 9 1
  pm : ∀ pm ∈ s.pm, pm = false

theorem based_start : Based .start where
  year _ absent := by cases absent
  month _ absent := by cases absent
  day _ absent := by cases absent
  hour _ absent := by cases absent
  minute := Nat.zero_le 1
  second := Nat.zero_le 1
  fraction _ absent := by cases absent
  pm _ absent := by cases absent

theorem based_note (based : Based s) (token : Token) : Based (note s token (wide 1 token)) := by
  obtain ⟨year, month, day, hour, minute, second, fraction, pm⟩ := based
  have one : value (padded 2 1) = 1 := value_padded 2 1
  cases token with
  | year4 =>
    exact ⟨fun _ same => (Option.some.inj same).symm.trans (value_padded 4 2001), month, day, hour, minute,
      second, fraction, pm⟩
  | year2 =>
    exact ⟨fun _ same => (Option.some.inj same).symm.trans (congrArg centuryYear one), month, day, hour, minute,
      second, fraction, pm⟩
  | month => exact ⟨year, fun _ same => (Option.some.inj same).symm.trans one, day, hour, minute, second, fraction, pm⟩
  | day => exact ⟨year, month, fun _ same => (Option.some.inj same).symm.trans one, hour, minute, second, fraction, pm⟩
  | hour24 | hour12 =>
    exact ⟨year, month, day, fun _ same => (Option.some.inj same).symm.trans one, minute, second, fraction, pm⟩
  | minute => exact ⟨year, month, day, hour, Nat.le_of_eq one, second, fraction, pm⟩
  | second => exact ⟨year, month, day, hour, minute, Nat.le_of_eq one, fraction, pm⟩
  | fraction => exact ⟨year, month, day, hour, minute, second, fun _ same => (Option.some.inj same).symm, pm⟩
  | amPm => exact ⟨year, month, day, hour, minute, second, fraction, fun _ same => (Option.some.inj same).symm⟩
  | literal => exact ⟨year, month, day, hour, minute, second, fraction, pm⟩

theorem based_noteAll (based : Based s) (tokens : List Token) :
    Based (noteAll s (tokens.zip (tokens.map (wide 1)))) := by
  induction tokens generalizing s with
  | nil => exact based
  | cons token tokens ih => exact ih (based_note based token)

/-- The timestamp of such fields. -/
structure Plain (stamp : Stamp) : Prop where
  date : stamp.year = 2001 ∧ stamp.month = 1 ∧ stamp.day = 1
  time : stamp.hour ≤ 1 ∧ stamp.minute ≤ 1 ∧ stamp.second ≤ 1
  fraction : stamp.fraction = fractionNumber [] ∨ stamp.fraction = fractionNumber (padded 9 1)

/-- Such fields are accepted. -/
theorem conclude_based (bad : String → Stop) (based : Based s) (sound : Sound s) (year : s.year.isSome)
    (month : s.month.isSome) (day : s.day.isSome) :
    ∃ iso stamp, conclude bad s = .ok iso ∧ Denotes iso.timestamp stamp ∧ Plain stamp ∧
      (s.hour = none → stamp.minute = 0 ∧ stamp.second = 0 ∧ stamp.fraction = fractionNumber []) := by
  obtain ⟨y, named⟩ := Option.isSome_iff_exists.mp year
  obtain ⟨m, named'⟩ := Option.isSome_iff_exists.mp month
  obtain ⟨d, named''⟩ := Option.isSome_iff_exists.mp day
  obtain rfl := based.year y named
  obtain rfl := based.month m named'
  obtain rfl := based.day d named''
  have clock : hourOf bad s.hour s.pm = .ok s.hour := by
    cases hour : s.hour with
    | none => rfl
    | some h =>
      obtain rfl := based.hour h hour
      cases pm : s.pm with
      | none => rfl
      | some p =>
        obtain rfl := based.pm p pm
        rfl
  have early : (s.hour.any (23 < ·) || decide (59 < s.minute) || decide (59 < s.second)) = false := by
    have minute := based.minute
    have second := based.second
    have hours : s.hour.any (23 < ·) = false := by
      cases hour : s.hour with
      | none => rfl
      | some h =>
        obtain rfl := based.hour h hour
        rfl
    rw [hours, Bool.false_or, Bool.or_eq_false_iff, decide_eq_false_iff_not, decide_eq_false_iff_not]
    omega
  obtain ⟨iso, concluded⟩ : ∃ iso, conclude bad s = .ok iso := by
    simp only [conclude, named, named', named'', clock, Except.bind]
    rw [if_neg (by decide), if_neg (by decide), early]
    exact ⟨_, rfl⟩
  obtain ⟨y, m, d, hour, is, is', is'', clock', denotes, _⟩ := conclude_ok sound concluded
  obtain rfl := Option.some.inj (named.symm.trans is)
  obtain rfl := Option.some.inj (named'.symm.trans is')
  obtain rfl := Option.some.inj (named''.symm.trans is'')
  obtain rfl := Except.ok.inj (clock.symm.trans clock')
  refine ⟨iso, _, concluded, denotes, ?_, fun none => ?_⟩
  · cases hour : s.hour with
    | none => exact ⟨⟨rfl, rfl, rfl⟩, ⟨Nat.zero_le 1, Nat.zero_le 1, Nat.zero_le 1⟩, .inl rfl⟩
    | some h =>
      refine ⟨⟨rfl, rfl, rfl⟩, ⟨Nat.le_of_eq (based.hour h hour), based.minute, based.second⟩, ?_⟩
      cases fraction : s.fraction with
      | none => exact .inl (by simp [stampOf, fraction])
      | some digits => exact .inr (by simp [stampOf, fraction, based.fraction digits fraction])
  · rw [none]
    exact ⟨rfl, rfl, rfl⟩

theorem fractionNumber_padded (small : n < 10 ^ 9) : fractionNumber (padded 9 n) = n / 10 ^ 9 := by
  rw [fractionNumber, value_padded, length_padded (by decide) small]

theorem disagrees_two {stamp : Stamp} (plain : Plain stamp) (is : token.kind = some kind) :
    ¬Agrees stamp token (wide 2 token) := by
  obtain ⟨⟨year, month, day⟩, ⟨hour, minute, second⟩, fraction⟩ := plain
  have two : value (padded 2 2) = 2 := value_padded 2 2
  intro agrees
  cases token with
  | year4 => cases (year.symm.trans agrees).trans (value_padded 4 2002)
  | year2 => cases (year.symm.trans agrees).trans (congrArg centuryYear two)
  | month => cases (month.symm.trans agrees).trans two
  | day => cases (day.symm.trans agrees).trans two
  | hour24 => exact absurd ((show stamp.hour = _ from agrees).trans two) (by omega)
  | hour12 =>
    have same := (show stamp.hour % 12 = _ from agrees.2)
    rw [show value (wide 2 (.hour12 _)) = 2 from two] at same
    omega
  | minute => exact absurd ((show stamp.minute = _ from agrees).trans two) (by omega)
  | second => exact absurd ((show stamp.second = _ from agrees).trans two) (by omega)
  | fraction =>
    have said : stamp.fraction = 2 / 10 ^ 9 :=
      (show stamp.fraction = _ from agrees).trans (fractionNumber_padded (by decide))
    rw [said, fractionNumber_padded (by decide), fractionNumber, value_nil] at fraction
    norm_num at fraction
  | amPm =>
    have late := agrees.mpr (by decide)
    omega
  | literal => cases is

theorem disagrees_one {stamp : Stamp} (midnight : stamp.minute = 0 ∧ stamp.second = 0 ∧
    stamp.fraction = fractionNumber [])
    (is : token.kind ∈ [some .minute, some .second, some .fraction]) : ¬Agrees stamp token (wide 1 token) := by
  obtain ⟨minute, second, fraction⟩ := midnight
  have one : value (padded 2 1) = 1 := value_padded 2 1
  intro agrees
  cases token with
  | minute => cases (minute.symm.trans agrees).trans one
  | second => cases (second.symm.trans agrees).trans one
  | fraction =>
    have said := (fraction.symm.trans agrees).trans (fractionNumber_padded (by decide))
    rw [fractionNumber, value_nil] at said
    norm_num at said
  | _ => exact absurd is (by simp [Token.kind])

theorem wide_ne_nil (literals : ∀ text, .literal text ∈ tokens → text ≠ []) (inside : token ∈ tokens) (n : Nat) :
    wide n token ≠ [] := by
  cases token with
  | amPm =>
    rw [wide]
    split <;> exact List.cons_ne_nil _ _
  | literal text => exact literals text inside
  | _ => exact padded_ne_nil _ _

theorem full_map (small : n ≤ 9) (tokens : List Token) : List.Forall₂ Full tokens (tokens.map (wide n)) := by
  induction tokens with
  | nil => exact .nil
  | cons token tokens ih => exact .cons (full_wide small token) ih

/-- A text whose timestamp does not agree with one of its widest fields. -/
theorem not_faithful {pattern : DatePattern} (full : List.Forall₂ Full pattern.tokens fields)
    (filled : ∀ field ∈ fields, field ≠ []) (readable : ¬Unreadable pattern.tokens)
    (concluded : conclude (bad pattern fields.flatten) (noteAll .start (pattern.tokens.zip fields)) = .ok iso)
    (denotes : Denotes iso.timestamp stamp) (inside : (token, field) ∈ pattern.tokens.zip fields)
    (disagrees : ¬Agrees stamp token field) :
    ¬Faithful pattern fields.flatten := by
  intro faithful
  obtain ⟨others, split, takes, stamp', denotes', _, agrees⟩ :=
    faithful.2 iso ((read_full full filled readable).trans concluded)
  rw [trim_full full filled readable] at split
  obtain rfl := fields_unique full takes split
  obtain rfl := denotes_unique denotes denotes'
  exact disagrees (agrees _ inside)

theorem takes_all (full : List.Forall₂ Full tokens fields) : List.Forall₂ Takes tokens fields :=
  full.imp fun _ _ => takes_of_full

theorem not_faithful_of_clash {pattern : DatePattern} (compiled : Compiled pattern.tokens)
    (readable : ¬Unreadable pattern.tokens)
    (clash : ¬pattern.tokens.Pairwise Apart) : ∃ text, ¬Faithful pattern text := by
  obtain ⟨front, token, back, later, kind, split, inside, is, is'⟩ := exists_clash clash
  have full : List.Forall₂ Full pattern.tokens (front.map (wide 1) ++ wide 2 token :: back.map (wide 1)) := by
    rw [split]
    exact List.rel_append (full_map (by decide) front) (.cons (full_wide (by decide) token) (full_map (by decide) back))
  have filled : ∀ field ∈ front.map (wide 1) ++ wide 2 token :: back.map (wide 1), field ≠ [] := by
    have each : ∀ other ∈ pattern.tokens, ∀ n, wide n other ≠ [] := fun other held => wide_ne_nil compiled.literals held
    rw [split] at each
    intro field held
    simp only [List.mem_append, List.mem_cons, List.mem_map] at held each
    rcases held with ⟨other, held, rfl⟩ | rfl | ⟨other, held, rfl⟩
    · exact each other (.inl held) 1
    · exact each token (.inr (.inl rfl)) 2
    · exact each other (.inr (.inr held)) 1
  have takes := takes_all full
  -- The variables are those of the text in which the first field says what the second does.
  have overwritten : noteAll .start (pattern.tokens.zip (front.map (wide 1) ++ wide 2 token :: back.map (wide 1))) =
      noteAll .start (pattern.tokens.zip (pattern.tokens.map (wide 1))) := by
    have widths : (encodeUtf8 (wide 2 token)).length = (encodeUtf8 (wide 1 token)).length :=
      width_full (full_wide (by decide) token) (full_wide (by decide) token)
    rw [split, List.map_append, List.map_cons, List.zip_append (List.length_map _).symm,
      List.zip_append (List.length_map _).symm, List.zip_cons_cons, List.zip_cons_cons, noteAll, noteAll,
      List.foldl_append, List.foldl_append, List.foldl_cons, List.foldl_cons]
    exact noteAll_forget inside is' (forget_note_same is widths _) (wide 1)
  obtain ⟨iso, stamp, concluded, denotes, plain, _⟩ := conclude_based
    (bad pattern (front.map (wide 1) ++ wide 2 token :: back.map (wide 1)).flatten)
    (overwritten ▸ based_noteAll based_start pattern.tokens) (sound_noteAll takes sound_start)
    (isSome_year compiled takes .start)
    (isSome_month compiled takes .start) (isSome_day compiled takes .start)
  have held : (token, wide 2 token) ∈ pattern.tokens.zip (front.map (wide 1) ++ wide 2 token :: back.map (wide 1)) := by
    rw [split, List.zip_append (List.length_map _).symm]
    exact List.mem_append_right _ List.mem_cons_self
  exact ⟨_, not_faithful full filled readable concluded denotes held (disagrees_two plain is)⟩

theorem hour_noteAll (absent : ∀ token ∈ tokens, token.kind ≠ some .hour) (s : Reading) (fields : List (List Char)) :
    (noteAll s (tokens.zip fields)).hour = s.hour := by
  induction tokens generalizing s fields with
  | nil => rfl
  | cons token tokens ih =>
    cases fields with
    | nil => rfl
    | cons field fields =>
      obtain ⟨here, later⟩ := List.forall_mem_cons.mp absent
      refine (ih later _ fields).trans ?_
      cases token <;> first | rfl | exact absurd rfl here

theorem not_faithful_of_hourless {pattern : DatePattern} (compiled : Compiled pattern.tokens)
    (readable : ¬Unreadable pattern.tokens)
    (inside : token ∈ pattern.tokens) (is : token.kind ∈ [some .minute, some .second, some .fraction])
    (hourless : ∀ token ∈ pattern.tokens, token.kind ≠ some .hour) : ∃ text, ¬Faithful pattern text := by
  have full := full_map (by decide : 1 ≤ 9) pattern.tokens
  have filled : ∀ field ∈ pattern.tokens.map (wide 1), field ≠ [] := by
    intro field held
    obtain ⟨other, there, rfl⟩ := List.mem_map.mp held
    exact wide_ne_nil compiled.literals there 1
  have takes := takes_all full
  obtain ⟨iso, stamp, concluded, denotes, _, midnight⟩ :=
    conclude_based (bad pattern (pattern.tokens.map (wide 1)).flatten)
    (based_noteAll based_start pattern.tokens) (sound_noteAll takes sound_start) (isSome_year compiled takes .start)
    (isSome_month compiled takes .start) (isSome_day compiled takes .start)
  have held : (token, wide 1 token) ∈ pattern.tokens.zip (pattern.tokens.map (wide 1)) := by
    rw [← List.map_id pattern.tokens, List.map_map, List.zip_map']
    exact List.mem_map.mpr ⟨token, inside, rfl⟩
  exact ⟨_, not_faithful full filled readable concluded denotes held
    (disagrees_one (midnight (hour_noteAll hourless .start _)) is)⟩

end

/-- A date pattern drops nothing it reads exactly when it names nothing twice and an hour for its minutes, seconds and
fractions, or begins or ends with a blank so that no text fits it. -/
theorem date_pattern_faithful_iff {source : String} {pattern : DatePattern} (parsed : parse source = .ok pattern) :
    (∀ text, Faithful pattern text) ↔ Clear pattern.tokens ∨ Unreadable pattern.tokens := by
  have compiled := compiled_of_parse parsed
  constructor
  · intro faithful
    by_contra neither
    obtain ⟨unclear, readable⟩ := not_or.mp neither
    obtain ⟨text, unfaithful⟩ : ∃ text, ¬Faithful pattern text := by
      by_cases once : pattern.tokens.Pairwise Apart
      · by_contra all
        refine unclear ⟨once, fun token inside is => ?_⟩
        by_contra hourless
        exact all (not_faithful_of_hourless compiled readable inside is fun other held isHour =>
          hourless ⟨other, held, isHour⟩)
      · exact not_faithful_of_clash compiled readable once
    exact unfaithful (faithful text)
  · rintro (clear | unreadable) text
    · exact faithful_of_clear compiled clear text
    · exact faithful_of_unreadable compiled unreadable text

theorem parse_of_compile (compiled : compile pattern [] pattern.toList = .ok tokens) (clear : zoneLiteral tokens = none)
    (dated : (tokens.any Token.isYear && tokens.any Token.isMonth && tokens.any Token.isDay) = true)
    (clock : (tokens.any Token.isHour12 != tokens.contains .amPm) = false) : parse pattern = .ok ⟨tokens, pattern⟩ := by
  rw [parse, compiled]
  simp only [Except.bind, clear, dated, clock, Bool.not_true, Bool.false_eq_true, if_false]

def dayFirst : DatePattern := ⟨[.day 2, .literal ['/'], .month 2, .literal ['/'], .year4], "dd/MM/yyyy"⟩

theorem parse_dayFirst : parse "dd/MM/yyyy" = .ok dayFirst := by
  refine parse_of_compile ?_ (by decide) (by decide) (by decide)
  simp [compile, tokenOf, pushLiteral]

theorem date_pattern_faithful_dayFirst : Faithful dayFirst ['2', '9', '/', '0', '2', '/', '2', '0', '2', '4'] :=
  (date_pattern_faithful_iff parse_dayFirst).mpr (.inl ⟨by decide, by decide⟩) _

def hourless : DatePattern := ⟨[.year4, .literal ['-'], .month 2, .literal ['-'], .day 2, .literal [' '], .minute],
    "yyyy-MM-dd mm"⟩

theorem date_pattern_drops_minutes : parse "yyyy-MM-dd mm" = .ok hourless ∧
    ¬Faithful hourless ['2', '0', '2', '4', '-', '0', '3', '-', '0', '4', ' ', '5', '9'] := by
  have parsed : parse "yyyy-MM-dd mm" = .ok hourless := by
    refine parse_of_compile ?_ (by decide) (by decide) (by decide)
    simp [compile, tokenOf, pushLiteral]
  have full : List.Forall₂ Full hourless.tokens [['2', '0', '2', '4'], ['-'], ['0', '3'], ['-'], ['0', '4'], [' '],
    ['5', '9']] :=
    .cons (.digits rfl (by decide) rfl rfl)
      (.cons (.literal _) (.cons (.digits rfl (by decide) rfl rfl) (.cons (.literal _)
      (.cons (.digits rfl (by decide) rfl rfl) (.cons (.literal _) (.cons (.digits rfl (by decide) rfl rfl) .nil))))))
  refine ⟨parsed, fun faithful => ?_⟩
  have denotes : Denotes (IsoDateTime.timestamp ⟨padded 4 2024 ++ '-' :: (padded 2 3 ++ '-' :: padded 2 4), none⟩)
      ⟨2024, 3, 4, 0, 0, 0, fractionNumber []⟩ := denotes_midnight (by decide)
  have filled : ∀ field ∈ [['2', '0', '2', '4'], ['-'], ['0', '3'], ['-'], ['0', '4'], [' '],
    ['5', '9']], field ≠ [] := by decide
  have readable : ¬Unreadable hourless.tokens := by
    rintro (⟨c, text, head, _⟩ | ⟨text, c, last, _⟩)
    · cases head
    · cases last
  have inside : (Token.minute, ['5', '9']) ∈
      hourless.tokens.zip [['2', '0', '2', '4'], ['-'], ['0', '3'], ['-'], ['0', '4'], [' '], ['5', '9']] := by decide
  exact not_faithful full filled readable rfl denotes inside (fun agrees => by cases agrees) faithful

end QueryHive.Import.Dates
