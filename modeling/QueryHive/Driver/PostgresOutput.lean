import QueryHive.Driver.Postgres

/-! The server's own spelling of a value of each type, and what the decoder makes
of it. Bytes, numbers and dates come back whole whatever they are; a clock comes
back up to an hour past a day, and an offset up to fourteen hours. -/
namespace QueryHive.Driver.Postgres
open QueryHive.Library.Numeral QueryHive.Library.Text QueryHive.Store
open QueryHive.Core (civilFromDays civilFromDays_bounds days_civil_days)

/-! ### Bytes -/

/-- `\x` and two lower-case hex digits for each byte. -/
def hexText (bytes : List UInt8) : List Char :=
  '\\' :: 'x' :: bytes.flatMap fun byte => [Nat.digitChar (byte.toNat / 16), Nat.digitChar (byte.toNat % 16)]

/-- One byte in the escape format: a backslash is doubled and what is not
printable is three octal digits. -/
def escapeByte (byte : UInt8) : List Char :=
  if byte = 92 then ['\\', '\\']
  else if byte < 0x20 ∨ 0x7E < byte then
    ['\\', Nat.digitChar (byte.toNat / 64), Nat.digitChar (byte.toNat / 8 % 8), Nat.digitChar (byte.toNat % 8)]
  else [Char.ofNat byte.toNat]

def escapeText (bytes : List UInt8) : List Char := bytes.flatMap escapeByte

private theorem hexDigit_digitChar : ∀ n < 16, hexDigit (Nat.digitChar n) = some n := by decide

private theorem octal_digitChar : ∀ n < 8, isOctal (Nat.digitChar n) ∧ (Nat.digitChar n).toNat - '0'.toNat = n := by
  decide

theorem readHex_text (bytes : List UInt8) :
    readHex (bytes.flatMap fun byte => [Nat.digitChar (byte.toNat / 16), Nat.digitChar (byte.toNat % 16)]) =
      some bytes := by
  induction bytes with
  | nil => rfl
  | cons byte bytes ih =>
    have high := hexDigit_digitChar (byte.toNat / 16) (by have := byte.toNat_lt; omega)
    have low := hexDigit_digitChar (byte.toNat % 16) (Nat.mod_lt _ (by decide))
    have whole : byte.toNat / 16 * 16 + byte.toNat % 16 = byte.toNat := by omega
    simp only [List.flatMap_cons, List.cons_append, List.nil_append, readHex, high, low, ih, Option.bind_eq_bind,
      Option.bind_some, whole, UInt8.ofNat_toNat]

theorem readOctal_digits (byte : UInt8) :
    readOctal [Nat.digitChar (byte.toNat / 64), Nat.digitChar (byte.toNat / 8 % 8), Nat.digitChar (byte.toNat % 8)] =
      some byte := by
  have first := (octal_digitChar (byte.toNat / 64) (by have := byte.toNat_lt; omega)).2
  have second := (octal_digitChar (byte.toNat / 8 % 8) (Nat.mod_lt _ (by decide))).2
  have third := (octal_digitChar (byte.toNat % 8) (Nat.mod_lt _ (by decide))).2
  have whole : 8 * (8 * (8 * 0 + byte.toNat / 64) + byte.toNat / 8 % 8) + byte.toNat % 8 = byte.toNat := by omega
  have below := byte.toNat_lt
  simp only [readOctal, Nat.ofDigitChars_cons, Nat.ofDigitChars_nil, first, second, third, whole, reduceCtorEq,
    if_false, UInt8.ofNat_toNat]
  exact if_pos below

theorem takeOctal_three (first : isOctal a) (second : isOctal b) (third : isOctal c) (rest : List Char) :
    takeOctal 3 (a :: b :: c :: rest) = ([a, b, c], rest) := by
  simp only [takeOctal, first, second, third, if_true]

theorem utf8_of_printable (low : 0x20 ≤ byte) (high : byte ≤ 0x7E) (other : byte ≠ 92) :
    Char.ofNat byte.toNat ≠ '\\' ∧ String.utf8EncodeChar (Char.ofNat byte.toNat) = [byte] := by
  have all : ∀ n < 127, 32 ≤ n → n ≠ 92 →
      Char.ofNat n ≠ '\\' ∧ String.utf8EncodeChar (Char.ofNat n) = [UInt8.ofNat n] := by
    decide +kernel
  have above : 32 ≤ byte.toNat := UInt8.le_iff_toNat_le.mp low
  have below : byte.toNat ≤ 126 := UInt8.le_iff_toNat_le.mp high
  have different : byte.toNat ≠ 92 := fun same => other (UInt8.toNat_inj.mp same)
  have spelled := all byte.toNat (by omega) above different
  rwa [UInt8.ofNat_toNat] at spelled

theorem readEscape_byte (byte : UInt8) (rest : List Char) :
    readEscape (escapeByte byte ++ rest) = (readEscape rest).map (byte :: ·) := by
  unfold escapeByte
  split
  · next backslash =>
    rw [backslash, List.cons_append, List.cons_append, List.nil_append, readEscape, if_neg (by decide)]
  · next other =>
    split
    · have high := (octal_digitChar (byte.toNat / 64) (by have := byte.toNat_lt; omega)).1
      have middle := (octal_digitChar (byte.toNat / 8 % 8) (Nat.mod_lt _ (by decide))).1
      have low := (octal_digitChar (byte.toNat % 8) (Nat.mod_lt _ (by decide))).1
      have plain : Nat.digitChar (byte.toNat / 64) ≠ '\\' := by
        intro same
        rw [same] at high
        exact absurd high (by decide)
      simp only [List.cons_append, List.nil_append]
      rw [readEscape.eq_3 _ _ (fun after same => plain (List.cons.inj same).1), if_neg (by decide),
        takeOctal_three high middle low, readOctal_digits]
      cases readEscape rest <;> rfl
    · next printable =>
      obtain ⟨low, high⟩ : 0x20 ≤ byte ∧ byte ≤ 0x7E := by
        simpa only [not_or, UInt8.not_lt] using printable
      obtain ⟨plain, encoded⟩ := utf8_of_printable low high other
      rw [List.cons_append, List.nil_append, readEscape.eq_def]
      simp only [ne_eq, plain, not_false_eq_true, if_true, encoded, List.cons_append, List.nil_append]

theorem readEscape_text (bytes : List UInt8) : readEscape (escapeText bytes) = some bytes := by
  induction bytes with
  | nil => simp [escapeText, readEscape]
  | cons byte bytes ih =>
    rw [escapeText, List.flatMap_cons, readEscape_byte, ← escapeText, ih, Option.map_some]

theorem escapeText_not_hex (bytes : List UInt8) (rest : List Char) : escapeText bytes ≠ '\\' :: 'x' :: rest := by
  intro same
  cases bytes with
  | nil => exact absurd same (by simp [escapeText])
  | cons byte bytes =>
    rw [escapeText, List.flatMap_cons] at same
    unfold escapeByte at same
    split at same
    · exact absurd (List.cons.inj (List.cons.inj same).2).1 (by decide)
    · next other =>
      split at same
      · have octal := (octal_digitChar (byte.toNat / 64) (by have := byte.toNat_lt; omega)).1
        rw [(List.cons.inj (List.cons.inj same).2).1] at octal
        exact absurd octal (by decide)
      · next printable =>
        obtain ⟨low, high⟩ : 0x20 ≤ byte ∧ byte ≤ 0x7E := by
          simpa only [not_or, UInt8.not_lt] using printable
        exact (utf8_of_printable low high other).1 (List.cons.inj same).1

theorem parseBytea_hex (bytes : List UInt8) : parseBytea (hexText bytes) = .bytes bytes := by
  simp only [parseBytea, hexText, readHex_text]

theorem parseBytea_escape (bytes : List UInt8) : parseBytea (escapeText bytes) = .bytes bytes := by
  unfold parseBytea
  split
  · next hex same => exact absurd same (escapeText_not_hex bytes hex)
  · rw [readEscape_text]

/-! ### Numbers -/

def fractionDigits (scale n : Nat) : List Char := if scale = 0 then [] else padded scale (n % 10 ^ scale)

/-- A `numeric` without its sign: at least one digit before the point. -/
def unsignedNumeric (scale n : Nat) : List Char :=
  padded 1 (n / 10 ^ scale) ++ if scale = 0 then [] else '.' :: fractionDigits scale n

/-- A `numeric` at its printed scale. -/
def numericText (unscaled : Int) (scale : Nat) : List Char :=
  (if unscaled < 0 then ['-'] else []) ++ unsignedNumeric scale unscaled.natAbs

theorem fractionDigits_spec (scale n : Nat) :
    allDigits (fractionDigits scale n) ∧ (fractionDigits scale n).length = scale ∧
      value (fractionDigits scale n) = n % 10 ^ scale := by
  unfold fractionDigits
  split
  · next zero =>
    rw [zero]
    exact ⟨rfl, rfl, (Nat.mod_one n).symm⟩
  · next some =>
    exact ⟨allDigits_padded _ _, length_padded (Nat.pos_of_ne_zero some) (Nat.mod_lt _ (Nat.pow_pos (by decide))),
      value_padded _ _⟩

theorem unsignedNumeric_clear (scale n : Nat) : ∀ c ∈ unsignedNumeric scale n, c.isDigit ∨ c = '.' := by
  intro c inside
  rcases List.mem_append.mp inside with whole | rest
  · exact .inl (isDigit_of_padded whole)
  · split at rest
    · exact absurd rest List.not_mem_nil
    · rcases List.mem_cons.mp rest with point | digit
      · exact .inr point
      · exact .inl (digit_of_allDigits (fractionDigits_spec scale n).1 digit)

theorem mantleParts_numeric (scale n : Nat) :
    mantleParts (unsignedNumeric scale n) = some (padded 1 (n / 10 ^ scale), fractionDigits scale n) := by
  have plain : ∀ c ∈ padded 1 (n / 10 ^ scale), (c == '.') = false := fun _ inside => padded_ne_char rfl inside
  have split : (splitOnce (· == '.') (unsignedNumeric scale n)).getD (unsignedNumeric scale n, []) =
      (padded 1 (n / 10 ^ scale), fractionDigits scale n) := by
    unfold unsignedNumeric
    split
    · next zero =>
      rw [List.append_nil, splitOnce_none plain, Option.getD_none]
      simp [zero, fractionDigits]
    · rw [splitOnce_at plain rfl, Option.getD_some]
  have nonempty : ¬(padded 1 (n / 10 ^ scale) = [] ∧ fractionDigits scale n = []) :=
    fun empty => padded_ne_nil _ _ empty.1
  simp only [mantleParts, split, if_neg nonempty, allDigits_padded, (fractionDigits_spec scale n).1, Bool.not_true,
    Bool.or_self, Bool.false_eq_true, if_false]

theorem scaleDigits_numeric (digits : n < 10 ^ 38) (fits : scale ≤ 38) :
    scaleDigits (padded 1 (n / 10 ^ scale)) (fractionDigits scale n) 0 = some (n, scale) := by
  obtain ⟨run, length, spelled⟩ := fractionDigits_spec scale n
  have whole : value (padded 1 (n / 10 ^ scale) ++ fractionDigits scale n) = n := by
    rw [value_append, value_padded, length, spelled]
    exact Nat.div_add_mod' n _
  have read : readSigned 128 (padded 1 (n / 10 ^ scale) ++ fractionDigits scale n) = some (n : Int) := by
    rw [signed_digits, whole]
    · intro empty
      exact padded_ne_nil _ _ (List.append_eq_nil_iff.mp empty).1
    · rw [allDigits_append, allDigits_padded, run]
      rfl
    · rw [whole]
      exact Nat.lt_trans digits (by decide)
  have notNegative : ¬((scale : Int) - 0 < 0) := by omega
  have inRange : ¬((scale : Int) - 0 > 38) := by omega
  rw [scaleDigits, length]
  simp only [if_neg notNegative, if_neg inRange, read]
  simp

/-- A printed `numeric` of at most 38 digits reads back with its scale. -/
theorem parseDecimal_text (unscaled : Int) (digits : unscaled.natAbs < 10 ^ 38) (fits : scale ≤ 38) :
    parseDecimal (numericText unscaled scale) =
      some (.decimal (BitVec.ofInt 128 unscaled) (UInt8.ofNat scale)) := by
  have clear := unsignedNumeric_clear scale unscaled.natAbs
  have plain : ∀ c ∈ numericText unscaled scale, isWhitespace c = false := by
    intro c inside
    rcases List.mem_append.mp inside with sign | digit
    · split at sign
      · rw [List.mem_singleton.mp sign]
        decide
      · exact absurd sign List.not_mem_nil
    · rcases clear c digit with digit | point
      · exact digit_not_whitespace digit
      · rw [point]
        decide
  have exponent : splitExponent (unsignedNumeric scale unscaled.natAbs) =
      some (unsignedNumeric scale unscaled.natAbs, 0) := by
    rw [splitExponent, splitOnce_none]
    intro c inside
    rcases clear c inside with digit | point
    · rw [Bool.or_eq_false_iff]
      exact ⟨beq_eq_false_iff_ne.mpr fun same => by simp [same] at digit,
        beq_eq_false_iff_ne.mpr fun same => by simp [same] at digit⟩
    · rw [point]
      decide
  have sign : splitSign (numericText unscaled scale) =
      (decide (unscaled < 0), unsignedNumeric scale unscaled.natAbs) := by
    unfold numericText
    split
    · next negative => simp [splitSign, negative]
    · next nonnegative =>
      obtain ⟨first, rest, printed, digit⟩ := padded_cons 1 (unscaled.natAbs / 10 ^ scale)
      rw [decide_eq_false nonnegative, List.nil_append, unsignedNumeric, printed, List.cons_append,
        splitSign_of_digit digit]
  have magnitude : (if unscaled < 0 then -(unscaled.natAbs : Int) else unscaled.natAbs) = unscaled := by
    split <;> omega
  rw [parseDecimal, trim_of_clear plain, sign]
  simp only [exponent, mantleParts_numeric, scaleDigits_numeric digits fits, Option.bind_eq_bind, Option.bind_some,
    decide_eq_true_eq, magnitude]

/-! ### Dates and clocks -/

def dayText (days : Int) : List Char :=
  dateText (civilFromDays days).1.toNat (civilFromDays days).2.1 (civilFromDays days).2.2

def InYears (days : Int) : Prop := 1 ≤ (civilFromDays days).1 ∧ (civilFromDays days).1 ≤ 9999

theorem parseYmd_dayText (years : InYears days) : parseYmd (dayText days) = some (civilFromDays days) := by
  obtain ⟨first, last⟩ := years
  obtain ⟨monthLow, monthHigh, dayLow, dayHigh⟩ := civilFromDays_bounds days
  have yearFits : (civilFromDays days).1.toNat < 2 ^ (64 - 1) := by omega
  have monthFits : (civilFromDays days).2.1 < 2 ^ 32 := by omega
  have dayFits : (civilFromDays days).2.2 < 2 ^ 32 := by omega
  have real : (!(decide (1 ≤ (civilFromDays days).2.1) && decide ((civilFromDays days).2.1 ≤ 12)) ||
      !(decide (1 ≤ (civilFromDays days).2.2) && decide ((civilFromDays days).2.2 ≤ 31))) = false := by
    simp only [monthLow, monthHigh, dayLow, dayHigh, decide_true, Bool.and_self, Bool.not_true, Bool.or_self]
  rw [parseYmd, dayText, dateText_parts]
  simp only [signed_padded yearFits, unsigned_padded monthFits, unsigned_padded dayFits, Option.bind_eq_bind,
    Option.bind_some, real, Bool.false_eq_true, if_false, Int.toNat_of_nonneg (Int.le_trans (by decide) first)]

theorem parseDays_text (years : InYears days) : parseDays (dayText days) = some (.ofInt days) := by
  have trimmed : trim (dayText days) = dayText days := trim_of_clear (dateText_not_whitespace _ _ _)
  simp only [parseDays, trimmed, parseYmd_dayText years, Option.bind_eq_bind, Option.bind_some, days_civil_days]

/-- A clock with something before its hours is read field by field. -/
theorem parseClock_lead (lead : List Char) (plain : ∀ c ∈ lead, isWhitespace c = false ∧ c ≠ ':')
    (hours : Nat) (minute : minutes < 60) (second : seconds < 60) (fraction : Fraction) :
    parseClock (lead ++ clockText hours minutes seconds fraction) =
      (readUnsigned 32 (lead ++ padded 2 hours)).bind fun hours =>
        if hours > 24 then none else some (hours, minutes, seconds, (fraction.micros : Int)) := by
  have clear : ∀ c ∈ lead ++ clockText hours minutes seconds fraction, isWhitespace c = false := by
    intro c inside
    rcases List.mem_append.mp inside with front | clock
    · exact (plain c front).1
    · exact clockText_not_whitespace _ _ _ _ c clock
  have hoursClear : ∀ c ∈ lead ++ padded 2 hours, isWhitespace c = false := by
    intro c inside
    rcases List.mem_append.mp inside with front | digit
    · exact (plain c front).1
    · exact digit_not_whitespace (isDigit_of_padded digit)
  have minutesClear : ∀ c ∈ padded 2 minutes, isWhitespace c = false :=
    fun _ inside => digit_not_whitespace (isDigit_of_padded inside)
  have secondsClear : ∀ c ∈ padded 2 seconds ++ fraction.text, isWhitespace c = false := by
    intro c inside
    refine clockText_not_whitespace hours minutes seconds fraction c ?_
    simp only [clockText, List.mem_append, List.mem_cons] at inside ⊢
    exact .inr (.inr (.inr (.inr inside)))
  have minuteFits : minutes < 2 ^ 32 := by omega
  have secondFits : seconds < 2 ^ 32 := by omega
  rw [parseClock, trim_of_clear clear, clockText_fields_after lead (fun inside => (plain ':' inside).2 rfl)]
  simp only [trim_of_clear hoursClear, trim_of_clear minutesClear, trim_of_clear secondsClear,
    unsigned_padded minuteFits, parseSeconds_text fraction (unsigned_padded secondFits), Option.bind_eq_bind,
    Option.bind_some]
  cases readUnsigned 32 (lead ++ padded 2 hours) with
  | none => rfl
  | some hours =>
    have inRange : (decide (hours > 24) || decide (minutes > 59) || decide (seconds > 60)) = decide (hours > 24) := by
      rw [decide_eq_false (by omega : ¬minutes > 59), decide_eq_false (by omega : ¬seconds > 60), Bool.or_false,
        Bool.or_false]
    simp only [Option.bind_some, inRange, decide_eq_true_eq]

theorem clockMicros_fields (micros : Nat) :
    clockMicros (micros / 3600000000, micros / 60000000 % 60, micros / 1000000 % 60,
      ((Fraction.ofMicros micros).micros : Int)) = micros := by
  simp only [clockMicros, Fraction.micros_ofMicros]
  omega

/-- A clock up to an hour past a day is read as its microseconds, also after a plus sign. -/
theorem parseClock_short (lead : List Char) (plus : lead = [] ∨ lead = ['+']) (short : micros < 90000000000) :
    ∃ clock, parseClock (lead ++ clockOf micros) = some clock ∧ clockMicros clock = micros := by
  have plain : ∀ c ∈ lead, isWhitespace c = false ∧ c ≠ ':' := by
    rcases plus with plus | plus <;> simp [plus, isWhitespace]
  have hours : readUnsigned 32 (lead ++ padded 2 (micros / 3600000000)) = some (micros / 3600000000) := by
    have fits : micros / 3600000000 < 2 ^ 32 := by omega
    rcases plus with plus | plus
    · rw [plus, List.nil_append, unsigned_padded fits]
    · rw [plus, List.cons_append, List.nil_append, unsigned_plus _ (allDigits_padded _ _), unsigned_padded fits]
  refine ⟨_, ?_, clockMicros_fields micros⟩
  rw [clockOf, parseClock_lead lead plain _ (Nat.mod_lt _ (by decide)) (Nat.mod_lt _ (by decide)), hours,
    Option.bind_some, if_neg (by omega)]

theorem parseClock_long (lead : List Char) (plus : lead = [] ∨ lead = ['+']) (long : 90000000000 ≤ micros) :
    parseClock (lead ++ clockOf micros) = none := by
  have plain : ∀ c ∈ lead, isWhitespace c = false ∧ c ≠ ':' := by
    rcases plus with plus | plus <;> simp [plus, isWhitespace]
  have hours : readUnsigned 32 (lead ++ padded 2 (micros / 3600000000)) =
      if micros / 3600000000 < 2 ^ 32 then some (micros / 3600000000) else none := by
    rcases plus with plus | plus
    · rw [plus, List.nil_append, unsigned_padded_eq]
    · rw [plus, List.cons_append, List.nil_append, unsigned_plus _ (allDigits_padded _ _), unsigned_padded_eq]
  rw [clockOf, parseClock_lead lead plain _ (Nat.mod_lt _ (by decide)) (Nat.mod_lt _ (by decide)), hours]
  split
  · rw [Option.bind_some, if_pos (by omega)]
  · rfl

theorem parseClock_negative (micros : Nat) : parseClock ('-' :: clockOf micros) = none := by
  have plain : ∀ c ∈ ['-'], isWhitespace c = false ∧ c ≠ ':' := by simp [isWhitespace]
  have lead := parseClock_lead ['-'] plain (micros / 3600000000) (Nat.mod_lt (micros / 60000000) (by decide : 0 < 60))
    (Nat.mod_lt (micros / 1000000) (by decide : 0 < 60)) (.ofMicros micros)
  rw [List.cons_append, List.nil_append, List.cons_append, List.nil_append, unsigned_minus, Option.bind_none] at lead
  exact lead

theorem clockOf_no_sign (micros : Nat) : ∀ c ∈ clockOf micros, isSign c = false := by
  intro c inside
  rcases clockText_clear _ _ _ _ c inside with digit | colon | point
  · rw [isSign, Bool.or_eq_false_iff]
    exact ⟨beq_eq_false_iff_ne.mpr fun same => by simp [same] at digit,
      beq_eq_false_iff_ne.mpr fun same => by simp [same] at digit⟩
  · rw [colon]
    decide
  · rw [point]
    decide

theorem splitOffset_clock (micros : Nat) : splitOffset (clockOf micros) = (clockOf micros, none) := by
  rw [splitOffset, splitLast_none (clockOf_no_sign micros)]

theorem parseTime_text (inDay : micros ≤ 86400000000) : parseTimeMicros (clockOf micros) = some (micros : Int) := by
  have trimmed : trim (clockOf micros) = clockOf micros := trim_of_clear (clockText_not_whitespace _ _ _ _)
  obtain ⟨clock, read, total⟩ := parseClock_short [] (.inl rfl) (by omega : micros < 90000000000)
  rw [List.nil_append] at read
  rw [parseTimeMicros, trimmed, splitOffset_clock, read, Option.map_some, total]

/-! ### Offsets and timestamps -/

/-- The minutes and seconds of an offset, each printed only when something needs it. -/
def offsetRest (magnitude : Nat) : List Char :=
  if magnitude % 60 ≠ 0 then ':' :: (padded 2 (magnitude / 60 % 60) ++ ':' :: padded 2 (magnitude % 60))
  else if magnitude / 60 % 60 ≠ 0 then ':' :: padded 2 (magnitude / 60 % 60)
  else []

def offsetSign (offset : Int) : Char := if offset < 0 then '-' else '+'

/-- `+HH`, `+HH:MM` or `+HH:MM:SS` without its sign. -/
def offsetDigits (offset : Int) : List Char :=
  padded 2 (offset.natAbs / 3600) ++ offsetRest offset.natAbs

/-- A wall clock of so many microseconds since the epoch. -/
def timestampText (wall : Int) : List Char :=
  dayText (wall / 86400000000) ++ ' ' :: clockOf (wall % 86400000000).toNat

def timestamptzText (utc offset : Int) : List Char :=
  timestampText (utc + offset * 1000000) ++ offsetSign offset :: offsetDigits offset

theorem offsetSign_isSign (offset : Int) : isSign (offsetSign offset) := by
  unfold offsetSign
  split <;> rfl

theorem offsetDigits_clear (offset : Int) : ∀ c ∈ offsetDigits offset, c.isDigit ∨ c = ':' := by
  intro c inside
  rcases List.mem_append.mp inside with hours | rest
  · exact .inl (isDigit_of_padded hours)
  · unfold offsetRest at rest
    split at rest
    · simp only [List.mem_cons, List.mem_append] at rest
      rcases rest with colon | minutes | colon | seconds
      · exact .inr colon
      · exact .inl (isDigit_of_padded minutes)
      · exact .inr colon
      · exact .inl (isDigit_of_padded seconds)
    · split at rest
      · rcases List.mem_cons.mp rest with colon | minutes
        · exact .inr colon
        · exact .inl (isDigit_of_padded minutes)
      · exact absurd rest List.not_mem_nil

theorem offsetDigits_no_sign (offset : Int) : ∀ c ∈ offsetDigits offset, isSign c = false := by
  intro c inside
  rcases offsetDigits_clear offset c inside with digit | colon
  · rw [isSign, Bool.or_eq_false_iff]
    exact ⟨beq_eq_false_iff_ne.mpr fun same => by simp [same] at digit,
      beq_eq_false_iff_ne.mpr fun same => by simp [same] at digit⟩
  · rw [colon]
    decide

theorem offsetParts_text (offset : Int) :
    ∃ minutes seconds, offsetParts (offsetDigits offset) = some (padded 2 (offset.natAbs / 3600), minutes, seconds) ∧
      readPart minutes = some ((offset.natAbs / 60 % 60 : Nat) : Int) ∧
      readPart (seconds.map withoutFraction) = some ((offset.natAbs % 60 : Nat) : Int) := by
  have colon : ∀ n, ':' ∉ padded 2 n := fun n inside => absurd (isDigit_of_padded inside) (by decide)
  have point : ∀ c ∈ padded 2 (offset.natAbs % 60), (c == '.') = false := fun _ inside => padded_ne_char rfl inside
  have minutes : readSigned 32 (padded 2 (offset.natAbs / 60 % 60)) = some ((offset.natAbs / 60 % 60 : Nat) : Int) :=
    signed_padded (by omega)
  have seconds : readSigned 32 (padded 2 (offset.natAbs % 60)) = some ((offset.natAbs % 60 : Nat) : Int) :=
    signed_padded (by omega)
  by_cases withSeconds : offset.natAbs % 60 = 0
  · by_cases withMinutes : offset.natAbs / 60 % 60 = 0
    · refine ⟨none, none, ?_, ?_, ?_⟩
      · rw [offsetParts, offsetDigits, offsetRest, if_neg (not_not.mpr withSeconds), if_neg (not_not.mpr withMinutes),
          List.append_nil, List.splitOn_eq_singleton (colon _)]
      · rw [withMinutes]
        rfl
      · rw [withSeconds]
        rfl
    · refine ⟨some (padded 2 (offset.natAbs / 60 % 60)), none, ?_, minutes, ?_⟩
      · rw [offsetParts, offsetDigits, offsetRest, if_neg (not_not.mpr withSeconds), if_pos withMinutes,
          List.splitOn_append_cons_self_of_not_mem (colon _), List.splitOn_eq_singleton (colon _)]
      · rw [withSeconds]
        rfl
  · refine ⟨some (padded 2 (offset.natAbs / 60 % 60)), some (padded 2 (offset.natAbs % 60)), ?_, minutes, ?_⟩
    · rw [offsetParts, offsetDigits, offsetRest, if_pos withSeconds, List.splitOn_append_cons_self_of_not_mem (colon _),
        List.splitOn_append_cons_self_of_not_mem (colon _), List.splitOn_eq_singleton (colon _)]
    · rw [Option.map_some, withoutFraction, splitOnce_none point]
      exact seconds

theorem parseOffset_text (bound : offset.natAbs < 57600) :
    parseOffsetSeconds (offsetSign offset) (offsetDigits offset) =
      if offset.natAbs < 54000 then some offset else none := by
  have hours : readSigned 32 (padded 2 (offset.natAbs / 3600)) = some ((offset.natAbs / 3600 : Nat) : Int) :=
    signed_padded (by omega)
  obtain ⟨minutes, seconds, parts, readMinutes, readSeconds⟩ := offsetParts_text offset
  have guard : (decide (((offset.natAbs / 3600 : Nat) : Int) > 14) ||
      decide (((offset.natAbs / 60 % 60 : Nat) : Int) > 59) || decide (((offset.natAbs % 60 : Nat) : Int) > 59)) =
      decide (54000 ≤ offset.natAbs) := by
    rw [decide_eq_false (by omega : ¬((offset.natAbs / 60 % 60 : Nat) : Int) > 59),
      decide_eq_false (by omega : ¬((offset.natAbs % 60 : Nat) : Int) > 59), Bool.or_false, Bool.or_false]
    exact decide_eq_decide.mpr (by omega)
  simp only [parseOffsetSeconds, parts, hours, readMinutes, readSeconds, Option.bind_eq_bind, Option.bind_some, guard,
    decide_eq_true_eq]
  by_cases near : offset.natAbs < 54000
  · rw [if_neg (Nat.not_le.mpr near), if_pos near]
    have whole : ((offset.natAbs / 3600 : Nat) : Int) * 3600 + ((offset.natAbs / 60 % 60 : Nat) : Int) * 60 +
        ((offset.natAbs % 60 : Nat) : Int) = (offset.natAbs : Int) := by omega
    rw [whole]
    refine congrArg some ?_
    unfold offsetSign
    by_cases negative : offset < 0
    · rw [if_pos negative, if_pos rfl]
      omega
    · rw [if_neg negative, if_neg (by decide)]
      omega
  · rw [if_pos (Nat.le_of_not_lt near), if_neg near]

example : parseOffsetSeconds '+' ['1', '5'] = none := by decide

theorem offsetDigits_concat (offset : Int) :
    ∃ start last, offsetDigits offset = start ++ [last] ∧ last.isDigit := by
  unfold offsetDigits offsetRest
  split
  · obtain ⟨start, last, printed, digit⟩ := padded_concat 2 (offset.natAbs % 60)
    exact ⟨padded 2 (offset.natAbs / 3600) ++ ':' :: (padded 2 (offset.natAbs / 60 % 60) ++ ':' :: start), last,
      by simp [printed], digit⟩
  · split
    · obtain ⟨start, last, printed, digit⟩ := padded_concat 2 (offset.natAbs / 60 % 60)
      exact ⟨padded 2 (offset.natAbs / 3600) ++ ':' :: start, last, by simp [printed], digit⟩
    · obtain ⟨start, last, printed, digit⟩ := padded_concat 2 (offset.natAbs / 3600)
      exact ⟨start, last, by rw [List.append_nil, printed], digit⟩

/-- The parts of a wall clock followed by anything that ends with a digit. -/
theorem parseTimestamp_parts (wall : Int) (tail : List Char) (years : InYears (wall / 86400000000))
    (ends : tail = [] ∨ ∃ start last, tail = start ++ [last] ∧ last.isDigit) :
    parseTimestamp (timestampText wall ++ tail) =
      (parseClock (splitOffset (clockOf (wall % 86400000000).toNat ++ tail)).1).map fun clock =>
        let offset := (splitOffset (clockOf (wall % 86400000000).toNat ++ tail)).2.getD 0
        (wall / 86400000000 * 86400 * 1000000 + clockMicros clock - offset * 1000000, offset) := by
  obtain ⟨first, rest, front, digit⟩ := dateText_cons (civilFromDays (wall / 86400000000)).1.toNat
    (civilFromDays (wall / 86400000000)).2.1 (civilFromDays (wall / 86400000000)).2.2
  have trimmed : trim (timestampText wall ++ tail) = timestampText wall ++ tail := by
    apply trim_between_digits
    · exact ⟨first, _, by rw [timestampText, dayText, front, List.cons_append, List.cons_append],
        digit_not_whitespace digit⟩
    · rcases ends with ends | ⟨start, last, ends, final⟩
      · obtain ⟨start, last, back, final⟩ := clockText_concat ((wall % 86400000000).toNat / 3600000000)
          ((wall % 86400000000).toNat / 60000000 % 60) ((wall % 86400000000).toNat / 1000000 % 60)
          (.ofMicros (wall % 86400000000).toNat)
        exact ⟨_, last, by rw [ends, List.append_nil, timestampText, clockOf, back, ← List.cons_append,
          ← List.append_assoc], final⟩
      · exact ⟨_, last, by rw [ends, ← List.append_assoc], final⟩
  have split : splitOnce (fun c => c == ' ' || c == 'T') (timestampText wall ++ tail) =
      some (dayText (wall / 86400000000), clockOf (wall % 86400000000).toNat ++ tail) := by
    rw [timestampText, List.append_assoc, List.cons_append]
    exact splitOnce_at (dateText_no_break _ _ _) rfl
  have notBefore : ¬(civilFromDays (wall / 86400000000)).1 < 1 := Int.not_lt.mpr years.1
  simp only [parseTimestamp, trimmed, split, Option.bind_eq_bind, Option.bind_some, parseYmd_dayText years,
    if_neg notBefore, days_civil_days]
  cases parseClock (splitOffset (clockOf (wall % 86400000000).toNat ++ tail)).1 <;> rfl

theorem parseTimestamp_text (years : InYears (wall / 86400000000)) :
    parseTimestamp (timestampText wall) = some (wall, 0) := by
  obtain ⟨clock, read, total⟩ := parseClock_short [] (.inl rfl)
    (by omega : (wall % 86400000000).toNat < 90000000000)
  rw [List.nil_append] at read
  have parts := parseTimestamp_parts wall [] years (.inl rfl)
  rw [List.append_nil, List.append_nil, splitOffset_clock, read] at parts
  rw [parts, Option.map_some, total]
  simp only [Option.getD_none]
  exact congrArg some (Prod.ext (by simp only; omega) rfl)

/-- The offset of a printed instant is split off its clock, up to fourteen hours. -/
theorem splitOffset_text (micros : Nat) (bound : offset.natAbs < 57600) :
    splitOffset (clockOf micros ++ offsetSign offset :: offsetDigits offset) =
      if offset.natAbs < 54000 then (clockOf micros, some offset)
      else (clockOf micros ++ offsetSign offset :: offsetDigits offset, none) := by
  obtain ⟨start, last, back, final⟩ := clockText_concat (micros / 3600000000) (micros / 60000000 % 60)
    (micros / 1000000 % 60) (.ofMicros micros)
  have nonempty : offsetDigits offset ≠ [] := fun empty => padded_ne_nil _ _ (List.append_eq_nil_iff.mp empty).1
  have preceded : (clockOf micros).getLast?.any Char.isDigit = true := by
    rw [clockOf, back, List.getLast?_concat, Option.any_some, final]
  have kept : trimEnd (clockOf micros) = clockOf micros := by
    apply trimEnd_of_last
    intro c ending
    rw [clockOf, back, List.getLast?_concat, Option.some.injEq] at ending
    exact ending ▸ digit_not_whitespace final
  rw [splitOffset, splitLast_at _ (offsetSign_isSign offset) (offsetDigits_no_sign offset)]
  simp only [preceded, nonempty, ne_eq, not_false_eq_true, decide_true, Bool.and_self, if_true,
    parseOffset_text bound, kept]
  by_cases near : offset.natAbs < 54000 <;> simp [near]

theorem parseTimestamptz_near (years : InYears ((utc + offset * 1000000) / 86400000000))
    (near : offset.natAbs < 54000) : parseTimestamp (timestamptzText utc offset) = some (utc, offset) := by
  obtain ⟨start, last, back, final⟩ := offsetDigits_concat offset
  obtain ⟨clock, read, total⟩ := parseClock_short [] (.inl rfl)
    (by omega : ((utc + offset * 1000000) % 86400000000).toNat < 90000000000)
  rw [List.nil_append] at read
  have parts := parseTimestamp_parts _ (offsetSign offset :: offsetDigits offset) years
    (.inr ⟨offsetSign offset :: start, last, by rw [back, List.cons_append], final⟩)
  rw [splitOffset_text _ (by omega), if_pos near] at parts
  rw [timestamptzText, parts, read, Option.map_some, total]
  simp only [Option.getD_some]
  exact congrArg some (Prod.ext (by simp only; omega) rfl)

theorem parseSeconds_trailing (seconds : Nat) (fraction : Fraction) (symbol : c.isDigit = false)
    (point : ∀ d ∈ c :: rest, (d == '.') = false) :
    parseSeconds (readUnsigned 32) (padded 2 seconds ++ fraction.text ++ c :: rest) = none := by
  have clear : ∀ d ∈ padded 2 seconds, (d == '.') = false := fun _ inside => padded_ne_char rfl inside
  by_cases undeclared : fraction.digits = 0
  · rw [parseSeconds, Fraction.text, if_pos undeclared, List.append_nil, splitOnce_none]
    · obtain ⟨first, tail, printed, -⟩ := padded_cons 2 seconds
      have later : c ∈ tail ++ c :: rest := List.mem_append_right _ List.mem_cons_self
      rw [printed, List.cons_append]
      simp only [unsigned_none later symbol, Option.map_none]
    · intro d inside
      exact (List.mem_append.mp inside).elim (clear d) (point d)
  · have refused : parseFraction (padded fraction.digits fraction.count ++ c :: rest) = none := by
      unfold parseFraction
      split
      · rfl
      · have notDigits : allDigits (padded fraction.digits fraction.count ++ c :: rest) = false := by
          rw [← Bool.not_eq_true]
          intro digits
          have digit := digit_of_allDigits digits (List.mem_append_right _ List.mem_cons_self)
          simp [symbol] at digit
        rw [notDigits]
        rfl
    rw [parseSeconds, Fraction.text, if_neg undeclared, List.append_assoc, List.cons_append, splitOnce_at clear rfl]
    simp only [refused, Option.bind_eq_bind, Option.bind_none]
    cases readUnsigned 32 (padded 2 seconds) <;> rfl

theorem parseClock_trailing (hours minutes seconds : Nat) (fraction : Fraction) (symbol : c.isDigit = false)
    (sign : c ≠ ':') (clear : ∀ d ∈ c :: rest, isWhitespace d = false ∧ (d == '.') = false) :
    parseClock (clockText hours minutes seconds fraction ++ c :: rest) = none := by
  have plain : ∀ d ∈ clockText hours minutes seconds fraction ++ c :: rest, isWhitespace d = false := by
    intro d inside
    exact (List.mem_append.mp inside).elim (clockText_not_whitespace _ _ _ _ d) fun later => (clear d later).1
  have digits : ∀ n, ':' ∉ padded 2 n := fun n inside => absurd (isDigit_of_padded inside) (by decide)
  have field : ∀ before, ':' ∉ before → ':' ∉ padded 2 seconds ++ fraction.text ++ c :: before := by
    intro before first inside
    rcases List.mem_append.mp inside with seconds' | later
    · exact seconds_no_colon seconds fraction seconds'
    · rcases List.mem_cons.mp later with same | later
      · exact sign same.symm
      · exact first later
  have split : (clockText hours minutes seconds fraction ++ c :: rest).splitOn ':' =
      padded 2 hours :: padded 2 minutes :: (padded 2 seconds ++ fraction.text ++ c :: rest).splitOn ':' := by
    have shape : clockText hours minutes seconds fraction ++ c :: rest =
        padded 2 hours ++ ':' :: (padded 2 minutes ++ ':' :: (padded 2 seconds ++ fraction.text ++ c :: rest)) := by
      simp [clockText]
    rw [shape, List.splitOn_append_cons_self_of_not_mem (digits _), List.splitOn_append_cons_self_of_not_mem (digits _)]
  rw [parseClock, trim_of_clear plain, split]
  by_cases colon : ':' ∈ rest
  · obtain ⟨before, after, whole, first⟩ := List.eq_append_cons_of_mem colon
    have more : (padded 2 seconds ++ fraction.text ++ c :: rest).splitOn ':' =
        (padded 2 seconds ++ fraction.text ++ c :: before) :: after.splitOn ':' := by
      rw [whole, ← List.cons_append, ← List.append_assoc,
        List.splitOn_append_cons_self_of_not_mem (field before first)]
    rw [more]
    cases fourth : after.splitOn ':' with
    | nil => exact absurd fourth (List.splitOn_ne_nil _ _)
    | cons => rfl
  · rw [List.splitOn_eq_singleton (field rest colon)]
    have secondsClear : ∀ d ∈ padded 2 seconds ++ fraction.text ++ c :: rest, isWhitespace d = false := by
      intro d inside
      refine plain d ?_
      simp only [clockText, List.mem_append, List.mem_cons] at inside ⊢
      tauto
    simp only [trim_of_clear secondsClear, parseSeconds_trailing seconds fraction symbol fun d inside =>
      (clear d inside).2,
      Option.bind_eq_bind, Option.bind_none]
    cases readUnsigned 32 (trim (padded 2 hours)) with
    | none => rfl
    | some => cases readUnsigned 32 (trim (padded 2 minutes)) <;> rfl

theorem parseTimestamptz_far (years : InYears ((utc + offset * 1000000) / 86400000000))
    (bound : offset.natAbs < 57600) (far : 54000 ≤ offset.natAbs) :
    parseTimestamp (timestamptzText utc offset) = none := by
  obtain ⟨start, last, back, final⟩ := offsetDigits_concat offset
  have parts := parseTimestamp_parts _ (offsetSign offset :: offsetDigits offset) years
    (.inr ⟨offsetSign offset :: start, last, by rw [back, List.cons_append], final⟩)
  have symbol : (offsetSign offset).isDigit = false := by
    unfold offsetSign
    split <;> rfl
  have sign : offsetSign offset ≠ ':' := by
    unfold offsetSign
    split <;> decide
  have clear : ∀ d ∈ offsetSign offset :: offsetDigits offset, isWhitespace d = false ∧ (d == '.') = false := by
    intro d inside
    rcases List.mem_cons.mp inside with first | later
    · rw [first]
      unfold offsetSign
      split <;> decide
    · rcases offsetDigits_clear offset d later with digit | colon
      · exact ⟨digit_not_whitespace digit, beq_eq_false_iff_ne.mpr fun same => by simp [same] at digit⟩
      · rw [colon]
        decide
  have refused : parseClock (clockOf ((utc + offset * 1000000) % 86400000000).toNat ++
      offsetSign offset :: offsetDigits offset) = none := parseClock_trailing _ _ _ _ symbol sign clear
  rw [splitOffset_text _ bound, if_neg (Nat.not_lt.mpr far)] at parts
  rw [timestamptzText, parts, refused, Option.map_none]

/-! ### Intervals -/

/-- The counted units the server prints. -/
inductive CountedUnit where
  | year | mon | day

def CountedUnit.name : CountedUnit → List Char
  | .year => ['y', 'e', 'a', 'r']
  | .mon => ['m', 'o', 'n']
  | .day => ['d', 'a', 'y']

def CountedUnit.add (interval : IntervalValue) (amount : Int) : CountedUnit → IntervalValue
  | .year => { interval with months := interval.months + .ofInt (amount * 12) }
  | .mon => { interval with months := interval.months + .ofInt amount }
  | .day => { interval with days := interval.days + .ofInt amount }

/-- A count; one above zero has a plus sign right after a negative one. -/
def amountText (before : Bool) (amount : Int) : List Char :=
  if before && 0 < amount then '+' :: padded 1 amount.natAbs else signedText amount

/-- The unit in the plural unless there is exactly one. -/
def unitText (unit : CountedUnit) (amount : Int) : List Char :=
  if amount = 1 then unit.name else unit.name ++ ['s']

def unitWords : Bool → List (Int × CountedUnit) → List (List Char)
  | _, [] => []
  | before, (amount, unit) :: rest =>
    if amount = 0 then unitWords before rest
    else amountText before amount :: unitText unit amount :: unitWords (decide (amount < 0)) rest

def endsNegative : Bool → List (Int × CountedUnit) → Bool
  | before, [] => before
  | before, (amount, _) :: rest => endsNegative (if amount = 0 then before else decide (amount < 0)) rest

def clockWord (before : Bool) (micros : Int) : List Char :=
  if micros < 0 then '-' :: clockOf micros.natAbs
  else if before then '+' :: clockOf micros.natAbs
  else clockOf micros.natAbs

/-- The years, months and days of an interval. -/
def unitsOf (interval : IntervalValue) : List (Int × CountedUnit) :=
  [(interval.months.toInt.tdiv 12, .year), (interval.months.toInt.tmod 12, .mon), (interval.days.toInt, .day)]

/-- The words of an interval: its clock is left out when it is zero and something
else is printed. -/
def intervalWords (interval : IntervalValue) : List (List Char) :=
  let words := unitWords false (unitsOf interval)
  words ++ if words = [] ∨ interval.micros ≠ 0
    then [clockWord (endsNegative false (unitsOf interval)) interval.micros.toInt] else []

def intervalText (interval : IntervalValue) : List Char := List.intercalate [' '] (intervalWords interval)

theorem addUnit_text (interval : IntervalValue) (amount : Int) (unit : CountedUnit) :
    addUnit interval amount (unitText unit amount) = some (unit.add interval amount) := by
  unfold unitText
  cases unit <;> split <;> rfl

theorem readSigned_amount (before : Bool) (low : -2 ^ 63 ≤ amount) (high : amount < 2 ^ 63) :
    readSigned 64 (amountText before amount) = some amount := by
  unfold amountText
  split
  · next plus =>
    have positive : 0 < amount := by simpa using (Bool.and_eq_true_iff.mp plus).2
    rw [signed_plus _ (allDigits_padded _ _), signed_padded (by omega)]
    exact congrArg some (by omega)
  · exact readSigned_text low high

def InRange (units : List (Int × CountedUnit)) : Prop := ∀ entry ∈ units, -2 ^ 63 ≤ entry.1 ∧ entry.1 < 2 ^ 63

theorem add_zero (interval : IntervalValue) (unit : CountedUnit) : unit.add interval 0 = interval := by
  cases unit <;> simp [CountedUnit.add]

theorem parseWords_units (range : InRange units) (before sawAny : Bool) (interval : IntervalValue)
    (after : List (List Char)) :
    parseWords interval sawAny (unitWords before units ++ after) =
      parseWords (units.foldl (fun sum entry => entry.2.add sum entry.1) interval)
        (sawAny || unitWords before units ≠ []) after := by
  induction units generalizing before sawAny interval with
  | nil => simp [unitWords]
  | cons entry units ih =>
    obtain ⟨amount, unit⟩ := entry
    have later : InRange units := fun entry inside => range entry (List.mem_cons_of_mem _ inside)
    obtain ⟨low, high⟩ := range (amount, unit) List.mem_cons_self
    rw [unitWords, List.foldl_cons]
    split
    · next zero => rw [zero, add_zero, ih later]
    · rw [List.cons_append, List.cons_append, parseWords, readSigned_amount before low high]
      simp only [addUnit_text, Option.bind_some, ih later]
      simp

theorem clockOf_colon (micros : Nat) : ∃ first rest, clockOf micros = first :: rest ∧ ':' ∈ rest := by
  obtain ⟨first, rest, printed, -⟩ := padded_cons 2 (micros / 3600000000)
  refine ⟨first, _, by rw [clockOf, clockText, printed, List.cons_append], ?_⟩
  exact List.mem_append_right _ List.mem_cons_self

theorem readSigned_clockWord (before : Bool) (micros : Int) : readSigned 64 (clockWord before micros) = none := by
  obtain ⟨first, rest, printed, colon⟩ := clockOf_colon micros.natAbs
  have inside : ':' ∈ clockOf micros.natAbs := by
    rw [printed]
    exact List.mem_cons_of_mem _ colon
  unfold clockWord
  split
  · exact signed_none inside rfl
  · split
    · exact signed_none inside rfl
    · rw [printed]
      exact signed_none colon rfl

/-- The clock of an interval is read when it is not negative and at most an hour
past a day. -/
theorem parseClock_word (before : Bool) (micros : Int) :
    (parseClock (clockWord before micros)).map clockMicros =
      if 0 ≤ micros ∧ micros < 90000000000 then some micros else none := by
  unfold clockWord
  split
  · next negative => rw [parseClock_negative, if_neg (by omega), Option.map_none]
  · next nonnegative =>
    have whole : ((micros.natAbs : Nat) : Int) = micros := by omega
    have lead : ∃ lead, (lead = [] ∨ lead = ['+']) ∧
        (if before then '+' :: clockOf micros.natAbs else clockOf micros.natAbs) = lead ++ clockOf micros.natAbs := by
      cases before
      · exact ⟨[], .inl rfl, rfl⟩
      · exact ⟨['+'], .inr rfl, rfl⟩
    obtain ⟨lead, plus, spelled⟩ := lead
    rw [spelled]
    by_cases short : micros < 90000000000
    · obtain ⟨clock, read, total⟩ := parseClock_short lead plus (by omega : micros.natAbs < 90000000000)
      rw [read, Option.map_some, total, if_pos ⟨by omega, short⟩, whole]
    · rw [parseClock_long lead plus (by omega), if_neg (fun both => short both.2), Option.map_none]

theorem unitsOf_inRange (interval : IntervalValue) : InRange (unitsOf interval) := by
  have months := interval.months.toInt_lt
  have months' := interval.months.le_toInt
  have days := interval.days.toInt_lt
  have days' := interval.days.le_toInt
  have year := Int.natAbs_tdiv_le_natAbs interval.months.toInt 12
  have whole := Int.mul_tdiv_add_tmod interval.months.toInt 12
  intro entry inside
  simp only [unitsOf, List.mem_cons, List.not_mem_nil, or_false] at inside
  rcases inside with rfl | rfl | rfl
  · simp only
    omega
  · simp only
    omega
  · simp only
    omega

theorem unitsOf_sum (interval : IntervalValue) :
    (unitsOf interval).foldl (fun sum entry => entry.2.add sum entry.1) ⟨0, 0, 0⟩ =
      ⟨interval.months, interval.days, 0⟩ := by
  have months : Int32.ofInt (interval.months.toInt.tdiv 12 * 12) + Int32.ofInt (interval.months.toInt.tmod 12) =
      interval.months := by
    rw [← Int32.ofInt_add, Int.tdiv_mul_add_tmod, Int32.ofInt_toInt]
  simp only [unitsOf, List.foldl_cons, List.foldl_nil, CountedUnit.add, Int32.zero_add, months, Int32.ofInt_toInt]

/-- A word that the splitter finds whole. -/
def IsWord (word : List Char) : Prop := word ≠ [] ∧ ∀ c ∈ word, isWhitespace c = false

theorem isWord_padded (width n : Nat) : IsWord (padded width n) :=
  ⟨padded_ne_nil width n, fun _ inside => digit_not_whitespace (isDigit_of_padded inside)⟩

theorem IsWord.cons (word : IsWord text) (plain : isWhitespace c = false) : IsWord (c :: text) := by
  refine ⟨List.cons_ne_nil _ _, ?_⟩
  intro d inside
  rcases List.mem_cons.mp inside with same | later
  · exact same ▸ plain
  · exact word.2 d later

theorem isWord_amount (before : Bool) (amount : Int) : IsWord (amountText before amount) := by
  unfold amountText signedText
  split
  · exact (isWord_padded _ _).cons rfl
  · split
    · exact (isWord_padded _ _).cons rfl
    · exact isWord_padded _ _

theorem isWord_unit (unit : CountedUnit) (amount : Int) : IsWord (unitText unit amount) := by
  unfold unitText
  cases unit <;> split <;> exact ⟨List.cons_ne_nil _ _, by simp [CountedUnit.name, isWhitespace]⟩

theorem isWord_clock (before : Bool) (micros : Int) : IsWord (clockWord before micros) := by
  have plain : IsWord (clockOf micros.natAbs) := by
    obtain ⟨first, rest, printed, -⟩ := clockOf_colon micros.natAbs
    exact ⟨by rw [printed]; exact List.cons_ne_nil _ _, clockText_not_whitespace _ _ _ _⟩
  unfold clockWord
  split
  · exact plain.cons rfl
  · split
    · exact plain.cons rfl
    · exact plain

theorem unitWords_clear (before : Bool) (units : List (Int × CountedUnit)) :
    ∀ word ∈ unitWords before units, IsWord word := by
  induction units generalizing before with
  | nil => exact fun _ inside => absurd inside List.not_mem_nil
  | cons entry units ih =>
    rw [unitWords]
    split
    · exact ih before
    · intro word inside
      rcases List.mem_cons.mp inside with amount | inside
      · exact amount ▸ isWord_amount before entry.1
      · rcases List.mem_cons.mp inside with unit | later
        · exact unit ▸ isWord_unit entry.2 entry.1
        · exact ih _ word later

theorem intervalWords_clear (interval : IntervalValue) : ∀ word ∈ intervalWords interval, IsWord word := by
  intro word inside
  rcases List.mem_append.mp inside with unit | clock
  · exact unitWords_clear _ _ word unit
  · split at clock
    · exact List.mem_singleton.mp clock ▸ isWord_clock _ _
    · exact absurd clock List.not_mem_nil

/-- A clock is the whole of the microseconds when nothing was counted into them. -/
theorem parseWords_clock (months days : Int32) (sawAny before : Bool) (micros : Int64) :
    parseWords ⟨months, days, 0⟩ sawAny [clockWord before micros.toInt] =
      if 0 ≤ micros.toInt ∧ micros.toInt < 90000000000 then some ⟨months, days, micros⟩ else none := by
  have read := congrArg (Option.map (addClock ⟨months, days, 0⟩)) (parseClock_word before micros.toInt)
  rw [Option.map_map] at read
  rw [parseWords, readSigned_clockWord]
  refine read.trans ?_
  split
  · have none : (0 : Int64).abs = 0 := by decide
    have whole : (0 : Int64).abs + 1 * Int64.ofInt micros.toInt = micros := by
      rw [none, Int64.zero_add, Int64.one_mul, Int64.ofInt_toInt]
    exact congrArg (fun total => some (IntervalValue.mk months days total)) whole
  · rfl

/-- A printed interval reads back exactly when its clock is not negative and at
most an hour past a day. -/
theorem parseInterval_text (interval : IntervalValue) :
    parseInterval (intervalText interval) =
      if 0 ≤ interval.micros.toInt ∧ interval.micros.toInt < 90000000000 then some interval else none := by
  have units := parseWords_units (unitsOf_inRange interval) false false ⟨0, 0, 0⟩
  rw [parseInterval, intervalText, splitWhitespace_intercalate (intervalWords_clear interval), intervalWords, units,
    unitsOf_sum]
  split
  · exact parseWords_clock _ _ _ _ _
  · next silent =>
    obtain ⟨printed, zero⟩ := not_or.mp silent
    have noClock : interval.micros = 0 := by simpa using zero
    rw [parseWords, decide_eq_true printed, Bool.false_or, if_pos rfl, noClock]
    exact congrArg some (by rw [← noClock])

/-! ### Every type -/

/-- The integer types. -/
inductive IntType where
  | int2 | int4 | int8

/-- One value on the server, of one of the types the decoder knows. -/
inductive ServerValue where
  | bool (value : Bool)
  | int (type : IntType) (value : Int64)
  | numeric (unscaled : Int) (scale : Nat) (digits : unscaled.natAbs < 10 ^ 38) (fits : scale ≤ 38)
  | byteaHex (bytes : List UInt8)
  | byteaEscape (bytes : List UInt8)
  | date (days : Int) (years : InYears days)
  | time (micros : Nat) (inDay : micros ≤ 86400000000)
  | timestamp (wall : Int) (years : InYears (wall / 86400000000))
  | timestamptz (utc offset : Int) (years : InYears ((utc + offset * 1000000) / 86400000000))
      (bound : offset.natAbs < 57600)
  | interval (value : IntervalValue)

def ServerValue.typeName : ServerValue → List Char
  | .bool _ => ['b', 'o', 'o', 'l']
  | .int .int2 _ => ['i', 'n', 't', '2']
  | .int .int4 _ => ['i', 'n', 't', '4']
  | .int .int8 _ => ['i', 'n', 't', '8']
  | .numeric _ _ _ _ => ['n', 'u', 'm', 'e', 'r', 'i', 'c']
  | .byteaHex _ | .byteaEscape _ => ['b', 'y', 't', 'e', 'a']
  | .date _ _ => ['d', 'a', 't', 'e']
  | .time _ _ => ['t', 'i', 'm', 'e']
  | .timestamp _ _ => ['t', 'i', 'm', 'e', 's', 't', 'a', 'm', 'p']
  | .timestamptz _ _ _ _ => ['t', 'i', 'm', 'e', 's', 't', 'a', 'm', 'p', 't', 'z']
  | .interval _ => ['i', 'n', 't', 'e', 'r', 'v', 'a', 'l']

def ServerValue.output : ServerValue → List Char
  | .bool value => if value then ['t'] else ['f']
  | .int _ value => signedText value.toInt
  | .numeric unscaled scale _ _ => numericText unscaled scale
  | .byteaHex bytes => hexText bytes
  | .byteaEscape bytes => escapeText bytes
  | .date days _ => dayText days
  | .time micros _ => clockOf micros
  | .timestamp wall _ => timestampText wall
  | .timestamptz utc offset _ _ => timestamptzText utc offset
  | .interval value => intervalText value

def ServerValue.typed : ServerValue → Value
  | .bool value => .bool value
  | .int _ value => .int value
  | .numeric unscaled scale _ _ => .decimal (BitVec.ofInt 128 unscaled) (UInt8.ofNat scale)
  | .byteaHex bytes | .byteaEscape bytes => .bytes bytes
  | .date days _ => .date (.ofInt days)
  | .time micros _ => .time (.ofInt micros)
  | .timestamp wall _ => .timestamp (.ofInt wall) none
  | .timestamptz utc offset _ _ => .timestamp (.ofInt utc) (some (.ofInt offset))
  | .interval value => .interval value

/-- A zone is under fifteen hours, and the clock of an interval is neither negative
nor twenty-five hours long. -/
def ServerValue.Readable : ServerValue → Prop
  | .timestamptz _ offset _ _ => offset.natAbs < 54000
  | .interval value => 0 ≤ value.micros.toInt ∧ value.micros.toInt < 90000000000
  | _ => True

def ServerValue.parser : ServerValue → ColumnParser
  | .bool _ => .bool
  | .int _ _ => .int
  | .numeric _ _ _ _ => .numeric
  | .byteaHex _ | .byteaEscape _ => .bytea
  | .date _ _ => .date
  | .time _ _ => .time
  | .timestamp _ _ => .timestamp
  | .timestamptz _ _ _ _ => .timestamptz
  | .interval _ => .interval

theorem new_typeName (value : ServerValue) : ColumnParser.new value.typeName = value.parser := by
  cases value with
  | int type value => cases type <;> rfl
  | _ => rfl

/-- The decoder of a column gives the server's value back from what the server
printed, in its typed variant, exactly when it is readable. -/
theorem parse_output_iff (parseFloat : List Char → Option UInt64) (value : ServerValue) :
    (ColumnParser.new value.typeName).parse parseFloat (some value.output) = value.typed ↔ value.Readable := by
  rw [new_typeName]
  cases value with
  | bool value => cases value <;> exact iff_of_true rfl trivial
  | int type value =>
    refine iff_of_true ?_ trivial
    simp only [ServerValue.parser, ColumnParser.parse, ServerValue.output, ServerValue.typed,
      readSigned_text value.le_toInt value.toInt_lt, Option.map_some, Option.getD_some, Int64.ofInt_toInt]
  | numeric unscaled scale digits fits =>
    refine iff_of_true ?_ trivial
    simp only [ServerValue.parser, ColumnParser.parse, ServerValue.output, ServerValue.typed,
      parseDecimal_text unscaled digits fits, Option.getD_some]
  | byteaHex bytes => exact iff_of_true (parseBytea_hex bytes) trivial
  | byteaEscape bytes => exact iff_of_true (parseBytea_escape bytes) trivial
  | date days years =>
    refine iff_of_true ?_ trivial
    simp only [ServerValue.parser, ColumnParser.parse, ServerValue.output, ServerValue.typed, parseDays_text years,
      Option.map_some, Option.getD_some]
  | time micros inDay =>
    refine iff_of_true ?_ trivial
    simp only [ServerValue.parser, ColumnParser.parse, ServerValue.output, ServerValue.typed, parseTime_text inDay,
      Option.map_some, Option.getD_some]
  | timestamp wall years =>
    refine iff_of_true ?_ trivial
    simp only [ServerValue.parser, ColumnParser.parse, ServerValue.output, ServerValue.typed,
      parseTimestamp_text years, Option.map_some, Option.getD_some]
  | timestamptz utc offset years bound =>
    simp only [ServerValue.parser, ColumnParser.parse, ServerValue.output, ServerValue.typed, ServerValue.Readable]
    by_cases near : offset.natAbs < 54000
    · rw [parseTimestamptz_near years near, Option.map_some, Option.getD_some]
      exact iff_of_true rfl near
    · rw [parseTimestamptz_far years bound (Nat.le_of_not_lt near), Option.map_none, Option.getD_none]
      exact iff_of_false Value.noConfusion near
  | interval value =>
    simp only [ServerValue.parser, ColumnParser.parse, ServerValue.output, ServerValue.typed, ServerValue.Readable,
      parseInterval_text]
    by_cases clock : 0 ≤ value.micros.toInt ∧ value.micros.toInt < 90000000000
    · rw [if_pos clock, Option.map_some, Option.getD_some]
      exact iff_of_true rfl clock
    · rw [if_neg clock, Option.map_none, Option.getD_none]
      exact iff_of_false Value.noConfusion clock

/-- An interval of minus one hour, printed `-01:00:00`, stays text. -/
theorem negative_hour_stays_text :
    ¬∀ (parseFloat : List Char → Option UInt64) (value : ServerValue),
      (ColumnParser.new value.typeName).parse parseFloat (some value.output) = value.typed := by
  intro inverts
  have read := inverts (fun _ => none) (.interval ⟨0, 0, -3600000000⟩)
  have stays : parseInterval (intervalText ⟨0, 0, -3600000000⟩) = none := by
    rw [parseInterval_text]
    decide
  simp only [new_typeName, ServerValue.parser, ColumnParser.parse, ServerValue.output, ServerValue.typed, stays,
    Option.map_none, Option.getD_none, reduceCtorEq] at read

end QueryHive.Driver.Postgres
