import QueryHive.Import.DatePattern

/-! What a date pattern reads: one field of the text for each token, none of them cut inside a character. -/
namespace QueryHive.Import.Dates
open QueryHive.Library Text Numeral Weights

/-- The digits at the beginning of the bytes are those at the beginning of the text. -/
theorem takeWhile_encodeUtf8 (max : Nat) (text : List Char) :
    ((encodeUtf8 text).take max).takeWhile isDigitByte = ((text.take max).takeWhile Char.isDigit).map Ascii.byteOf := by
  induction text generalizing max with
  | nil => simp [encodeUtf8]
  | cons c rest ih =>
    cases max with
    | zero => rfl
    | succ max =>
      have split : encodeUtf8 (c :: rest) = String.utf8EncodeChar c ++ encodeUtf8 rest := rfl
      by_cases ascii : c.toNat < 128
      · have same : isDigitByte (Ascii.byteOf c) = c.isDigit := by
          rw [isDigitByte, Char.isDigit, Bool.eq_iff_iff]
          simp only [Ascii.byteOf, Bool.and_eq_true, decide_eq_true_eq, UInt8.le_iff_toNat_le, ge_iff_le,
            UInt32.le_iff_toNat_le,
            UInt8.toNat_ofNat_of_lt' (Nat.lt_trans ascii (by decide) : c.toNat < 256)]
          rfl
        rw [split, Ascii.utf8EncodeChar_ascii ascii, List.singleton_append, List.take_succ_cons, List.take_succ_cons,
          List.takeWhile_cons, List.takeWhile_cons, same, ih]
        split <;> rfl
      · obtain ⟨b, more, bytes⟩ := List.exists_cons_of_ne_nil
          (String.utf8EncodeChar_ne_nil : String.utf8EncodeChar c ≠ [])
        have other : isDigitByte b = false := by
          by_contra digit
          rw [Bool.not_eq_false, isDigitByte, Bool.and_eq_true, decide_eq_true_eq, decide_eq_true_eq] at digit
          have low : b.toNat ≤ 57 := UInt8.le_iff_toNat_le.mp digit.2
          have here := (ascii_mem_utf8EncodeChar (Nat.lt_of_le_of_lt low (by decide))).mp (bytes ▸ List.mem_cons_self)
          refine ascii (here ▸ ?_)
          rw [Char.ofNat, dif_pos (Or.inl (by omega))]
          exact Nat.lt_of_le_of_lt low (by decide)
        have other' : c.isDigit = false := by
          by_contra digit
          have := digit_toNat (Bool.not_eq_false _ ▸ digit)
          omega
        rw [split, bytes, List.cons_append, List.take_succ_cons, List.take_succ_cons, List.takeWhile_cons,
          List.takeWhile_cons, other,
          other']
        rfl

/-- The digits of a text from a place on, at most so many. -/
def digitsOf (max : Nat) (rest : List Char) : List Char := (rest.take max).takeWhile Char.isDigit

theorem digitsOf_digits (max : Nat) (rest : List Char) : allDigits (digitsOf max rest) = true :=
  List.all_eq_true.mpr fun _ => List.mem_takeWhile_imp

theorem digitRun_at (front rest : List Char) (max : Nat) :
    digitRun (encodeUtf8 (front ++ rest)) (encodeUtf8 front).length max =
      .ok ((digitsOf max rest).map Ascii.byteOf) := by
  rw [digitRun, encodeUtf8_append, if_neg (by simp), List.drop_left, takeWhile_encodeUtf8]
  rfl

theorem digits_at (bad : String → Stop) (why : String) (front rest : List Char) (min max : Nat) :
    digits bad why (encodeUtf8 (front ++ rest)) (encodeUtf8 front).length min max =
      if (digitsOf max rest).length < min then .error (bad why)
      else .ok (value (digitsOf max rest), (encodeUtf8 (digitsOf max rest)).length) := by
  have ascii := Ascii.isAscii_of_digits fun c => digit_of_allDigits (digitsOf_digits max rest)
  rw [digits, digitRun_at, Ascii.length_encodeUtf8 ascii]
  dsimp only [Except.bind]
  rw [List.length_map, Ascii.map_charOf ascii]

/-- How many digits a numeric token takes. -/
def Token.widths : Token → Option (Nat × Nat)
  | .year4 => some (4, 4)
  | .year2 | .minute | .second => some (2, 2)
  | .month width | .day width | .hour24 width | .hour12 width => some (min width 2, 2)
  | .fraction => some (1, 9)
  | .amPm | .literal _ => none

/-- What a token takes of a text. -/
inductive Takes : Token → List Char → Prop
  | digits (numeric : token.widths = some (low, high)) (least : low ≤ field.length) (most : field.length ≤ high)
      (digits : allDigits field = true) : Takes token field
  | amPm (marker : field.map Char.toUpper = ['A', 'M'] ∨ field.map Char.toUpper = ['P', 'M']) : Takes .amPm field
  | literal (text : List Char) : Takes (.literal text) text

def centuryYear (two : Nat) : Nat := if two ≤ 68 then 2000 + two else 1900 + two

def note (s : Reading) (token : Token) (field : List Char) : Reading :=
  let s := { s with place := s.place + (encodeUtf8 field).length }
  match token with
  | .year4 => { s with year := some (value field) }
  | .year2 => { s with year := some (centuryYear (value field)) }
  | .month _ => { s with month := some (value field) }
  | .day _ => { s with day := some (value field) }
  | .hour24 _ | .hour12 _ => { s with hour := some (value field) }
  | .minute => { s with minute := value field }
  | .second => { s with second := value field }
  | .fraction => { s with fraction := some field }
  | .amPm => { s with pm := some (decide (field.map Char.toUpper = ['P', 'M'])) }
  | .literal _ => s

section
variable {bad : String → Stop} {s : Reading} {front rest : List Char}

theorem digits_cases (bad : String → Stop) (why : String) (front rest : List Char) (min max : Nat) :
    (∃ field behind, rest = field ++ behind ∧ min ≤ field.length ∧ field.length ≤ max ∧ allDigits field = true ∧
        digits bad why (encodeUtf8 (front ++ rest)) (encodeUtf8 front).length min max =
          .ok (value field, (encodeUtf8 field).length)) ∨
      digits bad why (encodeUtf8 (front ++ rest)) (encodeUtf8 front).length min max = .error (bad why) := by
  have split : rest = digitsOf max rest ++ ((rest.take max).dropWhile Char.isDigit ++ rest.drop max) := by
    rw [digitsOf, ← List.append_assoc, List.takeWhile_append_dropWhile, List.take_append_drop]
  have short : (digitsOf max rest).length ≤ max :=
    Nat.le_trans (List.takeWhile_prefix _).length_le (List.length_take_le max rest)
  rw [digits_at]
  split_ifs with few
  · exact .inr rfl
  · exact .inl ⟨_, _, split, Nat.not_lt.mp few, short, digitsOf_digits max rest, rfl⟩

/-- A token takes a field, or refuses: it never panics where a character begins. -/
theorem step_at (bad : String → Stop) (token : Token) (rest : List Char) (here : s.place = (encodeUtf8 front).length) :
    (∃ field behind, rest = field ++ behind ∧ Takes token field ∧ step bad (front ++ rest) s token =
    .ok (note s token field)) ∨
      ∃ why, step bad (front ++ rest) s token = .error (bad why) := by
  have numeric : ∀ why low high (next : Nat × Nat → Except Stop Reading), token.widths = some (low, high) →
      step bad (front ++ rest) s token =
        (digits bad why (encodeUtf8 (front ++ rest)) (encodeUtf8 front).length low high).bind next →
      (∀ field, next (value field, (encodeUtf8 field).length) = .ok (note s token field)) →
      (∃ field behind, rest = field ++ behind ∧ Takes token field ∧ step bad (front ++ rest) s token =
      .ok (note s token field)) ∨
        ∃ why, step bad (front ++ rest) s token = .error (bad why) := by
    intro why low high next widths turn noted
    rcases digits_cases bad why front rest low high with ⟨field, behind, split, least, most, all, found⟩ | refused
    · exact .inl ⟨field, behind, split, .digits widths least most all, by rw [turn, found]; exact noted field⟩
    · exact .inr ⟨why, by rw [turn, refused]; rfl⟩
  cases token with
  | year4 => exact numeric "year" 4 4 _ rfl (by rw [step, here]; rfl) fun field => by rw [note, here]
  | year2 => exact numeric "year" 2 2 _ rfl (by rw [step, here]; rfl) fun field => by rw [note, here]; rfl
  | month width => exact numeric "month" _ 2 _ rfl (by rw [step, here]; rfl) fun field => by rw [note, here]
  | day width => exact numeric "day" _ 2 _ rfl (by rw [step, here]; rfl) fun field => by rw [note, here]
  | hour24 width => exact numeric "hour" _ 2 _ rfl (by rw [step, here]; rfl) fun field => by rw [note, here]
  | hour12 width => exact numeric "hour" _ 2 _ rfl (by rw [step, here]; rfl) fun field => by rw [note, here]
  | minute => exact numeric "minute" 2 2 _ rfl (by rw [step, here]; rfl) fun field => by rw [note, here]
  | second => exact numeric "second" 2 2 _ rfl (by rw [step, here]; rfl) fun field => by rw [note, here]
  | fraction =>
    have split : rest = digitsOf 9 rest ++ ((rest.take 9).dropWhile Char.isDigit ++ rest.drop 9) := by
      rw [digitsOf, ← List.append_assoc, List.takeWhile_append_dropWhile, List.take_append_drop]
    have short : (digitsOf 9 rest).length ≤ 9 :=
      Nat.le_trans (List.takeWhile_prefix _).length_le (List.length_take_le 9 rest)
    have all := digitsOf_digits 9 rest
    have width := Ascii.length_encodeUtf8 (Ascii.isAscii_of_digits fun c => digit_of_allDigits all)
    by_cases none : digitsOf 9 rest = []
    · refine .inr ⟨"fraction of a second", ?_⟩
      simp only [step, here, digitRun_at, none]
      rfl
    · have some : (digitsOf 9 rest).map Ascii.byteOf ≠ [] := fun empty => none (List.map_eq_nil_iff.mp empty)
      have cut : sliceTo Char.utf8Size (front ++ rest) (encodeUtf8 front).length
          ((encodeUtf8 front).length + ((digitsOf 9 rest).map Ascii.byteOf).length) = .some (digitsOf 9 rest) := by
        have found := sliceTo_total Char.utf8Size_pos front (digitsOf 9 rest)
          ((rest.take 9).dropWhile Char.isDigit ++ rest.drop 9)
        rwa [← split, total_append, total_utf8Size, total_utf8Size, width, ← List.length_map Ascii.byteOf] at found
      refine .inl ⟨_, _, split, .digits rfl (List.length_pos_iff.mpr none) short all, ?_⟩
      simp only [step, here, digitRun_at, bind, Except.bind, if_neg some, cut, note]
      rw [List.length_map, width]
  | amPm =>
    cases cut : sliceTo Char.utf8Size (front ++ rest) s.place (s.place + 2) with
    | none => exact .inr ⟨"AM or PM", by rw [step, cut]⟩
    | some word =>
      have cut' := cut
      rw [sliceTo, if_pos (Nat.le_add_right _ 2), here, ← total_utf8Size, dropTo_total Char.utf8Size_pos,
        Option.bind_some,
        Nat.add_sub_cancel_left] at cut'
      obtain ⟨behind, rfl, two⟩ := of_takeTo cut'
      rw [total_utf8Size] at two
      by_cases am : word.map Char.toUpper = ['A', 'M']
      · refine .inl ⟨word, behind, rfl, .amPm (.inl am), ?_⟩
        simp only [step, cut, note, am, two]
        rfl
      · by_cases pm : word.map Char.toUpper = ['P', 'M']
        · refine .inl ⟨word, behind, rfl, .amPm (.inr pm), ?_⟩
          simp only [step, cut, if_neg am, if_pos pm, note, two]
          rw [decide_eq_true pm]
        · exact .inr ⟨"AM or PM", by simp only [step, cut, if_neg am, if_neg pm]⟩
  | literal text =>
    have there : dropTo Char.utf8Size (front ++ rest) s.place = some rest := by
      rw [here, ← total_utf8Size, dropTo_total Char.utf8Size_pos]
    by_cases begins : text.isPrefixOf rest = true
    · obtain ⟨behind, rfl⟩ := List.isPrefixOf_iff_prefix.mp begins
      refine .inl ⟨text, behind, rfl, .literal text, ?_⟩
      simp only [step, there, if_pos begins, note]
    · exact .inr ⟨"expected '" ++ String.ofList text ++ "'", by simp only [step, there, if_neg begins]⟩

/-- The variables behind the fields of some tokens. -/
def noteAll (s : Reading) (fields : List (Token × List Char)) : Reading :=
  fields.foldl (fun s pair => note s pair.1 pair.2) s

theorem place_note (s : Reading) (token : Token) (field : List Char) :
    (note s token field).place = s.place + (encodeUtf8 field).length := by
  cases token <;> rfl

theorem steps_at (bad : String → Stop) (tokens : List Token) (rest : List Char)
    (here : s.place = (encodeUtf8 front).length) :
    (∃ fields behind, rest = fields.flatten ++ behind ∧ List.Forall₂ Takes tokens fields ∧
        (noteAll s (tokens.zip fields)).place = (encodeUtf8 (front ++ fields.flatten)).length ∧
        tokens.foldlM (step bad (front ++ rest)) s = .ok (noteAll s (tokens.zip fields))) ∨
      ∃ why, tokens.foldlM (step bad (front ++ rest)) s = .error (bad why) := by
  induction tokens generalizing s front rest with
  | nil => exact .inl ⟨[], rest, rfl, .nil, by rw [List.flatten_nil, List.append_nil]; exact here, rfl⟩
  | cons token tokens ih =>
    rcases step_at bad token rest here with ⟨field, behind, rfl, takes, turn⟩ | ⟨why, refused⟩
    · have next : (note s token field).place = (encodeUtf8 (front ++ field)).length := by
        rw [place_note, here, encodeUtf8_append, List.length_append]
      rw [List.foldlM_cons, turn]
      rcases ih behind next with ⟨fields, behind, rfl, all, place, run⟩ | ⟨why, refused⟩
      · refine .inl ⟨field :: fields, behind, by simp, .cons takes all, ?_, ?_⟩
        · rw [List.zip_cons_cons, noteAll, List.foldl_cons, List.flatten_cons, ← List.append_assoc]
          exact place
        · rw [List.append_assoc] at run
          exact run
      · rw [List.append_assoc] at refused
        exact .inr ⟨why, refused⟩
    · exact .inr ⟨why, by rw [List.foldlM_cons, refused]; rfl⟩

end

end QueryHive.Import.Dates
