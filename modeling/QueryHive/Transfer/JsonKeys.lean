import QueryHive.Library.Fuel
import QueryHive.Library.JsonText

/-! The scan for a repeated key in a JSON text. It trusts the text: on one that is valid it ends, having
read every key with its escapes undone, and finds a key twice exactly where an object has one twice, or
where the nesting is deeper than it follows. -/
namespace QueryHive.Transfer.JsonKeys
open QueryHive.Library QueryHive.Library.JsonText

/-- `skip_space`. -/
def skipSpace (chars : List Char) : List Char := chars.dropWhile isBlank

/-- `read_hex4`: what is no digit counts as zero. -/
def readHex4 (chars : List Char) : Nat × List Char :=
  ((List.range 4).foldl (fun code i => code * 16 + (chars[i]?.bind hexValue).getD 0) 0, chars.drop 4)

/-- `char::from_u32`, with the replacement character for what is none. -/
def fromU32 (code : Nat) : Char := if code.isValidChar then Char.ofNat code else Char.ofNat 0xFFFD

/-- The escape `u`. -/
def scanUnicode (chars : List Char) : Char × List Char :=
  let (code, behind) := readHex4 chars
  if 0xD800 ≤ code ∧ code < 0xDC00 then
    match behind with
    | '\\' :: 'u' :: rest =>
      let (low, after) := readHex4 rest
      if 0xDC00 ≤ low ∧ low < 0xE000 then (fromU32 (0x10000 + (code - 0xD800) * 0x400 + (low - 0xDC00)), after)
      else (fromU32 code, behind)
    | behind => (fromU32 code, behind)
  else (fromU32 code, behind)

def scanEscape (escape : Char) (rest : List Char) : Char × List Char :=
  if escape = 'n' then ('\n', rest)
  else if escape = 't' then ('\t', rest)
  else if escape = 'r' then ('\r', rest)
  else if escape = 'b' then (Char.ofNat 8, rest)
  else if escape = 'f' then (Char.ofNat 12, rest)
  else if escape = 'u' then scanUnicode rest
  else (escape, rest)

/-- The loop of `scan_string`, for so many characters. -/
def scanChars : Nat → List Char → List Char × List Char
  | 0, chars => ([], chars)
  | turns + 1, chars =>
    match chars with
    | [] => ([], [])
    | c :: rest =>
      if c = '"' then ([], rest)
      else if c = '\\' then
        match rest with
        | [] => ([], [])
        | escape :: rest =>
          let (decoded, rest) := scanEscape escape rest
          let (more, rest) := scanChars turns rest
          (decoded :: more, rest)
      else
        let (more, rest) := scanChars turns rest
        (c :: more, rest)

/-- `scan_string`, behind the opening quotation mark. Every turn takes a character. -/
def scanString (chars : List Char) : List Char × List Char := scanChars chars.length chars

def endsScalar (c : Char) : Bool := c == ',' || c == ']' || c == '}' || isBlank c

mutual

/-- `scan_value`, as long as `fuel` lasts: whether a key is repeated, and what is left of the text. -/
def scanValue : Nat → Nat → List Char → Option (Bool × List Char)
  | 0, _, _ => none
  | fuel + 1, depth, chars =>
    if 256 < depth then some (true, chars)
    else
      match skipSpace chars with
      | [] => some (false, [])
      | c :: rest =>
        if c = '{' then scanObject fuel depth [] rest
        else if c = '[' then scanArray fuel depth rest
        else if c = '"' then some (false, (scanString rest).2)
        else some (false, (c :: rest).dropWhile fun c => !endsScalar c)

/-- The loop over an object, with the keys it has seen. -/
def scanObject : Nat → Nat → List (List Char) → List Char → Option (Bool × List Char)
  | 0, _, _, _ => none
  | fuel + 1, depth, keys, chars =>
    match skipSpace chars with
    | [] => some (false, [])
    | c :: rest =>
      if c = '}' then some (false, rest)
      else if c = ',' then scanObject fuel depth keys rest
      else if c = '"' then
        let (key, rest) := scanString rest
        if key ∈ keys then some (true, rest)
        else
          let rest := match skipSpace rest with
            | ':' :: rest => rest
            | rest => rest
          match scanValue fuel (depth + 1) rest with
          | none => none
          | some (true, rest) => some (true, rest)
          | some (false, rest) => scanObject fuel depth (key :: keys) rest
      else some (false, c :: rest)

def scanArray : Nat → Nat → List Char → Option (Bool × List Char)
  | 0, _, _ => none
  | fuel + 1, depth, chars =>
    match skipSpace chars with
    | [] => some (false, [])
    | c :: rest =>
      if c = ']' then some (false, rest)
      else if c = ',' then scanArray fuel depth rest
      else
        match scanValue fuel (depth + 1) (c :: rest) with
        | none => none
        | some (true, rest) => some (true, rest)
        | some (false, rest) => scanArray fuel depth rest

end

/-- `has_duplicate_keys`. -/
def hasDuplicateKeys (fuel : Nat) (text : List Char) : Option Bool := (scanValue fuel 0 text).map Prod.fst

example : hasDuplicateKeys 9 "\x7b\"a\": 1, \"\\u0061\": 2\x7d".toList = some true := by decide +kernel

mutual

/-- Whether an object in a value has a key twice; deeper than 256 nothing is looked at. -/
def repeats : Nat → Tree → Bool
  | depth, .array items => 256 < depth || repeatsItem (depth + 1) items
  | depth, .object members => 256 < depth || repeatsMember (depth + 1) [] members
  | depth, _ => 256 < depth

def repeatsItem : Nat → List Tree → Bool
  | _, [] => false
  | depth, item :: items => repeats depth item || repeatsItem depth items

def repeatsMember : Nat → List (List Char) → List (List Char × Tree) → Bool
  | _, _, [] => false
  | depth, keys, (key, value) :: members =>
    keys.contains key || repeats depth value || repeatsMember depth (key :: keys) members

end

theorem readHex4_digits (digits : hex4 a b c d = some code) (rest : List Char) :
    readHex4 (a :: b :: c :: d :: rest) = (code, rest) := by
  cases first : hexValue a with
  | none => simp [hex4, first] at digits
  | some first' =>
    cases second : hexValue b with
    | none => simp [hex4, first, second] at digits
    | some second' =>
      cases third : hexValue c with
      | none => simp [hex4, first, second, third] at digits
      | some third' =>
        cases fourth : hexValue d with
        | none => simp [hex4, first, second, third, fourth] at digits
        | some fourth' =>
          have number : ((first' * 16 + second') * 16 + third') * 16 + fourth' = code := by
            simpa [hex4, first, second, third, fourth] using digits
          have read : (List.range 4).foldl
              (fun code i => code * 16 + ((a :: b :: c :: d :: rest)[i]?.bind hexValue).getD 0) 0 = code := by
            simpa [List.range_succ, first, second, third, fourth] using number
          rw [readHex4, read]
          rfl

theorem hexValue_lt (digit : hexValue c = some n) : n < 16 := by
  unfold hexValue at digit
  split at digit
  · next range =>
    obtain ⟨rfl⟩ := digit
    have high : c.toNat ≤ 57 := range.2
    omega
  · split at digit
    · next range =>
      obtain ⟨rfl⟩ := digit
      have high : c.toNat ≤ 102 := range.2
      omega
    · split at digit
      · next range =>
        obtain ⟨rfl⟩ := digit
        have high : c.toNat ≤ 70 := range.2
        omega
      · cases digit

theorem hex4_lt (digits : hex4 a b c d = some code) : code < 0x10000 := by
  simp only [hex4, Option.bind_eq_bind, Option.bind_eq_some_iff, Option.pure_def, Option.some.injEq] at digits
  obtain ⟨first, isFirst, second, isSecond, third, isThird, fourth, isFourth, rfl⟩ := digits
  have := hexValue_lt isFirst
  have := hexValue_lt isSecond
  have := hexValue_lt isThird
  have := hexValue_lt isFourth
  omega

theorem scanEscape_known (known : (e, c) ∈ escapes) (rest : List Char) : scanEscape e rest = (c, rest) := by
  simp only [escapes, List.mem_cons, Prod.mk.injEq, List.not_mem_nil, or_false] at known
  rcases known with ⟨rfl, rfl⟩ | ⟨rfl, rfl⟩ | ⟨rfl, rfl⟩ | ⟨rfl, rfl⟩ | ⟨rfl, rfl⟩ | ⟨rfl, rfl⟩ | ⟨rfl, rfl⟩ |
    ⟨rfl, rfl⟩ <;> rfl

theorem scanUnicode_whole (digits : hex4 a b c d = some code) (whole : code < 0xD800 ∨ 0xE000 ≤ code)
    (rest : List Char) :
    scanUnicode (a :: b :: c :: d :: rest) = (Char.ofNat code, rest) := by
  have bound := hex4_lt digits
  have valid : code.isValidChar := by
    rcases whole with low | high
    · exact .inl low
    · exact .inr ⟨by omega, by omega⟩
  rw [scanUnicode, readHex4_digits digits]
  dsimp only
  rw [if_neg (by omega), fromU32, if_pos valid]

theorem scanUnicode_pair (first : hex4 a b c d = some high) (second : hex4 a' b' c' d' = some low)
    (leads : 0xD800 ≤ high ∧ high < 0xDC00) (trails : 0xDC00 ≤ low ∧ low < 0xE000) (rest : List Char) :
    scanUnicode (a :: b :: c :: d :: '\\' :: 'u' :: a' :: b' :: c' :: d' :: rest) = (combined high low, rest) := by
  have valid : (0x10000 + (high - 0xD800) * 0x400 + (low - 0xDC00)).isValidChar := .inr ⟨by omega, by omega⟩
  simp only [scanUnicode, readHex4_digits first, if_pos leads, readHex4_digits second, if_pos trails,
    fromU32, if_pos valid,
    combined]

theorem scanChars_plain (unquoted : c ≠ '"') (unescaped : c ≠ '\\') (read : scanChars turns rest = (text, after)) :
    scanChars (turns + 1) (c :: rest) = (c :: text, after) := by
  unfold scanChars
  simp only [if_neg unquoted, if_neg unescaped, read]

theorem scanChars_escape (escaped : scanEscape e rest = (c, behind)) (read : scanChars turns behind = (text, after)) :
    scanChars (turns + 1) ('\\' :: e :: rest) = (c :: text, after) := by
  have equation : scanChars (turns + 1) ('\\' :: e :: rest) =
      ((scanEscape e rest).1 :: (scanChars turns (scanEscape e rest).2).1,
      (scanChars turns (scanEscape e rest).2).2) := rfl
  rw [equation, escaped, read]

theorem scanChars_chars (chars : Chars true text body) (rest : List Char) (enough : body.length < turns) :
    scanChars turns (body ++ '"' :: rest) = (text, rest) := by
  obtain ⟨turns, rfl⟩ := Nat.exists_eq_add_of_le' (Nat.lt_of_le_of_lt (Nat.zero_le _) enough)
  induction chars generalizing turns with
  | nil => rfl
  | plain _ unquoted unescaped _ ih =>
    rw [List.length_cons] at enough
    obtain ⟨turns, rfl⟩ := Nat.exists_eq_add_of_le' (by omega : 1 ≤ turns)
    exact scanChars_plain unquoted unescaped (ih turns (by omega))
  | escape known _ ih =>
    simp only [List.length_cons] at enough
    obtain ⟨turns, rfl⟩ := Nat.exists_eq_add_of_le' (by omega : 1 ≤ turns)
    exact scanChars_escape (scanEscape_known known _) (ih turns (by omega))
  | unicode digits whole _ ih =>
    simp only [List.length_cons] at enough
    obtain ⟨turns, rfl⟩ := Nat.exists_eq_add_of_le' (by omega : 1 ≤ turns)
    exact scanChars_escape (scanUnicode_whole digits (whole.resolve_left (by decide)) _) (ih turns (by omega))
  | pair _ first second leads trails _ ih =>
    simp only [List.length_cons] at enough
    obtain ⟨turns, rfl⟩ := Nat.exists_eq_add_of_le' (by omega : 1 ≤ turns)
    exact scanChars_escape (scanUnicode_pair first second leads trails _) (ih turns (by omega))

theorem scanString_chars (chars : Chars true text body) (rest : List Char) :
    scanString (body ++ '"' :: rest) = (text, rest) :=
  scanChars_chars chars rest (by rw [List.length_append, List.length_cons]; omega)

/-- Where a number or a word that stands in front of it ends. -/
def Closed (rest : List Char) : Prop := ∀ c, rest.head? = some c → endsScalar c = true

/-- What a scan comes to: when it finds nothing it has read up to `rest`. -/
def Scans (result : Option (Bool × List Char)) (found : Bool) (rest : List Char) : Prop :=
  ∃ after, result = some (found, after) ∧ (found = false → after = rest)

def PartScans : Part → List Char → Prop
  | .value tree, text => ∀ before depth rest, Blank before → Closed rest →
    ∃ least, ∀ fuel ≥ least, Scans (scanValue fuel depth (before ++ (text ++ rest))) (repeats depth tree) rest
  | .items items, text => ∀ depth rest,
    ∃ least, ∀ fuel ≥ least, Scans (scanArray fuel depth (text ++ ']' :: rest)) (repeatsItem (depth + 1) items) rest
  | .members members, text => ∀ keys depth rest,
    ∃ least, ∀ fuel ≥ least,
      Scans (scanObject fuel depth keys (text ++ '}' :: rest)) (repeatsMember (depth + 1) keys members) rest

theorem closed_blank (blank : Blank gap) (ends : endsScalar c = true) : Closed (gap ++ c :: rest) := by
  intro first head
  cases gap with
  | nil =>
    obtain rfl := Option.some.inj head
    exact ends
  | cons b gap =>
    obtain rfl := Option.some.inj head
    simp [endsScalar, blank _ List.mem_cons_self]

theorem skipSpace_value (spells : Spells true (.value tree) text) (blank : Blank gap) (rest : List Char) :
    skipSpace (gap ++ (text ++ rest)) = text ++ rest := by
  obtain ⟨c, more, rfl, other⟩ := spells_head spells
  refine dropWhile_blank blank fun first head => ?_
  obtain rfl := Option.some.inj head
  exact not_blank_of_parts other

theorem skipSpace_part (blank : Blank gap) (part : isBlank c = false) (rest : List Char) :
    skipSpace (gap ++ c :: rest) = c :: rest := by
  refine dropWhile_blank blank fun first head => ?_
  obtain rfl := Option.some.inj head
  exact part

theorem not_ends_of_parts (other : parts c = false) : endsScalar c = false := by
  simp only [parts, Bool.or_eq_false_iff] at other
  simp only [endsScalar, other, Bool.or_self]

/-- A number or a word is stepped over. -/
theorem scans_scalar (flat : ∀ depth, repeats depth tree = decide (256 < depth)) (filled : text = c :: more)
    (plain : ∀ c ∈ text, parts c = false) (begins : c ≠ '{' ∧ c ≠ '[' ∧ c ≠ '"') : PartScans (.value tree) text := by
  intro before depth rest blank closed
  refine ⟨1, fun fuel enough => ?_⟩
  obtain ⟨fuel, rfl⟩ := Nat.exists_eq_add_of_le' enough
  subst filled
  have space : skipSpace (before ++ (c :: more ++ rest)) = c :: (more ++ rest) :=
    skipSpace_part blank (not_blank_of_parts (plain _ List.mem_cons_self)) _
  have inside : ∀ other ∈ c :: more, (!endsScalar other) = true := by
    intro other mem
    rw [not_ends_of_parts (plain other mem), Bool.not_false]
  have stepped : (c :: more ++ rest).dropWhile (fun c => !endsScalar c) = rest := by
    rw [List.dropWhile_append_of_pos inside]
    cases rest with
    | nil => rfl
    | cons first rest => exact List.dropWhile_cons_of_neg (by simp [closed first rfl])
  rw [flat, scanValue]
  by_cases deep : 256 < depth
  · exact ⟨_, by rw [if_pos deep, decide_eq_true deep], by simp [deep]⟩
  · refine ⟨rest, ?_, fun _ => rfl⟩
    rw [if_neg deep, space, decide_eq_false deep]
    dsimp only
    rw [if_neg begins.1, if_neg begins.2.1, if_neg begins.2.2]
    exact congrArg (fun after => some (false, after)) stepped

theorem scanArray_close (blank : Blank gap) (fuel depth : Nat) (rest : List Char) :
    scanArray (fuel + 1) depth (gap ++ ']' :: rest) = some (false, rest) := by
  rw [scanArray, skipSpace_part blank rfl]
  rfl

theorem scanArray_comma (blank : Blank gap) (fuel depth : Nat) (rest : List Char) :
    scanArray (fuel + 1) depth (gap ++ ',' :: rest) = scanArray fuel depth rest := by
  rw [scanArray, skipSpace_part blank rfl]
  rfl

theorem scanObject_close (blank : Blank gap) (fuel depth : Nat) (keys : List (List Char)) (rest : List Char) :
    scanObject (fuel + 1) depth keys (gap ++ '}' :: rest) = some (false, rest) := by
  rw [scanObject, skipSpace_part blank rfl]
  rfl

theorem scanObject_comma (blank : Blank gap) (fuel depth : Nat) (keys : List (List Char)) (rest : List Char) :
    scanObject (fuel + 1) depth keys (gap ++ ',' :: rest) = scanObject fuel depth keys rest := by
  rw [scanObject, skipSpace_part blank rfl]
  rfl

/-- An item is scanned, and then what is behind it, unless a key is repeated in it. -/
theorem scanArray_item (spells : Spells true (.value tree) text) (blank : Blank before)
    (item : Scans (scanValue fuel (depth + 1) (text ++ behind)) found behind)
    (later : found = false → Scans (scanArray fuel depth behind) more rest) :
    Scans (scanArray (fuel + 1) depth (before ++ (text ++ behind))) (found || more) rest := by
  obtain ⟨after, scanned, read⟩ := item
  obtain ⟨c, tail, rfl, other⟩ := spells_head spells
  have notClose : c ≠ ']' := by
    rintro rfl
    cases other
  have notComma : c ≠ ',' := by
    rintro rfl
    cases other
  have turn : scanArray (fuel + 1) depth (before ++ (c :: tail ++ behind)) =
      match some (found, after) with
      | none => none
      | some (true, rest) => some (true, rest)
      | some (false, rest) => scanArray fuel depth rest := by
    rw [scanArray, skipSpace_value spells blank, List.cons_append]
    dsimp only
    rw [if_neg notClose, if_neg notComma, ← List.cons_append, scanned]
  rw [turn]
  cases found with
  | true => exact ⟨after, rfl, fun impossible => absurd impossible (by simp)⟩
  | false =>
    rw [read rfl]
    exact later rfl

/-- A member's name is looked up, its value is scanned, and then what is behind it. -/
theorem scanObject_member (chars : Chars true key body) (blank : Blank before) (gap : Blank beforeColon)
    (value : Scans (scanValue fuel (depth + 1) text) found behind)
    (later : found = false → Scans (scanObject fuel depth (key :: keys) behind) more rest) :
    Scans (scanObject (fuel + 1) depth keys (before ++ '"' :: (body ++ '"' :: (beforeColon ++ ':' :: text))))
      (keys.contains key || found || more) rest := by
  obtain ⟨after, scanned, read⟩ := value
  have turn : scanObject (fuel + 1) depth keys (before ++ '"' :: (body ++ '"' :: (beforeColon ++ ':' :: text))) =
      if key ∈ keys then some (true, beforeColon ++ ':' :: text)
      else
        match some (found, after) with
        | none => none
        | some (true, rest) => some (true, rest)
        | some (false, rest) => scanObject fuel depth (key :: keys) rest := by
    rw [scanObject, skipSpace_part blank rfl]
    dsimp only
    rw [if_neg (by decide), if_neg (by decide), if_pos rfl, scanString_chars chars, skipSpace_part gap rfl,
      ← scanned]
    rfl
  rw [turn]
  by_cases repeated : key ∈ keys
  · rw [if_pos repeated, List.contains_iff_mem.mpr repeated]
    exact ⟨_, rfl, fun impossible => absurd impossible (by simp)⟩
  · rw [if_neg repeated, Bool.eq_false_iff.mpr (mt List.contains_iff_mem.mp repeated), Bool.false_or]
    cases found with
    | true => exact ⟨after, rfl, fun impossible => absurd impossible (by simp)⟩
    | false =>
      rw [read rfl]
      exact later rfl

theorem scanValue_open (blank : Blank before) (opens : c = '[' ∨ c = '{')
    (inner : Scans (if c = '{' then scanObject fuel depth [] behind else scanArray fuel depth behind) found rest) :
    Scans (scanValue (fuel + 1) depth (before ++ c :: behind)) (decide (256 < depth) || found) rest := by
  have visible : isBlank c = false := by rcases opens with rfl | rfl <;> rfl
  rw [scanValue]
  by_cases deep : 256 < depth
  · rw [if_pos deep, decide_eq_true deep]
    exact ⟨_, rfl, fun impossible => absurd impossible (by simp)⟩
  · rw [if_neg deep, decide_eq_false deep, Bool.false_or, skipSpace_part blank visible]
    rcases opens with rfl | rfl
    · exact inner
    · exact inner

theorem part_scans (spells : Spells true part text) : PartScans part text := by
  induction spells with
  | null =>
    exact scans_scalar (fun _ => by rw [repeats] <;> intros <;> contradiction) rfl
      (by simp [parts, isBlank]) (by decide)
  | truth =>
    exact scans_scalar (fun _ => by rw [repeats] <;> intros <;> contradiction) rfl
      (by simp [parts, isBlank]) (by decide)
  | falsity =>
    exact scans_scalar (fun _ => by rw [repeats] <;> intros <;> contradiction) rfl
      (by simp [parts, isBlank]) (by decide)
  | number number =>
    obtain ⟨c, rest, same, begins⟩ := number_head number
    refine scans_scalar (fun _ => by rw [repeats] <;> intros <;> contradiction) same (number_parts number) ?_
    rcases begins with digit | rfl
    · refine ⟨?_, ?_, ?_⟩ <;> rintro rfl <;> exact absurd digit (by decide)
    · decide
  | string chars =>
    intro before depth rest blank _
    refine ⟨1, fun fuel enough => ?_⟩
    obtain ⟨fuel, rfl⟩ := Nat.exists_eq_add_of_le' enough
    have flat : ∀ text, repeats depth (.string text) = decide (256 < depth) := fun _ => by
      rw [repeats] <;> intros <;> contradiction
    rw [flat, scanValue]
    by_cases deep : 256 < depth
    · exact ⟨_, by rw [if_pos deep, decide_eq_true deep], by simp [deep]⟩
    · refine ⟨rest, ?_, fun _ => rfl⟩
      rw [if_neg deep, decide_eq_false deep, List.cons_append, skipSpace_part blank rfl]
      dsimp only
      rw [if_neg (by decide), if_neg (by decide), if_pos rfl, List.append_assoc, List.singleton_append,
        scanString_chars chars]
  | emptyArray blank =>
    intro before depth rest lead _
    refine ⟨2, fun fuel enough => ?_⟩
    obtain ⟨fuel, rfl⟩ := Nat.exists_eq_add_of_le' enough
    rw [repeats, repeatsItem, List.cons_append, List.append_assoc]
    refine scanValue_open lead (.inl rfl) ?_
    exact ⟨rest, scanArray_close blank fuel depth rest, fun _ => rfl⟩
  | array _ ih =>
    intro before depth rest lead _
    obtain ⟨least, scans⟩ := ih depth rest
    refine ⟨least + 1, fun fuel enough => ?_⟩
    obtain ⟨fuel, rfl⟩ := Nat.exists_eq_add_of_le' (by omega : 1 ≤ fuel)
    rw [repeats, List.cons_append, List.append_assoc]
    exact scanValue_open lead (.inl rfl) (scans fuel (by omega))
  | emptyObject blank =>
    intro before depth rest lead _
    refine ⟨2, fun fuel enough => ?_⟩
    obtain ⟨fuel, rfl⟩ := Nat.exists_eq_add_of_le' enough
    rw [repeats, repeatsMember, List.cons_append, List.append_assoc]
    refine scanValue_open lead (.inr rfl) ?_
    exact ⟨rest, scanObject_close blank fuel depth [] rest, fun _ => rfl⟩
  | object _ ih =>
    intro before depth rest lead _
    obtain ⟨least, scans⟩ := ih [] depth rest
    refine ⟨least + 1, fun fuel enough => ?_⟩
    obtain ⟨fuel, rfl⟩ := Nat.exists_eq_add_of_le' (by omega : 1 ≤ fuel)
    rw [repeats, List.cons_append, List.append_assoc]
    exact scanValue_open lead (.inr rfl) (scans fuel (by omega))
  | lastItem lead value trail ih =>
    intro depth rest
    obtain ⟨least, scans⟩ := ih [] (depth + 1) (_ ++ ']' :: rest) (by simp [Blank]) (closed_blank trail rfl)
    refine ⟨least + 2, fun fuel enough => ?_⟩
    obtain ⟨fuel, rfl⟩ := Nat.exists_eq_add_of_le' (by omega : 1 ≤ fuel)
    rw [repeatsItem, repeatsItem, List.append_assoc, List.append_assoc]
    refine scanArray_item value lead (scans fuel (by omega)) fun _ => ?_
    obtain ⟨fuel, rfl⟩ := Nat.exists_eq_add_of_le' (by omega : 1 ≤ fuel)
    exact ⟨rest, scanArray_close trail fuel depth rest, fun _ => rfl⟩
  | nextItem lead value trail _ ih ihMore =>
    intro depth rest
    obtain ⟨least, scans⟩ := ih [] (depth + 1) (_ ++ ',' :: (_ ++ ']' :: rest)) (by simp [Blank])
      (closed_blank trail rfl)
    obtain ⟨leastMore, scansMore⟩ := ihMore depth rest
    refine ⟨least + leastMore + 2, fun fuel enough => ?_⟩
    obtain ⟨fuel, rfl⟩ := Nat.exists_eq_add_of_le' (by omega : 1 ≤ fuel)
    rw [repeatsItem, List.append_assoc, List.append_assoc, List.append_assoc, List.cons_append]
    refine scanArray_item value lead (scans fuel (by omega)) fun _ => ?_
    obtain ⟨fuel, rfl⟩ := Nat.exists_eq_add_of_le' (by omega : 1 ≤ fuel)
    rw [scanArray_comma trail]
    exact scansMore fuel (by omega)
  | lastMember lead chars gap gap' value trail ih =>
    intro keys depth rest
    obtain ⟨least, scans⟩ := ih _ (depth + 1) (_ ++ '}' :: rest) gap' (closed_blank trail rfl)
    refine ⟨least + 2, fun fuel enough => ?_⟩
    obtain ⟨fuel, rfl⟩ := Nat.exists_eq_add_of_le' (by omega : 1 ≤ fuel)
    rw [repeatsMember, repeatsMember]
    simp only [List.append_assoc, List.cons_append]
    refine scanObject_member chars lead gap (scans fuel (by omega)) fun _ => ?_
    obtain ⟨fuel, rfl⟩ := Nat.exists_eq_add_of_le' (by omega : 1 ≤ fuel)
    exact ⟨rest, scanObject_close trail fuel depth _ rest, fun _ => rfl⟩
  | nextMember lead chars gap gap' value trail _ ih ihMore =>
    intro keys depth rest
    obtain ⟨least, scans⟩ := ih _ (depth + 1) (_ ++ ',' :: (_ ++ '}' :: rest)) gap' (closed_blank trail rfl)
    obtain ⟨leastMore, scansMore⟩ := ihMore (_ :: keys) depth rest
    refine ⟨least + leastMore + 2, fun fuel enough => ?_⟩
    obtain ⟨fuel, rfl⟩ := Nat.exists_eq_add_of_le' (by omega : 1 ≤ fuel)
    rw [repeatsMember]
    simp only [List.append_assoc, List.cons_append]
    refine scanObject_member chars lead gap (scans fuel (by omega)) fun _ => ?_
    obtain ⟨fuel, rfl⟩ := Nat.exists_eq_add_of_le' (by omega : 1 ≤ fuel)
    rw [scanObject_comma trail]
    exact scansMore fuel (by omega)

theorem hasDuplicateKeys_ends (valid : IsText true tree text) :
    Settles (fun fuel => hasDuplicateKeys fuel text) (repeats 0 tree) := by
  obtain ⟨before, body, after, rfl, lead, spells, trail⟩ := valid
  have closed : Closed after := by
    intro c head
    simp [endsScalar, trail c (List.mem_of_mem_head? head)]
  obtain ⟨least, scans⟩ := part_scans spells before 0 after lead closed
  refine ⟨least, fun fuel enough => ?_⟩
  obtain ⟨rest, scanned, _⟩ := scans fuel enough
  dsimp only [hasDuplicateKeys]
  rw [scanned]
  rfl

/-- An object in a value, at any depth, has two members of one key. -/
inductive KeyTwice : Tree → Prop
  | here (twice : ¬(members.map Prod.fst).Nodup) : KeyTwice (.object members)
  | item (inside : item ∈ items) (deeper : KeyTwice item) : KeyTwice (.array items)
  | member (inside : (key, value) ∈ members) (deeper : KeyTwice value) : KeyTwice (.object members)

theorem keyTwice_array : KeyTwice (.array items) ↔ ∃ item ∈ items, KeyTwice item := by
  constructor
  · rintro ⟨⟩
    exact ⟨_, ‹_›, ‹_›⟩
  · rintro ⟨item, inside, deeper⟩
    exact .item inside deeper

theorem keyTwice_object : KeyTwice (.object members) ↔
    ¬(members.map Prod.fst).Nodup ∨ ∃ member ∈ members, KeyTwice member.2 := by
  constructor
  · intro twice
    cases twice with
    | here twice => exact .inl twice
    | member inside deeper => exact .inr ⟨_, inside, deeper⟩
  · rintro (twice | ⟨⟨key, value⟩, inside, deeper⟩)
    · exact .here twice
    · exact .member inside deeper

mutual

/-- Where the nesting is followed to its end, a key twice is all that is found. -/
theorem repeats_iff (depth : Nat) (tree : Tree) (shallow : depth + tree.depth ≤ 256) :
    repeats depth tree = true ↔ KeyTwice tree := by
  have near : ¬256 < depth := Nat.not_lt.mpr (Nat.le_trans (Nat.le_add_right _ _) shallow)
  cases tree with
  | array items =>
    rw [Tree.depth] at shallow
    rw [repeats, decide_eq_false near, Bool.false_or, keyTwice_array]
    exact repeatsItem_iff (depth + 1) items (by omega)
  | object members =>
    rw [Tree.depth] at shallow
    rw [repeats, decide_eq_false near, Bool.false_or, keyTwice_object,
      repeatsMember_iff (depth + 1) [] members (by omega)]
    simp
  | null => exact ⟨fun found => absurd (of_decide_eq_true found) near, fun twice => by cases twice⟩
  | bool => exact ⟨fun found => absurd (of_decide_eq_true found) near, fun twice => by cases twice⟩
  | number => exact ⟨fun found => absurd (of_decide_eq_true found) near, fun twice => by cases twice⟩
  | string => exact ⟨fun found => absurd (of_decide_eq_true found) near, fun twice => by cases twice⟩
termination_by sizeOf tree

theorem repeatsItem_iff (depth : Nat) (items : List Tree) (shallow : depth + itemsDepth items ≤ 256) :
    repeatsItem depth items = true ↔ ∃ item ∈ items, KeyTwice item := by
  cases items with
  | nil => simp [repeatsItem]
  | cons item items =>
    rw [itemsDepth] at shallow
    have first := repeats_iff depth item (by omega)
    have later := repeatsItem_iff depth items (by omega)
    rw [repeatsItem, Bool.or_eq_true, first, later, List.exists_mem_cons_iff]
termination_by sizeOf items

theorem repeatsMember_iff (depth : Nat) (keys : List (List Char)) (members : List (List Char × Tree))
    (shallow : depth + membersDepth members ≤ 256) :
    repeatsMember depth keys members = true ↔ (∃ member ∈ members, member.1 ∈ keys) ∨
      ¬(members.map Prod.fst).Nodup ∨ ∃ member ∈ members, KeyTwice member.2 := by
  match members with
  | [] => simp [repeatsMember]
  | (key, value) :: members =>
    rw [membersDepth] at shallow
    have first := repeats_iff depth value (by omega)
    have later := repeatsMember_iff depth (key :: keys) members (by omega)
    rw [repeatsMember, Bool.or_eq_true, Bool.or_eq_true, first, later, List.contains_iff_mem]
    -- A later member of this key is one the object has twice.
    have own : (∃ member ∈ members, member.1 ∈ key :: keys) ↔
        key ∈ members.map Prod.fst ∨ ∃ member ∈ members, member.1 ∈ keys := by
      simp only [List.mem_cons, List.mem_map]
      constructor
      · rintro ⟨member, inside, same | held⟩
        · exact .inl ⟨member, inside, same⟩
        · exact .inr ⟨member, inside, held⟩
      · rintro (⟨member, inside, same⟩ | ⟨member, inside, held⟩)
        · exact ⟨member, inside, .inl same⟩
        · exact ⟨member, inside, .inr held⟩
    rw [own, List.map_cons, List.nodup_cons, List.exists_mem_cons_iff, List.exists_mem_cons_iff, not_and_or, not_not]
    exact iff_of_eq (by ac_rfl)
termination_by sizeOf members

end

/-- On a valid text that is not too deep the scan ends, and says exactly whether an object has a key twice. -/
theorem has_duplicate_keys_exact (valid : IsText true tree text) (shallow : tree.depth ≤ 128) :
    ∃ found, Settles (fun fuel => hasDuplicateKeys fuel text) found ∧ (found = true ↔ KeyTwice tree) :=
  ⟨_, hasDuplicateKeys_ends valid, repeats_iff 0 tree (by omega)⟩

/-- An array with an object in it, whose keys are `a` and an escaped `a`. -/
theorem has_duplicate_keys_exact_escaped :
    ∃ found, Settles (fun fuel => hasDuplicateKeys fuel
        ['[', '{', '"', 'a', '"', ':', '1', ',', '"', '\\', 'u', '0', '0', '6', '1', '"', ':', '2', '}', ']']) found ∧
      (found = true ↔ KeyTwice (.array [.object [(['a'], .number ['1']), (['a'], .number ['2'])]])) := by
  have plain : Chars true ['a'] ['a'] := .plain (by decide) (by decide) (by decide) .nil
  have escaped : Chars true ['a'] ['\\', 'u', '0', '0', '6', '1'] := .unicode (by decide) (by decide) .nil
  have none : Blank [] := List.forall_mem_nil _
  have second : Spells true (.members [(['a'], .number ['2'])]) _ :=
    .lastMember none escaped none none (.number (by decide)) none
  have members : Spells true (.members [(['a'], .number ['1']), (['a'], .number ['2'])]) _ :=
    .nextMember none plain none none (.number (by decide)) none second
  have whole : Spells true (.value (.array [.object [(['a'], .number ['1']), (['a'], .number ['2'])]])) _ :=
    .array (.lastItem none (.object members) none)
  exact has_duplicate_keys_exact ⟨[], _, [], (List.append_nil _).symm, none, whole, none⟩ (by decide)

end QueryHive.Transfer.JsonKeys
