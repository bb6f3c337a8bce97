import QueryHive.Library.JsonText

/-! A reader of JSON texts. It reads every text as the value the text spells, and no other value. -/
namespace QueryHive.Library.JsonText

variable {strict : Bool}

/-- What stands for a character behind a backslash. -/
def readEscape (strict : Bool) : List Char → Option (Char × List Char)
  | [] => none
  | e :: rest =>
    if e = 'u' then
      match rest with
      | a :: b :: c :: d :: rest => do
        let code ← hex4 a b c d
        if strict = false ∨ code < 0xD800 ∨ 0xE000 ≤ code then some (Char.ofNat code, rest)
        else if code < 0xDC00 then
          match rest with
          | '\\' :: 'u' :: a :: b :: c :: d :: rest => do
            let low ← hex4 a b c d
            if 0xDC00 ≤ low ∧ low < 0xE000 then some (combined code low, rest) else none
          | _ => none
        else none
      | _ => none
    else (escapes.find? (·.1 == e)).map fun pair => (pair.2, rest)

/-- The characters of a string behind its opening quotation mark, for so many of them. -/
def readChars (strict : Bool) : Nat → List Char → Option (List Char × List Char)
  | 0, _ => none
  | _ + 1, [] => none
  | turns + 1, c :: rest =>
    if c = '"' then some ([], rest)
    else if c = '\\' then do
      let (c, rest) ← readEscape strict rest
      (readChars strict turns rest).map fun (text, after) => (c :: text, after)
    else if c.toNat < 0x20 then none
    else (readChars strict turns rest).map fun (text, after) => (c :: text, after)

/-- A word or a number. -/
def readScalar (text : List Char) : Option (Tree × List Char) :=
  let token := text.takeWhile fun c => !parts c
  let rest := text.dropWhile fun c => !parts c
  if token = ['n', 'u', 'l', 'l'] then some (.null, rest)
  else if token = ['t', 'r', 'u', 'e'] then some (.bool true, rest)
  else if token = ['f', 'a', 'l', 's', 'e'] then some (.bool false, rest)
  else if isNumber token then some (.number token, rest)
  else none

/-- The text behind blanks and this character. -/
def expect (c : Char) (text : List Char) : Option (List Char) :=
  match text.dropWhile isBlank with
  | d :: rest => if d = c then some rest else none
  | [] => none

mutual

/-- A value, behind blanks, as long as `fuel` lasts. -/
def readValue (strict : Bool) : Nat → List Char → Option (Tree × List Char)
  | 0, _ => none
  | fuel + 1, text =>
    match text.dropWhile isBlank with
    | [] => none
    | c :: rest =>
      if c = '"' then (readChars strict (rest.length + 1) rest).map fun (text, after) => (.string text, after)
      else if c = '[' then
        match expect ']' rest with
        | some after => some (.array [], after)
        | none => (readItems strict fuel rest).map fun (items, after) => (.array items, after)
      else if c = '{' then
        match expect '}' rest with
        | some after => some (.object [], after)
        | none => (readMembers strict fuel rest).map fun (members, after) => (.object members, after)
      else readScalar (c :: rest)

/-- The items of an array up to its closing bracket. -/
def readItems (strict : Bool) : Nat → List Char → Option (List Tree × List Char)
  | 0, _ => none
  | fuel + 1, text => do
    let (item, behind) ← readValue strict fuel text
    match expect ',' behind with
    | some rest => (readItems strict fuel rest).map fun (items, after) => (item :: items, after)
    | none => (expect ']' behind).map fun after => ([item], after)

/-- The members of an object up to its closing brace. -/
def readMembers (strict : Bool) : Nat → List Char → Option (List (List Char × Tree) × List Char)
  | 0, _ => none
  | fuel + 1, text => do
    let opened ← expect '"' text
    let (key, named) ← readChars strict (opened.length + 1) opened
    let (value, behind) ← readValue strict fuel (← expect ':' named)
    match expect ',' behind with
    | some rest => (readMembers strict fuel rest).map fun (members, after) => ((key, value) :: members, after)
    | none => (expect '}' behind).map fun after => ([(key, value)], after)

end

def parse (strict : Bool) (text : List Char) : Option Tree := do
  let (tree, after) ← readValue strict (2 * text.length + 2) text
  if after.all isBlank then some tree else none

theorem find_escape (known : (e, c) ∈ escapes) : e ≠ 'u' ∧ (escapes.find? (·.1 == e)).map Prod.snd = some c := by
  simp only [escapes, List.mem_cons, Prod.mk.injEq, List.not_mem_nil, or_false] at known
  rcases known with ⟨rfl, rfl⟩ | ⟨rfl, rfl⟩ | ⟨rfl, rfl⟩ | ⟨rfl, rfl⟩ | ⟨rfl, rfl⟩ | ⟨rfl, rfl⟩ | ⟨rfl, rfl⟩ |
    ⟨rfl, rfl⟩ <;> decide

theorem readEscape_known (known : (e, c) ∈ escapes) (rest : List Char) :
    readEscape strict (e :: rest) = some (c, rest) := by
  obtain ⟨other, found⟩ := find_escape known
  obtain ⟨pair, first, rfl⟩ := Option.map_eq_some_iff.mp found
  have step : readEscape strict (e :: rest) = (escapes.find? (·.1 == e)).map fun pair => (pair.2, rest) := by
    unfold readEscape
    exact if_neg other
  rw [step, first]
  rfl

theorem readEscape_unicode (digits : hex4 a b c d = some code) (whole : strict = false ∨ code < 0xD800 ∨ 0xE000 ≤ code)
    (rest : List Char) :
    readEscape strict ('u' :: a :: b :: c :: d :: rest) = some (Char.ofNat code, rest) := by
  simp only [readEscape, if_true, digits, Option.bind_eq_bind, Option.bind_some, if_pos whole]

theorem readEscape_pair (paired : strict = true) (first : hex4 a b c d = some high)
    (second : hex4 a' b' c' d' = some low)
    (leads : 0xD800 ≤ high ∧ high < 0xDC00) (trails : 0xDC00 ≤ low ∧ low < 0xE000) (rest : List Char) :
    readEscape strict ('u' :: a :: b :: c :: d :: '\\' :: 'u' :: a' :: b' :: c' :: d' :: rest) =
      some (combined high low, rest) := by
  have notWhole : ¬(strict = false ∨ high < 0xD800 ∨ 0xE000 ≤ high) := by
    rw [paired]
    simp only [Bool.true_eq_false, false_or]
    omega
  simp only [readEscape, if_true, first, Option.bind_eq_bind, Option.bind_some, if_neg notWhole, if_pos leads.2, second,
    if_pos trails]

theorem readChars_escape (escaped : readEscape strict rest = some (c, behind))
    (read : readChars strict turns behind = some (text, after)) :
    readChars strict (turns + 1) ('\\' :: rest) = some (c :: text, after) := by
  rw [readChars, if_neg (by decide), if_pos rfl, escaped]
  simp only [Option.bind_eq_bind, Option.bind_some, read, Option.map_some]

theorem readChars_chars (chars : Chars strict text body) (rest : List Char) (enough : body.length < turns) :
    readChars strict turns (body ++ '"' :: rest) = some (text, rest) := by
  obtain ⟨turns, rfl⟩ := Nat.exists_eq_add_of_le' (Nat.lt_of_le_of_lt (Nat.zero_le _) enough)
  induction chars generalizing turns with
  | nil => rfl
  | plain printed unquoted unescaped _ ih =>
    rw [List.length_cons] at enough
    obtain ⟨turns, rfl⟩ := Nat.exists_eq_add_of_le' (by omega : 1 ≤ turns)
    rw [List.cons_append, readChars, if_neg unquoted, if_neg unescaped, if_neg (Nat.not_lt.mpr printed),
      ih turns (by omega)]
    rfl
  | escape known _ ih =>
    simp only [List.length_cons] at enough
    obtain ⟨turns, rfl⟩ := Nat.exists_eq_add_of_le' (by omega : 1 ≤ turns)
    exact readChars_escape (readEscape_known known _) (ih turns (by omega))
  | unicode digits whole _ ih =>
    simp only [List.length_cons] at enough
    obtain ⟨turns, rfl⟩ := Nat.exists_eq_add_of_le' (by omega : 1 ≤ turns)
    exact readChars_escape (readEscape_unicode digits whole _) (ih turns (by omega))
  | pair paired first second leads trails _ ih =>
    simp only [List.length_cons] at enough
    obtain ⟨turns, rfl⟩ := Nat.exists_eq_add_of_le' (by omega : 1 ≤ turns)
    exact readChars_escape (readEscape_pair paired first second leads trails _) (ih turns (by omega))

theorem readChars_string (chars : Chars strict text body) (rest : List Char) :
    readChars strict ((body ++ '"' :: rest).length + 1) (body ++ '"' :: rest) = some (text, rest) :=
  readChars_chars chars rest (by rw [List.length_append]; omega)

theorem expect_part (blank : Blank gap) (part : isBlank c = false) (rest : List Char) :
    expect c (gap ++ c :: rest) = some rest := by
  have skipped : (gap ++ c :: rest).dropWhile isBlank = c :: rest := by
    refine dropWhile_blank blank fun first head => ?_
    obtain rfl := Option.some.inj head
    exact part
  rw [expect, skipped]
  exact if_pos rfl

theorem expect_other (blank : Blank gap) (part : isBlank d = false) (other : d ≠ c) (rest : List Char) :
    expect c (gap ++ d :: rest) = none := by
  have skipped : (gap ++ d :: rest).dropWhile isBlank = d :: rest := by
    refine dropWhile_blank blank fun first head => ?_
    obtain rfl := Option.some.inj head
    exact part
  rw [expect, skipped]
  exact if_neg other

/-- What ends a word or a number that stands in front of it. -/
def Parted (rest : List Char) : Prop := ∀ c, rest.head? = some c → parts c = true

theorem parted_blank (blank : Blank gap) (ends : parts c = true) : Parted (gap ++ c :: rest) := by
  intro first head
  cases gap with
  | nil =>
    obtain rfl := Option.some.inj head
    exact ends
  | cons b gap =>
    obtain rfl := Option.some.inj head
    simp [parts, blank _ List.mem_cons_self]

theorem readScalar_token (whole : ∀ c ∈ token, parts c = false) (parted : Parted rest) :
    readScalar (token ++ rest) =
      if token = ['n', 'u', 'l', 'l'] then some (.null, rest)
      else if token = ['t', 'r', 'u', 'e'] then some (.bool true, rest)
      else if token = ['f', 'a', 'l', 's', 'e'] then some (.bool false, rest)
      else if isNumber token then some (.number token, rest)
      else none := by
  have all : ∀ c ∈ token, (!parts c) = true := fun c mem => by simp [whole c mem]
  have stops : rest.takeWhile (fun c => !parts c) = [] ∧ rest.dropWhile (fun c => !parts c) = rest := by
    cases rest with
    | nil => exact ⟨rfl, rfl⟩
    | cons c rest =>
      have ends : ¬(!parts c) = true := by simp [parted c rfl]
      exact ⟨List.takeWhile_cons_of_neg ends, List.dropWhile_cons_of_neg ends⟩
  rw [readScalar, List.takeWhile_append_of_pos all, List.dropWhile_append_of_pos all, stops.1, stops.2, List.append_nil]

theorem readScalar_number (number : isNumber token = true) (parted : Parted rest) :
    readScalar (token ++ rest) = some (.number token, rest) := by
  have other : ∀ word, isNumber word = false → token ≠ word := by
    rintro word unlike rfl
    exact absurd number (by rw [unlike]; decide)
  rw [readScalar_token (number_parts number) parted, if_neg (other _ (by decide)), if_neg (other _ (by decide)),
    if_neg (other _ (by decide)), if_pos number]

theorem readValue_scalar (lead : Blank before) (bare : parts c = false) (other : c ≠ '"' ∧ c ≠ '[' ∧ c ≠ '{') :
    readValue strict (fuel + 1) (before ++ c :: text) = readScalar (c :: text) := by
  have skipped : (before ++ c :: text).dropWhile isBlank = c :: text := by
    refine dropWhile_blank lead fun first head => ?_
    obtain rfl := Option.some.inj head
    exact not_blank_of_parts bare
  rw [readValue, skipped]
  simp only [if_neg other.1, if_neg other.2.1, if_neg other.2.2]

theorem readValue_string (lead : Blank before) (chars : Chars strict text body) (rest : List Char) :
    readValue strict (fuel + 1) (before ++ '"' :: (body ++ '"' :: rest)) = some (.string text, rest) := by
  rw [readValue, dropWhile_blank lead fun first head => by obtain rfl := Option.some.inj head; rfl]
  simp only [if_true, readChars_string chars rest, Option.map_some]

theorem readValue_array (lead : Blank before) (text : List Char) :
    readValue strict (fuel + 1) (before ++ '[' :: text) =
      match expect ']' text with
      | some after => some (.array [], after)
      | none => (readItems strict fuel text).map fun (items, after) => (.array items, after) := by
  rw [readValue, dropWhile_blank lead fun first head => by obtain rfl := Option.some.inj head; rfl]
  rfl

theorem readValue_object (lead : Blank before) (text : List Char) :
    readValue strict (fuel + 1) (before ++ '{' :: text) =
      match expect '}' text with
      | some after => some (.object [], after)
      | none => (readMembers strict fuel text).map fun (members, after) => (.object members, after) := by
  rw [readValue, dropWhile_blank lead fun first head => by obtain rfl := Option.some.inj head; rfl]
  rfl

theorem readItems_next (value : readValue strict fuel text = some (item, gap ++ ',' :: rest)) (blank : Blank gap)
    (more : readItems strict fuel rest = some (items, after)) :
    readItems strict (fuel + 1) text = some (item :: items, after) := by
  rw [readItems, value]
  simp only [Option.bind_eq_bind, Option.bind_some, expect_part blank (by decide : isBlank ',' = false), more,
    Option.map_some]

theorem readItems_last (value : readValue strict fuel text = some (item, gap ++ ']' :: rest)) (blank : Blank gap) :
    readItems strict (fuel + 1) text = some ([item], rest) := by
  rw [readItems, value]
  simp only [Option.bind_eq_bind, Option.bind_some, expect_part blank (by decide : isBlank ']' = false),
    Option.map_some,
    expect_other blank (by decide : isBlank ']' = false) (by decide : (']' : Char) ≠ ',')]

theorem readMembers_key (lead : Blank before) (chars : Chars strict key body) (gap : Blank beforeColon)
    (text : List Char) :
    readMembers strict (fuel + 1) (before ++ '"' :: (body ++ '"' :: (beforeColon ++ ':' :: text))) =
      (readValue strict fuel text).bind fun (value, behind) =>
        match expect ',' behind with
        | some rest => (readMembers strict fuel rest).map fun (members, after) => ((key, value) :: members, after)
        | none => (expect '}' behind).map fun after => ([(key, value)], after) := by
  rw [readMembers]
  simp only [Option.bind_eq_bind, Option.bind_some, expect_part lead (by decide : isBlank '"' = false),
    readChars_string chars, expect_part gap (by decide : isBlank ':' = false)]

theorem readMembers_next (lead : Blank before) (chars : Chars strict key body) (colon : Blank beforeColon)
    (value : readValue strict fuel text = some (item, gap ++ ',' :: rest)) (blank : Blank gap)
    (more : readMembers strict fuel rest = some (members, after)) :
    readMembers strict (fuel + 1) (before ++ '"' :: (body ++ '"' :: (beforeColon ++ ':' :: text))) =
      some ((key, item) :: members, after) := by
  rw [readMembers_key lead chars colon, value]
  simp only [Option.bind_some, expect_part blank (by decide : isBlank ',' = false), more, Option.map_some]

theorem readMembers_last (lead : Blank before) (chars : Chars strict key body) (colon : Blank beforeColon)
    (value : readValue strict fuel text = some (item, gap ++ '}' :: rest)) (blank : Blank gap) :
    readMembers strict (fuel + 1) (before ++ '"' :: (body ++ '"' :: (beforeColon ++ ':' :: text))) =
      some ([(key, item)], rest) := by
  rw [readMembers_key lead chars colon, value]
  simp only [Option.bind_some, expect_part blank (by decide : isBlank '}' = false), Option.map_some,
    expect_other blank (by decide : isBlank '}' = false) (by decide : ('}' : Char) ≠ ',')]

theorem items_head (spells : Spells strict (.items items) text) :
    ∃ gap c rest, text = gap ++ c :: rest ∧ Blank gap ∧ parts c = false := by
  cases spells with
  | lastItem lead value trail =>
    obtain ⟨c, rest, rfl, bare⟩ := spells_head value
    exact ⟨_, c, _, rfl, lead, bare⟩
  | nextItem lead value trail more =>
    obtain ⟨c, rest, rfl, bare⟩ := spells_head value
    exact ⟨_, c, _, rfl, lead, bare⟩

theorem members_head (spells : Spells strict (.members members) text) :
    ∃ gap rest, text = gap ++ '"' :: rest ∧ Blank gap := by
  cases spells with
  | lastMember lead chars gap gap' value trail => exact ⟨_, _, rfl, lead⟩
  | nextMember lead chars gap gap' value trail more => exact ⟨_, _, rfl, lead⟩

def Read (strict : Bool) : Part → List Char → Prop
  | .value tree, text => ∀ before rest fuel, Blank before → Parted rest → 2 * text.length ≤ fuel →
      readValue strict fuel (before ++ (text ++ rest)) = some (tree, rest)
  | .items items, text =>
    ∀ rest fuel, 2 * text.length + 1 ≤ fuel → readItems strict fuel (text ++ ']' :: rest) = some (items, rest)
  | .members members, text =>
    ∀ rest fuel, 2 * text.length + 1 ≤ fuel → readMembers strict fuel (text ++ '}' :: rest) = some (members, rest)

theorem read_scalar (first : text = c :: more) (bare : parts c = false) (other : c ≠ '"' ∧ c ≠ '[' ∧ c ≠ '{')
    (scalar : ∀ rest, Parted rest → readScalar (text ++ rest) = some (tree, rest)) :
    Read strict (.value tree) text := by
  rintro before rest fuel lead parted enough
  subst first
  obtain ⟨fuel, rfl⟩ := Nat.exists_eq_add_of_le' (by rw [List.length_cons] at enough; omega : 1 ≤ fuel)
  rw [List.cons_append, readValue_scalar lead bare other]
  exact scalar rest parted

theorem read_of_spells (spells : Spells strict part text) : Read strict part text := by
  induction spells with
  | null =>
    refine read_scalar rfl (by decide) (by decide) fun rest parted => ?_
    rw [readScalar_token (by simp [parts, isBlank]) parted, if_pos rfl]
  | truth =>
    refine read_scalar rfl (by decide) (by decide) fun rest parted => ?_
    rw [readScalar_token (by simp [parts, isBlank]) parted, if_neg (by decide), if_pos rfl]
  | falsity =>
    refine read_scalar rfl (by decide) (by decide) fun rest parted => ?_
    rw [readScalar_token (by simp [parts, isBlank]) parted, if_neg (by decide), if_neg (by decide), if_pos rfl]
  | number number =>
    obtain ⟨c, rest, same, starts⟩ := number_head number
    have other : c ≠ '"' ∧ c ≠ '[' ∧ c ≠ '{' := by
      refine ⟨?_, ?_, ?_⟩ <;> (rintro rfl; revert starts; decide)
    exact read_scalar same (number_parts number c (same ▸ List.mem_cons_self)) other fun rest parted =>
      readScalar_number number parted
  | string chars =>
    rintro before rest fuel lead parted enough
    obtain ⟨fuel, rfl⟩ := Nat.exists_eq_add_of_le' (by rw [List.length_cons] at enough; omega : 1 ≤ fuel)
    simpa only [List.cons_append, List.append_assoc, List.nil_append] using readValue_string lead chars rest
  | emptyArray blank =>
    rintro before rest fuel lead parted enough
    obtain ⟨fuel, rfl⟩ := Nat.exists_eq_add_of_le' (by rw [List.length_cons] at enough; omega : 1 ≤ fuel)
    simp only [List.cons_append, List.append_assoc, List.nil_append]
    rw [readValue_array lead, expect_part blank (by decide)]
  | array inner ih =>
    rintro before rest fuel lead parted enough
    obtain ⟨fuel, rfl⟩ := Nat.exists_eq_add_of_le' (by rw [List.length_cons] at enough; omega : 1 ≤ fuel)
    simp only [List.length_cons, List.length_append, List.length_nil] at enough
    have opened : ∀ body, (∃ gap c rest, body = gap ++ c :: rest ∧ Blank gap ∧ parts c = false) →
        expect ']' (body ++ ']' :: rest) = none := by
      rintro body ⟨gap, c, more, rfl, blank, bare⟩
      rw [List.append_assoc, List.cons_append]
      exact expect_other blank (not_blank_of_parts bare) (by rintro rfl; revert bare; decide) _
    simp only [List.cons_append, List.append_assoc, List.nil_append]
    rw [readValue_array lead, opened _ (items_head inner), ih rest fuel (by omega)]
    rfl
  | emptyObject blank =>
    rintro before rest fuel lead parted enough
    obtain ⟨fuel, rfl⟩ := Nat.exists_eq_add_of_le' (by rw [List.length_cons] at enough; omega : 1 ≤ fuel)
    simp only [List.cons_append, List.append_assoc, List.nil_append]
    rw [readValue_object lead, expect_part blank (by decide)]
  | object inner ih =>
    rintro before rest fuel lead parted enough
    obtain ⟨fuel, rfl⟩ := Nat.exists_eq_add_of_le' (by rw [List.length_cons] at enough; omega : 1 ≤ fuel)
    simp only [List.length_cons, List.length_append, List.length_nil] at enough
    have opened : ∀ body, (∃ gap rest, body = gap ++ '"' :: rest ∧ Blank gap) →
      expect '}' (body ++ '}' :: rest) = none := by
      rintro body ⟨gap, more, rfl, blank⟩
      rw [List.append_assoc, List.cons_append]
      exact expect_other blank (by decide) (by decide) _
    simp only [List.cons_append, List.append_assoc, List.nil_append]
    rw [readValue_object lead, opened _ (members_head inner), ih rest fuel (by omega)]
    rfl
  | lastItem lead value trail ih =>
    rintro rest fuel enough
    obtain ⟨fuel, rfl⟩ := Nat.exists_eq_add_of_le' (by omega : 1 ≤ fuel)
    simp only [List.length_append] at enough
    have read := ih _ (_ ++ ']' :: rest) fuel lead (parted_blank trail (by decide)) (by omega)
    simpa only [List.append_assoc] using readItems_last read trail
  | @nextItem _ _ _ after _ more lead _ trail _ ih ihMore =>
    rintro rest fuel enough
    obtain ⟨fuel, rfl⟩ := Nat.exists_eq_add_of_le' (by omega : 1 ≤ fuel)
    simp only [List.length_append, List.length_cons] at enough
    have read := ih _ (after ++ ',' :: (more ++ ']' :: rest)) fuel lead (parted_blank trail (by decide)) (by omega)
    simpa only [List.append_assoc, List.cons_append] using readItems_next read trail (ihMore rest fuel (by omega))
  | lastMember lead chars gap gap' value trail ih =>
    rintro rest fuel enough
    obtain ⟨fuel, rfl⟩ := Nat.exists_eq_add_of_le' (by omega : 1 ≤ fuel)
    simp only [List.length_append, List.length_cons] at enough
    have read := ih _ (_ ++ '}' :: rest) fuel gap' (parted_blank trail (by decide)) (by omega)
    simpa only [List.append_assoc, List.cons_append] using readMembers_last lead chars gap read trail
  | @nextMember _ _ _ _ _ _ _ after _ more lead chars gap gap' _ trail _ ih ihMore =>
    rintro rest fuel enough
    obtain ⟨fuel, rfl⟩ := Nat.exists_eq_add_of_le' (by omega : 1 ≤ fuel)
    simp only [List.length_append, List.length_cons] at enough
    have read := ih _ (after ++ ',' :: (more ++ '}' :: rest)) fuel gap' (parted_blank trail (by decide)) (by omega)
    simpa only [List.append_assoc, List.cons_append] using
      readMembers_next lead chars gap read trail (ihMore rest fuel (by omega))

theorem parse_text (spells : IsText strict tree text) : parse strict text = some tree := by
  obtain ⟨before, body, after, rfl, lead, value, trail⟩ := spells
  have parted : Parted after := by
    intro c head
    cases after with
    | nil => cases head
    | cons b after =>
      obtain rfl := Option.some.inj head
      simp [parts, trail _ List.mem_cons_self]
  rw [parse, read_of_spells value before after _ lead parted (by simp only [List.length_append]; omega)]
  exact if_pos (List.all_eq_true.mpr trail)

/-- What stands for a character behind a backslash goes in front of the rest of a string. -/
theorem chars_of_readEscape (read : readEscape strict text = some (c, rest)) :
    ∃ front, text = front ++ rest ∧ ∀ more body, Chars strict more body → Chars strict (c :: more)
      ('\\' :: (front ++ body)) := by
  cases text with
  | nil => cases read
  | cons e behind =>
    unfold readEscape at read
    dsimp only at read
    split at read
    · next unicode =>
      subst unicode
      split at read
      · next a b c' d rest' =>
        simp only [Option.bind_eq_bind, Option.bind_eq_some_iff] at read
        obtain ⟨code, digits, read⟩ := read
        split at read
        · next whole =>
          cases read
          exact ⟨['u', a, b, c', d], rfl, fun more body chars => .unicode digits whole chars⟩
        · next halved =>
          simp only [not_or, Bool.not_eq_false] at halved
          split at read
          · next leads =>
            split at read
            · next a' b' c'' d' rest'' =>
              simp only [Option.bind_eq_some_iff] at read
              obtain ⟨low, digits', read⟩ := read
              split at read
              · next trails =>
                obtain ⟨same, rfl⟩ := Prod.mk.inj (Option.some.inj read)
                subst same
                exact ⟨['u', a, b, c', d, '\\', 'u', a', b', c'', d'], rfl, fun more body chars =>
                  .pair halved.1 digits digits' ⟨by omega, leads⟩ trails chars⟩
              · cases read
            · cases read
          · cases read
      · cases read
    · next other =>
      obtain ⟨pair, found, same⟩ := Option.map_eq_some_iff.mp read
      cases same
      have known : (e, pair.2) ∈ escapes := by
        have first := List.find?_some found
        have named : pair.1 = e := by simpa using first
        exact named ▸ List.mem_of_find?_eq_some found
      exact ⟨[e], rfl, fun more body chars => .escape known chars⟩

theorem chars_of_readChars (read : readChars strict turns text = some (chars, rest)) :
    ∃ body, text = body ++ '"' :: rest ∧ Chars strict chars body := by
  induction turns generalizing text chars with
  | zero => cases read
  | succ turns ih =>
    cases text with
    | nil => cases read
    | cons c behind =>
      rw [readChars] at read
      split at read
      · next closes =>
        cases read
        exact ⟨[], by rw [closes]; rfl, .nil⟩
      · next unquoted =>
        split at read
        · next escapes =>
          simp only [Option.bind_eq_bind, Option.bind_eq_some_iff] at read
          obtain ⟨⟨c', behind'⟩, escaped, read⟩ := read
          obtain ⟨⟨more, after⟩, further, same⟩ := Option.map_eq_some_iff.mp read
          cases same
          obtain ⟨front, rfl, spell⟩ := chars_of_readEscape escaped
          obtain ⟨body, rfl, chars⟩ := ih further
          refine ⟨'\\' :: (front ++ body), ?_, spell more body chars⟩
          rw [escapes, List.cons_append, List.append_assoc]
        · next unescaped =>
          split at read
          · cases read
          · next printed =>
            obtain ⟨⟨more, after⟩, further, same⟩ := Option.map_eq_some_iff.mp read
            cases same
            obtain ⟨body, rfl, chars⟩ := ih further
            exact ⟨c :: body, rfl, .plain (Nat.not_lt.mp printed) unquoted unescaped chars⟩

theorem spells_of_readScalar (read : readScalar text = some (tree, rest)) :
    ∃ token, text = token ++ rest ∧ Spells strict (.value tree) token := by
  have whole : text = (text.takeWhile fun c => !parts c) ++ text.dropWhile fun c => !parts c :=
    (List.takeWhile_append_dropWhile).symm
  rw [readScalar] at read
  split at read
  · next word =>
    cases read
    exact ⟨_, whole, word ▸ .null⟩
  · split at read
    · next word =>
      cases read
      exact ⟨_, whole, word ▸ .truth⟩
    · split at read
      · next word =>
        cases read
        exact ⟨_, whole, word ▸ .falsity⟩
      · split at read
        · next number =>
          cases read
          exact ⟨_, whole, .number number⟩
        · cases read

theorem split_of_expect (found : expect c text = some rest) : ∃ gap, text = gap ++ c :: rest ∧ Blank gap := by
  have whole : text = text.takeWhile isBlank ++ text.dropWhile isBlank := (List.takeWhile_append_dropWhile).symm
  rw [expect] at found
  split at found
  · next d behind dropped =>
    split at found
    · next same =>
      cases found
      exact ⟨_, by rw [dropped, same] at whole; exact whole, fun b inside => List.mem_takeWhile_imp inside⟩
    · cases found
  · cases found

/-- What a part of a text that was read is. -/
structure Spelled (strict : Bool) (fuel : Nat) : Prop where
  value : ∀ {text tree rest}, readValue strict fuel text = some (tree, rest) →
    ∃ before body, text = before ++ (body ++ rest) ∧ Blank before ∧ Spells strict (.value tree) body
  items : ∀ {text items rest}, readItems strict fuel text = some (items, rest) →
    ∃ body, text = body ++ ']' :: rest ∧ Spells strict (.items items) body
  members : ∀ {text members rest}, readMembers strict fuel text = some (members, rest) →
    ∃ body, text = body ++ '}' :: rest ∧ Spells strict (.members members) body

theorem Spelled.next_value {tree : Tree} (spelled : Spelled strict fuel)
    (read : readValue strict (fuel + 1) text = some (tree, rest)) :
    ∃ before body, text = before ++ (body ++ rest) ∧ Blank before ∧ Spells strict (.value tree) body := by
  have whole : text = text.takeWhile isBlank ++ text.dropWhile isBlank := (List.takeWhile_append_dropWhile).symm
  have blank : Blank (text.takeWhile isBlank) := fun b inside => List.mem_takeWhile_imp inside
  generalize text.takeWhile isBlank = before at whole blank
  rw [readValue] at read
  generalize text.dropWhile isBlank = behind at whole read
  subst whole
  refine ⟨before, ?_⟩
  cases behind with
  | nil => cases read
  | cons c more =>
    dsimp only at read
    split at read
    · next quotes =>
      obtain ⟨⟨chars, after⟩, string, same⟩ := Option.map_eq_some_iff.mp read
      cases same
      obtain ⟨body, rfl, spelled⟩ := chars_of_readChars string
      exact ⟨'"' :: (body ++ ['"']), by simp [quotes], blank, .string spelled⟩
    · split at read
      · next opens =>
        split at read
        · next closed =>
          cases read
          obtain ⟨gap, rfl, empty⟩ := split_of_expect closed
          exact ⟨'[' :: (gap ++ [']']), by simp [opens], blank, .emptyArray empty⟩
        · obtain ⟨⟨items, after⟩, inner, same⟩ := Option.map_eq_some_iff.mp read
          cases same
          obtain ⟨body, rfl, spells⟩ := spelled.items inner
          exact ⟨'[' :: (body ++ [']']), by simp [opens], blank, .array spells⟩
      · split at read
        · next opens =>
          split at read
          · next closed =>
            cases read
            obtain ⟨gap, rfl, empty⟩ := split_of_expect closed
            exact ⟨'{' :: (gap ++ ['}']), by simp [opens], blank, .emptyObject empty⟩
          · obtain ⟨⟨members, after⟩, inner, same⟩ := Option.map_eq_some_iff.mp read
            cases same
            obtain ⟨body, rfl, spells⟩ := spelled.members inner
            exact ⟨'{' :: (body ++ ['}']), by simp [opens], blank, .object spells⟩
        · obtain ⟨token, same, spells⟩ := spells_of_readScalar read
          exact ⟨token, by rw [same], blank, spells⟩

theorem Spelled.next_items {items : List Tree} (spelled : Spelled strict fuel)
    (read : readItems strict (fuel + 1) text = some (items, rest)) :
    ∃ body, text = body ++ ']' :: rest ∧ Spells strict (.items items) body := by
  rw [readItems] at read
  simp only [Option.bind_eq_bind, Option.bind_eq_some_iff] at read
  obtain ⟨⟨item, behind⟩, value, read⟩ := read
  obtain ⟨before, body, rfl, lead, spells⟩ := spelled.value value
  split at read
  · next more separated =>
    obtain ⟨⟨others, after⟩, inner, same⟩ := Option.map_eq_some_iff.mp read
    cases same
    obtain ⟨gap, rfl, trail⟩ := split_of_expect separated
    obtain ⟨body', rfl, spells'⟩ := spelled.items inner
    exact ⟨_, by simp, .nextItem lead spells trail spells'⟩
  · obtain ⟨after, closed, same⟩ := Option.map_eq_some_iff.mp read
    cases same
    obtain ⟨gap, rfl, trail⟩ := split_of_expect closed
    exact ⟨_, by simp, .lastItem lead spells trail⟩

theorem Spelled.next_members {members : List (List Char × Tree)} (spelled : Spelled strict fuel)
    (read : readMembers strict (fuel + 1) text = some (members, rest)) :
    ∃ body, text = body ++ '}' :: rest ∧ Spells strict (.members members) body := by
  rw [readMembers] at read
  simp only [Option.bind_eq_bind, Option.bind_eq_some_iff] at read
  obtain ⟨opened, quoted, ⟨key, named⟩, string, text', coloned, ⟨value, behind⟩, valued, read⟩ := read
  obtain ⟨before, rfl, lead⟩ := split_of_expect quoted
  obtain ⟨name, rfl, chars⟩ := chars_of_readChars string
  obtain ⟨gap, rfl, blank⟩ := split_of_expect coloned
  obtain ⟨gap', body, rfl, blank', spells⟩ := spelled.value valued
  split at read
  · next more separated =>
    obtain ⟨⟨others, after⟩, inner, same⟩ := Option.map_eq_some_iff.mp read
    cases same
    obtain ⟨gap'', rfl, trail⟩ := split_of_expect separated
    obtain ⟨body', rfl, spells'⟩ := spelled.members inner
    exact ⟨_, by simp, .nextMember lead chars blank blank' spells trail spells'⟩
  · obtain ⟨after, closed, same⟩ := Option.map_eq_some_iff.mp read
    cases same
    obtain ⟨gap'', rfl, trail⟩ := split_of_expect closed
    exact ⟨_, by simp, .lastMember lead chars blank blank' spells trail⟩

theorem spelled_of_read (fuel : Nat) : Spelled strict fuel := by
  induction fuel with
  | zero =>
    refine ⟨fun read => ?_, fun read => ?_, fun read => ?_⟩
    · cases read
    · cases read
    · cases read
  | succ fuel ih => exact ⟨ih.next_value, ih.next_items, ih.next_members⟩

end QueryHive.Library.JsonText
