import QueryHive.Library.Text

/-! PostgreSQL's text input: the lines and fields of `COPY`, and the literals of arrays of one dimension
with the default lower bound. -/
namespace QueryHive.Library.CopyText

def backslash : UInt8 := 92
def tab : UInt8 := 9
def lineFeed : UInt8 := 10
def carriageReturn : UInt8 := 13
def dot : UInt8 := 46

def nullMark : List UInt8 := [backslash, 78]

/-- The first line and what follows it, behind a backslash or not. A byte behind a backslash ends no line; a
carriage return is refused, and so is the mark of the end of the data. -/
def readLineFrom : Bool → List UInt8 → Option (List UInt8 × List UInt8)
  | _, [] => none
  | true, b :: rest => if b = dot then none else (readLineFrom false rest).map fun (line, after) => (b :: line, after)
  | false, b :: rest =>
    if b = lineFeed then some ([], rest)
    else if b = carriageReturn then none
    else (readLineFrom (b == backslash) rest).map fun (line, after) => (b :: line, after)

def readLine (text : List UInt8) : Option (List UInt8 × List UInt8) := readLineFrom false text

/-- A byte in front of the first field. -/
def lead (b : UInt8) : List (List UInt8) → List (List UInt8)
  | [] => [[b]]
  | field :: fields => (b :: field) :: fields

def splitFrom : Bool → List UInt8 → List (List UInt8)
  | _, [] => [[]]
  | true, b :: rest => lead b (splitFrom false rest)
  | false, b :: rest => if b = tab then [] :: splitFrom false rest else lead b (splitFrom (b == backslash) rest)

/-- The fields of a line as they are written: a tab behind a backslash parts nothing. -/
def splitFields (line : List UInt8) : List (List UInt8) := splitFrom false line

def isOctal (b : UInt8) : Bool := 48 ≤ b && b ≤ 55

def hexValue (b : UInt8) : Option UInt8 :=
  if 48 ≤ b ∧ b ≤ 57 then some (b - 48)
  else if 97 ≤ b ∧ b ≤ 102 then some (b - 87)
  else if 65 ≤ b ∧ b ≤ 70 then some (b - 55)
  else none

/-- What a backslash and the bytes behind it mean, and what follows. -/
def escaped (b : UInt8) (rest : List UInt8) : UInt8 × List UInt8 :=
  if isOctal b then
    let digits := (b :: rest).takeWhile isOctal |>.take 3
    (digits.foldl (fun value digit => value * 8 + (digit - 48)) 0, (b :: rest).drop digits.length)
  else if b = 120 then
    match rest.head?.bind hexValue with
    | none => (b, rest)
    | some high =>
      match (rest.drop 1).head?.bind hexValue with
      | none => (high, rest.drop 1)
      | some low => (high * 16 + low, rest.drop 2)
  else if b = 98 then (8, rest)
  else if b = 102 then (12, rest)
  else if b = 110 then (lineFeed, rest)
  else if b = 114 then (carriageReturn, rest)
  else if b = 116 then (tab, rest)
  else if b = 118 then (11, rest)
  else (b, rest)

/-- A field with its escapes undone, for so many bytes of it. A backslash at its end means nothing. -/
def unescapeFrom : Nat → List UInt8 → List UInt8
  | 0, _ => []
  | _ + 1, [] => []
  | turns + 1, b :: rest =>
    if b = backslash then
      match rest with
      | [] => []
      | c :: rest => (escaped c rest).1 :: unescapeFrom turns (escaped c rest).2
    else b :: unescapeFrom turns rest

def unescape (field : List UInt8) : List UInt8 := unescapeFrom field.length field

def readFields (columns : Nat) (line : List UInt8) : Option (List (Option (List UInt8))) :=
  if columns = 0 then if line = [] then some [] else none
  else
    let fields := splitFields line
    if fields.length = columns then
      some (fields.map fun field => if field = nullMark then none else some (unescape field))
    else none

/-- A field whose backslashes each stand before another byte, and that ends no line and no field. -/
inductive Whole : List UInt8 → Prop
  | nil : Whole []
  | plain (clear : b ≠ backslash ∧ b ≠ tab ∧ b ≠ lineFeed ∧ b ≠ carriageReturn) (more : Whole rest) : Whole (b :: rest)
  | pair (clear : b ≠ dot ∧ b ≠ tab ∧ b ≠ lineFeed ∧ b ≠ carriageReturn) (more : Whole rest) :
      Whole (backslash :: b :: rest)

theorem Whole.append (first : Whole front) (second : Whole rest) : Whole (front ++ rest) := by
  induction first with
  | nil => exact second
  | plain clear _ ih => exact .plain clear ih
  | pair clear _ ih => exact .pair clear ih

theorem Whole.clear (field : Whole front) : lineFeed ∉ front ∧ carriageReturn ∉ front := by
  induction field with
  | nil => exact ⟨List.not_mem_nil, List.not_mem_nil⟩
  | plain clear _ ih => simp [ih, clear.2.2.1.symm, clear.2.2.2.symm]
  | pair clear _ ih =>
    have feed : lineFeed ≠ backslash := by decide
    have back : carriageReturn ≠ backslash := by decide
    simp [ih, clear.2.2.1.symm, clear.2.2.2.symm, feed, back]

theorem readLineFrom_whole (field : Whole front) (read : readLineFrom false rest = some (line, after)) :
    readLineFrom false (front ++ rest) = some (front ++ line, after) := by
  induction field with
  | nil => exact read
  | plain clear _ ih =>
    rw [List.cons_append, readLineFrom, if_neg clear.2.2.1, if_neg clear.2.2.2, beq_eq_false_iff_ne.mpr clear.1, ih]
    rfl
  | pair clear _ ih =>
    rw [List.cons_append, List.cons_append, readLineFrom, if_neg (by decide), if_neg (by decide), beq_self_eq_true,
      readLineFrom, if_neg clear.1, ih]
    rfl

theorem splitFrom_whole (field : Whole front) (split : splitFrom false rest = first :: fields) :
    splitFrom false (front ++ rest) = (front ++ first) :: fields := by
  induction field with
  | nil => exact split
  | plain clear _ ih =>
    rw [List.cons_append, splitFrom, if_neg clear.2.1, beq_eq_false_iff_ne.mpr clear.1, ih]
    rfl
  | pair clear _ ih =>
    rw [List.cons_append, List.cons_append, splitFrom, if_neg (by decide), beq_self_eq_true, splitFrom, ih]
    rfl

def joined (fields : List (List UInt8)) : List UInt8 := [tab].intercalate fields

theorem joined_singleton (field : List UInt8) : joined [field] = field := List.intercalate_singleton

theorem joined_cons (filled : fields ≠ []) : joined (field :: fields) = field ++ tab :: joined fields := by
  rw [joined, List.intercalate_cons_of_ne_nil filled, List.append_assoc, List.singleton_append]
  rfl

theorem joined_eq (first : List UInt8) (fields : List (List UInt8)) :
    joined (first :: fields) = first ++ fields.flatMap (tab :: ·) := by
  induction fields generalizing first with
  | nil => rw [joined_singleton, List.flatMap_nil, List.append_nil]
  | cons field fields ih => rw [joined_cons (by simp), ih, List.flatMap_cons, List.cons_append]

theorem readLine_joined (whole : ∀ field ∈ fields, Whole field) (rest : List UInt8) :
    readLine (joined fields ++ lineFeed :: rest) = some (joined fields, rest) := by
  induction fields with
  | nil => rfl
  | cons field fields ih =>
    have later := ih fun other mem => whole other (List.mem_cons_of_mem _ mem)
    have ended : readLineFrom false (lineFeed :: rest) = some ([], rest) := rfl
    by_cases filled : fields = []
    · subst filled
      have read := readLineFrom_whole (whole field List.mem_cons_self) ended
      rwa [List.append_nil, ← joined_singleton field] at read
    · have behind : readLineFrom false (tab :: (joined fields ++ lineFeed :: rest)) =
        some (tab :: joined fields, rest) := by
        rw [readLineFrom, if_neg (by decide), if_neg (by decide), show (tab == backslash) = false by decide,
          ← readLine, later]
        rfl
      rw [joined_cons filled, List.append_assoc, List.cons_append]
      exact readLineFrom_whole (whole field List.mem_cons_self) behind

theorem splitFields_joined (filled : fields ≠ []) (whole : ∀ field ∈ fields, Whole field) :
    splitFields (joined fields) = fields := by
  induction fields with
  | nil => exact absurd rfl filled
  | cons field fields ih =>
    by_cases last : fields = []
    · subst last
      have split := splitFrom_whole (whole field List.mem_cons_self) (rfl : splitFrom false [] = [[]])
      rw [List.append_nil] at split
      rwa [joined_singleton]
    · have later := ih last fun other mem => whole other (List.mem_cons_of_mem _ mem)
      have behind : splitFrom false (tab :: joined fields) = [] :: fields := by
        rw [splitFrom, if_pos rfl, ← splitFields, later]
      rw [joined_cons last, splitFields, splitFrom_whole (whole field List.mem_cons_self) behind, List.append_nil]

theorem joined_clear (whole : ∀ field ∈ fields, Whole field) : lineFeed ∉ joined fields := by
  induction fields with
  | nil => exact List.not_mem_nil
  | cons field fields ih =>
    have later := ih fun other mem => whole other (List.mem_cons_of_mem _ mem)
    have first := (whole field List.mem_cons_self).clear.1
    by_cases last : fields = []
    · subst last
      rwa [joined_singleton]
    · have parted : lineFeed ≠ tab := by decide
      simp [joined_cons last, first, later, parted]

def escapeByte (b : UInt8) : List UInt8 :=
  if b = backslash then [backslash, backslash]
  else if b = lineFeed then [backslash, 110]
  else if b = carriageReturn then [backslash, 114]
  else if b = tab then [backslash, 116]
  else [b]

def escape (bytes : List UInt8) : List UInt8 := bytes.flatMap escapeByte

/-- A byte is written as it is, or as a backslash and a letter that means it. -/
theorem escapeByte_eq (b : UInt8) :
    (escapeByte b = [b] ∧ b ≠ backslash ∧ b ≠ tab ∧ b ≠ lineFeed ∧ b ≠ carriageReturn) ∨
      ∃ c, escapeByte b = [backslash, c] ∧ (∀ rest, escaped c rest = (b, rest)) ∧
        c ∈ [backslash, 110, 114, 116] := by
  unfold escapeByte
  split
  · next same =>
    subst same
    exact .inr ⟨backslash, rfl, fun _ => rfl, by decide⟩
  split
  · next same =>
    subst same
    exact .inr ⟨110, rfl, fun _ => rfl, by decide⟩
  split
  · next same =>
    subst same
    exact .inr ⟨114, rfl, fun _ => rfl, by decide⟩
  split
  · next same =>
    subst same
    exact .inr ⟨116, rfl, fun _ => rfl, by decide⟩
  · exact .inl ⟨rfl, by assumption, by assumption, by assumption, by assumption⟩

theorem whole_escape (bytes : List UInt8) : Whole (escape bytes) := by
  induction bytes with
  | nil => exact .nil
  | cons b bytes ih =>
    refine Whole.append ?_ ih
    rcases escapeByte_eq b with ⟨same, clear⟩ | ⟨c, shape, _, letter⟩
    · rw [same]
      exact .plain clear .nil
    · rw [shape]
      have letters : ∀ c ∈ [backslash, 110, 114, 116], c ≠ dot ∧ c ≠ tab ∧ c ≠ lineFeed ∧ c ≠ carriageReturn := by
        simp [backslash, dot, tab, lineFeed, carriageReturn]
      exact .pair (letters c letter) .nil

theorem unescapeFrom_escape (bytes : List UInt8) (enough : bytes.length ≤ turns) :
    unescapeFrom turns (escape bytes) = bytes := by
  induction bytes generalizing turns with
  | nil => cases turns <;> rfl
  | cons b bytes ih =>
    rw [List.length_cons] at enough
    obtain ⟨turns, rfl⟩ := Nat.exists_eq_add_of_le' (by omega : 1 ≤ turns)
    have later := ih (by omega : bytes.length ≤ turns)
    rw [escape, List.flatMap_cons, ← escape]
    rcases escapeByte_eq b with ⟨same, clear, _⟩ | ⟨c, shape, means, _⟩
    · have turn : unescapeFrom (turns + 1) (b :: escape bytes) = b :: unescapeFrom turns (escape bytes) := if_neg clear
      rw [same, List.singleton_append, turn, later]
    · have turn : unescapeFrom (turns + 1) (backslash :: c :: escape bytes) =
          (escaped c (escape bytes)).1 :: unescapeFrom turns (escaped c (escape bytes)).2 := rfl
      rw [shape, List.cons_append, List.singleton_append, turn, means, later]

theorem unescape_escape (bytes : List UInt8) : unescape (escape bytes) = bytes := by
  refine unescapeFrom_escape bytes ?_
  induction bytes with
  | nil => exact Nat.le_refl _
  | cons b bytes ih =>
    have one : 1 ≤ (escapeByte b).length := by
      rcases escapeByte_eq b with ⟨same, _⟩ | ⟨c, shape, _⟩
      · rw [same]
        exact Nat.le_refl 1
      · rw [shape]
        exact Nat.le_add_left 1 1
    rw [escape, List.flatMap_cons, ← escape, List.length_append, List.length_cons]
    omega

theorem escape_ne_nullMark (bytes : List UInt8) : escape bytes ≠ nullMark := by
  intro same
  cases bytes with
  | nil => cases same
  | cons b bytes =>
    rw [escape, List.flatMap_cons, nullMark] at same
    rcases escapeByte_eq b with ⟨plain, clear, _⟩ | ⟨c, shape, _, letter⟩
    · rw [plain] at same
      exact clear (List.cons.inj same).1
    · rw [shape] at same
      have other : c = 78 := (List.cons.inj (List.cons.inj same).2).1
      rw [other] at letter
      exact absurd letter (by decide)

/-- A field for a value: the spelling of NULL, or its escaped bytes. -/
def field : Option (List UInt8) → List UInt8
  | none => nullMark
  | some bytes => escape bytes

theorem whole_field (value : Option (List UInt8)) : Whole (field value) := by
  cases value with
  | none => exact .pair (by decide) .nil
  | some bytes => exact whole_escape bytes

theorem readFields_fields (values : List (Option (List UInt8))) :
    readFields values.length (joined (values.map field)) = some values := by
  by_cases filled : values = []
  · subst filled
    rfl
  · have whole : ∀ raw ∈ values.map field, Whole raw := by
      simp only [List.mem_map, forall_exists_index, and_imp]
      rintro _ value _ rfl
      exact whole_field value
    have split := splitFields_joined (by simpa using filled) whole
    rw [readFields, if_neg (by simpa using filled)]
    dsimp only
    rw [split, if_pos (List.length_map _), List.map_map]
    refine congrArg some ((List.map_congr_left fun value _ => ?_).trans (List.map_id _))
    cases value with
    | none => rfl
    | some bytes => simp [field, escape_ne_nullMark, unescape_escape]

def isArraySpace (c : Char) : Bool :=
  c == ' ' || c == '\t' || c == '\n' || c == '\r' || c.toNat == 11 || c.toNat == 12

def skipArraySpace (text : List Char) : List Char := text.dropWhile isArraySpace

/-- An element in quotes, behind the opening one and behind a backslash or not. -/
def readQuoted : Bool → List Char → Option (List Char × List Char)
  | _, [] => none
  | true, c :: rest => (readQuoted false rest).map fun (text, after) => (c :: text, after)
  | false, c :: rest =>
    if c = '"' then some ([], rest)
    else if c = '\\' then readQuoted true rest
    else (readQuoted false rest).map fun (text, after) => (c :: text, after)

/-- An element without quotes, as its characters and whether each was escaped. -/
def readBare (delimiter : Char) : Bool → List Char → Option (List (Char × Bool) × List Char)
  | _, [] => none
  | true, c :: rest => (readBare delimiter false rest).map fun (text, after) => ((c, true) :: text, after)
  | false, c :: rest =>
    if c = delimiter ∨ c = '}' then some ([], c :: rest)
    else if c = '{' ∨ c = '"' then none
    else if c = '\\' then readBare delimiter true rest
    else (readBare delimiter false rest).map fun (text, after) => ((c, false) :: text, after)

/-- The value of such an element: NULL in any case is none, and blanks behind it are not part of it. -/
def bareValue (chars : List (Char × Bool)) : Option (Option (List Char)) :=
  let kept := chars.rdropWhile fun c => isArraySpace c.1 && !c.2
  if kept = [] then none
  else if kept.all (!·.2) && kept.map (·.1.toUpper) == ['N', 'U', 'L', 'L'] then some none
  else some (some (kept.map Prod.fst))

def readElement (delimiter : Char) (text : List Char) : Option (Option (List Char) × List Char) :=
  match skipArraySpace text with
  | [] => none
  | c :: rest =>
    if c = '"' then (readQuoted false rest).map fun (text, after) => (some text, skipArraySpace after)
    else do
      let (chars, after) ← readBare delimiter false (c :: rest)
      return (← bareValue chars, after)

/-- Elements up to the closing brace, for so many of them. -/
def readElements (delimiter : Char) : Nat → List Char → Option (List (Option (List Char)) × List Char)
  | 0, _ => none
  | turns + 1, text => do
    let (element, after) ← readElement delimiter text
    match after with
    | [] => none
    | c :: rest =>
      if c = '}' then some ([element], rest)
      else if c = delimiter then (readElements delimiter turns rest).map fun (elements, after) =>
        (element :: elements, after)
      else none

/-- The elements of a literal; none is NULL. -/
def readArray (delimiter : Char) (text : List Char) : Option (List (Option (List Char))) :=
  match skipArraySpace text with
  | '{' :: rest => do
    let (elements, after) ←
      if (skipArraySpace rest).head? = some '}' then some ([], (skipArraySpace rest).drop 1)
      else readElements delimiter rest.length rest
    if after.all isArraySpace then some elements else none
  | _ => none

/-- A character in an element in quotes. -/
def quoteChar (c : Char) : List Char := if c = '"' ∨ c = '\\' then ['\\', c] else [c]

/-- An element as it is written: NULL, or its text in quotes. -/
def element : Option (List Char) → List Char
  | none => ['N', 'U', 'L', 'L']
  | some text => '"' :: (text.flatMap quoteChar ++ ['"'])

theorem readQuoted_text (text rest : List Char) :
    readQuoted false (text.flatMap quoteChar ++ '"' :: rest) = some (text, rest) := by
  induction text with
  | nil => rfl
  | cons c text ih =>
    rw [List.flatMap_cons, List.append_assoc, quoteChar]
    split
    · rw [List.cons_append, List.singleton_append, readQuoted, if_neg (by decide), if_pos rfl, readQuoted, ih]
      rfl
    · next plain =>
      rw [List.singleton_append, readQuoted, if_neg fun same => plain (.inl same),
        if_neg fun same => plain (.inr same), ih]
      rfl

theorem readElement_element (value : Option (List Char)) (ends : c = ',' ∨ c = '}') (rest : List Char) :
    readElement ',' (element value ++ c :: rest) = some (value, c :: rest) := by
  cases value with
  | none => rcases ends with rfl | rfl <;> rfl
  | some text =>
    have read := readQuoted_text text (c :: rest)
    have visible : skipArraySpace (c :: rest) = c :: rest := by rcases ends with rfl | rfl <;> rfl
    have step : readElement ',' (element (some text) ++ c :: rest) =
        (readQuoted false (text.flatMap quoteChar ++ '"' :: c :: rest)).map
          fun (text, after) => (some text, skipArraySpace after) := by
      simp [readElement, element, skipArraySpace, isArraySpace]
    rw [step, read, Option.map_some]
    exact congrArg (fun after => some (some text, after)) visible

def elementsText (values : List (Option (List Char))) : List Char := [','].intercalate (values.map element)

theorem readElements_elements (filled : values ≠ []) (enough : values.length ≤ turns) (rest : List Char) :
    readElements ',' turns (elementsText values ++ '}' :: rest) = some (values, rest) := by
  induction values generalizing turns with
  | nil => exact absurd rfl filled
  | cons value values ih =>
    rw [List.length_cons] at enough
    obtain ⟨turns, rfl⟩ := Nat.exists_eq_add_of_le' (by omega : 1 ≤ turns)
    by_cases last : values = []
    · subst last
      rw [elementsText, List.map_singleton, List.intercalate_singleton, readElements,
        readElement_element value (.inr rfl)]
      rfl
    · have later := ih last (by omega : values.length ≤ turns)
      have text : elementsText (value :: values) ++ '}' :: rest =
          element value ++ ',' :: (elementsText values ++ '}' :: rest) := by
        simp [elementsText, List.intercalate_cons_of_ne_nil (by simpa using last : values.map element ≠ [])]
      have turn : readElements ',' (turns + 1) (element value ++ ',' :: (elementsText values ++ '}' :: rest)) =
          (readElements ',' turns (elementsText values ++ '}' :: rest)).map
            fun (elements, after) => (value :: elements, after) := by
        rw [readElements, readElement_element value (.inl rfl)]
        rfl
      rw [text, turn, later]
      rfl

theorem elementsText_eq (value : Option (List Char)) (values : List (Option (List Char))) :
    elementsText (value :: values) = element value ++ values.flatMap fun value => ',' :: element value := by
  induction values generalizing value with
  | nil => simp [elementsText]
  | cons next values ih =>
    rw [List.flatMap_cons, List.cons_append, ← ih next]
    simp [elementsText, List.intercalate_cons_of_ne_nil]

theorem elementsText_cons (value : Option (List Char)) (values : List (Option (List Char))) :
    ∃ behind, elementsText (value :: values) = element value ++ behind ∧ values.length ≤ behind.length := by
  induction values generalizing value with
  | nil => exact ⟨[], by simp [elementsText], Nat.le_refl 0⟩
  | cons next values ih =>
    obtain ⟨behind, text, long⟩ := ih next
    refine ⟨',' :: elementsText (next :: values), ?_, ?_⟩
    · simp [elementsText, List.intercalate_cons_of_ne_nil]
    · rw [text, List.length_cons, List.length_cons, List.length_append]
      omega

theorem readArray_elements (values : List (Option (List Char))) :
    readArray ',' ('{' :: (elementsText values ++ ['}'])) = some values := by
  cases values with
  | nil => rfl
  | cons value values =>
    obtain ⟨behind, text, long⟩ := elementsText_cons value values
    have begins : ∃ c rest, element value = c :: rest ∧ isArraySpace c = false ∧ c ≠ '}' := by
      cases value with
      | none => exact ⟨_, _, rfl, rfl, by decide⟩
      | some text => exact ⟨_, _, rfl, rfl, by decide⟩
    obtain ⟨c, rest, first, visible, other⟩ := begins
    have skipped : skipArraySpace (elementsText (value :: values) ++ ['}']) =
      elementsText (value :: values) ++ ['}'] := by
      rw [text, first]
      exact List.dropWhile_cons_of_neg (by simp [visible])
    have notClosed : (skipArraySpace (elementsText (value :: values) ++ ['}'])).head? ≠ some '}' := by
      rw [skipped, text, first]
      exact fun same => other (Option.some.inj same)
    have enough : (value :: values).length ≤ (elementsText (value :: values) ++ ['}']).length := by
      simp only [text, first, List.length_append, List.length_cons, List.length_nil]
      omega
    have step : readArray ',' ('{' :: (elementsText (value :: values) ++ ['}'])) =
        (readElements ',' (elementsText (value :: values) ++ ['}']).length
        (elementsText (value :: values) ++ ['}'])).bind
          fun (elements, after) => if after.all isArraySpace then some elements else none := by
      unfold readArray
      rw [show skipArraySpace ('{' :: (elementsText (value :: values) ++ ['}'])) =
        '{' :: (elementsText (value :: values) ++ ['}']) from rfl]
      exact if_neg notClosed
    rw [step, readElements_elements (by simp) enough]
    rfl

end QueryHive.Library.CopyText
