import QueryHive.Library.Text

/-! JSON texts and the values they spell. A string is its characters with the escapes undone, a number is
its token, and an object is its members in order, repeated names and all. -/
namespace QueryHive.Library.JsonText

inductive Tree where
  | null
  | bool (value : Bool)
  | number (token : List Char)
  | string (text : List Char)
  | array (items : List Tree)
  | object (members : List (List Char × Tree))
  deriving Repr

def isBlank (c : Char) : Bool := c == ' ' || c == '\t' || c == '\n' || c == '\r'

def Blank (text : List Char) : Prop := ∀ c ∈ text, isBlank c = true

def hexValue (c : Char) : Option Nat :=
  if '0' ≤ c ∧ c ≤ '9' then some (c.toNat - 48)
  else if 'a' ≤ c ∧ c ≤ 'f' then some (c.toNat - 87)
  else if 'A' ≤ c ∧ c ≤ 'F' then some (c.toNat - 55)
  else none

/-- The number four hexadecimal digits spell. -/
def hex4 (a b c d : Char) : Option Nat := do
  return (((← hexValue a) * 16 + (← hexValue b)) * 16 + (← hexValue c)) * 16 + (← hexValue d)

/-- The letters that may follow a backslash, besides `u`, and what they mean. -/
def escapes : List (Char × Char) :=
  [('"', '"'), ('\\', '\\'), ('/', '/'), ('b', Char.ofNat 8), ('f', Char.ofNat 12), ('n', '\n'),
    ('r', '\r'), ('t', '\t')]

/-- The character of a surrogate pair. -/
def combined (high low : Nat) : Char := Char.ofNat (0x10000 + (high - 0xD800) * 0x400 + (low - 0xDC00))

/-- The characters of a string, by what stands between its quotation marks. Where strings are not taken strictly any
four digits behind `\u` stand for something, half a pair of surrogates too. -/
inductive Chars (strict : Bool) : List Char → List Char → Prop
  | nil : Chars strict [] []
  | plain (printed : 0x20 ≤ c.toNat) (unquoted : c ≠ '"') (unescaped : c ≠ '\\') (more : Chars strict text body) :
      Chars strict (c :: text) (c :: body)
  | escape (known : (e, c) ∈ escapes) (more : Chars strict text body) : Chars strict (c :: text) ('\\' :: e :: body)
  | unicode (digits : hex4 a b c d = some code) (whole : strict = false ∨ code < 0xD800 ∨ 0xE000 ≤ code)
      (more : Chars strict text body) : Chars strict (Char.ofNat code :: text) ('\\' :: 'u' :: a :: b :: c :: d :: body)
  | pair (paired : strict = true) (first : hex4 a b c d = some high) (second : hex4 a' b' c' d' = some low)
      (leads : 0xD800 ≤ high ∧ high < 0xDC00) (trails : 0xDC00 ≤ low ∧ low < 0xE000) (more : Chars strict text body) :
      Chars strict (combined high low :: text)
        ('\\' :: 'u' :: a :: b :: c :: d :: '\\' :: 'u' :: a' :: b' :: c' :: d' :: body)

def isNumberChar (c : Char) : Bool := c.isDigit || c == '-' || c == '+' || c == '.' || c == 'e' || c == 'E'

def isDigits (text : List Char) : Bool := text ≠ [] && text.all Char.isDigit

/-- Digits before the point: no zero leads others. -/
def isWhole (text : List Char) : Bool := isDigits text && (text == ['0'] || text.head? ≠ some '0')

def isExponent : List Char → Bool
  | [] => true
  | e :: '-' :: digits => (e == 'e' || e == 'E') && isDigits digits
  | e :: '+' :: digits => (e == 'e' || e == 'E') && isDigits digits
  | e :: digits => (e == 'e' || e == 'E') && isDigits digits

/-- What follows the digits before the point. -/
def isFraction : List Char → Bool
  | '.' :: rest => isDigits (rest.takeWhile Char.isDigit) && isExponent (rest.dropWhile Char.isDigit)
  | rest => isExponent rest

def isUnsigned (text : List Char) : Bool :=
  isWhole (text.takeWhile Char.isDigit) && isFraction (text.dropWhile Char.isDigit)

def isNumber (token : List Char) : Bool :=
  token.all isNumberChar &&
    match token with
    | '-' :: rest => isUnsigned rest
    | token => isUnsigned token

inductive Part where
  | value (tree : Tree)
  | items (items : List Tree)
  | members (members : List (List Char × Tree))

inductive Spells (strict : Bool) : Part → List Char → Prop
  | null : Spells strict (.value .null) ['n', 'u', 'l', 'l']
  | truth : Spells strict (.value (.bool true)) ['t', 'r', 'u', 'e']
  | falsity : Spells strict (.value (.bool false)) ['f', 'a', 'l', 's', 'e']
  | number (number : isNumber token = true) : Spells strict (.value (.number token)) token
  | string (chars : Chars strict text body) : Spells strict (.value (.string text)) ('"' :: (body ++ ['"']))
  | emptyArray (blank : Blank gap) : Spells strict (.value (.array [])) ('[' :: (gap ++ [']']))
  | array (inner : Spells strict (.items items) body) : Spells strict (.value (.array items)) ('[' :: (body ++ [']']))
  | emptyObject (blank : Blank gap) : Spells strict (.value (.object [])) ('{' :: (gap ++ ['}']))
  | object (inner : Spells strict (.members members) body) :
    Spells strict (.value (.object members)) ('{' :: (body ++ ['}']))
  | lastItem (lead : Blank before) (value : Spells strict (.value tree) text) (trail : Blank after) :
      Spells strict (.items [tree]) (before ++ (text ++ after))
  | nextItem (lead : Blank before) (value : Spells strict (.value tree) text) (trail : Blank after)
      (more : Spells strict (.items items) rest) :
      Spells strict (.items (tree :: items)) (before ++ (text ++ (after ++ ',' :: rest)))
  | lastMember (lead : Blank before) (chars : Chars strict key body) (gap : Blank beforeColon) (gap' : Blank afterColon)
      (value : Spells strict (.value tree) text) (trail : Blank after) :
      Spells strict (.members [(key, tree)])
        (before ++ '"' :: (body ++ '"' :: (beforeColon ++ ':' :: (afterColon ++ (text ++ after)))))
  | nextMember (lead : Blank before) (chars : Chars strict key body) (gap : Blank beforeColon) (gap' : Blank afterColon)
      (value : Spells strict (.value tree) text) (trail : Blank after) (more : Spells strict (.members members) rest) :
      Spells strict (.members ((key, tree) :: members))
        (before ++ '"' :: (body ++ '"' :: (beforeColon ++ ':' :: (afterColon ++ (text ++ (after ++ ',' :: rest))))))

/-- One value with blanks around it. -/
def IsText (strict : Bool) (tree : Tree) (text : List Char) : Prop :=
  ∃ before body after, text = before ++ (body ++ after) ∧ Blank before ∧ Spells strict (.value tree) body ∧ Blank after

mutual

/-- How deep arrays and objects stand in one another. -/
def Tree.depth : Tree → Nat
  | .array items => itemsDepth items + 1
  | .object members => membersDepth members + 1
  | .null | .bool _ | .number _ | .string _ => 0

def itemsDepth : List Tree → Nat
  | [] => 0
  | item :: rest => max item.depth (itemsDepth rest)

def membersDepth : List (List Char × Tree) → Nat
  | [] => 0
  | (_, value) :: rest => max value.depth (membersDepth rest)

end

def Part.depth : Part → Nat
  | .value tree => tree.depth
  | .items inner => itemsDepth inner
  | .members inner => membersDepth inner

/-- A string is one when it is not taken strictly as well, of other characters where it has pairs. -/
theorem Chars.loose (chars : Chars strict text body) : ∃ text', Chars false text' body := by
  induction chars with
  | nil => exact ⟨[], .nil⟩
  | plain printed unquoted unescaped _ ih =>
    obtain ⟨text', loose⟩ := ih
    exact ⟨_, .plain printed unquoted unescaped loose⟩
  | escape known _ ih =>
    obtain ⟨text', loose⟩ := ih
    exact ⟨_, .escape known loose⟩
  | unicode digits _ _ ih =>
    obtain ⟨text', loose⟩ := ih
    exact ⟨_, .unicode digits (.inl rfl) loose⟩
  | pair _ first second _ _ _ ih =>
    obtain ⟨text', loose⟩ := ih
    exact ⟨_, .unicode first (.inl rfl) (.unicode second (.inl rfl) loose)⟩

/-- The text is one of a part as deep as this when it is not taken strictly. -/
def Loosened : Part → List Char → Prop
  | .value tree, text => ∃ tree', tree'.depth = tree.depth ∧ Spells false (.value tree') text
  | .items items, text => ∃ items', itemsDepth items' = itemsDepth items ∧ Spells false (.items items') text
  | .members members, text =>
    ∃ members', membersDepth members' = membersDepth members ∧ Spells false (.members members') text

theorem loosened (spells : Spells strict part text) : Loosened part text := by
  induction spells with
  | null => exact ⟨_, rfl, .null⟩
  | truth => exact ⟨_, rfl, .truth⟩
  | falsity => exact ⟨_, rfl, .falsity⟩
  | number number => exact ⟨_, rfl, .number number⟩
  | string chars =>
    obtain ⟨text', loose⟩ := chars.loose
    exact ⟨.string text', rfl, .string loose⟩
  | emptyArray blank => exact ⟨_, rfl, .emptyArray blank⟩
  | array _ ih =>
    obtain ⟨items, deep, loose⟩ := ih
    exact ⟨.array items, congrArg (· + 1) deep, .array loose⟩
  | emptyObject blank => exact ⟨_, rfl, .emptyObject blank⟩
  | object _ ih =>
    obtain ⟨members, deep, loose⟩ := ih
    exact ⟨.object members, congrArg (· + 1) deep, .object loose⟩
  | lastItem lead _ trail ih =>
    obtain ⟨tree, deep, loose⟩ := ih
    exact ⟨[tree], congrArg (max · 0) deep, .lastItem lead loose trail⟩
  | nextItem lead _ trail _ ih ihMore =>
    obtain ⟨tree, deep, loose⟩ := ih
    obtain ⟨items, deep', more⟩ := ihMore
    exact ⟨tree :: items, congrArg₂ max deep deep', .nextItem lead loose trail more⟩
  | lastMember lead chars gap gap' _ trail ih =>
    obtain ⟨key, named⟩ := chars.loose
    obtain ⟨tree, deep, loose⟩ := ih
    exact ⟨[(key, tree)], congrArg (max · 0) deep, .lastMember lead named gap gap' loose trail⟩
  | nextMember lead chars gap gap' _ trail _ ih ihMore =>
    obtain ⟨key, named⟩ := chars.loose
    obtain ⟨tree, deep, loose⟩ := ih
    obtain ⟨members, deep', more⟩ := ihMore
    exact ⟨(key, tree) :: members, congrArg₂ max deep deep', .nextMember lead named gap gap' loose trail more⟩

def parts (c : Char) : Bool := isBlank c || c == ',' || c == ':' || c == ']' || c == '}'

theorem not_blank_of_parts (other : parts c = false) : isBlank c = false := by
  simp only [parts, Bool.or_eq_false_iff] at other
  exact other.1.1.1.1

/-- What is left of blanks in front of other text. -/
theorem dropWhile_blank (blank : Blank gap) (other : ∀ c, rest.head? = some c → isBlank c = false) :
    (gap ++ rest).dropWhile isBlank = rest := by
  rw [List.dropWhile_append_of_pos blank]
  cases rest with
  | nil => rfl
  | cons c rest => exact List.dropWhile_cons_of_neg (by simp [other c rfl])

theorem numberChar_parts (number : isNumberChar c = true) : parts c = false := by
  have cases : c.isDigit = true ∨ c = '-' ∨ c = '+' ∨ c = '.' ∨ c = 'e' ∨ c = 'E' := by
    simpa [isNumberChar, or_assoc] using number
  rcases cases with digit | rfl | rfl | rfl | rfl | rfl
  · by_contra parted
    have which : ((((((c = ' ' ∨ c = '\t') ∨ c = '\n') ∨ c = '\r') ∨ c = ',') ∨ c = ':') ∨ c = ']') ∨ c = '}' := by
      simpa only [parts, isBlank, Bool.or_eq_true, beq_iff_eq, Bool.not_eq_false] using parted
    rcases which with ((((((rfl | rfl) | rfl) | rfl) | rfl) | rfl) | rfl) | rfl <;> exact absurd digit (by decide)
  all_goals decide

theorem number_parts (number : isNumber token = true) : ∀ c ∈ token, parts c = false :=
  fun c mem => numberChar_parts (List.all_eq_true.mp (Bool.and_eq_true_iff.mp number).1 c mem)

theorem unsigned_head (number : isUnsigned text = true) : ∃ c rest, text = c :: rest ∧ c.isDigit = true := by
  cases text with
  | nil => cases number
  | cons c rest =>
    refine ⟨c, rest, rfl, ?_⟩
    by_contra other
    rw [isUnsigned, List.takeWhile_cons_of_neg other] at number
    cases number

theorem number_head (number : isNumber token = true) : ∃ c rest, token = c :: rest ∧ (c.isDigit = true ∨ c = '-') := by
  have unsigned := (Bool.and_eq_true_iff.mp number).2
  split at unsigned
  · exact ⟨_, _, rfl, .inr rfl⟩
  · obtain ⟨c, rest, same, digit⟩ := unsigned_head unsigned
    exact ⟨c, rest, same, .inl digit⟩

theorem spells_head (spells : Spells strict (.value tree) text) : ∃ c rest, text = c :: rest ∧ parts c = false := by
  cases spells with
  | number number =>
    obtain ⟨c, rest, same, _⟩ := number_head number
    exact ⟨c, rest, same, number_parts number c (same ▸ List.mem_cons_self)⟩
  | _ => exact ⟨_, _, rfl, by decide⟩

end QueryHive.Library.JsonText
