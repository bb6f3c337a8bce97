import Mathlib.Data.List.TakeWhile

/-! The grammar of JSON texts in UTF-8, as relations between the bytes before a part and
the bytes after it. Which byte opens a member's name is a parameter, so that the grammar
also describes readers that are lenient there; in JSON itself it is the quotation mark. -/
namespace QueryHive.Library.Json

/-- The bytes of the grammar's own characters. -/
def quote : UInt8 := 0x22
def backslash : UInt8 := 0x5C
def comma : UInt8 := 0x2C
def colon : UInt8 := 0x3A
def openBracket : UInt8 := 0x5B
def closeBracket : UInt8 := 0x5D
def openBrace : UInt8 := 0x7B
def closeBrace : UInt8 := 0x7D
def minus : UInt8 := 0x2D
def plus : UInt8 := 0x2B
def point : UInt8 := 0x2E
def zero : UInt8 := 0x30

def isWs (b : UInt8) : Bool := b = 0x20 || b = 0x09 || b = 0x0A || b = 0x0D

def isDigit (b : UInt8) : Bool := 0x30 ≤ b && b ≤ 0x39

def isHexDigit (b : UInt8) : Bool := isDigit b || (0x41 ≤ b && b ≤ 0x46) || (0x61 ≤ b && b ≤ 0x66)

def isExponent (b : UInt8) : Bool := b = 0x65 || b = 0x45

/-- What may follow a backslash, apart from `u`: the characters `"`, `\`, `/`, `b`, `f`, `n`, `r` and `t`. -/
def isEscape (b : UInt8) : Bool := [0x22, 0x5C, 0x2F, 0x62, 0x66, 0x6E, 0x72, 0x74].contains b

/-- The letter `u`. -/
def letterU : UInt8 := 0x75

def literals : List (List UInt8) :=
  [[0x74, 0x72, 0x75, 0x65], [0x66, 0x61, 0x6C, 0x73, 0x65], [0x6E, 0x75, 0x6C, 0x6C]]

/-- White space, as much as there is or less. -/
def Ws (before after : List UInt8) : Prop := ∃ blanks, before = blanks ++ after ∧ ∀ b ∈ blanks, isWs b

/-- Any number of digits. -/
def Digits (before after : List UInt8) : Prop := ∃ digits, before = digits ++ after ∧ ∀ b ∈ digits, isDigit b

def Digits1 (before after : List UInt8) : Prop :=
  ∃ digit rest, before = digit :: rest ∧ isDigit digit ∧ Digits rest after

/-- A zero, or digits that begin with another one. -/
def Whole (before after : List UInt8) : Prop :=
  before = zero :: after ∨ ∃ digit rest, before = digit :: rest ∧ isDigit digit ∧ digit ≠ zero ∧ Digits rest after

def Fraction (before after : List UInt8) : Prop := before = after ∨ ∃ rest, before = point :: rest ∧ Digits1 rest after

/-- An `e`, a sign or none, and digits; or nothing. -/
def Exponent (before after : List UInt8) : Prop :=
  before = after ∨ ∃ e rest, before = e :: rest ∧ isExponent e ∧
    (Digits1 rest after ∨ ∃ sign digits, rest = sign :: digits ∧ (sign = plus ∨ sign = minus) ∧ Digits1 digits after)

def Unsigned (before after : List UInt8) : Prop :=
  ∃ whole fraction, Whole before whole ∧ Fraction whole fraction ∧ Exponent fraction after

def Number (before after : List UInt8) : Prop :=
  Unsigned before after ∨ ∃ rest, before = minus :: rest ∧ Unsigned rest after

/-- The characters of a string and the closing quotation mark. A byte from 128 on belongs to
a character beyond ASCII. -/
inductive StringEnd : List UInt8 → List UInt8 → Prop
  | close : StringEnd (quote :: after) after
  | plain (printed : 0x20 ≤ b) (unquoted : b ≠ quote) (unescaped : b ≠ backslash) (rest : StringEnd before after) :
      StringEnd (b :: before) after
  | escape (known : isEscape b) (rest : StringEnd before after) : StringEnd (backslash :: b :: before) after
  | unicode (hex : isHexDigit a ∧ isHexDigit b ∧ isHexDigit c ∧ isHexDigit d) (rest : StringEnd before after) :
      StringEnd (backslash :: letterU :: a :: b :: c :: d :: before) after

inductive Part where
  | value | elements
  | members (first : Bool)

/-- The parts of a text. `opens first` are the bytes that may open a member's name, of the
first member of an object and of the others. -/
inductive Derives (opens : Bool → UInt8 → Prop) : Part → List UInt8 → List UInt8 → Prop
  | literal (word : name ∈ literals) : Derives opens .value (name ++ after) after
  | number (number : Number before after) : Derives opens .value before after
  | string (rest : StringEnd before after) : Derives opens .value (quote :: before) after
  | emptyArray (blank : Ws before (closeBracket :: after)) : Derives opens .value (openBracket :: before) after
  | array (elements : Derives opens .elements before (closeBracket :: after)) :
      Derives opens .value (openBracket :: before) after
  | emptyObject (blank : Ws before (closeBrace :: after)) : Derives opens .value (openBrace :: before) after
  | object (members : Derives opens (.members true) before (closeBrace :: after)) :
      Derives opens .value (openBrace :: before) after
  | element (lead : Ws before start) (value : Derives opens .value start stop) (trail : Ws stop after) :
      Derives opens .elements before after
  | elements (lead : Ws before start) (value : Derives opens .value start stop) (trail : Ws stop (comma :: next))
      (rest : Derives opens .elements next after) : Derives opens .elements before after
  | member (lead : Ws before (b :: name)) (opened : opens first b) (named : StringEnd name afterName)
      (gap : Ws afterName (colon :: beforeValue)) (gap' : Ws beforeValue start)
      (value : Derives opens .value start stop) (trail : Ws stop after) : Derives opens (.members first) before after
  | members (lead : Ws before (b :: name)) (opened : opens first b) (named : StringEnd name afterName)
      (gap : Ws afterName (colon :: beforeValue)) (gap' : Ws beforeValue start)
      (value : Derives opens .value start stop) (trail : Ws stop (comma :: next))
      (rest : Derives opens (.members false) next after) : Derives opens (.members first) before after

/-- One value with white space around it. -/
def IsText (opens : Bool → UInt8 → Prop) (text : List UInt8) : Prop :=
  ∃ start stop, Ws text start ∧ Derives opens .value start stop ∧ Ws stop []

/-- A JSON text: every name begins with a quotation mark. -/
def IsJson (text : List UInt8) : Prop := IsText (fun _ b => b = quote) text

theorem Derives.mono {opens opens' : Bool → UInt8 → Prop} (more : ∀ first b, opens first b → opens' first b)
    (derives : Derives opens part before after) : Derives opens' part before after := by
  induction derives with
  | literal word => exact .literal word
  | number number => exact .number number
  | string rest => exact .string rest
  | emptyArray blank => exact .emptyArray blank
  | array _ ih => exact .array ih
  | emptyObject blank => exact .emptyObject blank
  | object _ ih => exact .object ih
  | element lead _ trail ih => exact .element lead ih trail
  | elements lead _ trail _ ih ihRest => exact .elements lead ih trail ihRest
  | member lead opened named gap gap' _ trail ih => exact .member lead (more _ _ opened) named gap gap' ih trail
  | members lead opened named gap gap' _ trail _ ih ihRest =>
    exact .members lead (more _ _ opened) named gap gap' ih trail ihRest

theorem IsText.mono {opens opens' : Bool → UInt8 → Prop} (more : ∀ first b, opens first b → opens' first b)
    (isText : IsText opens text) : IsText opens' text := by
  obtain ⟨start, stop, lead, value, trail⟩ := isText
  exact ⟨start, stop, lead, value.mono more, trail⟩

end QueryHive.Library.Json
