import Mathlib.Data.List.Infix
import QueryHive.Library.Text

/-! XML 1.0 with namespaces: a reader of documents made of elements, attributes, text and references,
behind an XML declaration. It refuses what is not well formed: a character that XML does not have, a tag
that is not closed by its own name, a prefix that is not declared. Documents with comments, CDATA sections,
further processing instructions or a DTD are not read. -/
namespace QueryHive.Library.Xml

/-- The `Char` production. -/
def isXmlChar (c : Char) : Bool :=
  c == '\t' || c == '\n' || c == '\r' || (0x20 ≤ c.toNat && c.toNat ≤ 0xD7FF) ||
    (0xE000 ≤ c.toNat && c.toNat ≤ 0xFFFD) || (0x10000 ≤ c.toNat && c.toNat ≤ 0x10FFFF)

def nameStartRanges : List (Nat × Nat) :=
  [(0x3A, 0x3A), (0x41, 0x5A), (0x5F, 0x5F), (0x61, 0x7A), (0xC0, 0xD6), (0xD8, 0xF6), (0xF8, 0x2FF), (0x370, 0x37D),
    (0x37F, 0x1FFF), (0x200C, 0x200D), (0x2070, 0x218F), (0x2C00, 0x2FEF), (0x3001, 0xD7FF), (0xF900, 0xFDCF),
    (0xFDF0, 0xFFFD), (0x10000, 0xEFFFF)]

def nameRanges : List (Nat × Nat) := [(0x2D, 0x2E), (0x30, 0x39), (0xB7, 0xB7), (0x300, 0x36F), (0x203F, 0x2040)]

def inRanges (ranges : List (Nat × Nat)) (c : Char) : Bool :=
  ranges.any fun range => range.1 ≤ c.toNat && c.toNat ≤ range.2

/-- The `NameStartChar` production. -/
def isNameStart (c : Char) : Bool := inRanges nameStartRanges c

/-- The `NameChar` production. -/
def isNameChar (c : Char) : Bool := isNameStart c || inRanges nameRanges c

/-- The `Name` production. -/
def isName (name : List Char) : Bool := name.head?.any isNameStart && name.all isNameChar

def isNcName (name : List Char) : Bool := isName name && !name.contains ':'

def isSpace (c : Char) : Bool := c == ' ' || c == '\t' || c == '\n' || c == '\r'

def normalizeLineEnds : List Char → List Char
  | '\r' :: '\n' :: rest => '\n' :: normalizeLineEnds rest
  | '\r' :: rest => '\n' :: normalizeLineEnds rest
  | c :: rest => c :: normalizeLineEnds rest
  | [] => []

def digitOf (base : Nat) (c : Char) : Option Nat :=
  let value := if c.isDigit then c.toNat - 48 else if 'a' ≤ c ∧ c ≤ 'f' then c.toNat - 87
    else if 'A' ≤ c ∧ c ≤ 'F' then c.toNat - 55 else base
  if value < base then some value else none

def characterOf (base : Nat) (digits : List Char) : Option Char := do
  if digits = [] then none
  let number ← digits.foldlM (fun n c => (digitOf base c).map (n * base + ·)) 0
  let c := Char.ofNat number
  if c.toNat = number && isXmlChar c then some c else none

/-- What a reference between `&` and `;` stands for. -/
def reference (name : List Char) : Option Char :=
  match name with
  | '#' :: 'x' :: digits => characterOf 16 digits
  | '#' :: digits => characterOf 10 digits
  | name =>
    if name = ['a', 'm', 'p'] then some '&'
    else if name = ['l', 't'] then some '<'
    else if name = ['g', 't'] then some '>'
    else if name = ['q', 'u', 'o', 't'] then some '"'
    else if name = ['a', 'p', 'o', 's'] then some '\''
    else none

/-- The text with its references undone; within one, the characters of its name so far. -/
def decodeFrom : Option (List Char) → List Char → Option (List Char)
  | none, [] => some []
  | some _, [] => none
  | none, c :: rest =>
    if c = '&' then decodeFrom (some []) rest else (decodeFrom none rest).map (c :: ·)
  | some name, c :: rest =>
    if c = ';' then do
      let meant ← reference name
      (decodeFrom none rest).map (meant :: ·)
    else decodeFrom (some (name ++ [c])) rest

def decode (text : List Char) : Option (List Char) := decodeFrom none text

inductive Token where
  | text (content : List Char)
  | tag (content : List Char)
  deriving DecidableEq, Repr

inductive Within where
  | text | tag | value (quote : Char)
  deriving DecidableEq, Repr

/-- The text and the tags of a document, with what is read of the one that is open. -/
def tokensFrom : Within → List Char → List Char → Option (List Token)
  | .text, sofar, [] => some [.text sofar]
  | _, _, [] => none
  | .text, sofar, c :: rest =>
    if c = '<' then (tokensFrom .tag [] rest).map (.text sofar :: ·) else tokensFrom .text (sofar ++ [c]) rest
  | .tag, sofar, c :: rest =>
    if c = '>' then (tokensFrom .text [] rest).map (.tag sofar :: ·)
    else if c = '<' then none
    else if c = '"' ∨ c = '\'' then tokensFrom (.value c) (sofar ++ [c]) rest
    else tokensFrom .tag (sofar ++ [c]) rest
  | .value quote, sofar, c :: rest =>
    if c = '<' then none
    else if c = quote then tokensFrom .tag (sofar ++ [c]) rest
    else tokensFrom (.value quote) (sofar ++ [c]) rest

abbrev Attribute := List Char × List Char

/-- The attributes in a tag, for so many of them. -/
def parseAttributes : Nat → List Char → Option (List Attribute)
  | 0, _ => none
  | turns + 1, content =>
    let trimmed := content.dropWhile isSpace
    if trimmed = [] then some []
    else if trimmed = content then none
    else
      let name := trimmed.takeWhile isNameChar
      match (trimmed.dropWhile isNameChar).dropWhile isSpace with
      | '=' :: rest =>
        match rest.dropWhile isSpace with
        | quote :: rest =>
          if (quote = '"' ∨ quote = '\'') ∧ isName name = true ∧ quote ∈ rest then do
            let value ← decode ((rest.takeWhile (· ≠ quote)).map fun c => if isSpace c then ' ' else c)
            let more ← parseAttributes turns ((rest.dropWhile (· ≠ quote)).drop 1)
            some ((name, value) :: more)
          else none
        | [] => none
      | _ => none

inductive Tag where
  | opens (name : List Char) (attributes : List Attribute)
  | empty (name : List Char) (attributes : List Attribute)
  | closes (name : List Char)
  deriving DecidableEq, Repr

def behindName (content : List Char) : List Char := content.dropWhile isNameChar

def parseTag (content : List Char) : Option Tag :=
  match content with
  | '/' :: rest =>
    let name := rest.takeWhile isNameChar
    if isName name && (behindName rest).all isSpace then some (.closes name) else none
  | content =>
    let name := content.takeWhile isNameChar
    if isName name then
      let behind := behindName content
      if behind.getLast? = some '/' then
        (parseAttributes (behind.length + 1) behind.dropLast).map (.empty name)
      else (parseAttributes (behind.length + 1) behind).map (.opens name)
    else none

inductive Node where
  | text (content : List Char)
  | element (name : List Char) (attributes : List Attribute) (bindings : List Attribute) (children : List Node)
  deriving Repr

/-- An element that is still open. `bindings` are the prefixes declared on it and around it. -/
structure Frame where
  name : List Char
  attributes : List Attribute
  bindings : List Attribute
  children : List Node
  deriving Repr

def declared (attributes : List Attribute) : List Attribute :=
  attributes.filterMap fun entry =>
    match entry.1.splitOn ':' with
    | [first, name] => if first = ['x', 'm', 'l', 'n', 's'] then some (name, entry.2) else none
    | _ => none

/-- Whether a name's prefix is declared: `xml` always is. -/
def nameBound (bindings : List Attribute) (name : List Char) : Bool :=
  match name.splitOn ':' with
  | [name] => isNcName name
  | [first, name] =>
    isNcName first && isNcName name && (first = ['x', 'm', 'l'] || bindings.any (·.1 = first))
  | _ => false

def expanded (bindings : List Attribute) (name : List Char) : Option (List Char) × List Char :=
  match name.splitOn ':' with
  | [first, name] => ((bindings.find? (·.1 = first)).map Prod.snd, name)
  | _ => (none, name)

def attributesBound (bindings attributes : List Attribute) : Bool :=
  (attributes.all fun entry =>
    match entry.1.splitOn ':' with
    | [first, name] =>
      if first = ['x', 'm', 'l', 'n', 's'] then
        isNcName name && entry.2 ≠ [] && name ≠ ['x', 'm', 'l'] && name ≠ ['x', 'm', 'l', 'n', 's']
      else nameBound bindings entry.1
    | _ => nameBound bindings entry.1) &&
  decide (attributes.map fun entry => expanded bindings entry.1).Nodup

/-- The elements that are open, the innermost first, and the document's element once it is closed. -/
structure Progress where
  stack : List Frame
  root : Option Node
  deriving Repr

/-- An element that is closed goes to the one around it, or is the document's. -/
def Progress.add (progress : Progress) (node : Node) : Option Progress :=
  match progress.stack with
  | [] => if progress.root.isNone then some ⟨[], some node⟩ else none
  | frame :: stack => some ⟨{ frame with children := frame.children ++ [node] } :: stack, progress.root⟩

def Progress.bindings (progress : Progress) : List Attribute := (progress.stack.head?.map Frame.bindings).getD []

/-- An element opened by a tag, when its names are bound. -/
def Progress.frame (progress : Progress) (name : List Char) (attributes : List Attribute) : Option Frame :=
  let bindings := declared attributes ++ progress.bindings
  if nameBound bindings name && attributesBound bindings attributes then some ⟨name, attributes, bindings, []⟩ else none

def step (progress : Progress) : Token → Option Progress
  | .text content =>
    match progress.stack with
    | [] => if content.all isSpace then some progress else none
    | _ :: _ =>
      if [']', ']', '>'] <:+: content then none else (decode content).bind fun text => progress.add (.text text)
  | .tag content => do
    match ← parseTag content with
    | .opens name attributes =>
      let frame ← progress.frame name attributes
      -- A document has one element.
      if progress.stack = [] ∧ progress.root.isSome then none else some ⟨frame :: progress.stack, progress.root⟩
    | .empty name attributes =>
      let frame ← progress.frame name attributes
      progress.add (.element frame.name frame.attributes frame.bindings [])
    | .closes name =>
      match progress.stack with
      | [] => none
      | frame :: stack =>
        if frame.name = name then
          Progress.add ⟨stack, progress.root⟩ (.element frame.name frame.attributes frame.bindings frame.children)
        else none

/-- The document's element, when every element is closed. -/
def Progress.finish (progress : Progress) : Option Node := if progress.stack = [] then progress.root else none

def splitDeclaration : List Char → Option (List Char × List Char)
  | '?' :: '>' :: rest => some ([], rest)
  | c :: rest => (splitDeclaration rest).map fun (front, rest) => (c :: front, rest)
  | [] => none

/-- What follows the declaration, which says version 1.0 and no other encoding than UTF-8. -/
def behindDeclaration (text : List Char) : Option (List Char) :=
  match text with
  | '<' :: '?' :: 'x' :: 'm' :: 'l' :: rest => do
    let (content, rest) ← splitDeclaration rest
    match ← parseAttributes (content.length + 1) content with
    | [version] => if version = ("version".toList, "1.0".toList) then some rest else none
    | [version, encoding] =>
      if version = ("version".toList, "1.0".toList) ∧
        encoding = ("encoding".toList, "UTF-8".toList) then some rest else none
    | _ => none
  | text => some text

/-- The element of a document, when it is well formed. -/
def readDocument (text : List Char) : Option Node := do
  if text.all isXmlChar then
    let rest ← behindDeclaration (normalizeLineEnds text)
    let tokens ← tokensFrom .text [] rest
    let progress ← tokens.foldlM step ⟨[], none⟩
    progress.finish
  else none

namespace Node

def isElement : Node → Bool
  | .text _ => false
  | .element .. => true

def elements : Node → List Node
  | .text _ => []
  | .element _ _ _ children => children.filter isElement

/-- The text that stands directly in an element. -/
def content : Node → List Char
  | .text content => content
  | .element _ _ _ children => children.flatMap fun
    | .text content => content
    | .element .. => []

def name : Node → List Char
  | .text _ => []
  | .element name _ _ _ => name

def schemaInstance : List Char := "http://www.w3.org/2001/XMLSchema-instance".toList

/-- Whether an element says of itself that it has no value: its attribute `nil` from the schema instance
namespace is true. -/
def isNil : Node → Bool
  | .text _ => false
  | .element _ attributes bindings _ => attributes.any fun entry =>
    expanded bindings entry.1 = (some schemaInstance, ['n', 'i', 'l']) &&
      (entry.2 = ['t', 'r', 'u', 'e'] || entry.2 = ['1'])

end Node

theorem normalize_cons (other : c ≠ '\r') : normalizeLineEnds (c :: rest) = c :: normalizeLineEnds rest :=
  normalizeLineEnds.eq_3 _ _ (fun _ same _ => other same) other

theorem normalize_return (notFeed : ∀ more, rest = '\n' :: more → False) :
    normalizeLineEnds ('\r' :: rest) = '\n' :: normalizeLineEnds rest :=
  normalizeLineEnds.eq_2 rest notFeed

theorem normalize_append_plain (plain : '\r' ∉ front) (text : List Char) :
    normalizeLineEnds (front ++ text) = front ++ normalizeLineEnds text := by
  induction front with
  | nil => rfl
  | cons c rest ih =>
    have other : c ≠ '\r' := fun same => plain (same ▸ List.mem_cons_self)
    rw [List.cons_append, normalize_cons other, ih fun inside => plain (List.mem_cons_of_mem _ inside),
      List.cons_append]

theorem normalize_append {text : List Char} (behind : text.head? ≠ some '\n') :
    normalizeLineEnds (front ++ text) = normalizeLineEnds front ++ normalizeLineEnds text := by
  induction front using normalizeLineEnds.induct with
  | case1 rest ih => exact congrArg ('\n' :: ·) ih
  | case2 rest notFeed ih =>
    have apart : ∀ more, rest ++ text = '\n' :: more → False := by
      intro more same
      cases rest with
      | nil => exact behind (by rw [List.nil_append] at same; rw [same]; rfl)
      | cons c rest => exact notFeed rest (by rw [List.cons_append] at same; rw [(List.cons.inj same).1])
    rw [List.cons_append, normalize_return apart, normalize_return notFeed, ih, List.cons_append]
  | case3 c rest _ other ih => rw [List.cons_append, normalize_cons other, normalize_cons other, ih, List.cons_append]
  | case4 => rfl

theorem return_not_mem_normalize (text : List Char) : '\r' ∉ normalizeLineEnds text := by
  induction text using normalizeLineEnds.induct with
  | case1 rest ih => exact List.not_mem_cons_of_ne_of_not_mem (by decide) ih
  | case2 rest notFeed ih =>
    rw [normalize_return notFeed]
    exact List.not_mem_cons_of_ne_of_not_mem (by decide) ih
  | case3 c rest _ other ih =>
    rw [normalize_cons other]
    exact List.not_mem_cons_of_ne_of_not_mem (Ne.symm other) ih
  | case4 => exact List.not_mem_nil

theorem normalize_eq_self_iff (text : List Char) : normalizeLineEnds text = text ↔ '\r' ∉ text := by
  constructor
  · intro same
    exact same ▸ return_not_mem_normalize text
  · intro plain
    have ended : normalizeLineEnds (text ++ []) = text ++ [] := normalize_append_plain plain []
    rwa [List.append_nil] at ended

theorem decode_plain (plain : c ≠ '&') : decodeFrom none (c :: rest) = (decodeFrom none rest).map (c :: ·) :=
  if_neg plain

theorem decode_opens (rest : List Char) : decodeFrom none ('&' :: rest) = decodeFrom (some []) rest := if_pos rfl

theorem decode_inside (other : c ≠ ';') : decodeFrom (some name) (c :: rest) = decodeFrom (some (name ++ [c])) rest :=
  if_neg other

theorem decode_closes (name rest : List Char) :
    decodeFrom (some name) (';' :: rest) = (reference name).bind fun meant => (decodeFrom none rest).map (meant :: ·) :=
  if_pos rfl

theorem decodeFrom_name (inside : ';' ∉ more) :
    decodeFrom (some name) (more ++ rest) = decodeFrom (some (name ++ more)) rest := by
  induction more generalizing name with
  | nil => rw [List.nil_append, List.append_nil]
  | cons c more ih =>
    have other : c ≠ ';' := fun same => inside (same ▸ List.mem_cons_self)
    rw [List.cons_append, decode_inside other, ih fun mem => inside (List.mem_cons_of_mem _ mem), List.append_assoc,
      List.singleton_append]

theorem decode_reference (inside : ';' ∉ name) (means : reference name = some meant) :
    decodeFrom none ('&' :: (name ++ ';' :: rest)) = (decodeFrom none rest).map (meant :: ·) := by
  rw [decode_opens, decodeFrom_name inside, List.nil_append, decode_closes, means]
  rfl

theorem name_char_ne {other : Char} (c : Char) (name : isNameChar c = true) (ends : isNameChar other = false) :
    c ≠ other := by
  rintro rfl
  exact absurd (name.symm.trans ends) (by decide)

theorem isXmlChar_of_name (c : Char) (name : isNameChar c = true) : isXmlChar c = true := by
  have ranges : ∀ range ∈ nameStartRanges ++ nameRanges, (0x20 ≤ range.1 ∧ range.2 ≤ 0xD7FF) ∨
      (0xE000 ≤ range.1 ∧ range.2 ≤ 0xFFFD) ∨ (0x10000 ≤ range.1 ∧ range.2 ≤ 0x10FFFF) := by decide
  have within : ∃ range ∈ nameStartRanges ++ nameRanges, range.1 ≤ c.toNat ∧ c.toNat ≤ range.2 := by
    simpa [isNameChar, isNameStart, inRanges, List.any_append, or_and_right, exists_or] using name
  obtain ⟨range, mem, low, high⟩ := within
  have bounds := ranges range mem
  simp only [isXmlChar, Bool.or_eq_true, Bool.and_eq_true, decide_eq_true_eq]
  omega

theorem name_chars (valid : isName name = true) : ∀ c ∈ name, isNameChar c = true :=
  List.all_eq_true.mp (Bool.and_eq_true_iff.mp valid).2

theorem not_mem_name {other : Char} (valid : isName name = true) (ends : isNameChar other = false) : other ∉ name :=
  fun mem => name_char_ne other (name_chars valid other mem) ends rfl

theorem name_cons (valid : isName name = true) : ∃ c rest, name = c :: rest ∧ c ≠ '/' := by
  cases name with
  | nil => cases valid
  | cons c rest => exact ⟨c, rest, rfl, name_char_ne c (name_chars valid c List.mem_cons_self) (by decide)⟩

theorem tokens_opens (sofar rest : List Char) :
    tokensFrom .text sofar ('<' :: rest) = (tokensFrom .tag [] rest).map (.text sofar :: ·) := if_pos rfl

theorem tokens_plain (other : c ≠ '<') :
    tokensFrom .text sofar (c :: rest) = tokensFrom .text (sofar ++ [c]) rest := if_neg other

theorem tokens_closes (sofar rest : List Char) :
    tokensFrom .tag sofar ('>' :: rest) = (tokensFrom .text [] rest).map (.tag sofar :: ·) := if_pos rfl

theorem tokens_inside (closes : c ≠ '>') (opens : c ≠ '<') (quotes : ¬(c = '"' ∨ c = '\'')) :
    tokensFrom .tag sofar (c :: rest) = tokensFrom .tag (sofar ++ [c]) rest :=
  (if_neg closes).trans ((if_neg opens).trans (if_neg quotes))

theorem tokens_text (plain : '<' ∉ text) :
    tokensFrom .text sofar (text ++ rest) = tokensFrom .text (sofar ++ text) rest := by
  induction text generalizing sofar with
  | nil => rw [List.nil_append, List.append_nil]
  | cons c text ih =>
    have other : c ≠ '<' := fun same => plain (same ▸ List.mem_cons_self)
    rw [List.cons_append, tokens_plain other, ih fun mem => plain (List.mem_cons_of_mem _ mem), List.append_assoc,
      List.singleton_append]

theorem tokens_within (plain : ∀ c ∈ text, isNameChar c = true ∨ c = '/') :
    tokensFrom .tag sofar (text ++ rest) = tokensFrom .tag (sofar ++ text) rest := by
  induction text generalizing sofar with
  | nil => rw [List.nil_append, List.append_nil]
  | cons c text ih =>
    have other : ∀ ends : Char, isNameChar ends = false → ends ≠ '/' → c ≠ ends := by
      intro ends special slash
      rcases plain c List.mem_cons_self with name | same
      · exact name_char_ne c name special
      · exact same ▸ slash.symm
    have quotes : ¬(c = '"' ∨ c = '\'') := by
      simp [other '"' (by decide) (by decide), other '\'' (by decide) (by decide)]
    rw [List.cons_append, tokens_inside (other '>' (by decide) (by decide)) (other '<' (by decide) (by decide)) quotes,
      ih fun c mem => plain c (List.mem_cons_of_mem _ mem), List.append_assoc, List.singleton_append]

theorem tokens_tag (plain : ∀ c ∈ tag, isNameChar c = true ∨ c = '/') :
    tokensFrom .text sofar ('<' :: (tag ++ '>' :: rest)) =
      (tokensFrom .text [] rest).map ([.text sofar, .tag tag] ++ ·) := by
  rw [tokens_opens, tokens_within plain, List.nil_append, tokens_closes, Option.map_map]
  rfl

theorem parseTag_opens (valid : isName name = true) : parseTag name = some (.opens name []) := by
  obtain ⟨c, rest, rfl, other⟩ := name_cons valid
  have whole := name_chars valid
  unfold parseTag
  split
  next same => exact absurd (List.cons.inj same).1 other
  · rw [behindName, List.takeWhile_eq_self_iff.mpr whole, List.dropWhile_eq_nil_iff.mpr whole, if_pos valid]
    rfl

theorem parseTag_closes (valid : isName name = true) : parseTag ('/' :: name) = some (.closes name) := by
  have whole := name_chars valid
  simp only [parseTag, behindName, List.takeWhile_eq_self_iff.mpr whole, List.dropWhile_eq_nil_iff.mpr whole, valid]
  rfl

theorem step_opens (valid : isName name = true) (room : progress.stack ≠ [] ∨ progress.root = none)
    (bare : progress.bindings = []) :
    step progress (.tag name) =
      if nameBound [] name = true then some ⟨⟨name, [], [], []⟩ :: progress.stack, progress.root⟩ else none := by
  have first : ¬(progress.stack = [] ∧ progress.root.isSome = true) := by
    rintro ⟨outermost, done⟩
    rcases room with inside | unset
    · exact inside outermost
    · rw [unset] at done
      cases done
  have frame : progress.frame name [] = if nameBound [] name = true then some ⟨name, [], [], []⟩ else none := by
    simp [Progress.frame, declared, bare, attributesBound]
  simp only [step, parseTag_opens valid, frame, if_neg first, Option.bind_eq_bind, Option.bind_some]
  split <;> rfl

theorem step_closes (valid : isName frame.name = true) :
    step ⟨frame :: stack, root⟩ (.tag ('/' :: frame.name)) =
      Progress.add ⟨stack, root⟩ (.element frame.name frame.attributes frame.bindings frame.children) := by
  simp [step, parseTag_closes valid]

/-- Text inside an element, when it holds no end of a CDATA section. -/
theorem step_text (plain : '>' ∉ text) (means : decode text = some meant) :
    step ⟨frame :: stack, root⟩ (.text text) =
      some ⟨{ frame with children := frame.children ++ [.text meant] } :: stack, root⟩ := by
  have clear : ¬[']', ']', '>'] <:+: text := fun inside => plain (inside.subset (by simp))
  simp [step, clear, means, Progress.add]

section
variable {α : Type} {write : α → List Char} {items : List α}

/-- Line ends are read piece by piece when they are read so behind each one. -/
theorem normalize_items {read : α → List Char}
    (each : ∀ item ∈ items, ∀ rest, normalizeLineEnds (write item ++ rest) = read item ++ normalizeLineEnds rest)
    (rest : List Char) :
    normalizeLineEnds (items.flatMap write ++ rest) = items.flatMap read ++ normalizeLineEnds rest := by
  induction items with
  | nil => rfl
  | cons item items ih =>
    have later := ih fun other mem => each other (List.mem_cons_of_mem _ mem)
    rw [List.flatMap_cons, List.append_assoc, each item List.mem_cons_self, later, List.flatMap_cons, List.append_assoc]

theorem tokens_items {tokens : α → List Token}
    (each : ∀ item ∈ items, ∀ rest,
      tokensFrom .text sofar (write item ++ rest) = (tokensFrom .text sofar rest).map (tokens item ++ ·))
    (rest : List Char) :
    tokensFrom .text sofar (items.flatMap write ++ rest) =
      (tokensFrom .text sofar rest).map (items.flatMap tokens ++ ·) := by
  induction items with
  | nil => simp
  | cons item items ih =>
    have later := ih fun other mem => each other (List.mem_cons_of_mem _ mem)
    rw [List.flatMap_cons, List.append_assoc, each item List.mem_cons_self, later, Option.map_map]
    simp [Function.comp_def]

/-- Tokens that give an element more children give it those of every piece, unless a piece is refused. -/
theorem fold_items {tokens : α → List Token} {nodes : α → List Node} {good : α → Bool}
    (each : ∀ item ∈ items, ∀ frame : Frame, frame.bindings = [] →
      (tokens item).foldlM step ⟨frame :: stack, root⟩ =
        if good item = true then some ⟨{ frame with children := frame.children ++ nodes item } :: stack,
          root⟩ else none)
    (frame : Frame) (bare : frame.bindings = []) :
    (items.flatMap tokens).foldlM step ⟨frame :: stack, root⟩ =
      if items.all good = true then
        some ⟨{ frame with children := frame.children ++ items.flatMap nodes } :: stack, root⟩
      else none := by
  induction items generalizing frame with
  | nil => simp
  | cons item items ih =>
    rw [List.flatMap_cons, List.foldlM_append, each item List.mem_cons_self frame bare, List.all_cons]
    by_cases fine : good item = true
    · have later := ih (fun other mem => each other (List.mem_cons_of_mem _ mem))
        { frame with children := frame.children ++ nodes item } bare
      rw [if_pos fine, Option.bind_eq_bind, Option.bind_some, later, fine, Bool.true_and, List.flatMap_cons,
        List.append_assoc]
    · rw [if_neg fine, eq_false_of_ne_true fine]
      rfl

end

end QueryHive.Library.Xml
