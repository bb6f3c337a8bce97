import QueryHive.Library.Json

/-! The JSON source: an array of objects, or objects one after another, read one object at a time. The framer
finds where an object ends by counting brackets outside strings, and hands exactly those bytes to the parser.
What the file holds arrives in chunks, cut anywhere; reading itself does not fail here. -/
namespace QueryHive.Import
open QueryHive.Library.Json

/-- What is still to come, in the chunks it will be filled with. -/
structure Reader where
  chunks : List (List UInt8)
  filled : ∀ chunk ∈ chunks, chunk ≠ []

namespace Reader

/-- `fill_buf`: nothing at the end of the file only. -/
def fillBuf (reader : Reader) : List UInt8 := reader.chunks.headD []

/-- The chunks behind so many bytes of the first. -/
def after (amount : Nat) : List (List UInt8) → List (List UInt8)
  | [] => []
  | chunk :: rest => if amount < chunk.length then chunk.drop amount :: rest else rest

theorem filled_after {chunks : List (List UInt8)} (filled : ∀ chunk ∈ chunks, chunk ≠ []) (amount : Nat) :
    ∀ chunk ∈ after amount chunks, chunk ≠ [] := by
  intro chunk inside
  cases chunks with
  | nil => cases inside
  | cons first rest =>
    rw [after] at inside
    split at inside
    · next short =>
      rcases List.mem_cons.mp inside with rfl | later
      · exact fun empty => absurd (List.drop_eq_nil_iff.mp empty) (Nat.not_le.mpr short)
      · exact filled chunk (List.mem_cons_of_mem _ later)
    · exact filled chunk (List.mem_cons_of_mem _ inside)

/-- `consume`. -/
def consume (amount : Nat) (reader : Reader) : Reader where
  chunks := after amount reader.chunks
  filled := filled_after reader.filled amount

/-- The bytes that are still to come, however they are cut. -/
def bytes (reader : Reader) : List UInt8 := reader.chunks.flatten

theorem fillBuf_nil_iff (reader : Reader) : reader.fillBuf = [] ↔ reader.bytes = [] := by
  obtain ⟨chunks, filled⟩ := reader
  cases chunks with
  | nil => exact Iff.rfl
  | cons chunk rest =>
    have some := filled chunk List.mem_cons_self
    simp [fillBuf, bytes, some]

/-- What is in the buffer comes first. -/
theorem bytes_split (reader : Reader) : ∃ rest, reader.bytes = reader.fillBuf ++ rest := by
  obtain ⟨chunks, filled⟩ := reader
  cases chunks with
  | nil => exact ⟨[], rfl⟩
  | cons chunk rest => exact ⟨rest.flatten, rfl⟩

theorem bytes_consume {reader : Reader} (short : amount ≤ reader.fillBuf.length) :
    (reader.consume amount).bytes = reader.bytes.drop amount := by
  obtain ⟨chunks, filled⟩ := reader
  cases chunks with
  | nil => exact (List.drop_nil).symm
  | cons chunk rest =>
    have within : amount ≤ chunk.length := short
    simp only [consume, after, bytes, List.flatten_cons]
    rw [List.drop_append_of_le_length within]
    split
    · rfl
    · next all => rw [List.drop_eq_nil_of_le (Nat.not_lt.mp all), List.nil_append]

end Reader

structure Limits where
  maxElementBytes : Nat
  deriving DecidableEq, Repr

def maxElementBytes : Nat := 64 * 1024 * 1024

def maxDepth : Nat := 128

inductive Mode where
  | unstarted | stream | array
  deriving DecidableEq, Repr

/-- An object as its names and its values, which stay raw text. -/
abbrev Obj := List (String × String)

structure Element where
  bytes : List UInt8
  line : Nat
  offset : Nat
  index : Nat
  deriving DecidableEq, Repr

/-- `ImportError::Json`. -/
structure ImportError where
  path : String
  line : Nat
  offset : Nat
  message : String
  deriving DecidableEq, Repr

structure JsonSource where
  reader : Reader
  path : String
  limits : Limits
  mode : Mode
  /-- After `[`: true until the first element, and after a comma. -/
  expectElement : Bool
  done : Bool
  line : Nat
  offset : Nat
  count : Nat

namespace JsonSource

def unread (reader : Reader) (path : String) (limits : Limits) : JsonSource where
  reader := reader
  path := path
  limits := limits
  mode := .unstarted
  expectElement := true
  done := false
  line := 1
  offset := 0
  count := 0

def error (source : JsonSource) (line offset : Nat) (message : String) : ImportError :=
  ⟨source.path, line, offset, message⟩

def here (source : JsonSource) (message : String) : ImportError := source.error source.line source.offset message

def peek (source : JsonSource) : Option UInt8 := source.reader.fillBuf.head?

def lineFeed : UInt8 := 0x0A

def bump (byte : UInt8) (source : JsonSource) : JsonSource :=
  { source with
    reader := source.reader.consume 1
    offset := source.offset + 1
    line := if byte = lineFeed then source.line + 1 else source.line }

theorem bytes_bump {source : JsonSource} (next : source.peek = some byte) :
    source.reader.bytes = byte :: (bump byte source).reader.bytes := by
  obtain ⟨more, head⟩ := List.head?_eq_some_iff.mp next
  have consumed : (source.reader.consume 1).bytes = source.reader.bytes.drop 1 := Reader.bytes_consume (by simp [head])
  obtain ⟨rest, split⟩ := source.reader.bytes_split
  rw [bump, consumed, split, head]
  rfl

/-- `skip_ws`. -/
def skipWs (source : JsonSource) : JsonSource :=
  match _next : source.peek with
  | none => source
  | some byte => if isWs byte then skipWs (bump byte source) else source
termination_by source.reader.bytes.length
decreasing_by simp [bytes_bump _next]

/-- `start`: the marks of an encoding are looked for in the first chunk. -/
def start (source : JsonSource) : Except ImportError JsonSource :=
  let head := source.reader.fillBuf
  if [0xFF, 0xFE] <+: head ∨ [0xFE, 0xFF] <+: head then
    .error (source.here "the file is UTF-16; only UTF-8 is supported")
  else
    let source :=
      if [0xEF, 0xBB, 0xBF] <+: head then { source with reader := source.reader.consume 3, offset := source.offset + 3 }
      else source
    let source := skipWs source
    if source.peek = some openBracket then .ok { bump openBracket source with mode := .array }
    else .ok { source with mode := .stream }

/-- Where the framer is in an object: how deep, and whether in a string and behind a backslash. -/
structure Scan where
  depth : Nat
  inString : Bool
  escaped : Bool
  deriving DecidableEq, Repr

inductive Stop where
  | tooDeep | finished
  deriving DecidableEq, Repr

/-- The loop body of `read_object`. -/
def scanByte (scan : Scan) (byte : UInt8) : Scan × Option Stop :=
  if scan.inString then
    if scan.escaped then ({ scan with escaped := false }, none)
    else if byte = backslash then ({ scan with escaped := true }, none)
    else if byte = quote then ({ scan with inString := false }, none)
    else (scan, none)
  else if byte = quote then ({ scan with inString := true }, none)
  else if byte = openBrace ∨ byte = openBracket then
    ({ scan with depth := scan.depth + 1 }, if scan.depth + 1 > maxDepth then some .tooDeep else none)
  else if byte = closeBrace ∨ byte = closeBracket then
    ({ scan with depth := scan.depth - 1 }, if scan.depth - 1 = 0 then some .finished else none)
  else (scan, none)

/-- How many bytes were used, and why no more were. -/
structure Scanned where
  used : Nat
  scan : Scan
  stop : Option Stop
  deriving DecidableEq, Repr

/-- The loop of `read_object` over a chunk. -/
def scanChunk (scan : Scan) : List UInt8 → Scanned
  | [] => ⟨0, scan, none⟩
  | byte :: rest =>
    match scanByte scan byte with
    | (scan, some stop) => ⟨1, scan, some stop⟩
    | (scan, none) =>
      let scanned := scanChunk scan rest
      { scanned with used := scanned.used + 1 }

/-- What `read_object` takes of the chunk. -/
def take (used : Nat) (source : JsonSource) : JsonSource :=
  { source with
    reader := source.reader.consume used
    line := source.line + (source.reader.fillBuf.take used).count lineFeed
    offset := source.offset + used }

theorem used_pos (scan : Scan) (filled : chunk ≠ []) : 0 < (scanChunk scan chunk).used := by
  cases chunk with
  | nil => exact absurd rfl filled
  | cons byte rest =>
    rw [scanChunk]
    split
    · exact Nat.one_pos
    · exact Nat.succ_pos _

theorem used_le (scan : Scan) (chunk : List UInt8) : (scanChunk scan chunk).used ≤ chunk.length := by
  induction chunk generalizing scan with
  | nil => exact Nat.le_refl 0
  | cons byte rest ih =>
    rw [scanChunk]
    split
    · exact Nat.succ_le_succ (Nat.zero_le _)
    · exact Nat.succ_le_succ (ih _)

theorem used_of_going (going : (scanChunk scan chunk).stop = none) : (scanChunk scan chunk).used = chunk.length := by
  induction chunk generalizing scan with
  | nil => rfl
  | cons byte rest ih =>
    rw [scanChunk] at going ⊢
    split at going
    · cases going
    · exact congrArg (· + 1) (ih going)

theorem bytes_take {source : JsonSource} (short : used ≤ source.reader.fillBuf.length) :
    (source.take used).reader.bytes = source.reader.bytes.drop used := Reader.bytes_consume short

/-- `read_object`, for the object that starts at this line and offset. -/
def readObject (line offset : Nat) (source : JsonSource) (out : List UInt8) (scan : Scan) :
    Except ImportError (List UInt8 × JsonSource) :=
  let chunk := source.reader.fillBuf
  if _ended : chunk = [] then
    .error (source.error line offset
      ("unexpected end of file inside the element that starts at line " ++ toString line))
  else
    let scanned := scanChunk scan chunk
    let out := out ++ chunk.take scanned.used
    let taken := source.take scanned.used
    if scanned.stop = some .tooDeep then
      .error (taken.error line offset
        ("element nesting is deeper than " ++ toString maxDepth ++ " levels (line " ++ toString line ++ ")"))
    else if out.length > taken.limits.maxElementBytes then
      .error (taken.error line offset
        ("element at line " ++ toString line ++ " is larger than " ++
        toString taken.limits.maxElementBytes ++ " bytes"))
    else if scanned.stop = some .finished then .ok (out, taken)
    else readObject line offset taken out scanned.scan
termination_by source.reader.bytes.length
decreasing_by
  rw [bytes_take (used_le scan _), List.length_drop]
  have some : source.reader.bytes ≠ [] := fun none => _ended ((Reader.fillBuf_nil_iff _).mpr none)
  exact Nat.sub_lt (List.length_pos_iff.mpr some) (used_pos scan _ended)

/-- A character as `{:?}` shows it, for a byte read as one. -/
def debugByte (byte : UInt8) : String :=
  let shown :=
    if byte = 0x00 then "\\0"
    else if byte = 0x09 then "\\t"
    else if byte = 0x0A then "\\n"
    else if byte = 0x0D then "\\r"
    else if byte = 0x27 then "\\'"
    else if byte = 0x5C then "\\\\"
    else if byte < 0x20 ∨ (0x7F ≤ byte ∧ byte ≤ 0xA0) ∨ byte = 0xAD then
      "\\u\x7b" ++ String.ofList (Nat.toDigits 16 byte.toNat) ++ "\x7d"
    else String.singleton (Char.ofNat byte.toNat)
  "'" ++ shown ++ "'"

/-- The part of `next_element` in front of an element, and whether there is one. -/
def approach (source : JsonSource) : Except ImportError (Bool × JsonSource) :=
  if source.mode = .array then
    match source.peek with
    | none => .error (source.here "unexpected end of file: the array is not closed")
    | some byte =>
      if byte = closeBracket then
        if source.count = 0 ∨ source.expectElement = false then
          let source := skipWs (bump closeBracket source)
          if source.peek.isSome then .error (source.here "unexpected data after the closing ']'")
          else .ok (false, { source with done := true })
        else .error (source.here "trailing comma before ']'")
      else if source.expectElement then .ok (true, source)
      else if byte = comma then
        let source := skipWs { bump comma source with expectElement := true }
        if source.peek = some closeBracket then .error (source.here "trailing comma before ']'") else .ok (true, source)
      else
        .error (source.here
          ("expected ',' or ']' after element " ++ toString source.count ++ ", found " ++ debugByte byte))
  else if source.peek = none then .ok (false, { source with done := true })
  else .ok (true, source)

/-- The part of `next_element` from an element on. -/
def readElement (source : JsonSource) : Except ImportError (Element × JsonSource) := do
  let (line, offset, index) := (source.line, source.offset, source.count + 1)
  match source.peek with
  | none => .error (source.here "unexpected end of file: the array is not closed")
  | some byte =>
    if byte = openBrace then
      let (bytes, source) ← readObject line offset source [] ⟨0, false, false⟩
      return (⟨bytes, line, offset, index⟩, { source with count := source.count + 1, expectElement := false })
    else
      .error (source.error line offset
        ("element " ++ toString index ++ " (line " ++ toString line ++ ") is not an object"))

/-- `next_element`: nothing at the end. -/
def nextElement (source : JsonSource) : Except ImportError (Option Element × JsonSource) := do
  let source ← if source.mode = .unstarted then start source else pure source
  if source.done then return (none, source)
  let (due, source) ← approach (skipWs source)
  if due then
    let (element, source) ← readElement source
    return (some element, source)
  else return (none, source)

section
variable (fromSlice : List UInt8 → Except String Obj)

/-- `next_object`: the bytes of an element are parsed by `serde_json`. -/
def nextObject (source : JsonSource) : Except ImportError (Option (Element × Obj) × JsonSource) := do
  let (next, source) ← nextElement source
  match next with
  | none => return (none, source)
  | some element =>
    match fromSlice element.bytes with
    | .ok obj => return (some (element, obj), source)
    | .error error =>
      .error (source.error element.line element.offset
        ("element " ++ toString element.index ++ " is not valid JSON: " ++ error))

/-- What calls of `next_object` give, one after another, and the source they leave. -/
inductive Gives : JsonSource → List (Element × Obj) → JsonSource → Prop
  | nil (source : JsonSource) : Gives source [] source
  | cons {source between after : JsonSource} (given : nextObject fromSlice source = .ok (some item, between))
      (more : Gives between items after) : Gives source (item :: items) after

/-- The calls give these objects, and then that there are no more. -/
def Delivers (source : JsonSource) (items : List (Element × Obj)) : Prop :=
  ∃ between after, Gives fromSlice source items between ∧ nextObject fromSlice between = .ok (none, after)

/-- The calls give these objects, and then an error. -/
def Fails (source : JsonSource) (items : List (Element × Obj)) : Prop :=
  ∃ between error, Gives fromSlice source items between ∧ nextObject fromSlice between = .error error

end

end JsonSource

end QueryHive.Import
