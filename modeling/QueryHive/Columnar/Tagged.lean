import QueryHive.Library.Bytes
import QueryHive.Library.Result
import QueryHive.Library.Text
import QueryHive.Store.Stats

/-! The tagged codec: one self-delimiting blob for each cell of a column whose
cells disagree. A blob is a tag byte and the value's own bytes; texts, byte
strings and composites carry a length of four bytes in front. Decoding inverts
encoding exactly on the values whose lengths survive those four bytes and the
reader's own limit. -/
namespace QueryHive.Columnar
open QueryHive.Library.Bytes QueryHive.Library.Result QueryHive.Library.Text QueryHive.Store

/-- `Encoding`: how one chunk-column is stored. -/
inductive Encoding where
  | null | bool | i64 | u64 | f64 | dec | date | time | ts | tsz | interval | text | json | bytes | tagged
  deriving DecidableEq, Repr

/-- What sealing or reading a chunk can fail with. -/
inductive ColumnarError where
  | width (expected found : Nat)
  | mismatch (encoding : Encoding) (dataType : DataType)
  | corrupt (detail : String)
  | arrow (detail : String)
  deriving DecidableEq, Repr

@[match_pattern] abbrev tagNull : UInt8 := 0
@[match_pattern] abbrev tagBool : UInt8 := 1
@[match_pattern] abbrev tagInt : UInt8 := 2
@[match_pattern] abbrev tagUint : UInt8 := 3
@[match_pattern] abbrev tagFloat : UInt8 := 4
@[match_pattern] abbrev tagDecimal : UInt8 := 5
@[match_pattern] abbrev tagText : UInt8 := 6
@[match_pattern] abbrev tagBytes : UInt8 := 7
@[match_pattern] abbrev tagTimestamp : UInt8 := 8
@[match_pattern] abbrev tagDate : UInt8 := 9
@[match_pattern] abbrev tagTime : UInt8 := 10
@[match_pattern] abbrev tagInterval : UInt8 := 11
@[match_pattern] abbrev tagJson : UInt8 := 12
@[match_pattern] abbrev tagArray : UInt8 := 13
@[match_pattern] abbrev tagRow : UInt8 := 14
@[match_pattern] abbrev tagMap : UInt8 := 15
@[match_pattern] abbrev tagUnknown : UInt8 := 16

/-- Presence bits for an unknown value: its text follows, its raw bytes follow. -/
def hasText : UInt8 := 1
def hasRaw : UInt8 := 2

/-- The flags of an unknown value. -/
def presence (text raw : Bool) : UInt8 := (if text then hasText else 0) ||| (if raw then hasRaw else 0)

/-- The deepest nesting a value may have. -/
def maxDepth : Nat := 64

/-- The longest text or byte string the reader takes. -/
def maxLength : Nat := 256 * 1024 * 1024

def tooDeep : ColumnarError := .corrupt s!"value nests deeper than {maxDepth}"

/-- `(len as u32).to_le_bytes()`. -/
def encodeLength (length : Nat) : List UInt8 := leBytes 4 length

def encodeBytes (bytes : List UInt8) : List UInt8 := encodeLength bytes.length ++ bytes

mutual
/-- `encode_at`: the blob of a value at its depth. -/
def encodeAt (depth : Nat) (value : Value) : Except ColumnarError (List UInt8) :=
  if depth > maxDepth then .error tooDeep
  else match value with
    | .null => .ok [tagNull]
    | .bool flag => .ok [tagBool, if flag then 1 else 0]
    | .int number => .ok (tagInt :: leBytes 8 number.toUInt64.toNat)
    | .uint number => .ok (tagUint :: leBytes 8 number.toNat)
    | .float bits => .ok (tagFloat :: leBytes 8 bits.toNat)
    | .decimal unscaled scale => .ok (tagDecimal :: (leBytes 16 unscaled.toNat ++ [scale]))
    | .text text => .ok (tagText :: encodeBytes (utf8 text))
    | .bytes bytes => .ok (tagBytes :: encodeBytes bytes)
    | .json text => .ok (tagJson :: encodeBytes (utf8 text))
    | .timestamp micros offset =>
      .ok (tagTimestamp :: (leBytes 8 micros.toUInt64.toNat ++ match offset with
        | some offset => 1 :: leBytes 4 offset.toUInt32.toNat
        | none => [0]))
    | .date days => .ok (tagDate :: leBytes 4 days.toUInt32.toNat)
    | .time micros => .ok (tagTime :: leBytes 8 micros.toUInt64.toNat)
    | .interval interval =>
      .ok (tagInterval :: (leBytes 4 interval.months.toUInt32.toNat ++
        (leBytes 4 interval.days.toUInt32.toNat ++ leBytes 8 interval.micros.toUInt64.toNat)))
    | .array items => do
      let body ← encodeItems (depth + 1) items
      .ok (tagArray :: (encodeLength items.length ++ body))
    | .row fields => do
      let body ← encodeItems (depth + 1) fields
      .ok (tagRow :: (encodeLength fields.length ++ body))
    | .map pairs => do
      let body ← encodePairs (depth + 1) pairs
      .ok (tagMap :: (encodeLength pairs.length ++ body))
    | .unknown typeName text raw =>
      .ok (tagUnknown :: (encodeBytes (utf8 typeName) ++
        (presence text.isSome raw.isSome ::
          ((text.elim [] fun text => encodeBytes (utf8 text)) ++ raw.elim [] encodeBytes))))

/-- The blobs of the items of a composite, one after another. -/
def encodeItems (depth : Nat) (items : List Value) : Except ColumnarError (List UInt8) :=
  match items with
  | [] => .ok []
  | item :: items => do
    let first ← encodeAt depth item
    let rest ← encodeItems depth items
    .ok (first ++ rest)

/-- The keys and items of a map in turn. -/
def encodePairs (depth : Nat) (pairs : List (Value × Value)) : Except ColumnarError (List UInt8) :=
  match pairs with
  | [] => .ok []
  | (key, item) :: pairs => do
    let first ← encodeAt depth key
    let second ← encodeAt depth item
    let rest ← encodePairs depth pairs
    .ok (first ++ (second ++ rest))
end

/-- `encode_value`. -/
def encodeValue (value : Value) : Except ColumnarError (List UInt8) := encodeAt 0 value

/-- `Reader`: a cursor over one blob, by the bytes it has passed and those ahead. -/
structure Reader where
  position : Nat
  ahead : List UInt8

/-- `Reader::new`. -/
def Reader.ofBlob (blob : List UInt8) : Reader := ⟨0, blob⟩

/-- A read takes bytes off the cursor or fails. -/
abbrev Read (α : Type) := Reader → Except ColumnarError (α × Reader)

def Reader.isEmpty (reader : Reader) : Bool := reader.ahead.isEmpty

/-- `take`: the next bytes, refused when there are fewer. -/
def Reader.take (count : Nat) : Read (List UInt8) := fun reader =>
  if count ≤ reader.ahead.length then
    .ok (reader.ahead.take count, ⟨reader.position + count, reader.ahead.drop count⟩)
  else
    .error (.corrupt s!"wanted {count} bytes at {reader.position} of {reader.position + reader.ahead.length}")

def Reader.u8 : Read UInt8 := fun reader => do
  let (bytes, reader) ← reader.take 1
  .ok (bytes.headD 0, reader)

/-- An unsigned integer of so many bytes. -/
def Reader.le (count : Nat) : Read Nat := fun reader => do
  let (bytes, reader) ← reader.take count
  .ok (leValue bytes, reader)

def Reader.i32 : Read Int32 := fun reader => do
  let (n, reader) ← reader.le 4
  .ok ((UInt32.ofNat n).toInt32, reader)

def Reader.i64 : Read Int64 := fun reader => do
  let (n, reader) ← reader.le 8
  .ok ((UInt64.ofNat n).toInt64, reader)

/-- `length_prefixed`: no longer than the reader's own limit. -/
def Reader.lengthPrefixed : Read (List UInt8) := fun reader => do
  let (length, reader) ← reader.le 4
  if length > maxLength then .error (.corrupt s!"length prefix {length} over 256 MiB")
  else reader.take length

def Reader.text : Read String := fun reader => do
  let (bytes, reader) ← reader.lengthPrefixed
  match fromUtf8 bytes with
  | some text => .ok (text, reader)
  | none => .error (.corrupt "invalid UTF-8 in text")

def readIf (there : Bool) (read : Read α) : Read (Option α) := fun reader =>
  if there then do
    let (part, reader) ← read reader
    .ok (some part, reader)
  else .ok (none, reader)

def readMany (read : Read α) : Nat → Read (List α)
  | 0, reader => .ok ([], reader)
  | count + 1, reader => do
    let (first, reader) ← read reader
    let (rest, reader) ← readMany read count reader
    .ok (first :: rest, reader)

/-- `decode_composite`: a count and so many values; a map's loop over its pairs
does the same. -/
def decodeComposite (read : Read α) : Read (List α) := fun reader => do
  let (count, reader) ← reader.le 4
  readMany read count reader

/-- A key and its item. -/
def readPair (read : Read α) : Read (α × α) := fun reader => do
  let (key, reader) ← read reader
  let (item, reader) ← read reader
  .ok ((key, item), reader)

def decodeUnknown (typeName : String) : Read Value := fun reader => do
  let (flags, reader) ← reader.u8
  if flags &&& ~~~(hasText ||| hasRaw) ≠ 0 then .error (.corrupt s!"unknown-value flags {flags.toNat}")
  else do
    let (text, reader) ← readIf (flags &&& hasText != 0) Reader.text reader
    let (raw, reader) ← readIf (flags &&& hasRaw != 0) Reader.lengthPrefixed reader
    .ok (.unknown typeName text raw, reader)

/-- The arms of `decode_value`, with `nested` for the values one level down. -/
def decodeBody (nested : Read Value) (tag : UInt8) : Read Value := fun reader =>
  match tag with
  | tagNull => .ok (.null, reader)
  | tagBool => do
    let (flag, reader) ← reader.u8
    .ok (.bool (flag != 0), reader)
  | tagInt => do
    let (number, reader) ← reader.i64
    .ok (.int number, reader)
  | tagUint => do
    let (number, reader) ← reader.le 8
    .ok (.uint (.ofNat number), reader)
  | tagFloat => do
    let (bits, reader) ← reader.le 8
    .ok (.float (.ofNat bits), reader)
  | tagDecimal => do
    let (unscaled, reader) ← reader.le 16
    let (scale, reader) ← reader.u8
    .ok (.decimal (.ofNat 128 unscaled) scale, reader)
  | tagText => do
    let (text, reader) ← reader.text
    .ok (.text text, reader)
  | tagBytes => do
    let (bytes, reader) ← reader.lengthPrefixed
    .ok (.bytes bytes, reader)
  | tagJson => do
    let (text, reader) ← reader.text
    .ok (.json text, reader)
  | tagTimestamp => do
    let (micros, reader) ← reader.i64
    let (flag, reader) ← reader.u8
    if flag = 0 then .ok (.timestamp micros none, reader)
    else if flag = 1 then do
      let (offset, reader) ← reader.i32
      .ok (.timestamp micros (some offset), reader)
    else .error (.corrupt s!"timestamp offset flag {flag.toNat}")
  | tagDate => do
    let (days, reader) ← reader.i32
    .ok (.date days, reader)
  | tagTime => do
    let (micros, reader) ← reader.i64
    .ok (.time micros, reader)
  | tagInterval => do
    let (months, reader) ← reader.i32
    let (days, reader) ← reader.i32
    let (micros, reader) ← reader.i64
    .ok (.interval ⟨months, days, micros⟩, reader)
  | tagArray => do
    let (items, reader) ← decodeComposite nested reader
    .ok (.array items, reader)
  | tagRow => do
    let (fields, reader) ← decodeComposite nested reader
    .ok (.row fields, reader)
  | tagMap => do
    let (pairs, reader) ← decodeComposite (readPair nested) reader
    .ok (.map pairs, reader)
  | tagUnknown => do
    let (typeName, reader) ← reader.text
    decodeUnknown typeName reader
  | other => .error (.corrupt s!"value tag {other.toNat}")

def decodeTagged (nested : Read Value) : Read Value := fun reader => do
  let (tag, reader) ← reader.u8
  decodeBody nested tag reader

/-- `decode_value` with so many levels of nesting left. -/
def decodeLevels : Nat → Read Value
  | 0 => decodeTagged fun _ => .error tooDeep
  | levels + 1 => decodeTagged (decodeLevels levels)

/-- `decode_nested`: one level down, refused where no level is left. -/
def decodeNested : Nat → Read Value
  | 0 => fun _ => .error tooDeep
  | levels + 1 => decodeLevels levels

theorem decodeLevels_eq (levels : Nat) : decodeLevels levels = decodeTagged (decodeNested levels) := by
  cases levels <;> rfl

/-- `decode_value` on a new reader. -/
def decodeValue (reader : Reader) : Except ColumnarError (Value × Reader) := decodeLevels maxDepth reader

/-- A text or byte string that the reader takes. -/
def fitsLength (bytes : List UInt8) : Bool := bytes.length ≤ maxLength

mutual
/-- Every length inside the value survives its prefix and the reader's limit. -/
def fits : Value → Bool
  | .text text | .json text => fitsLength (utf8 text)
  | .bytes bytes => fitsLength bytes
  | .array items | .row items => decide (items.length < 2 ^ 32) && fitsAll items
  | .map pairs => decide (pairs.length < 2 ^ 32) && fitsPairs pairs
  | .unknown typeName text raw =>
    fitsLength (utf8 typeName) && text.all (fun text => fitsLength (utf8 text)) && raw.all fitsLength
  | _ => true

def fitsAll : List Value → Bool
  | [] => true
  | item :: items => fits item && fitsAll items

def fitsPairs : List (Value × Value) → Bool
  | [] => true
  | (key, item) :: pairs => fits key && (fits item && fitsPairs pairs)
end

/-- Reading these bytes gives this result, and stops right behind them, exactly
under this condition. -/
def Inverts (read : Read α) (bytes : List UInt8) (result : α) (kept : Bool) : Prop :=
  ∀ position after reader, read ⟨position, bytes ++ after⟩ = .ok (result, reader) ↔
    kept ∧ reader = ⟨position + bytes.length, after⟩

theorem take_front (position : Nat) (front after : List UInt8) :
    Reader.take front.length ⟨position, front ++ after⟩ = .ok (front, ⟨position + front.length, after⟩) := by
  have enough : front.length ≤ (front ++ after).length := by
    rw [List.length_append]
    exact Nat.le_add_right _ _
  rw [Reader.take, if_pos enough, List.take_left, List.drop_left]

theorem take_length (taken : Reader.take count before = .ok (bytes, after)) : bytes.length = count := by
  unfold Reader.take at taken
  split at taken
  · next enough =>
    cases taken
    rw [List.length_take, Nat.min_eq_left enough]
  · cases taken

theorem u8_front (position : Nat) (byte : UInt8) (after : List UInt8) :
    Reader.u8 ⟨position, byte :: after⟩ = .ok (byte, ⟨position + 1, after⟩) := by
  have taken := take_front position [byte] after
  rw [List.length_singleton, List.cons_append, List.nil_append] at taken
  rw [Reader.u8, taken]
  rfl

theorem le_front (position count n : Nat) (after : List UInt8) :
    Reader.le count ⟨position, leBytes count n ++ after⟩ = .ok (n % 256 ^ count, ⟨position + count, after⟩) := by
  have taken := take_front position (leBytes count n) after
  rw [length_leBytes] at taken
  rw [Reader.le, taken, ← leValue_leBytes]
  rfl

theorem i32_front (position : Nat) (value : Int32) (after : List UInt8) :
    Reader.i32 ⟨position, leBytes 4 value.toUInt32.toNat ++ after⟩ = .ok (value, ⟨position + 4, after⟩) := by
  have fits : value.toUInt32.toNat % 256 ^ 4 = value.toUInt32.toNat := Nat.mod_eq_of_lt value.toUInt32.toNat_lt
  rw [Reader.i32, le_front, fits]
  exact congrArg (fun same => Except.ok (same, _)) (by simp)

theorem i64_front (position : Nat) (value : Int64) (after : List UInt8) :
    Reader.i64 ⟨position, leBytes 8 value.toUInt64.toNat ++ after⟩ = .ok (value, ⟨position + 8, after⟩) := by
  have fits : value.toUInt64.toNat % 256 ^ 8 = value.toUInt64.toNat := Nat.mod_eq_of_lt value.toUInt64.toNat_lt
  rw [Reader.i64, le_front, fits]
  exact congrArg (fun same => Except.ok (same, _)) (by simp)

/-- A byte string comes back when its length is within the reader's limit: a
longer one is refused, and one whose length does not fit its prefix is cut. -/
theorem lengthPrefixed_inverts (bytes : List UInt8) :
    Inverts Reader.lengthPrefixed (encodeBytes bytes) bytes (fitsLength bytes) := by
  intro position after reader
  have prefixed : encodeBytes bytes ++ after = leBytes 4 bytes.length ++ (bytes ++ after) := by
    rw [encodeBytes, encodeLength, List.append_assoc]
  have length : (encodeBytes bytes).length = 4 + bytes.length := by
    rw [encodeBytes, encodeLength, List.length_append, length_leBytes]
  have small : maxLength < 256 ^ 4 := by decide
  simp only [Reader.lengthPrefixed, prefixed, le_front, length, fitsLength, decide_eq_true_eq]
  by_cases fits : bytes.length < 256 ^ 4
  · rw [Nat.mod_eq_of_lt fits]
    change (if bytes.length > maxLength then _ else Reader.take bytes.length ⟨position + 4, bytes ++ after⟩) = _ ↔ _
    rw [take_front]
    split
    · next long => exact iff_of_false (fun failed => nomatch failed) fun kept => absurd kept.1 (Nat.not_le.mpr long)
    · next short =>
      rw [Except.ok.injEq, Prod.mk.injEq, Nat.add_assoc]
      exact and_congr (iff_of_true rfl (Nat.le_of_not_lt short)) eq_comm
  · -- The prefix holds the length modulo 2^32, so what is taken is shorter than what was written.
    have long : ¬bytes.length ≤ maxLength := fun short => fits (Nat.lt_of_le_of_lt short small)
    refine iff_of_false ?_ fun kept => long kept.1
    change ¬(if bytes.length % 256 ^ 4 > maxLength then _
      else Reader.take (bytes.length % 256 ^ 4) ⟨position + 4, bytes ++ after⟩) = _
    split
    · exact fun failed => nomatch failed
    · intro taken
      have cut := take_length taken
      have below := Nat.mod_lt bytes.length (by decide : 256 ^ 4 > 0)
      omega

theorem text_inverts (text : String) :
    Inverts Reader.text (encodeBytes (utf8 text)) text (fitsLength (utf8 text)) := by
  intro position after reader
  have bytes := lengthPrefixed_inverts (utf8 text) position after
  constructor
  · intro decoded
    obtain ⟨⟨found, rest⟩, taken, spelled⟩ := bind_ok_iff.mp decoded
    simp only at spelled
    split at spelled
    · next read =>
      cases spelled
      rw [← utf8_of_fromUtf8 read] at taken
      exact (bytes reader).mp taken
    · cases spelled
  · intro kept
    have taken := (bytes reader).mpr kept
    simp only [Reader.text, taken, bind, Except.bind, fromUtf8_utf8]

theorem readIf_none (read : Read α) (reader : Reader) : readIf false read reader = .ok (none, reader) := rfl

theorem readIf_inverts {read : Read α} (part : Option α) (write : α → List UInt8) (kept : α → Bool)
    (inverts : ∀ x, Inverts read (write x) x (kept x)) :
    Inverts (readIf part.isSome read) (part.elim [] write) part (part.all kept) := by
  intro position after reader
  cases part with
  | none =>
    simp only [Option.isSome_none, readIf_none, Option.elim_none, List.nil_append, Except.ok.injEq, Prod.mk.injEq,
      true_and, Option.all_none, List.length_nil, Nat.add_zero]
    exact eq_comm
  | some x =>
    have inner := inverts x position after
    constructor
    · intro decoded
      obtain ⟨⟨found, rest⟩, taken, same⟩ := bind_ok_iff.mp decoded
      cases same
      exact (inner reader).mp taken
    · intro fits
      have taken := (inner reader).mpr fits
      simp only [readIf, Option.isSome_some, if_true, Option.elim_some, taken, bind, Except.bind]

theorem readMany_length {read : Read α} (taken : readMany read count before = .ok (items, after)) :
    items.length = count := by
  induction count generalizing before items with
  | zero =>
    cases taken
    rfl
  | succ count ih =>
    obtain ⟨⟨first, middle⟩, -, taken⟩ := bind_ok_iff.mp taken
    obtain ⟨⟨rest, last⟩, later, same⟩ := bind_ok_iff.mp taken
    cases same
    rw [List.length_cons, ih later]

theorem counted_inverts (read : Read α) (items : List α) (body : List UInt8) (kept : Bool)
    (inverts : Inverts (readMany read items.length) body items kept) :
    Inverts (decodeComposite read) (encodeLength items.length ++ body) items
      (decide (items.length < 2 ^ 32) && kept) := by
  intro position after reader
  have shape : encodeLength items.length ++ body ++ after = leBytes 4 items.length ++ (body ++ after) := by
    rw [encodeLength, List.append_assoc]
  have length : (encodeLength items.length ++ body).length = 4 + body.length := by
    rw [encodeLength, List.length_append, length_leBytes]
  have counted : decodeComposite read ⟨position, encodeLength items.length ++ body ++ after⟩ =
      readMany read (items.length % 256 ^ 4) ⟨position + 4, body ++ after⟩ := by
    rw [decodeComposite, shape, le_front]
    rfl
  rw [counted, length, Bool.and_eq_true, decide_eq_true_eq]
  by_cases fits : items.length < 2 ^ 32
  · have prefixed : items.length < 256 ^ 4 := fits
    rw [Nat.mod_eq_of_lt prefixed, inverts, Nat.add_assoc]
    exact and_congr_left' ((and_iff_right fits).symm)
  · -- Fewer values are read than were written.
    refine iff_of_false ?_ fun kept => fits kept.1.1
    intro taken
    have cut := readMany_length taken
    have below := Nat.mod_lt items.length (by decide : 256 ^ 4 > 0)
    omega

theorem inverts_of_front {read : Read α}
    (front : ∀ position after, read ⟨position, bytes ++ after⟩ = .ok (result, ⟨position + bytes.length, after⟩)) :
    Inverts read bytes result true := by
  intro position after reader
  rw [front, Except.ok.injEq, Prod.mk.injEq]
  exact and_congr (iff_of_true rfl rfl) eq_comm

/-- One read after another, where the final result tells what the first one gave. -/
theorem Inverts.bind {read : Read α} (first : Inverts read bytes x keptFirst) (next : α → Read β)
    (tells : ∀ other before after, next other before = .ok (y, after) → other = x)
    (second : Inverts (next x) more y keptSecond) :
    Inverts (fun reader => read reader >>= fun (a, reader) => next a reader) (bytes ++ more) y
      (keptFirst && keptSecond) := by
  intro position after reader
  rw [List.append_assoc, List.length_append, ← Nat.add_assoc, Bool.and_eq_true]
  constructor
  · intro decoded
    obtain ⟨⟨found, middle⟩, taken, rest⟩ := bind_ok_iff.mp decoded
    have same := tells found middle reader rest
    subst same
    obtain ⟨keptX, place⟩ := (first position (more ++ after) middle).mp taken
    rw [place] at rest
    obtain ⟨keptY, ending⟩ := (second (position + bytes.length) after reader).mp rest
    exact ⟨⟨keptX, keptY⟩, ending⟩
  · rintro ⟨⟨keptX, keptY⟩, ending⟩
    refine bind_ok_iff.mpr ⟨_, (first position (more ++ after) _).mpr ⟨keptX, rfl⟩, ?_⟩
    exact (second (position + bytes.length) after reader).mpr ⟨keptY, ending⟩

/-- A result put under a constructor. -/
theorem Inverts.map {read : Read α} {wrap : α → β} (injective : ∀ a b, wrap a = wrap b → a = b)
    (inner : Inverts read bytes x kept) :
    Inverts (fun reader => read reader >>= fun (a, reader) => .ok (wrap a, reader)) bytes (wrap x) kept := by
  have done : Inverts (fun reader => .ok (wrap x, reader)) [] (wrap x) true := inverts_of_front fun _ _ => rfl
  have whole := inner.bind (fun a reader => .ok (wrap a, reader))
    (fun other before after same => injective _ _ (Prod.mk.inj (Except.ok.inj same)).1) done
  rwa [List.append_nil, Bool.and_true] at whole

theorem Inverts.tagged (inner : Inverts (decodeBody nested tag) body value kept) :
    Inverts (decodeTagged nested) (tag :: body) value kept := by
  intro position after reader
  have first : decodeTagged nested ⟨position, tag :: body ++ after⟩ =
      decodeBody nested tag ⟨position + 1, body ++ after⟩ := by
    rw [decodeTagged, List.cons_append, u8_front]
    rfl
  rw [first, inner, List.length_cons, Nat.add_assoc, Nat.add_comm 1]

theorem composite_inverts {nested : Read Value} {read : Read α} {wrap : List α → Value}
    (arm : ∀ reader, decodeBody nested tag reader =
      decodeComposite read reader >>= fun (items, reader) => .ok (wrap items, reader))
    (injective : ∀ a b, wrap a = wrap b → a = b) (inner : Inverts (readMany read items.length) body items kept) :
    Inverts (decodeTagged nested) (tag :: (encodeLength items.length ++ body)) (wrap items)
      (decide (items.length < 2 ^ 32) && kept) := by
  apply Inverts.tagged
  have whole := (counted_inverts read items body kept inner).map injective
  intro position after reader
  rw [arm]
  exact whole position after reader

theorem many_inverts {read : Read α} (first : Inverts read bytes item keptItem)
    (rest : Inverts (readMany read count) more items keptItems) :
    Inverts (readMany read (count + 1)) (bytes ++ more) (item :: items) (keptItem && keptItems) := by
  refine first.bind (fun first reader => readMany read count reader >>= fun (rest, reader) =>
    .ok (first :: rest, reader)) ?_ (rest.map fun _ _ same => (List.cons.inj same).2)
  intro other before after same
  obtain ⟨⟨found, middle⟩, -, done⟩ := bind_ok_iff.mp same
  exact (List.cons.inj (Prod.mk.inj (Except.ok.inj done)).1).1

theorem pair_inverts {read : Read α} (first : Inverts read bytes key keptKey)
    (second : Inverts read more item keptItem) :
    Inverts (readPair read) (bytes ++ more) (key, item) (keptKey && keptItem) := by
  refine first.bind (fun key reader => read reader >>= fun (item, reader) =>
    .ok ((key, item), reader)) ?_ (second.map fun _ _ same => (Prod.mk.inj same).2)
  intro other before after same
  obtain ⟨⟨found, middle⟩, -, done⟩ := bind_ok_iff.mp same
  exact (Prod.mk.inj (Prod.mk.inj (Except.ok.inj done)).1).1

/-- Reads that succeed on the bytes they are given put their parts together. -/
theorem plain_inverts (front : ∀ position after, decodeBody nested tag ⟨position, body ++ after⟩ =
    .ok (value, ⟨position + body.length, after⟩)) : Inverts (decodeTagged nested) (tag :: body) value true :=
  (inverts_of_front front).tagged

theorem le_fits (count position : Nat) (fits : n < 256 ^ count) (after : List UInt8) :
    Reader.le count ⟨position, leBytes count n ++ after⟩ = .ok (n, ⟨position + count, after⟩) := by
  rw [le_front, Nat.mod_eq_of_lt fits]

theorem decimal_inverts (nested : Read Value) (unscaled : BitVec 128) (scale : UInt8) :
    Inverts (decodeTagged nested) (tagDecimal :: (leBytes 16 unscaled.toNat ++ [scale]))
      (.decimal unscaled scale) true := by
  apply plain_inverts
  intro position after
  have fits : unscaled.toNat < 256 ^ 16 := unscaled.isLt
  change (Reader.le 16 _ >>= _) = _
  simp only [List.append_assoc, le_fits 16 position fits, ok_bind, List.singleton_append, u8_front,
    List.length_append, length_leBytes, List.length_singleton, Nat.add_assoc, BitVec.ofNat_toNat, BitVec.setWidth_eq]

theorem timestamp_inverts (nested : Read Value) (micros : Int64) (offset : Option Int32) :
    Inverts (decodeTagged nested) (tagTimestamp :: (leBytes 8 micros.toUInt64.toNat ++ match offset with
      | some offset => 1 :: leBytes 4 offset.toUInt32.toNat
      | none => [0])) (.timestamp micros offset) true := by
  apply plain_inverts
  intro position after
  change (Reader.i64 _ >>= _) = _
  simp only [List.append_assoc, i64_front, ok_bind]
  cases offset with
  | none =>
    simp only [List.singleton_append, u8_front, ok_bind, if_true, List.length_append, length_leBytes,
      List.length_singleton, Nat.add_assoc]
  | some offset =>
    have flag : ¬(1 : UInt8) = 0 := by decide
    simp only [List.cons_append, u8_front, ok_bind, if_neg flag, if_true, i32_front, List.length_append,
      length_leBytes, List.length_cons, Nat.add_assoc, Nat.reduceAdd]

theorem interval_inverts (nested : Read Value) (interval : IntervalValue) :
    Inverts (decodeTagged nested) (tagInterval :: (leBytes 4 interval.months.toUInt32.toNat ++
      (leBytes 4 interval.days.toUInt32.toNat ++ leBytes 8 interval.micros.toUInt64.toNat)))
      (.interval interval) true := by
  apply plain_inverts
  intro position after
  change (Reader.i32 _ >>= _) = _
  simp only [List.append_assoc, i32_front, i64_front, ok_bind, List.length_append, length_leBytes, Nat.add_assoc]

theorem presence_known (text raw : Bool) : presence text raw &&& ~~~(hasText ||| hasRaw) = 0 := by
  cases text <;> cases raw <;> rfl

theorem presence_text (text raw : Bool) : (presence text raw &&& hasText != 0) = text := by
  cases text <;> cases raw <;> rfl

theorem presence_raw (text raw : Bool) : (presence text raw &&& hasRaw != 0) = raw := by
  cases text <;> cases raw <;> rfl

theorem parts_inverts (typeName : String) (text : Option String) (raw : Option (List UInt8)) :
    Inverts (fun reader => readIf text.isSome Reader.text reader >>= fun (text, reader) =>
        readIf raw.isSome Reader.lengthPrefixed reader >>= fun (raw, reader) =>
          .ok (Value.unknown typeName text raw, reader))
      ((text.elim [] fun text => encodeBytes (utf8 text)) ++ raw.elim [] encodeBytes) (.unknown typeName text raw)
      (text.all (fun text => fitsLength (utf8 text)) && raw.all fitsLength) := by
  have second := (readIf_inverts raw _ _ lengthPrefixed_inverts).map
    fun a b (same : Value.unknown typeName text a = .unknown typeName text b) => (Value.unknown.inj same).2.2
  refine (readIf_inverts text _ _ text_inverts).bind (fun text reader =>
    readIf raw.isSome Reader.lengthPrefixed reader >>= fun (raw, reader) =>
      .ok (Value.unknown typeName text raw, reader)) ?_ second
  intro other before after same
  obtain ⟨⟨found, middle⟩, -, done⟩ := bind_ok_iff.mp same
  cases done
  rfl

theorem flagged_inverts (typeName : String) (text : Option String) (raw : Option (List UInt8)) :
    Inverts (decodeUnknown typeName)
      (presence text.isSome raw.isSome ::
        ((text.elim [] fun text => encodeBytes (utf8 text)) ++ raw.elim [] encodeBytes))
      (.unknown typeName text raw)
      (text.all (fun text => fitsLength (utf8 text)) && raw.all fitsLength) := by
  intro position after reader
  have parts := parts_inverts typeName text raw (position + 1) after reader
  rw [List.length_cons, Nat.add_comm _ 1, ← Nat.add_assoc, ← parts]
  simp only [decodeUnknown, List.cons_append, u8_front, ok_bind, presence_known, ne_eq, not_true_eq_false, if_false,
    presence_text, presence_raw]

theorem unknown_inverts (nested : Read Value) (typeName : String) (text : Option String) (raw : Option (List UInt8)) :
    Inverts (decodeTagged nested) (tagUnknown :: (encodeBytes (utf8 typeName) ++
        (presence text.isSome raw.isSome ::
          ((text.elim [] fun text => encodeBytes (utf8 text)) ++ raw.elim [] encodeBytes))))
      (.unknown typeName text raw)
      (fitsLength (utf8 typeName) && (text.all (fun text => fitsLength (utf8 text)) && raw.all fitsLength)) := by
  apply Inverts.tagged
  refine (text_inverts typeName).bind decodeUnknown ?_ (flagged_inverts typeName text raw)
  intro other before after same
  obtain ⟨⟨flags, middle⟩, -, rest⟩ := bind_ok_iff.mp same
  dsimp only at rest
  split at rest
  · cases rest
  · obtain ⟨⟨foundText, later⟩, -, rest⟩ := bind_ok_iff.mp rest
    obtain ⟨⟨foundRaw, last⟩, -, done⟩ := bind_ok_iff.mp rest
    cases done
    rfl

theorem encodeAt_level (total : depth + levels = maxDepth) (encoded : encodeAt (depth + 1) value = .ok bytes) :
    ∃ inner, levels = inner + 1 := by
  cases levels with
  | succ inner => exact ⟨inner, rfl⟩
  | zero =>
    have deep : depth + 1 > maxDepth := by omega
    unfold encodeAt at encoded
    rw [if_pos deep] at encoded
    cases encoded

mutual
theorem decode_inverts (value : Value) (total : depth + levels = maxDepth)
    (encoded : encodeAt depth value = .ok bytes) : Inverts (decodeLevels levels) bytes value (fits value) := by
  have shallow : ¬depth > maxDepth := by omega
  rw [decodeLevels_eq]
  unfold encodeAt at encoded
  rw [if_neg shallow] at encoded
  cases value with
  | null =>
    cases encoded
    exact plain_inverts fun _ _ => rfl
  | bool flag =>
    cases encoded
    refine plain_inverts fun position after => ?_
    change (Reader.u8 ⟨position, _ :: after⟩ >>= _) = _
    rw [u8_front]
    cases flag <;> rfl
  | int number =>
    cases encoded
    refine plain_inverts fun position after => ?_
    change (Reader.i64 _ >>= _) = _
    simp only [i64_front, ok_bind, length_leBytes]
  | uint number =>
    cases encoded
    refine plain_inverts fun position after => ?_
    change (Reader.le 8 _ >>= _) = _
    simp only [le_fits 8 position number.toNat_lt, ok_bind, length_leBytes, UInt64.ofNat_toNat]
  | float bits =>
    cases encoded
    refine plain_inverts fun position after => ?_
    change (Reader.le 8 _ >>= _) = _
    simp only [le_fits 8 position bits.toNat_lt, ok_bind, length_leBytes, UInt64.ofNat_toNat]
  | decimal unscaled scale =>
    cases encoded
    exact decimal_inverts _ unscaled scale
  | text text =>
    cases encoded
    apply Inverts.tagged
    exact (text_inverts text).map fun _ _ => Value.text.inj
  | bytes bytes =>
    cases encoded
    apply Inverts.tagged
    exact (lengthPrefixed_inverts bytes).map fun _ _ => Value.bytes.inj
  | json text =>
    cases encoded
    apply Inverts.tagged
    exact (text_inverts text).map fun _ _ => Value.json.inj
  | timestamp micros offset =>
    cases encoded
    exact timestamp_inverts _ micros offset
  | date days =>
    cases encoded
    refine plain_inverts fun position after => ?_
    change (Reader.i32 _ >>= _) = _
    simp only [i32_front, ok_bind, length_leBytes]
  | time micros =>
    cases encoded
    refine plain_inverts fun position after => ?_
    change (Reader.i64 _ >>= _) = _
    simp only [i64_front, ok_bind, length_leBytes]
  | interval interval =>
    cases encoded
    exact interval_inverts _ interval
  | array items =>
    obtain ⟨body, written, done⟩ := bind_ok_iff.mp encoded
    cases done
    exact composite_inverts (fun _ => rfl) (fun _ _ => Value.array.inj) (items_invert items total written)
  | row fields =>
    obtain ⟨body, written, done⟩ := bind_ok_iff.mp encoded
    cases done
    exact composite_inverts (fun _ => rfl) (fun _ _ => Value.row.inj) (items_invert fields total written)
  | map pairs =>
    obtain ⟨body, written, done⟩ := bind_ok_iff.mp encoded
    cases done
    exact composite_inverts (fun _ => rfl) (fun _ _ => Value.map.inj) (pairs_invert pairs total written)
  | unknown typeName text raw =>
    cases encoded
    have whole := unknown_inverts (decodeNested levels) typeName text raw
    rwa [← Bool.and_assoc] at whole

theorem items_invert (items : List Value) (total : depth + levels = maxDepth)
    (encoded : encodeItems (depth + 1) items = .ok body) :
    Inverts (readMany (decodeNested levels) items.length) body items (fitsAll items) := by
  cases items with
  | nil =>
    unfold encodeItems at encoded
    cases encoded
    exact inverts_of_front fun _ _ => rfl
  | cons item items =>
    unfold encodeItems at encoded
    obtain ⟨first, written, encoded⟩ := bind_ok_iff.mp encoded
    obtain ⟨rest, later, done⟩ := bind_ok_iff.mp encoded
    cases done
    obtain ⟨inner, rfl⟩ := encodeAt_level total written
    have level : depth + 1 + inner = maxDepth := by omega
    exact many_inverts (decode_inverts item level written) (items_invert items total later)

theorem pairs_invert (pairs : List (Value × Value)) (total : depth + levels = maxDepth)
    (encoded : encodePairs (depth + 1) pairs = .ok body) :
    Inverts (readMany (readPair (decodeNested levels)) pairs.length) body pairs (fitsPairs pairs) := by
  cases pairs with
  | nil =>
    unfold encodePairs at encoded
    cases encoded
    exact inverts_of_front fun _ _ => rfl
  | cons pair pairs =>
    obtain ⟨key, item⟩ := pair
    unfold encodePairs at encoded
    obtain ⟨first, written, encoded⟩ := bind_ok_iff.mp encoded
    obtain ⟨second, wrote, encoded⟩ := bind_ok_iff.mp encoded
    obtain ⟨rest, later, done⟩ := bind_ok_iff.mp encoded
    cases done
    obtain ⟨inner, rfl⟩ := encodeAt_level total written
    have level : depth + 1 + inner = maxDepth := by omega
    have both := pair_inverts (decode_inverts key level written) (decode_inverts item level wrote)
    have whole := many_inverts both (pairs_invert pairs total later)
    rwa [List.append_assoc, Bool.and_assoc] at whole
end

/-- A blob read on its own gives its value back, with nothing left, exactly when the value fits. -/
theorem decodeValue_blob (encoded : encodeValue value = .ok blob) :
    decodeValue (.ofBlob blob) = .ok (value, reader) ↔ fits value ∧ reader = ⟨blob.length, []⟩ := by
  have whole := decode_inverts value (Nat.zero_add maxDepth) encoded 0 [] reader
  rwa [List.append_nil, Nat.zero_add] at whole

end QueryHive.Columnar
