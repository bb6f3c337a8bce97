import QueryHive.Columnar.Tagged

/-! How deep a value of the tagged codec may nest. The encoder passes the depth down as it
descends and the decoder keeps it in the reader; both stop at the same level, so that what one
writes the other reads and the other way around. -/
namespace QueryHive.Columnar
open QueryHive.Library.Bytes QueryHive.Library.Result QueryHive.Library.Text QueryHive.Store

/-- `Reader` with the depth `decode_nested` counts in it. -/
structure Cursor where
  reader : Reader
  depth : Nat

/-- `Reader::new`. -/
def Cursor.ofBlob (blob : List UInt8) : Cursor := ⟨.ofBlob blob, 0⟩

abbrev CursorRead (α : Type) := Cursor → Except ColumnarError (α × Cursor)

def readFlat (read : Read α) : CursorRead α := fun cursor => do
  let (a, reader) ← read cursor.reader
  .ok (a, ⟨reader, cursor.depth⟩)

/-- `decode_nested`: the depth goes up for the value and down again behind it. -/
def cursorNested (decode : CursorRead Value) : CursorRead Value := fun cursor =>
  if cursor.depth ≥ maxDepth then .error tooDeep
  else do
    let (value, cursor) ← decode ⟨cursor.reader, cursor.depth + 1⟩
    .ok (value, ⟨cursor.reader, cursor.depth - 1⟩)

def cursorMany (read : CursorRead α) : Nat → CursorRead (List α)
  | 0, cursor => .ok ([], cursor)
  | count + 1, cursor => do
    let (first, cursor) ← read cursor
    let (rest, cursor) ← cursorMany read count cursor
    .ok (first :: rest, cursor)

/-- `decode_composite`. -/
def cursorComposite (read : CursorRead α) : CursorRead (List α) := fun cursor => do
  let (count, cursor) ← readFlat (Reader.le 4) cursor
  cursorMany read count cursor

def cursorPair (read : CursorRead α) : CursorRead (α × α) := fun cursor => do
  let (key, cursor) ← read cursor
  let (item, cursor) ← read cursor
  .ok ((key, item), cursor)

/-- The arms of `decode_value`: three of them descend. -/
def cursorBody (nested : CursorRead Value) (tag : UInt8) : CursorRead Value := fun cursor =>
  match tag with
  | tagArray => do
    let (items, cursor) ← cursorComposite nested cursor
    .ok (.array items, cursor)
  | tagRow => do
    let (fields, cursor) ← cursorComposite nested cursor
    .ok (.row fields, cursor)
  | tagMap => do
    let (pairs, cursor) ← cursorComposite (cursorPair nested) cursor
    .ok (.map pairs, cursor)
  | other => readFlat (decodeBody (fun _ => .error tooDeep) other) cursor

/-- `decode_value`. The fuel bounds the calls inside one another; the depth runs out first. -/
def cursorValue : Nat → CursorRead Value
  | 0 => fun _ => .error tooDeep
  | fuel + 1 => fun cursor => do
    let (tag, cursor) ← readFlat Reader.u8 cursor
    cursorBody (cursorNested (cursorValue fuel)) tag cursor

/-- `decode_value` on a new reader: no more than `MAX_DEPTH` calls are inside the first. -/
def decodeCursor (blob : List UInt8) : Except ColumnarError (Value × Cursor) :=
  cursorValue (maxDepth + 1) (.ofBlob blob)

/-- A read that leaves the depth as it was and otherwise does what `flat` does. -/
def Follows (depth : Nat) (read : CursorRead α) (flat : Read α) : Prop :=
  ∀ reader, read ⟨reader, depth⟩ = readFlat flat ⟨reader, depth⟩

theorem follows_flat (depth : Nat) (read : Read α) : Follows depth (readFlat read) read := fun _ => rfl

theorem follows_ok (depth : Nat) (a : α) :
    Follows depth (fun cursor => .ok (a, cursor)) (fun reader => .ok (a, reader)) := fun _ => rfl

theorem follows_bind {first : CursorRead α} {flat : Read α} {next : α → CursorRead β} {after : α → Read β}
    (here : Follows depth first flat) (there : ∀ a, Follows depth (next a) (after a)) :
    Follows depth (fun cursor => first cursor >>= fun (a, cursor) => next a cursor)
      (fun reader => flat reader >>= fun (a, reader) => after a reader) := by
  intro reader
  have start := here reader
  simp only [readFlat] at start ⊢
  rw [start]
  cases flat reader with
  | error e => rfl
  | ok found => exact there found.1 found.2

theorem follows_many {read : CursorRead α} {flat : Read α} (each : Follows depth read flat) (count : Nat) :
    Follows depth (cursorMany read count) (readMany flat count) := by
  induction count with
  | zero => exact fun _ => rfl
  | succ count ih =>
    exact follows_bind each fun first => follows_bind ih fun rest => follows_ok depth (first :: rest)

theorem follows_composite {read : CursorRead α} {flat : Read α} (each : Follows depth read flat) :
    Follows depth (cursorComposite read) (decodeComposite flat) :=
  follows_bind (follows_flat depth (Reader.le 4)) fun count => follows_many each count

theorem follows_pair {read : CursorRead α} {flat : Read α} (each : Follows depth read flat) :
    Follows depth (cursorPair read) (readPair flat) :=
  follows_bind each fun key => follows_bind each fun item => follows_ok depth (key, item)

theorem decodeBody_flat {first second : Read Value} (array : tag ≠ tagArray) (row : tag ≠ tagRow) (map : tag ≠ tagMap) :
    decodeBody first tag = decodeBody second tag := by
  funext reader
  unfold decodeBody
  split <;> first | rfl | exact (array rfl).elim | exact (row rfl).elim | exact (map rfl).elim

theorem follows_body {nested : CursorRead Value} {flat : Read Value} (each : Follows depth nested flat) (tag : UInt8) :
    Follows depth (cursorBody nested tag) (decodeBody flat tag) := by
  unfold cursorBody
  split
  · exact follows_bind (follows_composite each) fun items => follows_ok depth (Value.array items)
  · exact follows_bind (follows_composite each) fun fields => follows_ok depth (Value.row fields)
  · exact follows_bind (follows_composite (follows_pair each)) fun pairs => follows_ok depth (Value.map pairs)
  · next other array row map =>
    intro reader
    rw [decodeBody_flat array row map]

theorem follows_value (total : depth + levels = maxDepth) (enough : levels < fuel) :
    Follows depth (cursorValue fuel) (decodeLevels levels) := by
  induction fuel generalizing depth levels with
  | zero => exact absurd enough (Nat.not_lt_zero _)
  | succ fuel ih =>
    have nested : Follows depth (cursorNested (cursorValue fuel)) (decodeNested levels) := by
      intro reader
      cases levels with
      | zero =>
        have full : depth ≥ maxDepth := by omega
        simp only [cursorNested, if_pos full]
        rfl
      | succ levels =>
        have open_level : ¬depth ≥ maxDepth := by omega
        have inner := ih (by omega : depth + 1 + levels = maxDepth) (by omega) reader
        simp only [cursorNested, if_neg open_level, inner, readFlat, decodeNested]
        cases decodeLevels levels reader with
        | error e => rfl
        | ok found => rfl
    rw [decodeLevels_eq]
    exact follows_bind (follows_flat depth Reader.u8) fun tag => follows_body nested tag

/-- Keeping the depth in the reader decodes what counting the levels left decodes. -/
theorem decodeCursor_eq (blob : List UInt8) :
    decodeCursor blob = (decodeValue (.ofBlob blob)).map fun (value, reader) => (value, ⟨reader, 0⟩) := by
  have whole := follows_value (Nat.zero_add maxDepth) (Nat.lt_succ_self maxDepth) (.ofBlob blob)
  rw [decodeCursor, Cursor.ofBlob, whole]
  simp only [readFlat, decodeValue]
  cases decodeLevels maxDepth (.ofBlob blob) with
  | error e => rfl
  | ok found => rfl

mutual
/-- The number of composites around the deepest value inside. -/
def nesting : Value → Nat
  | .array items | .row items => nestingItems items
  | .map pairs => nestingPairs pairs
  | _ => 0

def nestingItems : List Value → Nat
  | [] => 0
  | item :: items => max (nesting item + 1) (nestingItems items)

def nestingPairs : List (Value × Value) → Nat
  | [] => 0
  | (key, item) :: pairs => max (max (nesting key + 1) (nesting item + 1)) (nestingPairs pairs)
end

theorem bind_ok_exists {first : Except ε α} {next : α → β} :
    (∃ result, (first >>= fun a => Except.ok (next a)) = .ok result) ↔ ∃ a, first = .ok a := by
  constructor
  · rintro ⟨result, ran⟩
    obtain ⟨a, ran, -⟩ := bind_ok_iff.mp ran
    exact ⟨a, ran⟩
  · rintro ⟨a, rfl⟩
    exact ⟨next a, rfl⟩

mutual
/-- A value is written exactly where its deepest part is within the limit. -/
theorem encodeAt_ok_iff (value : Value) (depth : Nat) :
    (∃ blob, encodeAt depth value = .ok blob) ↔ depth + nesting value ≤ maxDepth := by
  unfold encodeAt
  by_cases deep : depth > maxDepth
  · rw [if_pos deep]
    exact iff_of_false (fun ⟨_, failed⟩ => nomatch failed) (by omega)
  · rw [if_neg deep]
    cases value with
    | array items => exact bind_ok_exists.trans (encodeItems_ok_iff items depth (Nat.le_of_not_lt deep))
    | row fields => exact bind_ok_exists.trans (encodeItems_ok_iff fields depth (Nat.le_of_not_lt deep))
    | map pairs => exact bind_ok_exists.trans (encodePairs_ok_iff pairs depth (Nat.le_of_not_lt deep))
    | null | bool | int | uint | float | decimal | text | bytes | timestamp | date | time | interval | json
    | unknown => exact iff_of_true ⟨_, rfl⟩ (Nat.le_of_not_lt deep)

theorem encodeItems_ok_iff (items : List Value) (depth : Nat) (shallow : depth ≤ maxDepth) :
    (∃ body, encodeItems (depth + 1) items = .ok body) ↔ depth + nestingItems items ≤ maxDepth := by
  cases items with
  | nil => exact iff_of_true ⟨[], rfl⟩ shallow
  | cons item items =>
    have first := encodeAt_ok_iff item (depth + 1)
    have rest := encodeItems_ok_iff items depth shallow
    unfold encodeItems nestingItems
    constructor
    · rintro ⟨body, ran⟩
      obtain ⟨blob, wrote, ran⟩ := bind_ok_iff.mp ran
      obtain ⟨later, ran, -⟩ := bind_ok_iff.mp ran
      have here := first.mp ⟨blob, wrote⟩
      have there := rest.mp ⟨later, ran⟩
      omega
    · intro within
      obtain ⟨blob, wrote⟩ := first.mpr (by omega)
      obtain ⟨later, ran⟩ := rest.mpr (by omega)
      exact ⟨blob ++ later, by rw [wrote, ok_bind, ran, ok_bind]⟩

theorem encodePairs_ok_iff (pairs : List (Value × Value)) (depth : Nat) (shallow : depth ≤ maxDepth) :
    (∃ body, encodePairs (depth + 1) pairs = .ok body) ↔ depth + nestingPairs pairs ≤ maxDepth := by
  cases pairs with
  | nil => exact iff_of_true ⟨[], rfl⟩ shallow
  | cons pair pairs =>
    obtain ⟨key, item⟩ := pair
    have first := encodeAt_ok_iff key (depth + 1)
    have second := encodeAt_ok_iff item (depth + 1)
    have rest := encodePairs_ok_iff pairs depth shallow
    unfold encodePairs nestingPairs
    constructor
    · rintro ⟨body, ran⟩
      obtain ⟨blob, wrote, ran⟩ := bind_ok_iff.mp ran
      obtain ⟨other, written, ran⟩ := bind_ok_iff.mp ran
      obtain ⟨later, ran, -⟩ := bind_ok_iff.mp ran
      have here := first.mp ⟨blob, wrote⟩
      have beside := second.mp ⟨other, written⟩
      have there := rest.mp ⟨later, ran⟩
      omega
    · intro within
      obtain ⟨blob, wrote⟩ := first.mpr (by omega)
      obtain ⟨other, written⟩ := second.mpr (by omega)
      obtain ⟨later, ran⟩ := rest.mpr (by omega)
      exact ⟨blob ++ (other ++ later), by rw [wrote, ok_bind, written, ok_bind, ran, ok_bind]⟩
end

/-- A read that only moves forward over its bytes, and whose results are good. -/
def Sound (good : α → Prop) (read : Read α) : Prop :=
  ∀ before a after, read before = .ok (a, after) →
    good a ∧ ∃ used, before.ahead = used ++ after.ahead ∧ after.position = before.position + used.length

theorem sound_ok (good : α → Prop) (a : α) (is_good : good a) : Sound good fun reader => .ok (a, reader) := by
  rintro before b after ⟨⟩
  exact ⟨is_good, [], rfl, rfl⟩

theorem sound_error (good : α → Prop) (e : ColumnarError) : Sound good fun _ => .error e := by
  rintro before a after ⟨⟩

theorem sound_bind {read : Read α} {next : α → Read β} (first : Sound good read)
    (second : ∀ a, good a → Sound fine (next a)) :
    Sound fine fun reader => read reader >>= fun (a, reader) => next a reader := by
  intro before b after ran
  obtain ⟨⟨a, middle⟩, ran, later⟩ := bind_ok_iff.mp ran
  obtain ⟨is_good, used, front, place⟩ := first before a middle ran
  obtain ⟨is_fine, more, back, ending⟩ := second a is_good middle b after later
  refine ⟨is_fine, used ++ more, ?_, ?_⟩
  · rw [front, back, List.append_assoc]
  · rw [ending, place, List.length_append, Nat.add_assoc]

theorem sound_take (count : Nat) : Sound (fun _ => True) (Reader.take count) := by
  intro before bytes after taken
  unfold Reader.take at taken
  split at taken
  · next enough =>
    cases taken
    refine ⟨trivial, before.ahead.take count, (List.take_append_drop _ _).symm, ?_⟩
    rw [List.length_take, Nat.min_eq_left enough]
  · cases taken

theorem sound_u8 : Sound (fun _ => True) Reader.u8 :=
  sound_bind (sound_take 1) fun bytes _ => sound_ok _ (bytes.headD 0) trivial

theorem sound_le (count : Nat) : Sound (fun _ => True) (Reader.le count) :=
  sound_bind (sound_take count) fun bytes _ => sound_ok _ (leValue bytes) trivial

theorem sound_i32 : Sound (fun _ => True) Reader.i32 :=
  sound_bind (sound_le 4) fun n _ => sound_ok _ (UInt32.ofNat n).toInt32 trivial

theorem sound_i64 : Sound (fun _ => True) Reader.i64 :=
  sound_bind (sound_le 8) fun n _ => sound_ok _ (UInt64.ofNat n).toInt64 trivial

theorem sound_if [Decidable p] {yes no : Read α} (first : Sound good yes) (second : Sound good no) :
    Sound good fun reader => if p then yes reader else no reader := by
  by_cases condition : p
  · simpa only [if_pos condition] using first
  · simpa only [if_neg condition] using second

theorem sound_lengthPrefixed : Sound (fun _ => True) Reader.lengthPrefixed :=
  sound_bind (sound_le 4) fun length _ => sound_if (p := length > maxLength)
    (sound_error _ (.corrupt s!"length prefix {length} over 256 MiB")) (sound_take length)

theorem sound_text : Sound (fun _ => True) Reader.text := by
  intro before text after taken
  obtain ⟨⟨bytes, middle⟩, taken, spelled⟩ := bind_ok_iff.mp taken
  dsimp only at spelled
  split at spelled
  · cases spelled
    exact ⟨trivial, (sound_lengthPrefixed before bytes _ taken).2⟩
  · cases spelled

theorem sound_readIf {read : Read α} (there : Bool) (sound : Sound (fun _ => True) read) :
    Sound (fun _ => True) (readIf there read) := by
  cases there with
  | false => exact sound_ok _ none trivial
  | true => exact sound_bind sound fun part _ => sound_ok _ (some part) trivial

theorem sound_many {read : Read α} (sound : Sound good read) (count : Nat) :
    Sound (fun items => ∀ item ∈ items, good item) (readMany read count) := by
  induction count with
  | zero => exact sound_ok _ [] fun _ inside => absurd inside List.not_mem_nil
  | succ count ih =>
    refine sound_bind sound fun first is_good => sound_bind ih fun rest all_good => sound_ok _ (first :: rest) ?_
    exact List.forall_mem_cons.mpr ⟨is_good, all_good⟩

theorem sound_composite {read : Read α} (sound : Sound good read) :
    Sound (fun items => ∀ item ∈ items, good item) (decodeComposite read) :=
  sound_bind (sound_le 4) fun count _ => sound_many sound count

theorem sound_pair {read : Read α} (sound : Sound good read) :
    Sound (fun pair => good pair.1 ∧ good pair.2) (readPair read) :=
  sound_bind sound fun key first => sound_bind sound fun item second => sound_ok _ (key, item) ⟨first, second⟩

theorem sound_unknown (typeName : String) (levels : Nat) :
    Sound (fun value => nesting value ≤ levels) (decodeUnknown typeName) := by
  have parts : ∀ flags : UInt8, Sound (fun value => nesting value ≤ levels) fun reader =>
      readIf (flags &&& hasText != 0) Reader.text reader >>= fun text =>
        readIf (flags &&& hasRaw != 0) Reader.lengthPrefixed text.2 >>= fun raw =>
          .ok (.unknown typeName text.1 raw.1, raw.2) := by
    intro flags
    exact sound_bind (sound_readIf _ sound_text) fun text _ => sound_bind (sound_readIf _ sound_lengthPrefixed)
      fun raw _ => sound_ok _ (Value.unknown typeName text raw) (Nat.zero_le _)
  exact sound_bind sound_u8 fun flags _ => sound_if (p := flags &&& ~~~(hasText ||| hasRaw) ≠ 0)
    (sound_error _ (.corrupt s!"unknown-value flags {flags.toNat}")) (parts flags)

theorem nestingItems_le (each : ∀ item ∈ items, nesting item + 1 ≤ levels) : nestingItems items ≤ levels := by
  induction items with
  | nil => exact Nat.zero_le _
  | cons item items ih =>
    unfold nestingItems
    exact Nat.max_le.mpr ⟨each item List.mem_cons_self, ih fun other inside => each other (.tail _ inside)⟩

theorem nestingPairs_le (each : ∀ pair ∈ pairs, nesting pair.1 + 1 ≤ levels ∧ nesting pair.2 + 1 ≤ levels) :
    nestingPairs pairs ≤ levels := by
  induction pairs with
  | nil => exact Nat.zero_le _
  | cons pair pairs ih =>
    unfold nestingPairs
    exact Nat.max_le.mpr ⟨Nat.max_le.mpr (each pair List.mem_cons_self),
      ih fun other inside => each other (.tail _ inside)⟩

theorem sound_body {nested : Read Value} (sound : Sound (fun value => nesting value + 1 ≤ levels) nested)
    (tag : UInt8) :
    Sound (fun value => nesting value ≤ levels) (decodeBody nested tag) := by
  unfold decodeBody
  split
  · exact sound_ok _ Value.null (Nat.zero_le _)
  · exact sound_bind sound_u8 fun flag _ => sound_ok _ (Value.bool (flag != 0)) (Nat.zero_le _)
  · exact sound_bind sound_i64 fun number _ => sound_ok _ (Value.int number) (Nat.zero_le _)
  · exact sound_bind (sound_le 8) fun number _ => sound_ok _ (Value.uint (.ofNat number)) (Nat.zero_le _)
  · exact sound_bind (sound_le 8) fun bits _ => sound_ok _ (Value.float (.ofNat bits)) (Nat.zero_le _)
  · exact sound_bind (sound_le 16) fun unscaled _ => sound_bind sound_u8 fun scale _ =>
      sound_ok _ (Value.decimal (.ofNat 128 unscaled) scale) (Nat.zero_le _)
  · exact sound_bind sound_text fun text _ => sound_ok _ (Value.text text) (Nat.zero_le _)
  · exact sound_bind sound_lengthPrefixed fun bytes _ => sound_ok _ (Value.bytes bytes) (Nat.zero_le _)
  · exact sound_bind sound_text fun text _ => sound_ok _ (Value.json text) (Nat.zero_le _)
  · have zoned : ∀ micros, Sound (fun value => nesting value ≤ levels) fun reader =>
        Reader.i32 reader >>= fun offset => .ok (.timestamp micros (some offset.1), offset.2) := by
      intro micros
      exact sound_bind sound_i32 fun offset _ => sound_ok _ (Value.timestamp micros (some offset)) (Nat.zero_le _)
    exact sound_bind sound_i64 fun micros _ => sound_bind sound_u8 fun flag _ => sound_if (p := flag = 0)
      (sound_ok _ (Value.timestamp micros none) (Nat.zero_le levels)) (sound_if (p := flag = 1) (zoned micros)
        (sound_error _ (.corrupt s!"timestamp offset flag {flag.toNat}")))
  · exact sound_bind sound_i32 fun days _ => sound_ok _ (Value.date days) (Nat.zero_le _)
  · exact sound_bind sound_i64 fun micros _ => sound_ok _ (Value.time micros) (Nat.zero_le _)
  · exact sound_bind sound_i32 fun months _ => sound_bind sound_i32 fun days _ => sound_bind sound_i64 fun micros _ =>
      sound_ok _ (Value.interval ⟨months, days, micros⟩) (Nat.zero_le _)
  · exact sound_bind (sound_composite sound) fun items each => sound_ok _ (Value.array items) (nestingItems_le each)
  · exact sound_bind (sound_composite sound) fun fields each => sound_ok _ (Value.row fields) (nestingItems_le each)
  · exact sound_bind (sound_composite (sound_pair sound)) fun pairs each =>
      sound_ok _ (Value.map pairs) (nestingPairs_le each)
  · exact sound_bind sound_text fun typeName _ => sound_unknown typeName levels
  · exact sound_error _ _

theorem sound_levels (levels : Nat) : Sound (fun value => nesting value ≤ levels) (decodeLevels levels) := by
  induction levels with
  | zero => exact sound_bind sound_u8 fun tag _ => sound_body (sound_error _ _) tag
  | succ levels ih =>
    have inner : Sound (fun value => nesting value + 1 ≤ levels + 1) (decodeLevels levels) := by
      intro before value after taken
      obtain ⟨within, forward⟩ := ih before value after taken
      exact ⟨Nat.succ_le_succ within, forward⟩
    exact sound_bind sound_u8 fun tag _ => sound_body inner tag

mutual
/-- Every text, byte string and list inside the value is shorter than 2^28. -/
def short : Value → Bool
  | .text text | .json text => decide ((utf8 text).length < 2 ^ 28)
  | .bytes bytes => decide (bytes.length < 2 ^ 28)
  | .array items | .row items => decide (items.length < 2 ^ 28) && shortAll items
  | .map pairs => decide (pairs.length < 2 ^ 28) && shortPairs pairs
  | .unknown typeName text raw =>
    decide ((utf8 typeName).length < 2 ^ 28) && text.all (fun text => decide ((utf8 text).length < 2 ^ 28)) &&
      raw.all (fun raw => decide (raw.length < 2 ^ 28))
  | _ => true

def shortAll : List Value → Bool
  | [] => true
  | item :: items => short item && shortAll items

def shortPairs : List (Value × Value) → Bool
  | [] => true
  | (key, item) :: pairs => short key && (short item && shortPairs pairs)
end

theorem fitsLength_of_short (bytes : List UInt8) (small : decide (bytes.length < 2 ^ 28) = true) :
    fitsLength bytes = true := by
  have below : bytes.length < 2 ^ 28 := of_decide_eq_true small
  exact decide_eq_true (Nat.le_of_lt below)

mutual
/-- Such lengths survive their prefixes and the reader's limit. -/
theorem fits_of_short (value : Value) (small : short value = true) : fits value = true := by
  have counted : ∀ count : Nat, count < 2 ^ 28 → decide (count < 2 ^ 32) = true :=
    fun count below => decide_eq_true (Nat.lt_trans below (by decide))
  cases value with
  | text text | json text => exact fitsLength_of_short _ small
  | bytes bytes => exact fitsLength_of_short _ small
  | array items | row items =>
    obtain ⟨length, each⟩ := Bool.and_eq_true_iff.mp small
    exact Bool.and_eq_true_iff.mpr ⟨counted _ (of_decide_eq_true length), fitsAll_of_short items each⟩
  | map pairs =>
    obtain ⟨length, each⟩ := Bool.and_eq_true_iff.mp small
    exact Bool.and_eq_true_iff.mpr ⟨counted _ (of_decide_eq_true length), fitsPairs_of_short pairs each⟩
  | unknown typeName text raw =>
    obtain ⟨front, last⟩ := Bool.and_eq_true_iff.mp small
    obtain ⟨name, middle⟩ := Bool.and_eq_true_iff.mp front
    refine Bool.and_eq_true_iff.mpr ⟨Bool.and_eq_true_iff.mpr ⟨fitsLength_of_short _ name, ?_⟩, ?_⟩
    · cases text with
      | none => rfl
      | some text => exact fitsLength_of_short _ middle
    · cases raw with
      | none => rfl
      | some raw => exact fitsLength_of_short _ last
  | null | bool | int | uint | float | decimal | timestamp | date | time | interval => rfl

theorem fitsAll_of_short (items : List Value) (small : shortAll items = true) : fitsAll items = true := by
  cases items with
  | nil => rfl
  | cons item items =>
    obtain ⟨first, rest⟩ := Bool.and_eq_true_iff.mp small
    exact Bool.and_eq_true_iff.mpr ⟨fits_of_short item first, fitsAll_of_short items rest⟩

theorem fitsPairs_of_short (pairs : List (Value × Value)) (small : shortPairs pairs = true) :
    fitsPairs pairs = true := by
  cases pairs with
  | nil => rfl
  | cons pair pairs =>
    obtain ⟨key, item⟩ := pair
    obtain ⟨first, rest⟩ := Bool.and_eq_true_iff.mp small
    obtain ⟨second, rest⟩ := Bool.and_eq_true_iff.mp rest
    exact Bool.and_eq_true_iff.mpr
      ⟨fits_of_short key first, Bool.and_eq_true_iff.mpr ⟨fits_of_short item second, fitsPairs_of_short pairs rest⟩⟩
end

theorem decodeCursor_front (small : short value = true) (encoded : encodeValue value = .ok blob) (after : List UInt8) :
    decodeCursor (blob ++ after) = .ok (value, ⟨⟨blob.length, after⟩, 0⟩) := by
  have whole := (decode_inverts value (Nat.zero_add maxDepth) encoded 0 after ⟨blob.length, after⟩).mpr
    ⟨fits_of_short value small, by rw [Nat.zero_add]⟩
  rw [decodeCursor_eq, decodeValue, Reader.ofBlob, whole]
  rfl

theorem decodeCursor_sound (decoded : decodeCursor blob = .ok (value, cursor)) :
    (cursor.reader.position ≤ blob.length ∧ cursor.reader.ahead = blob.drop cursor.reader.position ∧ cursor.depth = 0) ∧
      ∃ again, encodeValue value = .ok again := by
  rw [decodeCursor_eq] at decoded
  match taken : decodeValue (.ofBlob blob) with
  | .error e =>
    rw [taken] at decoded
    cases decoded
  | .ok (found, reader) =>
    rw [taken] at decoded
    cases decoded
    obtain ⟨within, used, front, place⟩ := sound_levels maxDepth (.ofBlob blob) value reader taken
    have whole : blob = used ++ reader.ahead := front
    have passed : reader.position = used.length := place.trans (Nat.zero_add _)
    refine ⟨⟨?_, ?_, rfl⟩, (encodeAt_ok_iff value 0).mpr (by omega)⟩
    · rw [passed, whole, List.length_append]
      exact Nat.le_add_right _ _
    · rw [passed, whole, List.drop_left]

/-- The codec gives back exactly what it accepts. Writing succeeds on every value that nests no
deeper than the limit and on no other; what it wrote is read back and nothing behind it; and a
buffer of any bytes is read within its bounds, to a value that can be written. -/
theorem codec_round_trips :
    (∀ value, short value = true → ((∃ blob, encodeValue value = .ok blob) ↔ nesting value ≤ maxDepth)) ∧
    (∀ value blob after, short value = true → encodeValue value = .ok blob →
      decodeCursor (blob ++ after) = .ok (value, ⟨⟨blob.length, after⟩, 0⟩)) ∧
    ∀ bytes value cursor, decodeCursor bytes = .ok (value, cursor) →
      (cursor.reader.position ≤ bytes.length ∧ cursor.reader.ahead = bytes.drop cursor.reader.position ∧
        cursor.depth = 0) ∧ ∃ blob, encodeValue value = .ok blob := by
  refine ⟨?_, ?_, ?_⟩
  · intro value _
    rw [encodeValue, encodeAt_ok_iff, Nat.zero_add]
  · intro value blob after small encoded
    exact decodeCursor_front small encoded after
  · intro bytes value cursor decoded
    exact decodeCursor_sound decoded

end QueryHive.Columnar
