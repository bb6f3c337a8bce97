import QueryHive.Library.Runs
import QueryHive.Columnar.Chunk

/-! The logical schema of a finished result. Its column types come from the
statistics merged over the whole result, while each chunk was sealed on its own;
`logical_batch` rebuilds a chunk's columns for the schema. A column is rebuilt
as text when its type is text, and taken as it is when its chunk was stored in
that very type. A chunk-column that holds only NULLs, or tagged blobs, is rebuilt
as text even where the schema names another type. -/
namespace QueryHive.Store.Logical
open QueryHive.Columnar QueryHive.Library.Result QueryHive.Library.Runs

/-- What storing or rebuilding a chunk can fail with. -/
inductive StoreError where
  | columnCount (expected found : Nat)
  | internal (detail : String)
  | corrupt (detail : ColumnarError)
  | rebuild (detail : String)
  | arrow (detail : String)

/-! ### The store -/

/-- The columns of a published chunk and the totals over all chunks so far. -/
structure ResultStore where
  width : Nat
  chunks : List SealedChunk
  stats : List ColumnStats

/-- `begin`: the column list is declared and nothing is published. -/
def ResultStore.begin (width : Nat) : ResultStore := ⟨width, [], List.replicate width {}⟩

/-- `batch.num_rows()`. -/
def numRows (chunk : SealedChunk) : Nat := (chunk.batch.map ArrowArray.length).headD 0

def readColumn (array : ArrowArray) (encoding : Encoding) (rows : Nat) : Except StoreError (List Value) :=
  (List.range rows).mapM fun row =>
    match valueAt array encoding row with
    | .ok value => .ok value
    | .error e => .error (.corrupt e)

/-- The shortcut over a column of texts: nothing is read but the validity bits. -/
def observeText (kind : UInt32) (stats : ColumnStats) (text : Option String) : ColumnStats :=
  { stats with
    rows := stats.rows + 1
    variants := if text.isSome then stats.variants ||| kind else stats.variants }

/-- The statistics of one column of a chunk, as `seal_store_chunk` takes them. -/
def columnStats (array : ArrowArray) (encoding : Encoding) (rows : Nat) : Except StoreError ColumnStats :=
  match encoding, array with
  | .text, .utf8 cells => .ok (cells.foldl (observeText vText) {})
  | .json, .utf8 cells => .ok (cells.foldl (observeText vJson) {})
  | _, _ => do
    let values ← readColumn array encoding rows
    .ok (statsOf values)

/-- `seal_store_chunk`: the statistics of every column. -/
def sealStoreChunk (sealed : SealedChunk) : Except StoreError (List ColumnStats) :=
  (sealed.batch.zip sealed.encodings).mapM fun (array, encoding) => columnStats array encoding (numRows sealed)

/-- A push of one chunk: seal it, read it back for its statistics, publish it and
merge them. A push that fails leaves the store as it was. -/
def ResultStore.push (store : ResultStore) (columns : List (List Value)) : Except StoreError ResultStore :=
  match sealColumns columns with
  | .error e => .error (.corrupt e)
  | .ok sealed =>
    if sealed.batch.length ≠ store.width then .error (.columnCount store.width sealed.batch.length)
    else do
      let deltas ← sealStoreChunk sealed
      .ok { store with chunks := store.chunks ++ [sealed], stats := mergeStats store.stats deltas }

def publish (store : ResultStore) (columns : List (List Value)) : Option ResultStore := (store.push columns).toOption

/-- `logical_schema`: the type of each column. -/
def logicalSchema (stats : List ColumnStats) : List DataType := stats.map logicalType

/-! ### Rebuilding a chunk -/

section
variable (writeText : Value → String)

/-- `text_of`: NULL is the empty text, anything else what the renderer writes.
No type depends on what it writes. -/
def textOf (array : ArrowArray) (encoding : Encoding) (row : Nat) : Except StoreError String :=
  match valueAt array encoding row with
  | .error e => .error (.corrupt e)
  | .ok .null => .ok ""
  | .ok value => .ok (writeText value)

/-- `utf8_array`: each cell's text, NULL where it is empty. -/
def utf8Array (array : ArrowArray) (encoding : Encoding) : Except StoreError ArrowArray := do
  let cells ← (List.range array.length).mapM fun row => do
    let text ← textOf writeText array encoding row
    .ok (if text = "" then none else some text)
  .ok (.utf8 cells)

def FitsSigned (bits : Nat) (n : Int) : Prop := -2 ^ (bits - 1) ≤ n ∧ n < 2 ^ (bits - 1)

instance (bits : Nat) (n : Int) : Decidable (FitsSigned bits n) := inferInstanceAs (Decidable (_ ∧ _))

def rescaleCell (factor : Int) : Option (BitVec 128) → Except StoreError (Option (BitVec 128))
  | none => .ok none
  | some value =>
    if factor = 0 then .ok (some value)
    else if FitsSigned 128 (value.toInt * factor) then .ok (some (BitVec.ofInt 128 (value.toInt * factor)))
    else .error (.rebuild "decimal rescale overflow")

/-- `rescale_decimals`: to a larger scale by multiplying, to a smaller one not at all. -/
def rescaleDecimals (array : ArrowArray) (target : Int8) : Except StoreError ArrowArray :=
  match array with
  | .decimal128 _ scale cells =>
    let factor := if scale < target then 10 ^ (target.toInt - scale.toInt).toNat else 0
    if 38 < target then .error (.arrow s!"scale {target} is greater than max 38")
    else do
      let cells ← cells.mapM (rescaleCell factor)
      .ok (.decimal128 38 target cells)
  | _ => .error (.rebuild "logical decimal target is not a decimal array")

/-- The microseconds between a chunk's zone and the column's; a zone that is no
offset counts as UTC. -/
def shiftMicros (source target : Option String) : Int :=
  (((source.bind offsetOf).getD 0).toInt - ((target.bind offsetOf).getD 0).toInt) * 1000000

def shiftCell (delta : Int) : Option Int64 → Except StoreError (Option Int64)
  | none => .ok none
  | some micros =>
    if FitsSigned 64 (micros.toInt + delta) then .ok (some (Int64.ofInt (micros.toInt + delta)))
    else .error (.rebuild "timestamp shift overflow")

/-- `shift_timestamps`: the cells under the column's zone. -/
def shiftTimestamps (array : ArrowArray) (target : Option String) : Except StoreError ArrowArray :=
  match array with
  | .timestampMicros (some source) cells => do
    let cells ← cells.mapM (shiftCell (shiftMicros (some source) target))
    .ok (.timestampMicros target cells)
  | .timestampMicros none _ => .error (.rebuild "source timestamp has no zone but is being relabelled")
  | _ => .error (.rebuild "logical timestamp target is not a timestamp array")

/-- The last arms of `build_logical_array`: a column of the very type is taken as
it is, and everything else falls through to text. -/
def cloneOrText (array : ArrowArray) (encoding : Encoding) (type : DataType) : Except StoreError ArrowArray :=
  if array.dataType = type then .ok array else utf8Array writeText array encoding

/-- `build_logical_array`. -/
def buildLogicalArray (array : ArrowArray) (encoding : Encoding) (type : DataType) (rows : Nat) :
    Except StoreError ArrowArray :=
  match type with
  | .utf8 => utf8Array writeText array encoding
  | .decimal128 precision scale =>
    if precision = 38 ∧ encoding = .dec then
      match array with
      | .decimal128 _ chunkScale _ => if chunkScale = scale then .ok array else rescaleDecimals array scale
      | _ => rescaleDecimals array scale
    else cloneOrText writeText array encoding type
  | .timestampMicros zone =>
    if encoding = .tsz then shiftTimestamps array zone else cloneOrText writeText array encoding type
  | .null => .ok (.null rows)
  | type => cloneOrText writeText array encoding type

/-- The loop body of `logical_batch`: a target column for the schema's type at an
index. The source panics past the schema's types. -/
def logicalColumn (chunk : SealedChunk) (types : List DataType) (column index : Nat) : Except StoreError ArrowArray :=
  let target := min column (chunk.batch.length - 1)
  match chunk.batch[target]?, types[index]? with
  | some array, some type =>
    buildLogicalArray writeText array (chunk.encodings[target]?.getD .null) type (numRows chunk)
  | _, _ => .error (.internal "index out of bounds")

/-- `logical_batch`: the target columns of a chunk, rebuilt for the schema, and what `RecordBatch::try_new` makes of
them. -/
def logicalBatch (tryNew : List DataType → List ArrowArray → Except StoreError (List ArrowArray))
    (chunk : SealedChunk) (targets : List Nat) (types : List DataType) :
    Except StoreError (List ArrowArray) := do
  let arrays ← targets.zipIdx.mapM fun (column, index) => logicalColumn writeText chunk types column index
  tryNew types arrays

end

/-! ### The totals know every chunk -/

def Within (bit mask : UInt32) : Prop := bit ||| mask = mask

theorem within_left (within : Within bit mask) (other : UInt32) : Within bit (mask ||| other) := by
  rw [Within, ← UInt32.or_assoc, within]

theorem within_right (within : Within bit mask) (other : UInt32) : Within bit (other ||| mask) := by
  rw [UInt32.or_comm]
  exact within_left within other

theorem fold_within (cells : List Value) (within : Within bit stats.variants) :
    Within bit (cells.foldl observe stats).variants := by
  induction cells generalizing stats with
  | nil => exact within
  | cons cell cells ih =>
    apply ih
    rw [observe_variants]
    exact within_left within _

/-- The summary of some cells has the bits of each. -/
theorem stats_within (cells : List Value) (stats : ColumnStats) :
    ∀ cell ∈ cells, Within (kindBit cell) (cells.foldl observe stats).variants := by
  induction cells generalizing stats with
  | nil => exact fun _ inside => absurd inside List.not_mem_nil
  | cons cell cells ih =>
    refine List.forall_mem_cons.mpr ⟨?_, ih _⟩
    rw [List.foldl_cons]
    apply fold_within
    rw [observe_variants, Within, UInt32.or_comm, UInt32.or_assoc, UInt32.or_self]

/-- What a running total knows of the cells of one chunk it has merged. -/
structure Covers (total : ColumnStats) (cells : List Value) : Prop where
  begun : total.rows = 0 → cells = []
  bits : ∀ cell ∈ cells, Within (kindBit cell) total.variants
  top : total.scaleUniform = true → cells ≠ [] → topScale cells = total.maxScale

private theorem max_self (scale : UInt8) : max scale scale = scale := if_pos (UInt8.le_refl scale)

theorem covers_own (total : ColumnStats) (cells : List Value) : Covers (mergeColumn total (statsOf cells)) cells := by
  have rows := stats_rows cells
  have top := (stats_of_tracks cells).top
  unfold mergeColumn
  split
  · refine ⟨fun empty => ?_, stats_within cells {}, fun _ _ => top.symm⟩
    rw [rows] at empty
    exact List.eq_nil_of_length_eq_zero empty
  · refine ⟨fun empty => ?_, fun cell inside => within_right (stats_within cells {} cell inside) _, fun uniform _ => ?_⟩
    · change total.rows + (statsOf cells).rows = 0 at empty
      rw [rows] at empty
      exact List.eq_nil_of_length_eq_zero (Nat.eq_zero_of_add_eq_zero_left empty)
    · dsimp only at uniform ⊢
      split at uniform
      · cases uniform
      · next same =>
        rw [← top, Decidable.not_not.mp same, max_self]

theorem covers_merge (covers : Covers total cells) (delta : ColumnStats) : Covers (mergeColumn total delta) cells := by
  unfold mergeColumn
  split
  · next fresh =>
    rw [covers.begun fresh]
    exact ⟨fun _ => rfl, fun _ inside => absurd inside List.not_mem_nil, fun _ some => absurd rfl some⟩
  · next started =>
    refine ⟨fun empty => ?_, fun cell inside => within_left (covers.bits cell inside) _, fun uniform some => ?_⟩
    · change total.rows + delta.rows = 0 at empty
      exact absurd (Nat.eq_zero_of_add_eq_zero_right empty) started
    · dsimp only at uniform ⊢
      split at uniform
      · cases uniform
      · next same =>
        rw [Decidable.not_not.mp same, max_self]
        exact covers.top uniform some

/-! ### The type and the kind of a chunk -/

/-- The bit of the values a typed array holds. -/
def kindMask : ColumnKind → UInt32
  | .bool => vBool
  | .i64 => vInt
  | .u64 => vUint
  | .f64 => vFloat
  | .dec _ => vDec
  | .date => vDate
  | .time => vTime
  | .ts => vTs
  | .tsz _ => vTsz
  | .interval => vInterval
  | .text => vText
  | .json => vJson
  | .bytes => vBytes
  | .null | .tagged => 0

theorem single_mask (plain : kind ≠ .tagged) (same : single cell = some kind) : kindBit cell = kindMask kind := by
  unfold single at same
  split at same <;> first
    | (cases same <;> first | rfl | exact absurd rfl plain)
    | (split at same <;> cases same <;> first | rfl | exact absurd rfl plain)

/-- The masks that give a column a type of its own. -/
def typedMasks : List UInt32 :=
  [vBool, vInt, vUint, vFloat, vDec, vDate, vTime, vTs, vTsz, vInterval, vBytes]

theorem typed_mask (some : logicalType stats ≠ .null) (typed : logicalType stats ≠ .utf8) :
    stats.variants ∈ typedMasks := by
  by_contra outside
  simp only [typedMasks, List.mem_cons, List.not_mem_nil, or_false, not_or] at outside
  obtain ⟨bool, int, uint, float, dec, date, time, ts, tsz, interval, bytes⟩ := outside
  have text : logicalType stats = if stats.variants = 0 then .null else .utf8 := by
    simp only [logicalType, bool, int, uint, float, dec, date, time, ts, tsz, interval, bytes, if_false, ite_self]
  by_cases none : stats.variants = 0
  · exact some (text.trans (if_pos none))
  · exact typed (text.trans (if_neg none))

def masks : List UInt32 := 0 :: vText :: vJson :: vComposite :: vUnknown :: typedMasks

/-- A typed column has values of one kind only. -/
theorem mask_unique (bit : UInt32) (known : bit ∈ masks) (mask : UInt32) (typed : mask ∈ typedMasks)
    (within : Within bit mask) : bit = 0 ∨ bit = mask := by
  have table : (masks.all fun bit => typedMasks.all fun mask =>
    bit ||| mask != mask || bit == 0 || bit == mask) = true := by
    decide
  have row := List.all_eq_true.mp (List.all_eq_true.mp table bit known) mask typed
  have same : (bit ||| mask != mask) = false := bne_eq_false_iff_eq.mpr within
  rw [same, Bool.false_or, Bool.or_eq_true, beq_iff_eq, beq_iff_eq] at row
  exact row

theorem kindMask_known (kind : ColumnKind) : kindMask kind ∈ masks := by
  cases kind <;> (dsimp only [kindMask]; decide)

theorem kindMask_zero (zero : kindMask kind = 0) : kind = .null ∨ kind = .tagged := by
  cases kind with
  | null => exact .inl rfl
  | tagged => exact .inr rfl
  | _ => exact absurd zero (by dsimp only [kindMask]; decide)

theorem variants_of_kind (some : logicalType total ≠ .null) (typed : logicalType total ≠ .utf8)
    (covers : Covers total cells) (inside : cell ∈ cells) (plain : kind ≠ .tagged) (same : single cell = .some kind)
    (there : kind ≠ .null) : total.variants = kindMask kind := by
  have within := covers.bits cell inside
  rw [single_mask plain same] at within
  rcases mask_unique _ (kindMask_known kind) _ (typed_mask some typed) within with zero | equal
  · rcases kindMask_zero zero with rfl | rfl
    · exact absurd rfl there
    · exact absurd rfl plain
  · exact equal.symm

/-! ### Reading a stored column -/

theorem build_length (built : buildColumn kind column = .ok array) : array.length = column.length := by
  cases kind with
  | dec scale =>
    obtain rfl := decimalArray_ok built
    exact List.length_map _
  | interval =>
    obtain ⟨cells, ran, done⟩ := bind_ok_iff.mp built
    cases done
    exact (mapM_length ran).symm
  | tagged =>
    obtain ⟨cells, ran, done⟩ := bind_ok_iff.mp built
    cases done
    exact (mapM_length ran).symm
  | null =>
    cases built
    rfl
  | _ =>
    cases built
    exact List.length_map _

theorem readColumn_row (read : readColumn array encoding rows = .ok values) (inside : row < rows) :
    ∃ found, valueAt array encoding row = .ok found ∧ values[row]? = some found := by
  obtain ⟨found, step, there⟩ := mapM_get read (List.getElem?_range inside)
  split at step
  · next reads =>
    cases step
    exact ⟨found, reads, there⟩
  · cases step

theorem readColumn_length (read : readColumn array encoding rows = .ok values) : values.length = rows :=
  (mapM_length read).symm.trans List.length_range

theorem readColumn_typed (plain : pickEncoding column ≠ .tagged)
    (built : buildColumn (pickEncoding column) column = .ok array)
    (read : readColumn array (pickEncoding column).encoding column.length = .ok values) : values = column := by
  apply List.ext_getElem?
  intro row
  by_cases inside : row < column.length
  · obtain ⟨found, reads, there⟩ := readColumn_row read inside
    have place : column[row]? = some column[row] := List.getElem?_eq_getElem inside
    rw [there, place]
    rcases pick_allows plain (List.getElem_mem inside) with own | own
    · have absent := single_none own
      rw [absent] at place ⊢
      exact congrArg some (Except.ok.inj (reads.symm.trans (null_reads built place)))
    · exact congrArg some ((typed_reads plain own built place).mp reads).2.symm
  · have outside : column.length ≤ row := Nat.le_of_not_lt inside
    rw [List.getElem?_eq_none outside, List.getElem?_eq_none (readColumn_length read ▸ outside)]

/-! ### Reading a tagged column -/

theorem decodeValue_tag (tag : UInt8) (body : List UInt8) :
    decodeValue (.ofBlob (tag :: body)) = decodeBody (decodeNested maxDepth) tag ⟨1, body⟩ := by
  rw [decodeValue, decodeLevels_eq, decodeTagged, Reader.ofBlob, u8_front]
  rfl

theorem blob_mask (written : encodeValue cell = .ok blob) (decoded : decodeValue (.ofBlob blob) = .ok (found, reader)) :
    kindBit found = kindBit cell := by
  by_cases kept : fits cell
  · have whole := (decodeValue_blob written).mpr ⟨kept, rfl⟩
    rw [whole] at decoded
    cases decoded
    rfl
  · unfold encodeValue encodeAt at written
    rw [if_neg (by decide)] at written
    cases cell with
    | text text =>
      cases written
      rw [decodeValue_tag] at decoded
      obtain ⟨⟨_, _⟩, -, done⟩ := bind_ok_iff.mp decoded
      cases done
      rfl
    | json text =>
      cases written
      rw [decodeValue_tag] at decoded
      obtain ⟨⟨_, _⟩, -, done⟩ := bind_ok_iff.mp decoded
      cases done
      rfl
    | bytes bytes =>
      cases written
      rw [decodeValue_tag] at decoded
      obtain ⟨⟨_, _⟩, -, done⟩ := bind_ok_iff.mp decoded
      cases done
      rfl
    | array items =>
      obtain ⟨_, -, written⟩ := bind_ok_iff.mp written
      cases written
      rw [decodeValue_tag] at decoded
      obtain ⟨⟨_, _⟩, -, done⟩ := bind_ok_iff.mp decoded
      cases done
      rfl
    | row fields =>
      obtain ⟨_, -, written⟩ := bind_ok_iff.mp written
      cases written
      rw [decodeValue_tag] at decoded
      obtain ⟨⟨_, _⟩, -, done⟩ := bind_ok_iff.mp decoded
      cases done
      rfl
    | map pairs =>
      obtain ⟨_, -, written⟩ := bind_ok_iff.mp written
      cases written
      rw [decodeValue_tag] at decoded
      obtain ⟨⟨_, _⟩, -, done⟩ := bind_ok_iff.mp decoded
      cases done
      rfl
    | unknown typeName text raw =>
      cases written
      rw [decodeValue_tag] at decoded
      obtain ⟨⟨name, rest⟩, -, decoded⟩ := bind_ok_iff.mp decoded
      obtain ⟨⟨flags, rest⟩, -, decoded⟩ := bind_ok_iff.mp decoded
      dsimp only at decoded
      split at decoded
      · cases decoded
      · obtain ⟨⟨_, _⟩, -, decoded⟩ := bind_ok_iff.mp decoded
        obtain ⟨⟨_, _⟩, -, done⟩ := bind_ok_iff.mp decoded
        cases done
        rfl
    | _ => exact absurd rfl kept

theorem tagged_decoded (there : cell ≠ .null) (built : buildColumn .tagged column = .ok array)
    (place : column[row]? = some cell) (reads : valueAt array .tagged row = .ok found) :
    ∃ blob reader, encodeValue cell = .ok blob ∧ decodeValue (.ofBlob blob) = .ok (found, reader) := by
  obtain ⟨blob, written, stored⟩ := tagged_stored there built place
  rw [stored] at reads
  obtain ⟨⟨value, reader⟩, decoded, ended⟩ := bind_ok_iff.mp reads
  dsimp only at ended
  split at ended
  · cases ended
    exact ⟨blob, reader, written, decoded⟩
  · cases ended

def kindType (total : ColumnStats) : ColumnKind → DataType
  | .null | .tagged => .null
  | .bool => .boolean
  | .i64 => .int64
  | .u64 => .uint64
  | .f64 => .float64
  | .dec _ => if total.scaleUniform && !total.overflow then .decimal128 38 total.maxScale.toInt8 else .utf8
  | .date => .date32
  | .time => .time64Micros
  | .ts => .timestampMicros none
  | .tsz _ => .timestampMicros (some (zone total))
  | .interval => if total.overflow then .utf8 else .intervalMonthDayNano
  | .text | .json => .utf8
  | .bytes => .binary

theorem logicalType_kind (variants : total.variants = kindMask kind) : logicalType total = kindType total kind := by
  unfold logicalType
  cases kind <;> (rw [variants, kindMask]; rfl)

theorem typed_kind : ∀ mask ∈ typedMasks, ∃ kind, mask = kindMask kind := by
  simp only [typedMasks, List.forall_mem_cons]
  exact ⟨⟨.bool, rfl⟩, ⟨.i64, rfl⟩, ⟨.u64, rfl⟩, ⟨.f64, rfl⟩, ⟨.dec 0, rfl⟩, ⟨.date, rfl⟩, ⟨.time, rfl⟩, ⟨.ts, rfl⟩,
    ⟨.tsz 0, rfl⟩, ⟨.interval, rfl⟩, ⟨.bytes, rfl⟩, fun _ inside => absurd inside List.not_mem_nil⟩

theorem binary_mask (binary : logicalType stats = .binary) : stats.variants = vBytes := by
  have some : logicalType stats ≠ .null := by simp [binary]
  have typed : logicalType stats ≠ .utf8 := by simp [binary]
  obtain ⟨kind, variants⟩ := typed_kind _ (typed_mask some typed)
  rw [logicalType_kind variants] at binary
  cases kind with
  | bytes => exact variants
  | dec scale =>
    dsimp only [kindType] at binary
    split at binary <;> cases binary
  | interval =>
    dsimp only [kindType] at binary
    split at binary <;> cases binary
  | _ => cases binary

theorem bytes_of_mask (mask : kindBit cell = vBytes) : ∃ bytes, cell = .bytes bytes := by
  cases cell with
  | bytes bytes => exact ⟨bytes, rfl⟩
  | timestamp micros offset => cases offset <;> exact absurd mask (by dsimp only [kindBit]; decide)
  | _ => exact absurd mask (by dsimp only [kindBit]; decide)

theorem null_of_mask (mask : kindBit cell = 0) : cell = .null := by
  cases cell with
  | null => rfl
  | timestamp micros offset => cases offset <;> exact absurd mask (by dsimp only [kindBit]; decide)
  | _ => exact absurd mask (by dsimp only [kindBit]; decide)

theorem kindBit_known (cell : Value) : kindBit cell ∈ masks := by
  cases cell with
  | timestamp micros offset => cases offset <;> (dsimp only [kindBit]; decide)
  | _ => dsimp only [kindBit]; decide

theorem tagged_not_binary (picked : pickEncoding column = .tagged) (built : buildColumn .tagged column = .ok array)
    (read : readColumn array .tagged column.length = .ok values) (covers : Covers total values) :
    logicalType total ≠ .binary := by
  intro binary
  have variants := binary_mask binary
  apply (pick_tagged_iff column).mp picked
  refine ⟨.bytes, ColumnKind.noConfusion, fun cell inside => ?_⟩
  by_cases there : cell = .null
  · rw [there]
    exact .inl rfl
  · obtain ⟨row, place⟩ := List.mem_iff_getElem?.mp inside
    obtain ⟨small, -⟩ := List.getElem?_eq_some_iff.mp place
    obtain ⟨found, reads, kept⟩ := readColumn_row read small
    obtain ⟨blob, reader, written, decoded⟩ := tagged_decoded there built place reads
    have within := covers.bits found (List.mem_of_getElem? kept)
    rw [blob_mask written decoded, variants] at within
    rcases mask_unique _ (kindBit_known cell) vBytes (by decide) within with zero | equal
    · exact absurd (null_of_mask zero) there
    · obtain ⟨bytes, rfl⟩ := bytes_of_mask equal
      exact .inr rfl

/-! ### Rebuilding a column -/

section
variable (writeText : Value → String)

theorem utf8Array_of_read (read : readColumn array encoding array.length = .ok values) :
    ∃ cells, utf8Array writeText array encoding = .ok (.utf8 cells) ∧ cells.length = array.length := by
  have each : ∀ row ∈ List.range array.length, ∃ cell, (do
      let text ← textOf writeText array encoding row
      .ok (if text = "" then none else some text)) = Except.ok (ε := StoreError) cell := by
    intro row inside
    obtain ⟨found, reads, -⟩ := readColumn_row read (List.mem_range.mp inside)
    unfold textOf
    rw [reads]
    cases found <;> exact ⟨_, rfl⟩
  obtain ⟨cells, ran⟩ := mapM_succeeds each
  refine ⟨cells, ?_, (mapM_length ran).symm.trans List.length_range⟩
  rw [utf8Array, ran]
  rfl

def Rebuilt (array : ArrowArray) (encoding : Encoding) (type : DataType) (rows : Nat) : Prop :=
  ∃ rebuilt, buildLogicalArray writeText array encoding type rows = .ok rebuilt ∧ rebuilt.dataType = type ∧
    rebuilt.length = rows

/-- No zoned timestamp leaves 64 bits on its way to the column's zone. -/
def ShiftFits : DataType → ArrowArray → Prop
  | .timestampMicros target, .timestampMicros (some source) cells =>
    ∀ micros, some micros ∈ cells → FitsSigned 64 (micros.toInt + shiftMicros (some source) target)
  | _, _ => True

/-- What a chunk-column must be stored as for its column's type. -/
def Rebuilds (type : DataType) (array : ArrowArray) (encoding : Encoding) : Prop :=
  type = .null ∨ type = .utf8 ∨ encoding ≠ .null ∧ encoding ≠ .tagged ∧ ShiftFits type array

theorem cloned_rebuilt (same : array.dataType = type)
    (clones : buildLogicalArray writeText array encoding type array.length =
    cloneOrText writeText array encoding type) :
    Rebuilt writeText array encoding type array.length := by
  refine ⟨array, ?_, same, rfl⟩
  rw [clones, cloneOrText, if_pos same]

theorem text_not_rebuilt (typed : type ≠ .utf8) (other : array.dataType ≠ type)
    (read : readColumn array encoding array.length = .ok values)
    (falls : buildLogicalArray writeText array encoding type array.length = cloneOrText writeText array encoding type) :
    ¬Rebuilt writeText array encoding type array.length := by
  rintro ⟨rebuilt, built, same, -⟩
  obtain ⟨cells, text, -⟩ := utf8Array_of_read writeText read
  rw [falls, cloneOrText, if_neg other, text] at built
  cases built
  exact typed same.symm

theorem shift_rebuilt_iff (source : String) (target : Option String) (cells : List (Option Int64)) :
    Rebuilt writeText (.timestampMicros (some source) cells) .tsz (.timestampMicros target) cells.length ↔
      ShiftFits (.timestampMicros target) (.timestampMicros (some source) cells) := by
  constructor
  · rintro ⟨rebuilt, built, -, -⟩ micros inside
    obtain ⟨shifted, ran, -⟩ := bind_ok_iff.mp built
    obtain ⟨row, place⟩ := List.mem_iff_getElem?.mp inside
    obtain ⟨cell, step, -⟩ := mapM_get ran place
    dsimp only [shiftCell] at step
    split at step
    · assumption
    · cases step
  · intro fits
    have each : ∀ cell ∈ cells, ∃ shifted, shiftCell (shiftMicros (some source) target) cell = .ok shifted := by
      intro cell inside
      cases cell with
      | none => exact ⟨none, rfl⟩
      | some micros => exact ⟨_, if_pos (fits micros inside)⟩
    obtain ⟨shifted, ran⟩ := mapM_succeeds each
    exact ⟨.timestampMicros target shifted, bind_ok_iff.mpr ⟨shifted, ran, rfl⟩, rfl, (mapM_length ran).symm⟩

/-- Only decimals and zoned timestamps are rebuilt in their own way. -/
theorem falls_through (some : type ≠ .null) (typed : type ≠ .utf8) (notDec : encoding ≠ .dec) (notTsz : encoding ≠ .tsz)
    (array : ArrowArray) (rows : Nat) :
    buildLogicalArray writeText array encoding type rows = cloneOrText writeText array encoding type := by
  unfold buildLogicalArray
  split
  · exact absurd rfl typed
  · exact if_neg fun both => notDec both.2
  · exact if_neg notTsz
  · exact absurd rfl some
  · rfl

theorem scale_of_allows (allows : Allows (.dec scale) cell) (found : scaleOf cell = some s) : s = scale := by
  cases cell with
  | decimal unscaled own =>
    cases found
    rcases allows with same | same
    · cases single_none same
    · change (if _ then some ColumnKind.tagged else some (.dec s)) = _ at same
      split at same <;> cases same
      rfl
  | _ => cases found

theorem scaleOf_single (same : single cell = some (.dec scale)) : scaleOf cell = some scale := by
  unfold single at same
  split at same <;> first
    | cases same
    | (split at same <;> cases same <;> rfl)

theorem topScale_of_dec (picked : pickEncoding column = .dec scale) : topScale column = scale := by
  have plain : pickEncoding column ≠ .tagged := by simp [picked]
  have there : pickEncoding column ≠ .null := by simp [picked]
  obtain ⟨cell, inside, same⟩ := pick_some there plain
  rw [picked] at same
  have shared : ∀ s ∈ scales column, s = scale := by
    intro s member
    obtain ⟨other, within, found⟩ := List.mem_filterMap.mp member
    have allows := pick_allows plain within
    rw [picked] at allows
    exact scale_of_allows allows found
  have member : scale ∈ scales column := List.mem_filterMap.mpr ⟨cell, inside, scaleOf_single same⟩
  exact one_scale_top (fun s left t right => (shared s left).trans (shared t right).symm) member

theorem decimal_cloned (scale : Int8) (cells : List (Option (BitVec 128))) (rows : Nat) :
    buildLogicalArray writeText (.decimal128 38 scale cells) .dec (.decimal128 38 scale) rows =
      .ok (.decimal128 38 scale cells) := by
  simp only [buildLogicalArray, and_self, if_true]

/-- A typed chunk-column has the type its column has when every value agrees with it. -/
theorem typed_rebuilt_iff (some : logicalType total ≠ .null) (typed : logicalType total ≠ .utf8)
    (there : pickEncoding column ≠ .null) (plain : pickEncoding column ≠ .tagged)
    (built : buildColumn (pickEncoding column) column = .ok array) (covers : Covers total column) :
    Rebuilt writeText array (pickEncoding column).encoding (logicalType total) array.length ↔
      ShiftFits (logicalType total) array := by
  obtain ⟨cell, inside, same⟩ := pick_some there plain
  have type := logicalType_kind (variants_of_kind some typed covers inside plain same there)
  have nonempty : column ≠ [] := List.ne_nil_of_mem inside
  rw [type] at some typed ⊢
  cases picked : pickEncoding column with
  | null => exact absurd picked there
  | tagged => exact absurd picked plain
  | text => exact absurd (picked ▸ rfl) typed
  | json => exact absurd (picked ▸ rfl) typed
  | tsz offset =>
    rw [picked] at built
    cases built
    exact shift_rebuilt_iff writeText _ _ _
  | dec scale =>
    rw [picked] at built typed some
    obtain rfl := decimalArray_ok built
    have uniform : (total.scaleUniform && !total.overflow) = true := by
      by_contra mixed
      exact typed (if_neg mixed)
    have shared : kindType total (.dec scale) = .decimal128 38 scale.toInt8 := by
      rw [kindType, if_pos uniform, ← covers.top (Bool.and_eq_true_iff.mp uniform).1 nonempty, topScale_of_dec picked]
    rw [shared]
    exact iff_of_true ⟨_, decimal_cloned writeText _ _ _, rfl, rfl⟩ trivial
  | interval =>
    rw [picked] at built typed some
    obtain ⟨cells, -, done⟩ := bind_ok_iff.mp built
    cases done
    have small : ¬total.overflow = true := fun overflow => typed (if_pos overflow)
    have shared : kindType total .interval = .intervalMonthDayNano := if_neg small
    rw [shared] at some typed ⊢
    refine iff_of_true (cloned_rebuilt writeText rfl ?_) trivial
    exact falls_through writeText some typed Encoding.noConfusion Encoding.noConfusion _ _
  | _ =>
    rw [picked] at built typed some
    cases built
    refine iff_of_true (cloned_rebuilt writeText rfl ?_) trivial
    exact falls_through writeText some typed Encoding.noConfusion Encoding.noConfusion _ _

/-- A stored column that was read for its statistics is rebuilt for the schema
exactly when it is stored as its type needs. -/
theorem rebuilt_iff (built : buildColumn (pickEncoding column) column = .ok array)
    (read : readColumn array (pickEncoding column).encoding column.length = .ok values) (covers : Covers total values) :
    Rebuilt writeText array (pickEncoding column).encoding (logicalType total) array.length ↔
      Rebuilds (logicalType total) array (pickEncoding column).encoding := by
  have length := build_length built
  by_cases some : logicalType total = .null
  · rw [some]
    exact iff_of_true ⟨_, rfl, rfl, rfl⟩ (.inl rfl)
  by_cases typed : logicalType total = .utf8
  · rw [typed]
    rw [← length] at read
    obtain ⟨cells, text, rows⟩ := utf8Array_of_read writeText read
    exact iff_of_true ⟨_, text, rfl, rows⟩ (.inr (.inl rfl))
  have needs : Rebuilds (logicalType total) array (pickEncoding column).encoding ↔
      (pickEncoding column).encoding ≠ .null ∧ (pickEncoding column).encoding ≠ .tagged ∧
        ShiftFits (logicalType total) array := by
    rw [Rebuilds, or_iff_right some, or_iff_right typed]
  rw [needs]
  by_cases there : pickEncoding column = .null
  · rw [there] at built read ⊢
    cases built
    refine iff_of_false ?_ fun both => both.1 rfl
    exact text_not_rebuilt writeText typed (fun same => some same.symm) read
      (falls_through writeText some typed Encoding.noConfusion Encoding.noConfusion _ _)
  by_cases plain : pickEncoding column = .tagged
  · rw [plain] at built read ⊢
    have notBinary := tagged_not_binary plain built read covers
    obtain ⟨cells, -, done⟩ := bind_ok_iff.mp built
    cases done
    refine iff_of_false ?_ fun both => both.2.1 rfl
    rw [← length] at read
    exact text_not_rebuilt writeText typed (fun same => notBinary same.symm) read
      (falls_through writeText some typed Encoding.noConfusion Encoding.noConfusion _ _)
  · rw [readColumn_typed plain built read] at covers
    rw [typed_rebuilt_iff writeText some typed there plain built covers]
    have notNull : (pickEncoding column).encoding ≠ .null := by
      intro same
      cases picked : pickEncoding column <;> simp_all [ColumnKind.encoding]
    have notTagged : (pickEncoding column).encoding ≠ .tagged := by
      intro same
      cases picked : pickEncoding column <;> simp_all [ColumnKind.encoding]
    exact ⟨fun fits => ⟨notNull, notTagged, fits⟩, fun both => both.2.2⟩

end

/-! ### The statistics of a stored chunk -/

theorem observeText_fold (wrap : String → Value)
    (wrapped : ∀ stats text, observe stats (wrap text) = observeText kind stats (some text))
    (cells : List (Option String)) (stats : ColumnStats) :
    cells.foldl (observeText kind) stats = (cells.map fun cell => cell.elim .null wrap).foldl observe stats := by
  induction cells generalizing stats with
  | nil => rfl
  | cons cell cells ih =>
    have one : observeText kind stats cell = observe stats (cell.elim .null wrap) := by
      cases cell with
      | none => rfl
      | some text => exact (wrapped stats text).symm
    rw [List.foldl_cons, List.map_cons, List.foldl_cons, one, ih]

theorem readColumn_text (wrap : String → Value) (cells : List (Option String))
    (reads : ∀ row, valueAt array encoding row = readCell cells row fun text => .ok (wrap text)) :
    readColumn array encoding cells.length = .ok (cells.map fun cell => cell.elim .null wrap) := by
  have each : ∀ row ∈ List.range cells.length, (match valueAt array encoding row with
      | .ok value => .ok value
      | .error e => .error (.corrupt e)) = Except.ok (ε := StoreError) (cells[row]?.join.elim .null wrap) := by
    intro row _
    rw [reads, readCell]
    cases cells[row]?.join <;> rfl
  rw [readColumn, mapM_map each]
  refine congrArg Except.ok (List.ext_getElem (by simp) fun row small inside => ?_)
  rw [List.length_map] at inside
  simp [inside]

theorem columnStats_read (taken : columnStats array encoding array.length = .ok delta) :
    ∃ values, readColumn array encoding array.length = .ok values ∧ delta = statsOf values := by
  unfold columnStats at taken
  split at taken
  · next cells =>
    cases taken
    exact ⟨_, readColumn_text .text cells fun _ => rfl, observeText_fold .text (fun _ _ => rfl) cells {}⟩
  · next cells =>
    cases taken
    exact ⟨_, readColumn_text .json cells fun _ => rfl, observeText_fold .json (fun _ _ => rfl) cells {}⟩
  · obtain ⟨values, read, done⟩ := bind_ok_iff.mp taken
    cases done
    exact ⟨values, read, rfl⟩

theorem mergeStats_get (accumulated deltas : List ColumnStats) (same : accumulated.length = deltas.length) :
    mergeStats accumulated deltas = List.zipWith mergeColumn accumulated deltas := by
  induction accumulated generalizing deltas with
  | nil =>
    cases deltas with
    | nil => rfl
    | cons delta deltas => cases same
  | cons into accumulated ih =>
    cases deltas with
    | nil => cases same
    | cons delta deltas => rw [mergeStats, ih deltas (Nat.succ.inj same), List.zipWith_cons_cons]

theorem sealed_rows {c : Nat} (sealed : sealColumns columns = .ok chunk) (place : chunk.batch[c]? = some array) :
    array.length = numRows chunk := by
  cases columns with
  | nil => cases sealed
  | cons first rest =>
    obtain ⟨arrays, ran, sealed⟩ := bind_ok_iff.mp sealed
    split at sealed
    · next lengths =>
      cases sealed
      have all := List.all_eq_true.mp lengths
      have own := of_decide_eq_true (all array (List.mem_of_getElem? place))
      cases arrays with
      | nil => cases place
      | cons head tail => exact own.trans (of_decide_eq_true (all head List.mem_cons_self)).symm
    · cases sealed

theorem sealed_width (sealed : sealColumns columns = .ok chunk) :
    chunk.batch.length = columns.length ∧ chunk.encodings.length = columns.length := by
  cases columns with
  | nil => cases sealed
  | cons first rest =>
    obtain ⟨arrays, ran, sealed⟩ := bind_ok_iff.mp sealed
    split at sealed
    · cases sealed
      exact ⟨(mapM_length ran).symm, List.length_map _⟩
    · cases sealed

/-! ### What a store keeps -/

/-- A chunk-column was built from pushed cells and read back, and its column's
total knows what was read. -/
def Stored (chunk : SealedChunk) (c : Nat) (total : ColumnStats) : Prop :=
  ∃ column array values, buildColumn (pickEncoding column) column = .ok array ∧ chunk.batch[c]? = some array ∧
    chunk.encodings[c]? = some (pickEncoding column).encoding ∧ array.length = numRows chunk ∧
    readColumn array (pickEncoding column).encoding column.length = .ok values ∧ Covers total values

/-- A store has a total for each column, and each total knows every chunk. -/
structure Kept (store : ResultStore) : Prop where
  totals : store.stats.length = store.width
  widths : ∀ chunk ∈ store.chunks, chunk.batch.length = store.width ∧ chunk.encodings.length = store.width
  positive : store.chunks ≠ [] → 0 < store.width
  stored : ∀ chunk ∈ store.chunks, ∀ c total, store.stats[c]? = some total → Stored chunk c total

theorem kept_begin (width : Nat) : Kept (.begin width) :=
  ⟨List.length_replicate, fun _ inside => absurd inside List.not_mem_nil, fun some => absurd rfl some,
    fun _ inside => absurd inside List.not_mem_nil⟩

theorem push_ok (pushed : ResultStore.push store columns = .ok next) :
    ∃ sealed deltas, sealColumns columns = .ok sealed ∧ sealed.batch.length = store.width ∧
      sealStoreChunk sealed = .ok deltas ∧
      next = { store with chunks := store.chunks ++ [sealed], stats := mergeStats store.stats deltas } := by
  unfold ResultStore.push at pushed
  split at pushed
  · cases pushed
  · next sealed done =>
    split at pushed
    · cases pushed
    · next width =>
      obtain ⟨deltas, ran, same⟩ := bind_ok_iff.mp pushed
      exact ⟨sealed, deltas, done, Decidable.not_not.mp width, ran, (Except.ok.inj same).symm⟩

theorem sealStoreChunk_get {c : Nat} (ran : sealStoreChunk chunk = .ok deltas) (batch : chunk.batch[c]? = some array)
    (encodings : chunk.encodings[c]? = some encoding) :
    ∃ delta, columnStats array encoding (numRows chunk) = .ok delta ∧ deltas[c]? = some delta := by
  have place : (chunk.batch.zip chunk.encodings)[c]? = some (array, encoding) := by
    rw [List.getElem?_zip_eq_some]
    exact ⟨batch, encodings⟩
  obtain ⟨delta, taken, there⟩ := mapM_get ran place
  exact ⟨delta, taken, there⟩

theorem stored_new {c : Nat} (sealed : sealColumns columns = .ok chunk) (ran : sealStoreChunk chunk = .ok deltas)
    (delta : deltas[c]? = some own) (total : ColumnStats) : Stored chunk c (mergeColumn total own) := by
  have length : deltas.length = (chunk.batch.zip chunk.encodings).length := (mapM_length ran).symm
  have small : c < columns.length := by
    obtain ⟨inside, -⟩ := List.getElem?_eq_some_iff.mp delta
    rw [length, List.length_zip, (sealed_width sealed).1, (sealed_width sealed).2, Nat.min_self] at inside
    exact inside
  obtain ⟨array, built, batch, encodings⟩ := sealed_column sealed (List.getElem?_eq_getElem small)
  have rows := sealed_rows sealed batch
  obtain ⟨found, taken, same⟩ := sealStoreChunk_get ran batch encodings
  rw [delta] at same
  cases same
  rw [← rows] at taken
  obtain ⟨values, read, rfl⟩ := columnStats_read taken
  rw [build_length built] at read
  exact ⟨_, array, values, built, batch, encodings, rows, read, covers_own total values⟩

theorem stored_merge {c : Nat} (stored : Stored chunk c total) (delta : ColumnStats) :
    Stored chunk c (mergeColumn total delta) := by
  obtain ⟨column, array, values, built, batch, encodings, rows, read, covers⟩ := stored
  exact ⟨column, array, values, built, batch, encodings, rows, read, covers_merge covers delta⟩

theorem publish_ok {store next : ResultStore} (stepped : publish store columns = some next) :
    store.push columns = .ok next := by
  unfold publish at stepped
  cases ran : store.push columns with
  | error e =>
    rw [ran] at stepped
    cases stepped
  | ok found =>
    rw [ran] at stepped
    exact congrArg Except.ok (Option.some.inj stepped)

/-- A push merges one summary into each total, and each chunk after it is an old one or the new. -/
theorem push_columns {store next : ResultStore} (totals : store.stats.length = store.width)
    (pushed : store.push columns = .ok next) :
    ∃ sealed deltas, sealColumns columns = .ok sealed ∧ sealStoreChunk sealed = .ok deltas ∧
      sealed.batch.length = store.width ∧ sealed.encodings.length = store.width ∧ next.width = store.width ∧
      next.stats.length = store.width ∧ (∀ chunk ∈ next.chunks, chunk ∈ store.chunks ∨ chunk = sealed) ∧
      ∀ (c : Nat) total, next.stats[c]? = some total →
        ∃ into delta, store.stats[c]? = some into ∧ deltas[c]? = some delta ∧ mergeColumn into delta = total := by
  obtain ⟨sealed, deltas, done, width, ran, rfl⟩ := push_ok pushed
  have widths := sealed_width done
  have encodings : sealed.encodings.length = store.width := widths.2.trans (widths.1.symm.trans width)
  have length : deltas.length = store.width := by
    rw [← mapM_length ran, List.length_zip, encodings, width, Nat.min_self]
  have merged := mergeStats_get store.stats deltas (totals.trans length.symm)
  refine ⟨sealed, deltas, done, ran, width, encodings, rfl, ?_, ?_, ?_⟩
  · rw [merged, List.length_zipWith, totals, length, Nat.min_self]
  · intro chunk inside
    exact (List.mem_append.mp inside).imp id List.mem_singleton.mp
  · intro c total place
    rw [merged, List.getElem?_zipWith_eq_some] at place
    obtain ⟨into, delta, before, own, same⟩ := place
    exact ⟨into, delta, before, own, same⟩

theorem kept_push (store : ResultStore) (columns : List (List Value)) (next : ResultStore) (kept : Kept store)
    (stepped : publish store columns = some next) : Kept next := by
  obtain ⟨sealed, deltas, done, ran, batches, encodings, width, stats, chunks, totals⟩ :=
    push_columns kept.totals (publish_ok stepped)
  refine ⟨stats.trans width.symm, ?_, fun _ => ?_, ?_⟩
  · intro chunk inside
    rw [width]
    rcases chunks chunk inside with old | rfl
    · exact kept.widths chunk old
    · exact ⟨batches, encodings⟩
  · cases columns with
    | nil => cases done
    | cons first rest =>
      rw [width, ← batches, (sealed_width done).1]
      exact Nat.succ_pos _
  · intro chunk inside c total place
    obtain ⟨into, delta, before, own, rfl⟩ := totals c total place
    rcases chunks chunk inside with old | rfl
    · exact stored_merge (kept.stored chunk old c into before) delta
    · exact stored_new done ran own into

/-! ### Querying a finished result -/

section
variable (writeText : Value → String) (tryNew : List DataType → List ArrowArray → Except StoreError (List ArrowArray))

/-- What is relied on of `RecordBatch::try_new` where every field is nullable: columns of one length, each of its
field's type, make a batch. -/
def MakesBatches : Prop :=
  ∀ (types : List DataType) (arrays : List ArrowArray) (rows : Nat), arrays ≠ [] →
    (∀ array ∈ arrays, array.length = rows) →
    arrays.map ArrowArray.dataType = types → tryNew types arrays = .ok arrays

/-- Every chunk can be queried: each of its columns is rebuilt with the type the
schema names and the chunk's rows, and the identity projection makes a batch. -/
def Queryable (store : ResultStore) : Prop :=
  ∀ chunk ∈ store.chunks,
    (∀ c < store.width, ∃ array encoding type, chunk.batch[c]? = some array ∧ chunk.encodings[c]? = some encoding ∧
      (logicalSchema store.stats)[c]? = some type ∧ Rebuilt writeText array encoding type (numRows chunk)) ∧
    ∃ batch, logicalBatch writeText tryNew chunk (List.range store.width) (logicalSchema store.stats) = .ok batch

/-- Every chunk-column is stored as its column's type needs. -/
def Rebuildable (store : ResultStore) : Prop :=
  ∀ chunk ∈ store.chunks, ∀ (c : Nat) array encoding type, chunk.batch[c]? = some array →
    chunk.encodings[c]? = some encoding → (logicalSchema store.stats)[c]? = some type → Rebuilds type array encoding

variable {tryNew}

theorem logicalBatch_ok (makes : MakesBatches tryNew) (chunk : SealedChunk) (types : List DataType)
    (width : chunk.batch.length = types.length) (positive : 0 < types.length)
    (rebuilt : ∀ c < types.length, ∃ array encoding type, chunk.batch[c]? = some array ∧
      chunk.encodings[c]? = some encoding ∧ types[c]? = some type ∧
        Rebuilt writeText array encoding type (numRows chunk)) :
    ∃ batch, logicalBatch writeText tryNew chunk (List.range types.length) types = .ok batch := by
  have step : ∀ c < types.length, ∃ array, logicalColumn writeText chunk types c c = .ok array ∧
      types[c]? = some array.dataType ∧ array.length = numRows chunk := by
    intro c small
    obtain ⟨array, encoding, type, batch, encodings, named, found, built, same, rows⟩ := rebuilt c small
    have target : min c (chunk.batch.length - 1) = c := by omega
    refine ⟨found, ?_, same ▸ named, rows⟩
    simp only [logicalColumn, target, batch, encodings, named, Option.getD_some]
    exact built
  have places : ∀ c < types.length, (List.range types.length).zipIdx[c]? = some (c, c) := by
    intro c small
    rw [List.getElem?_zipIdx, List.getElem?_range small, Option.map_some, Nat.zero_add]
  have each : ∀ place ∈ (List.range types.length).zipIdx, ∃ array,
      logicalColumn writeText chunk types place.1 place.2 = .ok array := by
    intro place inside
    obtain ⟨c, there⟩ := List.mem_iff_getElem?.mp inside
    have small : c < types.length := by
      obtain ⟨small, -⟩ := List.getElem?_eq_some_iff.mp there
      rwa [List.length_zipIdx, List.length_range] at small
    rw [places c small] at there
    cases there
    obtain ⟨array, built, -⟩ := step c small
    exact ⟨array, built⟩
  obtain ⟨arrays, ran⟩ := mapM_succeeds each
  have length : arrays.length = types.length := by
    rw [← mapM_length ran, List.length_zipIdx, List.length_range]
  have known : ∀ (c : Nat) (array : ArrowArray), arrays[c]? = some array →
      types[c]? = some array.dataType ∧ array.length = numRows chunk := by
    intro c array place
    have small : c < types.length := by
      obtain ⟨small, -⟩ := List.getElem?_eq_some_iff.mp place
      exact length ▸ small
    obtain ⟨found, built, there⟩ := mapM_get ran (places c small)
    rw [place] at there
    cases there
    obtain ⟨other, again, facts⟩ := step c small
    rw [built] at again
    cases again
    exact facts
  refine ⟨arrays, bind_ok_iff.mpr ⟨arrays, ran, makes types arrays (numRows chunk) ?_ ?_ ?_⟩⟩
  · exact List.ne_nil_of_length_pos (length ▸ positive)
  · intro array inside
    obtain ⟨c, place⟩ := List.mem_iff_getElem?.mp inside
    exact (known c array place).2
  · apply List.ext_getElem? fun c => ?_
    rw [List.getElem?_map]
    cases place : arrays[c]? with
    | none =>
      rw [List.getElem?_eq_none_iff, length, ← List.getElem?_eq_none_iff] at place
      rw [place]
      rfl
    | some array => exact (known c array place).1.symm

/-- A finished result can be queried exactly when each of its chunk-columns is
stored as its column's type needs. -/
theorem queryable_iff (makes : MakesBatches tryNew) (ran : run publish (.begin width) pushed = some store) :
    Queryable writeText tryNew store ↔ Rebuildable store := by
  have kept : Kept store := run_invariant Kept kept_push (kept_begin width) ran
  have rebuilds : ∀ chunk ∈ store.chunks, ∀ (c : Nat) array encoding type, chunk.batch[c]? = some array →
      chunk.encodings[c]? = some encoding → (logicalSchema store.stats)[c]? = some type →
      (Rebuilt writeText array encoding type (numRows chunk) ↔ Rebuilds type array encoding) := by
    intro chunk inside c array encoding type batch encodings named
    rw [logicalSchema, List.getElem?_map, Option.map_eq_some_iff] at named
    obtain ⟨total, place, rfl⟩ := named
    obtain ⟨column, found, values, built, there, encoded, rows, read, covers⟩ := kept.stored chunk inside c total place
    rw [batch] at there
    rw [encodings] at encoded
    cases there
    cases encoded
    rw [← rows]
    exact rebuilt_iff writeText built read covers
  have types : (logicalSchema store.stats).length = store.width := (List.length_map _).trans kept.totals
  constructor
  · intro queryable chunk inside c array encoding type batch encodings named
    have small : c < store.width := by
      obtain ⟨small, -⟩ := List.getElem?_eq_some_iff.mp named
      exact types ▸ small
    obtain ⟨found, other, name, batch', encodings', named', rebuilt⟩ := (queryable chunk inside).1 c small
    rw [batch] at batch'
    rw [encodings] at encodings'
    rw [named] at named'
    cases batch'
    cases encodings'
    cases named'
    exact (rebuilds chunk inside c array encoding type batch encodings named).mp rebuilt
  · intro rebuildable chunk inside
    have widths := kept.widths chunk inside
    have columns : ∀ c < store.width, ∃ array encoding type, chunk.batch[c]? = some array ∧
        chunk.encodings[c]? = some encoding ∧ (logicalSchema store.stats)[c]? = some type ∧
        Rebuilt writeText array encoding type (numRows chunk) := by
      intro c small
      have batch := List.getElem?_eq_getElem (widths.1 ▸ small : c < chunk.batch.length)
      have encodings := List.getElem?_eq_getElem (widths.2 ▸ small : c < chunk.encodings.length)
      have named := List.getElem?_eq_getElem (types ▸ small : c < (logicalSchema store.stats).length)
      refine ⟨_, _, _, batch, encodings, named, ?_⟩
      exact (rebuilds chunk inside c _ _ _ batch encodings named).mpr
        (rebuildable chunk inside c _ _ _ batch encodings named)
    refine ⟨columns, ?_⟩
    rw [← types] at columns ⊢
    exact logicalBatch_ok writeText makes chunk _ (widths.1.trans types.symm)
      (types ▸ kept.positive (List.ne_nil_of_mem inside)) columns

end

/-- Columns that make a batch: as many as the fields, of one length, each of its field's type. -/
def recordBatch (types : List DataType) (arrays : List ArrowArray) : Except StoreError (List ArrowArray) :=
  if types.length ≠ arrays.length then .error (.arrow "number of columns must match number of fields in schema")
  else match arrays with
    | [] => .error (.arrow "must either specify a row count or at least one column")
    | first :: _ =>
      if arrays.any fun array => array.length ≠ first.length then
        .error (.arrow "all columns in a record batch must have the same length")
      else if arrays.map ArrowArray.dataType ≠ types then .error (.arrow "column types must match schema types")
      else .ok arrays

theorem recordBatch_makesBatches : MakesBatches recordBatch := by
  intro types arrays rows some lengths same
  have fields : types.length = arrays.length := by rw [← same, List.length_map]
  cases arrays with
  | nil => exact absurd rfl some
  | cons first rest =>
    have level : ((first :: rest).any fun array => array.length ≠ first.length) = false := by
      rw [List.any_eq_false]
      intro array inside
      rw [lengths array inside, lengths first List.mem_cons_self]
      simp
    rw [recordBatch, if_neg (not_not.mpr fields)]
    simp only [level, Bool.false_eq_true, if_false, same, ne_eq, not_true_eq_false]

/-- Two chunks of one column of numbers, the second with a NULL. -/
theorem queryable_at : Queryable (fun _ => "") recordBatch ⟨1,
    [⟨[.int64 [some 1]], [.i64]⟩, ⟨[.int64 [none, some 2]], [.i64]⟩],
    [{ variants := vInt, rows := 3 }]⟩ := by
  have ran : run publish (.begin 1) [[[.int 1]], [[.null, .int 2]]] = some _ := rfl
  apply (queryable_iff _ recordBatch_makesBatches ran).mpr
  intro chunk inside c array encoding type batch encodings named
  cases c with
  | succ c => cases named
  | zero =>
    cases named
    rcases List.mem_pair.mp inside with rfl | rfl <;>
      · cases batch
        cases encodings
        exact .inr (.inr ⟨Encoding.noConfusion, Encoding.noConfusion, trivial⟩)

/-- A column of numbers whose second chunk is all NULL: the schema says 64-bit
integers, and the second chunk is rebuilt as text. -/
theorem null_chunk_not_queryable :
    ¬∀ writeText width pushed store, run publish (.begin width) pushed = some store →
      Queryable writeText recordBatch store := by
  intro always
  have queryable := always (fun _ => "") 1 [[[.int 1]], [[.null]]] _ rfl
  obtain ⟨array, encoding, type, batch, encodings, named, rebuilt, built, same, -⟩ :=
    (queryable ⟨[.null 1], [.null]⟩ (.tail _ (.head _))).1 0 Nat.one_pos
  cases batch
  cases encodings
  cases named
  cases built
  cases same

end QueryHive.Store.Logical
