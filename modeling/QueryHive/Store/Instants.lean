import QueryHive.Store.Logical

/-! The instants of a zoned timestamp column. A chunk stores UTC microseconds under the zone all
its values share, and the schema names one zone for the whole result. `shift_timestamps` adds the
difference of the two zones to the microseconds, so a row keeps its instant only where the zones
are the same; `UTC`, which stands for zones that disagree, has a difference from every zone but
its own. -/
namespace QueryHive.Store.Logical
open QueryHive.Columnar QueryHive.Library.Numeral QueryHive.Library.Result QueryHive.Library.Runs

/-- The microseconds a timestamp array holds at a row, if the row is not NULL. -/
def microsAt : ArrowArray → Nat → Option Int64
  | .timestampMicros _ cells, row => cells[row]?.join
  | _, _ => none

def arrayOffset (array : ArrowArray) : Option Int32 :=
  match array.dataType with
  | .timestampMicros (some zone) => offsetOf zone
  | _ => none

def KeepsInstants (writeText : Value → String) (array : ArrowArray) (type : DataType) (rows : Nat) : Prop :=
  ∃ shown, buildLogicalArray writeText array .tsz type rows = .ok shown ∧ shown.dataType = type ∧
    ∀ row micros, microsAt array row = some micros → microsAt shown row = some micros

theorem twoDigits_eq (n : Nat) : twoDigits n = String.ofList (padded 2 n) := by
  have text : toString n = String.ofList (Nat.toDigits 10 n) := rfl
  rw [twoDigits, padded]
  split
  · next small =>
    have one : (Nat.toDigits 10 n).length = 1 := by
      have upper := (Nat.length_toDigits_le_iff (by decide : 1 < 10) (by decide : 0 < 1)).mpr small
      have some := List.length_pos_of_ne_nil (@Nat.toDigits_ne_nil n 10)
      omega
    rw [one, text, ← String.toList_inj]
    simp
  · next large =>
    have two : 2 - (Nat.toDigits 10 n).length = 0 := by
      by_contra short
      have digits : (Nat.toDigits 10 n).length ≤ 1 := by omega
      exact large ((Nat.length_toDigits_le_iff (by decide : 1 < 10) (by decide : 0 < 1)).mp digits)
    rw [two, text]
    simp

theorem zone_of_offset (seen : total.offset = some offset) (real : offset ≠ offsetDisagrees) :
    zone total = formatTz offset := by
  have parts : ∀ sign : Char, String.singleton sign ++ twoDigits (offset.toInt.natAbs / 3600) ++ ":" ++
      twoDigits (offset.toInt.natAbs % 3600 / 60) = String.ofList (sign :: (padded 2 (offset.toInt.natAbs / 3600) ++
        ':' :: padded 2 (offset.toInt.natAbs % 3600 / 60))) := by
    intro sign
    rw [twoDigits_eq, twoDigits_eq, ← String.toList_inj]
    simp
  simp only [zone, seen, formatTz, ne_eq, real, not_false_eq_true, if_true]
  split
  · exact parts '-'
  · exact parts '+'

theorem zone_of_disagreement (seen : total.offset = some offsetDisagrees) : zone total = "UTC" := by
  simp [zone, seen]

theorem zone_of_type (typed : logicalType total = .timestampMicros (some name)) : name = zone total := by
  have some : logicalType total ≠ .null := by simp [typed]
  have other : logicalType total ≠ .utf8 := by simp [typed]
  obtain ⟨kind, variants⟩ := typed_kind _ (typed_mask some other)
  rw [logicalType_kind variants] at typed
  cases kind with
  | tsz offset =>
    cases typed
    rfl
  | dec scale =>
    dsimp only [kindType] at typed
    split at typed <;> cases typed
  | interval =>
    dsimp only [kindType] at typed
    split at typed <;> cases typed
  | _ => cases typed

/-- A chunk-column with a zone holds a value, its zone is one the reader takes, and the total has
seen it: as the only one, or among others. -/
def ZoneKnown (chunk : SealedChunk) (c : Nat) (total : ColumnStats) : Prop :=
  chunk.encodings[c]? = some .tsz → ∃ offset cells micros,
    chunk.batch[c]? = some (.timestampMicros (some (formatTz offset)) cells) ∧ offset.toInt % 60 = 0 ∧
      offset.toInt.natAbs < 86400 ∧ some micros ∈ cells ∧ total.rows ≠ 0 ∧
        (total.offset = some offset ∨ total.offset = some offsetDisagrees)

theorem merge_offset_known (known : into = some offset ∨ into = some offsetDisagrees) (delta : Option Int32) :
    mergeOffset into delta = some offset ∨ mergeOffset into delta = some offsetDisagrees := by
  rcases known with rfl | rfl
  · cases delta with
    | none => exact .inl rfl
    | some next =>
      by_cases same : offset = next
      · exact .inl (by simp [mergeOffset, same])
      · exact .inr (by simp [mergeOffset, same])
  · cases delta with
    | none => exact .inr rfl
    | some next =>
      by_cases same : offsetDisagrees = next
      · exact .inr (by simp [mergeOffset, same])
      · exact .inr (by simp [mergeOffset, same])

theorem merge_offset_new (into : Option Int32) (offset : Int32) :
    mergeOffset into (some offset) = some offset ∨ mergeOffset into (some offset) = some offsetDisagrees := by
  cases into with
  | none => exact .inl rfl
  | some first =>
    by_cases same : first = offset
    · exact .inl (by simp [mergeOffset, same])
    · exact .inr (by simp [mergeOffset, same])

theorem zoneKnown_merge {c : Nat} (known : ZoneKnown chunk c total) (delta : ColumnStats) :
    ZoneKnown chunk c (mergeColumn total delta) := by
  intro zoned
  obtain ⟨offset, cells, micros, batch, whole, day, inside, started, seen⟩ := known zoned
  refine ⟨offset, cells, micros, batch, whole, day, inside, ?_, ?_⟩
  · rw [mergeColumn, if_neg started]
    dsimp only
    omega
  · rw [mergeColumn, if_neg started]
    exact merge_offset_known seen delta.offset

theorem fold_offset (cells : List Value) (stats : ColumnStats)
    (start : stats.offset = none ∨ stats.offset = some offset)
    (alike : ∀ cell ∈ cells, cell = .null ∨ ∃ micros, cell = .timestamp micros (some offset)) :
    (cells.foldl observe stats).offset = none ∨ (cells.foldl observe stats).offset = some offset := by
  induction cells generalizing stats with
  | nil => exact start
  | cons cell cells ih =>
    obtain ⟨first, later⟩ := List.forall_mem_cons.mp alike
    apply ih _ _ later
    rcases first with rfl | ⟨micros, rfl⟩
    · exact start
    · rcases start with none | one
      · exact .inr (by simp [observe, observeOffset, none])
      · exact .inr (by simp [observe, observeOffset, one])

theorem fold_offset_some (cells : List Value) (stats : ColumnStats) (start : stats.offset ≠ none) :
    (cells.foldl observe stats).offset ≠ none := by
  induction cells generalizing stats with
  | nil => exact start
  | cons cell cells ih =>
    apply ih
    cases cell with
    | timestamp micros offset =>
      cases offset with
      | none => exact start
      | some offset =>
        cases seen : stats.offset with
        | none => exact absurd seen start
        | some first => simp only [observe, observeOffset, seen]; split <;> exact Option.some_ne_none _
    | _ => exact start

theorem stats_offset (all : AllAt offset cells) : (statsOf cells).offset = some offset := by
  obtain ⟨micros, inside⟩ := all.1
  obtain ⟨before, after, rfl⟩ := List.append_of_mem inside
  rcases fold_offset (before ++ .timestamp micros (some offset) :: after) {} (.inl rfl) all.2 with none | one
  · exfalso
    revert none
    rw [List.foldl_append, List.foldl_cons]
    apply fold_offset_some
    cases seen : (before.foldl observe {}).offset with
    | none => simp [observe, observeOffset, seen]
    | some first => simp only [observe, observeOffset, seen]; split <;> exact Option.some_ne_none _
  · exact one

theorem encoding_tsz {kind : ColumnKind} (zoned : kind.encoding = .tsz) : ∃ offset, kind = .tsz offset := by
  cases kind <;> cases zoned
  exact ⟨_, rfl⟩

theorem pick_tsz (picked : pickEncoding column = .tsz offset) : offset.toInt % 60 = 0 ∧ AllAt offset column := by
  have plain : pickEncoding column ≠ .tagged := by simp [picked]
  obtain ⟨cell, inside, same⟩ := pick_some (by simp [picked]) plain
  rw [picked] at same
  obtain ⟨whole, micros, rfl⟩ := single_tsz_iff.mp same
  refine ⟨whole, ⟨micros, inside⟩, ?_⟩
  intro other there
  have allows := pick_allows plain there
  rw [picked] at allows
  exact allows.imp single_none fun own => (single_tsz_iff.mp own).2

theorem zoneKnown_new {c : Nat} (sealed : sealColumns columns = .ok chunk) (ran : sealStoreChunk chunk = .ok deltas)
    (delta : deltas[c]? = some own) (total : ColumnStats) : ZoneKnown chunk c (mergeColumn total own) := by
  intro zoned
  have small : c < columns.length := by
    obtain ⟨inside, -⟩ := List.getElem?_eq_some_iff.mp zoned
    rwa [(sealed_width sealed).2] at inside
  obtain ⟨array, built, batch, encodings⟩ := sealed_column sealed (List.getElem?_eq_getElem small)
  rw [zoned, Option.some.injEq] at encodings
  obtain ⟨offset, picked⟩ := encoding_tsz encodings.symm
  obtain ⟨whole, all⟩ := pick_tsz picked
  obtain ⟨found, taken, same⟩ := sealStoreChunk_get ran batch zoned
  rw [delta] at same
  cases same
  rw [← sealed_rows sealed batch] at taken
  obtain ⟨values, read, rfl⟩ := columnStats_read taken
  rw [build_length built, encodings] at read
  have plain : pickEncoding columns[c] ≠ .tagged := by simp [picked]
  have back := readColumn_typed plain built read
  obtain ⟨micros, inside⟩ := all.1
  have day : offset.toInt.natAbs < 86400 := by
    obtain ⟨row, place⟩ := List.mem_iff_getElem?.mp inside
    obtain ⟨length, -⟩ := List.getElem?_eq_some_iff.mp place
    obtain ⟨value, reads, -⟩ := readColumn_row read length
    have own : single (.timestamp micros (some offset)) = some (pickEncoding columns[c]) := by
      rw [picked]
      exact single_tsz_iff.mpr ⟨whole, micros, rfl⟩
    have readable := ((typed_reads plain own built place).mp reads).1
    rw [picked] at readable
    exact readable
  have rows : (statsOf columns[c]).rows ≠ 0 := by
    rw [stats_rows]
    exact Nat.ne_of_gt (List.length_pos_of_mem inside)
  rw [picked] at built
  cases built
  refine ⟨offset, _, micros, batch, whole, day, ?_, ?_, ?_⟩
  · exact List.mem_map.mpr ⟨_, inside, rfl⟩
  · rw [back, mergeColumn]
    split
    · exact rows
    · dsimp only
      omega
  · rw [back, mergeColumn]
    split
    · exact .inl (stats_offset all)
    · dsimp only
      rw [stats_offset all]
      exact merge_offset_new total.offset offset

/-- Every total of the store knows the zones of every chunk. -/
def ZonesKnown (store : ResultStore) : Prop :=
  ∀ chunk ∈ store.chunks, ∀ c total, store.stats[c]? = some total → ZoneKnown chunk c total

theorem zonesKnown_push (store : ResultStore) (columns : List (List Value)) (next : ResultStore)
    (known : Kept store ∧ ZonesKnown store) (stepped : publish store columns = some next) :
    Kept next ∧ ZonesKnown next := by
  have kept := kept_push store columns next known.1 stepped
  refine ⟨kept, ?_⟩
  obtain ⟨sealed, deltas, done, ran, -, -, -, -, chunks, totals⟩ := push_columns known.1.totals (publish_ok stepped)
  intro chunk inside c total place
  obtain ⟨into, delta, before, own, rfl⟩ := totals c total place
  rcases chunks chunk inside with old | rfl
  · exact zoneKnown_merge (known.2 chunk old c into before) delta
  · exact zoneKnown_new done ran own into

theorem shiftCell_zero (cell : Option Int64) : shiftCell 0 cell = .ok cell := by
  cases cell with
  | none => rfl
  | some micros =>
    have fits : FitsSigned 64 (micros.toInt + 0) := by
      rw [Int.add_zero]
      exact ⟨micros.le_toInt, micros.toInt_lt⟩
    rw [shiftCell, if_pos fits, Int.add_zero, Int64.ofInt_toInt]

theorem shiftCell_keeps (shifted : shiftCell delta (some micros) = .ok (some micros)) : delta = 0 := by
  dsimp only [shiftCell] at shifted
  split at shifted
  · next fits =>
    have same : Int64.ofInt (micros.toInt + delta) = micros := Option.some.inj (Except.ok.inj shifted)
    have numbers := congrArg Int64.toInt same
    rw [Int64.toInt_ofInt_of_le fits.1 fits.2] at numbers
    omega
  · cases shifted

/-- Zoned timestamps keep their instants exactly when the two zones have one offset. -/
theorem shift_keeps_iff (writeText : Value → String) (source target : String) (inside : some micros ∈ cells)
    (rows : Nat) :
    KeepsInstants writeText (.timestampMicros (some source) cells) (.timestampMicros (some target)) rows ↔
      shiftMicros (some source) (some target) = 0 := by
  have builds : buildLogicalArray writeText (.timestampMicros (some source) cells) .tsz
    (.timestampMicros (some target)) rows =
      shiftTimestamps (.timestampMicros (some source) cells) (some target) := rfl
  constructor
  · rintro ⟨shown, built, -, keeps⟩
    rw [builds] at built
    obtain ⟨shifted, ran, done⟩ := bind_ok_iff.mp built
    cases done
    obtain ⟨row, place⟩ := List.mem_iff_getElem?.mp inside
    obtain ⟨cell, step, there⟩ := mapM_get ran place
    have kept := keeps row micros (by rw [microsAt, place]; rfl)
    rw [microsAt, there] at kept
    obtain rfl : cell = some micros := kept
    exact shiftCell_keeps step
  · intro none
    refine ⟨.timestampMicros (some target) cells, ?_, rfl, fun _ _ => id⟩
    rw [builds]
    refine bind_ok_iff.mpr ⟨cells, ?_, rfl⟩
    rw [none, mapM_map fun cell _ => shiftCell_zero cell, List.map_id']

/-- A finished column keeps the instants of a chunk exactly when its statistics have seen the
chunk's zone and no other, or that zone is UTC. -/
theorem instants_kept_iff (writeText : Value → String) (ran : run publish (.begin width) pushed = some store)
    (inside : chunk ∈ store.chunks) {c : Nat} (place : store.stats[c]? = some total)
    (typed : logicalType total = .timestampMicros (some name)) (batch : chunk.batch[c]? = some array)
    (zoned : chunk.encodings[c]? = some .tsz) :
    KeepsInstants writeText array (logicalType total) (numRows chunk) ↔
      total.offset = arrayOffset array ∨ arrayOffset array = some 0 := by
  have known : Kept store ∧ ZonesKnown store :=
    run_invariant (fun store => Kept store ∧ ZonesKnown store) zonesKnown_push
      ⟨kept_begin width, fun _ none => absurd none List.not_mem_nil⟩ ran
  obtain ⟨offset, cells, micros, there, whole, day, held, -, seen⟩ := known.2 chunk inside c total place zoned
  rw [batch] at there
  cases there
  have own : offsetOf (formatTz offset) = some offset := by rw [offsetOf_formatTz whole, if_pos day]
  have real : offset ≠ offsetDisagrees := by
    rintro rfl
    revert day
    decide
  have arrays : arrayOffset (.timestampMicros (some (formatTz offset)) cells) = some offset := own
  rw [typed, shift_keeps_iff writeText _ _ held, arrays, zone_of_type typed]
  rcases seen with one | many
  · rw [zone_of_offset one real]
    exact iff_of_true (by rw [shiftMicros, Int.sub_self, Int.zero_mul]) (.inl one)
  · have shift : shiftMicros (some (formatTz offset)) (some (zone total)) = offset.toInt * 1000000 := by
      rw [zone_of_disagreement many, shiftMicros, Option.bind_some, own]
      exact congrArg (· * 1000000) (Int.sub_zero offset.toInt)
    rw [shift, many]
    constructor
    · intro none
      right
      rw [Option.some.injEq, ← Int32.toInt_inj]
      change offset.toInt = 0
      omega
    · rintro (same | utc)
      · exact absurd (Option.some.inj same).symm real
      · cases utc
        rfl

def zonedChunk (micros : Int64) (offset : Int32) : SealedChunk :=
  ⟨[.timestampMicros (some (formatTz offset)) [some micros]], [.tsz]⟩

/-- A zone the reader takes is published as it is. -/
theorem publish_zoned (micros : Int64) {store : ResultStore} (one : store.width = 1) (whole : offset.toInt % 60 = 0)
    (day : offset.toInt.natAbs < 86400) :
    publish store [[.timestamp micros (some offset)]] =
      some ⟨store.width, store.chunks ++ [zonedChunk micros offset],
        mergeStats store.stats [statsOf [.timestamp micros (some offset)]]⟩ := by
  have picked : pickEncoding [.timestamp micros (some offset)] = .tsz offset := by
    simp [pickEncoding, addKind, single, whole]
  have sealed : sealColumns [[.timestamp micros (some offset)]] = .ok (zonedChunk micros offset) := by
    rw [sealColumns, List.mapM_cons, picked, List.mapM_nil, List.map_cons, picked]
    rfl
  have read : readColumn (.timestampMicros (some (formatTz offset)) [some micros]) .tsz 1 =
      .ok [.timestamp micros (some offset)] := by
    have value : valueAt (.timestampMicros (some (formatTz offset)) [some micros]) .tsz 0 =
        .ok (.timestamp micros (some offset)) := by
      have zoned : single (.timestamp micros (some offset)) = some (.tsz offset) := if_pos whole
      have built : buildColumn (.tsz offset) [.timestamp micros (some offset)] =
          .ok (.timestampMicros (some (formatTz offset)) [some micros]) := rfl
      exact (typed_reads (by rintro ⟨⟩) zoned built rfl).mpr ⟨day, rfl⟩
    rw [readColumn, List.range_one, List.mapM_cons, value]
    rfl
  have stats : sealStoreChunk (zonedChunk micros offset) = .ok [statsOf [.timestamp micros (some offset)]] := by
    change (do
      let delta ← columnStats (.timestampMicros (some (formatTz offset)) [some micros]) .tsz 1
      let rest ← Except.ok (ε := StoreError) []
      .ok (delta :: rest)) = _
    rw [columnStats, read]
    · rfl
    · rintro _ ⟨⟩
    · rintro _ ⟨⟩
  have width : ¬(zonedChunk micros offset).batch.length ≠ store.width := by
    rw [one]
    exact fun differs => differs rfl
  rw [publish, ResultStore.push, sealed]
  dsimp only
  rw [if_neg width, stats]
  rfl

/-- A store of one column, with an instant at each of two offsets. -/
def twoZones (first second : Int32) (seen : Int32) : ResultStore :=
  ⟨1, [zonedChunk 0 first, zonedChunk 0 second], [{ variants := vTsz, offset := some seen, rows := 2 }]⟩

theorem stats_zoned (micros : Int64) (offset : Int32) :
    statsOf [.timestamp micros (some offset)] = { variants := vTsz, offset := some offset, rows := 1 } := rfl

theorem run_twoZones (first second : Int32) (whole : first.toInt % 60 = 0) (day : first.toInt.natAbs < 86400)
    (whole' : second.toInt % 60 = 0) (day' : second.toInt.natAbs < 86400) :
    run publish (.begin 1) [[[.timestamp 0 (some first)]], [[.timestamp 0 (some second)]]] =
      some (twoZones first second (if first ≠ second then offsetDisagrees else first)) := by
  rw [run_cons, publish_zoned 0 rfl whole day, Option.bind_some, run_cons, publish_zoned 0 rfl whole' day',
    stats_zoned, stats_zoned]
  by_cases same : first = second
  · subst same
    simp [ResultStore.begin, mergeStats, mergeColumn, mergeOffset, twoZones]
    rfl
  · simp [ResultStore.begin, mergeStats, mergeColumn, mergeOffset, twoZones, same]
    rfl

/-- An instant at `+07:00`, twice. -/
theorem instants_kept_iff_one_zone :
    KeepsInstants (fun _ => "") (.timestampMicros (some (formatTz 25200)) [some 0])
        (logicalType { variants := vTsz, offset := some 25200, rows := 2 }) 1 ↔
      some 25200 = arrayOffset (.timestampMicros (some (formatTz 25200)) [some 0]) ∨
        arrayOffset (.timestampMicros (some (formatTz 25200)) [some 0]) = some 0 :=
  instants_kept_iff (fun _ => "") (run_twoZones 25200 25200 (by decide) (by decide) (by decide) (by decide))
    (show zonedChunk 0 25200 ∈ _ from .head _) (c := 0) rfl rfl rfl rfl

/-- One instant stored at `+07:00` and at `+08:00`: the column is in UTC, and the first chunk
shows it seven hours later. -/
theorem instant_moves :
    ¬∀ (writeText : Value → String) width pushed (store : ResultStore) (chunk : SealedChunk) (c : Nat)
      (total : ColumnStats) (array : ArrowArray) (name : String), run publish (.begin width) pushed = some store →
      chunk ∈ store.chunks → store.stats[c]? = some total → logicalType total = .timestampMicros (some name) →
      chunk.batch[c]? = some array → chunk.encodings[c]? = some Encoding.tsz →
      KeepsInstants writeText array (logicalType total) (numRows chunk) := by
  intro always
  have ran := run_twoZones 25200 28800 (by decide) (by decide) (by decide) (by decide)
  have keeps := always (fun _ => "") 1 _ _ (zonedChunk 0 25200) 0 _ _ "UTC" ran (.head _) rfl rfl rfl rfl
  have none := (shift_keeps_iff (fun _ => "") (formatTz 25200) "UTC" (.head _) 1).mp keeps
  rw [shiftMicros, Option.bind_some, offsetOf_formatTz (by decide)] at none
  revert none
  decide

end QueryHive.Store.Logical
