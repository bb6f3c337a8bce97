import Mathlib.Algebra.Ring.Int.Defs
import Mathlib.Algebra.Ring.Nat
import QueryHive.Library.Summary
import QueryHive.Store.Value

/-! Per-column statistics. The writer observes every cell of a chunk when the
chunk is sealed and merges the chunk's summary into the running totals; the
logical SQL type of a finished column is read off those totals. Every field but
one is the same wherever the chunks were cut. -/
namespace QueryHive.Store
open QueryHive.Library.Summary

/-- `ColumnStats`, one per column. `variants` is the mask of the non-NULL kinds
seen, and `offset` holds the sentinel once two zoned timestamps disagree. -/
structure ColumnStats where
  variants : UInt32 := 0
  maxScale : UInt8 := 0
  scaleUniform : Bool := true
  offset : Option Int32 := none
  hasNaiveTs : Bool := false
  overflow : Bool := false
  rows : Nat := 0
  deriving DecidableEq, Repr

def vBool : UInt32 := 1
def vInt : UInt32 := (1 : UInt32) <<< 1
def vUint : UInt32 := (1 : UInt32) <<< 2
def vFloat : UInt32 := (1 : UInt32) <<< 3
def vDec : UInt32 := (1 : UInt32) <<< 4
def vDate : UInt32 := (1 : UInt32) <<< 5
def vTime : UInt32 := (1 : UInt32) <<< 6
def vTs : UInt32 := (1 : UInt32) <<< 7
def vTsz : UInt32 := (1 : UInt32) <<< 8
def vInterval : UInt32 := (1 : UInt32) <<< 9
def vText : UInt32 := (1 : UInt32) <<< 10
def vJson : UInt32 := (1 : UInt32) <<< 11
def vBytes : UInt32 := (1 : UInt32) <<< 12
def vComposite : UInt32 := (1 : UInt32) <<< 13
def vUnknown : UInt32 := (1 : UInt32) <<< 14

/-- `i32::MIN`, which no real zone is. -/
def offsetDisagrees : Int32 := Int32.minValue

/-- `i64::checked_mul(1000).is_none()` on the microseconds of an interval. -/
def nanosOverflow (micros : Int64) : Bool :=
  let nanos := micros.toInt * 1000
  decide (nanos < -2 ^ 63 ∨ 2 ^ 63 ≤ nanos)

/-- The offset field after one more zoned timestamp. -/
def observeOffset (seen : Option Int32) (offset : Int32) : Option Int32 :=
  match seen with
  | none => some offset
  | some first => if first ≠ offset then some offsetDisagrees else some first

/-- `ColumnStats::observe`: fold one cell into the summary. -/
def observe (stats : ColumnStats) (value : Value) : ColumnStats :=
  let stats := { stats with rows := stats.rows + 1 }
  match value with
  | .null => stats
  | .bool _ => { stats with variants := stats.variants ||| vBool }
  | .int _ => { stats with variants := stats.variants ||| vInt }
  | .uint _ => { stats with variants := stats.variants ||| vUint }
  | .float _ => { stats with variants := stats.variants ||| vFloat }
  | .decimal unscaled scale =>
    let first := stats.variants &&& vDec == 0
    { stats with
      variants := stats.variants ||| vDec
      scaleUniform := if !first && scale != stats.maxScale then false else stats.scaleUniform
      maxScale := max scale stats.maxScale
      overflow := if 10 ^ 38 ≤ unscaled.toInt.natAbs then true else stats.overflow }
  | .date _ => { stats with variants := stats.variants ||| vDate }
  | .time _ => { stats with variants := stats.variants ||| vTime }
  | .timestamp _ none =>
    { stats with variants := stats.variants ||| vTs, hasNaiveTs := true }
  | .timestamp _ (some offset) =>
    { stats with
      variants := stats.variants ||| vTsz
      offset := observeOffset stats.offset offset }
  | .interval interval =>
    { stats with
      variants := stats.variants ||| vInterval
      overflow := if nanosOverflow interval.micros then true else stats.overflow }
  | .text _ => { stats with variants := stats.variants ||| vText }
  | .json _ => { stats with variants := stats.variants ||| vJson }
  | .bytes _ => { stats with variants := stats.variants ||| vBytes }
  | .array _ | .row _ | .map _ => { stats with variants := stats.variants ||| vComposite }
  | .unknown _ _ _ => { stats with variants := stats.variants ||| vUnknown }

def mergeOffset (into delta : Option Int32) : Option Int32 :=
  match into, delta with
  | none, other => other
  | some first, some next => if first ≠ next then some offsetDisagrees else some first
  | some first, none => some first

/-- The loop body of `merge_stats`: one column's delta into its running total. -/
def mergeColumn (into delta : ColumnStats) : ColumnStats :=
  if into.rows = 0 then delta else
    { variants := into.variants ||| delta.variants
      scaleUniform := if delta.maxScale ≠ into.maxScale then false else into.scaleUniform
      maxScale := max into.maxScale delta.maxScale
      overflow := into.overflow || delta.overflow
      hasNaiveTs := into.hasNaiveTs || delta.hasNaiveTs
      offset := mergeOffset into.offset delta.offset
      rows := into.rows + delta.rows }

/-- `merge_stats`: fold a chunk's statistics into the running totals, which are
widened first when the chunk has more columns than were seen so far. -/
def mergeStats : List ColumnStats → List ColumnStats → List ColumnStats
  | accumulated, [] => accumulated
  | [], delta :: deltas => mergeColumn {} delta :: mergeStats [] deltas
  | into :: accumulated, delta :: deltas => mergeColumn into delta :: mergeStats accumulated deltas

/-- The Arrow types `logical_type` answers with. -/
inductive DataType where
  | null | boolean | int64 | uint64 | float64 | utf8 | binary | date32 | time64Micros
  | decimal128 (precision : Nat) (scale : Int8)
  | timestampMicros (zone : Option String)
  | intervalMonthDayNano
  deriving DecidableEq, Repr

def twoDigits (n : Nat) : String := if n < 10 then "0" ++ toString n else toString n

/-- `+HH:MM` for a shared offset, `UTC` when there is none. -/
def zone (stats : ColumnStats) : String :=
  match stats.offset with
  | some offset =>
    if offset ≠ offsetDisagrees then
      let sign := if offset < 0 then "-" else "+"
      let magnitude := offset.toInt.natAbs
      sign ++ twoDigits (magnitude / 3600) ++ ":" ++ twoDigits (magnitude % 3600 / 60)
    else "UTC"
  | none => "UTC"

def isPowerOfTwo (v : UInt32) : Bool := v != 0 && v &&& (v - 1) == 0

/-- `logical_type`: the type of one column given its statistics. -/
def logicalType (stats : ColumnStats) : DataType :=
  let v := stats.variants
  if v = 0 then .null
  else if !isPowerOfTwo v then .utf8
  else if v = vBool then .boolean
  else if v = vInt then .int64
  else if v = vUint then .uint64
  else if v = vFloat then .float64
  else if v = vDec then
    if stats.scaleUniform && !stats.overflow then .decimal128 38 stats.maxScale.toInt8 else .utf8
  else if v = vDate then .date32
  else if v = vTime then .time64Micros
  else if v = vTs then .timestampMicros none
  else if v = vTsz then .timestampMicros (some (zone stats))
  else if v = vInterval then if stats.overflow then .utf8 else .intervalMonthDayNano
  else if v = vText then .utf8
  else if v = vJson then .utf8
  else if v = vBytes then .binary
  else .utf8

/-- The statistics of one run of cells, from nothing. -/
abbrev statsOf (cells : List Value) : ColumnStats := observeAll observe {} cells

/-- What the store holds for a one-column result after its chunks were published
in order: each chunk is observed on its own when it is sealed. -/
def publishedStats (chunks : List (List Value)) : List ColumnStats :=
  chunks.foldl (fun total chunk => mergeStats total [statsOf chunk]) [{}]

abbrev mergedStats (chunks : List (List Value)) : ColumnStats :=
  mergeAll observe mergeColumn {} chunks

theorem published_stats_merged (chunks : List (List Value)) :
    publishedStats chunks = [mergedStats chunks] := by
  have run : ∀ (rest : List (List Value)) (total : ColumnStats),
      rest.foldl (fun total chunk => mergeStats total [statsOf chunk]) [total] =
        [rest.foldl (fun total chunk => mergeColumn total (statsOf chunk)) total] := by
    intro rest
    induction rest with
    | nil => intro total; rfl
    | cons chunk rest ih => intro total; exact ih _
  exact run chunks {}

/-! #### The fields that do not depend on the cuts -/

/-- Everything a summary holds but its uniformity flag. -/
structure Seen where
  variants : UInt32
  maxScale : UInt8
  offset : Option Int32
  hasNaiveTs : Bool
  overflow : Bool
  rows : Nat

/-- What a summary has seen, the uniformity flag forgotten. -/
def ColumnStats.seen (stats : ColumnStats) : Seen :=
  ⟨stats.variants, stats.maxScale, stats.offset, stats.hasNaiveTs, stats.overflow, stats.rows⟩

def Seen.observe (seen : Seen) (value : Value) : Seen :=
  (Store.observe ⟨seen.variants, seen.maxScale, true, seen.offset, seen.hasNaiveTs, seen.overflow,
    seen.rows⟩ value).seen

def Seen.join (into delta : Seen) : Seen :=
  { variants := into.variants ||| delta.variants
    maxScale := max into.maxScale delta.maxScale
    offset := mergeOffset into.offset delta.offset
    hasNaiveTs := into.hasNaiveTs || delta.hasNaiveTs
    overflow := into.overflow || delta.overflow
    rows := into.rows + delta.rows }

/-- A total that has no rows yet is the one the store begins with. -/
def Begun (total : ColumnStats) : Prop := total.rows = 0 → total = {}

private theorem max_scale (a b : UInt8) : max a b = if a ≤ b then b else a := rfl

private theorem max_zero_scale (scale : UInt8) : max 0 scale = scale := by
  simp only [max_scale, UInt8.le_iff_toNat_le]
  simp

private theorem max_scale_comm (a b : UInt8) : max a b = max b a := by
  simp only [max_scale]
  grind

private theorem max_scale_left_comm (a b c : UInt8) : max a (max b c) = max b (max a c) := by
  simp only [max_scale]
  grind

/-- Offsets join like a flat lattice whose top is the sentinel, so observing one
more zone after a merge is merging after the observation. -/
theorem merge_observe_offset (into delta : Option Int32) (offset : Int32) :
    mergeOffset into (observeOffset delta offset) = observeOffset (mergeOffset into delta) offset := by
  rcases into with _ | first
  · cases delta <;> rfl
  · cases delta with
    | none => rfl
    | some second =>
      simp only [mergeOffset, observeOffset]
      grind

theorem seen_cut_free : CutFree observe mergeColumn {} Begun ColumnStats.seen Seen.observe Seen.join where
  observed total cell := by
    cases cell with
    | timestamp micros zoned => cases zoned <;> rfl
    | _ => rfl
  merged total piece begun := by
    by_cases empty : total.rows = 0
    · rw [begun empty]
      simp [mergeColumn, ColumnStats.seen, Seen.join, mergeOffset, max_zero_scale]
    · simp [mergeColumn, empty, ColumnStats.seen, Seen.join]
  unit seen := by
    have scale : max seen.maxScale 0 = seen.maxScale := by rw [max_scale_comm, max_zero_scale]
    rcases seen with ⟨variants, maxScale, offset, naive, overflow, rows⟩
    cases offset <;> simpa [Seen.join, ColumnStats.seen, mergeOffset] using scale
  exchange seen later cell := by
    cases cell with
    | timestamp micros zoned =>
      cases zoned <;>
        simp [Seen.join, Seen.observe, Store.observe, ColumnStats.seen, UInt32.or_assoc, Nat.add_assoc,
          merge_observe_offset]
    | decimal unscaled scale =>
      simp only [Seen.join, Seen.observe, Store.observe, ColumnStats.seen, UInt32.or_assoc,
        Nat.add_assoc, max_scale_left_comm]
      split <;> simp
    | interval value =>
      simp only [Seen.join, Seen.observe, Store.observe, ColumnStats.seen, UInt32.or_assoc, Nat.add_assoc]
      split <;> simp
    | _ => simp [Seen.join, Seen.observe, Store.observe, ColumnStats.seen, UInt32.or_assoc, Nat.add_assoc]

theorem stats_rows (cells : List Value) : (statsOf cells).rows = cells.length := by
  have run : ∀ (rest : List Value) (stats : ColumnStats),
      (rest.foldl observe stats).rows = stats.rows + rest.length := by
    intro rest
    induction rest with
    | nil => intro stats; rfl
    | cons cell rest ih =>
      intro stats
      have one : (observe stats cell).rows = stats.rows + 1 := by
        cases cell with
        | timestamp micros zoned => cases zoned <;> rfl
        | _ => rfl
      rw [List.foldl_cons, ih, one, List.length_cons]
      omega
  exact (run cells {}).trans (Nat.zero_add _)

private theorem stats_started (nonempty : cells ≠ []) : (statsOf cells).rows ≠ 0 := by
  rw [stats_rows]
  exact Nat.pos_iff_ne_zero.mp (List.length_pos_of_ne_nil nonempty)

private theorem begun_merge (total : ColumnStats) (nonempty : chunk ≠ []) :
    Begun (mergeColumn total (statsOf chunk)) := by
  have started := stats_started nonempty
  intro none
  unfold mergeColumn at none
  split at none
  · exact absurd none started
  · simp only at none
    omega

/-- Six of the seven fields are the same wherever the chunks were cut. -/
theorem seen_merged (chunks : List (List Value)) (nonempty : ∀ chunk ∈ chunks, chunk ≠ []) :
    (mergedStats chunks).seen = (statsOf chunks.flatten).seen :=
  view_mergeAll seen_cut_free chunks (fun _ => rfl)
    (fun total _ chunk member => begun_merge total (nonempty chunk member))

/-! #### The uniformity flag -/

def scaleOf : Value → Option UInt8
  | .decimal _ scale => some scale
  | _ => none

def scales (cells : List Value) : List UInt8 := cells.filterMap scaleOf

/-- The largest scale, zero when there is no decimal. -/
def topScale (cells : List Value) : UInt8 := (scales cells).foldl max 0

/-- No two decimals disagree about their scale. -/
def OneScale (cells : List Value) : Prop := ∀ s ∈ scales cells, ∀ t ∈ scales cells, s = t

instance (cells : List Value) : Decidable (OneScale cells) :=
  inferInstanceAs (Decidable (∀ s ∈ scales cells, ∀ t ∈ scales cells, s = t))

private theorem or_and_mask (v m d : UInt32) : (v ||| m) &&& d = (v &&& d) ||| (m &&& d) := by
  apply UInt32.toBitVec_inj.mp
  simp [BitVec.and_or_distrib_right]

/-- What a summary knows of the decimals among the cells it has observed. -/
structure Tracks (cells : List Value) (stats : ColumnStats) : Prop where
  decimal : stats.variants &&& vDec = 0 ↔ scales cells = []
  top : stats.maxScale = topScale cells
  uniform : stats.scaleUniform = true ↔ OneScale cells

def kindBit : Value → UInt32
  | .null => 0
  | .bool _ => vBool
  | .int _ => vInt
  | .uint _ => vUint
  | .float _ => vFloat
  | .decimal _ _ => vDec
  | .date _ => vDate
  | .time _ => vTime
  | .timestamp _ none => vTs
  | .timestamp _ (some _) => vTsz
  | .interval _ => vInterval
  | .text _ => vText
  | .json _ => vJson
  | .bytes _ => vBytes
  | .array _ | .row _ | .map _ => vComposite
  | .unknown _ _ _ => vUnknown

theorem observe_variants (stats : ColumnStats) (cell : Value) :
    (observe stats cell).variants = stats.variants ||| kindBit cell := by
  cases cell with
  | null => simp [observe, kindBit]
  | timestamp micros zoned => cases zoned <;> rfl
  | _ => rfl

theorem kind_bit_decimal (cell : Value) : kindBit cell &&& vDec = 0 ↔ scaleOf cell = none := by
  cases cell with
  | timestamp micros zoned => cases zoned <;> exact ⟨fun _ => rfl, fun _ => by simp only [kindBit]; decide⟩
  | decimal unscaled scale =>
    exact ⟨fun zero => absurd zero (by simp only [kindBit]; decide), fun none => by cases none⟩
  | _ => exact ⟨fun _ => rfl, fun _ => by simp only [kindBit]; decide⟩

private theorem tracks_other (tracks : Tracks cells stats) (other : scaleOf cell = none) :
    Tracks (cells ++ [cell]) (observe stats cell) := by
  have same : scales (cells ++ [cell]) = scales cells := by simp [scales, other]
  have kept : (observe stats cell).maxScale = stats.maxScale ∧
      (observe stats cell).scaleUniform = stats.scaleUniform := by
    cases cell with
    | decimal unscaled scale => cases other
    | timestamp micros zoned => cases zoned <;> exact ⟨rfl, rfl⟩
    | _ => exact ⟨rfl, rfl⟩
  refine ⟨?_, ?_, ?_⟩
  · rw [observe_variants, or_and_mask, (kind_bit_decimal cell).mpr other, UInt32.or_zero, same]
    exact tracks.decimal
  · rw [kept.1, topScale, same]
    exact tracks.top
  · unfold OneScale
    rw [kept.2, same]
    exact tracks.uniform

private theorem fold_max_constant (found : List UInt8) (scale : UInt8)
    (same : ∀ s ∈ found, s = scale) (some : found ≠ []) : found.foldl max 0 = scale := by
  have idem : ∀ rest : List UInt8, (∀ s ∈ rest, s = scale) → rest.foldl max scale = scale := by
    intro rest
    induction rest with
    | nil => intro _; rfl
    | cons s rest ih =>
      intro all
      rw [List.foldl_cons, all s List.mem_cons_self, max_scale, if_pos (UInt8.le_refl scale)]
      exact ih fun t member => all t (List.mem_cons_of_mem _ member)
  cases found with
  | nil => exact absurd rfl some
  | cons s rest =>
    rw [List.foldl_cons, max_zero_scale, same s List.mem_cons_self]
    exact idem rest fun t member => same t (List.mem_cons_of_mem _ member)

theorem one_scale_top (one : OneScale cells) (member : s ∈ scales cells) : topScale cells = s :=
  fold_max_constant _ s (fun t found => one t found s member) (List.ne_nil_of_mem member)

/-- A decimal breaks uniformity exactly when it differs from the scales before
it, all of which are the largest one as long as they agree. -/
private theorem tracks_decimal (tracks : Tracks cells stats) :
    Tracks (cells ++ [.decimal unscaled scale]) (observe stats (.decimal unscaled scale)) := by
  have grown : scales (cells ++ [.decimal unscaled scale]) = scales cells ++ [scale] := by
    simp [scales, scaleOf]
  refine ⟨?_, ?_, ?_⟩
  · have bit : ¬kindBit (.decimal unscaled scale) &&& vDec = 0 := by rw [kind_bit_decimal]; simp [scaleOf]
    rw [observe_variants, or_and_mask, UInt32.or_eq_zero_iff, grown]
    simp [bit]
  · simp only [observe, topScale, grown, List.foldl_append, List.foldl_cons, List.foldl_nil]
    rw [max_scale_comm, tracks.top, topScale]
  · have first : (stats.variants &&& vDec == 0) = (scales cells).isEmpty := by
      rw [Bool.eq_iff_iff, beq_iff_eq, tracks.decimal, List.isEmpty_iff]
    have extended : OneScale (cells ++ [.decimal unscaled scale]) ↔
        OneScale cells ∧ ∀ s ∈ scales cells, s = scale := by
      simp only [OneScale, grown, List.mem_append, List.mem_singleton]
      constructor
      · intro all
        exact ⟨fun s hs t ht => all s (.inl hs) t (.inl ht), fun s hs => all s (.inl hs) scale (.inr rfl)⟩
      · rintro ⟨one, agree⟩ s (hs | rfl) t (ht | rfl)
        · exact one s hs t ht
        · exact agree s hs
        · exact (agree t ht).symm
        · rfl
    simp only [observe, first, tracks.top, extended]
    cases found : scales cells with
    | nil => simp [tracks.uniform]
    | cons s rest =>
      have member : s ∈ scales cells := by simp [found]
      rw [← found]
      constructor
      · intro kept
        have equal : scale = topScale cells := by
          by_contra differ
          simp [found, differ] at kept
        have one : OneScale cells := tracks.uniform.mp (by simpa [equal] using kept)
        exact ⟨one, fun t ht => by rw [equal, one_scale_top one ht]⟩
      · rintro ⟨one, agree⟩
        have equal : topScale cells = scale := by rw [one_scale_top one member, agree s member]
        simp [equal, tracks.uniform.mpr one]

private theorem tracks_fold (rest : List Value) (tracks : Tracks cells stats) :
    Tracks (cells ++ rest) (rest.foldl observe stats) := by
  induction rest generalizing cells stats with
  | nil => simpa using tracks
  | cons cell rest ih =>
    have one : Tracks (cells ++ [cell]) (observe stats cell) := by
      cases cell with
      | decimal unscaled scale => exact tracks_decimal tracks
      | _ => exact tracks_other tracks rfl
    simpa using ih one

theorem stats_of_tracks (cells : List Value) : Tracks cells (statsOf cells) := by
  have start : Tracks [] {} := ⟨by simp [scales], rfl, by simp [OneScale, scales]⟩
  exact tracks_fold cells start

/-- Later chunks keep a total uniform exactly when each has the total's largest
scale; a chunk that mixed scales inside is not looked at again. -/
private theorem fold_uniform (rest : List (List Value)) (started : total.rows ≠ 0) :
    (rest.foldl (fun total chunk => mergeColumn total (statsOf chunk)) total).scaleUniform = true ↔
      total.scaleUniform = true ∧ ∀ chunk ∈ rest, topScale chunk = total.maxScale := by
  induction rest generalizing total with
  | nil => simp
  | cons chunk rest ih =>
    have merged : mergeColumn total (statsOf chunk) =
        { variants := total.variants ||| (statsOf chunk).variants
          scaleUniform := if topScale chunk ≠ total.maxScale then false else total.scaleUniform
          maxScale := max total.maxScale (topScale chunk)
          overflow := total.overflow || (statsOf chunk).overflow
          hasNaiveTs := total.hasNaiveTs || (statsOf chunk).hasNaiveTs
          offset := mergeOffset total.offset (statsOf chunk).offset
          rows := total.rows + (statsOf chunk).rows } := by
      rw [mergeColumn, if_neg started, (stats_of_tracks chunk).top]
    rw [List.foldl_cons, ih (by rw [merged]; simp only; omega), merged]
    by_cases same : topScale chunk = total.maxScale
    · have kept : max total.maxScale total.maxScale = total.maxScale := by
        rw [max_scale, if_pos (UInt8.le_refl _)]
      simp [same, kept]
    · simp [same]

/-- The merged column counts as uniform exactly when its first chunk is and
every other chunk has the same largest scale. -/
theorem merged_uniform (first : List Value) (rest : List (List Value)) (nonempty : first ≠ []) :
    (mergedStats (first :: rest)).scaleUniform = true ↔
      OneScale first ∧ ∀ chunk ∈ rest, topScale chunk = topScale first := by
  have begun : mergeColumn {} (statsOf first) = statsOf first := by simp [mergeColumn]
  have run := fold_uniform rest (stats_started nonempty)
  rw [(stats_of_tracks first).uniform, (stats_of_tracks first).top] at run
  simpa [mergedStats, mergeAll, begun] using run

/-! #### The logical type -/

/-- Two summaries that differ at most in an unread uniformity flag give the
column the same type. -/
theorem logical_type_seen (same : first.seen = second.seen)
    (uniform : first.variants &&& vDec ≠ 0 → first.scaleUniform = second.scaleUniform) :
    logicalType first = logicalType second := by
  obtain ⟨v, scale, flag, offset, naive, overflow, rows⟩ := first
  obtain ⟨v', scale', flag', offset', naive', overflow', rows'⟩ := second
  simp only [ColumnStats.seen, Seen.mk.injEq] at same uniform
  obtain ⟨rfl, rfl, rfl, rfl, rfl, rfl⟩ := same
  by_cases decimal : v = vDec
  · have seen : v &&& vDec ≠ 0 := by rw [decimal]; decide
    rw [uniform seen]
  · simp only [logicalType, decimal, if_false, zone]

/-- When the cuts do not show in the uniformity flag. Decimals of one scale must
have a decimal in every chunk unless that scale is zero, and decimals of several
scales must be caught by the first chunk or by two chunks whose largest scales
differ. -/
def CutsKeepScale (chunks : List (List Value)) : Prop :=
  (OneScale chunks.flatten →
    (∀ s ∈ scales chunks.flatten, s = 0) ∨ ∀ chunk ∈ chunks, scales chunk ≠ []) ∧
  (¬OneScale chunks.flatten →
    ∃ first ∈ chunks.head?, ¬OneScale first ∨ ∃ chunk ∈ chunks, topScale chunk ≠ topScale first)

private theorem scales_flatten (chunks : List (List Value)) :
    s ∈ scales chunks.flatten ↔ ∃ chunk ∈ chunks, s ∈ scales chunk := by
  simp only [scales, List.mem_filterMap, List.mem_flatten]
  constructor
  · rintro ⟨cell, ⟨chunk, within, member⟩, found⟩
    exact ⟨chunk, within, cell, member, found⟩
  · rintro ⟨chunk, within, cell, member, found⟩
    exact ⟨cell, ⟨chunk, within, member⟩, found⟩

/-- Where all decimals share a scale, a chunk's largest scale says whether it
holds one. -/
private theorem top_scale_shared {chunks : List (List Value)} (one : OneScale chunks.flatten)
    (shared : d ∈ scales chunks.flatten)
    (member : chunk ∈ chunks) : topScale chunk = if scales chunk = [] then 0 else d := by
  split
  · rename_i none
    simp [topScale, none]
  · rename_i some
    exact fold_max_constant _ d
      (fun s found => one s ((scales_flatten _).mpr ⟨chunk, member, found⟩) d shared) some

/-- With a decimal seen, the merged flag is the whole column's flag exactly when
the cuts keep the scale. -/
theorem cuts_keep_scale_iff (first : List Value) (rest : List (List Value)) (nonempty : first ≠ [])
    (decimal : scales (first :: rest).flatten ≠ []) :
    (mergedStats (first :: rest)).scaleUniform = (statsOf (first :: rest).flatten).scaleUniform ↔
      CutsKeepScale (first :: rest) := by
  rw [Bool.eq_iff_iff, merged_uniform first rest nonempty, (stats_of_tracks _).uniform]
  unfold CutsKeepScale
  by_cases one : OneScale (first :: rest).flatten
  · have firstOne : OneScale first := fun s hs t ht =>
      one s ((scales_flatten _).mpr ⟨first, List.mem_cons_self, hs⟩)
        t ((scales_flatten _).mpr ⟨first, List.mem_cons_self, ht⟩)
    obtain ⟨d, shared⟩ := List.exists_mem_of_ne_nil _ decimal
    have top : ∀ {chunk}, chunk ∈ first :: rest → topScale chunk = if scales chunk = [] then 0 else d :=
      top_scale_shared one shared
    have all : (∀ s ∈ scales (first :: rest).flatten, s = 0) ↔ d = 0 :=
      ⟨fun zero => zero d shared, fun zero s found => (one s found d shared).trans zero⟩
    simp only [one, iff_true, firstOne, true_and, forall_const, not_true_eq_false, false_implies,
      and_true, all]
    constructor
    · intro equal
      by_cases zero : d = 0
      · exact .inl zero
      · obtain ⟨holder, within, found⟩ := (scales_flatten _).mp shared
        have holds : topScale holder = d := by
          rw [top within, if_neg (List.ne_nil_of_mem found)]
        have firstTop : topScale first = d := by
          rcases List.mem_cons.mp within with rfl | later
          · exact holds
          · rw [← equal holder later, holds]
        refine .inr fun chunk member none => zero ?_
        have chunkTop : topScale chunk = d := by
          rcases List.mem_cons.mp member with rfl | later
          · exact firstTop
          · rw [equal chunk later, firstTop]
        rw [← chunkTop, top member, if_pos none]
    · intro kept chunk member
      rw [top (List.mem_cons_of_mem _ member), top List.mem_cons_self]
      rcases kept with zero | decimals
      · simp [zero]
      · rw [if_neg (decimals chunk (List.mem_cons_of_mem _ member)),
          if_neg (decimals first List.mem_cons_self)]
  · simp only [one, iff_false, false_implies, true_and, not_false_eq_true, forall_const,
      List.head?_cons, Option.mem_some_iff, exists_eq_left', List.mem_cons, exists_eq_or_imp,
      not_and_or, not_forall]
    simp

/-- The store's statistics of a column cut into these chunks are those of the
whole column, and so is its logical type. The flag only counts once a decimal
was seen. -/
def SameColumnStats (chunks : List (List Value)) : Prop :=
  ∃ merged, publishedStats chunks = [merged] ∧
    let whole := statsOf chunks.flatten
    merged.variants = whole.variants ∧ merged.maxScale = whole.maxScale ∧
    (scales chunks.flatten ≠ [] → merged.scaleUniform = whole.scaleUniform) ∧
    merged.offset = whole.offset ∧ merged.hasNaiveTs = whole.hasNaiveTs ∧
    merged.overflow = whole.overflow ∧ merged.rows = whole.rows ∧
    logicalType merged = logicalType whole

/-- Merging the chunks' statistics is observing the whole column exactly when
the cuts keep the decimal scale. -/
theorem column_stats_cut_independent_iff (chunks : List (List Value))
    (nonempty : ∀ chunk ∈ chunks, chunk ≠ []) : SameColumnStats chunks ↔ CutsKeepScale chunks := by
  have same := seen_merged chunks nonempty
  have uniform : (scales chunks.flatten ≠ [] →
      (mergedStats chunks).scaleUniform = (statsOf chunks.flatten).scaleUniform) ↔ CutsKeepScale chunks := by
    by_cases none : scales chunks.flatten = []
    · simp [none, CutsKeepScale, OneScale]
    · cases chunks with
      | nil => exact absurd rfl none
      | cons first rest =>
        rw [← cuts_keep_scale_iff first rest (nonempty first List.mem_cons_self) none]
        exact ⟨fun kept => kept none, fun kept _ => kept⟩
  rw [← uniform, SameColumnStats, published_stats_merged]
  constructor
  · rintro ⟨merged, published, _, _, kept, _⟩
    rw [List.singleton_inj.mp published]
    exact kept
  · intro kept
    simp only [ColumnStats.seen, Seen.mk.injEq] at same
    obtain ⟨variants, maxScale, offset, naive, overflow, rows⟩ := same
    refine ⟨_, rfl, variants, maxScale, kept, offset, naive, overflow, rows, ?_⟩
    refine logical_type_seen (seen_merged chunks nonempty) fun decimal => kept fun none => decimal ?_
    rw [variants]
    exact (stats_of_tracks _).decimal.mpr none

/-- A column cut between two decimals of one scale keeps it. -/
theorem column_stats_cut_independent_at :
    SameColumnStats [[.decimal 150 2], [.null, .decimal 7 2]] :=
  (column_stats_cut_independent_iff [[.decimal 150 2], [.null, .decimal 7 2]] (by simp)).mpr
    ⟨fun _ => .inr (by simp [scales, scaleOf]), fun mixed => absurd (by simp [OneScale, scales, scaleOf]) mixed⟩

/-- A chunk of NULLs after a chunk with one decimal: the column counts as mixed,
and its type falls to text. -/
theorem null_chunk_breaks_uniformity : ¬SameColumnStats [[.decimal 150 2], [.null]] := by
  rintro ⟨merged, published, _, _, kept, _⟩
  rw [← List.singleton_inj.mp published] at kept
  exact absurd (kept (by decide)) (by decide)

end QueryHive.Store
