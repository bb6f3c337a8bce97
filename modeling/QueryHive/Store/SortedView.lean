import QueryHive.Library.Comparator
import QueryHive.Store.Views

/-! A sorted view of a finished result. The keys of every row are rebuilt chunk by chunk and those
the filters kept are sorted; the comparator decides every pair of keys, and equal keys stay in
source order in both directions. -/
namespace QueryHive.Store
open QueryHive.Library Comparator Runs Std

/-- The comparison of two keys without their signs. -/
def byMagnitude (left right : NumKey) : Ordering :=
  (compare left.magnitude right.magnitude).then (compare left.digits right.digits)

instance : TransCmp byMagnitude :=
  inferInstanceAs (TransCmp (compareLex (compareOn NumKey.magnitude) (compareOn NumKey.digits)))

/-- What `NumKey::cmp` compares within one sign. -/
def withinSign (left right : NumKey) : Ordering :=
  if left.sign = 0 then .eq else directed left.neg byMagnitude left right

theorem numKey_graded : NumKey.cmp = graded NumKey.sign withinSign := by
  funext left right
  unfold NumKey.cmp graded withinSign directed byMagnitude
  cases order : compare left.sign right.sign with
  | lt => rfl
  | gt => rfl
  | eq => by_cases zero : left.sign = 0 <;> simp [zero]

/-- Keys of one sign that is not zero are both negative or both positive. -/
theorem neg_of_sign {left right : NumKey} (same : left.sign = right.sign) (nonzero : left.sign ≠ 0) :
    left.neg = right.neg := by
  unfold NumKey.sign at same nonzero
  split_ifs at same nonzero <;> simp_all

instance numKey_trans : TransCmp NumKey.cmp := by
  rw [numKey_graded]
  refine graded_trans (fun a b same => ?_) (fun a b c same same' => ?_)
  · by_cases zero : a.sign = 0
    · simp [withinSign, zero, ← same]
    · have : TransCmp (directed a.neg byMagnitude) := directed_trans a.neg
      simp only [withinSign, ← same, zero, if_false, ← neg_of_sign same zero]
      exact OrientedCmp.eq_swap
  · by_cases zero : a.sign = 0
    · simp [withinSign, zero]
    · have : TransCmp (directed a.neg byMagnitude) := directed_trans a.neg
      simp only [withinSign, ← same, zero, if_false, ← neg_of_sign same zero]
      exact TransCmp.isLE_trans

namespace Views

/-- What `cmp_keys` compares within one rank. -/
def withinRank : SortKey → SortKey → Ordering
  | .num a, .num b => a.cmp b
  | .temporal ra a, .temporal rb b => (compare ra rb).then (compare a b)
  | .text a, .text b => compare a b
  | _, _ => .eq

theorem cmpKeys_graded : cmpKeys = graded SortKey.rank withinRank := by
  funext left right
  unfold cmpKeys graded
  split
  · next differ =>
    cases order : compare left.rank right.rank with
    | lt => rfl
    | gt => rfl
    | eq => exact absurd (Nat.compare_eq_eq.mp order) differ
  · next same =>
    rw [Decidable.not_not.mp same, Nat.compare_eq_eq.mpr rfl, Ordering.eq_then]
    cases left <;> cases right <;> rfl

/-- `cmp_keys` is a total preorder. -/
instance cmpKeys_trans : TransCmp cmpKeys := by
  have temporal : TransCmp fun a b : Nat × Int => (compare a.1 b.1).then (compare a.2 b.2) :=
    inferInstanceAs (TransCmp (compareLex (compareOn Prod.fst) (compareOn Prod.snd)))
  rw [cmpKeys_graded]
  refine graded_trans (fun a b same => ?_) (fun a b c same same' => ?_)
  · cases a with
    | num a => cases b with
      | num b => exact numKey_trans.eq_swap
      | _ => cases same
    | temporal ra a => cases b with
      | temporal rb b => exact temporal.eq_swap (a := (ra, a)) (b := (rb, b))
      | _ => cases same
    | text a => cases b with
      | text b => exact OrientedOrd.eq_swap
      | _ => cases same
    | null => cases b with
      | null => rfl
      | _ => cases same
  · cases a with
    | num a => cases b with
      | num b => cases c with
        | num c => exact numKey_trans.isLE_trans
        | _ => cases same'
      | _ => cases same
    | temporal ra a => cases b with
      | temporal rb b => cases c with
        | temporal rc c => exact temporal.isLE_trans (a := (ra, a)) (b := (rb, b)) (c := (rc, c))
        | _ => cases same'
      | _ => cases same
    | text a => cases b with
      | text b => cases c with
        | text c => exact TransOrd.isLE_trans
        | _ => cases same'
      | _ => cases same
    | null => cases b with
      | null => cases c with
        | null => exact fun _ _ => rfl
        | _ => cases same'
      | _ => cases same

def cellAt (column row : Nat) : List ChunkEntry → Value
  | [] => .null
  | entry :: rest =>
    if entry.firstRow ≤ row ∧ row < entry.firstRow + entry.rows then
      (valueOf entry.chunk column (row - entry.firstRow)).getD .null
    else cellAt column row rest

def keyAt (c : Collate) (entries : List ChunkEntry) (column row : Nat) : SortKey :=
  SortKey.of c (cellAt column row entries)

/-- The rows of `base` by their keys, in either direction; equal keys in source order. -/
structure Sorted (key : Nat → SortKey) (descending : Bool) (base rows : List Nat) : Prop where
  perm : rows.Perm base
  ordered : rows.Pairwise fun row later => (directed descending cmpKeys (key row) (key later)).isLE = true
  ties : rows.Pairwise fun row later => cmpKeys (key row) (key later) = .eq → row < later

/-- The chunks number the rows one after another, in 32 bits. -/
structure Numbered (w : World) : Prop where
  placed : Placed 0 w.chunks w.rows
  small : w.rows < 2 ^ 32

theorem keys_placed (c : Collate) (column : Nat) (placed : Placed first entries last) (small : last < 2 ^ 32) :
    ((entries.zip (entries.map (·.chunk))).flatMap fun pair =>
        (List.range pair.1.rows).map fun row =>
          (asU32 (pair.1.firstRow + asU32 row), SortKey.of c ((valueOf pair.2 column row).getD .null))) =
      (List.range' first (last - first)).map fun row => (row, keyAt c entries column row) := by
  induction entries generalizing first with
  | nil =>
    cases placed
    simp
  | cons entry rest ih =>
    obtain ⟨starts, placed⟩ := placed
    have room := placed_le placed
    have split : List.range' first (last - first) =
        List.range' first entry.rows ++ List.range' (first + entry.rows) (last - (first + entry.rows)) := by
      rw [List.range'_append_1]
      congr 1
      omega
    rw [List.map_cons, List.zip_cons_cons, List.flatMap_cons, ih placed, split, List.map_append]
    congr 1
    · rw [List.range'_eq_map_range, List.map_map]
      refine List.map_congr_left fun row member => ?_
      have below : row < entry.rows := List.mem_range.mp member
      have inside : entry.firstRow ≤ first + row ∧ first + row < entry.firstRow + entry.rows := by omega
      have own : first + row - entry.firstRow = row := by omega
      rw [starts, asU32_small (by omega : row < 2 ^ 32), asU32_small (by omega), Function.comp_apply, keyAt, cellAt,
        if_pos inside, own]
    · refine List.map_congr_left fun row member => ?_
      have after : ¬(entry.firstRow ≤ row ∧ row < entry.firstRow + entry.rows) := by
        have bounds := List.mem_range'_1.mp member
        omega
      rw [keyAt, keyAt, cellAt, if_neg after]

theorem sortKeys_numbered (c : Collate) (column : Nat) (numbered : Numbered w) (included : List Nat) :
    sortKeys c column w.rows included w.chunks (w.chunks.map (·.chunk)) =
      ((List.range w.rows).filter (included.contains ·)).map fun row => (row, keyAt c w.chunks column row) := by
  unfold sortKeys
  dsimp only
  rw [keys_placed c column numbered.placed numbered.small, Nat.sub_zero, ← List.range_eq_range', List.filter_map]
  refine congrArg (List.map _) (List.filter_congr fun row member => ?_)
  simp [List.mem_range.mp member]

/-- The comparator of the sort, with its tie-break. -/
def rowOrder (descending : Bool) : Nat × SortKey → Nat × SortKey → Ordering :=
  compareLex (fun left right => directed descending cmpKeys left.2 right.2) (compareOn Prod.fst)

theorem sortedBefore_rowOrder (descending : Bool) :
    sortedBefore descending = fun left right => (rowOrder descending left right).isLE := rfl

instance rowOrder_trans (descending : Bool) : TransCmp (rowOrder descending) := by
  have keys : TransCmp (directed descending cmpKeys) := directed_trans descending
  have pairs : TransCmp fun left right : Nat × SortKey => directed descending cmpKeys left.2 right.2 :=
    { eq_swap := keys.eq_swap, isLE_trans := keys.isLE_trans }
  exact inferInstanceAs (TransCmp (compareLex _ _))

theorem directed_eq (descending : Bool) (equal : cmpKeys left right = .eq) :
    directed descending cmpKeys left right = .eq := by
  cases descending <;> simp [directed, equal]

theorem sorted_of_keys (key : Nat → SortKey) (descending : Bool) {base : List Nat} (once : base.Nodup) :
    Sorted key descending base
      (((base.map fun row => (row, key row)).mergeSort (sortedBefore descending)).map Prod.fst) := by
  rw [sortedBefore_rowOrder]
  have perm := List.mergeSort_perm (base.map fun row => (row, key row)) fun left right =>
    (rowOrder descending left right).isLE
  have ordered := mergeSort_ordered (rowOrder descending) (base.map fun row => (row, key row))
  generalize (base.map fun row => (row, key row)).mergeSort
    (fun left right => (rowOrder descending left right).isLE) = pairs at perm ordered ⊢
  have same : (base.map fun row => (row, key row)).map Prod.fst = base := by
    rw [List.map_map]
    exact List.map_id _
  have rows : (pairs.map Prod.fst).Perm base := (perm.map Prod.fst).trans (List.Perm.of_eq same)
  have own : ∀ pair ∈ pairs, pair.2 = key pair.1 := by
    intro pair member
    obtain ⟨row, _, rfl⟩ := List.mem_map.mp (perm.subset member)
    rfl
  have apart : pairs.Pairwise fun left right => left.1 ≠ right.1 :=
    List.pairwise_map.mp (rows.nodup_iff.mpr once)
  refine ⟨rows, List.pairwise_map.mpr ?_, List.pairwise_map.mpr ?_⟩
  · refine ordered.imp_of_mem fun {left right} member member' order => ?_
    rw [rowOrder, compareLex, Ordering.isLE_then_iff_and, own left member, own right member'] at order
    exact order.1
  · refine (ordered.and apart).imp_of_mem fun {left right} member member' both equal => ?_
    obtain ⟨order, differ⟩ := both
    rw [rowOrder, compareLex, own left member, own right member', directed_eq descending equal, Ordering.eq_then,
      compareOn, Nat.isLE_compare] at order
    exact Nat.lt_of_le_of_ne order differ

/-- The rows a sort is given: those the filters and the search keep, or all of them. -/
def baseRows (c : Collate) (w : World) (spec : ViewSpec) : List Nat :=
  if spec.needsRows then w.chunks.flatMap (scanEntry c spec) else List.range w.rows

theorem baseRows_listed (c : Collate) (spec : ViewSpec) (numbered : Numbered w) :
    (baseRows c w spec).Nodup ∧ ∀ row ∈ baseRows c w spec, row < w.rows := by
  unfold baseRows
  split
  · obtain ⟨ordered, within⟩ := @placed_scan_ordered _ _ _ c spec numbered.placed numbered.small
    exact ⟨ordered.imp fun less => Nat.ne_of_lt less, fun row member => (within row member).2⟩
  · exact ⟨List.nodup_range, fun row member => List.mem_range.mp member⟩

theorem checkFilters_ok_iff (filters : List FilterSpec) (width : Nat) :
    (forIn filters PUnit.unit fun filter _ => do
        if width ≤ filter.column then
          throw (StoreError.invalidArgument s!"filter column {filter.column} is out of range (width {width})")
        pure (ForInStep.yield PUnit.unit) : Except StoreError PUnit) = .ok () ↔
      ∀ filter ∈ filters, filter.column < width := by
  induction filters with
  | nil => simp [pure, Except.pure]
  | cons filter rest ih =>
    by_cases outside : width ≤ filter.column
    · refine iff_of_false ?_ fun all => Nat.not_lt.mpr outside (all filter List.mem_cons_self)
      simp [outside, List.forIn_cons, throw, throwThe, MonadExceptOf.throw, bind, Except.bind]
    · simp [outside, List.forIn_cons, Nat.not_le.mp outside] at ih ⊢
      exact ih

theorem checkColumns_ok_iff (spec : ViewSpec) (width : Nat) :
    checkColumns spec width = .ok () ↔
      (∀ sort ∈ spec.sort, sort.1 < width) ∧ ∀ filter ∈ spec.filters, filter.column < width := by
  have filters := checkFilters_ok_iff spec.filters width
  unfold checkColumns
  cases spec.sort with
  | none => simpa using filters
  | some sort =>
    by_cases outside : width ≤ sort.1
    · refine iff_of_false ?_ fun all => Nat.not_lt.mpr outside (all.1 sort rfl)
      simp [outside, throw, throwThe, MonadExceptOf.throw, bind, Except.bind]
    · simpa [outside, Nat.not_le.mp outside] using filters

theorem sorted_not_identity {spec : ViewSpec} (sort : spec.sort = some order) : spec.isIdentity = false := by
  simp [ViewSpec.isIdentity, sort]

theorem own_chunks (entries : List ChunkEntry) : entries.zipIdx.map (·.1.chunk) = entries.map (·.chunk) := by
  rw [← List.zipIdx_map_fst 0 entries, List.map_map]
  simp

/-- A sort is computed exactly when the result is finished, every column is in range and every
chunk can be loaded. -/
theorem computeView_sorted_iff (c : Collate) (loads : Nat → Bool) (w : World)
    (sort : spec.sort = some (column, descending)) (info : ViewInfo) :
    computeView c loads w spec = .ok info ↔
      (w.phase.isFinished = true ∧ column < w.columnCount ∧ (∀ filter ∈ spec.filters, filter.column < w.columnCount) ∧
        ∀ entry ∈ w.chunks.zipIdx, loads entry.2 = true) ∧
      info =
        { rows := ((sortKeys c column w.rows (baseRows c w spec) w.chunks (w.chunks.map (·.chunk))).mergeSort
            (sortedBefore descending)).map Prod.fst
          fetched := w.rows, visible := asU32 (baseRows c w spec).length, isIdentity :=
            false, streaming := false } := by
  have columns := checkColumns_ok_iff spec w.columnCount
  simp only [sort, Option.mem_def, Option.some.injEq, forall_eq'] at columns
  simp only [computeView, sorted_not_identity sort, Bool.false_eq_true, if_false, sort, Option.isSome_some,
    Bool.true_and]
  cases checked : checkColumns spec w.columnCount with
  | error e =>
    refine iff_of_false (fun ran => by cases ran) fun both => ?_
    rw [columns.mpr ⟨both.1.2.1, both.1.2.2.1⟩] at checked
    cases checked
  | ok done =>
    obtain ⟨inRange, filters⟩ := columns.mp checked
    cases finished : w.phase.isFinished with
    | false => exact iff_of_false (fun ran => by cases ran) fun both => absurd both.1.1 Bool.false_ne_true
    | true =>
      cases loaded : loadChunks loads w.chunks.zipIdx with
      | error e =>
        refine iff_of_false (fun ran => by cases ran) fun both => ?_
        rw [load_chunks_all both.1.2.2.2] at loaded
        cases loaded
      | ok chunks =>
        obtain ⟨rfl, all⟩ := load_chunks_ok loaded
        have base : (if spec.needsRows = true then scanChunks c spec w.chunks (w.chunks.map (·.chunk))
          else List.range w.rows) =
            baseRows c w spec := by
          rw [scan_chunks_own, baseRows]
        rw [own_chunks, eq_comm]
        simp only [bind, Except.bind, pure, Except.pure, Bool.not_true, Bool.false_eq_true, if_false, base,
          Except.ok.injEq]
        exact ⟨fun same => ⟨⟨trivial, inRange, filters, all⟩, same⟩, fun both => both.2⟩
/-- The rows of the same spec without its sort, as far as it has filters or a search. -/
theorem computeView_unsorted (filters : ∀ filter ∈ spec.filters, filter.column < w.columnCount)
    (all : ∀ entry ∈ w.chunks.zipIdx, loads entry.2 = true) :
    ∃ plain, computeView c loads w { spec with sort := none } = .ok plain ∧
      (spec.needsRows = true → plain.rows = baseRows c w spec) := by
  cases needs : spec.needsRows with
  | true =>
    have filtering : Filtering { spec with sort := none } := ⟨rfl, needs⟩
    have columns : checkColumns { spec with sort := none } w.columnCount = .ok () :=
      (checkColumns_ok_iff _ _).mpr ⟨fun _ sorted => (by cases sorted), filters⟩
    have ran : ∃ plain, computeView c loads w { spec with sort := none } = .ok plain := by
      simp only [computeView, not_identity filtering.2, columns, load_chunks_all all, bind, Except.bind,
        pure, Except.pure,
        Option.isSome_none, Bool.false_and, Bool.false_eq_true, if_false]
      exact ⟨_, rfl⟩
    obtain ⟨plain, computed⟩ := ran
    refine ⟨plain, computed, fun _ => ?_⟩
    rw [compute_view_filtering filtering computed, baseRows, if_pos needs]
    rfl
  | false =>
    have identity : ViewSpec.isIdentity { spec with sort := none } = true := by
      simp only [ViewSpec.needsRows, Bool.or_eq_false_iff, Bool.not_eq_false', decide_eq_false_iff_not,
        Decidable.not_not]
        at needs
      simp [ViewSpec.isIdentity, needs.1, needs.2]
    refine ⟨⟨[], w.rows, w.rows, true, !w.phase.isFinished⟩, ?_, fun rows => by cases rows⟩
    simp [computeView, identity, pure, Except.pure]

/-- A push keeps the count of rows within 32 bits. -/
def Counted (w : World) : Action → Prop
  | .push sealed _ => checkWritable w = .ok () → w.rows + (sealed.map StoreChunk.numRows).sum < 2 ^ 32
  | _ => True

def SameIndex (w next : World) : Prop := next.chunks = w.chunks ∧ next.rows = w.rows

theorem SameIndex.numbered (same : SameIndex w next) (numbered : Numbered w) : Numbered next := by
  obtain ⟨chunks, rows⟩ := same
  exact ⟨by rw [chunks, rows]; exact numbered.placed, by rw [rows]; exact numbered.small⟩

theorem SameIndex.trans (first : SameIndex w middle) (second : SameIndex middle next) : SameIndex w next :=
  ⟨second.1.trans first.1, second.2.trans first.2⟩

theorem maybeExpandView_index (w : World) : SameIndex w (maybeExpandView w) := by
  rcases maybe_expand_view_cases w with same | ⟨place, view, _, _, same⟩
  all_goals
    rw [same]
    exact ⟨rfl, rfl⟩

theorem expandView_index (c : Collate) (loads : Nat → Bool) (w : World) (place : Nat) (view : View) :
    SameIndex w (expandView c loads w place view) := by
  rcases expand_view_cases c loads w place view with same | same | ⟨_, _, _, same⟩
  all_goals
    rw [same]
    exact ⟨rfl, rfl⟩

theorem endExpanding_index (w : World) (place : Nat) : SameIndex w (endExpanding w place) := by
  unfold endExpanding
  split <;> exact ⟨rfl, rfl⟩

theorem runTask_index (c : Collate) (loads : Nat → Bool) (w : World) (place : Nat) (view : View) :
    SameIndex w (runTask c loads w place view) := by
  have expanded := (expandView_index c loads w place view).trans (endExpanding_index _ place)
  unfold runTask
  dsimp only
  split
  · exact expanded.trans (maybeExpandView_index _)
  · exact expanded

theorem expandViewNow_index (c : Collate) (loads : Nat → Bool) (w : World) : SameIndex w (expandViewNow c loads w) := by
  unfold expandViewNow
  split
  · split
    · exact expandView_index c loads w _ _
    · exact ⟨rfl, rfl⟩
  · exact ⟨rfl, rfl⟩

theorem setPhase_index (w : World) (phase : Phase) : SameIndex w (w.setPhase phase) := by
  unfold World.setPhase
  split_ifs <;> exact ⟨rfl, rfl⟩

theorem setView_index (c : Collate) (loads : Nat → Bool) (w : World) (spec : ViewSpec) :
    SameIndex w (setView c loads w spec) := by
  unfold setView
  split
  · exact ⟨rfl, rfl⟩
  dsimp only
  split
  · exact ⟨rfl, rfl⟩
  · exact SameIndex.trans ⟨rfl, rfl⟩ (maybeExpandView_index _)

theorem publish_numbered {sealed : List StoreChunk} (numbered : Numbered w)
    (fits : w.rows + (sealed.map StoreChunk.numRows).sum < 2 ^ 32) :
    Numbered (sealed.foldl publish w) := by
  induction sealed generalizing w with
  | nil => exact numbered
  | cons chunk rest ih =>
    rw [List.map_cons, List.sum_cons] at fits
    have own : asU32 chunk.numRows = chunk.numRows := asU32_small (by omega)
    have total : (publish w chunk).rows = w.rows + chunk.numRows := by
      rw [publish, own]
      exact asU32_small (by omega)
    have next : Numbered (publish w chunk) := by
      refine ⟨?_, by rw [total]; omega⟩
      rw [total]
      exact placed_append numbered.placed ⟨rfl, by rw [own]; rfl⟩
    exact ih next (by rw [total]; omega)

theorem step_numbered (numbered : Numbered w) (counted : Counted w action) (stepped : step c w action = some next) :
    Numbered next := by
  cases action with
  | begin columns =>
    simp only [step] at stepped
    split at stepped
    · cases stepped
      exact numbered
    split at stepped <;> cases stepped
    · exact numbered
    · exact ⟨numbered.placed, numbered.small⟩
  | push sealed refused =>
    simp only [step] at stepped
    split at stepped
    · cases stepped
      exact numbered
    rename_i writable
    split at stepped
    · cases stepped
      exact numbered
    have open_ := setPhase_index w .streaming
    have published : Numbered (sealed.foldl publish (w.setPhase .streaming)) :=
      publish_numbered (open_.numbered numbered) (by rw [open_.2]; exact counted writable)
    cases stepped
    split
    · exact published
    · exact (maybeExpandView_index _).numbered published
  | setView spec loads =>
    cases stepped
    exact (setView_index c loads w spec).numbered numbered
  | expand k loads =>
    simp only [step] at stepped
    split at stepped
    · cases stepped
    split at stepped
    · cases stepped
    cases stepped
    exact (runTask_index c loads _ _ _).numbered ⟨numbered.placed, numbered.small⟩
  | finish outcome loads =>
    simp only [step] at stepped
    split at stepped
    · cases stepped
      exact numbered
    cases stepped
    exact ((setPhase_index w outcome.phase).trans (expandViewNow_index c loads _)).numbered numbered

/-- In every finished result of fewer than `2 ^ 32` rows, a sorted view shows the rows its filters
and search keep, by their keys in the asked direction and equal keys in source order; the
comparison of keys is a total preorder, and only a column out of range or a chunk that cannot be
loaded refuses the view. -/
theorem finished_view_sorted (c : Collate) (counted : Along (step c) Counted start actions)
    (ran : run (step c) start actions = some w) (finished : w.phase.isFinished = true)
    (sort : spec.sort = some (column, descending)) (inRange : column < w.columnCount) (loads : Nat → Bool) :
    TransCmp cmpKeys ∧
      ((∀ filter ∈ spec.filters, filter.column < w.columnCount) → (∀ i < w.chunks.length, loads i = true) →
        ∃ info, computeView c loads w spec = .ok info) ∧
      ∀ info, computeView c loads w spec = .ok info →
        ∃ plain, computeView c loads w { spec with sort := none } = .ok plain ∧
          Sorted (keyAt c w.chunks column) descending (if spec.needsRows then plain.rows
            else List.range w.rows) info.rows := by
  have begun : Numbered start := ⟨rfl, Nat.two_pow_pos 32⟩
  have numbered : Numbered w :=
    run_invariant_along Numbered (fun _ _ _ numbered counted stepped => step_numbered numbered counted stepped)
      begun counted ran
  refine ⟨cmpKeys_trans, fun filters all => ?_, fun info computed => ?_⟩
  · refine ⟨_, (computeView_sorted_iff c loads w sort _).mpr
      ⟨⟨finished, inRange, filters, fun entry member => ?_⟩, rfl⟩⟩
    exact all _ (List.snd_lt_of_mem_zipIdx member)
  · obtain ⟨⟨_, _, filters, all⟩, rfl⟩ := (computeView_sorted_iff c loads w sort info).mp computed
    obtain ⟨plain, unsorted, rows⟩ := computeView_unsorted (c := c) filters all
    refine ⟨plain, unsorted, ?_⟩
    have base : (if spec.needsRows = true then plain.rows else List.range w.rows) = baseRows c w spec := by
      split
      · next needs => exact rows needs
      · next needs => rw [baseRows, if_neg needs]
    obtain ⟨once, below⟩ := baseRows_listed c spec numbered
    have kept : ((List.range w.rows).filter ((baseRows c w spec).contains ·)).Perm (baseRows c w spec) := by
      refine (List.perm_ext_iff_of_nodup (List.nodup_range.filter _) once).mpr fun row => ?_
      simp only [List.mem_filter, List.mem_range, List.contains_iff_mem, and_iff_right_iff_imp]
      exact below row
    rw [base]
    have listed : ((List.range w.rows).filter ((baseRows c w spec).contains ·)).Nodup := List.nodup_range.filter _
    have sorted := sorted_of_keys (keyAt c w.chunks column) descending listed
    rw [sortKeys_numbered c column numbered]
    exact ⟨sorted.perm.trans kept, sorted.ordered, sorted.ties⟩

private def words : StoreChunk := ⟨3, [[some (.text "a"), some .null, some (.text "b")]]⟩
private def byFirst (descending : Bool) : ViewSpec := ⟨some (0, descending), [], ""⟩

/-- Three rows by their first column, descending. -/
theorem finished_view_sorted_words :
    ∃ w, run (step plainText) start [.begin 1, .push [words] false, .finish (.complete false) fun _ => true] = some w ∧
      TransCmp cmpKeys ∧
        ((∀ filter ∈ (byFirst true).filters, filter.column < w.columnCount) → (∀ i < w.chunks.length, true = true) →
          ∃ info, computeView plainText (fun _ => true) w (byFirst true) = .ok info) ∧
        ∀ info, computeView plainText (fun _ => true) w (byFirst true) = .ok info →
          ∃ plain, computeView plainText (fun _ => true) w { byFirst true with sort := none } = .ok plain ∧
            Sorted (keyAt plainText w.chunks 0) true
              (if (byFirst true).needsRows then plain.rows else List.range w.rows) info.rows := by
  have counted : Along (step plainText) Counted start [.begin 1, .push [words] false,
    .finish (.complete false) fun _ => true] :=
    along_cons trivial rfl (along_cons (fun _ => by decide) rfl (along_cons trivial rfl along_nil))
  exact ⟨_, rfl, finished_view_sorted plainText counted rfl rfl rfl (by decide) fun _ => true⟩

private def nulls (rows : Nat) : StoreChunk := ⟨rows, [List.replicate rows (some .null)]⟩

/-- Among rows below `2 ^ 32` only the first has number zero. -/
theorem first_row_kept (key : Nat → SortKey) (some : 0 < n) (small : n ≤ 2 ^ 32) :
    ((List.range n).map fun row => (asU32 (0 + asU32 row), key row)).filter
      (fun pair => decide (pair.1 < 1) && [0].contains pair.1) = [(0, key 0)] := by
  obtain ⟨m, rfl⟩ := Nat.exists_eq_succ_of_ne_zero (Nat.ne_of_gt some)
  rw [List.range_succ_eq_map, List.map_cons, List.filter_cons_of_pos (by rfl), List.map_map]
  refine congrArg (_ :: ·) (List.filter_eq_nil_iff.mpr ?_)
  intro pair member
  obtain ⟨row, inside, rfl⟩ := List.mem_map.mp member
  have below := List.mem_range.mp inside
  have own : asU32 (0 + asU32 (row + 1)) = row + 1 := by
    rw [asU32_small (by omega : row + 1 < 2 ^ 32), Nat.zero_add, asU32_small (by omega)]
  simp only [Function.comp_apply, Nat.succ_eq_add_one, own]
  simp

theorem wrapped_keys :
    (sortKeys plainText 0 1 [0] [⟨0, 4294967295, nulls 4294967295⟩, ⟨4294967295, 2, nulls 2⟩]
      [nulls 4294967295, nulls 2]).length = 2 := by
  have first := first_row_kept (fun row => SortKey.of plainText ((valueOf (nulls 4294967295) 0 row).getD .null))
    (by decide : 0 < 4294967295) (by decide)
  unfold sortKeys
  simp only [List.zip_cons_cons, List.zip_nil_right, List.flatMap_cons, List.flatMap_nil, List.append_nil,
    List.filter_append]
  rw [first]
  decide

/-- Past `2 ^ 32` rows the numbers start again: of `2 ^ 32 + 1` rows the count is one, and a sort
shows the first row twice. -/
theorem wrapped_rows_repeat :
    ∃ w info, run (step plainText) start
        [.begin 1, .push [nulls 4294967295] false, .push [nulls 2] false, .finish (.complete false) fun _ =>
        true] = some w ∧
      w.phase.isFinished = true ∧ 0 < w.columnCount ∧
        computeView plainText (fun _ => true) w (byFirst false) = .ok info ∧ ¬ info.rows.Perm (List.range w.rows) := by
  refine ⟨_, _, rfl, rfl, by decide,
    (computeView_sorted_iff plainText _ _ rfl _).mpr ⟨⟨rfl, by decide, nofun, fun _ _ => rfl⟩, rfl⟩, ?_⟩
  intro perm
  have length := perm.length_eq
  rw [List.length_map, List.length_mergeSort] at length
  exact absurd (wrapped_keys.symm.trans length) (by decide)

end Views
end QueryHive.Store
