import QueryHive.Library.Runs
import QueryHive.Library.Watermark
import QueryHive.Store.Filter

/-! A view over a result that is still streaming. `compute_view` scans the chunks
that are there when the view is installed; later chunks are scanned by expansion
runs, which keep a watermark. A run is any sequence of calls and expansion runs,
one after another. -/
namespace QueryHive.Store.Views
open QueryHive.Library.Runs QueryHive.Library.Watermark

inductive StoreError where
  | released
  | superseded
  | streaming
  | invalidArgument (message : String)
  /-- A chunk could not be loaded. -/
  | corrupt
  deriving DecidableEq, Repr

/-- A published view. -/
structure View where
  id : Nat
  rows : List Nat
  len : Nat
  cancel : Bool
  scanned : Nat
  expanding : Bool
  spec : ViewSpec
  identity : Bool
  expandable : Bool
  deriving Repr

structure ViewInfo where
  rows : List Nat
  fetched : Nat
  /-- Total after filtering and searching, before the sort. -/
  visible : Nat
  isIdentity : Bool
  streaming : Bool
  deriving Repr

structure World where
  phase : Phase
  /-- How many columns `begin` declared; none before it. -/
  columnCount : Nat
  chunks : List ChunkEntry
  rows : Nat
  /-- Every view that was installed, the latest last. -/
  views : List View
  /-- The place in `views` of the current one. -/
  current : Option Nat
  viewSeq : Nat
  /-- Expansion tasks that were spawned and have not run, by their view. -/
  tasks : List Nat

/-- A new store. -/
def start : World := ⟨.empty, 0, [], 0, [], none, 0, []⟩

def World.currentView (w : World) : Option View := w.current.bind (w.views[·]?)

def World.putView (w : World) (place : Nat) (view : View) : World :=
  { w with views := w.views.set place view }

/-- The rows in view order, or `Superseded` once a newer view took over. -/
def View.readRows (view : View) : Except StoreError (List Nat) :=
  if view.cancel then .error .superseded else .ok view.rows

/-- Ascending is number, date or time, text, NULL. -/
inductive SortKey where
  | num (key : NumKey)
  | temporal (rank : Nat) (value : Int)
  | text (key : List UInt8)
  | null
  deriving DecidableEq, Repr

def SortKey.of (c : Collate) : Value → SortKey
  | .null => .null
  | .date days => .temporal 0 days.toInt
  | .timestamp micros _ => .temporal 0 micros.toInt
  | .time micros => .temporal 1 micros.toInt
  | other =>
    let text := (c.toText other).getD ""
    match c.swiftPlainNumber text with
    | some number => .num number
    | none => .text (c.naturalKey text)

def SortKey.rank : SortKey → Nat
  | .num _ => 0
  | .temporal .. => 1
  | .text _ => 2
  | .null => 3

def cmpKeys (left right : SortKey) : Ordering :=
  if left.rank ≠ right.rank then compare left.rank right.rank
  else
    match left, right with
    | .num a, .num b => a.cmp b
    | .temporal ra a, .temporal rb b => (compare ra rb).then (compare a b)
    | .text a, .text b => compare a b
    | _, _ => .eq

/-- The comparator of the sort; the tie-break never reverses. -/
def sortedBefore (descending : Bool) (left right : Nat × SortKey) : Bool :=
  let order := cmpKeys left.2 right.2
  let order := if descending then order.swap else order
  (order.then (compare left.1 right.1)).isLE

def checkColumns (spec : ViewSpec) (width : Nat) : Except StoreError Unit := do
  if let some (column, _) := spec.sort then
    if width ≤ column then
      throw (.invalidArgument s!"sort column {column} is out of range (width {width})")
  for filter in spec.filters do
    if width ≤ filter.column then
      throw (.invalidArgument s!"filter column {filter.column} is out of range (width {width})")

/-- `load_chunk` on each entry; `loads` says which chunks can be loaded now. -/
def loadChunks (loads : Nat → Bool) (entries : List (ChunkEntry × Nat)) :
    Except StoreError (List StoreChunk) :=
  entries.mapM fun entry => if loads entry.2 then .ok entry.1.chunk else .error .corrupt

/-- Each chunk yields its own rows, and they are concatenated in chunk order. -/
def scanChunks (c : Collate) (spec : ViewSpec) (references : List ChunkEntry) (chunks : List StoreChunk) :
    List Nat :=
  (references.zip chunks).flatMap fun pair => scanChunk c spec pair.1 pair.2

def sortKeys (c : Collate) (column fetched : Nat) (included : List Nat) (references : List ChunkEntry)
    (chunks : List StoreChunk) : List (Nat × SortKey) :=
  let keys := (references.zip chunks).flatMap fun pair =>
    (List.range pair.1.rows).map fun row =>
      (asU32 (pair.1.firstRow + asU32 row), SortKey.of c ((valueOf pair.2 column row).getD .null))
  keys.filter fun key => decide (key.1 < fetched) && included.contains key.1

def computeView (c : Collate) (loads : Nat → Bool) (w : World) (spec : ViewSpec) :
    Except StoreError ViewInfo := do
  let fetched := w.rows
  let streaming := !w.phase.isFinished
  if spec.isIdentity then
    return ⟨[], fetched, fetched, true, streaming⟩
  checkColumns spec w.columnCount
  if spec.sort.isSome && streaming then
    throw .streaming
  let chunks ← loadChunks loads w.chunks.zipIdx
  let rows := if spec.needsRows then scanChunks c spec w.chunks chunks else List.range fetched
  let visible := asU32 rows.length
  let rows :=
    match spec.sort with
    | none => rows
    | some (column, descending) =>
      ((sortKeys c column fetched rows w.chunks chunks).mergeSort (sortedBefore descending)).map Prod.fst
  return ⟨rows, fetched, visible, false, streaming⟩

/-- `View::new`: the watermark starts at zero. -/
def View.new (id : Nat) (spec : ViewSpec) (info : ViewInfo) (streaming : Bool) : View :=
  let identity := spec.isIdentity
  { id, rows := info.rows
    len := if identity then info.fetched else asU32 info.rows.length
    cancel := false, scanned := 0, expanding := false, spec, identity
    expandable := streaming && !identity && spec.sort.isNone && spec.needsRows }

def buildView (c : Collate) (loads : Nat → Bool) (w : World) (spec : ViewSpec) (id : Nat) :
    Except StoreError View := do
  let streaming := !w.phase.isFinished
  let info ← computeView c loads w spec
  return View.new id spec info streaming

def View.appendRows (view : View) (rows : List Nat) : View :=
  if rows.isEmpty then view
  else { view with rows := view.rows ++ rows, len := asU32 (view.rows ++ rows).length }

/-- `expand_view`: scan the chunks past the watermark and append the rows that match. -/
def expandView (c : Collate) (loads : Nat → Bool) (w : World) (place : Nat) (view : View) : World :=
  let start := view.scanned
  if w.chunks.length ≤ start then w
  else
    let pending := w.chunks.drop start
    let loaded := (loadChunks loads (w.chunks.zipIdx.drop start)).toOption.getD []
    if loaded.length ≠ pending.length then w.putView place { view with cancel := true }
    else if view.cancel then w
    else
      let matched := scanChunks c view.spec pending loaded
      w.putView place { view.appendRows matched with scanned := asU32 w.chunks.length }

/-- `maybe_expand_view`: if the current view owes rows, spawn at most one task. -/
def maybeExpandView (w : World) : World :=
  match w.current, w.currentView with
  | some place, some view =>
    if !view.expandable || view.cancel then w
    else if asU32 w.chunks.length ≤ view.scanned then w
    else if view.expanding then w
    else { w.putView place { view with expanding := true } with tasks := w.tasks ++ [place] }
  | _, _ => w

def endExpanding (w : World) (place : Nat) : World :=
  match w.views[place]? with
  | none => w
  | some view => w.putView place { view with expanding := false }

/-- A spawned task: expand its view, give the claim back, and look for more. -/
def runTask (c : Collate) (loads : Nat → Bool) (w : World) (place : Nat) (view : View) : World :=
  let expanded := endExpanding (expandView c loads w place view) place
  if ((expanded.views[place]?).any fun view => view.scanned < asU32 expanded.chunks.length) then
    maybeExpandView expanded
  else expanded

/-- `expand_view_now`, the final expansion of `finish`. -/
def expandViewNow (c : Collate) (loads : Nat → Bool) (w : World) : World :=
  match w.current, w.currentView with
  | some place, some view =>
    if view.expandable && !view.cancel then expandView c loads w place view else w
  | _, _ => w

/-- Never backwards out of a terminal phase, and never past `Released`. -/
def World.setPhase (w : World) (phase : Phase) : World :=
  if w.phase = .released then w
  else if w.phase.isFinished && !phase.isFinished then w
  else { w with phase }

def checkWritable (w : World) : Except StoreError Unit :=
  match w.phase with
  | .released => .error .released
  | .empty | .streaming => .ok ()
  | _ => .error (.invalidArgument "the result is already finished")

def publish (w : World) (chunk : StoreChunk) : World :=
  let rows := asU32 chunk.numRows
  { w with chunks := w.chunks ++ [⟨w.rows, rows, chunk⟩], rows := asU32 (w.rows + rows) }

inductive Outcome where
  | complete (truncated : Bool)
  | cancelled
  | failed (detail : String)
  deriving DecidableEq, Repr

def Outcome.phase : Outcome → Phase
  | .complete _ => .complete
  | .cancelled => .cancelled
  | .failed _ => .failed

inductive Action where
  | begin (columns : Nat)
  /-- `push` and `push_chunk`: the chunks that were sealed and charged, and
  whether a later one was refused, which ends the call there. -/
  | push (sealed : List StoreChunk) (refused : Bool)
  | setView (spec : ViewSpec) (loads : Nat → Bool)
  /-- The `k`th pending task runs. -/
  | expand (k : Nat) (loads : Nat → Bool)
  /-- Every push sealed what it staged, so `finish` has nothing left to seal. -/
  | finish (outcome : Outcome) (loads : Nat → Bool)

/-- `set_view`: the new view is installed and the old one cancelled. -/
def setView (c : Collate) (loads : Nat → Bool) (w : World) (spec : ViewSpec) : World :=
  if w.phase = .released then w
  else
    let id := w.viewSeq + 1
    let counted := { w with viewSeq := id }
    match buildView c loads counted spec id with
    | .error _ => counted
    | .ok view =>
      let superseded :=
        match counted.current with
        | none => counted.views
        | some place => counted.views.modify place fun old => { old with cancel := true }
      maybeExpandView { counted with views := superseded ++ [view], current := some superseded.length }

/-- One call or one task. A call that is refused outright changes nothing. -/
def step (c : Collate) (w : World) : Action → Option World
  | .begin columns =>
    match checkWritable w with
    | .error _ => some w
    | .ok _ => if w.columnCount ≠ 0 || columns = 0 then some w else some { w with columnCount := columns }
  | .push sealed refused =>
    match checkWritable w with
    | .error _ => some w
    | .ok _ =>
      if w.columnCount = 0 || sealed.any (·.columns.length ≠ w.columnCount) then some w
      else
        let published := sealed.foldl publish (w.setPhase .streaming)
        some (if refused then published else maybeExpandView published)
  | .setView spec loads => some (setView c loads w spec)
  | .expand k loads =>
    match w.tasks[k]? with
    | none => none
    | some place =>
      match w.views[place]? with
      | none => none
      | some view => some (runTask c loads { w with tasks := w.tasks.eraseIdx k } place view)
  | .finish outcome loads =>
    if w.phase = .released then some w else some (expandViewNow c loads (w.setPhase outcome.phase))

def scanEntry (c : Collate) (spec : ViewSpec) (entry : ChunkEntry) : List Nat :=
  scanChunk c spec entry entry.chunk

def Filtering (spec : ViewSpec) : Prop := spec.sort = none ∧ spec.needsRows = true

/-- `maybe_expand_view` would spawn a task for the view, or has spawned one. -/
def Owed (w : World) (view : View) : Prop :=
  view.expandable = true ∧ view.cancel = false ∧ view.scanned < asU32 w.chunks.length

/-- The current filter view shows what scanning a first part of the chunks gives,
all of them once no expansion is owed, in source order and no row twice. -/
def InOrder (c : Collate) (w : World) : Prop :=
  ∀ view rows, w.currentView = some view → Filtering view.spec → view.readRows = .ok rows →
    (∃ k, Read (scanEntry c view.spec) w.chunks k rows ∧ (¬Owed w view → k = w.chunks.length)) ∧
      rows.Pairwise (· < ·)

/-- An expansion that starts at the first chunk, of a live view and with every
chunk at hand, finds the view empty. -/
def FreshEmpty (w : World) (loads : Nat → Bool) (view : View) : Prop :=
  view.cancel = false → view.scanned = 0 → (∀ i < w.chunks.length, loads i = true) → view.rows = []

/-- The rows and the chunks of the result stay below `2 ^ 32`, and no expansion
reads again from the first chunk what the view already shows. -/
def Ready (w : World) : Action → Prop
  | .push sealed _ =>
    checkWritable w = .ok () →
      w.rows + (sealed.map StoreChunk.numRows).sum < 2 ^ 32 ∧ w.chunks.length + sealed.length < 2 ^ 32
  | .expand k loads =>
    ∀ place view, w.tasks[k]? = some place → w.views[place]? = some view → FreshEmpty w loads view
  | .finish _ loads => ∀ view, w.currentView = some view → view.expandable = true → FreshEmpty w loads view
  | _ => True

/-- The entries cover the rows from `first` to `last` without a gap. -/
def Placed : Nat → List ChunkEntry → Nat → Prop
  | first, [], last => first = last
  | first, entry :: rest, last => entry.firstRow = first ∧ Placed (first + entry.rows) rest last

/-- A live filter view has read a first part of the chunks. Its watermark is that
part, or still zero after `compute_view`; a view of a finished result has read all. -/
def ViewSound (c : Collate) (w : World) (view : View) : Prop :=
  view.cancel = false → Filtering view.spec →
    ∃ mark, Read (scanEntry c view.spec) w.chunks mark view.rows ∧
      (view.scanned = mark ∨ view.scanned = 0) ∧
      (view.expandable = false → w.phase.isFinished = true ∧ mark = w.chunks.length)

structure Sound (c : Collate) (w : World) : Prop where
  placed : Placed 0 w.chunks w.rows
  rows : w.rows < 2 ^ 32
  chunks : w.chunks.length < 2 ^ 32
  views : ∀ view ∈ w.views, ViewSound c w view

@[simp] theorem asU32_small (small : n < 2 ^ 32) : asU32 n = n := Nat.mod_eq_of_lt small

theorem placed_append (before : Placed first entries middle) (after : Placed middle more last) :
    Placed first (entries ++ more) last := by
  induction entries generalizing first with
  | nil =>
    cases before
    exact after
  | cons entry rest ih => exact ⟨before.1, ih before.2⟩

theorem placed_le (placed : Placed first entries last) : first ≤ last := by
  induction entries generalizing first with
  | nil => exact Nat.le_of_eq placed
  | cons entry rest ih => exact Nat.le_trans (Nat.le_add_right _ _) (ih placed.2)

/-- Below `2 ^ 32` rows a chunk's rows are numbered from its first row. -/
theorem scan_entry_rows (small : entry.firstRow + entry.rows < 2 ^ 32) :
    scanEntry c spec entry =
      ((List.range entry.rows).filter (keepsRow c spec entry.chunk)).map (entry.firstRow + ·) := by
  refine List.map_congr_left fun row member => ?_
  have below : row < entry.rows := List.mem_range.mp (List.mem_of_mem_filter member)
  rw [asU32_small (by omega : row < 2 ^ 32), asU32_small (by omega)]

theorem placed_scan_ordered (placed : Placed first entries last) (small : last < 2 ^ 32) :
    (entries.flatMap (scanEntry c spec)).Pairwise (· < ·) ∧
      ∀ row ∈ entries.flatMap (scanEntry c spec), first ≤ row ∧ row < last := by
  induction entries generalizing first with
  | nil => exact ⟨List.Pairwise.nil, nofun⟩
  | cons entry rest ih =>
    obtain ⟨starts, placed⟩ := placed
    obtain ⟨ordered, within⟩ := ih placed
    have room := placed_le placed
    have own : ∀ row ∈ scanEntry c spec entry, first ≤ row ∧ row < first + entry.rows := by
      intro row member
      rw [scan_entry_rows (by omega)] at member
      obtain ⟨offset, kept, rfl⟩ := List.mem_map.mp member
      have below : offset < entry.rows := List.mem_range.mp (List.mem_of_mem_filter kept)
      omega
    rw [List.flatMap_cons]
    constructor
    · refine List.pairwise_append.mpr ⟨?_, ordered, fun row member later beyond => ?_⟩
      · rw [scan_entry_rows (by omega)]
        exact (List.pairwise_lt_range.filter _).map _ fun _ _ less => Nat.add_lt_add_left less _
      · exact Nat.lt_of_lt_of_le (own row member).2 (within later beyond).1
    · intro row member
      rcases List.mem_append.mp member with mine | later
      · have bounds := own row mine
        omega
      · have bounds := within row later
        omega

theorem load_chunks_ok (loaded : loadChunks loads entries = .ok chunks) :
    chunks = entries.map (·.1.chunk) ∧ ∀ entry ∈ entries, loads entry.2 = true := by
  induction entries generalizing chunks with
  | nil =>
    cases loaded
    exact ⟨rfl, nofun⟩
  | cons entry rest ih =>
    rw [loadChunks, List.mapM_cons] at loaded
    split at loaded
    · rename_i first
      change (loadChunks loads rest >>= fun later => .ok (entry.1.chunk :: later)) = _ at loaded
      cases later : loadChunks loads rest with
      | error _ => simp [later, bind, Except.bind] at loaded
      | ok found =>
        simp only [later, bind, Except.bind, Except.ok.injEq] at loaded
        obtain ⟨same, all⟩ := ih later
        exact ⟨by rw [← loaded, same, List.map_cons], List.forall_mem_cons.mpr ⟨first, all⟩⟩
    · cases loaded

theorem load_chunks_all (all : ∀ entry ∈ entries, loads entry.2 = true) :
    loadChunks loads entries = .ok (entries.map (·.1.chunk)) := by
  induction entries with
  | nil => rfl
  | cons entry rest ih =>
    have later := ih fun other member => all other (List.mem_cons_of_mem _ member)
    rw [loadChunks] at later ⊢
    rw [List.mapM_cons, if_pos (all entry List.mem_cons_self), later]
    rfl

@[simp] theorem scan_chunks_own (entries : List ChunkEntry) :
    scanChunks c spec entries (entries.map (·.chunk)) = entries.flatMap (scanEntry c spec) := by
  induction entries with
  | nil => rfl
  | cons entry rest ih =>
    rw [scanChunks] at ih ⊢
    rw [List.map_cons, List.zip_cons_cons, List.flatMap_cons, List.flatMap_cons, ih]
    rfl

private theorem numbered_chunks (entries : List ChunkEntry) (start : Nat) :
    (entries.zipIdx.drop start).map (·.1.chunk) = (entries.drop start).map (·.chunk) := by
  calc (entries.zipIdx.drop start).map (·.1.chunk)
      = ((entries.zipIdx.drop start).map Prod.fst).map (·.chunk) := by rw [List.map_map]; rfl
    _ = (entries.drop start).map (·.chunk) := by rw [List.map_drop, List.zipIdx_map_fst]

theorem not_identity {spec : ViewSpec} (needs : spec.needsRows = true) : spec.isIdentity = false := by
  simp only [ViewSpec.needsRows, Bool.or_eq_true, Bool.not_eq_true', decide_eq_true_eq] at needs
  rcases needs with filters | search
  · simp [ViewSpec.isIdentity, filters]
  · simp [ViewSpec.isIdentity, search]

/-- A filter view starts with what scanning every chunk gives. -/
theorem compute_view_filtering (filtering : Filtering spec)
    (computed : computeView c loads w spec = .ok info) :
    info.rows = w.chunks.flatMap (scanEntry c spec) := by
  obtain ⟨unsorted, needs⟩ := filtering
  simp only [computeView, not_identity needs, unsorted, Option.isSome_none, Bool.false_and,
    Bool.false_eq_true, if_false, bind, Except.bind, pure, Except.pure] at computed
  split at computed
  · cases computed
  · split at computed
    · cases computed
    · rename_i chunks loaded
      simp only [needs, if_true, Except.ok.injEq] at computed
      rw [← computed, (load_chunks_ok loaded).1]
      have own := numbered_chunks w.chunks 0
      rw [List.drop_zero, List.drop_zero] at own
      rw [own, scan_chunks_own]

/-- What `build_view` installs for a filter spec. -/
theorem build_view_filtering {id : Nat} (filtering : Filtering spec)
    (built : buildView c loads w spec id = .ok view) :
    view.rows = w.chunks.flatMap (scanEntry c spec) ∧ view.scanned = 0 ∧
      view.expandable = !w.phase.isFinished := by
  simp only [buildView, bind, Except.bind, pure, Except.pure] at built
  split at built
  · cases built
  · rename_i info computed
    cases built
    refine ⟨compute_view_filtering filtering computed, rfl, ?_⟩
    simp [View.new, not_identity filtering.2, filtering.1, filtering.2]

theorem build_view_spec {id : Nat} (built : buildView c loads w spec id = .ok view) :
    view.spec = spec ∧ view.cancel = false := by
  simp only [buildView, bind, Except.bind, pure, Except.pure] at built
  split at built
  · cases built
  · cases built
    exact ⟨rfl, rfl⟩

private theorem append_rows_rows (view : View) (rows : List Nat) :
    ∃ len, view.appendRows rows = { view with rows := view.rows ++ rows, len } := by
  unfold View.appendRows
  split
  · rename_i none
    exact ⟨view.len, by rw [List.isEmpty_iff.mp none, List.append_nil]⟩
  · exact ⟨_, rfl⟩

theorem expand_view_appends (c : Collate) (place : Nat) (behind : view.scanned < w.chunks.length)
    (live : view.cancel = false) (found : loadChunks loads (w.chunks.zipIdx.drop view.scanned) = .ok chunks) :
    ∃ len, expandView c loads w place view = w.putView place
      { view with
        rows := view.rows ++ (w.chunks.drop view.scanned).flatMap (scanEntry c view.spec)
        len, scanned := asU32 w.chunks.length } := by
  have same := (load_chunks_ok found).1
  rw [numbered_chunks] at same
  obtain ⟨len, appended⟩ :=
    append_rows_rows view ((w.chunks.drop view.scanned).flatMap (scanEntry c view.spec))
  refine ⟨len, ?_⟩
  simp only [expandView, Nat.not_le.mpr behind, if_false, found, Except.toOption, Option.getD_some, live,
    Bool.false_eq_true, same, List.length_map, ne_eq, not_true_eq_false, scan_chunks_own, appended]

/-- Everything an expansion can do to its view: nothing, cancel it, or append
what the chunks past the watermark give. -/
theorem expand_view_cases (c : Collate) (loads : Nat → Bool) (w : World) (place : Nat) (view : View) :
    expandView c loads w place view = w ∨
      expandView c loads w place view = w.putView place { view with cancel := true } ∨
      view.cancel = false ∧ (view.scanned = 0 → ∀ i < w.chunks.length, loads i = true) ∧
        ∃ len, expandView c loads w place view = w.putView place
          { view with
            rows := view.rows ++ (w.chunks.drop view.scanned).flatMap (scanEntry c view.spec)
            len, scanned := asU32 w.chunks.length } := by
  by_cases behind : w.chunks.length ≤ view.scanned
  · exact .inl (by simp only [expandView, behind, if_true])
  cases found : loadChunks loads (w.chunks.zipIdx.drop view.scanned) with
  | error _ =>
    refine .inr (.inl ?_)
    have short : ([] : List StoreChunk).length ≠ (w.chunks.drop view.scanned).length := by
      rw [List.length_drop, List.length_nil]
      omega
    simp only [expandView, behind, if_false, found, Except.toOption, Option.getD_none, if_pos short]
  | ok chunks =>
    obtain ⟨same, all⟩ := load_chunks_ok found
    rw [numbered_chunks] at same
    have whole : ¬chunks.length ≠ (w.chunks.drop view.scanned).length := by simp [same]
    by_cases gone : view.cancel = true
    · exact .inl (by simp only [expandView, behind, if_false, found, Except.toOption, Option.getD_some,
        if_neg whole, gone, if_true])
    have live := Bool.eq_false_iff.mpr gone
    refine .inr (.inr ⟨live, fun fresh i below => ?_, expand_view_appends c place (Nat.not_le.mp behind) live found⟩)
    have member : (w.chunks[i], i) ∈ w.chunks.zipIdx := by
      rw [List.mk_mem_zipIdx_iff_getElem?, List.getElem?_eq_getElem below]
    rw [fresh, List.drop_zero] at all
    exact all _ member

/-- A task is spawned for the current view, or nothing happens. -/
theorem maybe_expand_view_cases (w : World) :
    maybeExpandView w = w ∨
      ∃ place view, w.current = some place ∧ w.views[place]? = some view ∧
        maybeExpandView w =
          { w.putView place { view with expanding := true } with tasks := w.tasks ++ [place] } := by
  unfold maybeExpandView
  split
  · rename_i place view current found
    split
    · exact .inl rfl
    split
    · exact .inl rfl
    split
    · exact .inl rfl
    · refine .inr ⟨place, view, current, ?_, rfl⟩
      rw [World.currentView, current] at found
      exact found
  · exact .inl rfl

private theorem view_sound_frame (sound : ViewSound c w view) (chunks : next.chunks = w.chunks)
    (phase : w.phase.isFinished = true → next.phase.isFinished = true) : ViewSound c next view := by
  intro live filtering
  obtain ⟨mark, read, marked, whole⟩ := sound live filtering
  refine ⟨mark, chunks ▸ read, marked, fun fixed => ?_⟩
  obtain ⟨finished, all⟩ := whole fixed
  exact ⟨phase finished, by rw [chunks, all]⟩

private theorem put_view_sound (sound : Sound c w) (own : ViewSound c w view) :
    Sound c (w.putView place view) where
  placed := sound.placed
  rows := sound.rows
  chunks := sound.chunks
  views other member := by
    rcases List.mem_or_eq_of_mem_set member with old | new
    · exact view_sound_frame (sound.views other old) rfl id
    · subst new
      exact view_sound_frame own rfl id

private theorem cancelled_sound {view : View} : ViewSound c w { view with cancel := true } :=
  fun live => nomatch live

theorem maybe_expand_view_sound (sound : Sound c w) : Sound c (maybeExpandView w) := by
  rcases maybe_expand_view_cases w with same | ⟨place, view, _, found, spawned⟩
  · rw [same]
    exact sound
  · rw [spawned]
    have own : ViewSound c w { view with expanding := true } := sound.views view (List.mem_of_getElem? found)
    have put : Sound c (w.putView place _) := put_view_sound sound own
    exact ⟨put.placed, put.rows, put.chunks, fun other member => view_sound_frame (put.views other member) rfl id⟩

/-- An expansion keeps the view in order unless it reads again what the view shows. -/
theorem expand_view_sound (sound : Sound c w) (own : ViewSound c w view) (fresh : FreshEmpty w loads view) :
    Sound c (expandView c loads w place view) := by
  rcases expand_view_cases c loads w place view with same | cancelled | ⟨live, all, len, appended⟩
  · rw [same]
    exact sound
  · rw [cancelled]
    exact put_view_sound sound cancelled_sound
  · rw [appended]
    refine put_view_sound sound fun _ filtering => ?_
    obtain ⟨mark, read, marked, whole⟩ := own live filtering
    refine ⟨w.chunks.length, ?_, .inl (asU32_small sound.chunks), fun fixed => ⟨(whole fixed).1, rfl⟩⟩
    rcases marked with marked | zero
    · rw [marked]
      exact read_catch_up read
    · rw [zero, fresh live zero (all zero)]
      exact read_catch_up read_nothing

private theorem publish_sound (sound : Sound c w) (open_ : w.phase.isFinished = false)
    (fits : w.rows + chunk.numRows < 2 ^ 32) (room : w.chunks.length + 1 < 2 ^ 32) :
    Sound c (publish w chunk) := by
  have rows : asU32 chunk.numRows = chunk.numRows := asU32_small (by omega)
  have total : (publish w chunk).rows = w.rows + chunk.numRows := by
    rw [publish, rows]
    exact asU32_small fits
  refine ⟨?_, by rw [total]; exact fits, by simpa [publish] using room, fun view member live filtering => ?_⟩
  · rw [total]
    exact placed_append sound.placed ⟨rfl, by rw [rows]; rfl⟩
  · obtain ⟨mark, read, marked, whole⟩ := sound.views view member live filtering
    refine ⟨mark, read_append read _, marked, fun fixed => ?_⟩
    have finished := (whole fixed).1
    rw [open_] at finished
    cases finished

theorem publish_all_sound {sealed : List StoreChunk} (sound : Sound c w) (open_ : w.phase.isFinished = false)
    (fits : w.rows + (sealed.map StoreChunk.numRows).sum < 2 ^ 32)
    (room : w.chunks.length + sealed.length < 2 ^ 32) : Sound c (sealed.foldl publish w) := by
  induction sealed generalizing w with
  | nil => exact sound
  | cons chunk rest ih =>
    rw [List.map_cons, List.sum_cons] at fits
    rw [List.length_cons] at room
    have own : asU32 chunk.numRows = chunk.numRows := asU32_small (by omega)
    have total : (publish w chunk).rows = w.rows + chunk.numRows := by
      rw [publish, own]
      exact asU32_small (by omega)
    refine ih (publish_sound sound open_ (by omega) (by omega)) open_ ?_ ?_
    · rw [total]
      omega
    · simp only [publish, List.length_append, List.length_singleton]
      omega

private theorem set_phase_keeps (w : World) (phase : Phase) :
    (w.setPhase phase).chunks = w.chunks ∧ (w.setPhase phase).rows = w.rows ∧
      (w.setPhase phase).currentView = w.currentView := by
  unfold World.setPhase
  split
  · exact ⟨rfl, rfl, rfl⟩
  · split <;> exact ⟨rfl, rfl, rfl⟩

private theorem set_phase_sound (sound : Sound c w) : Sound c (w.setPhase phase) := by
  unfold World.setPhase
  split
  · exact sound
  split
  · exact sound
  · rename_i forward
    refine ⟨sound.placed, sound.rows, sound.chunks, fun view member =>
      view_sound_frame (sound.views view member) rfl fun finished => ?_⟩
    simpa [finished] using forward

private theorem streaming_open (writable : checkWritable w = .ok done) :
    (w.setPhase .streaming).phase.isFinished = false := by
  cases phase : w.phase <;> simp [checkWritable, phase] at writable <;>
    simp [World.setPhase, phase, Phase.isFinished]

private theorem built_sound {id : Nat} (built : buildView c loads w spec id = .ok view) : ViewSound c w view := by
  intro _ filtering
  rw [(build_view_spec built).1] at filtering ⊢
  obtain ⟨rows, scanned, expandable⟩ := build_view_filtering filtering built
  refine ⟨w.chunks.length, rows ▸ read_all, .inr scanned, fun fixed => ⟨?_, rfl⟩⟩
  rw [expandable] at fixed
  simpa using fixed

theorem set_view_sound (sound : Sound c w) : Sound c (setView c loads w spec) := by
  unfold setView
  split
  · exact sound
  simp only
  have counted : Sound c { w with viewSeq := w.viewSeq + 1 } :=
    ⟨sound.placed, sound.rows, sound.chunks, fun view member => view_sound_frame (sound.views view member) rfl id⟩
  split
  · exact counted
  rename_i view built
  refine maybe_expand_view_sound ⟨sound.placed, sound.rows, sound.chunks, fun other member => ?_⟩
  rcases List.mem_append.mp member with old | new
  · split at old
    · exact view_sound_frame (counted.views other old) rfl id
    · obtain ⟨at_, below, same⟩ := List.getElem_of_mem old
      rw [List.getElem_modify] at same
      split at same
      · rw [← same]
        exact cancelled_sound
      · exact view_sound_frame (counted.views other (same ▸ List.getElem_mem _)) rfl id
  · rw [List.mem_singleton.mp new]
    exact view_sound_frame (built_sound built) rfl id

private theorem end_expanding_sound (sound : Sound c w) : Sound c (endExpanding w place) := by
  unfold endExpanding
  split
  · exact sound
  · rename_i view found
    exact put_view_sound sound (sound.views view (List.mem_of_getElem? found))

private theorem run_task_sound (sound : Sound c w) (own : ViewSound c w view) (fresh : FreshEmpty w loads view) :
    Sound c (runTask c loads w place view) := by
  have expanded : Sound c (endExpanding (expandView c loads w place view) place) :=
    end_expanding_sound (expand_view_sound sound own fresh)
  unfold runTask
  simp only
  split
  · exact maybe_expand_view_sound expanded
  · exact expanded

private theorem expand_view_now_sound (sound : Sound c w)
    (fresh : ∀ view, w.currentView = some view → view.expandable = true → FreshEmpty w loads view) :
    Sound c (expandViewNow c loads w) := by
  unfold expandViewNow
  split
  · rename_i place view current found
    split
    · rename_i open_
      have expandable := (Bool.and_eq_true_iff.mp open_).1
      rw [World.currentView, current] at found
      exact expand_view_sound sound (sound.views view (List.mem_of_getElem? found))
        (fresh view (by rw [World.currentView, current]; exact found) expandable)
    · exact sound
  · exact sound

/-- What each step keeps, one call or one task after another. -/
theorem step_sound (sound : Sound c w) (ready : Ready w action) (stepped : step c w action = some next) :
    Sound c next := by
  cases action with
  | begin columns =>
    simp only [step] at stepped
    split at stepped
    · cases stepped
      exact sound
    split at stepped <;> cases stepped
    · exact sound
    · exact ⟨sound.placed, sound.rows, sound.chunks, fun view member =>
        view_sound_frame (sound.views view member) rfl id⟩
  | push sealed refused =>
    simp only [step] at stepped
    split at stepped
    · cases stepped
      exact sound
    rename_i writable
    split at stepped
    · cases stepped
      exact sound
    obtain ⟨fits, room⟩ := ready writable
    have streaming := streaming_open writable
    obtain ⟨chunks, rows, _⟩ := set_phase_keeps w .streaming
    have published : Sound c (sealed.foldl publish (w.setPhase .streaming)) :=
      publish_all_sound (set_phase_sound sound) streaming (by rw [rows]; exact fits) (by rw [chunks]; exact room)
    cases stepped
    split
    · exact published
    · exact maybe_expand_view_sound published
  | setView spec loads =>
    cases stepped
    exact set_view_sound sound
  | expand k loads =>
    simp only [step] at stepped
    split at stepped
    · cases stepped
    rename_i place task
    split at stepped
    · cases stepped
    rename_i view found
    cases stepped
    have taken : Sound c { w with tasks := w.tasks.eraseIdx k } :=
      ⟨sound.placed, sound.rows, sound.chunks, fun other member =>
        view_sound_frame (sound.views other member) rfl id⟩
    exact run_task_sound taken (taken.views view (List.mem_of_getElem? found)) (ready place view task found)
  | finish outcome loads =>
    simp only [step] at stepped
    split at stepped
    · cases stepped
      exact sound
    cases stepped
    obtain ⟨chunks, _, current⟩ := set_phase_keeps w outcome.phase
    refine expand_view_now_sound (set_phase_sound sound) fun view found expandable => ?_
    rw [current] at found
    have fresh := ready view found expandable
    unfold FreshEmpty at fresh ⊢
    rw [chunks]
    exact fresh

theorem sound_in_order (sound : Sound c w) : InOrder c w := by
  intro view rows found filtering read
  have member : view ∈ w.views := by
    obtain ⟨place, _, here⟩ := Option.bind_eq_some_iff.mp found
    exact List.mem_of_getElem? here
  unfold View.readRows at read
  split at read
  · cases read
  rename_i live
  cases read
  have live : view.cancel = false := Bool.eq_false_iff.mpr live
  obtain ⟨mark, read, marked, whole⟩ := sound.views view member live filtering
  have within := read.within
  refine ⟨⟨mark, read, fun settled => ?_⟩, read_pairwise (placed_scan_ordered sound.placed sound.rows).1 read⟩
  by_cases expandable : view.expandable = true
  · have caught : ¬view.scanned < w.chunks.length := fun behind =>
      settled ⟨expandable, live, by rw [asU32_small sound.chunks]; exact behind⟩
    rcases marked with marked | zero <;> omega
  · exact (whole (Bool.eq_false_iff.mpr expandable)).2

private theorem start_sound : Sound c start :=
  ⟨rfl, Nat.two_pow_pos 32, Nat.two_pow_pos 32, fun _ member => nomatch member⟩

private theorem current_put_view {w : World} (current : w.current = some place) (found : w.views[place]? = some old) :
    (w.putView place view).currentView = some view := by
  have below : place < w.views.length := (List.getElem?_eq_some_iff.mp found).1
  rw [World.currentView]
  exact (congrArg (Option.bind · _) current).trans (List.getElem?_set_self below)

/-- The condition is sharp: reading again what the current view shows repeats its rows. -/
theorem stale_expansion_repeats (sound : Sound c w) (current : w.current = some place)
    (found : w.views[place]? = some view) (filtering : Filtering view.spec)
    (stale : ¬FreshEmpty w loads view) : ¬InOrder c (expandView c loads w place view) := by
  simp only [FreshEmpty, Classical.not_imp] at stale
  obtain ⟨live, zero, all, shown⟩ := stale
  obtain ⟨mark, read, _⟩ := sound.views view (List.mem_of_getElem? found) live filtering
  obtain ⟨row, member⟩ := List.exists_mem_of_ne_nil _ shown
  have again : row ∈ w.chunks.flatMap (scanEntry c view.spec) := by
    rw [read.output] at member
    obtain ⟨entry, taken, here⟩ := List.mem_flatMap.mp member
    exact List.mem_flatMap.mpr ⟨entry, List.mem_of_mem_take taken, here⟩
  have behind : view.scanned < w.chunks.length := by
    rw [zero, List.length_pos_iff]
    rintro none
    rw [none] at again
    cases again
  have ready : ∀ entry ∈ w.chunks.zipIdx.drop view.scanned, loads entry.2 = true := fun entry within =>
    all entry.2 (List.snd_lt_of_mem_zipIdx (List.mem_of_mem_drop within))
  obtain ⟨len, appended⟩ := expand_view_appends c place behind live (load_chunks_all ready)
  intro inOrder
  rw [appended] at inOrder
  have shows_ := inOrder _ _ (current_put_view current found) filtering (if_neg (by simp [live]))
  rw [zero, List.drop_zero] at shows_
  exact Nat.lt_irrefl row ((List.pairwise_append.mp shows_.2).2.2 row member row again)

/-- In every run of calls and expansions that stays ready, the current filter
view shows every kept row once and in source order. -/
theorem streaming_view_in_order (c : Collate) (actions : List Action) (w : World)
    (ready : Along (step c) Ready start actions) (ran : run (step c) start actions = some w) : InOrder c w :=
  sound_in_order (run_invariant_along (Sound c) (fun _ _ _ sound ready stepped => step_sound sound ready stepped)
    start_sound ready ran)

def plainText : Collate where
  toText
    | .text value => some value
    | _ => none
  nfc s := s
  toLowercase s := s
  swiftDouble _ := none
  swiftPlainNumber _ := none
  naturalKey s := s.toUTF8.toList

private def onlyA : ViewSpec := ⟨none, [.values 0 [some "a"]], ""⟩
private def chunkA : StoreChunk := ⟨2, [[some (.text "b"), some (.text "a")]]⟩

/-- A view installed on the empty store, then a chunk, then its expansion. -/
theorem streaming_view_in_order_at :
    ∃ w, run (step plainText) start
        [.begin 1, .setView onlyA fun _ => true, .push [chunkA] false, .expand 0 fun _ => true] = some w ∧
      w.currentView.map View.rows = some [1] ∧ InOrder plainText w := by
  refine ⟨_, rfl, by decide, streaming_view_in_order plainText
    [.begin 1, .setView onlyA fun _ => true, .push [chunkA] false, .expand 0 fun _ => true] _ ?_ rfl⟩
  refine along_cons trivial rfl (along_cons trivial rfl (along_cons (fun _ => ⟨by decide, by decide⟩) rfl ?_))
  refine along_cons (fun place view task found _ _ _ => ?_) rfl along_nil
  cases task
  cases found
  rfl

/-- A view installed on a store that already has a matching row: the first
expansion scans that chunk again, and the row is shown twice. -/
theorem expansion_repeats_rows :
    ∃ w, run (step plainText) start
        [.begin 1, .push [chunkA] false, .setView onlyA fun _ => true, .expand 0 fun _ => true] = some w ∧
      w.currentView.map View.rows = some [1, 1] ∧ ¬InOrder plainText w := by
  refine ⟨_, rfl, by decide, fun inOrder => ?_⟩
  have shown := (inOrder _ [1, 1] rfl ⟨rfl, by decide⟩ rfl).2
  exact absurd shown (by decide)

end QueryHive.Store.Views
