import QueryHive.Core.Batch
import QueryHive.Store.Budget
import QueryHive.Store.Logical

/-! A push of rows into a result. `push` stages the batch, seals it at the limits of a chunk, and
publishes the chunks one after another; each is charged to the budget before anything of it is
published. A charge may evict, and what was evicted stays evicted when the charge fails. -/
namespace QueryHive.Store.Push
open QueryHive.Columnar QueryHive.Store.Logical Budget

def chunkMaxRows : Nat := 65536
def chunkTargetBytes : Nat := 2 * 1024 * 1024

/-- `cell_width`: the bytes a cell is estimated to add to a chunk. -/
def cellWidth : Value → Nat
  | .text text | .json text => text.utf8ByteSize + 9
  | .bytes bytes => bytes.length + 9
  | .unknown _ text raw => (text.elim 0 String.utf8ByteSize) + (raw.elim 0 List.length) + 21
  | .array items | .row items => 9 + items.length * 16
  | _ => 16

/-- `ChunkBuilder`: the rows staged for one chunk, column by column. -/
structure ChunkBuilder where
  columns : List (List Value)
  estimatedBytes : Nat

def ChunkBuilder.new (width : Nat) : ChunkBuilder := ⟨List.replicate width [], 0⟩

def ChunkBuilder.rows (builder : ChunkBuilder) : Nat := (builder.columns.head?.map List.length).getD 0

def ChunkBuilder.isFull (builder : ChunkBuilder) : Bool :=
  chunkMaxRows ≤ builder.rows || chunkTargetBytes ≤ builder.estimatedBytes

def ChunkBuilder.pushValue (builder : ChunkBuilder) (column : Nat) (value : Value) : ChunkBuilder :=
  { columns := builder.columns.modify column (· ++ [value])
    estimatedBytes := builder.estimatedBytes + cellWidth value }

def ChunkBuilder.seal (builder : ChunkBuilder) : Except ColumnarError SealedChunk := sealColumns builder.columns

/-- The loop body of `push`: a full builder is sealed before the row is staged. -/
def stageRow (batch : Core.ColumnBatch Value) (width : Nat) (state : ChunkBuilder × List SealedChunk) (row : Nat) :
    Except ColumnarError (ChunkBuilder × List SealedChunk) := do
  let (builder, sealed) ← (if state.1.isFull then do
      let full ← state.1.seal
      .ok (ChunkBuilder.new width, state.2 ++ [full])
    else .ok state)
  let builder := (List.range width).foldl
    (fun builder column => builder.pushValue column (((batch.columns[column]?).bind (·[row]?)).getD .null)) builder
  .ok (builder, sealed)

/-- Every row of the batch staged, and the chunks that were sealed, the trailing part last. -/
def stage (batch : Core.ColumnBatch Value) (width : Nat) : Except ColumnarError (List SealedChunk) := do
  let (builder, sealed) ← (List.range batch.rows).foldlM (stageRow batch width) (ChunkBuilder.new width, [])
  if builder.rows = 0 then .ok sealed
  else do
    let staged ← builder.seal
    .ok (sealed ++ [staged])

/-- `ChunkRef`: where a chunk's rows begin, and how many it has. -/
structure ChunkRef where
  firstRow : Nat
  rows : Nat
  deriving DecidableEq, Repr

/-- A registry, and one of its stores with its index, its rows and its statistics. -/
structure World where
  registry : StoreRegistry
  chunks : List ChunkRef
  rows : Nat
  stats : List ColumnStats

inductive PushError where
  | released
  | invalidArgument (message : String)
  | columnCount (expected found : Nat)
  | sealing (detail : ColumnarError)
  | unreadable (detail : StoreError)
  /-- The budget could not take a chunk. -/
  | charge

/-- `as u32`, and the sum of two `u32` in a release build. -/
def asU32 (n : Nat) : Nat := n % 2 ^ 32

section
variable (cfg : Config) (bytesOf : SealedChunk → Nat) (id : Nat)

/-- `publish`: the statistics, the charge, and then the index, the totals and the rows. -/
def publish (medium : Medium) (w : World) (sealed : SealedChunk) : World × Option PushError :=
  match sealStoreChunk sealed with
  | .error detail => (w, some (.unreadable detail))
  | .ok deltas =>
    match charge cfg medium w.registry (bytesOf sealed) .writer with
    | (registry, false) => ({ w with registry }, some .charge)
    | (registry, true) =>
      let rows := asU32 (numRows sealed)
      ({ registry :=
          { registry.tick with
            stores := registry.stores.modify id fun store =>
              { store with chunks := store.chunks ++ [⟨bytesOf sealed, .resident, registry.clock⟩] } }
         chunks := w.chunks ++ [⟨w.rows, rows⟩]
         rows := asU32 (w.rows + rows)
         stats := mergeStats w.stats deltas }, none)

/-- The chunks are published one by one; the first that fails ends the push. What the disk and
the readers do may be different for each. -/
def publishEach (media : Nat → Medium) : Nat → World → List SealedChunk → World × Option PushError
  | _, w, [] => (w, none)
  | k, w, sealed :: rest =>
    match publish cfg bytesOf id (media k) w sealed with
    | (w, some error) => (w, some error)
    | (w, none) => publishEach media (k + 1) w rest

/-- `set_phase(Streaming)` of a store that takes writes. -/
def World.streaming (w : World) (store : StoreShared) : World :=
  { w with registry := { w.registry with stores := w.registry.stores.set id { store with phase := .streaming } } }

/-- `StoreShared::push`. -/
def push (media : Nat → Medium) (w : World) (batch : Core.ColumnBatch Value) : World × Option PushError :=
  match w.registry.stores[id]? with
  | none => (w, some .released)
  | some store =>
    if store.phase = .released then (w, some .released)
    else if store.phase ≠ .empty ∧ store.phase ≠ .streaming then
      (w, some (.invalidArgument "the result is already finished"))
    else if store.columnCount = 0 then (w, some (.invalidArgument "begin was not called before push"))
    else if batch.width ≠ store.columnCount then (w, some (.columnCount store.columnCount batch.width))
    else
      match stage batch store.columnCount with
      | .error detail => (w.streaming id store, some (.sealing detail))
      | .ok sealed => publishEach cfg bytesOf id media 0 (w.streaming id store) sealed

end

def layout (r : StoreRegistry) : List (List Nat) := r.stores.map fun store => store.chunks.map ChunkCell.bytes

theorem map_set_same {f : α → β} {items : List α} {i : Nat} {old new : α} (found : items[i]? = some old)
    (same : f new = f old) : (items.set i new).map f = items.map f := by
  obtain ⟨below, rfl⟩ := List.getElem?_eq_some_iff.mp found
  have bound : i < (items.map f).length := by simpa using below
  have kept : (items.map f).set i (items.map f)[i] = items.map f := List.set_getElem_self bound
  rw [List.getElem_map] at kept
  rw [List.map_set, same, kept]

theorem spillOne_layout (cfg : Config) (medium : Medium) (r : StoreRegistry) (id index : Nat) :
    layout (spillOne cfg medium r id index).1 = layout r := by
  unfold spillOne
  split
  · rfl
  rename_i store found
  split
  · rfl
  rename_i cell here
  split
  · rfl
  split
  · rfl
  split
  · rfl
  · rfl
  · exact map_set_same found (map_set_same here rfl)

theorem evictEach_layout (cfg : Config) (medium : Medium) (target : Nat) (found : List (Nat × Nat × Nat)) (clean : Bool)
    (r : StoreRegistry) : layout (evictEach cfg medium target found clean r).1 = layout r :=
  @evict_each_keeps (fun r after => layout after = layout r) (fun _ => rfl)
    (fun first next => next.trans first) cfg medium (spillOne_layout cfg medium) target found clean r

theorem evictUntil_layout (cfg : Config) (medium : Medium) (r : StoreRegistry) (target : Nat) :
    layout (evictUntil cfg medium r target).1 = layout r :=
  (evictEach_layout _ _ _ _ _ _).trans (congrArg (List.map _) (drop_oldest_stores _ _ _))

/-- What the eviction for a charge takes off the total, the charge itself being counted. -/
def freed (cfg : Config) (medium : Medium) (r : StoreRegistry) (bytes : Nat) : Nat :=
  r.resident + bytes - (evictUntil cfg medium { r with resident := r.resident + bytes } cfg.lowWaterBytes).1.resident

/-- A charge that fails is taken back; only what was evicted for it stays off the total. -/
theorem charge_refused (medium : Medium) (exact_ : Exact cfg r) (size : bytes < 2 ^ 64)
    (refused : charge cfg medium r bytes .writer = (next, false)) :
    next.resident + freed cfg medium r bytes = r.resident ∧ layout next = layout r := by
  have sum : asUsize (r.resident + bytes) = r.resident + bytes := by
    -- A sum that wrapped would be below the budget, and the charge taken.
    by_contra wraps
    have large : 2 ^ 64 ≤ r.resident + bytes := Nat.le_of_not_lt fun fits => wraps (Nat.mod_eq_of_lt fits)
    have wrapped : asUsize (r.resident + bytes) ≤ cfg.budgetBytes := by
      have within := exact_.within
      have fits := cfg.fits
      unfold asUsize
      omega
    simp [charge, wrapped] at refused
  have owed : Owes { r with resident := r.resident + bytes } bytes :=
    ⟨congrArg (· + bytes) exact_.resident, exact_.honest⟩
  have sheds := evict_until_sheds cfg medium { r with resident := r.resident + bytes } cfg.lowWaterBytes
  have layouts := evictUntil_layout cfg medium { r with resident := r.resident + bytes } cfg.lowWaterBytes
  have settled (evicted : StoreRegistry) (clean : Bool)
      (ran : evictUntil cfg medium { r with resident := r.resident + bytes } cfg.lowWaterBytes = (evicted, clean)) :
      (evicted.uncharge bytes).resident + freed cfg medium r bytes = r.resident ∧ layout (evicted.uncharge bytes) =
      layout r := by
    rw [ran] at sheds layouts
    have total : evicted.resident = holdings evicted + bytes := (sheds.owes _ owed).exact
    have less : evicted.resident ≤ r.resident + bytes := sheds.less
    refine ⟨?_, layouts⟩
    rw [freed, ran]
    change evicted.resident - bytes + (r.resident + bytes - evicted.resident) = r.resident
    omega
  simp only [charge, sum] at refused
  split at refused
  · cases refused
  unfold evictOrRefund at refused
  split at refused
  · rename_i evicted ran
    cases refused
    exact settled evicted false ran
  · rename_i evicted ran
    split at refused
    · cases refused
      exact settled evicted true ran
    · cases refused

/-- The rows, the chunks and the statistics are as they were. -/
structure SameResult (w next : World) : Prop where
  chunks : next.chunks = w.chunks
  rows : next.rows = w.rows
  stats : next.stats = w.stats

theorem publish_refused {id : Nat} {bytesOf : SealedChunk → Nat}
    (failed : publish cfg bytesOf id medium w sealed = (next, some .charge)) :
    SameResult w next ∧ charge cfg medium w.registry (bytesOf sealed) .writer = (next.registry, false) := by
  unfold publish at failed
  split at failed
  · cases failed
  split at failed
  · rename_i registry charged
    cases failed
    exact ⟨⟨rfl, rfl, rfl⟩, charged⟩
  · cases failed

/-- The accounting is exact, and the store takes writes. -/
structure Writing (cfg : Config) (id : Nat) (w : World) : Prop where
  exact_ : Exact cfg w.registry
  open_ : (phases w.registry)[id]? = some .streaming

theorem publish_writing {id : Nat} {bytesOf : SealedChunk → Nat} (fits : cfg.budgetBytes + bytesOf sealed < 2 ^ 64)
    (writing : Writing cfg id w) (ran : publish cfg bytesOf id medium w sealed = (next, none)) :
    Writing cfg id next := by
  have within := writing.exact_.within
  have settles : Settles cfg (phases w.registry) (bytesOf sealed)
    (charge cfg medium w.registry (bytesOf sealed) .writer) :=
    charge_settles medium .writer writing.exact_ (by omega)
  unfold publish at ran
  split at ran
  · cases ran
  split at ran
  · cases ran
  rename_i registry charged
  cases ran
  rw [charged] at settles
  obtain ⟨owed, within⟩ : Owes registry (bytesOf sealed) ∧ registry.resident ≤ cfg.budgetBytes := settles.taken rfl
  have same : phases registry = phases w.registry := settles.same
  have here := writing.open_
  rw [← same, phases, List.getElem?_map, Option.map_eq_some_iff] at here
  obtain ⟨store, found, phase⟩ := here
  set grown : StoreShared := { store with chunks := store.chunks ++ [⟨bytesOf sealed, .resident, registry.clock⟩] }
  have held : grown.held = store.held + bytesOf sealed := by
    simp [grown, StoreShared.held, phase, ChunkCell.held]
  have placed : (registry.stores.modify id fun store =>
      { store with chunks := store.chunks ++ [⟨bytesOf sealed, .resident, registry.clock⟩] }) =
        registry.stores.set id grown := by
    rw [List.modify_eq_set_getElem?, found]
    rfl
  have traded := set_store_holdings found grown
  have total := owed.exact
  rw [placed]
  refine ⟨⟨?_, owed.honest, within⟩, ?_⟩
  · change registry.resident = holdings { registry with stores := registry.stores.set id grown }
    omega
  · change ((registry.stores.set id grown).map StoreShared.phase)[id]? = some .streaming
    rw [List.getElem?_map, List.getElem?_set_self (List.getElem?_eq_some_iff.mp found).1]
    exact congrArg some phase

theorem publishEach_writing {id k : Nat} {bytesOf : SealedChunk → Nat} {chunks : List SealedChunk}
    (fits : ∀ sealed ∈ chunks, cfg.budgetBytes + bytesOf sealed < 2 ^ 64) (writing : Writing cfg id w)
    (ran : publishEach cfg bytesOf id media k w chunks = (next, none)) : Writing cfg id next := by
  induction chunks generalizing k w with
  | nil =>
    cases ran
    exact writing
  | cons sealed rest ih =>
    unfold publishEach at ran
    split at ran
    · cases ran
    · rename_i published first
      exact ih (fun chunk listed => fits chunk (List.mem_cons_of_mem _ listed))
        (publish_writing (fits sealed List.mem_cons_self) writing first) ran

theorem publishEach_refused {id k : Nat} {bytesOf : SealedChunk → Nat} {chunks : List SealedChunk}
    (failed : publishEach cfg bytesOf id media k w chunks = (next, some .charge)) :
    ∃ before sealed after middle, chunks = before ++ sealed :: after ∧
      publishEach cfg bytesOf id media k w before = (middle, none) ∧
        publish cfg bytesOf id (media (k + before.length)) middle sealed = (next, some .charge) := by
  induction chunks generalizing k w with
  | nil => cases failed
  | cons sealed rest ih =>
    unfold publishEach at failed
    split at failed
    · rename_i stopped error ran
      cases failed
      exact ⟨[], sealed, rest, w, rfl, rfl, ran⟩
    · rename_i published ran
      obtain ⟨before, chunk, after, middle, rfl, earlier, last⟩ := ih failed
      refine ⟨sealed :: before, chunk, after, middle, rfl, ?_, ?_⟩
      · rw [publishEach, ran]
        exact earlier
      · rw [List.length_cons, Nat.add_comm before.length, ← Nat.add_assoc]
        exact last

/-- A push whose charge is refused leaves nothing of that chunk: the rows, the chunks and the
statistics are those when it was tried, every store has the chunks it had, and the total is what
it was less what was evicted for the charge. When it is the first chunk, what they were when it
was tried is what they were before the push. -/
theorem failed_push_keeps {id : Nat} {bytesOf : SealedChunk → Nat} (exact_ : Exact cfg w.registry)
    (sizes : ∀ sealed, bytesOf sealed < 2 ^ 64) (media : Nat → Medium) (batch : Core.ColumnBatch Value)
    (failed : push cfg bytesOf id media w batch = (next, some .charge)) :
    ∃ store before sealed after middle, w.registry.stores[id]? = some store ∧
      stage batch store.columnCount = .ok (before ++ sealed :: after) ∧
      publishEach cfg bytesOf id media 0 (w.streaming id store) before = (middle, none) ∧
      SameResult middle next ∧
      ((∀ sealed ∈ before, cfg.budgetBytes + bytesOf sealed < 2 ^ 64) →
        layout next.registry = layout middle.registry ∧
        next.registry.resident + freed cfg (media before.length) middle.registry (bytesOf sealed) =
          middle.registry.resident) ∧
      (before = [] → SameResult w middle ∧ layout middle.registry = layout w.registry ∧
        middle.registry.resident = w.registry.resident) := by
  unfold push at failed
  split at failed
  · cases failed
  rename_i store found
  split at failed
  · cases failed
  rename_i live
  split at failed
  · cases failed
  split at failed
  · cases failed
  split at failed
  · cases failed
  split at failed
  · cases failed
  rename_i chunks staged
  obtain ⟨before, sealed, after, middle, rfl, earlier, last⟩ := publishEach_refused failed
  obtain ⟨same, refused⟩ := publish_refused last
  refine ⟨store, before, sealed, after, middle, found, staged, earlier, same, ?_, ?_⟩
  · intro fits
    have begun : Writing cfg id (w.streaming id store) := by
      refine ⟨set_store_exact exact_ found (by simp [StoreShared.held, live]), ?_⟩
      change ((w.registry.stores.set id _).map StoreShared.phase)[id]? = _
      rw [List.getElem?_map, List.getElem?_set_self (List.getElem?_eq_some_iff.mp found).1]
      rfl
    have tried := publishEach_writing fits begun earlier
    rw [Nat.zero_add] at refused
    obtain ⟨total, kept⟩ := charge_refused _ tried.exact_ (sizes sealed) refused
    exact ⟨kept, total⟩
  · rintro rfl
    cases earlier
    exact ⟨⟨rfl, rfl, rfl⟩, map_set_same found rfl, rfl⟩

private def oneStore (chunks : List ChunkCell) (resident : Nat) : StoreRegistry :=
  { start with resident := resident, stores := [⟨.streaming, 1, chunks⟩] }

private def spilling : Config := { smallBudget with spill := true }

private theorem trim_none (resident keep : Nat) (chunks : List ChunkCell) :
    trimDecodedCache (oneStore chunks resident) keep = oneStore chunks resident := by
  simp [trimDecodedCache, oldestFirst, oneStore, start, dropOldest]

private theorem candidates_one (resident : Nat) (cell : ChunkCell) (held : cell.residency = .resident) :
    candidates (oneStore [cell] resident) = [(0, 0, cell.lastAccess)] := by
  simp [candidates, oneStore, evictableChunks, held]

/-- The chunk in memory is written out, and two thousand bytes still do not fit. -/
private theorem evicted_refused : charge spilling (fun _ _ => .written)
    (oneStore [⟨600, .resident, 1⟩] 600) 2000 .writer =
    (oneStore [⟨600, .spilled, 1⟩] 0, false) := by
  have counted : evictUntil spilling (fun _ _ => .written) (oneStore [⟨600, .resident, 1⟩] 2600) 900 =
      (oneStore [⟨600, .spilled, 1⟩] 2000, true) := by
    rw [evictUntil, trim_none, candidates_one _ _ rfl]
    rfl
  have large : ¬asUsize ((oneStore [⟨600, .resident, 1⟩] 600).resident + 2000) ≤ spilling.budgetBytes := by decide
  rw [charge]
  simp only [large, if_false]
  change evictOrRefund spilling _ (oneStore [⟨600, .resident, 1⟩] 2600) 2000 = _
  unfold evictOrRefund
  change (match evictUntil spilling (fun _ _ => .written) (oneStore [⟨600, .resident, 1⟩] 2600) 900 with
    | (r, false) => (r.uncharge 2000, false)
    | (r, true) => if spilling.budgetBytes < r.resident then (r.uncharge 2000, false) else (r, true)) = _
  rw [counted]
  rfl

private def oneRow : Core.ColumnBatch Value := ⟨[[.null]], by simp, by simp⟩

private def heldWorld : World := ⟨oneStore [⟨600, .resident, 1⟩] 600, [⟨0, 1⟩], 1, [{ rows := 1 }]⟩

private def shedWorld : World := { heldWorld with registry := oneStore [⟨600, .spilled, 1⟩] 0 }

private theorem held_exact : Exact spilling heldWorld.registry := ⟨rfl, rfl, by decide⟩

private theorem publish_too_big (stored : sealStoreChunk sealed = .ok deltas) :
    publish spilling (fun _ => 2000) 0 (fun _ _ => .written) heldWorld sealed = (shedWorld, some .charge) := by
  have charged : charge spilling (fun _ _ => .written) heldWorld.registry 2000 .writer =
      (oneStore [⟨600, .spilled, 1⟩] 0, false) := evicted_refused
  simp only [publish, stored, charged]
  rfl

private theorem push_too_big : push spilling (fun _ => 2000) 0 (fun _ _ _ => .written) heldWorld oneRow =
    (shedWorld, some .charge) := by
  obtain ⟨sealed, staged, deltas, stored⟩ : ∃ sealed, stage oneRow 1 = .ok [sealed] ∧
      ∃ deltas, sealStoreChunk sealed = .ok deltas := ⟨_, rfl, _, rfl⟩
  have found : heldWorld.registry.stores[0]? = some ⟨.streaming, 1, [⟨600, .resident, 1⟩]⟩ := rfl
  have same : heldWorld.streaming 0 ⟨.streaming, 1, [⟨600, .resident, 1⟩]⟩ = heldWorld := rfl
  have width : oneRow.width = 1 := rfl
  simp only [push, found, width, staged, same, publishEach, publish_too_big stored]
  rfl

/-- The row is refused, and the total is six hundred bytes less. -/
theorem failed_push_keeps_spilling :
    push spilling (fun _ => 2000) 0 (fun _ _ _ => .written) heldWorld oneRow = (shedWorld, some .charge) ∧
      ∃ store before sealed after middle, heldWorld.registry.stores[0]? = some store ∧
        stage oneRow store.columnCount = .ok (before ++ sealed :: after) ∧ SameResult middle shedWorld := by
  obtain ⟨store, before, sealed, after, middle, found, staged, _, same, _⟩ :=
    failed_push_keeps held_exact (fun _ => by decide) (fun _ _ _ => .written) oneRow push_too_big
  exact ⟨push_too_big, store, before, sealed, after, middle, found, staged, same⟩

/-- A push that is refused does not leave the total as it was: what was evicted for it stays evicted. -/
theorem refused_push_lowers_the_total :
    ¬∀ (cfg : Config) (bytesOf : SealedChunk → Nat) (id : Nat) (media : Nat → Medium) (w next : World)
      (batch : Core.ColumnBatch Value), Exact cfg w.registry → (∀ sealed, bytesOf sealed < 2 ^ 64) →
      push cfg bytesOf id media w batch = (next, some .charge) →
      SameResult w next ∧ next.registry.resident = w.registry.resident := by
  intro unchanged
  obtain ⟨_, total⟩ := unchanged spilling _ 0 _ _ _ oneRow held_exact (fun _ => by decide) push_too_big
  exact absurd total (by decide)

end QueryHive.Store.Push
