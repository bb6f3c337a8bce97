import QueryHive.Library.Runs
import QueryHive.Library.Tally
import QueryHive.Store.Value

/-! The global byte budget. The registry keeps one accounted total over every live
store, the cache of decrypted chunks, reservations and query leases; charging may
evict, and every path that lets bytes go gives them back. Operations run one after
another. The total is a `usize`: adding wraps and giving back saturates, as in a
release build. -/
namespace QueryHive.Store.Budget
open QueryHive.Library.Runs QueryHive.Library.Tally

/-- `StoreConfig`, as far as the accounting reads it. -/
structure Config where
  budgetBytes : Nat
  lowWaterBytes : Nat
  decodedCacheChunks : Nat
  queryShareBytes : Nat
  /-- There is a cipher and a spill directory. -/
  spill : Bool
  fits : budgetBytes < 2 ^ 64

/-- A chunk's bytes, where they are, and its stamp on the logical clock. -/
structure ChunkCell where
  bytes : Nat
  residency : Residency
  lastAccess : Nat
  deriving DecidableEq, Repr

structure StoreShared where
  phase : Phase
  columnCount : Nat
  chunks : List ChunkCell
  deriving DecidableEq, Repr

/-- A decrypted chunk kept after a spill read. -/
structure DecodedEntry where
  id : Nat
  index : Nat
  bytes : Nat
  lastAccess : Nat
  deriving DecidableEq, Repr

structure StoreRegistry where
  resident : Nat
  queryReserved : Nat
  clock : Nat
  /-- Every store created, by its id; the live ones are not released. -/
  stores : List StoreShared
  decoded : List DecodedEntry
  /-- The bytes of each live reservation and of each live lease. -/
  reservations : List Nat
  leases : List Nat
  /-- Some `uncharge` asked for more than was accounted. -/
  saturated : Bool
  deriving DecidableEq, Repr

def start : StoreRegistry := ⟨0, 0, 1, [], [], [], [], false⟩

/-- Addition of two `usize`. -/
def asUsize (n : Nat) : Nat := n % 2 ^ 64

def StoreRegistry.uncharge (r : StoreRegistry) (bytes : Nat) : StoreRegistry :=
  { r with resident := r.resident - bytes, saturated := r.saturated || decide (r.resident < bytes) }

def StoreRegistry.tick (r : StoreRegistry) : StoreRegistry := { r with clock := r.clock + 1 }

def StoreRegistry.putCell (r : StoreRegistry) (id index : Nat) (store : StoreShared) (cell : ChunkCell) :
    StoreRegistry :=
  { r with stores := r.stores.set id { store with chunks := store.chunks.set index cell } }

/-- What becomes of one attempt to spill a chunk that is in memory: it is left
alone (a reader holds it, or it cannot be sealed), the write fails, or it moves. -/
inductive SpillAttempt where
  | left
  | failed
  | written
  deriving DecidableEq, Repr

/-- What the disk and the readers do to each attempt, by store and chunk. -/
abbrev Medium := Nat → Nat → SpillAttempt

def spillOne (cfg : Config) (medium : Medium) (r : StoreRegistry) (id index : Nat) :
    StoreRegistry × SpillAttempt :=
  match r.stores[id]? with
  | none => (r, .left)
  | some store =>
    match store.chunks[index]? with
    | none => (r, .left)
    | some cell =>
      match cell.residency with
      | .spilled => (r, .left)
      | .resident =>
        if !cfg.spill || store.phase = .released then (r, .left)
        else
          match medium id index with
          | .left => (r, .left)
          | .failed => (r, .failed)
          | .written =>
            ((r.putCell id index store { cell with residency := .spilled }).uncharge cell.bytes, .written)

/-- Entries go from the front, and their bytes are given back, while `again` says so. -/
def dropOldest (again : StoreRegistry → Nat → Bool) (r : StoreRegistry) : List DecodedEntry → StoreRegistry
  | [] => { r with decoded := [] }
  | entry :: rest =>
    if again r (rest.length + 1) then dropOldest again (r.uncharge entry.bytes) rest
    else { r with decoded := entry :: rest }

def oldestFirst (decoded : List DecodedEntry) : List DecodedEntry :=
  decoded.mergeSort fun a b => decide (a.lastAccess ≤ b.lastAccess)

/-- Drop decoded-cache entries, oldest first, keeping `keep` of them. -/
def trimDecodedCache (r : StoreRegistry) (keep : Nat) : StoreRegistry :=
  dropOldest (fun _ len => decide (keep < len)) r (oldestFirst r.decoded)

def evictableChunks (store : StoreShared) : List (Nat × Nat) :=
  store.chunks.zipIdx.filterMap fun entry =>
    if entry.1.residency = .resident then some (entry.2, entry.1.lastAccess) else none

/-- Store, chunk and stamp of every evictable chunk, oldest first. -/
def candidates (r : StoreRegistry) : List (Nat × Nat × Nat) :=
  (r.stores.zipIdx.flatMap fun entry =>
    if entry.1.phase = .released then []
    else (evictableChunks entry.1).map fun found => (entry.2, found)).mergeSort
      fun a b => decide (a.2.2 ≤ b.2.2)

/-- A failed write does not stop eviction; the first error is held to the end. -/
def evictEach (cfg : Config) (medium : Medium) (target : Nat) :
    List (Nat × Nat × Nat) → Bool → StoreRegistry → StoreRegistry × Bool
  | [], clean, r => (r, clean)
  | (id, index, _) :: rest, clean, r =>
    if r.resident ≤ target then (r, true)
    else
      match spillOne cfg medium r id index with
      | (r, .failed) => evictEach cfg medium target rest false r
      | (r, _) => evictEach cfg medium target rest clean r

/-- Evict until the total is at or below `target`; whether no error was held. -/
def evictUntil (cfg : Config) (medium : Medium) (r : StoreRegistry) (target : Nat) : StoreRegistry × Bool :=
  let trimmed := trimDecodedCache r (min cfg.decodedCacheChunks 4)
  evictEach cfg medium target (candidates trimmed) true trimmed

inductive Origin where
  | writer
  | view
  | decodedCache
  deriving DecidableEq, Repr

/-- Evict for a charge that is already counted, or take the charge back. -/
def evictOrRefund (cfg : Config) (medium : Medium) (r : StoreRegistry) (bytes : Nat) : StoreRegistry × Bool :=
  match evictUntil cfg medium r cfg.lowWaterBytes with
  | (r, false) => (r.uncharge bytes, false)
  | (r, true) => if cfg.budgetBytes < r.resident then (r.uncharge bytes, false) else (r, true)

def charge (cfg : Config) (medium : Medium) (r : StoreRegistry) (bytes : Nat) (origin : Origin) :
    StoreRegistry × Bool :=
  let before := asUsize (r.resident + bytes)
  let r := { r with resident := before }
  if before ≤ cfg.budgetBytes then (r, true)
  else
    match origin with
    | .writer | .view => evictOrRefund cfg medium r bytes
    | .decodedCache =>
      let r := trimDecodedCache r 0
      if r.resident ≤ cfg.budgetBytes then (r, true) else evictOrRefund cfg medium r bytes

/-- Remember a decrypted chunk, evicting the oldest entries past the cap. -/
def cacheDecoded (cfg : Config) (medium : Medium) (r : StoreRegistry) (id index bytes : Nat) : StoreRegistry :=
  let now := r.clock
  match charge cfg medium r.tick bytes .decodedCache with
  | (r, false) => r
  | (r, true) =>
    let (r, room) :=
      if cfg.budgetBytes < r.resident then evictUntil cfg medium r cfg.lowWaterBytes else (r, true)
    if !room then r.uncharge bytes
    else
      let position := r.decoded.findIdx fun entry => entry.id == id && entry.index == index
      let r :=
        match r.decoded[position]? with
        | none => r
        | some old => { r with decoded := r.decoded.eraseIdx position }.uncharge old.bytes
      dropOldest
        (fun r len => decide (cfg.decodedCacheChunks < len) || (decide (cfg.budgetBytes < r.resident) && len ≠ 0))
        r (oldestFirst (r.decoded ++ [⟨id, index, bytes, now⟩]))

inductive Action where
  | create
  | begin (id columns : Nat)
  /-- One sealed chunk of `push`, `push_chunk` or `finish`; a push of several
  publishes them one after another. -/
  | publish (id bytes : Nat) (medium : Medium)
  | finish (id : Nat) (phase : Phase)
  /-- `load_chunk`: when the record is read and opened, its chunk has `bytes`. -/
  | loadChunk (id index : Nat) (opened : Option Nat) (medium : Medium)
  | reserve (bytes : Nat) (medium : Medium)
  | reserveQuery (max : Nat) (medium : Medium)
  | dropReservation (k : Nat)
  | dropLease (k : Nat)
  | release (id : Nat)

/-- `check_writable`, and `begin` was called. -/
def StoreShared.writable (store : StoreShared) : Bool :=
  (store.phase = .empty || store.phase = .streaming) && store.columnCount ≠ 0

/-- Charge first: a budget that cannot take the chunk fails the push. -/
def publish (cfg : Config) (medium : Medium) (r : StoreRegistry) (id bytes : Nat) : StoreRegistry :=
  match r.stores[id]? with
  | none => r
  | some store =>
    if !store.writable then r
    else
      let r := { r with stores := r.stores.set id { store with phase := .streaming } }
      match charge cfg medium r bytes .writer with
      | (r, false) => r
      | (r, true) =>
        match r.stores[id]? with
        | none => r
        | some store =>
          { r.tick with
            stores := r.stores.set id { store with chunks := store.chunks ++ [⟨bytes, .resident, r.clock⟩] } }

/-- Whether a load has to read the spill file: the chunk is there, spilled, and
not in the decoded cache. -/
def readsSpill (r : StoreRegistry) (id index : Nat) : Bool :=
  match (r.stores[id]?).bind (·.chunks[index]?) with
  | none => false
  | some cell => cell.residency = .spilled && !r.decoded.any fun entry => entry.id == id && entry.index == index

def touchDecoded (r : StoreRegistry) (id index : Nat) : StoreRegistry :=
  let position := r.decoded.findIdx fun entry => entry.id == id && entry.index == index
  { r.tick with decoded := r.decoded.modify position fun entry => { entry with lastAccess := r.clock } }

def loadChunk (cfg : Config) (medium : Medium) (r : StoreRegistry) (id index : Nat) (opened : Option Nat) :
    StoreRegistry :=
  match r.stores[id]? with
  | none => r
  | some store =>
    match store.chunks[index]? with
    | none => r
    | some cell =>
      let stamped := r.tick.putCell id index store { cell with lastAccess := r.clock }
      match cell.residency with
      | .resident => stamped
      | .spilled =>
        if !readsSpill r id index then touchDecoded stamped id index
        else if !cfg.spill then stamped
        else
          match opened with
          | none => stamped
          | some bytes => cacheDecoded cfg medium stamped id index bytes

/-- Evict when the total would pass the budget; whether no error was held. -/
def makeRoom (cfg : Config) (medium : Medium) (r : StoreRegistry) (bytes : Nat) : StoreRegistry × Bool :=
  if cfg.budgetBytes < asUsize (r.resident + bytes) then evictUntil cfg medium r cfg.lowWaterBytes else (r, true)

def reserve (cfg : Config) (medium : Medium) (r : StoreRegistry) (bytes : Nat) : StoreRegistry :=
  let (r, room) := makeRoom cfg medium r bytes
  if !room then r
  else if cfg.budgetBytes < asUsize (r.resident + bytes) then r
  else { r with resident := asUsize (r.resident + bytes), reservations := r.reservations ++ [bytes] }

def minQueryBytes : Nat := 32 * 1024 * 1024

def reserveQuery (cfg : Config) (medium : Medium) (r : StoreRegistry) (max : Nat) : StoreRegistry :=
  let want := min max cfg.queryShareBytes
  let (r, room) := makeRoom cfg medium r want
  if !room then r
  else
    let available := cfg.budgetBytes - r.resident
    if available < minQueryBytes then r
    else
      let grant := min want available
      { r with
        resident := asUsize (r.resident + grant)
        queryReserved := asUsize (r.queryReserved + grant)
        leases := r.leases ++ [grant] }

def unchargeResident (r : StoreRegistry) (chunks : List ChunkCell) : StoreRegistry :=
  chunks.foldl (fun r cell => if cell.residency = .resident then r.uncharge cell.bytes else r) r

def purgeEach (id : Nat) : List DecodedEntry → StoreRegistry → StoreRegistry × List DecodedEntry
  | [], r => (r, [])
  | entry :: rest, r =>
    if entry.id = id then purgeEach id rest (r.uncharge entry.bytes)
    else
      let (r, kept) := purgeEach id rest r
      (r, entry :: kept)

def purgeDecoded (r : StoreRegistry) (id : Nat) : StoreRegistry :=
  let (purged, kept) := purgeEach id r.decoded r
  { purged with decoded := kept }

/-- Mark the store released, free its budget and purge its decoded chunks. -/
def release (r : StoreRegistry) (id : Nat) : StoreRegistry :=
  let freed :=
    match r.stores[id]? with
    | none => r
    | some store =>
      if store.phase = .released then r
      else
        unchargeResident { r with stores := r.stores.set id { store with phase := .released, chunks := [] } }
          store.chunks
  purgeDecoded freed id

/-- One operation. A call that is refused outright changes nothing. -/
def step (cfg : Config) (r : StoreRegistry) : Action → Option StoreRegistry
  | .create => some { r with stores := r.stores ++ [⟨.empty, 0, []⟩] }
  | .begin id columns =>
    match r.stores[id]? with
    | none => none
    | some store =>
      if (store.phase = .empty || store.phase = .streaming) && store.columnCount = 0 && columns ≠ 0 then
        some { r with stores := r.stores.set id { store with columnCount := columns } }
      else some r
  | .publish id bytes medium => some (publish cfg medium r id bytes)
  | .finish id phase =>
    match r.stores[id]? with
    | none => none
    | some store =>
      if store.phase = .released || !phase.isFinished then some r
      else some { r with stores := r.stores.set id { store with phase } }
  | .loadChunk id index opened medium => some (loadChunk cfg medium r id index opened)
  | .reserve bytes medium => some (reserve cfg medium r bytes)
  | .reserveQuery max medium => some (reserveQuery cfg medium r max)
  | .dropReservation k =>
    match r.reservations[k]? with
    | none => none
    | some bytes => some ({ r with reservations := r.reservations.eraseIdx k }.uncharge bytes)
  | .dropLease k =>
    match r.leases[k]? with
    | none => none
    | some bytes =>
      some ({ r with
        leases := r.leases.eraseIdx k
        queryReserved := asUsize (r.queryReserved + 2 ^ 64 - bytes) }.uncharge bytes)
  | .release id => some (release r id)

def ChunkCell.held (cell : ChunkCell) : Nat :=
  match cell.residency with
  | .resident => cell.bytes
  | .spilled => 0

/-- The resident chunks of a store that is not released. -/
def StoreShared.held (store : StoreShared) : Nat :=
  if store.phase = .released then 0 else tally ChunkCell.held store.chunks

/-- Everything the total counts but the decoded cache. -/
def undecoded (r : StoreRegistry) : Nat :=
  tally StoreShared.held r.stores + r.reservations.sum + r.leases.sum

def holdings (r : StoreRegistry) : Nat := undecoded r + tally DecodedEntry.bytes r.decoded

/-- The total is what is held and `extra`, and nothing was given back twice. -/
structure Owes (r : StoreRegistry) (extra : Nat) : Prop where
  exact : r.resident = holdings r + extra
  honest : r.saturated = false

/-- The accounting is exact, and the total is within the budget. -/
structure Exact (cfg : Config) (r : StoreRegistry) : Prop where
  resident : r.resident = holdings r
  honest : r.saturated = false
  within : r.resident ≤ cfg.budgetBytes

/-- The bytes an operation would add to the total. -/
def asked (cfg : Config) (r : StoreRegistry) : Action → Nat
  | .publish id bytes _ => if (r.stores[id]?).any StoreShared.writable then bytes else 0
  | .loadChunk id index opened _ => if cfg.spill && readsSpill r id index then opened.getD 0 else 0
  | .reserve bytes _ => bytes
  | _ => 0

/-- The total and what the operation adds are a `usize`. -/
def Fits (cfg : Config) (r : StoreRegistry) (action : Action) : Prop := r.resident + asked cfg r action < 2 ^ 64

instance (cfg : Config) (r : StoreRegistry) (action : Action) : Decidable (Fits cfg r action) :=
  inferInstanceAs (Decidable (_ < _))

def phases (r : StoreRegistry) : List Phase := r.stores.map StoreShared.phase

/-- Whatever is owed stays owed, the total does not grow, and no store changes its phase. -/
structure Sheds (r next : StoreRegistry) : Prop where
  owes : ∀ extra, Owes r extra → Owes next extra
  less : next.resident ≤ r.resident
  same : phases next = phases r

theorem sheds_refl (r : StoreRegistry) : Sheds r r := ⟨fun _ owed => owed, Nat.le_refl _, rfl⟩

theorem sheds_trans (first : Sheds r middle) (second : Sheds middle next) : Sheds r next :=
  ⟨fun extra owed => second.owes extra (first.owes extra owed), Nat.le_trans second.less first.less,
    second.same.trans first.same⟩

theorem uncharge_owes (owed : Owes r (bytes + extra)) : Owes (r.uncharge bytes) extra where
  exact := by
    have total := owed.exact
    change r.resident - bytes = holdings r + extra
    omega
  honest := by
    have total := owed.exact
    simp only [StoreRegistry.uncharge, owed.honest, Bool.false_or, decide_eq_false_iff_not]
    omega

/-- Dropping entries from the front gives back exactly their bytes. -/
theorem drop_oldest_owes (total : r.resident = undecoded r + tally DecodedEntry.bytes entries + extra)
    (honest : r.saturated = false) : Owes (dropOldest again r entries) extra := by
  induction entries generalizing r with
  | nil => exact ⟨total, honest⟩
  | cons entry rest ih =>
    rw [tally_cons] at total
    unfold dropOldest
    split
    · apply ih
      · change r.resident - entry.bytes = undecoded r + tally DecodedEntry.bytes rest + extra
        omega
      · simp only [StoreRegistry.uncharge, honest, Bool.false_or, decide_eq_false_iff_not]
        omega
    · refine ⟨?_, honest⟩
      change r.resident = undecoded r + tally DecodedEntry.bytes (entry :: rest) + extra
      rw [tally_cons]
      exact total

private theorem drop_oldest_less (again : StoreRegistry → Nat → Bool) (r : StoreRegistry)
    (entries : List DecodedEntry) : (dropOldest again r entries).resident ≤ r.resident := by
  induction entries generalizing r with
  | nil => exact Nat.le_refl _
  | cons entry rest ih =>
    unfold dropOldest
    split
    · exact Nat.le_trans (ih _) (Nat.sub_le _ _)
    · exact Nat.le_refl _

theorem drop_oldest_stores (again : StoreRegistry → Nat → Bool) (r : StoreRegistry)
    (entries : List DecodedEntry) : (dropOldest again r entries).stores = r.stores := by
  induction entries generalizing r with
  | nil => rfl
  | cons entry rest ih =>
    unfold dropOldest
    split
    · exact ih _
    · rfl

@[simp] private theorem tally_oldest_first (entries : List DecodedEntry) :
    tally DecodedEntry.bytes (oldestFirst entries) = tally DecodedEntry.bytes entries :=
  tally_perm (List.mergeSort_perm entries _)

theorem trim_decoded_cache_sheds (r : StoreRegistry) (keep : Nat) : Sheds r (trimDecodedCache r keep) where
  owes extra owed := by
    refine drop_oldest_owes ?_ owed.honest
    rw [tally_oldest_first]
    exact owed.exact
  less := drop_oldest_less _ _ _
  same := congrArg (List.map _) (drop_oldest_stores _ _ _)

theorem set_store_holdings {id : Nat} {store : StoreShared} (found : r.stores[id]? = some store) (new : StoreShared) :
    holdings { r with stores := r.stores.set id new } + store.held = holdings r + new.held := by
  have traded := tally_set StoreShared.held found new
  simp only [holdings, undecoded]
  omega

private theorem set_store_phases {id : Nat} {store new : StoreShared} (found : r.stores[id]? = some store)
    (same : new.phase = store.phase) : phases { r with stores := r.stores.set id new } = phases r := by
  have there : (r.stores.map StoreShared.phase)[id]? = some new.phase := by
    rw [List.getElem?_map, found, same]
    rfl
  obtain ⟨below, here⟩ := List.getElem?_eq_some_iff.mp there
  rw [phases, List.map_set, ← here]
  exact List.set_getElem_self below

theorem spill_one_sheds (cfg : Config) (medium : Medium) (r : StoreRegistry) (id index : Nat) :
    Sheds r (spillOne cfg medium r id index).1 := by
  unfold spillOne
  split
  · exact sheds_refl r
  rename_i store found
  split
  · exact sheds_refl r
  rename_i cell at_
  split
  · exact sheds_refl r
  rename_i resident
  split
  · exact sheds_refl r
  rename_i open_
  have live : store.phase ≠ .released := fun gone => open_ (by simp [gone])
  split
  · exact sheds_refl r
  · exact sheds_refl r
  refine ⟨fun extra owed => uncharge_owes ⟨?_, owed.honest⟩, Nat.sub_le _ _, ?phases⟩
  case phases => exact set_store_phases found rfl
  have total := owed.exact
  have moved := tally_set ChunkCell.held at_ { cell with residency := .spilled }
  have traded := set_store_holdings found
    { store with chunks := store.chunks.set index { cell with residency := .spilled } }
  simp only [StoreShared.held, live, if_false] at traded
  simp only [ChunkCell.held, resident] at moved
  change r.resident = holdings { r with stores := r.stores.set id _ } + (cell.bytes + extra)
  omega

/-- What one spill does to the registry and repeats, a round of eviction does. -/
theorem evict_each_keeps {does : StoreRegistry → StoreRegistry → Prop} (refl : ∀ r, does r r)
    (trans : ∀ {a b c}, does a b → does b c → does a c) (cfg : Config) (medium : Medium)
    (spills : ∀ r id index, does r (spillOne cfg medium r id index).1) (target : Nat) (found : List (Nat × Nat × Nat))
    (clean : Bool) (r : StoreRegistry) : does r (evictEach cfg medium target found clean r).1 := by
  induction found generalizing clean r with
  | nil => exact refl r
  | cons candidate rest ih =>
    obtain ⟨id, index, _⟩ := candidate
    unfold evictEach
    split
    · exact refl r
    have first := spills r id index
    split <;>
    · rename_i same
      rw [same] at first
      exact trans first (ih _ _)

theorem evict_each_sheds (cfg : Config) (medium : Medium) (target : Nat) (found : List (Nat × Nat × Nat))
    (clean : Bool) (r : StoreRegistry) : Sheds r (evictEach cfg medium target found clean r).1 :=
  evict_each_keeps sheds_refl sheds_trans cfg medium (spill_one_sheds cfg medium) target found clean r

theorem evict_until_sheds (cfg : Config) (medium : Medium) (r : StoreRegistry) (target : Nat) :
    Sheds r (evictUntil cfg medium r target).1 :=
  sheds_trans (trim_decoded_cache_sheds _ _) (evict_each_sheds _ _ _ _ _ _)

/-- A charge that was counted ends up owed and within the budget, or taken back. -/
structure Settles (cfg : Config) (before : List Phase) (bytes : Nat) (result : StoreRegistry × Bool) : Prop where
  taken : result.2 = true → Owes result.1 bytes ∧ result.1.resident ≤ cfg.budgetBytes
  refused : result.2 = false → Exact cfg result.1
  same : phases result.1 = before

private theorem refund_exact (owed : Owes r bytes) (room : r.resident ≤ cfg.budgetBytes + bytes) :
    Exact cfg (r.uncharge bytes) := by
  have settled : Owes (r.uncharge bytes) 0 := uncharge_owes owed
  refine ⟨settled.exact, settled.honest, ?_⟩
  change r.resident - bytes ≤ cfg.budgetBytes
  omega

theorem evict_or_refund_settles (medium : Medium) (owed : Owes r bytes)
    (room : r.resident ≤ cfg.budgetBytes + bytes) :
    Settles cfg (phases r) bytes (evictOrRefund cfg medium r bytes) := by
  have sheds := evict_until_sheds cfg medium r cfg.lowWaterBytes
  have refund := fun next (sheds : Sheds r next) => refund_exact (sheds.owes _ owed) (Nat.le_trans sheds.less room)
  unfold evictOrRefund
  split <;> rename_i next evicted <;> rw [evicted] at sheds
  · exact ⟨nofun, fun _ => refund next sheds, sheds.same⟩
  · split
    · exact ⟨nofun, fun _ => refund next sheds, sheds.same⟩
    · rename_i within
      exact ⟨fun _ => ⟨sheds.owes _ owed, Nat.not_lt.mp within⟩, nofun, sheds.same⟩

/-- The spec of `charge`, for a sum that is a `usize`. -/
theorem charge_settles (medium : Medium) (origin : Origin) (exact_ : Exact cfg r)
    (fits : r.resident + bytes < 2 ^ 64) : Settles cfg (phases r) bytes (charge cfg medium r bytes origin) := by
  have sum : asUsize (r.resident + bytes) = r.resident + bytes := Nat.mod_eq_of_lt fits
  have owed : Owes { r with resident := r.resident + bytes } bytes :=
    ⟨congrArg (· + bytes) exact_.resident, exact_.honest⟩
  have room : r.resident + bytes ≤ cfg.budgetBytes + bytes := Nat.add_le_add_right exact_.within _
  simp only [charge, sum]
  split
  · rename_i within
    exact ⟨fun _ => ⟨owed, within⟩, nofun, rfl⟩
  · have trimmed := trim_decoded_cache_sheds { r with resident := r.resident + bytes } 0
    cases origin with
    | writer => exact evict_or_refund_settles medium owed room
    | view => exact evict_or_refund_settles medium owed room
    | decodedCache =>
      simp only
      split
      · rename_i within
        exact ⟨fun _ => ⟨trimmed.owes _ owed, within⟩, nofun, trimmed.same⟩
      · have settles := evict_or_refund_settles medium (trimmed.owes _ owed) (Nat.le_trans trimmed.less room)
        exact ⟨settles.taken, settles.refused, settles.same.trans trimmed.same⟩

private theorem tick_exact (exact_ : Exact cfg r) : Exact cfg r.tick :=
  ⟨exact_.resident, exact_.honest, exact_.within⟩

private theorem forget_owes (found : r.decoded[position]? = some old) (owed : Owes r extra) :
    Owes { r with decoded := r.decoded.eraseIdx position } (old.bytes + extra) where
  exact := by
    have total := owed.exact
    have erased := tally_erase DecodedEntry.bytes found
    simp only [holdings, undecoded] at total ⊢
    omega
  honest := owed.honest

/-- With its bytes owed, a new entry joins the cache and the oldest ones go. -/
private theorem remember_exact (entry : DecodedEntry) (again : StoreRegistry → Nat → Bool)
    (owed : Owes r entry.bytes) (within : r.resident ≤ cfg.budgetBytes) :
    Exact cfg (dropOldest again r (oldestFirst (r.decoded ++ [entry]))) := by
  have settled : Owes (dropOldest again r (oldestFirst (r.decoded ++ [entry]))) 0 := by
    refine drop_oldest_owes ?_ owed.honest
    have total := owed.exact
    simp only [tally_oldest_first, tally_append, tally_cons, tally_nil]
    simp only [holdings] at total
    omega
  exact ⟨settled.exact, settled.honest, Nat.le_trans (drop_oldest_less _ _ _) within⟩

theorem cache_decoded_exact {id : Nat} (medium : Medium) (exact_ : Exact cfg r) (fits : r.resident + bytes < 2 ^ 64) :
    Exact cfg (cacheDecoded cfg medium r id index bytes) := by
  have settles := charge_settles medium .decodedCache (tick_exact exact_) fits
  unfold cacheDecoded
  simp only
  split
  · rename_i charged
    rw [charged] at settles
    exact settles.refused rfl
  rename_i r charged
  rw [charged] at settles
  obtain ⟨owed, within⟩ : Owes r bytes ∧ r.resident ≤ cfg.budgetBytes := settles.taken rfl
  simp only [Nat.not_lt.mpr within, if_false, Bool.not_true, Bool.false_eq_true]
  split
  · exact remember_exact ⟨id, index, bytes, _⟩ _ owed within
  · rename_i old found
    -- A second entry for the chunk would be charged twice.
    have replaced := uncharge_owes (forget_owes found owed)
    exact remember_exact ⟨id, index, bytes, _⟩ _ replaced (Nat.le_trans (Nat.sub_le _ _) within)

theorem uncharge_resident_owes (owed : Owes r (tally ChunkCell.held chunks + extra)) :
    Owes (unchargeResident r chunks) extra := by
  induction chunks generalizing r with
  | nil =>
    rw [tally_nil, Nat.zero_add] at owed
    exact owed
  | cons cell rest ih =>
    rw [tally_cons, Nat.add_assoc] at owed
    rw [unchargeResident, List.foldl_cons]
    cases resident : cell.residency with
    | resident =>
      simp only [ChunkCell.held, resident] at owed
      exact ih (uncharge_owes owed)
    | spilled =>
      simp only [ChunkCell.held, resident, Nat.zero_add] at owed
      exact ih owed

private theorem uncharge_resident_less (r : StoreRegistry) (chunks : List ChunkCell) :
    (unchargeResident r chunks).resident ≤ r.resident := by
  induction chunks generalizing r with
  | nil => exact Nat.le_refl _
  | cons cell rest ih =>
    rw [unchargeResident, List.foldl_cons]
    refine Nat.le_trans (ih _) ?_
    split
    · exact Nat.sub_le _ _
    · exact Nat.le_refl _

private theorem purge_each_owes {id : Nat}
    (total : r.resident = undecoded r + tally DecodedEntry.bytes entries + extra) (honest : r.saturated = false) :
    (purgeEach id entries r).1.resident =
        undecoded (purgeEach id entries r).1 + tally DecodedEntry.bytes (purgeEach id entries r).2 + extra ∧
      (purgeEach id entries r).1.saturated = false ∧ (purgeEach id entries r).1.resident ≤ r.resident := by
  induction entries generalizing r extra with
  | nil => exact ⟨total, honest, Nat.le_refl _⟩
  | cons entry rest ih =>
    rw [tally_cons] at total
    unfold purgeEach
    split
    · have owed : (r.uncharge entry.bytes).resident = undecoded (r.uncharge entry.bytes) +
          tally DecodedEntry.bytes rest + extra := by
        change r.resident - entry.bytes = undecoded r + _ + _
        omega
      have trusted : (r.uncharge entry.bytes).saturated = false := by
        simp only [StoreRegistry.uncharge, honest, Bool.false_or, decide_eq_false_iff_not]
        omega
      obtain ⟨kept, clean, less⟩ := ih owed trusted
      exact ⟨kept, clean, Nat.le_trans less (Nat.sub_le _ _)⟩
    · have owed : r.resident = undecoded r + tally DecodedEntry.bytes rest + (extra + entry.bytes) := by omega
      obtain ⟨kept, clean, less⟩ := ih owed honest
      refine ⟨?_, clean, less⟩
      simp only [tally_cons]
      omega

private theorem purge_decoded_exact {id : Nat} (exact_ : Exact cfg r) : Exact cfg (purgeDecoded r id) := by
  have total : r.resident = undecoded r + tally DecodedEntry.bytes r.decoded + 0 := exact_.resident
  obtain ⟨kept, clean, less⟩ := purge_each_owes total exact_.honest
  exact ⟨kept, clean, Nat.le_trans less exact_.within⟩

theorem release_exact {id : Nat} (exact_ : Exact cfg r) : Exact cfg (release r id) := by
  unfold release
  refine purge_decoded_exact ?_
  split
  · exact exact_
  rename_i store found
  split
  · exact exact_
  rename_i live
  have traded := set_store_holdings found { store with phase := .released, chunks := [] }
  have total := exact_.resident
  simp only [StoreShared.held, live, if_true, if_false] at traded
  have owed : Owes { r with stores := r.stores.set id { store with phase := .released, chunks := [] } }
      (tally ChunkCell.held store.chunks + 0) := ⟨by simp only; omega, exact_.honest⟩
  have settled := uncharge_resident_owes owed
  exact ⟨settled.exact, settled.honest, Nat.le_trans (uncharge_resident_less _ _) exact_.within⟩

theorem set_store_exact {id : Nat} {store new : StoreShared} (exact_ : Exact cfg r)
    (found : r.stores[id]? = some store) (same : new.held = store.held) :
    Exact cfg { r with stores := r.stores.set id new } := by
  have traded := set_store_holdings found new
  have total := exact_.resident
  exact ⟨by simp only; omega, exact_.honest, exact_.within⟩

theorem publish_exact {id : Nat} (medium : Medium) (exact_ : Exact cfg r)
    (fits : Fits cfg r (.publish id bytes medium)) : Exact cfg (publish cfg medium r id bytes) := by
  unfold publish
  split
  · exact exact_
  rename_i store found
  split
  · exact exact_
  rename_i writable
  have writable : store.writable = true := by simpa using writable
  simp only [Fits, asked, found, Option.any_some, writable, if_true] at fits
  have live : store.phase ≠ .released := by
    rintro gone
    simp [StoreShared.writable, gone] at writable
  have streaming : Exact cfg { r with stores := r.stores.set id { store with phase := .streaming } } :=
    set_store_exact exact_ found (by simp [StoreShared.held, live])
  have settles := charge_settles medium .writer streaming fits
  simp only
  split
  · rename_i charged
    rw [charged] at settles
    exact settles.refused rfl
  rename_i next charged
  rw [charged] at settles
  obtain ⟨owed, within⟩ : Owes next bytes ∧ next.resident ≤ cfg.budgetBytes := settles.taken rfl
  -- The eviction may have moved chunks of this store, but its phase is still `Streaming`.
  have here : (phases next)[id]? = some .streaming := by
    rw [settles.same, phases, List.getElem?_map, List.getElem?_set_self (List.getElem?_eq_some_iff.mp found).1]
    rfl
  rw [phases, List.getElem?_map, Option.map_eq_some_iff] at here
  obtain ⟨later, found, phase⟩ := here
  rw [found]
  have held : ({ later with chunks := later.chunks ++ [⟨bytes, .resident, next.clock⟩] } : StoreShared).held =
      later.held + bytes := by
    simp [StoreShared.held, phase, ChunkCell.held]
  have traded := set_store_holdings found { later with chunks := later.chunks ++ [⟨bytes, .resident, next.clock⟩] }
  have total := owed.exact
  refine ⟨?_, owed.honest, within⟩
  change next.resident = holdings { next with stores := _ }
  omega

private theorem stamp_exact {id : Nat} {store : StoreShared} {cell : ChunkCell} (exact_ : Exact cfg r)
    (found : r.stores[id]? = some store) (here : store.chunks[index]? = some cell) (now : Nat) :
    Exact cfg (r.putCell id index store { cell with lastAccess := now }) := by
  refine set_store_exact exact_ found ?_
  have stamped := tally_set ChunkCell.held here { cell with lastAccess := now }
  have same : ({ cell with lastAccess := now } : ChunkCell).held = cell.held := rfl
  simp only [StoreShared.held]
  split
  · rfl
  · omega

private theorem touch_decoded_exact {id : Nat} (exact_ : Exact cfg r) : Exact cfg (touchDecoded r id index) := by
  refine ⟨?_, exact_.honest, exact_.within⟩
  have total := exact_.resident
  exact total.trans (congrArg (undecoded r + ·)
    (tally_modify (fun entry => { entry with lastAccess := r.clock }) (fun _ => rfl) r.decoded _).symm)

theorem load_chunk_exact {id : Nat} (medium : Medium) (exact_ : Exact cfg r)
    (fits : Fits cfg r (.loadChunk id index opened medium)) :
    Exact cfg (loadChunk cfg medium r id index opened) := by
  unfold loadChunk
  split
  · exact exact_
  rename_i store found
  split
  · exact exact_
  rename_i cell here
  have stamped := stamp_exact (tick_exact exact_) found here r.clock
  simp only
  split
  · exact stamped
  split
  · exact touch_decoded_exact stamped
  rename_i reads
  split
  · exact stamped
  rename_i spill
  split
  · exact stamped
  · simp only [Bool.not_eq_true, Bool.not_eq_false'] at reads spill
    refine cache_decoded_exact medium stamped ?_
    simp only [Fits, asked, spill, reads, Bool.and_true, if_true, Option.getD_some] at fits
    exact fits

private theorem shed_exact (exact_ : Exact cfg r) (sheds : Sheds r next) : Exact cfg next :=
  have owed := sheds.owes 0 ⟨exact_.resident, exact_.honest⟩
  ⟨owed.exact, owed.honest, Nat.le_trans sheds.less exact_.within⟩

private theorem grant_exact {next : StoreRegistry} (exact_ : Exact cfg r)
    (room : r.resident + bytes ≤ cfg.budgetBytes) (total : next.resident = asUsize (r.resident + bytes))
    (held : holdings next = holdings r + bytes) (honest : next.saturated = r.saturated) : Exact cfg next := by
  have sum : asUsize (r.resident + bytes) = r.resident + bytes :=
    Nat.mod_eq_of_lt (Nat.lt_of_le_of_lt room cfg.fits)
  rw [sum] at total
  exact ⟨by rw [total, held, exact_.resident], honest.trans exact_.honest, total ▸ room⟩

theorem make_room_sheds (cfg : Config) (medium : Medium) (r : StoreRegistry) (bytes : Nat) :
    Sheds r (makeRoom cfg medium r bytes).1 := by
  unfold makeRoom
  split
  · exact evict_until_sheds _ _ _ _
  · exact sheds_refl r

theorem reserve_exact (medium : Medium) (exact_ : Exact cfg r) (fits : r.resident + bytes < 2 ^ 64) :
    Exact cfg (reserve cfg medium r bytes) := by
  have sheds := make_room_sheds cfg medium r bytes
  rcases made : makeRoom cfg medium r bytes with ⟨next, room⟩
  rw [made] at sheds
  simp only [reserve, made]
  have kept : Exact cfg next := shed_exact exact_ sheds
  split
  · exact kept
  split
  · exact kept
  rename_i within
  have sum : asUsize (next.resident + bytes) = next.resident + bytes :=
    Nat.mod_eq_of_lt (Nat.lt_of_le_of_lt (Nat.add_le_add_right sheds.less _) fits)
  refine grant_exact kept (by rw [sum] at within; exact Nat.not_lt.mp within) rfl ?_ rfl
  simp only [holdings, undecoded, List.sum_append, List.sum_singleton]
  omega

theorem reserve_query_exact {max : Nat} (medium : Medium) (exact_ : Exact cfg r) :
    Exact cfg (reserveQuery cfg medium r max) := by
  have sheds := make_room_sheds cfg medium r (min max cfg.queryShareBytes)
  rcases made : makeRoom cfg medium r (min max cfg.queryShareBytes) with ⟨next, room⟩
  rw [made] at sheds
  simp only [reserveQuery, made]
  have kept : Exact cfg next := shed_exact exact_ sheds
  split
  · exact kept
  split
  · exact kept
  -- The grant is at most what the budget has left.
  have within : next.resident + min (min max cfg.queryShareBytes) (cfg.budgetBytes - next.resident) ≤
      cfg.budgetBytes := by
    have below := kept.within
    omega
  refine grant_exact kept within rfl ?_ rfl
  simp only [holdings, undecoded, List.sum_append, List.sum_singleton]
  omega

private theorem sum_erase {held : List Nat} (found : held[k]? = some bytes) :
    (held.eraseIdx k).sum + bytes = held.sum := by
  simpa [tally] using tally_erase (fun bytes => bytes) found

theorem step_exact (exact_ : Exact cfg r) (fits : Fits cfg r action) (stepped : step cfg r action = some next) :
    Exact cfg next := by
  have total := exact_.resident
  cases action with
  | create =>
    cases stepped
    refine ⟨?_, exact_.honest, exact_.within⟩
    simp only [holdings, undecoded, tally_append, tally_cons, tally_nil] at total ⊢
    exact total
  | begin id columns =>
    simp only [step] at stepped
    split at stepped
    · cases stepped
    rename_i store found
    split at stepped <;> cases stepped
    · exact set_store_exact exact_ found rfl
    · exact exact_
  | publish id bytes medium =>
    cases stepped
    exact publish_exact medium exact_ fits
  | finish id phase =>
    simp only [step] at stepped
    split at stepped
    · cases stepped
    rename_i store found
    split at stepped <;> cases stepped
    · exact exact_
    · rename_i finished
      refine set_store_exact exact_ found ?_
      cases phase <;> simp_all [StoreShared.held, Phase.isFinished]
  | loadChunk id index opened medium =>
    cases stepped
    exact load_chunk_exact medium exact_ fits
  | reserve bytes medium =>
    cases stepped
    exact reserve_exact medium exact_ fits
  | reserveQuery max medium =>
    cases stepped
    exact reserve_query_exact medium exact_
  | dropReservation k =>
    simp only [step] at stepped
    split at stepped <;> cases stepped
    rename_i bytes found
    have erased := sum_erase found
    have owed : Owes { r with reservations := r.reservations.eraseIdx k } bytes :=
      ⟨by simp only [holdings, undecoded] at total ⊢; omega, exact_.honest⟩
    exact refund_exact owed (Nat.le_trans exact_.within (Nat.le_add_right _ _))
  | dropLease k =>
    simp only [step] at stepped
    split at stepped <;> cases stepped
    rename_i bytes found
    have erased := sum_erase found
    have owed : Owes { r with
        leases := r.leases.eraseIdx k
        queryReserved := asUsize (r.queryReserved + 2 ^ 64 - bytes) } bytes :=
      ⟨by simp only [holdings, undecoded] at total ⊢; omega, exact_.honest⟩
    exact refund_exact owed (Nat.le_trans exact_.within (Nat.le_add_right _ _))
  | release id =>
    cases stepped
    exact release_exact exact_

/-- In every run whose charges and reservations fit a `usize`, the total is
exactly what is held, nothing is given back twice, and the budget is kept. -/
theorem budget_exact (cfg : Config) (actions : List Action) (r : StoreRegistry)
    (fits : Along (step cfg) (Fits cfg) start actions) (ran : run (step cfg) start actions = some r) :
    Exact cfg r :=
  run_invariant_along (Exact cfg) (fun _ _ _ exact_ fits stepped => step_exact exact_ fits stepped)
    ⟨rfl, rfl, Nat.zero_le _⟩ fits ran

/-- A budget of a thousand bytes and no spill. -/
def smallBudget : Config := ⟨1000, 900, 8, 500, false, by decide⟩

private def noMedium : Medium := fun _ _ => .left

/-- A chunk, a reservation, and the release of the store. -/
theorem budget_exact_at : ∃ r,
    run (step smallBudget) start
      [.create, .begin 0 1, .publish 0 600 noMedium, .reserve 300 noMedium, .release 0] = some r ∧
      r.resident = 300 ∧ Exact smallBudget r := by
  refine ⟨_, rfl, rfl, budget_exact smallBudget
    [.create, .begin 0 1, .publish 0 600 noMedium, .reserve 300 noMedium, .release 0] _ (by decide) rfl⟩

/-- With ten bytes held, a reservation of `2 ^ 64 - 5` bytes passes the check: the
sum wraps to five, and so does the total. -/
theorem reservation_wraps : ∃ r,
    run (step smallBudget) start [.reserve 10 noMedium, .reserve (2 ^ 64 - 5) noMedium] = some r ∧
      r.resident = 5 ∧ holdings r = 2 ^ 64 + 5 ∧ ¬Exact smallBudget r := by
  refine ⟨_, rfl, rfl, rfl, fun exact_ => ?_⟩
  have resident := exact_.resident
  exact absurd resident (by decide)

end QueryHive.Store.Budget
