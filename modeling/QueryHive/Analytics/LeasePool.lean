import QueryHive.Library.Runs
import QueryHive.Library.Shares

/-! The memory pool of the analytics helper (`pool.rs`): what DataFusion's operators may hold is bounded by the
leases of the queries that run. The pool counts in `usize`; the consumers, their reservations and the leases are what
it counts. -/
namespace QueryHive.Analytics.Lending
open Library Library.Runs Library.Shares Library.Tally

/-- What a `usize` of 64 bits keeps of a sum. -/
def usize (n : Nat) : Nat := n % 2 ^ 64

/-- `LeasePool` with its `State`. -/
structure LeasePool where
  /-- The sum of the leases of the queries running now. -/
  limit : Nat
  /-- Spillers keep out of the last `1/divisor` of the limit. -/
  reserveDivisor : Nat
  /-- Consumers that can spill. -/
  spillers : Nat
  /-- Bytes reserved by consumers that can spill. -/
  spillable : Nat
  /-- Bytes reserved by consumers that cannot. -/
  unspillable : Nat
  deriving DecidableEq, Repr

/-- The numbers of a refusal. -/
structure Refusal where
  additional : Nat
  held : Nat
  available : Nat
  limit : Nat
  deriving DecidableEq, Repr

namespace LeasePool

/-- `with_reserve_divisor`. -/
def withReserveDivisor (divisor : Nat) : LeasePool :=
  { limit := 0, reserveDivisor := max divisor 1, spillers := 0, spillable := 0, unspillable := 0 }

/-- `grant`. -/
def grant (pool : LeasePool) (bytes : Nat) : LeasePool := { pool with limit := usize (pool.limit + bytes) }

/-- `Lease::drop`. -/
def dropLease (pool : LeasePool) (bytes : Nat) : LeasePool :=
  { pool with limit := usize (pool.limit + (2 ^ 64 - bytes)) }

/-- `register`. -/
def register (pool : LeasePool) (canSpill : Bool) : LeasePool :=
  if canSpill then { pool with spillers := usize (pool.spillers + 1) } else pool

/-- `unregister`. -/
def unregister (pool : LeasePool) (canSpill : Bool) : LeasePool :=
  if canSpill then { pool with spillers := pool.spillers - 1 } else pool

/-- `grow`. -/
def grow (pool : LeasePool) (canSpill : Bool) (additional : Nat) : LeasePool :=
  if canSpill then { pool with spillable := usize (pool.spillable + additional) }
  else { pool with unspillable := usize (pool.unspillable + additional) }

/-- `shrink`. -/
def shrink (pool : LeasePool) (canSpill : Bool) (shrink : Nat) : LeasePool :=
  if canSpill then { pool with spillable := pool.spillable - shrink }
  else { pool with unspillable := pool.unspillable - shrink }

/-- `refuse`. -/
def refuse (pool : LeasePool) (size additional available : Nat) : Refusal :=
  { additional, held := size, available, limit := pool.limit }

/-- `try_grow` of a reservation of some size. -/
def tryGrow (pool : LeasePool) (canSpill : Bool) (size additional : Nat) : Except Refusal LeasePool :=
  let held := usize (pool.spillable + pool.unspillable)
  if pool.limit < usize (held + additional) then .error (pool.refuse size additional (pool.limit - held))
  else if canSpill then
    let spillCap := pool.limit - pool.limit / pool.reserveDivisor
    let spillAvailable := spillCap - pool.unspillable
    let available := if pool.spillers = 0 then spillAvailable else spillAvailable / pool.spillers
    if available < usize (size + additional) then .error (pool.refuse size additional available)
    else .ok { pool with spillable := usize (pool.spillable + additional) }
  else .ok { pool with unspillable := usize (pool.unspillable + additional) }

end LeasePool

/-- A registered `MemoryConsumer` and the sizes of its reservations. -/
structure Consumer where
  canSpill : Bool
  sizes : List Nat
  deriving DecidableEq, Repr

def Consumer.held (consumer : Consumer) : Nat := tally id consumer.sizes

/-- The pool and everything that was registered, reserved and granted. -/
structure World where
  pool : LeasePool
  consumers : List Consumer
  leases : List Nat
  deriving DecidableEq, Repr

def World.start (divisor : Nat) : World := { pool := .withReserveDivisor divisor, consumers := [], leases := [] }

/-- A call of the pool, with the consumer and its reservation by their places. -/
inductive Op where
  | register (canSpill : Bool)
  /-- An empty reservation of a consumer. -/
  | reserve (i : Nat)
  | unregister (i : Nat)
  | grow (i j additional : Nat)
  | tryGrow (i j additional : Nat)
  | shrink (i j bytes : Nat)
  | grant (bytes : Nat)
  | dropLease (k : Nat)
  deriving DecidableEq, Repr

namespace World

def resize (world : World) (i j size : Nat) (consumer : Consumer) : World :=
  { world with consumers := world.consumers.set i { consumer with sizes := consumer.sizes.set j size } }

/-- A call that keeps DataFusion's contract. -/
def step (world : World) : Op → Option World
  | .register canSpill =>
    some { world with pool := world.pool.register canSpill, consumers := world.consumers ++ [⟨canSpill, []⟩] }
  | .reserve i => world.consumers[i]?.map fun consumer =>
    { world with consumers := world.consumers.set i { consumer with sizes := consumer.sizes ++ [0] } }
  | .unregister i => world.consumers[i]?.bind fun consumer =>
    if consumer.sizes.all (· == 0) then
      some { world with pool := world.pool.unregister consumer.canSpill, consumers := world.consumers.eraseIdx i }
    else none
  | .grow i j additional => world.consumers[i]?.bind fun consumer => consumer.sizes[j]?.map fun size =>
    { world.resize i j (size + additional) consumer with pool := world.pool.grow consumer.canSpill additional }
  | .tryGrow i j additional => world.consumers[i]?.bind fun consumer => consumer.sizes[j]?.map fun size =>
    match world.pool.tryGrow consumer.canSpill size additional with
    | .ok pool => { world.resize i j (size + additional) consumer with pool }
    | .error _ => world
  | .shrink i j bytes => world.consumers[i]?.bind fun consumer => consumer.sizes[j]?.bind fun size =>
    if bytes ≤ size then
      some { world.resize i j (size - bytes) consumer with pool := world.pool.shrink consumer.canSpill bytes }
    else none
  | .grant bytes => some { world with pool := world.pool.grant bytes, leases := world.leases ++ [bytes] }
  | .dropLease k => world.leases[k]?.map fun bytes =>
    { world with pool := world.pool.dropLease bytes, leases := world.leases.eraseIdx k }

/-- What the consumers of a kind hold. -/
def held (world : World) (canSpill : Bool) : Nat :=
  tally (fun consumer : Consumer => if consumer.canSpill = canSpill then consumer.held else 0) world.consumers

def spillers (world : World) : Nat :=
  tally (fun consumer : Consumer => if consumer.canSpill then 1 else 0) world.consumers

def granted (world : World) : Nat := tally id world.leases

def total (world : World) : Nat := world.held true + world.held false

end World

/-- The bytes reserved by the consumers of a kind, as the pool counts them. -/
def LeasePool.counter (pool : LeasePool) (canSpill : Bool) : Nat :=
  if canSpill then pool.spillable else pool.unspillable

/-- The counters are the sums they stand for. -/
structure Counted (world : World) : Prop where
  divisor : 0 < world.pool.reserveDivisor
  reserved : ∀ canSpill, world.pool.counter canSpill = world.held canSpill
  spillers : world.pool.spillers = world.spillers
  limit : world.pool.limit = world.granted

/-- No addition of the call wraps and no subtraction stops at zero. -/
def NoWrap (world : World) : Op → Prop
  | .register canSpill => canSpill = true → world.pool.spillers + 1 < 2 ^ 64
  | .unregister i =>
    ∀ consumer, world.consumers[i]? = some consumer → consumer.canSpill = true → 1 ≤ world.pool.spillers
  | .grow i _ additional => ∀ consumer, world.consumers[i]? = some consumer →
    world.pool.counter consumer.canSpill + additional < 2 ^ 64
  | .tryGrow i j additional => ∀ consumer size, world.consumers[i]? = some consumer → consumer.sizes[j]? = some size →
    world.pool.spillable + world.pool.unspillable + additional < 2 ^ 64 ∧ size + additional < 2 ^ 64
  | .shrink i _ bytes => ∀ consumer, world.consumers[i]? = some consumer →
    bytes ≤ world.pool.counter consumer.canSpill
  | .grant bytes => world.pool.limit + bytes < 2 ^ 64
  | .dropLease k => ∀ bytes, world.leases[k]? = some bytes → bytes ≤ world.pool.limit
  | .reserve _ => True

/-- A consumer's share of what the pool leaves to those that can spill. -/
def share (pool : LeasePool) : Nat := (pool.limit - pool.limit / pool.reserveDivisor - pool.unspillable) / pool.spillers

/-- After a `try_grow` everything held is within the limit and the consumer within its share, or nothing has changed. -/
def Bounded (world next : World) : Op → Prop
  | .tryGrow i j additional => ∀ consumer size, world.consumers[i]? = some consumer → consumer.sizes[j]? = some size →
    if (world.pool.tryGrow consumer.canSpill size additional).isOk then
      next.total ≤ next.pool.limit ∧
        ∀ after, next.consumers[i]? = some after → after.canSpill = true → after.held ≤ share next.pool
    else next = world
  | _ => True

/-- A call whose sums fit a `usize`; a consumer that can spill asks for one of its reservations, the others are
empty. -/
def Fits (world : World) : Op → Prop
  | .register canSpill => canSpill = true → world.spillers + 1 < 2 ^ 64
  | .grow _ _ additional => world.total + additional < 2 ^ 64
  | .tryGrow i j additional => world.total + additional < 2 ^ 64 ∧
    ∀ consumer ∈ world.consumers[i]?, ∀ size ∈ consumer.sizes[j]?, consumer.canSpill = true → consumer.held = size
  | .grant bytes => world.granted + bytes < 2 ^ 64
  | .reserve _ | .unregister _ | .shrink _ _ _ | .dropLease _ => True

instance (world : World) : (op : Op) → Decidable (Fits world op)
  | .register _ => inferInstanceAs (Decidable (_ → _))
  | .grow _ _ _ | .grant _ => inferInstanceAs (Decidable (_ < _))
  | .tryGrow i j additional => inferInstanceAs (Decidable (world.total + additional < 2 ^ 64 ∧
    ∀ consumer ∈ world.consumers[i]?, ∀ size ∈ consumer.sizes[j]?, consumer.canSpill = true → consumer.held = size))
  | .reserve _ | .unregister _ | .shrink _ _ _ | .dropLease _ => inferInstanceAs (Decidable True)

theorem usize_of_lt (small : n < 2 ^ 64) : usize n = n := Nat.mod_eq_of_lt small

section
variable {world : World} {consumer : Consumer} {i j size : Nat}

/-- A consumer's reservations and its kind, when one of them has another size. -/
theorem held_resize (found : world.consumers[i]? = some consumer) (here : consumer.sizes[j]? = some size) (new : Nat)
    (canSpill : Bool) :
    (world.resize i j new consumer).held canSpill + (if consumer.canSpill = canSpill then size else 0) =
      world.held canSpill + if consumer.canSpill = canSpill then new else 0 := by
  have outer := tally_set (fun consumer : Consumer => if consumer.canSpill = canSpill then consumer.held else 0) found
    { consumer with sizes := consumer.sizes.set j new }
  have inner : tally id (consumer.sizes.set j new) + size = tally id consumer.sizes + new := tally_set id here new
  unfold World.held World.resize
  dsimp only [Consumer.held] at outer ⊢
  by_cases own : consumer.canSpill = canSpill
  · rw [if_pos own, if_pos own] at outer ⊢
    omega
  · rw [if_neg own, if_neg own] at outer ⊢
    omega

theorem spillers_resize (found : world.consumers[i]? = some consumer) (j new : Nat) :
    (world.resize i j new consumer).spillers = world.spillers := by
  have outer := tally_set (fun consumer : Consumer => if consumer.canSpill then 1 else 0) found
    { consumer with sizes := consumer.sizes.set j new }
  unfold World.spillers World.resize
  dsimp only at outer ⊢
  omega

/-- What one reservation holds its consumer holds, and that everything of its kind. -/
theorem size_le_held (found : world.consumers[i]? = some consumer) (here : consumer.sizes[j]? = some size) :
    size ≤ consumer.held ∧ consumer.held ≤ world.held consumer.canSpill := by
  have inner : size ≤ consumer.held := le_tally id (List.mem_of_getElem? here)
  have outer := le_tally (fun other : Consumer => if other.canSpill = consumer.canSpill then other.held else 0)
    (List.mem_of_getElem? found)
  rw [if_pos rfl] at outer
  exact ⟨inner, outer⟩

theorem held_le_total (world : World) (canSpill : Bool) : world.held canSpill ≤ world.total := by
  unfold World.total
  cases canSpill
  · exact Nat.le_add_left _ _
  · exact Nat.le_add_right _ _

theorem Counted.total (counted : Counted world) : world.pool.spillable + world.pool.unspillable = world.total :=
  congrArg₂ (· + ·) (counted.reserved true) (counted.reserved false)

theorem grow_counter {pool : LeasePool} {kind : Bool} (small : pool.counter kind + additional < 2 ^ 64)
    (canSpill : Bool) :
    (pool.grow kind additional).counter canSpill =
      pool.counter canSpill + if kind = canSpill then additional else 0 := by
  unfold LeasePool.grow LeasePool.counter at *
  cases kind <;> cases canSpill <;> simp_all [usize]

theorem grow_sum {pool : LeasePool} {kind : Bool} (small : pool.counter kind + additional < 2 ^ 64) :
    (pool.grow kind additional).spillable + (pool.grow kind additional).unspillable =
      pool.spillable + pool.unspillable + additional := by
  cases kind with
  | true =>
    have kept : usize (pool.spillable + additional) = pool.spillable + additional := usize_of_lt small
    exact (congrArg (· + pool.unspillable) kept).trans (Nat.add_right_comm _ _ _)
  | false =>
    have kept : usize (pool.unspillable + additional) = pool.unspillable + additional := usize_of_lt small
    exact (congrArg (pool.spillable + ·) kept).trans (Nat.add_assoc _ _ _).symm

theorem shrink_counter {pool : LeasePool} {kind : Bool} (canSpill : Bool) :
    (pool.shrink kind bytes).counter canSpill = pool.counter canSpill - if kind = canSpill then bytes else 0 := by
  unfold LeasePool.shrink LeasePool.counter
  cases kind <;> cases canSpill <;> rfl

theorem grow_other (pool : LeasePool) (kind : Bool) (additional : Nat) :
    (pool.grow kind additional).reserveDivisor = pool.reserveDivisor ∧
    (pool.grow kind additional).spillers = pool.spillers ∧
      (pool.grow kind additional).limit = pool.limit := by
  cases kind <;> exact ⟨rfl, rfl, rfl⟩

theorem shrink_other (pool : LeasePool) (kind : Bool) (bytes : Nat) :
    (pool.shrink kind bytes).reserveDivisor = pool.reserveDivisor ∧ (pool.shrink kind bytes).spillers = pool.spillers ∧
      (pool.shrink kind bytes).limit = pool.limit := by
  cases kind <;> exact ⟨rfl, rfl, rfl⟩

/-- One reservation is set, and its counter by as much. -/
theorem resize_counted {pool : LeasePool} (counted : Counted world) (found : world.consumers[i]? = some consumer)
    (here : consumer.sizes[j]? = some size) (new : Nat)
    (other : pool.reserveDivisor = world.pool.reserveDivisor ∧ pool.spillers = world.pool.spillers ∧
      pool.limit = world.pool.limit)
    (moved : ∀ canSpill, pool.counter canSpill + (if consumer.canSpill = canSpill then size else 0) =
      world.pool.counter canSpill + if consumer.canSpill = canSpill then new else 0) :
    Counted { world.resize i j new consumer with pool := pool } := by
  obtain ⟨divisor, spillers, limit⟩ := other
  refine ⟨divisor ▸ counted.divisor, fun canSpill => ?_, ?_, limit.trans counted.limit⟩
  · have sizes := held_resize found here new canSpill
    have counts := moved canSpill
    rw [counted.reserved] at counts
    exact Nat.add_right_cancel (counts.trans sizes.symm)
  · exact spillers.trans (counted.spillers.trans (spillers_resize found j new).symm)

theorem grow_counted (counted : Counted world) (found : world.consumers[i]? = some consumer)
    (here : consumer.sizes[j]? = some size) (fits : world.total + additional < 2 ^ 64) :
    Counted { world.resize i j (size + additional) consumer with
      pool := world.pool.grow consumer.canSpill additional } := by
  refine resize_counted counted found here _ (grow_other world.pool consumer.canSpill additional) fun canSpill => ?_
  have small : world.pool.counter consumer.canSpill + additional < 2 ^ 64 := by
    have own := held_le_total world consumer.canSpill
    rw [counted.reserved]
    omega
  rw [grow_counter small]
  split <;> omega

theorem shrink_counted (counted : Counted world) (found : world.consumers[i]? = some consumer)
    (here : consumer.sizes[j]? = some size) (owned : bytes ≤ size) :
    Counted { world.resize i j (size - bytes) consumer with pool := world.pool.shrink consumer.canSpill bytes } := by
  refine resize_counted counted found here _ (shrink_other world.pool consumer.canSpill bytes) fun canSpill => ?_
  have held := counted.reserved canSpill
  have sizes := held_resize found here 0 canSpill
  rw [shrink_counter]
  by_cases own : consumer.canSpill = canSpill
  · simp only [if_pos own] at sizes ⊢
    omega
  · simp only [if_neg own, Nat.sub_zero]

theorem passed_of_ok {ε α : Type} {refused : Prop} [Decidable refused] {error : ε} {value result : α}
    (ended : (if refused then .error error else .ok value) = (Except.ok result : Except ε α)) :
    ¬refused ∧ value = result := by
  split at ended
  · cases ended
  · next passed =>
    cases ended
    exact ⟨passed, rfl⟩

/-- Where nothing wraps, a `try_grow` that is granted grows, within the limit and a spiller's share. -/
theorem tryGrow_ok {pool after : LeasePool} {canSpill : Bool}
    (small : pool.spillable + pool.unspillable + additional < 2 ^ 64)
    (own : size + additional < 2 ^ 64) (granted : pool.tryGrow canSpill size additional = .ok after) :
    after = pool.grow canSpill additional ∧ pool.spillable + pool.unspillable + additional ≤ pool.limit ∧
      (canSpill = true → 0 < pool.spillers → size + additional ≤ share pool) := by
  have held : usize (pool.spillable + pool.unspillable) = pool.spillable + pool.unspillable := usize_of_lt (by omega)
  have asked : usize (pool.spillable + pool.unspillable + additional) =
    pool.spillable + pool.unspillable + additional :=
    usize_of_lt small
  have size' : usize (size + additional) = size + additional := usize_of_lt own
  unfold LeasePool.tryGrow at granted
  dsimp only at granted
  rw [held, asked, size'] at granted
  split at granted
  · cases granted
  next within =>
  rw [Nat.not_lt] at within
  split at granted
  · next spills =>
    obtain ⟨fair, same⟩ := passed_of_ok granted
    refine ⟨by rw [← same, LeasePool.grow, if_pos spills], within, fun _ some => ?_⟩
    rw [if_neg (Nat.ne_of_gt some)] at fair
    exact Nat.not_lt.mp fair
  · next other =>
    cases granted
    exact ⟨by rw [LeasePool.grow, if_neg other], within, fun spills => absurd spills other⟩

theorem share_grow (pool : LeasePool) (additional : Nat) : share (pool.grow true additional) = share pool := rfl

theorem held_of_empty (empty : consumer.sizes.all (· == 0) = true) : consumer.held = 0 := by
  have zero : ∀ size ∈ consumer.sizes, size = 0 :=
    fun size inside => by simpa using List.all_eq_true.mp empty size inside
  unfold Consumer.held tally
  rw [List.map_id, List.sum_eq_zero_iff_forall_eq_nat]
  exact zero

theorem unregister_counted (counted : Counted world) (found : world.consumers[i]? = some consumer)
    (empty : consumer.sizes.all (· == 0) = true) :
    Counted { world with pool := world.pool.unregister consumer.canSpill, consumers := world.consumers.eraseIdx i } ∧
      (consumer.canSpill = true → 1 ≤ world.pool.spillers) := by
  have nothing := held_of_empty empty
  have fewer : tally (fun consumer : Consumer => if consumer.canSpill then 1 else 0) (world.consumers.eraseIdx i) +
      (if consumer.canSpill then 1 else 0) = world.spillers := tally_erase _ found
  have spillers := counted.spillers
  refine ⟨⟨?_, fun canSpill => ?_, ?_, ?_⟩, fun spills => ?_⟩
  · cases consumer.canSpill <;> exact counted.divisor
  · have less := tally_erase (fun consumer : Consumer =>
      if consumer.canSpill = canSpill then consumer.held else 0) found
    have same : (world.pool.unregister consumer.canSpill).counter canSpill = world.pool.counter canSpill := by
      cases consumer.canSpill <;> rfl
    rw [nothing, ite_self, Nat.add_zero] at less
    exact (same.trans (counted.reserved canSpill)).trans less.symm
  · change (world.pool.unregister consumer.canSpill).spillers =
      tally (fun consumer : Consumer => if consumer.canSpill then 1 else 0) (world.consumers.eraseIdx i)
    unfold LeasePool.unregister
    split
    · next spills =>
      rw [if_pos spills] at fewer
      dsimp only
      omega
    · next other =>
      rw [if_neg other] at fewer
      omega
  · cases consumer.canSpill <;> exact counted.limit
  · rw [if_pos spills] at fewer
    omega

theorem register_counted (counted : Counted world) (canSpill : Bool)
    (fits : canSpill = true → world.spillers + 1 < 2 ^ 64) :
    Counted { world with pool := world.pool.register canSpill, consumers := world.consumers ++ [⟨canSpill, []⟩] } := by
  have spillers := counted.spillers
  refine ⟨?_, fun kind => ?_, ?_, ?_⟩
  · cases canSpill <;> exact counted.divisor
  · have same : (world.pool.register canSpill).counter kind = world.pool.counter kind := by cases canSpill <;> rfl
    refine (same.trans (counted.reserved kind)).trans ?_
    simp [World.held, Consumer.held]
  · change (world.pool.register canSpill).spillers =
      tally (fun consumer : Consumer => if consumer.canSpill then 1 else 0) (world.consumers ++ [⟨canSpill, []⟩])
    rw [tally_append]
    change _ = world.spillers + _
    unfold LeasePool.register
    split
    · next spills =>
      have small := usize_of_lt (fits spills)
      simp [spillers, small, spills]
    · next other => simp [spillers, other]
  · cases canSpill <;> exact counted.limit

theorem reserve_counted (counted : Counted world) (found : world.consumers[i]? = some consumer) :
    Counted { world with consumers := world.consumers.set i { consumer with sizes := consumer.sizes ++ [0] } } := by
  have same : Consumer.held { consumer with sizes := consumer.sizes ++ [0] } = consumer.held := by simp [Consumer.held]
  refine ⟨counted.divisor, fun canSpill => ?_, ?_, counted.limit⟩
  · have outer := tally_set (fun consumer : Consumer => if consumer.canSpill = canSpill then consumer.held else 0) found
      { consumer with sizes := consumer.sizes ++ [0] }
    dsimp only at outer
    rw [same] at outer
    exact (counted.reserved canSpill).trans (Nat.add_right_cancel outer).symm
  · have outer := tally_set (fun consumer : Consumer => if consumer.canSpill then 1 else 0) found
      { consumer with sizes := consumer.sizes ++ [0] }
    exact counted.spillers.trans (Nat.add_right_cancel outer).symm

theorem grant_counted (counted : Counted world) (fits : world.granted + bytes < 2 ^ 64) :
    Counted { world with pool := world.pool.grant bytes, leases := world.leases ++ [bytes] } := by
  refine ⟨counted.divisor, counted.reserved, counted.spillers, ?_⟩
  change usize (world.pool.limit + bytes) = tally id (world.leases ++ [bytes])
  rw [counted.limit, usize_of_lt fits, tally_append, tally_cons, tally_nil]
  rfl

theorem drop_counted (counted : Counted world) (found : world.leases[k]? = some bytes)
    (small : world.granted < 2 ^ 64) :
    Counted { world with pool := world.pool.dropLease bytes, leases := world.leases.eraseIdx k } ∧
      bytes ≤ world.pool.limit := by
  have less : tally id (world.leases.eraseIdx k) + bytes = world.granted := tally_erase id found
  have limit := counted.limit
  refine ⟨⟨counted.divisor, counted.reserved, counted.spillers, ?_⟩, by omega⟩
  change usize (world.pool.limit + (2 ^ 64 - bytes)) = tally id (world.leases.eraseIdx k)
  unfold usize
  omega

/-- A `try_grow` that is granted keeps everything within the limit, and the consumer that asked within its share. -/
theorem granted_bounds (counted : Counted world) (found : world.consumers[i]? = some consumer)
    (here : consumer.sizes[j]? = some size) (fits : world.total + additional < 2 ^ 64)
    (alone : consumer.canSpill = true → consumer.held = size)
    (granted : world.pool.tryGrow consumer.canSpill size additional = .ok pool) :
    Counted { world.resize i j (size + additional) consumer with pool } ∧
      Bounded world { world.resize i j (size + additional) consumer with pool } (.tryGrow i j additional) := by
  have own := size_le_held found here
  have most := held_le_total world consumer.canSpill
  have total := counted.total
  obtain ⟨rfl, within, fair⟩ := tryGrow_ok (by omega) (by omega) granted
  have counted' := grow_counted counted found here fits
  refine ⟨counted', fun consumer' size' found' here' => ?_⟩
  rw [found] at found'
  cases found'
  rw [here] at here'
  cases here'
  rw [granted]
  obtain ⟨divisor, spillers, limit⟩ := grow_other world.pool consumer.canSpill additional
  refine (if_pos rfl).mpr ⟨?_, fun after there spills => ?_⟩
  · have small : world.pool.counter consumer.canSpill + additional < 2 ^ 64 := by
      rw [counted.reserved]
      omega
    have sum := counted'.total
    rw [← sum, limit]
    exact grow_sum small ▸ within
  · have inside : i < world.consumers.length := (List.getElem?_eq_some_iff.mp found).1
    change (world.consumers.set i { consumer with sizes := consumer.sizes.set j (size + additional) })[i]? = _ at there
    rw [List.getElem?_set_self inside] at there
    cases there
    have inner : tally id (consumer.sizes.set j (size + additional)) + size = tally id consumer.sizes +
      (size + additional) :=
      tally_set id here (size + additional)
    have only : tally id consumer.sizes = size := alone spills
    have some : 0 < world.pool.spillers := by
      have one := le_tally (fun consumer : Consumer => if consumer.canSpill then 1 else 0) (List.mem_of_getElem? found)
      rw [if_pos spills] at one
      exact counted.spillers ▸ one
    have shared := fair spills some
    change tally id (consumer.sizes.set j (size + additional)) ≤ share (world.pool.grow consumer.canSpill additional)
    rw [spills, share_grow]
    omega

end

/-- What a call does to the counters and to what is held. -/
structure Sound (world : World) (op : Op) (next : World) : Prop where
  counted : Counted next
  noWrap : NoWrap world op
  bounded : Bounded world next op

theorem step_sound {world next : World} (counted : Counted world) (small : world.granted < 2 ^ 64)
    (fits : Fits world op) (stepped : world.step op = some next) : Sound world op next ∧ next.granted < 2 ^ 64 := by
  cases op with
  | register canSpill =>
    cases stepped
    exact ⟨⟨register_counted counted canSpill fits, fun spills => counted.spillers ▸ fits spills, trivial⟩, small⟩
  | reserve i =>
    obtain ⟨consumer, found, rfl⟩ := Option.map_eq_some_iff.mp stepped
    exact ⟨⟨reserve_counted counted found, trivial, trivial⟩, small⟩
  | unregister i =>
    obtain ⟨consumer, found, stepped⟩ := Option.bind_eq_some_iff.mp stepped
    obtain ⟨empty, same⟩ := Option.ite_none_right_eq_some.mp stepped
    cases same
    obtain ⟨counted', some⟩ := unregister_counted counted found empty
    refine ⟨⟨counted', fun consumer' found' => ?_, trivial⟩, small⟩
    rw [found] at found'
    cases found'
    exact some
  | grow i j additional =>
    obtain ⟨consumer, found, stepped⟩ := Option.bind_eq_some_iff.mp stepped
    obtain ⟨size, here, rfl⟩ := Option.map_eq_some_iff.mp stepped
    refine ⟨⟨grow_counted counted found here fits, fun consumer' found' => ?_, trivial⟩, small⟩
    have own := held_le_total world consumer'.canSpill
    rw [counted.reserved]
    exact Nat.lt_of_le_of_lt (Nat.add_le_add_right own _) fits
  | tryGrow i j additional =>
    obtain ⟨consumer, found, stepped⟩ := Option.bind_eq_some_iff.mp stepped
    obtain ⟨size, here, same⟩ := Option.map_eq_some_iff.mp stepped
    have noWrap : NoWrap world (.tryGrow i j additional) := fun consumer' size' found' here' => by
      have own := size_le_held found' here'
      have most := held_le_total world consumer'.canSpill
      have fits := fits.1
      rw [counted.total]
      exact ⟨fits, by omega⟩
    cases granted : world.pool.tryGrow consumer.canSpill size additional with
    | ok pool =>
      rw [granted] at same
      cases same
      obtain ⟨counted', bounded⟩ := granted_bounds counted found here fits.1 (fits.2 consumer found size here) granted
      exact ⟨⟨counted', noWrap, bounded⟩, small⟩
    | error refusal =>
      rw [granted] at same
      cases same
      refine ⟨⟨counted, noWrap, fun consumer' size' found' here' => ?_⟩, small⟩
      rw [found] at found'
      cases found'
      rw [here] at here'
      cases here'
      rw [granted]
      rfl
  | shrink i j bytes =>
    obtain ⟨consumer, found, stepped⟩ := Option.bind_eq_some_iff.mp stepped
    obtain ⟨size, here, stepped⟩ := Option.bind_eq_some_iff.mp stepped
    obtain ⟨owned, same⟩ := Option.ite_none_right_eq_some.mp stepped
    cases same
    refine ⟨⟨shrink_counted counted found here owned, fun consumer' found' => ?_, trivial⟩, small⟩
    rw [found] at found'
    cases found'
    have own := size_le_held found here
    rw [counted.reserved]
    omega
  | grant bytes =>
    cases stepped
    refine ⟨⟨grant_counted counted fits, ?_, trivial⟩, ?_⟩
    · change world.pool.limit + bytes < 2 ^ 64
      rw [counted.limit]
      exact fits
    · change tally id (world.leases ++ [bytes]) < 2 ^ 64
      rw [tally_append, tally_cons, tally_nil]
      exact fits
  | dropLease k =>
    obtain ⟨bytes, found, rfl⟩ := Option.map_eq_some_iff.mp stepped
    obtain ⟨counted', within⟩ := drop_counted counted found small
    have less : tally id (world.leases.eraseIdx k) + bytes = world.granted := tally_erase id found
    refine ⟨⟨counted', fun bytes' found' => ?_, trivial⟩, ?_⟩
    · rw [found] at found'
      cases found'
      exact within
    · change tally id (world.leases.eraseIdx k) < 2 ^ 64
      omega

/-- Every call of a run is sound. -/
def AllSound (world : World) (ops : List Op) : Prop :=
  ∀ front op rest before next, ops = front ++ op :: rest → run World.step world front = some before →
    before.step op = some next → Sound before op next

def LeasePool.Zero (pool : LeasePool) : Prop :=
  pool.limit = 0 ∧ pool.spillers = 0 ∧ pool.spillable = 0 ∧ pool.unspillable = 0

theorem zero_of_counted {world : World} (counted : Counted world) (left : world.consumers = [])
    (returned : world.leases = []) :
    world.pool.Zero := by
  have spillable := counted.reserved true
  have unspillable := counted.reserved false
  have spillers := counted.spillers
  have limit := counted.limit
  simp only [World.held, World.spillers, World.granted, left, returned,
    tally_nil] at spillable unspillable spillers limit
  exact ⟨limit, spillers, spillable, unspillable⟩

theorem start_counted (divisor : Nat) : Counted (World.start divisor) :=
  ⟨Nat.lt_of_lt_of_le Nat.one_pos (Nat.le_max_right _ _), fun canSpill => by cases canSpill <;> rfl, rfl, rfl⟩

/-- In a run whose sums fit and whose spillers ask for one reservation each, every call is sound, the counters are the
sums of what is live, and all are zero when nothing is. -/
theorem pool_lends_leases (divisor : Nat) (ran : run World.step (World.start divisor) ops = some world)
    (along : Along World.step Fits (World.start divisor) ops) :
    AllSound (World.start divisor) ops ∧ Counted world ∧
      (world.consumers = [] → world.leases = [] → world.pool.Zero) := by
  let Inv : World → Prop := fun world => Counted world ∧ world.granted < 2 ^ 64
  have start : Inv (World.start divisor) := ⟨start_counted divisor, Nat.two_pow_pos 64⟩
  have preserved : ∀ world op next, Inv world → Fits world op → world.step op = some next → Inv next :=
    fun world op next inv fits stepped =>
      have sound := step_sound inv.1 inv.2 fits stepped
      ⟨sound.1.counted, sound.2⟩
  have sound : Along World.step (fun world op => ∀ next, world.step op = some next → Sound world op next)
      (World.start divisor) ops :=
    along_of_invariant Inv preserved (fun world op inv fits next stepped =>
      (step_sound inv.1 inv.2 fits stepped).1) start along
  have counted := (run_invariant_along Inv preserved start along ran).1
  refine ⟨fun front op rest before next split reached stepped => ?_, counted, zero_of_counted counted⟩
  rw [split] at sound
  exact along_at sound reached next stepped

/-- Two operators share a lease, one of them is refused, and everything is given back. -/
theorem pool_lends_leases_returned :
    ∃ world, run World.step (World.start 4)
        [.grant 100, .register true, .register false, .reserve 0, .reserve 1, .tryGrow 1 0 20, .tryGrow 0 0 50,
          .tryGrow 0 0 10, .shrink 0 0 50, .shrink 1 0 20, .unregister 0, .unregister 0, .dropLease 0] = some world ∧
      world.pool.Zero := by
  have ran : run World.step (World.start 4)
      [.grant 100, .register true, .register false, .reserve 0, .reserve 1, .tryGrow 1 0 20, .tryGrow 0 0 50,
        .tryGrow 0 0 10, .shrink 0 0 50, .shrink 1 0 20, .unregister 0, .unregister 0, .dropLease 0] =
      some ⟨⟨0, 4, 0, 0, 0⟩, [], []⟩ := rfl
  exact ⟨_, ran, (pool_lends_leases 4 ran (by decide)).2.2 rfl rfl⟩

/-- Two leases whose sum is not a `usize` leave the pool without a limit. -/
theorem pool_wraps : ¬∀ divisor ops, AllSound (World.start divisor) ops := by
  intro every
  have sound := every 4 [.grant (2 ^ 64 - 1), .grant 1] [.grant (2 ^ 64 - 1)] (.grant 1) [] _ _ rfl rfl rfl
  exact absurd sound.counted.limit (by decide)

end QueryHive.Analytics.Lending
