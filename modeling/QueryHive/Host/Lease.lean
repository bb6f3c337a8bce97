import QueryHive.Core.Error
import QueryHive.Sql.Classify

/-! The session every command drives: the driver's own session, and for one that the
pool lent out the lease, with its rule about replacing a lost connection. How each
await of a call ends is an input: it returns, fails, or the call is dropped there. -/
namespace QueryHive.Host
open QueryHive.Core QueryHive.Sql QueryHive.Sql.Byte

/-- The exact texts the engine's own write paths open a transaction with. -/
def opensTransaction (sql : List UInt8) : Bool :=
  [ofAscii "BEGIN", ofAscii "START TRANSACTION", ofAscii "BEGIN READ ONLY", ofAscii "START TRANSACTION READ ONLY"].any
    (eqIgnoreAsciiCase (trim sql))

def dialectOf : DriverKind → Dialect
  | .mysql => .mysql
  | .postgres => .postgres
  | .trino => .trino

/-- `rerunnable`: whether a statement may be sent again on a replacement connection. -/
def rerunnable (sql : List UInt8) (kind : DriverKind) : Bool :=
  opensTransaction sql || classifyReadings sql (dialectOf kind).readings = .readOnly

/-- A call a session forwards to its driver; of the options only the row limit is
read on the way. -/
inductive Op where
  | execute (sql : List UInt8) (rowLimit : Option Nat)
  | bound (sql : List UInt8) (rowLimit : Option Nat)
  | copyIn (sql : List UInt8)
  | browse
  | objects
  | enforceReadOnly
  deriving DecidableEq, Repr

/-- How an await ended. -/
inductive Awaited where
  | ok
  | failed (error : EngineError)
  | dropped
  deriving DecidableEq, Repr

def Awaited.lost : Awaited → Bool
  | failed error => error.connectionLost
  | _ => false

/-- How the awaits of one call end: opening a replacement, making it read-only, and
the two times the call may be handed to a driver session. -/
structure Weather where
  opens : Awaited := .ok
  enforces : Awaited := .ok
  first : Awaited := .ok
  second : Awaited := .ok
  deriving DecidableEq, Repr

/-- The catalog and the schema a connection is in. -/
structure Context where
  database : Option String
  schema : Option String
  deriving DecidableEq, Repr

/-- A driver's session, told apart by a number. -/
structure Conn where
  id : Nat
  context : Context
  deriving DecidableEq, Repr

/-- A call handed to a driver session, and how it ended. -/
structure Sent where
  conn : Conn
  op : Op
  reply : Awaited
  deriving DecidableEq, Repr

/-- What the pool needs to know about a borrowed session. `lastCursor` is whether the
server saw the result of the last cursor through to its end. -/
structure LeaseState where
  kind : DriverKind
  context : Context
  reused : Bool
  executed : Bool := false
  broken : Bool := false
  unsettled : Bool := false
  dirty : Bool := false
  readOnly : Bool := false
  cancelled : Bool := false
  lastCursor : Option Bool := none
  deriving DecidableEq, Repr

/-- `Held`, with the number its next connection gets and the calls it has handed to
drivers. -/
structure Held where
  session : Conn
  lease : Option LeaseState
  next : Nat
  sent : List Sent := []
  deriving DecidableEq, Repr

def LeaseState.leftOpen (lease : LeaseState) : Bool := lease.lastCursor.any (! ·)

/-- `Held::rerunnable`: only a lease can reconnect. -/
def Held.rerunnable (held : Held) (sql : List UInt8) : Bool :=
  held.lease.any fun lease => Host.rerunnable sql lease.kind

def LeaseState.replaced (lease : LeaseState) : LeaseState :=
  { lease with
    broken := false, reused := false, executed := false, unsettled := false, dirty := false, lastCursor := none }

/-- `reconnect`: replace a lost connection with a new one on the same key and tunnel. -/
def Held.reconnect (weather : Weather) (held : Held) : Awaited × Held :=
  match held.lease with
  | none => (.ok, held)
  | some lease =>
    let marked := { held with lease := some { lease with broken := true } }
    match weather.opens with
    | .ok =>
      let session : Conn := ⟨held.next, lease.context⟩
      let swapped : Held := { marked with session := session, next := held.next + 1, lease := some lease.replaced }
      if lease.readOnly then
        let asked := held.sent ++ [⟨session, .enforceReadOnly, weather.enforces⟩]
        match weather.enforces with
        | .ok => (.ok, { swapped with sent := asked })
        | other => (other, { marked with next := held.next + 1, sent := asked })
      else (.ok, swapped)
    | other => (other, marked)

/-- The lease around one try: a cursor that is still open is noted, and a call that is
dropped leaves the session unsettled. -/
def LeaseState.tried (reply : Awaited) (lease : LeaseState) : LeaseState :=
  { lease with dirty := lease.dirty || lease.leftOpen, unsettled := reply = .dropped }

/-- `attempt`: hand one call to the driver session. -/
def Held.attempt (reply : Awaited) (op : Op) (held : Held) : Held :=
  { held with lease := held.lease.map (·.tried reply), sent := held.sent ++ [⟨held.session, op, reply⟩] }

def LeaseState.returned (outcome : Awaited) (lease : LeaseState) : LeaseState :=
  { lease with executed := true, broken := lease.broken || outcome.lost }

/-- What a call notes about the lease when it returns; a dropped call notes nothing. -/
def Held.returned (outcome : Awaited) (held : Held) : Held :=
  if outcome = .dropped then held else { held with lease := held.lease.map (·.returned outcome) }

def lostBefore : EngineError :=
  .connect "the pooled connection was lost; the statement was not sent again" .permanent

/-- The connection is known to be gone. -/
def Held.broken (held : Held) : Bool := held.lease.any (·.broken)

/-- A reused session that no statement was sent on yet. -/
def Held.first (held : Held) : Bool := held.lease.any fun lease => lease.reused && !lease.executed

/-- Only a `Connect` failure proves that nothing was sent. -/
def Awaited.unsent : Awaited → Bool
  | failed (.connect _ _) => true
  | _ => false

/-- The call once the connection is there: it may be handed over a second time, on a
replacement, when the first time proves that nothing was sent. -/
def Held.handOver (weather : Weather) (again : Bool) (op : Op) (held : Held) : Awaited × Held :=
  let tried := held.attempt weather.first op
  if held.first && again && weather.first.unsent then
    match tried.reconnect weather with
    | (.ok, replaced) => (weather.second, (replaced.attempt weather.second op).returned weather.second)
    | other => other
  else (weather.first, tried.returned weather.first)

/-- `call`: one call on the session, with the reconnect rule around it. -/
def Held.call (weather : Weather) (again : Bool) (op : Op) (held : Held) : Awaited × Held :=
  if held.broken then
    if again then
      match held.reconnect weather with
      | (.ok, replaced) => replaced.handOver weather again op
      | other => other
    else (.failed lostBefore, held)
  else held.handOver weather again op

/-- `track`: the cursor of a call that returned one. -/
def Held.track (outcome : Awaited) (held : Held) : Held :=
  if outcome = .ok then { held with lease := held.lease.map fun lease => { lease with lastCursor := some false } }
  else held

/-- `execute`. -/
def Held.execute (weather : Weather) (sql : List UInt8) (rowLimit : Option Nat) (held : Held) : Awaited × Held :=
  let (outcome, held) := held.call weather (held.rerunnable sql) (.execute sql rowLimit)
  (outcome, held.track outcome)

/-- `execute_bound`. -/
def Held.executeBound (weather : Weather) (sql : List UInt8) (rowLimit : Option Nat) (held : Held) : Awaited × Held :=
  let (outcome, held) := held.call weather (held.rerunnable sql) (.bound sql rowLimit)
  (outcome, held.track outcome)

/-- `copy_in`: a bulk load is a write, and never sent again. -/
def Held.copyIn (weather : Weather) (sql : List UInt8) (held : Held) : Awaited × Held :=
  held.call weather false (.copyIn sql)

def Held.browse (weather : Weather) (held : Held) : Awaited × Held := held.call weather true .browse

def Held.objects (weather : Weather) (held : Held) : Awaited × Held := held.call weather true .objects

/-- `cancel_within`: the lease is marked before the server is asked. -/
def Held.cancel (held : Held) : Held :=
  { held with lease := held.lease.map fun lease => { lease with cancelled := true } }

/-- `enforce_read_only`. -/
def Held.enforceReadOnly (reply : Awaited) (held : Held) : Awaited × Held :=
  let asked := { held with sent := held.sent ++ [⟨held.session, .enforceReadOnly, reply⟩] }
  if reply = .ok then (.ok, { asked with lease := held.lease.map fun lease => { lease with readOnly := true } })
  else (reply, asked)

def Held.kind (held : Held) : Option DriverKind := held.lease.map (·.kind)

@[simp] theorem attempt_sent (reply : Awaited) (op : Op) (held : Held) :
    (held.attempt reply op).sent = held.sent ++ [⟨held.session, op, reply⟩] := rfl

@[simp] theorem returned_sent (outcome : Awaited) (held : Held) : (held.returned outcome).sent = held.sent := by
  unfold Held.returned
  split <;> rfl

@[simp] theorem track_sent (outcome : Awaited) (held : Held) : (held.track outcome).sent = held.sent := by
  unfold Held.track
  split <;> rfl

@[simp] theorem attempt_kind (reply : Awaited) (op : Op) (held : Held) : (held.attempt reply op).kind = held.kind := by
  simp only [Held.attempt, Held.kind, Option.map_map]
  rfl

@[simp] theorem returned_kind (outcome : Awaited) (held : Held) : (held.returned outcome).kind = held.kind := by
  unfold Held.returned
  split
  · rfl
  · simp only [Held.kind, Option.map_map]
    rfl

@[simp] theorem track_kind (outcome : Awaited) (held : Held) : (held.track outcome).kind = held.kind := by
  unfold Held.track
  split
  · simp only [Held.kind, Option.map_map]
    rfl
  · rfl

@[simp] theorem track_broken (outcome : Awaited) (held : Held) : (held.track outcome).broken = held.broken := by
  unfold Held.track
  split
  · rw [Held.broken, Option.any_map]
    rfl
  · rfl

theorem returned_broken {held : Held} (leased : held.lease.isSome) (lost : outcome.lost = true) :
    (held.returned outcome).broken = true := by
  obtain ⟨lease, leased⟩ := Option.isSome_iff_exists.mp leased
  unfold Held.returned
  split
  · next dropped =>
    rw [dropped] at lost
    cases lost
  · rw [Held.broken, leased]
    exact Bool.or_eq_true_iff.mpr (.inr lost)

theorem returned_first {held : Held} (went : outcome ≠ .dropped) : (held.returned outcome).first = false := by
  rw [Held.returned, if_neg went]
  cases leased : held.lease <;> simp [Held.first, LeaseState.returned]

@[simp] theorem attempt_first (reply : Awaited) (op : Op) (held : Held) :
    (held.attempt reply op).first = held.first := by
  cases leased : held.lease <;> simp [Held.attempt, Held.first, LeaseState.tried, leased]

@[simp] theorem track_first (outcome : Awaited) (held : Held) : (held.track outcome).first = held.first := by
  unfold Held.track
  split
  · cases leased : held.lease <;> simp [Held.first, leased]
  · rfl

end QueryHive.Host
