import QueryHive.Host.Lease
import QueryHive.Library.Shares

/-! The session pool: one entry per connection identity, its idle sessions, what is lent
per lane and what is on its way back. Every future and task of the pool is a party; a
step is one lock-protected section or the end of one await of one party, so a run is any
interleaving of them. -/
namespace QueryHive.Host.Pool
open QueryHive.Core QueryHive.Host

/-- Which class of work a session was borrowed for. -/
inductive Lane where
  | query | metadata
  deriving DecidableEq, Repr

def querySessions : Nat := 2
def metadataSessions : Nat := 1
def idleMax : Nat := 3

def Lane.cap : Lane → Nat
  | .query => querySessions
  | .metadata => metadataSessions

/-- What separates one pooled connection from another, without the credentials: the
driver, whether a tunnel is described, and the other parts. -/
structure Identity (ι : Type) where
  kind : DriverKind
  tunnel : Bool
  parts : ι
  deriving DecidableEq, Repr

structure PoolKey (ι κ : Type) where
  identity : Identity ι
  credential : κ
  deriving DecidableEq, Repr

/-- A connection config and its settings: the key they make, and the context. -/
structure Config (ι κ : Type) where
  key : PoolKey ι κ
  context : Context
  deriving DecidableEq, Repr

/-- `Tracked`: a cursor that notes whether the server saw its result through. -/
structure Tracked where
  rowLimit : Option Nat
  delivered : Nat := 0
  clean : Bool := false
  deriving DecidableEq, Repr

/-- What a driver's cursor answers. -/
inductive Answer where
  | batch (rows : Nat)
  | none
  | failed (error : EngineError)
  deriving DecidableEq, Repr

def fromServer (error : EngineError) : Bool :=
  error.code.isSome || match error with
    | .timeout _ _ => true
    | _ => false

/-- `next_batch`. -/
def Tracked.nextBatch (answer : Answer) (cursor : Tracked) : Tracked :=
  match answer with
  | .batch rows => { cursor with delivered := cursor.delivered + rows }
  | .none => { cursor with clean := cursor.clean || cursor.rowLimit.all (cursor.delivered < ·) }
  | .failed error => { cursor with clean := cursor.clean || fromServer error }

/-- A cursor, and all that the driver has answered on it. -/
structure Reading where
  tracked : Tracked
  answers : List Answer := []
  deriving DecidableEq, Repr

def Reading.nextBatch (answer : Answer) (reading : Reading) : Reading :=
  ⟨reading.tracked.nextBatch answer, reading.answers ++ [answer]⟩

/-- A failure that the server did not send, which proves nothing about the stream. -/
def Reading.lost (reading : Reading) : Bool :=
  reading.answers.any fun
    | .failed error => !fromServer error
    | _ => false

/-- What became of a session since it was last lent, as its borrower knows it. -/
structure Past where
  cancelled : Bool := false
  broken : Bool := false
  callDropped : Bool := false
  cursors : List Reading := []
  resetOk : Bool := false
  deriving DecidableEq, Repr

/-- What the pool does with a session that comes back. -/
inductive Fate where
  | reset | discard | discardAndRefill
  deriving DecidableEq, Repr

/-- `LeaseState::fate`. -/
def fate (lease : LeaseState) : Fate :=
  if lease.cancelled || lease.broken || lease.unsettled then .discard
  else if lease.kind = .postgres && (lease.dirty || lease.leftOpen) then .discardAndRefill
  else .reset

/-- A session, with the key it was opened for and, once it was lent, what became of it. -/
structure Session (ι κ : Type) where
  id : Nat
  key : PoolKey ι κ
  past : Option Past := none
  deriving DecidableEq, Repr

/-- A session and the tunnel it rides on. -/
structure Ride (ι κ : Type) where
  session : Session ι κ
  tunnel : Option Nat
  deriving DecidableEq, Repr

/-- A session in the idle list, and when it came there. -/
structure Idle (ι κ : Type) where
  ride : Ride ι κ
  since : Nat
  deriving DecidableEq, Repr

/-- A `Held` with a lease: it holds the entry, one count of a lane, and the session. -/
structure Lent (ι κ : Type) where
  entry : Nat
  lane : Lane
  config : Config ι κ
  held : Held
  key : PoolKey ι κ
  tunnel : Option Nat
  past : Past := {}
  deriving DecidableEq, Repr

/-- Whether a call may be sent again. -/
def again (op : Op) (held : Held) : Bool :=
  match op with
  | .execute sql _ | .bound sql _ => held.rerunnable sql
  | .browse | .objects => true
  | .copyIn _ | .enforceReadOnly => false

/-- Whether a call opens a replacement connection. -/
def reopens (weather : Weather) (op : Op) (held : Held) : Bool :=
  again op held && (held.broken || held.first && weather.first.unsent)

/-- A session's calls. -/
def perform (weather : Weather) (op : Op) (held : Held) : Awaited × Held :=
  match op with
  | .execute sql limit => held.execute weather sql limit
  | .bound sql limit => held.executeBound weather sql limit
  | .copyIn sql => held.copyIn weather sql
  | .browse => held.browse weather
  | .objects => held.objects weather
  | .enforceReadOnly => held.enforceReadOnly weather.first

def cursorOf (op : Op) (outcome : Awaited) : List Reading :=
  match op, outcome with
  | .execute _ limit, .ok | .bound _ limit, .ok => [⟨{ rowLimit := limit }, []⟩]
  | _, _ => []

/-- Whether a call on the session at hand was dropped half-way. -/
def droppedHere (held : Held) : Bool :=
  held.sent.any fun sent => sent.conn.id = held.session.id && sent.reply = .dropped

/-- One call of a borrower, when the next connection gets the number `opened` and rides
on `tunnel`. -/
def Lent.call (opened : Nat) (tunnel : Option Nat) (weather : Weather) (op : Op) (lent : Lent ι κ) : Lent ι κ :=
  let (outcome, held) := perform weather op { lent.held with next := opened, sent := [] }
  if held.session.id = lent.held.session.id then
    { lent with
      held := held
      past := { lent.past with
        broken := lent.past.broken || held.broken
        callDropped := lent.past.callDropped || droppedHere held
        cursors := lent.past.cursors ++ cursorOf op outcome } }
  else
    { lent with
      held := held, key := lent.config.key, tunnel := tunnel
      past := {
        cancelled := lent.past.cancelled
        broken := held.broken
        callDropped := droppedHere held
        cursors := cursorOf op outcome } }

/-- `reset` called by the borrower. -/
def Lent.reset (how : Awaited) (lent : Lent ι κ) : Lent ι κ :=
  { lent with past := { lent.past with callDropped := lent.past.callDropped || how = .dropped } }

/-- `cancel_within`. -/
def Lent.cancel (lent : Lent ι κ) : Lent ι κ :=
  { lent with held := lent.held.cancel, past := { lent.past with cancelled := true } }

/-- A cursor of this lease is read; the lease sees how its last one ended. -/
def Lent.read (cursor : Nat) (answer : Answer) (lent : Lent ι κ) : Lent ι κ :=
  let cursors := lent.past.cursors.modify cursor (·.nextBatch answer)
  { lent with
    held := { lent.held with
      lease := lent.held.lease.map fun lease =>
        { lease with lastCursor := cursors.getLast?.map (·.tracked.clean) } }
    past := { lent.past with cursors := cursors } }

def Lent.ride (lent : Lent ι κ) : Ride ι κ := ⟨⟨lent.held.session.id, lent.key, some lent.past⟩, lent.tunnel⟩

/-- One identity's sessions and its shared tunnel; `dialing` is the tunnel's lock, held
while a tunnel is opened. The warmest idle session is last. -/
structure Entry (ι κ : Type) where
  identity : Identity ι
  credential : κ
  idle : List (Idle ι κ) := []
  leased : Lane → Nat := fun _ => 0
  pending : Nat := 0
  retired : Bool := false
  slot : Option Nat := none
  dialing : Bool := false

def Entry.key (entry : Entry ι κ) : PoolKey ι κ := ⟨entry.identity, entry.credential⟩

/-- The clock, the numbers the next session and tunnel get, and the dead tunnels. -/
structure World where
  now : Nat := 0
  opened : Nat := 0
  tunnels : Nat := 0
  dead : List Nat := []
  deriving DecidableEq, Repr

def World.alive (world : World) (tunnel : Nat) : Bool := !world.dead.contains tunnel

def Ride.stranded (world : World) (ride : Ride ι κ) : Bool := ride.tunnel.any (!world.alive ·)

def Entry.unused (entry : Entry ι κ) : Bool := entry.leased .query = 0 && entry.leased .metadata = 0

def Entry.lease (lane : Lane) (entry : Entry ι κ) : Entry ι κ :=
  { entry with leased := Function.update entry.leased lane (entry.leased lane + 1) }

/-- `LeaseGuard::drop`. -/
def Entry.unlease (lane : Lane) (entry : Entry ι κ) : Entry ι κ :=
  { entry with leased := Function.update entry.leased lane (entry.leased lane - 1) }

/-- `PendingGuard::drop`. -/
def Entry.settle (entry : Entry ι κ) : Entry ι κ := { entry with pending := entry.pending - 1 }

/-- `into_pending`: the lease ends and its session starts going back, in one step. -/
def Entry.intoPending (lane : Lane) (entry : Entry ι κ) : Entry ι κ :=
  { entry.unlease lane with pending := entry.pending + 1 }

/-- What a checkout decides under the entry's lock. -/
inductive Take (ι κ : Type) where
  | reuse (idle : Idle ι κ)
  | open
  | wait
  deriving DecidableEq, Repr

/-- The idle sessions whose tunnel lives. -/
def Entry.swept (world : World) (entry : Entry ι κ) : Entry ι κ :=
  { entry with idle := entry.idle.filter (!·.ride.stranded world) }

/-- The checkout's section: sessions whose tunnel died are taken out, and the warmest of
the others is lent when the lane has room. -/
def Entry.look (world : World) (lane : Lane) (waited : Bool) (entry : Entry ι κ) : Entry ι κ × Take ι κ :=
  let alive := entry.swept world
  if alive.leased lane < lane.cap then
    match alive.idle.getLast? with
    | some idle => ({ alive with idle := alive.idle.dropLast }.lease lane, .reuse idle)
    | none => if !waited && 0 < alive.pending then (alive, .wait) else (alive.lease lane, .open)
  else (alive.lease lane, .open)

/-- `park`: put a session in the idle list, or hand it back when the key has enough. -/
def Entry.park (idle : Idle ι κ) (entry : Entry ι κ) : Entry ι κ × List (Idle ι κ) :=
  if entry.retired || idleMax ≤ entry.idle.length then (entry, [idle])
  else ({ entry with idle := entry.idle ++ [idle] }, [])

/-- Whether `open_idle` opens a session. -/
def Entry.wants (onlyWhenUnused : Bool) (entry : Entry ι κ) : Bool :=
  !(entry.retired || !entry.idle.isEmpty || (onlyWhenUnused && !entry.unused) || 0 < entry.pending)

/-- What a session is opened for. -/
inductive Purpose (ι κ : Type) where
  | lease (lane : Lane)
  | idle
  | replacement (lent : Lent ι κ) (weather : Weather) (op : Op)
  | unleased
  deriving DecidableEq, Repr

/-- How far `open_session` came: before the tunnel's lock, opening a tunnel under it, or
connecting. -/
inductive Phase where
  | tunnel
  | dialing
  | connecting (tunnel : Option Nat)
  deriving DecidableEq, Repr

/-- A future or a task, and where it stands: a checkout before its section, a session
being opened, a borrower, a long operation's session, a warm-up, the stages of a session
that comes back, and sessions being closed. -/
inductive Party (ι κ : Type) where
  | looking (config : Config ι κ) (entry : Nat) (lane : Lane) (waited : Bool)
  | opening (purpose : Purpose ι κ) (config : Config ι κ) (entry : Nat) (phase : Phase)
  | lent (lent : Lent ι κ)
  | unleased (session : Nat) (tunnel : Option Nat)
  | warming (config : Config ι κ) (entry : Nat)
  | returning (entry : Nat) (ride : Ride ι κ) (fate : Fate) (refill : Option (Config ι κ))
  | resetting (entry : Nat) (ride : Ride ι κ)
  | spent (entry : Nat) (ride : Ride ι κ) (refill : Option (Config ι κ))
  | parked (entry : Nat)
  | refilling (entry : Nat) (ride : Ride ι κ) (config : Config ι κ)
  | closing (rides : List (Ride ι κ))
  | evicting (expired : List (Ride ι κ))
  deriving DecidableEq, Repr

/-- What a party does next, or how its await ended. A reset that times out ended as a
failed one. -/
inductive Event where
  | go
  | ended (how : Awaited)
  | call (weather : Weather) (op : Op)
  | reset (how : Awaited)
  | cancel
  | read (cursor : Nat) (answer : Answer)
  | release
  deriving DecidableEq, Repr

/-- What one section leaves: the entry it locked, the parties the acting one went on as,
the numbers of sessions and tunnels opened, and the sessions closed and dropped. -/
structure Turn (ι κ : Type) where
  entry : Entry ι κ
  news : List (Party ι κ) := []
  opened : Nat := 0
  dialed : Nat := 0
  closed : List Nat := []
  dropped : List Nat := []

/-- `close_in_background`. -/
def closeInBackground (rides : List (Ride ι κ)) : List (Party ι κ) :=
  if rides.isEmpty then [] else [.closing rides]

/-- `Held::leased`: the session handed out, with nothing of an earlier run on it. -/
def lend (config : Config ι κ) (entry : Nat) (lane : Lane) (reused : Bool) (ride : Ride ι κ) : Party ι κ :=
  .lent {
    entry := entry, lane := lane, config := config, key := ride.session.key, tunnel := ride.tunnel
    held := {
      session := ⟨ride.session.id, config.context⟩
      lease := some { kind := config.key.identity.kind, context := config.context, reused := reused }
      next := 0 } }

/-- The section of a checkout, and what follows it without an await. -/
def look (world : World) (config : Config ι κ) (e : Nat) (lane : Lane) (waited : Bool) (entry : Entry ι κ) :
    Turn ι κ :=
  let taken := entry.look world lane waited
  let closes := closeInBackground ((entry.idle.filter (·.ride.stranded world)).map (·.ride))
  match taken.2 with
  | .reuse idle => { entry := taken.1, news := lend config e lane true idle.ride :: closes }
  | .open => { entry := taken.1, news := .opening (.lease lane) config e .tunnel :: closes }
  | .wait => { entry := taken.1, news := .looking config e lane true :: closes }

/-- The key's tunnel: the one it has when it is alive, else one to be opened under the
tunnel's lock. A dead tunnel takes the idle sessions opened through it with it. -/
def ensureTunnel (world : World) (purpose : Purpose ι κ) (config : Config ι κ) (e : Nat) (entry : Entry ι κ) :
    Option (Turn ι κ) :=
  let on (phase : Phase) : Party ι κ := .opening purpose config e phase
  if !config.key.identity.tunnel then some { entry := entry, news := [on (.connecting none)] }
  else if entry.dialing then none
  else match entry.slot with
    | none => some { entry := { entry with dialing := true }, news := [on .dialing] }
    | some tunnel =>
      if world.alive tunnel then some { entry := entry, news := [on (.connecting (some tunnel))] }
      else some {
        entry := { entry with slot := none, dialing := true, idle := [] }
        news := on .dialing :: closeInBackground (entry.idle.map (·.ride)) }

/-- `open_session` failed or was dropped. -/
def giveUp (world : World) (how : Awaited) (purpose : Purpose ι κ) (entry : Entry ι κ) : Turn ι κ :=
  match purpose with
  | .lease lane => { entry := entry.unlease lane }
  | .idle => { entry := entry.settle }
  | .replacement lent weather op =>
    { entry := entry, news := [.lent (lent.call world.opened none { weather with opens := how } op)] }
  | .unleased => { entry := entry }

/-- Put a session in the idle list; its guard is dropped after that. -/
def park (world : World) (e : Nat) (ride : Ride ι κ) (entry : Entry ι κ) : Turn ι κ :=
  let parked := entry.park ⟨ride, world.now⟩
  { entry := parked.1, news := .parked e :: closeInBackground (parked.2.map (·.ride)) }

/-- `open_session` returned the next session. -/
def connected (world : World) (purpose : Purpose ι κ) (config : Config ι κ) (e : Nat) (tunnel : Option Nat)
    (entry : Entry ι κ) : Turn ι κ :=
  let ride : Ride ι κ := ⟨⟨world.opened, config.key, none⟩, tunnel⟩
  match purpose with
  | .lease lane => { entry := entry, news := [lend config e lane false ride], opened := 1 }
  | .idle => { park world e ride entry with opened := 1 }
  | .replacement lent weather op =>
    let after := lent.call world.opened tunnel { weather with opens := .ok } op
    -- The old session is dropped, not closed; so is one that could not be made read-only.
    let lost := if after.held.session.id = lent.held.session.id then world.opened else lent.held.session.id
    { entry := entry, news := [.lent after], opened := 1, dropped := [lost] }
  | .unleased => { entry := entry, news := [.unleased world.opened tunnel], opened := 1 }

/-- `open_idle`: one session more is on its way when the key wants one. -/
def openIdle (onlyWhenUnused : Bool) (config : Config ι κ) (e : Nat) (others : List (Party ι κ)) (entry : Entry ι κ) :
    Turn ι κ :=
  if entry.wants onlyWhenUnused then
    { entry := { entry with pending := entry.pending + 1 }, news := .opening .idle config e .tunnel :: others }
  else { entry := entry, news := others }

/-- `release`: the lease's verdict is formed, and the session starts going back. -/
def release (lent : Lent ι κ) (entry : Entry ι κ) : Option (Turn ι κ) :=
  lent.held.lease.map fun lease => {
    entry := entry.intoPending lent.lane
    news := [.returning lent.entry lent.ride (fate lease)
      (if fate lease = .discardAndRefill then some lent.config else none)] }

/-- A step of a borrower. -/
def Lent.turn (world : World) (lent : Lent ι κ) (event : Event) (entry : Entry ι κ) : Option (Turn ι κ) :=
  match event with
  | .call weather op =>
    if reopens weather op lent.held then
      some { entry := entry, news := [.opening (.replacement lent weather op) lent.config lent.entry .tunnel] }
    else some { entry := entry, news := [.lent (lent.call world.opened none weather op)] }
  | .reset how => some { entry := entry, news := [.lent (lent.reset how)] }
  | .cancel => some { entry := entry, news := [.lent lent.cancel] }
  | .read cursor answer => some { entry := entry, news := [.lent (lent.read cursor answer)] }
  | .release => release lent entry
  | .go | .ended _ => none

/-- A step of `open_session`. -/
def opens (world : World) (purpose : Purpose ι κ) (config : Config ι κ) (e : Nat) (phase : Phase) (event : Event)
    (entry : Entry ι κ) : Option (Turn ι κ) :=
  match phase, event with
  | .tunnel, .go => ensureTunnel world purpose config e entry
  | .tunnel, .ended .dropped => some (giveUp world .dropped purpose entry)
  | .dialing, .ended .ok => some {
      entry := { entry with slot := some world.tunnels, dialing := false }
      news := [.opening purpose config e (.connecting (some world.tunnels))]
      dialed := 1 }
  | .dialing, .ended how => some (giveUp world how purpose { entry with dialing := false })
  | .connecting tunnel, .ended .ok => some (connected world purpose config e tunnel entry)
  | .connecting _, .ended how => some (giveUp world how purpose entry)
  | _, _ => none

def Party.turn (world : World) (party : Party ι κ) (event : Event) (entry : Entry ι κ) : Option (Turn ι κ) :=
  match party, event with
  | .looking config e lane waited, .go => some (look world config e lane waited entry)
  | .looking _ _ _ true, .ended .dropped => some { entry := entry }
  | .opening purpose config e phase, event => opens world purpose config e phase event entry
  | .lent borrower, event => borrower.turn world event entry
  | .warming config e, .go => some (openIdle true config e [] entry)
  | .returning e ride verdict refill, .go =>
    if verdict ≠ .reset || entry.retired || ride.stranded world then
      some { entry := entry, news := [.spent e ride refill] }
    else some { entry := entry, news := [.resetting e ride] }
  | .returning _ ride _ _, .ended .dropped | .resetting _ ride, .ended .dropped =>
    some { entry := entry.settle, dropped := [ride.session.id] }
  | .resetting e ride, .ended .ok =>
    some (park world e
      { ride with session := { ride.session with past := ride.session.past.map ({ · with resetOk := true }) } } entry)
  | .resetting e ride, .ended (.failed _) => some { entry := entry, news := [.spent e ride none] }
  | .spent e ride refill, .go => some {
      entry := entry.settle
      news := match refill with
        | some config => [.refilling e ride config]
        | none => [.closing [ride]] }
  | .parked _, .go => some { entry := entry.settle }
  | .refilling e ride config, .go => some (openIdle false config e [.closing [ride]] entry)
  | _, _ => none

def Party.entry : Party ι κ → Option Nat
  | looking _ e _ _ | opening _ _ e _ | warming _ e | returning e _ _ _ | resetting e _ | spent e _ _ | parked e
  | refilling e _ _ => some e
  | .lent borrower => some borrower.entry
  | unleased _ _ | closing _ | evicting _ => none

def Party.tunnels : Party ι κ → List Nat
  | opening (.replacement borrower _ _) _ _ (.connecting tunnel) => borrower.tunnel.toList ++ tunnel.toList
  | opening (.replacement borrower _ _) _ _ _ => borrower.tunnel.toList
  | opening _ _ _ (.connecting tunnel) => tunnel.toList
  | .lent borrower => borrower.tunnel.toList
  | unleased _ tunnel => tunnel.toList
  | returning _ ride _ _ | resetting _ ride | spent _ ride _ | refilling _ ride _ => ride.tunnel.toList
  | closing rides | evicting rides => rides.flatMap (·.tunnel.toList)
  | looking _ _ _ _ | opening _ _ _ _ | warming _ _ | parked _ => []

/-- The pool: its map of entries, every entry ever made, and every party; and which
sessions were handed to a close, which were dropped with their owner, and which entries
were evicted. -/
structure SessionPool (ι κ : Type) where
  world : World := {}
  map : List (Identity ι × Nat) := []
  entries : List (Entry ι κ) := []
  parties : List (Party ι κ) := []
  closed : List Nat := []
  dropped : List Nat := []
  evicted : List Nat := []

inductive Action (ι κ : Type) where
  | checkout (config : Config ι κ) (lane : Lane)
  | warm (config : Config ι κ)
  | openUnleased (config : Config ι κ)
  | evict (ttl : Nat)
  | sweep (i : Nat)
  | elapse (time : Nat)
  | tunnelDies (tunnel : Nat)
  | turn (i : Nat) (event : Event)

variable {ι κ : Type}

def SessionPool.refers (pool : SessionPool ι κ) (e : Nat) : Bool := pool.parties.any (·.entry = some e)

/-- Somebody besides its entry holds the tunnel. -/
def SessionPool.rides (pool : SessionPool ι κ) (tunnel : Nat) : Bool :=
  pool.parties.any (·.tunnels.contains tunnel) ||
    pool.entries.any fun entry => entry.idle.any (·.ride.tunnel = some tunnel)

/-- `evict`'s second look: an entry that holds nothing is forgotten, unless somebody
refers to it or uses its tunnel. -/
def SessionPool.keeps (pool : SessionPool ι κ) (e : Nat) : Bool :=
  pool.refers e || pool.entries[e]?.any fun entry =>
    !entry.idle.isEmpty || !entry.unused || 0 < entry.pending || entry.dialing || entry.slot.any pool.rides

def Idle.expired (now ttl : Nat) (idle : Idle ι κ) : Bool := ttl ≤ now - idle.since

/-- `evict`'s first look takes out what an entry of the map that nobody refers to kept
for too long. -/
def SessionPool.expires (ttl : Nat) (pool : SessionPool ι κ) (e : Nat) (idle : Idle ι κ) : Bool :=
  pool.map.any (·.2 = e) && !pool.refers e && idle.expired pool.world.now ttl

def SessionPool.evict (ttl : Nat) (pool : SessionPool ι κ) : SessionPool ι κ :=
  let expired := pool.entries.mapIdx fun e entry => entry.idle.filter (pool.expires ttl e)
  { pool with
    entries := pool.entries.mapIdx fun e entry => { entry with idle := entry.idle.filter (!pool.expires ttl e ·) }
    parties := pool.parties ++ [.evicting (expired.flatten.map (·.ride))] }

def SessionPool.sweep (i : Nat) (pool : SessionPool ι κ) : SessionPool ι κ :=
  { pool with
    map := pool.map.filter (pool.keeps ·.2)
    parties := Library.Shares.goOn pool.parties i []
    evicted := pool.evicted ++ (pool.map.filter (!pool.keeps ·.2)).map (·.2) }

/-- A step of a party that refers to no entry: the parties it goes on as, and the
sessions it closes and drops. -/
def Party.aside (party : Party ι κ) (event : Event) : Option (List (Party ι κ) × List Nat × List Nat) :=
  match party, event with
  | .unleased session _, .release => some ([], [session], [])
  | .unleased session _, .ended .dropped => some ([], [], [session])
  | .closing (ride :: rest), .go => some (closeInBackground rest, [ride.session.id], [])
  | .evicting (ride :: rest), .go => some ([.evicting rest], [ride.session.id], [])
  | .closing rides, .ended .dropped | .evicting rides, .ended .dropped => some ([], [], rides.map (·.session.id))
  | _, _ => none

def SessionPool.turn (i : Nat) (event : Event) (pool : SessionPool ι κ) : Option (SessionPool ι κ) :=
  pool.parties[i]?.bind fun party =>
    match party.entry with
    | some e => pool.entries[e]?.bind fun entry => (party.turn pool.world event entry).map fun turn =>
        { pool with
          world := { pool.world with
            opened := pool.world.opened + turn.opened, tunnels := pool.world.tunnels + turn.dialed }
          entries := pool.entries.set e turn.entry
          parties := Library.Shares.goOn pool.parties i turn.news
          closed := pool.closed ++ turn.closed
          dropped := pool.dropped ++ turn.dropped }
    | none => (party.aside event).map fun (news, closed, dropped) =>
        { pool with
          parties := Library.Shares.goOn pool.parties i news
          closed := pool.closed ++ closed
          dropped := pool.dropped ++ dropped }

variable [DecidableEq ι] [DecidableEq κ]

/-- A new entry for a key, in the place of any other of its identity. -/
def SessionPool.insert (key : PoolKey ι κ) (pool : SessionPool ι κ) : SessionPool ι κ :=
  { pool with
    map := (key.identity, pool.entries.length) :: pool.map.filter (·.1 ≠ key.identity)
    entries := pool.entries ++ [{ identity := key.identity, credential := key.credential }] }

/-- An entry whose credential changed: its idle sessions are closed now. -/
def SessionPool.retire (e : Nat) (entry : Entry ι κ) (pool : SessionPool ι κ) : SessionPool ι κ :=
  { pool with
    entries := pool.entries.set e { entry with retired := true, idle := [] }
    parties := pool.parties ++ closeInBackground (entry.idle.map (·.ride)) }

def SessionPool.find (identity : Identity ι) (pool : SessionPool ι κ) : Option (Nat × Entry ι κ) :=
  (pool.map.find? (·.1 = identity)).bind fun slot => pool.entries[slot.2]?.map fun entry => (slot.2, entry)

/-- `entry_for`: the entry of a key, and what it takes to have it. A key with another
credential retires the entry that is there. -/
def SessionPool.entryFor (key : PoolKey ι κ) (pool : SessionPool ι κ) : Nat × SessionPool ι κ :=
  match pool.find key.identity with
  | none => (pool.entries.length, pool.insert key)
  | some (e, entry) =>
    if entry.credential = key.credential then (e, pool)
    else (pool.entries.length, (pool.retire e entry).insert key)

def SessionPool.arrive (key : PoolKey ι κ) (party : Nat → Party ι κ) (pool : SessionPool ι κ) : SessionPool ι κ :=
  let (e, after) := pool.entryFor key
  { after with parties := after.parties ++ [party e] }

def SessionPool.step (pool : SessionPool ι κ) : Action ι κ → Option (SessionPool ι κ)
  | .checkout config lane => some (pool.arrive config.key (.looking config · lane false))
  | .warm config => some (pool.arrive config.key (.warming config ·))
  | .openUnleased config => some (pool.arrive config.key (.opening .unleased config · .tunnel))
  | .evict ttl => some (pool.evict ttl)
  | .sweep i => if pool.parties[i]? = some (.evicting []) then some (pool.sweep i) else none
  | .elapse time => some { pool with world := { pool.world with now := pool.world.now + time } }
  | .tunnelDies tunnel => some { pool with world := { pool.world with dead := tunnel :: pool.world.dead } }
  | .turn i event => pool.turn i event

end QueryHive.Host.Pool
