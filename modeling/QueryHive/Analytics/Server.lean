import QueryHive.Analytics.Output
import QueryHive.Library.Runs

/-! The analytics helper: the reader thread that answers the app or starts a query, the tasks
of the queries, and the writer thread at the end of one bounded channel. A query is cancelled
through the table of running queries, and a chunk the app sends is delivered through the table
of requests. Everything happens in any order; a step that has to send waits for room. -/
namespace QueryHive.Analytics.Server
open QueryHive.Library QueryHive.Analytics.Output

variable {ρ : Type}

inductive AppMessage where
  | openSession (session : Nat)
  | closeSession (session : Nat)
  | runSql (session rowCap : Nat)
  | cancel
  | chunkError (message : String)
  deriving DecidableEq, Repr

/-- What both threads and the tasks share. `queries` leads from an id to the query that runs
under it, by its place in `started`, where every query stands from its `RunSql` on. -/
structure Shared (ρ : Type) where
  sessions : List Nat := []
  queries : List (Nat × Nat) := []
  started : List (Query ρ) := []
  pending : List Nat := []
  answered : List (Nat × Except String Unit) := []
  nextRequest : Nat := 1
  channel : List (Nat × Frame ρ)
  written : List (Nat × Frame ρ) := []

def channelSize : Nat := 32

def protocolVersion : Nat := 1

/-- A helper that was just started. -/
def serve (build : String) : Shared ρ where
  channel := [(0, .hello protocolVersion build)]

namespace Shared

/-- What the helper has said: what the app can read already, and what it will read next. -/
def said (s : Shared ρ) : List (Nat × Frame ρ) := s.written ++ s.channel

/-- Send down the channel, when it has room. -/
def say (s : Shared ρ) (id : Nat) (frame : Frame ρ) : Option (Shared ρ) :=
  if s.channel.length < channelSize then some { s with channel := s.channel ++ [(id, frame)] } else none

/-- The place of the query that runs under an id. -/
def running (s : Shared ρ) (id : Nat) : Option Nat := (s.queries.find? (·.1 == id)).map (·.2)

/-- Every query with the id has had its `Done`. -/
def idle (s : Shared ρ) (id : Nat) : Bool := s.started.all fun q => q.id != id || q.phase.isDone

def noSession (session : Nat) : WireError :=
  ⟨.invalidArgument, s!"There is no open session {session}.", none⟩

def alreadyRunning : WireError := ⟨.invalidArgument, "That query id is already running.", none⟩

/-- A query that ends before it ran. -/
def refuse (s : Shared ρ) (id rowCap : Nat) (error : WireError) : Option (Shared ρ) :=
  let outcome := Outcome.failed 0 error
  let q : Query ρ := { id, rowCap, phase := .done, told := [.done outcome] }
  { s with started := s.started ++ [q] }.say id (.done outcome)

def startQuery (s : Shared ρ) (id session rowCap : Nat) : Option (Shared ρ) :=
  if session ∉ s.sessions then s.refuse id rowCap (noSession session)
  else if (s.running id).isSome then s.refuse id rowCap alreadyRunning
  else some { s with queries := s.queries ++ [(id, s.started.length)], started := s.started ++ [{ id, rowCap }] }

/-- Set the cancel flag of the query that runs under the id, if one does. -/
def cancel (s : Shared ρ) (id : Nat) : Shared ρ :=
  match s.running id with
  | none => s
  | some place => { s with started := s.started.modify place fun q => { q with cancelled := true } }

/-- Deliver an answer to whoever waits for it; nobody may. -/
def answerRequest (s : Shared ρ) (request : Nat) (answer : Except String Unit) : Shared ρ :=
  if request ∈ s.pending then
    { s with pending := s.pending.erase request, answered := s.answered ++ [(request, answer)] }
  else s

def handle (s : Shared ρ) (id : Nat) : AppMessage → Option (Shared ρ)
  | .openSession session => { s with sessions := s.sessions.insert session }.say id .ack
  | .closeSession session => { s with sessions := s.sessions.erase session }.say id .ack
  | .runSql session rowCap => s.startQuery id session rowCap
  | .cancel => some (s.cancel id)
  | .chunkError message => some (s.answerRequest id (.error message))

/-- A query's task takes a step. It leaves the table before it tells how it ended. -/
def taskStep (maxChunkBytes : Nat) (s : Shared ρ) (place : Nat) (event : Event ρ) : Option (Shared ρ) :=
  s.started[place]?.bind fun q => (q.step maxChunkBytes event).bind fun (next, frame) =>
    let s := { s with
      started := s.started.set place next
      queries := if next.phase.inTable then s.queries else s.queries.filter (·.1 != q.id) }
    match frame with
    | none => some s
    | some frame => s.say q.id frame

def fetch (s : Shared ρ) (session : Nat) (token : String) (chunk : Nat) (columns : List Nat) : Option (Shared ρ) :=
  { s with pending := s.nextRequest :: s.pending, nextRequest := s.nextRequest + 1 }.say s.nextRequest
    (.chunkRequest session token chunk columns)

end Shared

/-- What happens next: the writer writes a frame; the app's next frame is read, a control
message or a chunk that can be read or not; a task goes on; a scan asks for a chunk, or does
not wait for it any more. -/
inductive Action (ρ : Type) where
  | write
  | control (id : Nat) (message : AppMessage)
  | chunk (id : Nat) (readable : Bool)
  | task (place : Nat) (event : Event ρ)
  | fetch (session : Nat) (token : String) (chunk : Nat) (columns : List Nat)
  | forget (request : Nat)

def unreadable : String := "the app sent a chunk that could not be read"

/-- One step of the helper. The app runs a statement under an id that no running query has. -/
def step (maxChunkBytes : Nat) (s : Shared ρ) : Action ρ → Option (Shared ρ)
  | .write =>
    match s.channel with
    | [] => none
    | frame :: rest => some { s with channel := rest, written := s.written ++ [frame] }
  | .control id (.runSql session rowCap) => if s.idle id then s.handle id (.runSql session rowCap) else none
  | .control id message => s.handle id message
  | .chunk id readable => some (s.answerRequest id (if readable then .ok () else .error unreadable))
  | .task place event => s.taskStep maxChunkBytes place event
  | .fetch session token chunk columns => s.fetch session token chunk columns
  | .forget request => some { s with pending := s.pending.erase request }

/-- The helper after a run of steps. -/
def serving (maxChunkBytes : Nat) (build : String) (actions : List (Action ρ)) : Option (Shared ρ) :=
  Runs.run (step maxChunkBytes) (serve build) actions

end QueryHive.Analytics.Server
