import QueryHive.Library.Cuts

/-! A query's output in the analytics helper: what the query's task does from the plan of its
statement to its `Done`. A batch of the stream is cut at the row cap and then into pieces, a
piece is one `Batch` frame, and the rows are counted when every piece of the batch was sent.
The stream is any sequence of batches, with an end, an error or a panic anywhere. -/
namespace QueryHive.Analytics.Output
open QueryHive.Library

inductive ErrorKind where
  | invalidArgument | tooLarge | spill | internal
  deriving DecidableEq, Repr

structure Position where
  line : Nat
  column : Nat
  deriving DecidableEq, Repr

structure WireError where
  kind : ErrorKind
  message : String
  position : Option Position := none
  deriving DecidableEq, Repr

structure WireColumn where
  name : String
  typeName : String
  deriving DecidableEq, Repr

/-- How a query ended: the content of the `Done` message. -/
structure Outcome where
  rows : Nat
  truncated : Bool := false
  cancelled : Bool := false
  error : Option WireError := none
  deriving DecidableEq, Repr

def Outcome.failed (rows : Nat) (error : WireError) : Outcome := { rows, error := some error }

/-- What the helper says. A `batch` frame is one piece of a batch, in store encodings. -/
inductive Frame (ρ : Type) where
  | hello (protocol : Nat) (build : String)
  | ack
  | failed (error : WireError)
  | chunkRequest (session : Nat) (token : String) (chunk : Nat) (columns : List Nat)
  | resultColumns (columns : List WireColumn)
  | batch (rows : List ρ)
  | progress (rows : Nat)
  | done (outcome : Outcome)
  deriving DecidableEq, Repr

variable {ρ : Type}

/-- The frames the helper says about a query; the id of any other is no query's. -/
def Frame.ofQuery : Frame ρ → Bool
  | resultColumns _ | batch _ | progress _ | done _ => true
  | _ => false

def outputChunkRows : Nat := 65536

def outputChunkBytes : Nat := 2 * 1024 * 1024

/-- Rows of one piece of a batch that takes `memory` bytes. -/
def splitStep (rows memory : Nat) : Nat := max 1 (min (outputChunkBytes / max (memory / rows) 1) outputChunkRows)

def split (rows : List ρ) (memory : Nat) : List (List ρ) :=
  if rows.isEmpty then [] else Cuts.pieces (splitStep rows.length memory) rows

theorem splitStep_pos (rows memory : Nat) : 0 < splitStep rows memory := by
  unfold splitStep
  omega

theorem splitStep_le (rows memory : Nat) : splitStep rows memory ≤ outputChunkRows := by
  unfold splitStep outputChunkRows
  omega

theorem split_flatten (rows : List ρ) (memory : Nat) : (split rows memory).flatten = rows := by
  unfold split
  split
  · rename_i empty
    exact (List.isEmpty_iff.mp empty).symm
  · exact Cuts.flatten_pieces rows (splitStep_pos _ _)

theorem length_of_mem_split (member : piece ∈ split rows memory) : piece.length ≤ outputChunkRows := by
  unfold split at member
  split at member
  · exact absurd member List.not_mem_nil
  · exact Nat.le_trans (Cuts.length_of_mem_pieces rows member) (splitStep_le _ _)

/-- What the stream gives. The memory is that of the batch as it is split. -/
inductive Next (ρ : Type) where
  | ended
  | failed (error : WireError)
  | batch (rows : List ρ) (memory : Nat)

/-- What became of a piece on its way to a payload. -/
inductive Encoded where
  | payload (length : Nat)
  | refused (error : WireError)
  | stopped (join : String)
  deriving DecidableEq, Repr

/-- Where the task is. In the loop of `pump` it has sent `rows`; while it sends the pieces of
a batch of `total` rows it has not counted them. `ended` is what `run_query` returns, and the
query is taken out of the table before it is told. -/
inductive Phase (ρ : Type) where
  | planning
  | opening (columns : List WireColumn)
  | looping (rows : Nat)
  | waiting (rows : Nat)
  | sending (rows total : Nat) (pieces : List (List ρ)) (cut : Bool)
  | ended (outcome : Outcome)
  | leaving (outcome : Outcome)
  | done

def Phase.isDone : Phase ρ → Bool
  | done => true
  | _ => false

/-- Inside `run_query`, where a panic is caught. -/
def Phase.inQuery : Phase ρ → Bool
  | planning | opening _ | looping _ | waiting _ | sending .. => true
  | _ => false

/-- Whether the table of running queries has the query. -/
def Phase.inTable : Phase ρ → Bool
  | leaving _ | done => false
  | _ => true

/-- A query. Beside the task stand what the helper said about it, the rows its stream has given
so far and whether the stream ended. -/
structure Query (ρ : Type) where
  id : Nat
  rowCap : Nat
  cancelled : Bool := false
  phase : Phase ρ := .planning
  told : List (Frame ρ) := []
  produced : List ρ := []
  exhausted : Bool := false

/-- What happens to a task. `poll` is the top of the loop and `wake` a cancel while it waits
for the stream. -/
inductive Event (ρ : Type) where
  | planned (stream : Except WireError (List WireColumn))
  | columns
  | poll
  | wake
  | next (given : Next ρ)
  | piece (encoded : Encoded)
  | counted (progressDue : Bool)
  | panics
  | leave
  | tell

namespace Query

def goes (q : Query ρ) (phase : Phase ρ) : Query ρ × Option (Frame ρ) := ({ q with phase }, none)

/-- The task says something and goes on. -/
def speaks (q : Query ρ) (frame : Frame ρ) (phase : Phase ρ) : Query ρ × Option (Frame ρ) :=
  ({ q with phase, told := q.told ++ [frame] }, some frame)

def finish (q : Query ρ) (outcome : Outcome) : Query ρ × Option (Frame ρ) := q.goes (.ended outcome)

def internalError : WireError := ⟨.internal, "The analytics component hit an internal error.", none⟩

def tooLargeError : WireError :=
  ⟨.tooLarge, "A row of this result is larger than the analytics component can send.", none⟩

def stoppedError (join : String) : WireError := ⟨.internal, "the output conversion stopped: " ++ join, none⟩

/-- One turn of the loop of `pump`, with what the stream gave. -/
def receive (q : Query ρ) (rows : Nat) : Next ρ → Query ρ × Option (Frame ρ)
  | .ended => { q with exhausted := true }.finish { rows }
  | .failed error => q.finish (.failed rows error)
  | .batch given memory =>
    let q := { q with produced := q.produced ++ given }
    if given.isEmpty then q.goes (.looping rows)
    else
      let room := q.rowCap - rows
      -- At the cap already: a row exists beyond it, so the result was cut.
      if room = 0 then q.finish { rows, truncated := true }
      else
        let kept := given.take room
        q.goes (.sending rows kept.length (split kept memory) (room < given.length))

def sendPiece (q : Query ρ) (maxChunkBytes rows total : Nat) (piece : List ρ) (rest : List (List ρ)) (cut : Bool) :
    Encoded → Query ρ × Option (Frame ρ)
  | .refused error => q.finish (.failed rows error)
  | .stopped join => q.finish (.failed rows (stoppedError join))
  | .payload length =>
    if maxChunkBytes < length then q.finish (.failed rows tooLargeError)
    else q.speaks (.batch piece) (.sending rows total rest cut)

/-- After the last piece of a batch. -/
def count (q : Query ρ) (rows : Nat) (cut progressDue : Bool) : Query ρ × Option (Frame ρ) :=
  if cut then q.finish { rows, truncated := true }
  else if progressDue then q.speaks (.progress rows) (.looping rows)
  else q.goes (.looping rows)

def step (maxChunkBytes : Nat) (q : Query ρ) (event : Event ρ) : Option (Query ρ × Option (Frame ρ)) :=
  match q.phase, event with
  | .planning, .planned (.error error) => some (q.finish (.failed 0 error))
  | .planning, .planned (.ok columns) => some (q.goes (.opening columns))
  | .opening columns, .columns => some (q.speaks (.resultColumns columns) (.looping 0))
  | .looping rows, .poll =>
    some (if q.cancelled then q.finish { rows, cancelled := true } else q.goes (.waiting rows))
  | .waiting rows, .wake => if q.cancelled then some (q.finish { rows, cancelled := true }) else none
  | .waiting rows, .next given => some (q.receive rows given)
  | .sending rows total (piece :: rest) cut, .piece encoded =>
    some (q.sendPiece maxChunkBytes rows total piece rest cut encoded)
  | .sending rows total [] cut, .counted progressDue => some (q.count (rows + total) cut progressDue)
  | .ended outcome, .leave => some (q.goes (.leaving outcome))
  | .leaving outcome, .tell => some (q.speaks (.done outcome) .done)
  | phase, .panics => if phase.inQuery then some (q.finish (.failed 0 internalError)) else none
  | _, _ => none

/-- What a step of a task can be, one case for each branch. -/
inductive Turn (maxChunkBytes : Nat) (q : Query ρ) : Event ρ → Query ρ × Option (Frame ρ) → Prop where
  | refused (phase : q.phase = .planning) : Turn maxChunkBytes q (.planned (.error error)) (q.finish (.failed 0 error))
  | planned (phase : q.phase = .planning) : Turn maxChunkBytes q (.planned (.ok columns)) (q.goes (.opening columns))
  | opened (phase : q.phase = .opening columns) :
      Turn maxChunkBytes q .columns (q.speaks (.resultColumns columns) (.looping 0))
  | polledCancel (phase : q.phase = .looping rows) (asked : q.cancelled = true) :
      Turn maxChunkBytes q .poll (q.finish { rows, cancelled := true })
  | polled (phase : q.phase = .looping rows) : Turn maxChunkBytes q .poll (q.goes (.waiting rows))
  | woken (phase : q.phase = .waiting rows) (asked : q.cancelled = true) :
      Turn maxChunkBytes q .wake (q.finish { rows, cancelled := true })
  | received (phase : q.phase = .waiting rows) : Turn maxChunkBytes q (.next given) (q.receive rows given)
  | piece (phase : q.phase = .sending rows total (piece :: later) cut) :
      Turn maxChunkBytes q (.piece encoded) (q.sendPiece maxChunkBytes rows total piece later cut encoded)
  | counted (phase : q.phase = .sending rows total [] cut) :
      Turn maxChunkBytes q (.counted progressDue) (q.count (rows + total) cut progressDue)
  | left (phase : q.phase = .ended outcome) : Turn maxChunkBytes q .leave (q.goes (.leaving outcome))
  | told (phase : q.phase = .leaving outcome) : Turn maxChunkBytes q .tell (q.speaks (.done outcome) .done)
  | panicked (inside : q.phase.inQuery = true) : Turn maxChunkBytes q .panics (q.finish (.failed 0 internalError))

theorem step_turn {q : Query ρ} (stepped : q.step maxChunkBytes event = some result) :
    Turn maxChunkBytes q event result := by
  unfold step at stepped
  split at stepped
  case h_4 =>
    cases stepped
    split
    · exact .polledCancel ‹_› ‹_›
    · exact .polled ‹_›
  case h_5 =>
    split at stepped <;> cases stepped
    exact .woken ‹_› ‹_›
  case h_11 =>
    split at stepped <;> cases stepped
    exact .panicked ‹_›
  all_goals cases stepped
  · exact .refused ‹_›
  · exact .planned ‹_›
  · exact .opened ‹_›
  · exact .received ‹_›
  · exact .piece ‹_›
  · exact .counted ‹_›
  · exact .left ‹_›
  · exact .told ‹_›

end Query

end QueryHive.Analytics.Output
