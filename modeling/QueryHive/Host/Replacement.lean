import QueryHive.Host.Lease
import QueryHive.Library.History
import QueryHive.Library.Runs

/-! What a statement runs inside when the lease replaces its connection. The calls
handed to drivers are a history; each call of it is checked against those before it:
the open transaction's connection, the read-only setting, the context, and the
connections that were lost. -/
namespace QueryHive.Host
open QueryHive.Core QueryHive.Sql QueryHive.Sql.Byte QueryHive.Library.History QueryHive.Library.Runs

/-- A call on a leased session. -/
inductive Call where
  | execute (sql : List UInt8) (rowLimit : Option Nat) (weather : Weather)
  | executeBound (sql : List UInt8) (rowLimit : Option Nat) (weather : Weather)
  | copyIn (sql : List UInt8) (weather : Weather)
  | browse (weather : Weather)
  | objects (weather : Weather)
  | cancel
  | enforceReadOnly (reply : Awaited)

def call (held : Held) : Call → Option Held
  | .execute sql rowLimit weather => some (held.execute weather sql rowLimit).2
  | .executeBound sql rowLimit weather => some (held.executeBound weather sql rowLimit).2
  | .copyIn sql weather => some (held.copyIn weather sql).2
  | .browse weather => some (held.browse weather).2
  | .objects weather => some (held.objects weather).2
  | .cancel => some held.cancel
  | .enforceReadOnly reply => some (held.enforceReadOnly reply).2

def endsTransaction (sql : List UInt8) : Bool :=
  [ofAscii "COMMIT", ofAscii "ROLLBACK"].any (eqIgnoreAsciiCase (trim sql))

/-- A session as checkout lends it. -/
def lent (kind : DriverKind) (context : Context) (reused : Bool) (id : Nat) : Held :=
  { session := ⟨id, context⟩, lease := some { kind := kind, context := context, reused := reused }, next := id + 1 }

def Op.text : Op → Option (List UInt8)
  | execute sql _ | bound sql _ => some sql
  | _ => none

section
-- The statements that open and that end a transaction.
variable (opens ends : List UInt8 → Bool)

/-- The connection of the open transaction after one more call. -/
def insideAfter (inside : Option Nat) (sent : Sent) : Option Nat :=
  match sent.op.text with
  | some sql =>
    if sent.reply ≠ .ok then inside
    else if opens sql then some sent.conn.id
    else if ends sql then none
    else inside
  | none => inside

/-- The connection that ran the BEGIN of the transaction that is open. -/
def openOn (history : List Sent) : Option Nat := history.foldl (insideAfter opens ends) none

def Sent.enforced (sent : Sent) : Prop := sent.op = .enforceReadOnly ∧ sent.reply = .ok

/-- The session was made read-only. -/
def asked (history : List Sent) : Prop := ∃ sent ∈ history, sent.enforced

/-- The session was made read-only on this connection. -/
def askedOn (id : Nat) (history : List Sent) : Prop := ∃ sent ∈ history, sent.enforced ∧ sent.conn.id = id

/-- A call in its place: in the open transaction's connection, read-only if that was
asked, in the lease's context, on no connection known to be lost. -/
structure Placed (context : Context) (before : List Sent) (sent : Sent) : Prop where
  inside : ∀ conn ∈ openOn opens ends before, sent.conn.id = conn
  readOnly : asked before → sent.op ≠ .enforceReadOnly → askedOn sent.conn.id before
  context : sent.conn.context = context
  alive : ∀ earlier ∈ before, earlier.reply.lost = true → earlier.conn.id ≠ sent.conn.id

/-- Every call of a history is in its place. -/
def Kept (context : Context) (history : List Sent) : Prop := Each (Placed opens ends context) history

/-- The calls that keep it: on a lost connection nothing that may be sent again is
called while a transaction is open, unless no replacement can be had; and the session
is not made read-only on a lost connection, or in losing it. -/
def Careful (held : Held) : Call → Prop
  | .execute sql _ weather | .executeBound sql _ weather =>
    held.broken = true → held.rerunnable sql = true → (openOn opens ends held.sent).isSome → weather.opens ≠ .ok
  | .browse weather | .objects weather =>
    held.broken = true → (openOn opens ends held.sent).isSome → weather.opens ≠ .ok
  | .copyIn _ _ | .cancel => True
  | .enforceReadOnly reply => held.broken = false ∧ reply.lost = false

instance decidableCareful (held : Held) : (call : Call) → Decidable (Careful opens ends held call)
  | .execute sql _ weather | .executeBound sql _ weather =>
    inferInstanceAs (Decidable (held.broken = true → held.rerunnable sql = true →
      (openOn opens ends held.sent).isSome → weather.opens ≠ .ok))
  | .browse weather | .objects weather =>
    inferInstanceAs (Decidable (held.broken = true → (openOn opens ends held.sent).isSome → weather.opens ≠ .ok))
  | .copyIn _ _ | .cancel => inferInstanceAs (Decidable True)
  | .enforceReadOnly reply => inferInstanceAs (Decidable (held.broken = false ∧ reply.lost = false))

end

variable {opens ends : List UInt8 → Bool}

theorem openOn_concat (history : List Sent) (sent : Sent) :
    openOn opens ends (history ++ [sent]) = insideAfter opens ends (openOn opens ends history) sent := by
  rw [openOn, List.foldl_concat]
  rfl

theorem insideAfter_failed (failed : sent.reply ≠ .ok) : insideAfter opens ends inside sent = inside := by
  unfold insideAfter
  split
  · rw [if_pos failed]
  · rfl

theorem asked_concat (history : List Sent) (sent : Sent) :
    asked (history ++ [sent]) ↔ asked history ∨ sent.enforced := by
  simp only [asked, List.mem_append, List.mem_singleton, or_and_right, exists_or, exists_eq_left]

theorem askedOn_concat (id : Nat) (history : List Sent) (sent : Sent) :
    askedOn id (history ++ [sent]) ↔ askedOn id history ∨ sent.enforced ∧ sent.conn.id = id := by
  simp only [askedOn, List.mem_append, List.mem_singleton, or_and_right, exists_or, exists_eq_left]

/-- What a lease knows of its history. -/
structure Fits (context : Context) (history : List Sent) (id : Nat) (lease : LeaseState) : Prop where
  context : lease.context = context
  readOnly : lease.readOnly = true ↔ asked history
  current : lease.readOnly = true → askedOn id history

/-- What holds while a call runs. -/
structure Basic (opens ends : List UInt8 → Bool) (context : Context) (held : Held) : Prop where
  leased : ∃ lease, held.lease = some lease ∧ Fits context held.sent held.session.id lease
  history : Kept opens ends context held.sent
  current : held.session.context = context ∧ held.session.id < held.next
  known : ∀ sent ∈ held.sent, sent.conn.id < held.next

/-- What holds between calls. -/
structure Sound (opens ends : List UInt8 → Bool) (context : Context) (held : Held) : Prop
    extends Basic opens ends context held where
  inside : ∀ conn ∈ openOn opens ends held.sent, held.session.id = conn
  untried : held.first = true → openOn opens ends held.sent = none
  alive : ∀ sent ∈ held.sent, sent.reply.lost = true → sent.conn.id = held.session.id → held.broken = true

theorem lent_sound (kind : DriverKind) (context : Context) (reused : Bool) (id : Nat) :
    Sound opens ends context (lent kind context reused id) where
  leased := ⟨_, rfl, rfl, by simp [lent, asked], fun no => by cases no⟩
  history := each_nil
  current := ⟨rfl, Nat.lt_succ_self id⟩
  known _ inside := absurd inside List.not_mem_nil
  inside _ some' := by cases some'
  untried _ := rfl
  alive _ inside := absurd inside List.not_mem_nil

/-- A call handed to the session of a lease whose connection is there is in its place. -/
theorem Sound.placed (sound : Sound opens ends context held) (there : held.broken = false) (op : Op) (reply : Awaited) :
    Placed opens ends context held.sent ⟨held.session, op, reply⟩ where
  inside := sound.inside
  readOnly asked _ := by
    obtain ⟨lease, -, fits⟩ := sound.leased
    exact fits.current (fits.readOnly.mpr asked)
  context := sound.current.1
  alive earlier inside lost same := by
    have broken := sound.alive earlier inside lost same
    rw [there] at broken
    cases broken

/-- Handing over a call that sets nothing up keeps what holds while a call runs. -/
theorem Sound.attempt (sound : Sound opens ends context held) (there : held.broken = false) (op : Op)
    (other : op ≠ .enforceReadOnly) (reply : Awaited) : Basic opens ends context (held.attempt reply op) := by
  obtain ⟨lease, leased, fits⟩ := sound.leased
  have plain : ¬Sent.enforced ⟨held.session, op, reply⟩ := fun enforced => other enforced.1
  refine ⟨⟨lease.tried reply, by rw [Held.attempt, leased]; rfl, fits.context, ?_, fun readOnly => ?_⟩,
    sound.history.concat (sound.placed there op reply), sound.current, ?_⟩
  · rw [Held.attempt, asked_concat, or_iff_left plain]
    exact fits.readOnly
  · rw [Held.attempt, askedOn_concat]
    exact .inl (fits.current readOnly)
  · intro sent inside
    obtain before | last := List.mem_append.mp inside
    · exact sound.known sent before
    · rw [List.mem_singleton.mp last]
      exact sound.current.2

theorem insideAfter_on (held : Held) (op : Op) (reply : Awaited)
    (inside : ∀ conn ∈ openOn opens ends held.sent, held.session.id = conn) :
    ∀ conn ∈ openOn opens ends (held.attempt reply op).sent, held.session.id = conn := by
  rw [Held.attempt, openOn_concat]
  unfold insideAfter
  split
  · split
    · exact inside
    · split
      · exact fun conn same => Option.some.inj same
      · split
        · exact fun conn none' => by cases none'
        · exact inside
  · exact inside

/-- A call that is handed over once keeps what holds between calls. -/
theorem Sound.once (sound : Sound opens ends context held) (there : held.broken = false) (op : Op)
    (other : op ≠ .enforceReadOnly) (reply : Awaited) :
    Sound opens ends context ((held.attempt reply op).returned reply) := by
  have basic := sound.attempt there op other reply
  obtain ⟨lease, leased, fits⟩ := basic.leased
  have inside := insideAfter_on held op reply sound.inside
  by_cases dropped : reply = .dropped
  · rw [Held.returned, if_pos dropped]
    refine ⟨basic, inside, fun first => ?_, fun sent member lost same => ?_⟩
    · rw [attempt_first] at first
      rw [attempt_sent, openOn_concat, insideAfter_failed (by rw [dropped]; simp)]
      exact sound.untried first
    · obtain before | last := List.mem_append.mp member
      · exact absurd (sound.alive sent before lost same) (by simp [there])
      · rw [List.mem_singleton.mp last, dropped] at lost
        cases lost
  · have gone : ((held.attempt reply op).returned reply).first = false := returned_first dropped
    rw [Held.returned, if_neg dropped] at gone ⊢
    refine ⟨⟨⟨lease.returned reply, by rw [leased]; rfl, fits.context, fits.readOnly, fits.current⟩, basic.history,
      basic.current, basic.known⟩, inside, fun first => ?_, fun sent member lost same => ?_⟩
    · exact absurd (first.symm.trans gone) (by decide)
    · obtain before | last := List.mem_append.mp member
      · exact absurd (sound.alive sent before lost same) (by simp [there])
      · rw [List.mem_singleton.mp last] at lost
        rw [Held.broken, leased]
        exact Bool.or_eq_true_iff.mpr (.inr lost)

theorem reconnect_refused {held : Held} {weather : Weather} (leased : held.lease = some lease)
    (refused : weather.opens ≠ .ok) :
    held.reconnect weather = (weather.opens, { held with lease := some { lease with broken := true } }) := by
  unfold Held.reconnect
  rw [leased]
  cases opens' : weather.opens with
  | ok => exact absurd opens' refused
  | dropped => rfl
  | failed error => rfl

/-- A note on the lease that leaves its setup alone keeps what holds between calls. -/
theorem Sound.noted (sound : Sound opens ends context held) (note : LeaseState → LeaseState)
    (setup : ∀ lease, (note lease).context = lease.context ∧ (note lease).readOnly = lease.readOnly)
    (tries : ∀ lease, (note lease).reused = lease.reused ∧ (note lease).executed = lease.executed)
    (loss : ∀ lease, lease.broken = true → (note lease).broken = true) :
    Sound opens ends context { held with lease := held.lease.map note } := by
  obtain ⟨lease, leased, fits⟩ := sound.leased
  refine ⟨⟨⟨note lease, by rw [leased]; rfl, ?_, ?_, fun set => ?_⟩, sound.history, sound.current, sound.known⟩,
    sound.inside, fun first => sound.untried ?_, fun sent inside lost same => ?_⟩
  · rw [(setup lease).1]
    exact fits.context
  · rw [(setup lease).2]
    exact fits.readOnly
  · rw [(setup lease).2] at set
    exact fits.current set
  · rw [Held.first, leased, Option.map_some, Option.any_some, (tries lease).1, (tries lease).2] at first
    rw [Held.first, leased]
    exact first
  · have broken := sound.alive sent inside lost same
    rw [Held.broken, leased] at broken ⊢
    exact loss lease broken

theorem Sound.marked (sound : Sound opens ends context held) (leased : held.lease = some lease) :
    Sound opens ends context { held with lease := some { lease with broken := true } } := by
  have noted := sound.noted (fun lease => { lease with broken := true }) (fun _ => ⟨rfl, rfl⟩) (fun _ => ⟨rfl, rfl⟩)
    (fun _ _ => rfl)
  rw [leased] at noted
  exact noted

/-- A replacement outside any transaction leaves a session that is sound, and there if
it was made. -/
theorem Basic.reconnect (basic : Basic opens ends context held) (outside : openOn opens ends held.sent = none)
    (weather : Weather) :
    Sound opens ends context (held.reconnect weather).2 ∧
      ((held.reconnect weather).1 = .ok → (held.reconnect weather).2.broken = false) ∧
      openOn opens ends (held.reconnect weather).2.sent = none := by
  obtain ⟨lease, leased, fits⟩ := basic.leased
  have nowhere : ∀ {id : Nat}, ∀ conn ∈ openOn opens ends held.sent, id = conn := fun conn some' => by
    rw [outside] at some'
    cases some'
  unfold Held.reconnect
  rw [leased]
  have marked : Sound opens ends context { held with lease := some { lease with broken := true } } :=
    ⟨⟨⟨_, rfl, fits.context, fits.readOnly, fits.current⟩, basic.history, basic.current, basic.known⟩,
      nowhere, fun _ => outside, fun _ _ _ _ => rfl⟩
  cases opens' : weather.opens with
  | dropped => exact ⟨marked, (fun ok => nomatch ok), outside⟩
  | failed error => exact ⟨marked, (fun ok => nomatch ok), outside⟩
  | ok =>
    have fresh : ∀ sent ∈ held.sent, sent.conn.id ≠ held.next := fun sent inside =>
      Nat.ne_of_lt (basic.known sent inside)
    dsimp only
    by_cases readOnly : lease.readOnly = true
    rotate_left
    · rw [if_neg readOnly]
      refine ⟨⟨⟨⟨_, rfl, fits.context, fits.readOnly, fun set => ?_⟩, basic.history, ⟨fits.context, Nat.lt_succ_self _⟩,
        fun sent inside => Nat.lt_succ_of_lt (basic.known sent inside)⟩, nowhere, fun _ => outside,
        fun sent inside _ same => absurd same (fresh sent inside)⟩, fun _ => rfl, outside⟩
      exact absurd set readOnly
    · rw [if_pos readOnly]
      have placed : Placed opens ends context held.sent ⟨⟨held.next, lease.context⟩, .enforceReadOnly,
        weather.enforces⟩ :=
        ⟨nowhere, fun _ other => absurd rfl other, fits.context, fun sent inside _ => fresh sent inside⟩
      have history := basic.history.concat placed
      have known : ∀ sent ∈ held.sent ++ [⟨⟨held.next, lease.context⟩, .enforceReadOnly, weather.enforces⟩],
          sent.conn.id < held.next + 1 := by
        intro sent inside
        obtain before | last := List.mem_append.mp inside
        · exact Nat.lt_succ_of_lt (basic.known sent before)
        · rw [List.mem_singleton.mp last]
          exact Nat.lt_succ_self _
      have still : openOn opens ends
          (held.sent ++ [⟨⟨held.next, lease.context⟩, .enforceReadOnly, weather.enforces⟩]) = none := by
        rw [openOn_concat]
        exact outside
      have refused (failed : weather.enforces ≠ .ok) :
          Sound opens ends context { held with
            lease := some { lease with broken := true }, next := held.next + 1,
            sent := held.sent ++ [⟨⟨held.next, lease.context⟩, .enforceReadOnly, weather.enforces⟩] } := by
        have plain : ¬Sent.enforced ⟨⟨held.next, lease.context⟩, .enforceReadOnly, weather.enforces⟩ :=
          fun enforced => failed enforced.2
        refine ⟨⟨⟨_, rfl, fits.context, ?_, fun set => ?_⟩, history,
          ⟨basic.current.1, Nat.lt_succ_of_lt basic.current.2⟩,
          known⟩, fun conn some' => ?_, fun _ => still, fun _ _ _ _ => rfl⟩
        · rw [asked_concat, or_iff_left plain]
          exact fits.readOnly
        · rw [askedOn_concat]
          exact .inl (fits.current set)
        · rw [still] at some'
          cases some'
      cases enforces : weather.enforces with
      | dropped =>
        rw [enforces] at refused still
        exact ⟨refused (by decide), (fun ok => nomatch ok), still⟩
      | failed error =>
        rw [enforces] at refused still
        exact ⟨refused (by simp), (fun ok => nomatch ok), still⟩
      | ok =>
        rw [enforces] at history known still
        have made : Sent.enforced ⟨⟨held.next, lease.context⟩, .enforceReadOnly, .ok⟩ := ⟨rfl, rfl⟩
        refine ⟨⟨⟨⟨_, rfl, fits.context, ?_, fun _ => ?_⟩, history, ⟨fits.context, Nat.lt_succ_self _⟩, known⟩,
          fun conn some' => ?_, fun _ => still, fun sent inside lost same => ?_⟩, fun _ => rfl, still⟩
        · rw [asked_concat]
          exact ⟨fun _ => .inr made, fun _ => readOnly⟩
        · rw [askedOn_concat]
          exact .inr ⟨made, rfl⟩
        · rw [still] at some'
          cases some'
        · obtain before | last := List.mem_append.mp inside
          · exact absurd same (fresh sent before)
          · rw [List.mem_singleton.mp last] at lost
            cases lost

/-- A call handed over, perhaps twice, keeps what holds between calls. -/
theorem Sound.handOver (sound : Sound opens ends context held) (there : held.broken = false) (weather : Weather)
    (again : Bool) (op : Op) (other : op ≠ .enforceReadOnly) :
    Sound opens ends context (held.handOver weather again op).2 := by
  unfold Held.handOver
  split
  · next retried =>
    obtain ⟨⟨first, -⟩, unsent⟩ := by simpa only [Bool.and_eq_true] using retried
    have failed : weather.first ≠ .ok := fun ok => by
      rw [ok] at unsent
      cases unsent
    have outside : openOn opens ends (held.attempt weather.first op).sent = none := by
      rw [attempt_sent, openOn_concat, insideAfter_failed failed]
      exact sound.untried first
    obtain ⟨replaced, alive, -⟩ := (sound.attempt there op other weather.first).reconnect outside weather
    dsimp only
    split
    · next made =>
      rw [made] at replaced alive
      exact replaced.once (alive rfl) op other weather.second
    · exact replaced
  · exact sound.once there op other weather.first

/-- A call on the lease keeps what holds between calls when no replacement is made
inside a transaction. -/
theorem Sound.call (sound : Sound opens ends context held) (weather : Weather) (again : Bool) (op : Op)
    (other : op ≠ .enforceReadOnly)
    (careful : held.broken = true → again = true → (openOn opens ends held.sent).isSome → weather.opens ≠ .ok) :
    Sound opens ends context (held.call weather again op).2 := by
  unfold Held.call
  split
  · next broken =>
    split
    · next again' =>
      by_cases inside : (openOn opens ends held.sent).isSome
      · obtain ⟨lease, leased, -⟩ := sound.leased
        have refused := careful broken again' inside
        rw [reconnect_refused leased refused]
        split
        · next made =>
          exact absurd (Prod.ext_iff.mp made).1 refused
        · exact sound.marked leased
      · obtain ⟨replaced, alive, -⟩ := sound.toBasic.reconnect (by simpa using inside) weather
        split
        · next made =>
          rw [made] at replaced alive
          exact replaced.handOver (alive rfl) weather again op other
        · exact replaced
    · exact sound
  · next there => exact sound.handOver (by simpa using there) weather again op other

theorem Sound.track (sound : Sound opens ends context held) (outcome : Awaited) :
    Sound opens ends context (held.track outcome) := by
  unfold Held.track
  split
  · exact sound.noted _ (fun _ => ⟨rfl, rfl⟩) (fun _ => ⟨rfl, rfl⟩) (fun _ broken => broken)
  · exact sound

/-- Making the session read-only keeps what holds between calls when its connection is
there and stays. -/
theorem Sound.enforceReadOnly (sound : Sound opens ends context held) (there : held.broken = false) (reply : Awaited)
    (stays : reply.lost = false) : Sound opens ends context (held.enforceReadOnly reply).2 := by
  obtain ⟨lease, leased, fits⟩ := sound.leased
  have history := sound.history.concat (sound.placed there .enforceReadOnly reply)
  have still : openOn opens ends (held.sent ++ [⟨held.session, .enforceReadOnly, reply⟩]) =
    openOn opens ends held.sent :=
    openOn_concat _ _
  have known : ∀ sent ∈ held.sent ++ [⟨held.session, .enforceReadOnly, reply⟩], sent.conn.id < held.next := by
    intro sent inside
    obtain before | last := List.mem_append.mp inside
    · exact sound.known sent before
    · rw [List.mem_singleton.mp last]
      exact sound.current.2
  have alive : ∀ sent ∈ held.sent ++ [⟨held.session, .enforceReadOnly, reply⟩], sent.reply.lost = true →
      sent.conn.id = held.session.id → held.broken = true := by
    intro sent inside lost same
    obtain before | last := List.mem_append.mp inside
    · exact sound.alive sent before lost same
    · rw [List.mem_singleton.mp last, stays] at lost
      cases lost
  unfold Held.enforceReadOnly
  dsimp only
  split
  · next made =>
    have enforced : Sent.enforced ⟨held.session, .enforceReadOnly, reply⟩ := ⟨rfl, made⟩
    refine ⟨⟨⟨{ lease with readOnly := true }, by rw [leased]; rfl, fits.context, ?_, fun _ => ?_⟩, history,
      sound.current,
      known⟩, fun conn some' => sound.inside conn (still ▸ some'), fun first => still.trans (sound.untried ?_),
      fun sent inside lost same => ?_⟩
    · rw [asked_concat]
      exact ⟨fun _ => .inr enforced, fun _ => rfl⟩
    · rw [askedOn_concat]
      exact .inr ⟨enforced, rfl⟩
    · rw [Held.first, leased] at first ⊢
      exact first
    · have broken := alive sent inside lost same
      rw [Held.broken, leased] at broken ⊢
      exact broken
  · next refused =>
    have plain : ¬Sent.enforced ⟨held.session, .enforceReadOnly, reply⟩ := fun enforced => refused enforced.2
    refine ⟨⟨⟨lease, leased, fits.context, ?_, fun set => ?_⟩, history, sound.current, known⟩,
      fun conn some' => sound.inside conn (still ▸ some'), fun first => still.trans (sound.untried first), alive⟩
    · rw [asked_concat, or_iff_left plain]
      exact fits.readOnly
    · rw [askedOn_concat]
      exact .inl (fits.current set)

theorem call_sound (sound : Sound opens ends context held) (careful : Careful opens ends held next)
    (called : call held next = some after) : Sound opens ends context after := by
  cases next with
  | execute sql rowLimit weather =>
    cases called
    exact (sound.call weather _ _ (by simp) careful).track _
  | executeBound sql rowLimit weather =>
    cases called
    exact (sound.call weather _ _ (by simp) careful).track _
  | copyIn sql weather =>
    cases called
    exact sound.call weather _ _ (by simp) fun _ again => nomatch again
  | browse weather =>
    cases called
    exact sound.call weather _ _ (by simp) fun broken _ => careful broken
  | objects weather =>
    cases called
    exact sound.call weather _ _ (by simp) fun broken _ => careful broken
  | cancel =>
    cases called
    exact sound.noted _ (fun _ => ⟨rfl, rfl⟩) (fun _ => ⟨rfl, rfl⟩) (fun _ broken => broken)
  | enforceReadOnly reply =>
    cases called
    exact sound.enforceReadOnly careful.1 reply careful.2

/-- In every run of careful calls each call is handed over in its place: inside the
open transaction's connection, read-only once that was asked, in the lease's context,
and on no connection known to be lost. -/
theorem replaced_in_place (opens ends : List UInt8 → Bool) (kind : DriverKind) (context : Context) (reused : Bool)
    (id : Nat) (calls : List Call) (last : Held) (ran : run call (lent kind context reused id) calls = some last)
    (careful : Along call (Careful opens ends) (lent kind context reused id) calls) :
    Kept opens ends context last.sent :=
  (run_invariant_along (Sound opens ends context) (fun _ _ _ sound careful called => call_sound sound careful called)
    (lent_sound kind context reused id) careful ran).history

def closedConnection : Awaited := .failed (.connect "connection closed" .transient)

/-- A reused session replaced at its first use, whose transaction then loses the new
connection. -/
def reusedCalls : List Call :=
  [.enforceReadOnly .ok, .browse { first := closedConnection }, .execute (ofAscii "BEGIN") none {},
    .execute (ofAscii "UPDATE t SET a = 1") none { first := closedConnection }, .browse { opens := closedConnection },
    .cancel]

theorem replaced_in_place_reused :
    ∃ last, run call (lent .postgres ⟨none, none⟩ true 0) reusedCalls = some last ∧
      Kept opensTransaction endsTransaction ⟨none, none⟩ last.sent :=
  ⟨_, rfl, replaced_in_place opensTransaction endsTransaction .postgres ⟨none,
    none⟩ true 0 reusedCalls _ rfl (by decide)⟩

/-- The failing run: the connection of an open transaction is lost, and a browse is
then handed to a new connection. -/
theorem browse_leaves_transaction :
    ∃ last, run call (lent .postgres ⟨none, none⟩ false 0)
        [.execute (ofAscii "BEGIN") none {}, .execute (ofAscii "UPDATE t SET a = 1") none { first := closedConnection },
          .browse {}] = some last ∧
      ¬Kept opensTransaction endsTransaction ⟨none, none⟩ last.sent := by
  refine ⟨_, rfl, fun kept => ?_⟩
  have placed := kept
    [⟨⟨0, none, none⟩, .execute (ofAscii "BEGIN") none, .ok⟩,
      ⟨⟨0, none, none⟩, .execute (ofAscii "UPDATE t SET a = 1") none, closedConnection⟩]
    ⟨⟨1, none, none⟩, .browse, .ok⟩ [] (by decide)
  exact absurd (placed.inside 0 (by decide)) (by decide)

end QueryHive.Host
