import QueryHive.Host.Pool

/-! What one call of a borrower leaves: the session it began with and a lease that knows
how the call ended, or a replacement with a lease that knows nothing of the old
connection. -/
namespace QueryHive.Host.Pool
open QueryHive.Core QueryHive.Host

variable {held : Held} {lease : LeaseState}

/-- A call that reaches the session it began with, and returns. -/
def reaches (weather : Weather) (again : Bool) (held : Held) : Bool :=
  !held.broken && !(held.first && again && weather.first.unsent) && weather.first ≠ .dropped

/-- The lease after a call that kept its session. -/
structure Kept (reached : Bool) (lease : LeaseState) (outcome : Awaited) (held : Held) (after : LeaseState) : Prop where
  kind : after.kind = lease.kind
  cancelled : after.cancelled = lease.cancelled
  last : after.lastCursor = lease.lastCursor
  broken : lease.broken = true → after.broken = true
  dirty : lease.dirty = true → after.dirty = true
  left : outcome = .ok → lease.leftOpen = true → after.dirty = true
  unsettled : lease.unsettled = true → after.unsettled = true ∨ after.broken = true ∨ reached = true
  dropped : droppedHere held = true → after.unsettled = true ∨ after.broken = true

/-- The lease after a call that replaced its session. -/
structure Swapped (lease : LeaseState) (held : Held) (after : LeaseState) : Prop where
  kind : after.kind = lease.kind
  cancelled : after.cancelled = lease.cancelled
  last : after.lastCursor = none
  dropped : droppedHere held = true → after.unsettled = true

/-- A replacement is made, and the calls it made on the way returned; or the lease is
left with its old session, known to be broken. -/
theorem reconnect_leased (weather : Weather) (leased : held.lease = some lease) :
    ((held.reconnect weather).1 = .ok ∧ weather.opens = .ok ∧ (held.reconnect weather).2.session.id = held.next ∧
        (held.reconnect weather).2.lease = some lease.replaced ∧
        ∀ sent ∈ (held.reconnect weather).2.sent, sent ∈ held.sent ∨ sent.reply = .ok) ∨
      ((held.reconnect weather).1 ≠ .ok ∧ (held.reconnect weather).2.session = held.session ∧
        (held.reconnect weather).2.lease = some { lease with broken := true }) := by
  unfold Held.reconnect
  rw [leased]
  cases opens : weather.opens with
  | dropped => exact .inr ⟨by simp, rfl, rfl⟩
  | failed error => exact .inr ⟨by simp, rfl, rfl⟩
  | ok =>
    dsimp only
    cases lease.readOnly with
    | false => exact .inl ⟨rfl, rfl, rfl, rfl, fun sent inside => .inl inside⟩
    | true =>
      rw [if_pos rfl]
      cases enforces : weather.enforces with
      | dropped => exact .inr ⟨by simp, rfl, rfl⟩
      | failed error => exact .inr ⟨by simp, rfl, rfl⟩
      | ok =>
        refine .inl ⟨rfl, rfl, rfl, rfl, fun sent inside => (List.mem_append.mp inside).imp_right fun last => ?_⟩
        rw [List.mem_singleton.mp last]

theorem once_lease (leased : held.lease = some lease) (op : Op) (reply : Awaited) :
    ((held.attempt reply op).returned reply).lease =
      some (if reply = .dropped then lease.tried reply else (lease.tried reply).returned reply) := by
  unfold Held.returned
  rw [Held.attempt, leased]
  split <;> rfl

theorem once_session (held : Held) (op : Op) (reply : Awaited) :
    ((held.attempt reply op).returned reply).session = held.session := by
  unfold Held.returned
  split <;> rfl

theorem once_kept (leased : held.lease = some lease) (clear : held.sent = []) (op : Op) (reply : Awaited) :
    ∃ after, ((held.attempt reply op).returned reply).lease = some after ∧
      Kept (reply ≠ .dropped) lease reply ((held.attempt reply op).returned reply) after := by
  refine ⟨_, once_lease leased op reply, ?_⟩
  have sent : ((held.attempt reply op).returned reply).sent = [⟨held.session, op, reply⟩] := by
    rw [returned_sent, attempt_sent, clear, List.nil_append]
  by_cases dropped : reply = .dropped
  · rw [if_pos dropped]
    exact {
      kind := rfl, cancelled := rfl, last := rfl, broken := id
      dirty := fun dirty => Bool.or_eq_true_iff.mpr (.inl dirty)
      left := fun _ left => Bool.or_eq_true_iff.mpr (.inr left)
      unsettled := fun _ => .inl (decide_eq_true dropped)
      dropped := fun _ => .inl (decide_eq_true dropped) }
  · rw [if_neg dropped]
    exact {
      kind := rfl, cancelled := rfl, last := rfl
      broken := fun broken => Bool.or_eq_true_iff.mpr (.inl broken)
      dirty := fun dirty => Bool.or_eq_true_iff.mpr (.inl dirty)
      left := fun _ left => Bool.or_eq_true_iff.mpr (.inr left)
      unsettled := fun _ => .inr (.inr (decide_eq_true dropped))
      dropped := fun here => by
        rw [droppedHere, sent, List.any_cons, List.any_nil, Bool.or_false, Bool.and_eq_true] at here
        exact absurd (of_decide_eq_true here.2) dropped }

theorem marked_kept (noted : LeaseState) (kind : noted.kind = lease.kind)
    (cancelled : noted.cancelled = lease.cancelled)
    (last : noted.lastCursor = lease.lastCursor) (dirty : lease.dirty = true → noted.dirty = true)
    (failed : outcome ≠ .ok) : Kept reached lease outcome held { noted with broken := true } where
  kind := kind
  cancelled := cancelled
  last := last
  broken _ := rfl
  dirty := dirty
  left ok := absurd ok failed
  unsettled _ := .inr (.inl rfl)
  dropped _ := .inr rfl

/-- The second time a call is handed over, it is on the replacement. -/
theorem second_swapped (leased : held.lease = some lease.replaced) (op : Op) (reply : Awaited)
    (returned : ∀ sent ∈ held.sent, sent.reply ≠ .dropped) :
    ∃ after, ((held.attempt reply op).returned reply).lease = some after ∧
      Swapped lease ((held.attempt reply op).returned reply) after := by
  refine ⟨_, once_lease leased op reply, ?_⟩
  by_cases dropped : reply = .dropped
  · rw [if_pos dropped]
    exact { kind := rfl, cancelled := rfl, last := rfl, dropped := fun _ => decide_eq_true dropped }
  · rw [if_neg dropped]
    refine { kind := rfl, cancelled := rfl, last := rfl, dropped := fun here => ?_ }
    obtain ⟨sent, inside, both⟩ := List.any_eq_true.mp here
    have lost := of_decide_eq_true (Bool.and_eq_true_iff.mp both).2
    rw [returned_sent, attempt_sent] at inside
    obtain before | last := List.mem_append.mp inside
    · exact absurd lost (returned sent before)
    · rw [List.mem_singleton.mp last] at lost
      exact absurd lost dropped

theorem handOver_cases (weather : Weather) (again : Bool) (op : Op) (leased : held.lease = some lease)
    (clear : held.sent = []) (there : held.broken = false) :
    ∃ after, (held.handOver weather again op).2.lease = some after ∧
      ((held.handOver weather again op).2.session = held.session ∧
          Kept (reaches weather again held) lease (held.handOver weather again op).1 (held.handOver weather again op).2
            after ∨
        weather.opens = .ok ∧ (held.first && again && weather.first.unsent) = true ∧
          (held.handOver weather again op).2.session.id = held.next ∧
          Swapped lease (held.handOver weather again op).2 after) := by
  unfold Held.handOver
  dsimp only
  by_cases twice : (held.first && again && weather.first.unsent) = true
  · rw [if_pos twice]
    have tried : (held.attempt weather.first op).lease =
      some (lease.tried weather.first) := by rw [Held.attempt, leased]; rfl
    have went : weather.first ≠ .dropped := fun dropped => by
      rw [dropped] at twice
      simp [Awaited.unsent] at twice
    obtain ⟨ok, opens, session, replaced, sent⟩ | ⟨failed, session, marked⟩ := reconnect_leased weather tried
    · have shape : (held.attempt weather.first op).reconnect weather =
          (.ok, ((held.attempt weather.first op).reconnect weather).2) := Prod.ext ok rfl
      rw [shape]
      dsimp only
      obtain ⟨after, found, swapped⟩ := second_swapped replaced op weather.second fun call inside => by
        obtain before | ok := sent call inside
        · rw [attempt_sent, clear, List.nil_append] at before
          rw [List.mem_singleton.mp before]
          exact went
        · rw [ok]
          simp
      refine ⟨after, found, .inr ⟨opens, twice, by rw [once_session]; exact session, ?_⟩⟩
      exact { kind := swapped.kind, cancelled := swapped.cancelled, last := swapped.last, dropped := swapped.dropped }
    · split
      · next other same =>
        rw [same] at failed
        exact absurd rfl failed
      · refine ⟨_, marked, .inl ⟨session, ?_⟩⟩
        exact marked_kept (lease.tried weather.first) rfl rfl rfl
          (fun dirty => Bool.or_eq_true_iff.mpr (.inl dirty)) failed
  · rw [if_neg twice]
    obtain ⟨after, found, kept⟩ := once_kept leased clear op weather.first
    refine ⟨after, found, .inl ⟨once_session held op weather.first, ?_⟩⟩
    have same : reaches weather again held = decide (weather.first ≠ .dropped) := by
      rw [reaches, there, Bool.eq_false_iff.mpr twice]
      rfl
    rw [same]
    exact kept

theorem call_cases (weather : Weather) (again : Bool) (op : Op) (leased : held.lease = some lease)
    (clear : held.sent = []) :
    ∃ after, (held.call weather again op).2.lease = some after ∧
      ((held.call weather again op).2.session = held.session ∧
          Kept (reaches weather again held) lease (held.call weather again op).1 (held.call weather again op).2 after ∨
        weather.opens = .ok ∧ (again && (held.broken || held.first && weather.first.unsent)) = true ∧
          (held.call weather again op).2.session.id = held.next ∧
          Swapped lease (held.call weather again op).2 after) := by
  unfold Held.call
  by_cases broken : held.broken = true
  rotate_left
  · rw [if_neg broken]
    obtain ⟨after, found, kept | ⟨opens, twice, session, swapped⟩⟩ :=
      handOver_cases weather again op leased clear (Bool.eq_false_iff.mpr broken)
    · exact ⟨after, found, .inl kept⟩
    · refine ⟨after, found, .inr ⟨opens, ?_, session, swapped⟩⟩
      rw [Bool.and_assoc, Bool.and_eq_true, Bool.and_eq_true] at twice
      simp [twice.1, twice.2.1, twice.2.2]
  · rw [if_pos broken]
    by_cases more : again = true
    rotate_left
    · rw [if_neg more]
      refine ⟨lease, leased, .inl ⟨rfl, ?_⟩⟩
      have marked : lease = { lease with broken := true } := by
        rw [Held.broken, leased] at broken
        cases lease
        simp only [LeaseState.mk.injEq, true_and, and_true]
        exact broken
      rw [marked]
      exact marked_kept lease rfl rfl rfl id (by simp)
    · rw [if_pos more]
      obtain ⟨ok, opens, session, replaced, sent⟩ | ⟨failed, session, marked⟩ := reconnect_leased weather leased
      · have shape : held.reconnect weather = (.ok, (held.reconnect weather).2) := Prod.ext ok rfl
        rw [shape]
        dsimp only
        have untried : ((held.reconnect weather).2.first && again && weather.first.unsent) = false := by
          rw [Held.first, replaced]
          rfl
        unfold Held.handOver
        dsimp only
        rw [if_neg (by rw [untried]; exact Bool.false_ne_true)]
        obtain ⟨after, found, swapped⟩ := second_swapped replaced op weather.first fun call inside => by
          obtain before | ok := sent call inside
          · rw [clear] at before
            cases before
          · rw [ok]
            simp
        exact ⟨after, found, .inr ⟨opens, by simp [more, broken], by rw [once_session]; exact session, swapped⟩⟩
      · split
        · next other same =>
          rw [same] at failed
          exact absurd rfl failed
        · exact ⟨_, marked, .inl ⟨session, marked_kept lease rfl rfl rfl id failed⟩⟩

/-- `track` notes the cursor the call returned, if it returned one. -/
theorem track_cursorOf (leased : held.lease = some lease) (opening : cursorOf op .ok ≠ []) (outcome : Awaited) :
    (held.track outcome).lease =
      some { lease with lastCursor := if cursorOf op outcome = [] then lease.lastCursor else some false } := by
  unfold Held.track
  by_cases ok : outcome = .ok
  · subst ok
    rw [if_pos rfl, leased, if_neg opening]
    rfl
  · have nothing : cursorOf op outcome = [] := by
      cases op <;> cases outcome <;> first | rfl | exact absurd rfl ok
    rw [if_neg ok, if_pos nothing, leased]

def Before (op : Op) (outcome : Awaited) (after noted : LeaseState) : Prop :=
  noted = { after with lastCursor := if cursorOf op outcome = [] then after.lastCursor else some false }

theorem track_session (outcome : Awaited) (held : Held) : (held.track outcome).session = held.session := by
  unfold Held.track
  split <;> rfl

theorem track_dropped (outcome : Awaited) (held : Held) : droppedHere (held.track outcome) = droppedHere held := by
  rw [droppedHere, track_sent, track_session]
  rfl

/-- What the cases of a call say about the call and the cursor it is noted with. -/
def Cases (weather : Weather) (op : Op) (held : Held) (lease : LeaseState) (result : Awaited × Held) : Prop :=
  ∃ after noted, result.2.lease = some noted ∧ Before op result.1 after noted ∧
    (result.2.session = held.session ∧ Kept (reaches weather (again op held) held) lease result.1 result.2 after ∨
      weather.opens = .ok ∧ reopens weather op held = true ∧ result.2.session.id = held.next ∧
        Swapped lease result.2 after)

/-- A call that returns a cursor notes it. -/
theorem tracked_cases (weather : Weather) (leased : held.lease = some lease) (clear : held.sent = [])
    (opening : cursorOf op .ok ≠ []) :
    Cases weather op held lease
      ((held.call weather (again op held) op).1,
        (held.call weather (again op held) op).2.track (held.call weather (again op held) op).1) := by
  obtain ⟨after, found, result⟩ := call_cases weather (again op held) op leased clear
  refine ⟨after, _, track_cursorOf found opening _, rfl,
    result.imp (fun ⟨same, kept⟩ => ?_) fun ⟨opens, more, next, swapped⟩ => ?_⟩
  · exact ⟨(track_session _ _).trans same, { kept with dropped := fun here => kept.dropped (track_dropped _ _ ▸ here) }⟩
  · exact ⟨opens, more, (congrArg Conn.id (track_session _ _)).trans next,
      { swapped with dropped := fun here => swapped.dropped (track_dropped _ _ ▸ here) }⟩

theorem plain_cases (weather : Weather) (leased : held.lease = some lease) (clear : held.sent = [])
    (nothing : ∀ outcome, cursorOf op outcome = []) :
    Cases weather op held lease (held.call weather (again op held) op) := by
  obtain ⟨after, found, result⟩ := call_cases weather (again op held) op leased clear
  exact ⟨after, after, found, by rw [Before, if_pos (nothing _)], result⟩

/-- One call of a borrower, whichever it is: the session is kept, or replaced. -/
theorem perform_cases (weather : Weather) (op : Op) (other : op ≠ .enforceReadOnly) (leased : held.lease = some lease)
    (clear : held.sent = []) : Cases weather op held lease (perform weather op held) := by
  cases op with
  | execute sql limit => exact tracked_cases weather leased clear (by simp [cursorOf])
  | bound sql limit => exact tracked_cases weather leased clear (by simp [cursorOf])
  | copyIn sql => exact plain_cases weather leased clear fun _ => rfl
  | browse => exact plain_cases weather leased clear fun _ => rfl
  | objects => exact plain_cases weather leased clear fun _ => rfl
  | enforceReadOnly => exact absurd rfl other

/-- Making a session read-only keeps it; its lease notes only that it was made so. -/
theorem enforce_lease (reply : Awaited) (leased : held.lease = some lease) :
    ∃ after, (held.enforceReadOnly reply).2.lease = some after ∧ (held.enforceReadOnly reply).2.session = held.session ∧
      (held.enforceReadOnly reply).2.sent = held.sent ++ [⟨held.session, .enforceReadOnly, reply⟩] ∧
      after = { lease with readOnly := after.readOnly } := by
  unfold Held.enforceReadOnly
  dsimp only
  split
  · exact ⟨_, by rw [leased]; rfl, rfl, rfl, rfl⟩
  · exact ⟨lease, leased, rfl, rfl, rfl⟩

theorem perform_session (weather : Weather) (op : Op) (leased : held.lease = some lease) (clear : held.sent = []) :
    (perform weather op held).2.lease.isSome ∧
      ((perform weather op held).2.session.id = held.session.id ∨
        weather.opens = .ok ∧ reopens weather op held = true ∧ (perform weather op held).2.session.id = held.next) := by
  by_cases enforce : op = .enforceReadOnly
  · subst enforce
    obtain ⟨after, found, session, -, -⟩ := enforce_lease weather.first leased
    exact ⟨Option.isSome_iff_exists.mpr ⟨after, found⟩, .inl (congrArg Conn.id session)⟩
  · obtain ⟨after, noted, found, -, ⟨session, -⟩ | ⟨opens, more, next, -⟩⟩ :=
      perform_cases weather op enforce leased clear
    · exact ⟨Option.isSome_iff_exists.mpr ⟨noted, found⟩, .inl (congrArg Conn.id session)⟩
    · exact ⟨Option.isSome_iff_exists.mpr ⟨noted, found⟩, .inr ⟨opens, more, next⟩⟩

variable {ι κ : Type} {borrower : Lent ι κ}

@[simp] theorem call_entry (opened : Nat) (tunnel : Option Nat) (weather : Weather) (op : Op) (borrower : Lent ι κ) :
    (borrower.call opened tunnel weather op).entry = borrower.entry := by
  unfold Lent.call
  dsimp only
  split <;> rfl

@[simp] theorem call_lane (opened : Nat) (tunnel : Option Nat) (weather : Weather) (op : Op) (borrower : Lent ι κ) :
    (borrower.call opened tunnel weather op).lane = borrower.lane := by
  unfold Lent.call
  dsimp only
  split <;> rfl

theorem call_held (opened : Nat) (tunnel : Option Nat) (weather : Weather) (op : Op) (borrower : Lent ι κ) :
    (borrower.call opened tunnel weather op).held =
      (perform weather op { borrower.held with next := opened, sent := [] }).2 := by
  unfold Lent.call
  dsimp only
  split <;> rfl

/-- A borrower's call leaves it a lease, and the session it had unless a replacement was
opened for it. -/
theorem call_session (opened : Nat) (tunnel : Option Nat) (weather : Weather) (op : Op)
    (leased : borrower.held.lease.isSome) :
    (borrower.call opened tunnel weather op).held.lease.isSome ∧
      ((borrower.call opened tunnel weather op).held.session.id = borrower.held.session.id ∨
        weather.opens = .ok ∧ reopens weather op borrower.held = true ∧
          (borrower.call opened tunnel weather op).held.session.id = opened) := by
  obtain ⟨lease, found⟩ := Option.isSome_iff_exists.mp leased
  rw [call_held]
  have same : reopens weather op { borrower.held with next := opened, sent := [] } =
    reopens weather op borrower.held := rfl
  obtain ⟨some', result⟩ := @perform_session { borrower.held with next := opened, sent := [] } _ weather op found rfl
  rw [same] at result
  exact ⟨some', result⟩

end QueryHive.Host.Pool
