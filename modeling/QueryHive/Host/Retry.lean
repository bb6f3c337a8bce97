import QueryHive.Host.Lease

/-! The session layer's retry: what it does when an accident interrupts a statement.
A statement that failed is handed to the session again while the failure is worth a
retry and tries are left. Under a lease a write whose connection was lost is refused
before it reaches the driver; a session without a lease has no such rule. -/
namespace QueryHive.Host
open QueryHive.Core QueryHive.Sql

/-- `RetryPolicy`: retries after the first attempt; the waits are left out. -/
structure RetryPolicy where
  retries : Nat
  deriving DecidableEq, Repr

/-- `again`: whether another attempt is allowed. -/
def again (policy : RetryPolicy) (attempt : Nat) (error : EngineError) : Bool :=
  decide (attempt < policy.retries) && error.failureKind = .transient

/-- The loop of `retry::execute` from one attempt on, with the tries that are left. -/
def executeFrom (policy : RetryPolicy) (sql : List UInt8) (rowLimit : Option Nat) (weather : Nat → Weather) :
    Nat → Nat → Held → Awaited × Held
  | 0, attempt, held => held.execute (weather attempt) sql rowLimit
  | left + 1, attempt, held =>
    match held.execute (weather attempt) sql rowLimit with
    | (.failed error, held) =>
      if again policy attempt error then executeFrom policy sql rowLimit weather left (attempt + 1) held
      else (.failed error, held)
    | other => other

/-- `retry::execute`. -/
def retryExecute (policy : RetryPolicy) (sql : List UInt8) (rowLimit : Option Nat) (weather : Nat → Weather)
    (held : Held) : Awaited × Held :=
  executeFrom policy sql rowLimit weather policy.retries 0 held

/-- The server answered with a code, so it did not apply the statement. -/
def Awaited.answered : Awaited → Bool
  | .failed error => error.code.isSome
  | _ => false

/-- A failure worth a retry. -/
def Awaited.transient : Awaited → Bool
  | .failed error => error.failureKind = .transient
  | _ => false

/-- Nothing is handed over again but after a server's answer. -/
def NeverTwice (calls : List Sent) : Prop := ∀ earlier ∈ calls.dropLast, earlier.reply.answered = true

theorem rerunnable_of_kind {held after : Held} (same : after.kind = held.kind) (sql : List UInt8) :
    after.rerunnable sql = held.rerunnable sql := by
  have any : ∀ held : Held, held.rerunnable sql = held.kind.any (Host.rerunnable sql) := by
    intro held
    rw [Held.rerunnable, Held.kind, Option.any_map]
  rw [any, any, same]

theorem handOver_once (weather : Weather) (op : Op) (held : Held) :
    ∃ after, held.handOver weather false op = (weather.first, after) ∧
      after.sent = held.sent ++ [⟨held.session, op, weather.first⟩] ∧ after.kind = held.kind ∧
      (held.lease.isSome → weather.first.lost = true → after.broken = true) := by
  unfold Held.handOver
  rw [Bool.and_false, Bool.false_and]
  refine ⟨_, rfl, by simp, by simp, fun leased => returned_broken ?_⟩
  simpa only [Held.attempt, Option.isSome_map]

/-- What `execute` does with a statement that may not be sent again. -/
theorem execute_once {held : Held} (weather : Weather) (rowLimit : Option Nat)
    (notAgain : held.rerunnable sql = false) :
    held.broken = true ∧ held.execute weather sql rowLimit = (.failed lostBefore, held) ∨
    held.broken = false ∧ ∃ after, held.execute weather sql rowLimit = (weather.first, after) ∧
      after.sent = held.sent ++ [⟨held.session, .execute sql rowLimit, weather.first⟩] ∧ after.kind = held.kind ∧
      (held.lease.isSome → weather.first.lost = true → after.broken = true) := by
  unfold Held.execute Held.call
  rw [notAgain]
  cases broken : held.broken with
  | true => exact .inl ⟨rfl, rfl⟩
  | false =>
    obtain ⟨after, handed, sent, kind, lost⟩ := handOver_once weather (.execute sql rowLimit) held
    refine .inr ⟨rfl, after.track weather.first, ?_, ?_, ?_, ?_⟩
    · simp only [Bool.false_eq_true, if_false, handed]
    · rw [track_sent, sent]
    · rw [track_kind, kind]
    · rw [track_broken]
      exact lost

theorem again_transient (more : again policy attempt error = true) : error.failureKind = .transient :=
  of_decide_eq_true (Bool.and_eq_true_iff.mp more).2

theorem executeFrom_leased (policy : RetryPolicy) (weather : Nat → Weather) (rowLimit : Option Nat)
    (left attempt : Nat) {held : Held} (leased : held.lease.isSome) (notAgain : held.rerunnable sql = false) :
    ∃ new, (executeFrom policy sql rowLimit weather left attempt held).2.sent = held.sent ++ new ∧
      (∀ call ∈ new, call.op = .execute sql rowLimit) ∧ NeverTwice new ∧ (held.broken = true → new = []) := by
  induction left generalizing attempt held with
  | zero =>
    unfold executeFrom
    obtain ⟨broken, refused⟩ | ⟨notBroken, after, ran, sent, -, -⟩ := execute_once (weather attempt) rowLimit notAgain
    · rw [refused]
      exact ⟨[], (List.append_nil _).symm, by simp, by simp [NeverTwice], fun _ => rfl⟩
    · rw [ran]
      exact ⟨_, sent, by simp, by simp [NeverTwice], fun broken => by simp [notBroken] at broken⟩
  | succ left ih =>
    unfold executeFrom
    obtain ⟨broken, refused⟩ | ⟨notBroken, after, ran, sent, kind, lost⟩ :=
      execute_once (weather attempt) rowLimit notAgain
    · rw [refused]
      dsimp only
      rw [if_neg (by simp [again, lostBefore, EngineError.failureKind])]
      exact ⟨[], (List.append_nil _).symm, by simp, by simp [NeverTwice], fun _ => rfl⟩
    · rw [ran]
      have once : ∃ new, after.sent = held.sent ++ new ∧ (∀ call ∈ new, call.op = .execute sql rowLimit) ∧
          NeverTwice new ∧ (held.broken = true → new = []) :=
        ⟨_, sent, by simp, by simp [NeverTwice], fun broken => by simp [notBroken] at broken⟩
      cases reply : (weather attempt).first with
      | ok => exact once
      | dropped => exact once
      | failed error =>
        dsimp only
        split
        · next more =>
          have stillLeased : after.lease.isSome := by
            have kinds := congrArg Option.isSome kind
            simpa only [Held.kind, Option.isSome_map, leased] using kinds
          obtain ⟨new, handed, ops, rest, gone⟩ :=
            ih (attempt + 1) stillLeased ((rerunnable_of_kind kind sql).trans notAgain)
          rw [handed, sent, List.append_assoc]
          refine ⟨_, rfl, by simpa using ops, ?_, fun broken => by simp [notBroken] at broken⟩
          -- A second handing over means that the first one did not lose the connection.
          cases new with
          | nil => simp [NeverTwice]
          | cons next new =>
            have kept : error.connectionLost = false := by
              by_contra isLost
              have broken := lost leased (by rw [reply]; exact eq_true_of_ne_false isLost)
              cases gone broken
            have answered := EngineError.answered_of_transient (again_transient more) kept
            intro earlier inside
            rw [List.singleton_append, List.dropLast_cons_cons, List.mem_cons] at inside
            obtain rfl | later := inside
            · rw [reply]
              exact answered
            · exact rest earlier later
        · exact once

theorem execute_unleased {held : Held} (unleased : held.lease = none) (weather : Weather) (sql : List UInt8)
    (rowLimit : Option Nat) :
    ∃ after, held.execute weather sql rowLimit = (weather.first, after) ∧
      after.sent = held.sent ++ [⟨held.session, .execute sql rowLimit, weather.first⟩] ∧ after.lease = none := by
  have notAgain : held.rerunnable sql = false := by rw [Held.rerunnable, unleased]; rfl
  obtain ⟨broken, -⟩ | ⟨-, after, ran, sent, kind, -⟩ := execute_once weather rowLimit notAgain
  · rw [Held.broken, unleased] at broken
    cases broken
  · rw [Held.kind, Held.kind, unleased] at kind
    exact ⟨after, ran, sent, Option.map_eq_none_iff.mp kind⟩

/-- Without a lease every transient failure with a try left is followed by another
handing over, so nothing is sent twice exactly when each of them was an answer. -/
theorem executeFrom_unleased (policy : RetryPolicy) (sql : List UInt8) (rowLimit : Option Nat) (weather : Nat → Weather)
    (left attempt : Nat) {held : Held} (unleased : held.lease = none) (counted : attempt + left = policy.retries) :
    ∃ new, (executeFrom policy sql rowLimit weather left attempt held).2.sent = held.sent ++ new ∧
      (∀ call ∈ new, call.op = .execute sql rowLimit) ∧ new ≠ [] ∧
      (NeverTwice new ↔ ∀ n < left, (∀ m ≤ n, (weather (attempt + m)).first.transient = true) →
        (weather (attempt + n)).first.answered = true) := by
  induction left generalizing attempt held with
  | zero =>
    unfold executeFrom
    obtain ⟨after, ran, sent, -⟩ := execute_unleased unleased (weather attempt) sql rowLimit
    rw [ran]
    exact ⟨_, sent, by simp, by simp, fun _ n small => absurd small (Nat.not_lt_zero n), fun _ => by simp [NeverTwice]⟩
  | succ left ih =>
    unfold executeFrom
    obtain ⟨after, ran, sent, still⟩ := execute_unleased unleased (weather attempt) sql rowLimit
    rw [ran]
    cases transient : (weather attempt).first.transient with
    | false =>
      have last : ∃ new, after.sent = held.sent ++ new ∧ (∀ call ∈ new, call.op = .execute sql rowLimit) ∧ new ≠ [] ∧
          (NeverTwice new ↔ ∀ n < left + 1, (∀ m ≤ n, (weather (attempt + m)).first.transient = true) →
            (weather (attempt + n)).first.answered = true) := by
        refine ⟨_, sent, by simp, by simp, fun _ n _ failed => ?_, fun _ => by simp [NeverTwice]⟩
        have first := failed 0 (Nat.zero_le n)
        rw [Nat.add_zero, transient] at first
        cases first
      cases reply : (weather attempt).first with
      | ok => exact last
      | dropped => exact last
      | failed error =>
        dsimp only
        rw [if_neg fun more => by simp [reply, Awaited.transient, again_transient more] at transient]
        exact last
    | true =>
      cases reply : (weather attempt).first with
      | ok => simp [reply, Awaited.transient] at transient
      | dropped => simp [reply, Awaited.transient] at transient
      | failed error =>
        have more : again policy attempt error = true := by
          rw [reply] at transient
          rw [again, Bool.and_eq_true_iff]
          exact ⟨decide_eq_true (by omega), transient⟩
        obtain ⟨new, handed, ops, some', twice⟩ := ih (attempt + 1) still (by omega)
        dsimp only
        rw [if_pos more, handed, sent, List.append_assoc]
        refine ⟨_, rfl, by simpa using ops, by simp, ?_⟩
        have split : NeverTwice ([⟨held.session, .execute sql rowLimit, (weather attempt).first⟩] ++ new) ↔
            (weather attempt).first.answered = true ∧ NeverTwice new := by
          rw [NeverTwice, List.singleton_append, List.dropLast_cons_of_ne_nil some', List.forall_mem_cons]
          rfl
        rw [split, twice]
        constructor
        · rintro ⟨first, later⟩ n small failed
          cases n with
          | zero => exact first
          | succ n =>
            have shifted := later n (by omega) fun m below => by
              have here := failed (m + 1) (by omega)
              rwa [show attempt + (m + 1) = attempt + 1 + m by omega] at here
            rwa [show attempt + (n + 1) = attempt + 1 + n by omega]
        · intro each
          refine ⟨each 0 (by omega) fun m below => ?_, fun n small failed => ?_⟩
          · rwa [show attempt + m = attempt by omega]
          · have shifted := each (n + 1) (by omega) fun m below => by
              cases m with
              | zero => exact transient
              | succ m =>
                rw [show attempt + (m + 1) = attempt + 1 + m by omega]
                exact failed m (by omega)
            rwa [show attempt + (n + 1) = attempt + 1 + n by omega] at shifted

/-- A session whose next call may be handed over twice. -/
def Held.doubtful (held : Held) : Bool := held.first && !held.broken

theorem doubtful_of_first {held : Held} (settled : held.first = false) : held.doubtful = false := by
  rw [Held.doubtful, settled, Bool.false_and]

theorem doubtful_of_broken {held : Held} (broken : held.broken = true) : held.doubtful = false := by
  rw [Held.doubtful, broken, Bool.not_true, Bool.and_false]

/-- A replacement sends nothing but the read-only setting, and leaves a session that is
neither untried nor, if it failed, thought to be there. -/
theorem reconnect_cases (weather : Weather) (held : Held) :
    ∃ outcome after extra, held.reconnect weather = (outcome, after) ∧ after.sent = held.sent ++ extra ∧
      (∀ call ∈ extra, call.op = .enforceReadOnly) ∧
      (outcome = .ok → after.first = false) ∧ (outcome ≠ .ok → after.broken = true) := by
  unfold Held.reconnect
  cases leased : held.lease with
  | none =>
    exact ⟨.ok, held, [], rfl, by simp, by simp, fun _ => by rw [Held.first, leased]; rfl,
      fun failed => absurd rfl failed⟩
  | some lease =>
    cases opens : weather.opens with
    | dropped => exact ⟨_, _, [], rfl, by simp, by simp, (fun ok => by cases ok), fun _ => rfl⟩
    | failed error => exact ⟨_, _, [], rfl, by simp, by simp, (fun ok => by cases ok), fun _ => rfl⟩
    | ok =>
      dsimp only
      cases lease.readOnly with
      | false => exact ⟨_, _, [], rfl, by simp, by simp, fun _ => rfl, fun failed => absurd rfl failed⟩
      | true =>
        rw [if_pos rfl]
        cases weather.enforces with
        | ok => exact ⟨_, _, [_], rfl, rfl, by simp, fun _ => rfl, fun failed => absurd rfl failed⟩
        | dropped => exact ⟨_, _, [_], rfl, rfl, by simp, (fun ok => by cases ok), fun _ => rfl⟩
        | failed error => exact ⟨_, _, [_], rfl, rfl, by simp, (fun ok => by cases ok), fun _ => rfl⟩

def count (op : Op) (calls : List Sent) : Nat := (calls.filter (·.op = op)).length

@[simp] theorem count_append (op : Op) (first second : List Sent) :
    count op (first ++ second) = count op first + count op second := by
  rw [count, List.filter_append, List.length_append, count, count]

theorem count_other (other : op ≠ .enforceReadOnly) (calls : ∀ call ∈ extra, call.op = .enforceReadOnly) :
    count op extra = 0 := by
  rw [count, List.length_eq_zero_iff, List.filter_eq_nil_iff]
  intro call inside same
  exact other ((of_decide_eq_true same).symm.trans (calls call inside))

theorem count_one (op : Op) (call : Sent) : count op [call] ≤ 1 :=
  List.length_filter_le _ _

/-- One call is handed over once, or twice on a session that was never tried. -/
theorem handOver_count {op : Op} (other : op ≠ .enforceReadOnly) (weather : Weather) (again : Bool) (held : Held) :
    ∃ outcome after new, held.handOver weather again op = (outcome, after) ∧ after.sent = held.sent ++ new ∧
      count op new ≤ (if held.first then 2 else 1) ∧ (outcome = .dropped ∨ after.doubtful = false) := by
  have settled : ∀ (held : Held) (outcome : Awaited), outcome = .dropped ∨ (held.returned outcome).doubtful = false :=
    fun _ outcome => or_iff_not_imp_left.mpr fun went => doubtful_of_first (returned_first went)
  unfold Held.handOver
  dsimp only
  split
  · next both =>
    have first : held.first = true := (Bool.and_eq_true_iff.mp (Bool.and_eq_true_iff.mp both).1).1
    obtain ⟨outcome, after, extra, replaced, sent, enforced, -, failed⟩ :=
      reconnect_cases weather (held.attempt weather.first op)
    have one := count_one op ⟨held.session, op, weather.first⟩
    have nothing := count_other other enforced
    rw [replaced, if_pos first]
    rw [attempt_sent, List.append_assoc] at sent
    cases outcome with
    | ok =>
      have two := count_one op ⟨after.session, op, weather.second⟩
      refine ⟨_, _, _, rfl, by rw [returned_sent, attempt_sent, sent, List.append_assoc], ?_, settled _ _⟩
      rw [count_append, count_append]
      omega
    | dropped => exact ⟨_, _, _, rfl, sent, by rw [count_append]; omega, .inl rfl⟩
    | failed error =>
      exact ⟨_, _, _, rfl, sent, by rw [count_append]; omega, .inr (doubtful_of_broken (failed (by simp)))⟩
  · refine ⟨_, _, _, rfl, by rw [returned_sent, attempt_sent], ?_, settled _ _⟩
    have one := count_one op ⟨held.session, op, weather.first⟩
    split <;> omega

theorem call_count {op : Op} (other : op ≠ .enforceReadOnly) (weather : Weather) (again : Bool) (held : Held) :
    ∃ outcome after new, held.call weather again op = (outcome, after) ∧ after.sent = held.sent ++ new ∧
      count op new ≤ (if held.doubtful then 2 else 1) ∧ (outcome = .dropped ∨ after.doubtful = false) := by
  unfold Held.call
  split
  · next broken =>
    have certain := doubtful_of_broken broken
    split
    · obtain ⟨outcome, after, extra, replaced, sent, enforced, went, failed⟩ := reconnect_cases weather held
      have nothing := count_other other enforced
      rw [replaced, certain]
      cases outcome with
      | ok =>
        obtain ⟨outcome, last, new, handed, later, bound, settled⟩ := handOver_count other weather again after
        rw [went rfl] at bound
        refine ⟨_, _, extra ++ new, handed, by rw [later, sent, List.append_assoc], ?_, settled⟩
        rw [count_append]
        simp only [Bool.false_eq_true, if_false] at bound ⊢
        omega
      | dropped => exact ⟨_, _, _, rfl, sent, by omega, .inl rfl⟩
      | failed error => exact ⟨_, _, _, rfl, sent, by omega, .inr (doubtful_of_broken (failed (by simp)))⟩
    · exact ⟨_, _, [], rfl, (List.append_nil _).symm, Nat.zero_le _, .inr certain⟩
  · next notBroken =>
    have same : held.doubtful = held.first := by
      rw [Held.doubtful, eq_false_of_ne_true notBroken, Bool.not_false, Bool.and_true]
    rw [same]
    exact handOver_count other weather again held

theorem execute_count (weather : Weather) (sql : List UInt8) (rowLimit : Option Nat) (held : Held) :
    ∃ outcome after new, held.execute weather sql rowLimit = (outcome, after) ∧ after.sent = held.sent ++ new ∧
      count (.execute sql rowLimit) new ≤ (if held.doubtful then 2 else 1) ∧
      (outcome = .dropped ∨ after.doubtful = false) := by
  obtain ⟨outcome, after, new, called, sent, bound, settled⟩ :=
    call_count (by simp : Op.execute sql rowLimit ≠ .enforceReadOnly) weather (held.rerunnable sql) held
  refine ⟨outcome, after.track outcome, new, by rw [Held.execute, called], by rw [track_sent, sent], bound, ?_⟩
  simpa only [Held.doubtful, track_first, track_broken] using settled

/-- The retries and the reconnect rule together hand a text over so many times at most. -/
theorem executeFrom_count (policy : RetryPolicy) (sql : List UInt8) (rowLimit : Option Nat) (weather : Nat → Weather)
    (left attempt : Nat) (held : Held) :
    ∃ new, (executeFrom policy sql rowLimit weather left attempt held).2.sent = held.sent ++ new ∧
      count (.execute sql rowLimit) new ≤ left + (if held.doubtful then 2 else 1) := by
  induction left generalizing attempt held with
  | zero =>
    obtain ⟨outcome, after, new, ran, sent, bound, -⟩ := execute_count (weather attempt) sql rowLimit held
    rw [executeFrom, ran]
    exact ⟨new, sent, by omega⟩
  | succ left ih =>
    obtain ⟨outcome, after, new, ran, sent, bound, settled⟩ := execute_count (weather attempt) sql rowLimit held
    have once : ∃ new, after.sent = held.sent ++ new ∧
        count (.execute sql rowLimit) new ≤ left + 1 + (if held.doubtful then 2 else 1) := ⟨new, sent, by omega⟩
    rw [executeFrom, ran]
    cases outcome with
    | ok => exact once
    | dropped => exact once
    | failed error =>
      dsimp only
      split
      · obtain ⟨later, handed, more⟩ := ih (attempt + 1) after
        have certain : after.doubtful = false := settled.resolve_left (by simp)
        rw [certain] at more
        refine ⟨new ++ later, by rw [handed, sent, List.append_assoc], ?_⟩
        rw [count_append]
        simp only [Bool.false_eq_true, if_false] at more
        omega
      · exact once

/-- The times a text was handed to a driver session in a run of `retry::execute`. -/
def handings (policy : RetryPolicy) (sql : List UInt8) (rowLimit : Option Nat) (weather : Nat → Weather) (held : Held) :
    List Sent :=
  ((retryExecute policy sql rowLimit weather held).2.sent.drop held.sent.length).filter
    (·.op = .execute sql rowLimit)

/-- An attempt that the loop makes another one after, on a session without a lease. -/
def Retried (policy : RetryPolicy) (weather : Nat → Weather) (attempt : Nat) : Prop :=
  attempt < policy.retries ∧ ∀ earlier ≤ attempt, (weather earlier).first.transient = true

/-- On every session, with every policy and in all weather: no text is handed over more
than `retries + 2` times, and one that is no read and opens no transaction is handed
over again only after a server's answer exactly when the session is leased or every
failure that is retried was such an answer. -/
theorem write_sent_once_iff (policy : RetryPolicy) (sql : List UInt8) (rowLimit : Option Nat) (weather : Nat → Weather)
    (held : Held) :
    (handings policy sql rowLimit weather held).length ≤ policy.retries + 2 ∧
    ((∀ kind ∈ held.kind, classifyReadings sql (dialectOf kind).readings ≠ .readOnly) →
      opensTransaction sql = false →
      (NeverTwice (handings policy sql rowLimit weather held) ↔
        held.lease.isSome ∨ ∀ attempt, Retried policy weather attempt → (weather attempt).first.answered = true)) := by
  have handings_eq : ∀ {new}, (retryExecute policy sql rowLimit weather held).2.sent = held.sent ++ new →
      handings policy sql rowLimit weather held = new.filter (·.op = .execute sql rowLimit) := by
    intro new sent
    rw [handings, sent, List.drop_left]
  constructor
  · obtain ⟨new, sent, bound⟩ := executeFrom_count policy sql rowLimit weather policy.retries 0 held
    rw [handings_eq sent]
    refine Nat.le_trans bound ?_
    split <;> omega
  · intro write plain
    have whole : ∀ {new : List Sent}, (∀ call ∈ new, call.op = .execute sql rowLimit) →
        new.filter (·.op = .execute sql rowLimit) = new := fun ops =>
      List.filter_eq_self.mpr fun call inside => decide_eq_true (ops call inside)
    cases leased : held.lease with
    | some lease =>
      have notAgain : held.rerunnable sql = false := by
        have kind : held.kind = some lease.kind := by rw [Held.kind, leased]; rfl
        rw [Held.rerunnable, leased, Option.any_some, Host.rerunnable, plain, Bool.false_or]
        exact decide_eq_false (write lease.kind (kind ▸ rfl))
      obtain ⟨new, sent, ops, once, -⟩ :=
        executeFrom_leased policy weather rowLimit policy.retries 0 (by rw [leased]; rfl) notAgain
      rw [handings_eq sent, whole ops]
      exact ⟨fun _ => .inl rfl, fun _ => once⟩
    | none =>
      obtain ⟨new, sent, ops, -, twice⟩ :=
        executeFrom_unleased policy sql rowLimit weather policy.retries 0 leased (Nat.zero_add policy.retries)
      rw [handings_eq sent, whole ops, twice]
      simp only [Nat.zero_add, Option.isSome_none, Bool.false_eq_true, false_or, Retried, and_imp]

/-- A write: `DELETE FROM t`. -/
def someWrite : List UInt8 := Byte.ofAscii "DELETE FROM t"

def closedMeanwhile : Awaited := .failed (.connect "the connection closed while the query ran" .transient)

def freshSession (lease : Option LeaseState) : Held := { session := ⟨0, none, none⟩, lease := lease, next := 1 }

def pooled : LeaseState := { kind := .postgres, context := ⟨none, none⟩, reused := true }

theorem write_sent_once_leased :
    (handings ⟨2⟩ someWrite none (fun _ => { first := closedMeanwhile }) (freshSession (some pooled))).length ≤ 4 ∧
      NeverTwice (handings ⟨2⟩ someWrite none (fun _ => { first := closedMeanwhile })
        (freshSession (some pooled))) := by
  obtain ⟨bound, once⟩ := write_sent_once_iff ⟨2⟩ someWrite none (fun _ => { first := closedMeanwhile })
    (freshSession (some pooled))
  refine ⟨bound, (once ?_ (by decide +kernel)).mpr (.inl rfl)⟩
  rintro kind same
  cases same
  decide +kernel

/-- An export runs a write on a session without a lease: the connection closes after the
server may have run it, and the text is handed over again. -/
theorem unleased_write_sent_twice :
    (∀ kind, classifyReadings someWrite (dialectOf kind).readings ≠ .readOnly) ∧ opensTransaction someWrite = false ∧
      ¬NeverTwice (handings ⟨1⟩ someWrite none (fun _ => { first := closedMeanwhile }) (freshSession none)) := by
  refine ⟨fun kind => by cases kind <;> decide +kernel, by decide +kernel, fun once => ?_⟩
  exact absurd (once ⟨⟨0, none, none⟩, .execute someWrite none, closedMeanwhile⟩ (by decide +kernel))
    (by decide +kernel)

end QueryHive.Host
