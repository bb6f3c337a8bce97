import QueryHive.Host.PoolCounts

/-! What the pool lends again. A lease notes what happened to its session, and the verdict
on a session that comes back is formed from those notes; a session that is parked was
reset, and its notes say that nothing was left on it. -/
namespace QueryHive.Host.Pool
open QueryHive.Core QueryHive.Host QueryHive.Library.Runs QueryHive.Library.Shares QueryHive.Library.Tally

variable {ι κ : Type}

def rowsOf (answers : List Answer) : Nat :=
  tally (fun answer => match answer with
    | .batch rows => rows
    | _ => 0) answers

/-- The answer says that the server ended the stream: it is an error that the server sent, or the end before the row
limit stopped the cursor, and no failure came before it that the server did not send. -/
def Ends (rowLimit : Option Nat) (before : List Answer) : Answer → Prop
  | .batch _ => False
  | .none => (∀ limit, rowLimit = some limit → rowsOf before < limit) ∧
      ∀ error, .failed error ∈ before → fromServer error = true
  | .failed error => fromServer error = true

/-- The server ended the cursor, by what was answered on it. -/
def Reading.Ended (reading : Reading) : Prop :=
  ∃ before answer later, reading.answers = before ++ answer :: later ∧ Ends reading.tracked.rowLimit before answer

/-- The cursor's own note is right: it counts the rows delivered, and is clean when the server ended it. -/
structure Reading.Noted (reading : Reading) : Prop where
  delivered : reading.tracked.delivered = rowsOf reading.answers
  clean : reading.tracked.clean = true ↔ reading.Ended

theorem ended_nextBatch (answer : Answer) (reading : Reading) :
    (reading.nextBatch answer).Ended ↔ reading.Ended ∨ Ends reading.tracked.rowLimit reading.answers answer := by
  have limit : (reading.nextBatch answer).tracked.rowLimit = reading.tracked.rowLimit := by
    unfold Reading.nextBatch Tracked.nextBatch
    split <;> rfl
  unfold Reading.Ended
  rw [limit]
  constructor
  · rintro ⟨before, last, later, split, ends⟩
    obtain rfl | ⟨later, final, rfl⟩ := later.eq_nil_or_concat'
    · obtain ⟨same, last⟩ := List.append_inj' (split : reading.answers ++ [answer] = _) rfl
      cases last
      exact .inr (same ▸ ends)
    · rw [← List.cons_append, ← List.append_assoc] at split
      obtain ⟨same, -⟩ := List.append_inj' (split : reading.answers ++ [answer] = _) rfl
      exact .inl ⟨before, last, later, same, ends⟩
  · rintro (⟨before, last, later, split, ends⟩ | ends)
    · refine ⟨before, last, later ++ [answer], ?_, ends⟩
      rw [Reading.nextBatch, split, List.append_assoc, List.cons_append]
    · exact ⟨reading.answers, answer, [], rfl, ends⟩

theorem mem_answers_of_lost {reading : Reading} (kept : reading.lost = false)
    (member : .failed error ∈ reading.answers) :
    fromServer error = true := by
  have sent := List.any_eq_false.mp kept _ member
  simpa using sent

/-- An answer is noted right, unless it is the end of a stream that failed before without the server. -/
theorem Reading.Noted.nextBatch {reading : Reading} (noted : reading.Noted)
    (careful : answer = .none → reading.lost = false) : (reading.nextBatch answer).Noted := by
  constructor
  · change (reading.tracked.nextBatch answer).delivered = rowsOf (reading.answers ++ [answer])
    rw [rowsOf, tally_append, ← rowsOf, ← noted.delivered]
    cases answer <;> rfl
  · rw [ended_nextBatch, ← noted.clean]
    cases answer with
    | batch rows => simp [Reading.nextBatch, Tracked.nextBatch, Ends]
    | none =>
      have sent : ∀ error, .failed error ∈ reading.answers → fromServer error = true := fun error member =>
        mem_answers_of_lost (careful rfl) member
      simp only [Reading.nextBatch, Tracked.nextBatch, Ends, Bool.or_eq_true, noted.delivered, Option.all_eq_true,
        decide_eq_true_eq]
      exact or_congr_right ⟨fun below => ⟨below, sent⟩, fun both => both.1⟩
    | failed error => simp [Reading.nextBatch, Tracked.nextBatch, Ends]

theorem noted_new (limit : Option Nat) : Reading.Noted ⟨{ rowLimit := limit }, []⟩ where
  delivered := rfl
  clean := by
    refine ⟨fun was => (nomatch was), ?_⟩
    rintro ⟨before, answer, later, split, -⟩
    cases before <;> cases split

/-- The lease noted everything that makes its session unfit. -/
structure Told (past : Past) (lease : LeaseState) : Prop where
  cancelled : past.cancelled = true → lease.cancelled = true
  broken : past.broken = true → lease.broken = true
  dropped : past.callDropped = true → lease.unsettled = true ∨ lease.broken = true ∨ lease.cancelled = true
  last : lease.lastCursor = past.cursors.getLast?.map (·.tracked.clean)
  left : ∀ cursor ∈ past.cursors.dropLast, cursor.tracked.clean = false → lease.dirty = true
  noted : lease.kind = .postgres → ∀ cursor ∈ past.cursors, cursor.Noted

/-- Nothing was left on a session in its last lease: it was not cancelled nor broken, no
call was dropped half-way, and on PostgreSQL the server ended every cursor. -/
structure Unmarked (kind : DriverKind) (past : Past) : Prop where
  cancelled : past.cancelled = false
  broken : past.broken = false
  settled : past.callDropped = false
  cursors : kind = .postgres → ∀ cursor ∈ past.cursors, cursor.Ended

/-- A cursor that the server did not end is noted: as the last one, or as left behind. -/
theorem Told.open (told : Told past lease) (member : cursor ∈ past.cursors) (open' : cursor.tracked.clean = false) :
    lease.dirty = true ∨ lease.leftOpen = true := by
  obtain ⟨front, last, shape⟩ : ∃ front last, past.cursors = front ++ [last] :=
    ⟨_, _, (List.dropLast_append_getLast (List.ne_nil_of_mem member)).symm⟩
  have known := told.last
  have left := told.left
  rw [shape, List.getLast?_concat, Option.map_some] at known
  rw [shape, List.dropLast_concat] at left
  rw [shape] at member
  obtain earlier | final := List.mem_append.mp member
  · exact .inl (left cursor earlier open')
  · rw [← List.mem_singleton.mp final, open'] at known
    exact .inr (by rw [LeaseState.leftOpen, known]; rfl)

/-- A session is reset when it comes back only if nothing was left on it. -/
theorem Told.unmarked (told : Told past lease) (verdict : fate lease = .reset) : Unmarked lease.kind past := by
  unfold fate at verdict
  split at verdict
  · cases verdict
  · next fit =>
    split at verdict
    · cases verdict
    · next read =>
      simp only [Bool.or_eq_true, not_or, Bool.not_eq_true] at fit
      obtain ⟨⟨cancelled, broken⟩, settled⟩ := fit
      refine ⟨?_, ?_, ?_, fun kind cursor member => ?_⟩
      · exact Bool.eq_false_iff.mpr fun was => Bool.eq_false_iff.mp cancelled (told.cancelled was)
      · exact Bool.eq_false_iff.mpr fun was => Bool.eq_false_iff.mp broken (told.broken was)
      · refine Bool.eq_false_iff.mpr fun was => ?_
        simpa [cancelled, broken, settled] using told.dropped was
      · rw [Bool.and_eq_true, Bool.or_eq_true, not_and, not_or] at read
        obtain ⟨clean, ended⟩ := read (decide_eq_true kind)
        refine (told.noted kind cursor member).clean.mp ((Bool.not_eq_false _).mp fun open' => ?_)
        exact (told.open member open').elim clean ended

/-- A call that loses no mark: one that returns from the session does not follow one that
was dropped half-way, and a read-only setting is not dropped on an unmarked session. -/
def Lent.keepsMarks (weather : Weather) (op : Op) (borrower : Lent ι κ) : Bool :=
  borrower.held.lease.all fun lease =>
    lease.cancelled || if op = .enforceReadOnly then weather.first ≠ .dropped || lease.unsettled || lease.broken
      else !(lease.unsettled && reaches weather (again op borrower.held) borrower.held)

theorem cursorOf_cases (op : Op) (outcome : Awaited) :
    cursorOf op outcome = [] ∨ outcome = .ok ∧ ∃ limit, cursorOf op outcome = [⟨{ rowLimit := limit }, []⟩] := by
  cases op <;> cases outcome <;> first | exact .inl rfl | exact .inr ⟨rfl, _, rfl⟩

theorem noted_cursorOf (op : Op) (outcome : Awaited) : ∀ cursor ∈ cursorOf op outcome, cursor.Noted := by
  obtain nothing | ⟨-, limit, one⟩ := cursorOf_cases op outcome
  · rw [nothing]
    exact fun _ member => nomatch member
  · rw [one]
    exact List.forall_mem_singleton.mpr (noted_new limit)

variable {held : Held} {lease after noted : LeaseState} {past : Past}

theorem Told.kept (told : Told past lease) (kept : Kept reached lease outcome held after)
    (before : Before op outcome after noted) (found : held.lease = some noted)
    (careful : lease.cancelled = true ∨ ¬(lease.unsettled = true ∧ reached = true)) :
    Told { past with
      broken := past.broken || held.broken
      callDropped := past.callDropped || droppedHere held
      cursors := past.cursors ++ cursorOf op outcome } noted := by
  have broken : held.broken = noted.broken := by rw [Held.broken, found]; rfl
  subst before
  refine ⟨fun was => kept.cancelled.trans (told.cancelled was), fun was => ?_, fun was => ?_, ?_,
    fun cursor member open' => ?_,
    fun kind => List.forall_mem_append.mpr ⟨told.noted (kept.kind.symm.trans kind), noted_cursorOf op outcome⟩⟩
  · obtain earlier | now := Bool.or_eq_true_iff.mp was
    · exact kept.broken (told.broken earlier)
    · exact broken ▸ now
  · obtain earlier | now := Bool.or_eq_true_iff.mp was
    · obtain unsettled | broke | cancelled := told.dropped earlier
      · obtain still | gone | reached := kept.unsettled unsettled
        · exact .inl still
        · exact .inr (.inl gone)
        · obtain cancelled | never := careful
          · exact .inr (.inr (kept.cancelled.trans cancelled))
          · exact absurd ⟨unsettled, reached⟩ never
      · exact .inr (.inl (kept.broken broke))
      · exact .inr (.inr (kept.cancelled.trans cancelled))
    · obtain still | gone := kept.dropped now
      · exact .inl still
      · exact .inr (.inl gone)
  · obtain nothing | ⟨-, limit, one⟩ := cursorOf_cases op outcome
    · simp only [nothing, ↓reduceIte, List.append_nil]
      exact kept.last.trans told.last
    · simp only [one, List.getLast?_concat, Option.map_some, reduceCtorEq, ↓reduceIte]
  · obtain nothing | ⟨ok, limit, one⟩ := cursorOf_cases op outcome
    · rw [nothing, List.append_nil] at member
      exact kept.dirty (told.left cursor member open')
    · rw [one, List.dropLast_concat] at member
      exact (told.open member open').elim kept.dirty (kept.left ok)

theorem Told.enforced (told : Told past lease) (same : after = { lease with readOnly := after.readOnly })
    (found : held.lease = some after)
    (marked : droppedHere held = true → lease.unsettled = true ∨ lease.broken = true ∨ lease.cancelled = true) :
    Told { past with
      broken := past.broken || held.broken
      callDropped := past.callDropped || droppedHere held
      cursors := past.cursors ++ cursorOf .enforceReadOnly outcome } after := by
  have nothing : cursorOf .enforceReadOnly outcome = [] := by cases outcome <;> rfl
  have broken : held.broken = lease.broken := by
    rw [Held.broken, found, same]
    rfl
  rw [nothing, List.append_nil, same]
  refine ⟨told.cancelled, fun was => ?_, fun was => ?_, told.last, told.left, told.noted⟩
  · exact (Bool.or_eq_true_iff.mp was).elim told.broken fun now => broken ▸ now
  · exact (Bool.or_eq_true_iff.mp was).elim told.dropped marked

/-- The notes after a call that replaced its session. -/
theorem Told.swapped (told : Told past lease) (swapped : Swapped lease held after)
    (before : Before op outcome after noted) (found : held.lease = some noted) :
    Told {
      cancelled := past.cancelled
      broken := held.broken
      callDropped := droppedHere held
      cursors := cursorOf op outcome } noted := by
  have broken : held.broken = noted.broken := by rw [Held.broken, found]; rfl
  subst before
  refine ⟨fun was => swapped.cancelled.trans (told.cancelled was), fun was => broken ▸ was,
    fun was => .inl (swapped.dropped was), ?_, fun cursor member => ?_, fun _ => noted_cursorOf op outcome⟩
  · obtain nothing | ⟨-, limit, one⟩ := cursorOf_cases op outcome
    · simp only [nothing, ↓reduceIte]
      exact swapped.last
    · simp only [one, reduceCtorEq, ↓reduceIte]
      rfl
  · obtain nothing | ⟨-, limit, one⟩ := cursorOf_cases op outcome
    · rw [nothing] at member
      cases member
    · rw [one] at member
      cases member

/-- A borrower's session is its key's, and its lease noted what happened to it. -/
structure Lent.Honest (key : PoolKey ι κ) (borrower : Lent ι κ) : Prop where
  opened : borrower.key = key
  config : borrower.config.key = key
  notes : ∃ lease, borrower.held.lease = some lease ∧ lease.kind = key.identity.kind ∧ Told borrower.past lease

variable {key : PoolKey ι κ} {borrower : Lent ι κ}

/-- A call keeps the notes; a replacement starts new ones, for the same key. -/
theorem Lent.Honest.call (honest : borrower.Honest key) (opened : Nat) (tunnel : Option Nat)
    (weather : Weather) (op : Op)
    (fresh : borrower.held.session.id ≠ opened) (careful : borrower.keepsMarks weather op = true) :
    (borrower.call opened tunnel weather op).Honest key := by
  obtain ⟨lease, found, kind, told⟩ := honest.notes
  rw [Lent.keepsMarks, found, Option.all_some, Bool.or_eq_true] at careful
  unfold Lent.call
  dsimp only
  by_cases enforce : op = .enforceReadOnly
  · subst enforce
    obtain ⟨after, found', session, sent, same⟩ :=
      @enforce_lease { borrower.held with next := opened, sent := [] } _ weather.first found
    have kept : (perform weather .enforceReadOnly { borrower.held with next := opened, sent := [] }).2.session =
        borrower.held.session := session
    rw [if_pos (congrArg Conn.id kept)]
    refine ⟨honest.opened, honest.config, after, found', ?_, ?_⟩
    · rw [same]
      exact kind
    · refine told.enforced same found' fun dropped => ?_
      obtain ⟨call, inside, both⟩ := List.any_eq_true.mp dropped
      have went : weather.first = .dropped := by
        have lost := of_decide_eq_true (Bool.and_eq_true_iff.mp both).2
        rw [show (perform weather .enforceReadOnly { borrower.held with next := opened, sent := [] }).2.sent =
          [⟨borrower.held.session, .enforceReadOnly, weather.first⟩] from sent, List.mem_singleton] at inside
        rw [inside] at lost
        exact lost
      simpa [went, or_comm, or_left_comm] using careful
  · obtain ⟨after, noted, found', before, ⟨session, kept⟩ | ⟨opens, more, next, swapped⟩⟩ :=
      @perform_cases { borrower.held with next := opened, sent := [] } _ weather op enforce found rfl
    · rw [if_pos (congrArg Conn.id session)]
      refine ⟨honest.opened, honest.config, noted, found', ?_, told.kept kept before found' ?_⟩
      · rw [before]
        exact kept.kind.trans kind
      · rw [if_neg enforce] at careful
        refine careful.imp_right fun safe both => ?_
        have reached : reaches weather (again op borrower.held) borrower.held = true := both.2
        rw [both.1, reached] at safe
        cases safe
    · rw [if_neg (by rw [next]; exact Ne.symm fresh)]
      refine ⟨honest.config, honest.config, noted, found', ?_, told.swapped swapped before found'⟩
      rw [before]
      exact swapped.kind.trans kind

theorem Lent.Honest.cancel (honest : borrower.Honest key) : borrower.cancel.Honest key := by
  obtain ⟨lease, found, kind, told⟩ := honest.notes
  refine ⟨honest.opened, honest.config, { lease with cancelled := true }, ?_, kind,
    fun _ => rfl, told.broken, fun _ => .inr (.inr rfl), told.last, told.left, told.noted⟩
  rw [Lent.cancel, Held.cancel, found]
  rfl

def Lent.keepsReset (how : Awaited) (borrower : Lent ι κ) : Bool :=
  borrower.held.lease.all fun lease => lease.cancelled || lease.broken || lease.unsettled || how ≠ .dropped

theorem Lent.Honest.reset (honest : borrower.Honest key) (careful : borrower.keepsReset how = true) :
    (borrower.reset how).Honest key := by
  obtain ⟨lease, found, kind, told⟩ := honest.notes
  rw [Lent.keepsReset, found, Option.all_some] at careful
  refine ⟨honest.opened, honest.config, lease, found, kind, told.cancelled, told.broken, fun was => ?_,
    told.last, told.left,
    told.noted⟩
  obtain earlier | now := Bool.or_eq_true_iff.mp was
  · exact told.dropped earlier
  · have dropped : how = .dropped := of_decide_eq_true now
    simpa [dropped, or_comm, or_left_comm] using careful

theorem nextBatch_clean (answer : Answer) (cursor : Tracked) (clean : cursor.clean = true) :
    (cursor.nextBatch answer).clean = true := by
  unfold Tracked.nextBatch
  split
  · exact clean
  · exact Bool.or_eq_true_iff.mpr (.inl clean)
  · exact Bool.or_eq_true_iff.mpr (.inl clean)

theorem modify_cases {cursors : List Reading} (found : (cursors.modify cursor (·.nextBatch answer))[i]? = some later) :
    ∃ before, cursors[i]? = some before ∧ (later = before ∨ cursor = i ∧ later = before.nextBatch answer) := by
  rw [List.getElem?_modify] at found
  obtain ⟨before, there, same⟩ := Option.map_eq_some_iff.mp found
  refine ⟨before, there, ?_⟩
  split at same
  · next here => exact .inr ⟨here, same.symm⟩
  · exact .inl same.symm

/-- Reading a cursor of a PostgreSQL lease that keeps its note right: one that failed without the server is not read on
to the end. -/
def Lent.keepsRead (cursor : Nat) (answer : Answer) (borrower : Lent ι κ) : Bool :=
  borrower.held.lease.all (·.kind ≠ .postgres) || answer ≠ .none || borrower.past.cursors[cursor]?.all (!·.lost)

theorem Lent.Honest.read (honest : borrower.Honest key) (careful : borrower.keepsRead cursor answer = true) :
    (borrower.read cursor answer).Honest key := by
  obtain ⟨lease, found, kind, told⟩ := honest.notes
  have known : (borrower.read cursor answer).held.lease =
      some { lease with lastCursor := (borrower.read cursor answer).past.cursors.getLast?.map (·.tracked.clean) } := by
    rw [Lent.read, found]
    rfl
  refine ⟨honest.opened, honest.config, _, known, kind, told.cancelled, told.broken, told.dropped, rfl,
    fun later member open' => ?_, fun postgres later member => ?_⟩
  · obtain ⟨i, place⟩ := List.mem_iff_getElem?.mp member
    rw [List.getElem?_dropLast] at place
    obtain ⟨within, place⟩ := Option.ite_none_right_eq_some.mp place
    obtain ⟨before, there, other⟩ := modify_cases place
    have earlier : before ∈ borrower.past.cursors.dropLast := by
      refine List.mem_iff_getElem?.mpr ⟨i, ?_⟩
      rwa [List.getElem?_dropLast, if_pos (by rwa [Lent.read, List.length_modify] at within)]
    obtain rfl | ⟨-, rfl⟩ := other
    · exact told.left later earlier open'
    · refine told.left before earlier (Bool.eq_false_iff.mpr fun clean => ?_)
      have still := nextBatch_clean answer before.tracked clean
      rw [show (before.tracked.nextBatch answer).clean = false from open'] at still
      cases still
  · obtain ⟨i, place⟩ := List.mem_iff_getElem?.mp member
    obtain ⟨before, there, other⟩ := modify_cases place
    have noted := told.noted postgres before (List.mem_of_getElem? there)
    obtain rfl | ⟨rfl, rfl⟩ := other
    · exact noted
    · refine noted.nextBatch fun ended => ?_
      have lease_postgres : lease.kind = .postgres := postgres
      simpa [Lent.keepsRead, found, lease_postgres, ended, there] using careful

/-- A session that may be lent: its key's, and if it was lent before, reset since and with
nothing left on it. -/
structure Session.Fit (key : PoolKey ι κ) (session : Session ι κ) : Prop where
  opened : session.key = key
  clean : ∀ past, session.past = some past → past.resetOk = true ∧ Unmarked key.identity.kind past

def Party.Honest (key : PoolKey ι κ) : Party ι κ → Prop
  | looking config _ _ _ | warming config _ | refilling _ _ config => config.key = key
  | opening (.replacement borrower weather op) config _ _ =>
    config.key = key ∧ borrower.Honest key ∧ reopens weather op borrower.held = true
  | opening _ config _ _ => config.key = key
  | .lent borrower => borrower.Honest key
  | returning _ ride verdict refill => ride.session.key = key ∧
      (verdict = .reset → ∀ past, ride.session.past = some past → Unmarked key.identity.kind past) ∧
      ∀ config, refill = some config → config.key = key
  | resetting _ ride => ride.session.key = key ∧ ∀ past, ride.session.past = some past → Unmarked key.identity.kind past
  | spent _ _ refill => ∀ config, refill = some config → config.key = key
  | unleased _ _ | parked _ | closing _ | evicting _ => True

def Party.keepsMarks (event : Event) : Party ι κ → Bool
  | .lent borrower =>
    match event with
    | .call weather op => borrower.keepsMarks weather op
    | .reset how => borrower.keepsReset how
    | .read cursor answer => borrower.keepsRead cursor answer
    | _ => true
  | _ => true

theorem reopens_keepsMarks {weather : Weather} {op : Op} (honest : borrower.Honest key)
    (more : reopens weather op borrower.held = true) (how : Awaited) :
    borrower.keepsMarks { weather with opens := how } op = true := by
  obtain ⟨lease, found, -, -⟩ := honest.notes
  rw [reopens, Bool.and_eq_true, Bool.or_eq_true] at more
  have other : op ≠ .enforceReadOnly := fun same => by
    rw [same] at more
    cases more.1
  have unreached : reaches { weather with opens := how } (again op borrower.held) borrower.held = false := by
    obtain ⟨again', broken | twice⟩ := more
    · rw [reaches, broken]
      rfl
    · rw [Bool.and_eq_true] at twice
      rw [reaches, again', twice.1]
      simp only [twice.2, Bool.and_true, Bool.not_true, Bool.and_false, Bool.false_and]
  rw [Lent.keepsMarks, found, Option.all_some, if_neg other, unreached, Bool.and_false, Bool.not_false, Bool.or_true]

section
variable {world : World} {e : Nat} {entry : Entry ι κ} {config : Config ι κ} {turn : Turn ι κ} {purpose : Purpose ι κ}

/-- What a section leaves at its entry and in its parties is fit and honest. -/
structure Good (key : PoolKey ι κ) (turn : Turn ι κ) : Prop where
  idle : ∀ idle ∈ turn.entry.idle, idle.ride.session.Fit key
  news : ∀ new ∈ turn.news, new.Honest key

theorem lend_honest (lane : Lane) (reused : Bool) (ride : Ride ι κ) (mine : config.key = key)
    (opened : ride.session.key = key) : (lend config e lane reused ride).Honest key :=
  ⟨opened, mine, _, rfl, congrArg (fun key => key.identity.kind) mine, (nomatch ·), (nomatch ·), (nomatch ·), rfl,
    fun _ member => (nomatch member), fun _ _ member => nomatch member⟩

theorem swept_fit (fit : ∀ idle ∈ entry.idle, idle.ride.session.Fit key) :
    ∀ idle ∈ (entry.swept world).idle, idle.ride.session.Fit key :=
  fun idle member => fit idle (List.mem_of_mem_filter member)

theorem look_good (fit : ∀ idle ∈ entry.idle, idle.ride.session.Fit key) (mine : config.key = key) (lane : Lane)
    (waited : Bool) : Good key (look world config e lane waited entry) := by
  unfold look
  dsimp only
  obtain ⟨idle, cooler, shape, -, decided⟩ | decided | ⟨-, decided⟩ := look_cases world lane waited entry <;>
    rw [decided] <;> dsimp only
  · have swept := @swept_fit _ _ _ world _ fit
    rw [shape] at swept
    refine ⟨fun other member => swept other (List.mem_append_left _ member), beside_closes ?_ trivial⟩
    exact lend_honest lane true idle.ride mine (swept idle (List.mem_append_right _ (List.mem_singleton_self _))).opened
  · exact ⟨swept_fit fit, beside_closes mine trivial⟩
  · exact ⟨swept_fit fit, beside_closes mine trivial⟩

/-- Opening a session promises the same in each of its phases. -/
theorem opening_honest {phase : Phase} (honest : (Party.opening purpose config e phase).Honest key) (later : Phase) :
    (Party.opening purpose config e later).Honest key := by
  cases purpose <;> exact honest

theorem ensureTunnel_good (fit : ∀ idle ∈ entry.idle, idle.ride.session.Fit key)
    (honest : (Party.opening purpose config e .tunnel).Honest key)
    (took : ensureTunnel world purpose config e entry = some turn) : Good key turn := by
  unfold ensureTunnel at took
  dsimp only at took
  split at took
  · cases took
    exact ⟨fit, forall_one (opening_honest honest _)⟩
  · split at took
    · cases took
    · split at took
      · cases took
        exact ⟨fit, forall_one (opening_honest honest _)⟩
      · split at took <;> cases took
        · exact ⟨fit, forall_one (opening_honest honest _)⟩
        · exact ⟨(fun _ member => nomatch member), beside_closes (opening_honest honest _) trivial⟩

theorem giveUp_good {phase : Phase} (fit : ∀ idle ∈ entry.idle, idle.ride.session.Fit key)
    (honest : (Party.opening purpose config e phase).Honest key)
    (owned : ∀ borrower weather op, purpose = .replacement borrower weather op →
    borrower.held.session.id ≠ world.opened)
    (how : Awaited) : Good key (giveUp world how purpose entry) := by
  cases purpose with
  | lease lane | idle | unleased => exact ⟨fit, forall_none⟩
  | replacement borrower weather op =>
    obtain ⟨-, honest, more⟩ := honest
    exact ⟨fit, forall_one (honest.call _ _ _ _ (owned _ _ _ rfl) (reopens_keepsMarks honest more how))⟩

theorem park_good (fit : ∀ idle ∈ entry.idle, idle.ride.session.Fit key) (ride : Ride ι κ)
    (fresh : ride.session.Fit key) :
    Good key (park world e ride entry) := by
  unfold park Entry.park
  dsimp only
  split
  · exact ⟨fit, beside_closes trivial trivial⟩
  · refine ⟨fun idle member => ?_, beside_closes trivial trivial⟩
    obtain old | new := List.mem_append.mp member
    · exact fit idle old
    · rw [List.mem_singleton.mp new]
      exact fresh

theorem connected_good {phase : Phase} (fit : ∀ idle ∈ entry.idle, idle.ride.session.Fit key)
    (honest : (Party.opening purpose config e phase).Honest key)
    (owned : ∀ borrower weather op, purpose = .replacement borrower weather op →
    borrower.held.session.id ≠ world.opened)
    (tunnel : Option Nat) : Good key (connected world purpose config e tunnel entry) := by
  cases purpose with
  | lease lane => exact ⟨fit, forall_one (lend_honest lane false _ honest honest)⟩
  | idle =>
    obtain ⟨idle, news⟩ := @park_good _ _ _ world e _ fit ⟨⟨world.opened, config.key, none⟩, tunnel⟩
      ⟨honest, fun _ none' => nomatch none'⟩
    exact ⟨idle, news⟩
  | replacement borrower weather op =>
    obtain ⟨-, honest, more⟩ := honest
    exact ⟨fit, forall_one (honest.call _ _ _ _ (owned _ _ _ rfl) (reopens_keepsMarks honest more .ok))⟩
  | unleased => exact ⟨fit, forall_one trivial⟩
theorem openIdle_good (fit : ∀ idle ∈ entry.idle, idle.ride.session.Fit key) (mine : config.key = key) (only : Bool)
    {others : List (Party ι κ)} (honest : ∀ new ∈ others, new.Honest key) :
    Good key (openIdle only config e others entry) := by
  unfold openIdle
  split
  · exact ⟨fit, List.forall_mem_cons.mpr ⟨mine, honest⟩⟩
  · exact ⟨fit, honest⟩

theorem opens_good {phase : Phase} {event : Event} (fit : ∀ idle ∈ entry.idle, idle.ride.session.Fit key)
    (honest : (Party.opening purpose config e phase).Honest key)
    (owned : ∀ borrower weather op, purpose = .replacement borrower weather op →
    borrower.held.session.id ≠ world.opened)
    (took : opens world purpose config e phase event entry = some turn) : Good key turn := by
  unfold opens at took
  split at took
  · exact ensureTunnel_good fit honest took
  · cases took
    exact giveUp_good fit honest owned _
  · cases took
    exact ⟨fit, forall_one (opening_honest honest _)⟩
  · cases took
    exact @giveUp_good _ _ _ _ _ { entry with dialing := false } _ _ _ fit honest owned _
  · cases took
    exact connected_good fit honest owned _
  · cases took
    exact giveUp_good fit honest owned _
  · cases took

theorem lent_good {event : Event} (fit : ∀ idle ∈ entry.idle, idle.ride.session.Fit key) (honest : borrower.Honest key)
    (fresh : borrower.held.session.id ≠ world.opened) (careful : (Party.lent borrower).keepsMarks event = true)
    (took : borrower.turn world event entry = some turn) : Good key turn := by
  unfold Lent.turn at took
  split at took
  · split at took <;> cases took
    · next more => exact ⟨fit, forall_one ⟨honest.config, honest, more⟩⟩
    · exact ⟨fit, forall_one (honest.call _ _ _ _ fresh careful)⟩
  · cases took
    exact ⟨fit, forall_one (honest.reset careful)⟩
  · cases took
    exact ⟨fit, forall_one honest.cancel⟩
  · cases took
    exact ⟨fit, forall_one (honest.read careful)⟩
  · obtain ⟨lease, found, rfl⟩ := Option.map_eq_some_iff.mp took
    obtain ⟨lease', found', kind, told⟩ := honest.notes
    cases found.symm.trans found'
    refine ⟨fit, forall_one ⟨honest.opened, fun verdict past same => ?_, fun config same => ?_⟩⟩
    · cases same
      exact kind ▸ told.unmarked verdict
    · split at same <;> cases same
      exact honest.config
  · cases took
  · cases took

theorem turn_good {party : Party ι κ} {event : Event} (fit : ∀ idle ∈ entry.idle, idle.ride.session.Fit key)
    (honest : party.Honest key) (owned : ∀ session ∈ party.sessions, session ≠ world.opened)
    (careful : party.keepsMarks event = true) (took : party.turn world event entry = some turn) : Good key turn := by
  unfold Party.turn at took
  split at took
  · cases took
    exact look_good fit honest _ _
  · cases took
    exact ⟨fit, forall_none⟩
  · refine opens_good fit honest (fun borrower weather op same => ?_) took
    subst same
    exact owned _ (List.mem_singleton_self _)
  · exact lent_good fit honest (owned _ (List.mem_singleton_self _)) careful took
  · cases took
    exact openIdle_good fit honest _ forall_none
  · split at took <;> cases took
    · exact ⟨fit, forall_one honest.2.2⟩
    · next verdict =>
      simp only [decide_not, Bool.or_eq_true, Bool.not_eq_true', decide_eq_false_iff_not, not_or, not_not] at verdict
      exact ⟨fit, forall_one ⟨honest.1, honest.2.1 verdict.1.1⟩⟩
  · cases took
    exact ⟨fit, forall_none⟩
  · cases took
    exact ⟨fit, forall_none⟩
  · cases took
    refine park_good fit _ ⟨honest.1, fun past same => ?_⟩
    obtain ⟨before, was, rfl⟩ := Option.map_eq_some_iff.mp same
    obtain ⟨cancelled, broken, settled, cursors⟩ := honest.2 before was
    exact ⟨rfl, cancelled, broken, settled, cursors⟩
  · cases took
    exact ⟨fit, forall_one fun config same => nomatch same⟩
  · next refill =>
    cases took
    cases refill with
    | some config => exact ⟨fit, forall_one (honest config rfl)⟩
    | none => exact ⟨fit, forall_one trivial⟩
  · cases took
    exact ⟨fit, forall_none⟩
  · cases took
    exact openIdle_good fit honest _ (forall_one trivial)
  · cases took
end

/-- Every idle session is fit for its entry's key, and every party honest about it. -/
structure Lends (pool : SessionPool ι κ) : Prop where
  fit : ∀ (e : Nat) (entry : Entry ι κ), pool.entries[e]? = some entry →
    ∀ idle ∈ entry.idle, idle.ride.session.Fit entry.key
  honest : ∀ party ∈ pool.parties, ∀ (e : Nat) (entry : Entry ι κ), party.entry = some e →
    pool.entries[e]? = some entry → party.Honest entry.key

variable {pool : SessionPool ι κ} {party : Party ι κ} {entry : Entry ι κ}

/-- Parties join that refer to no entry, or are honest about theirs. -/
theorem Lends.join (lends : Lends pool) {news : List (Party ι κ)}
    (honest : ∀ party ∈ news, ∀ (e : Nat) (entry : Entry ι κ), party.entry = some e → pool.entries[e]? = some entry →
      party.Honest entry.key) : Lends { pool with parties := pool.parties ++ news } where
  fit := lends.fit
  honest party member := (List.mem_append.mp member).elim (lends.honest party) (honest party)

/-- One entry changes, but not its key, and a party goes on. -/
theorem Lends.turn {turn : Turn ι κ} (lends : Lends pool) (here : pool.entries[e]? = some entry)
    (fair : Fair pool.world e party entry turn) (good : Good entry.key turn) (world : World)
    (closed dropped : List Nat) :
    Lends { pool with
      world := world, entries := pool.entries.set e turn.entry, parties := goOn pool.parties i turn.news
      closed := closed, dropped := dropped } := by
  refine ⟨fun other found there => ?_, forall_goOn
    (fun party member other found at_other there => ?_) fun new fresh other found at_other there => ?_⟩
  · obtain ⟨rfl, rfl⟩ | ⟨-, old⟩ := getElem?_set_cases there
    · rw [fair.key]
      exact good.idle
    · exact lends.fit other found old
  · obtain ⟨rfl, rfl⟩ | ⟨-, old⟩ := getElem?_set_cases there
    · rw [fair.key]
      exact lends.honest party member other entry at_other here
    · exact lends.honest party member other found at_other old
  · obtain same | none' := fair.here new fresh
    · cases same.symm.trans at_other
      obtain ⟨-, rfl⟩ | ⟨elsewhere, -⟩ := getElem?_set_cases there
      · rw [fair.key]
        exact good.news new fresh
      · exact absurd rfl elsewhere
    · rw [none'] at at_other
      cases at_other

theorem Lends.retire (lends : Lends pool) (here : pool.entries[e]? = some entry) : Lends (pool.retire e entry) := by
  refine ⟨fun other found there => ?_, fun party member other found at_other there => ?_⟩
  · obtain ⟨-, rfl⟩ | ⟨-, old⟩ := getElem?_set_cases there
    · exact fun idle member => nomatch member
    · exact lends.fit other found old
  · obtain old | new := List.mem_append.mp member
    · obtain ⟨rfl, rfl⟩ | ⟨-, there⟩ := getElem?_set_cases there
      · exact lends.honest party old other entry at_other here
      · exact lends.honest party old other found at_other there
    · rw [mem_closeInBackground new] at at_other
      cases at_other

theorem Lends.evict (lends : Lends pool) (ttl : Nat) : Lends (pool.evict ttl) := by
  have there {e : Nat} {entry : Entry ι κ} (found : (pool.evict ttl).entries[e]? = some entry) :
      ∃ old, pool.entries[e]? = some old ∧ entry = { old with idle := old.idle.filter (!pool.expires ttl e ·) } := by
    rw [SessionPool.evict, List.getElem?_mapIdx] at found
    obtain ⟨old, here, rfl⟩ := Option.map_eq_some_iff.mp found
    exact ⟨old, here, rfl⟩
  refine ⟨fun e entry found => ?_, fun party member e entry at_e found => ?_⟩
  · obtain ⟨old, here, rfl⟩ := there found
    exact fun idle member => lends.fit e old here idle (List.mem_of_mem_filter member)
  · obtain ⟨old, here, rfl⟩ := there found
    obtain before | new := List.mem_append.mp member
    · exact lends.honest party before e old at_e here
    · rw [List.mem_singleton.mp new] at at_e
      cases at_e

theorem Lends.sweep (lends : Lends pool) (i : Nat) : Lends (pool.sweep i) where
  fit := lends.fit
  honest := forall_goOn lends.honest forall_none

theorem Books.owned (books : Books pool) (member : party ∈ pool.parties) (owns : session ∈ party.sessions) :
    session < pool.world.opened := by
  have total := books.once session
  have one : 0 < holds session party := List.count_pos_iff.mpr owns
  have all := le_tally (holds session) member
  refine List.mem_range.mp (List.count_pos_iff.mp ?_)
  omega

section
variable [DecidableEq ι]

theorem Lends.insert (lends : Lends pool) (books : Books pool) (key : PoolKey ι κ) : Lends (pool.insert key) := by
  refine ⟨fun e entry found => ?_, fun party member e entry at_e found => ?_⟩
  · obtain old | ⟨-, rfl⟩ := getElem?_concat_cases found
    · exact lends.fit e entry old
    · exact fun idle member => nomatch member
  · obtain old | ⟨rfl, -⟩ := getElem?_concat_cases found
    · exact lends.honest party member e entry at_e old
    · exact absurd (books.known party member _ at_e).1 (Nat.lt_irrefl _)

variable [DecidableEq κ]

theorem Lends.arrive (lends : Lends pool) (books : Books pool) (key : PoolKey ι κ) (arriving : Nat → Party ι κ)
    (honest : ∀ e, (arriving e).Honest key) (there : ∀ e, (arriving e).entry = some e) :
    Lends (pool.arrive key arriving) := by
  have found : Lends (pool.entryFor key).2 := by
    unfold SessionPool.entryFor
    split
    · exact lends.insert books key
    · next e entry found =>
      obtain ⟨-, here⟩ := find_some found
      split
      · exact lends
      · exact (lends.retire here).insert (books.retire here) key
  obtain ⟨-, -, entry, here, mine⟩ := books.entryFor key
  refine found.join fun party member e entry' at_e here' => ?_
  rw [List.mem_singleton.mp member] at at_e ⊢
  cases (there _).symm.trans at_e
  cases here.symm.trans here'
  rw [mine]
  exact honest _

def SessionPool.keepsMarks (pool : SessionPool ι κ) : Action ι κ → Bool
  | .turn i event => pool.parties[i]?.all (·.keepsMarks event)
  | _ => true

/-- A step that keeps the marks keeps the idle sessions fit and the parties honest. -/
theorem step_lends (pool : SessionPool ι κ) (action : Action ι κ) (next : SessionPool ι κ)
    (both : Books pool ∧ Lends pool) (careful : pool.keepsMarks action = true)
    (stepped : pool.step action = some next) :
    Books next ∧ Lends next := by
  obtain ⟨books, lends⟩ := both
  refine ⟨step_books pool action next books stepped, ?_⟩
  cases action with
  | checkout config lane | warm config | openUnleased config =>
    cases stepped
    exact lends.arrive books _ _ (fun _ => rfl) fun _ => rfl
  | evict ttl =>
    cases stepped
    exact lends.evict ttl
  | sweep i =>
    obtain ⟨-, same⟩ := Option.ite_none_right_eq_some.mp stepped
    cases same
    exact lends.sweep i
  | elapse time | tunnelDies tunnel =>
    cases stepped
    exact { lends with }
  | turn i event =>
    obtain ⟨party, acting, went⟩ := Option.bind_eq_some_iff.mp stepped
    have member : party ∈ pool.parties := List.mem_of_getElem? acting
    rw [SessionPool.keepsMarks, acting, Option.all_some] at careful
    cases at_e : party.entry with
    | some e =>
      rw [at_e] at went
      obtain ⟨entry, here, went⟩ := Option.bind_eq_some_iff.mp went
      obtain ⟨turn, took, rfl⟩ := Option.map_eq_some_iff.mp went
      have good := turn_good (lends.fit e entry here) (lends.honest party member e entry at_e here)
        (fun session owns => Nat.ne_of_lt (books.owned member owns)) careful took
      exact lends.turn here (turn_fair (books.placed party member) at_e took) good _ _ _
    | none =>
      rw [at_e] at went
      obtain ⟨⟨news, closed, dropped⟩, took, rfl⟩ := Option.map_eq_some_iff.mp went
      refine ⟨lends.fit, forall_goOn lends.honest fun new fresh e entry at_new => ?_⟩
      rw [aside_free took new fresh] at at_new
      cases at_new
end

def SessionPool.handsOut (pool : SessionPool ι κ) : Action ι κ → Option (Config ι κ × Nat × Idle ι κ)
  | .turn i .go =>
    match pool.parties[i]? with
    | some (.looking config e lane waited) =>
      pool.entries[e]?.bind fun entry =>
        match (entry.look pool.world lane waited).2 with
        | .reuse idle => some (config, e, idle)
        | _ => none
    | _ => none
  | _ => none

/-- A session handed out is the config's, idle in an entry that was not retired, lent to
nobody, on a tunnel that lives; and its last lease left nothing on it and was followed by
a reset that returned `Ok`. -/
structure LentClean (pool : SessionPool ι κ) (config : Config ι κ) (e : Nat) (idle : Idle ι κ) : Prop where
  opened : idle.ride.session.key = config.key
  unretired : ∃ entry, pool.entries[e]? = some entry ∧ entry.key = config.key ∧ entry.retired = false ∧
    idle ∈ entry.idle
  alone : ∀ party ∈ pool.parties, idle.ride.session.id ∉ party.sessions
  tunnel : ∀ tunnel, idle.ride.tunnel = some tunnel → pool.world.alive tunnel = true
  clean : ∀ past, idle.ride.session.past = some past → past.resetOk = true ∧ Unmarked config.key.identity.kind past

/-- A session that is idle is owned by no party. -/
theorem Books.alone {e : Nat} (books : Books pool) (here : pool.entries[e]? = some entry) {idle : Idle ι κ}
    (inside : idle ∈ entry.idle) :
    ∀ party ∈ pool.parties, idle.ride.session.id ∉ party.sessions := by
  intro party member owns
  have total := books.once idle.ride.session.id
  have one : 0 < holds idle.ride.session.id party := List.count_pos_iff.mpr owns
  have owned := le_tally (holds idle.ride.session.id) member
  have other : 0 < idles idle.ride.session.id entry := List.count_pos_iff.mpr (List.mem_map.mpr ⟨idle, inside, rfl⟩)
  have idles := le_tally (idles idle.ride.session.id) (List.mem_of_getElem? here)
  have once := List.nodup_iff_count_le_one.mp (List.nodup_range (n := pool.world.opened)) idle.ride.session.id
  omega

theorem Lends.lentClean (books : Books pool) (lends : Lends pool) {action : Action ι κ} {config : Config ι κ}
    {idle : Idle ι κ} (out : pool.handsOut action = some (config, e, idle)) : LentClean pool config e idle := by
  unfold SessionPool.handsOut at out
  split at out
  · next i =>
    split at out
    · next config' e' lane waited acting =>
      obtain ⟨entry, here, out⟩ := Option.bind_eq_some_iff.mp out
      obtain ⟨warmest, cooler, shape, -, decided⟩ | decided | ⟨-, decided⟩ :=
        look_cases pool.world lane waited entry <;>
        rw [decided] at out <;> cases out
      have swept : idle ∈ (entry.swept pool.world).idle := by
        rw [shape]
        exact List.mem_append_right _ (List.mem_singleton_self _)
      obtain ⟨inside, alive⟩ := List.mem_filter.mp swept
      have mine : config.key = entry.key := lends.honest _ (List.mem_of_getElem? acting) e entry rfl here
      obtain ⟨opened, clean⟩ := lends.fit e entry here idle inside
      refine ⟨opened.trans mine.symm, ⟨entry, here, mine.symm, ?_, inside⟩, books.alone here inside,
        fun tunnel rides => ?_, ?_⟩
      · refine Bool.eq_false_iff.mpr fun retired => ?_
        rw [books.cleared e entry here (.inl retired)] at inside
        cases inside
      · rw [Ride.stranded, rides] at alive
        simpa using alive
      · rw [mine]
        exact clean
    · cases out
  · cases out

section
variable [DecidableEq ι] [DecidableEq κ]

/-- In a run whose steps keep the marks of every lease, a checkout hands out clean
sessions only. -/
theorem lends_clean (actions : List (Action ι κ)) (pool : SessionPool ι κ)
    (ran : run SessionPool.step {} actions = some pool)
    (careful : Along SessionPool.step (fun pool action => pool.keepsMarks action = true) {} actions)
    (action : Action ι κ) (config : Config ι κ) (e : Nat) (idle : Idle ι κ)
    (out : pool.handsOut action = some (config, e, idle)) : LentClean pool config e idle := by
  have empty : Lends ({} : SessionPool ι κ) := ⟨fun _ _ found => (nomatch found), fun _ member => (nomatch member)⟩
  obtain ⟨books, lends⟩ := run_invariant_along (fun pool => Books pool ∧ Lends pool) step_lends ⟨books_empty,
    empty⟩ careful ran
  exact lends.lentClean books out
end

/-- A PostgreSQL session runs a statement, whose cursor gets these answers; then it is given back, reset and parked, and
the next checkout looks for one. -/
def reading (answers : List Answer) : List (Action Nat Nat) :=
  [.checkout previewConfig .query, .turn 0 .go, .turn 0 .go, .turn 0 (.ended .ok),
    .turn 0 (.call {} (.execute [] (some 5)))] ++ answers.map (fun answer => .turn 0 (.read 0 answer)) ++
    [.turn 0 .release, .turn 0 .go, .turn 0 (.ended .ok), .turn 0 .go, .checkout previewConfig .query]

/-- A session whose cursor was read to its end is handed out clean. -/
theorem lends_clean_read :
    ∃ pool idle, run SessionPool.step {} (reading [.batch 2, .batch 1, .none]) = some pool ∧
      pool.handsOut (.turn 0 .go) = some (previewConfig, 0, idle) ∧ LentClean pool previewConfig 0 idle := by
  obtain ⟨pool, idle, ran, out⟩ : ∃ pool idle, run SessionPool.step {}
    (reading [.batch 2, .batch 1, .none]) = some pool ∧
      pool.handsOut (.turn 0 .go) = some (previewConfig, 0, idle) := ⟨_, _, rfl, rfl⟩
  exact ⟨pool, idle, ran, out, lends_clean _ pool ran (by decide) _ _ _ idle out⟩

/-- A call is dropped half-way, another on the same session returns, and the session goes
back as if nothing was left on it. -/
theorem dropped_call_forgotten :
    ∃ pool idle, run SessionPool.step ({} : SessionPool Nat Nat)
        [.checkout previewConfig .metadata, .turn 0 .go, .turn 0 .go, .turn 0 (.ended .ok),
          .turn 0 (.call { first := .dropped } .browse), .turn 0 (.call {} .browse), .turn 0 .release, .turn 0 .go,
          .turn 0 (.ended .ok), .turn 0 .go, .checkout previewConfig .metadata] = some pool ∧
      pool.handsOut (.turn 0 .go) = some (previewConfig, 0, idle) ∧ ¬LentClean pool previewConfig 0 idle := by
  refine ⟨_, _, rfl, rfl, fun clean => ?_⟩
  have settled := (clean.clean _ rfl).2.settled
  cases settled

/-- A cursor fails without an answer of the server and is read on to the end, which is taken for the server's. -/
theorem lost_cursor_read_on :
    ∃ pool idle, run SessionPool.step {} (reading [.failed (.internal "no row"), .none]) = some pool ∧
      pool.handsOut (.turn 0 .go) = some (previewConfig, 0, idle) ∧ ¬LentClean pool previewConfig 0 idle := by
  refine ⟨_, _, rfl, rfl, fun clean => ?_⟩
  obtain ⟨before, answer, later, split, ends⟩ := (clean.clean _ rfl).2.cursors rfl _ (List.mem_singleton_self _)
  have shape : [.failed (.internal "no row"), .none] = before ++ answer :: later := split
  obtain _ | ⟨first, _ | ⟨second, before⟩⟩ := before
  · cases shape
    cases ends
  · cases shape
    cases ends.2 _ (List.mem_singleton_self _)
  · have length := congrArg List.length shape
    simp at length

end QueryHive.Host.Pool
