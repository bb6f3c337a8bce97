import QueryHive.Driver.MysqlTransactions

/-! A MySQL session keeps a transaction on one connection as long as its flag tells what the
server knows: the first two words of a statement say what it does, and a statement that
changes the flag reaches the server and is accepted. -/
namespace QueryHive.Driver.MysqlTransactions
open QueryHive.Library

namespace World

/-- The connection that the session has, or has lent. -/
def current (w : World) : Option Nat :=
  match w.session.idle with
  | some conn => some conn
  | none => w.session.flight.map (·.conn)

/-- A transaction is open on the session's connection, or was open on one that is gone. -/
def pending (w : World) : Bool := w.gone || w.current.any (w.link · == .transaction)

/-- What the flag has to be, counting a statement that the server has not answered yet. -/
def expected (w : World) : Bool :=
  match w.session.flight with
  | some flight => if flight.stage = .sent then (serverEffect flight.sql).apply w.pending else w.pending
  | none => w.pending

end World
open World

/-- The flag tells what the server knows. -/
structure Standing (w : World) : Prop where
  exclusive : w.session.idle ≠ none → w.session.flight = none
  others : ∀ k, w.link k = .transaction → w.current = some k
  closed : w.gone = true → ∀ k, w.current = some k → w.link k = .closed
  ended : ∀ flight, w.session.flight = some flight → flight.stage = .finished false → w.link flight.conn = .closed
  flag : w.session.inTransaction = w.expected
  lost : w.session.transactionLost = true → w.gone = true ∧ w.session.idle = none ∧ w.session.flight = none
  unborn : ∀ k, w.nextConn ≤ k → w.link k = .closed
  described : ∀ flight, w.session.flight = some flight → flight.described = true → serverEffect flight.sql = .keeps
  rolling : ∀ flight, w.session.flight = some flight → flight.stage = .sent → serverEffect flight.sql = .rollsBack →
    w.gone = false

/-- The session in the middle of a call, with a connection. -/
structure Holding (w : World) (conn : Nat) : Prop where
  idle : w.session.idle = none
  flight : w.session.flight = none
  others : ∀ k, w.link k = .transaction → k = conn
  flag : w.session.inTransaction = (w.gone || w.link conn == .transaction)
  unborn : ∀ k, w.nextConn ≤ k → w.link k = .closed

/-- The session in the middle of a call, without a connection. -/
structure Stranded (w : World) : Prop where
  idle : w.session.idle = none
  flight : w.session.flight = none
  others : ∀ k, w.link k ≠ .transaction
  flag : w.session.inTransaction = w.gone
  lost : w.session.transactionLost = true → w.gone = true
  unborn : ∀ k, w.nextConn ≤ k → w.link k = .closed

theorem Stranded.standing (stranded : Stranded w) : Standing w where
  exclusive := fun idle => absurd stranded.idle idle
  others := fun k opened => absurd opened (stranded.others k)
  closed := fun _ k isCurrent => by simp [current, stranded.idle, stranded.flight] at isCurrent
  ended := fun _ flight => nomatch stranded.flight.symm.trans flight
  flag := by simp [expected, pending, current, stranded.idle, stranded.flight, stranded.flag]
  lost := fun lost => ⟨stranded.lost lost, stranded.idle, stranded.flight⟩
  unborn := stranded.unborn
  described := fun _ flight => nomatch stranded.flight.symm.trans flight
  rolling := fun _ flight => nomatch stranded.flight.symm.trans flight

/-- A connection that goes back to the session. -/
theorem Holding.standing (holding : Holding w conn) (closed : w.gone = true → w.link conn = .closed)
    (lost : w.session.transactionLost = false) : Standing { w with session.idle := some conn } where
  exclusive := fun _ => holding.flight
  others := fun k opened => congrArg some (holding.others k opened).symm
  closed := fun gone k isCurrent => by
    cases isCurrent
    exact closed gone
  ended := fun _ flight => nomatch holding.flight.symm.trans flight
  flag := by simp [expected, pending, current, holding.flight, holding.flag]
  lost := fun isLost => nomatch lost.symm.trans isLost
  unborn := holding.unborn
  described := fun _ flight => nomatch holding.flight.symm.trans flight
  rolling := fun _ flight => nomatch holding.flight.symm.trans flight

/-- What becomes of a call's request for a connection. -/
structure Connected (w w' : World) (mayReplace : Bool) (conn : Nat) : Prop where
  holding : Holding w' conn
  closed : w'.gone = true → w'.link conn = .closed ∨ mayReplace = true
  lost : mayReplace = false → w'.session.transactionLost = false
  moved : ∀ k, w.link k = .transaction → k = conn ∨ w'.link k = .closed ∧ mayReplace = true
  gone : w.gone = true → w'.gone = true
  sameFlag : w'.session.inTransaction = w.session.inTransaction

theorem replace_spec (stranded : Stranded w) :
    (∀ conn, connection.replace mayReplace opened w = (w', .ok conn) →
      Holding w' conn ∧ (w'.gone = true → mayReplace = true) ∧
        (mayReplace = false → w'.session.transactionLost = false) ∧
        w'.gone = w.gone ∧ w'.session.inTransaction = w.session.inTransaction ∧ ∀ k, k ≠ conn → w'.link k = w.link k) ∧
    ∀ refusal, connection.replace mayReplace opened w = (w', .error refusal) →
      Standing w' ∧ (refusal = .transactionLost → w'.gone = true) := by
  unfold connection.replace
  constructor
  · intro conn connected
    split at connected
    · cases connected
    · next may =>
      split at connected
      · cases connected
        have flagged : w.session.inTransaction = true → mayReplace = true := by simpa using may
        have apart (k : Nat) : Function.update w.link w.nextConn .autocommit k ≠ .transaction := by
          by_cases same : k = w.nextConn
          · simp [same]
          · simpa [Function.update_of_ne same] using stranded.others k
        refine ⟨⟨stranded.idle, stranded.flight, fun k opened => absurd opened (apart k), ?_, fun k later => ?_⟩,
          fun gone => ?_,
          fun forbidden => ?_, rfl, rfl, fun k differs => Function.update_of_ne differs ..⟩
        · simp [stranded.flag]
        · have differs : k ≠ w.nextConn := by
            simp only at later
            omega
          simp only [Function.update_of_ne differs]
          exact stranded.unborn k (by simp only at later; omega)
        · exact flagged (stranded.flag.trans gone)
        · by_contra lost
          have gone := stranded.lost (by simpa using lost)
          cases forbidden.symm.trans (flagged (stranded.flag.trans gone))
      · cases connected
  · intro refusal refused
    split at refused
    · next forbidden =>
      cases refused
      have gone : w.gone = true := stranded.flag.symm.trans (Bool.and_eq_true_iff.mp forbidden).1
      exact ⟨Stranded.standing ⟨stranded.idle, stranded.flight, stranded.others, stranded.flag, fun _ => gone,
        stranded.unborn⟩,
        fun _ => gone⟩
    · split at refused
      · cases refused
      · cases refused
        exact ⟨stranded.standing, nofun⟩

theorem lose_transaction {w : World} : (w.lose conn).link k = .transaction ↔ k ≠ conn ∧ w.link k = .transaction := by
  by_cases same : k = conn
  · subst same
    simp [lose]
  · simp [lose, same]

theorem lose_closed {w : World} (closed : w.link k = .closed) : (w.lose conn).link k = .closed := by
  by_cases same : k = conn
  · subst same
    simp [lose]
  · simpa [lose, same] using closed

theorem lose_self {w : World} : (w.lose conn).link conn = .closed := by simp [lose]

theorem Standing.stranded {session : MysqlSession} (standing : Standing w) (idle : session.idle = none)
    (flight : session.flight = none)
    (flag : session.inTransaction = w.pending) (lost : session.transactionLost = true → w.gone = true)
    (others : ∀ k, w.link k ≠ .transaction) : Stranded { w with session := session } where
  idle := idle
  flight := flight
  others := others
  flag := by
    rw [flag, pending]
    cases isCurrent : w.current with
    | none => simp
    | some k => simp [others k]
  lost := lost
  unborn := standing.unborn

theorem connection_spec (standing : Standing w) (settled : w.returned = true) :
    (∀ conn, w.connection mayReplace opened = (w', .ok conn) → Connected w w' mayReplace conn) ∧
    ∀ refusal, w.connection mayReplace opened = (w', .error refusal) → Standing w' ∧
      (refusal = .transactionLost → w'.gone = true) := by
  unfold connection
  cases idle : w.session.idle with
  | some first =>
    constructor
    · intro conn connected
      cases connected
      have none' : w.session.flight = none := standing.exclusive (by simp [idle])
      have isCurrent : w.current = some first := by simp [current, idle]
      have notLost : w.session.transactionLost = false := by
        by_contra lost
        cases idle.symm.trans (standing.lost (by simpa using lost)).2.1
      refine ⟨⟨rfl, none', fun k opened => ?_, ?_, standing.unborn⟩,
        fun gone => .inl (standing.closed gone first isCurrent),
        fun _ => notLost, fun k opened => .inl ?_, fun gone => gone, rfl⟩
      · exact Option.some.inj ((standing.others k opened).symm.trans isCurrent)
      · simpa [expected, none', pending, isCurrent] using standing.flag
      · exact Option.some.inj ((standing.others k opened).symm.trans isCurrent)
    · intro refusal refused
      cases refused
  | none =>
    cases flight : w.session.flight with
    | none =>
      have isCurrent : w.current = none := by simp [current, idle, flight]
      have stranded : Stranded w := standing.stranded idle flight (by simpa [expected, flight] using standing.flag)
        (fun lost => (standing.lost lost).1) fun k opened => nomatch isCurrent.symm.trans (standing.others k opened)
      obtain ⟨connects, refuses⟩ := replace_spec stranded
      refine ⟨fun conn connected => ?_, refuses⟩
      obtain ⟨holding, closed, notLost, gone, sameFlag, -⟩ := connects conn connected
      exact ⟨holding, fun gone => .inr (closed gone), notLost, fun k opened => absurd opened (stranded.others k),
        fun isGone => gone.trans isGone, sameFlag⟩
    | some flight' =>
      have isCurrent : w.current = some flight'.conn := by simp [current, idle, flight]
      have others (k : Nat) (opened : w.link k = .transaction) : k = flight'.conn :=
        Option.some.inj ((standing.others k opened).symm.trans isCurrent)
      have notLost : w.session.transactionLost = false := by
        by_contra lost
        cases flight.symm.trans (standing.lost (by simpa using lost)).2.2
      have flag : w.session.inTransaction = w.pending := by
        simp only [standing.flag, expected, flight]
        split
        · next sent =>
          have described : flight'.described = true := by simpa [returned, flight, sent] using settled
          rw [standing.described flight' flight described, ServerEffect.apply]
        · rfl
      -- the connection is given up, and with it a transaction that is open on it
      have abandoned (outcome : World × Except Refusal Nat)
          (isReplaced : outcome = connection.replace mayReplace opened
          { w.lose flight'.conn with session.flight := none }) :
          (∀ conn, outcome = (w', .ok conn) → Connected w w' mayReplace conn) ∧
            ∀ refusal, outcome = (w', .error refusal) → Standing w' ∧
              (refusal = .transactionLost → w'.gone = true) := by
        have lostGone : (w.lose flight'.conn).gone = w.pending := by simp [lose, pending, isCurrent]
        have stranded : Stranded { w.lose flight'.conn with session.flight := none } := by
          refine ⟨idle, rfl, fun k opened => ?_, flag.trans lostGone.symm,
            fun lost => (nomatch notLost.symm.trans lost),
            fun k later => lose_closed (standing.unborn k later)⟩
          obtain ⟨differs, opened⟩ := lose_transaction.mp opened
          exact differs (others k opened)
        obtain ⟨connects, refuses⟩ := replace_spec stranded
        rw [isReplaced]
        refine ⟨fun conn connected => ?_, refuses⟩
        obtain ⟨holding, closed, notLost', gone, sameFlag, kept⟩ := connects conn connected
        refine ⟨holding, fun gone => .inr (closed gone), notLost', fun k opened => ?_, fun isGone => ?_, sameFlag⟩
        · by_cases same : k = conn
          · exact .inl same
          · have isFlight := others k opened
            subst isFlight
            refine .inr ⟨(kept _ same).trans lose_self, closed (gone.trans ?_)⟩
            simp [lose, opened]
        · exact gone.trans (by simp [lose, isGone])
      cases stage : flight'.stage with
      | finished handedBack =>
        cases handedBack with
        | true =>
          simp only [stage]
          constructor
          · intro conn connected
            cases connected
            refine ⟨⟨idle, rfl, others, ?_, standing.unborn⟩, fun gone => .inl (standing.closed gone _ isCurrent),
              fun _ => notLost,
              fun k opened => .inl (others k opened), fun gone => gone, rfl⟩
            simpa [pending, isCurrent] using flag
          · intro refusal refused
            cases refused
        | false =>
          simp only [stage]
          have closed := standing.ended flight' flight stage
          have apart (k : Nat) : w.link k ≠ .transaction := fun opened => by
            rw [others k opened, closed] at opened
            cases opened
          have stranded : Stranded { w with session.flight := none } :=
            standing.stranded idle rfl flag (fun lost => (standing.lost lost).1) apart
          obtain ⟨connects, refuses⟩ := replace_spec stranded
          refine ⟨fun conn connected => ?_, refuses⟩
          obtain ⟨holding, closed, notLost, gone, sameFlag, -⟩ := connects conn connected
          exact ⟨holding, fun gone => .inr (closed gone), notLost, fun k opened => absurd opened (apart k),
            fun isGone => gone.trans isGone, sameFlag⟩
      | sent =>
        cases cursor : flight'.cursorGone with
        | true => exact abandoned _ (by simp only [stage, cursor])
        | false =>
          simp only [stage, cursor]
          exact ⟨fun conn connected => (nomatch connected),
            fun refusal refused => by cases refused; exact ⟨standing, nofun⟩⟩
      | answered =>
        cases cursor : flight'.cursorGone with
        | true => exact abandoned _ (by simp only [stage, cursor])
        | false =>
          simp only [stage, cursor]
          exact ⟨fun conn connected => (nomatch connected),
            fun refusal refused => by cases refused; exact ⟨standing, nofun⟩⟩

theorem ask_spec {w w' : World} (asked : w.ask conn reply = some (w', accepted)) :
    reply = .lost ∧ w' = w.lose conn ∧ accepted = false ∨
      reply ≠ .lost ∧ w' = w ∧ (accepted = true ↔ reply = .ok) ∧ w.link conn ≠ .closed := by
  cases reply with
  | lost =>
    cases asked
    exact .inl ⟨rfl, rfl, rfl⟩
  | ok =>
    simp only [ask] at asked
    split at asked
    · cases asked
    · next opened =>
      cases asked
      exact .inr ⟨nofun, rfl, by simp, opened⟩
  | refused =>
    simp only [ask] at asked
    split at asked
    · cases asked
    · next opened =>
      cases asked
      exact .inr ⟨nofun, rfl, by simp, opened⟩

theorem Holding.lose (holding : Holding w conn) : Holding (w.lose conn) conn where
  idle := holding.idle
  flight := holding.flight
  others := fun k opened => holding.others k (lose_transaction.mp opened).2
  flag := by
    have shut : (Link.closed == Link.transaction) = false := rfl
    simpa [World.lose, shut] using holding.flag
  unborn := fun k later => lose_closed (holding.unborn k later)

/-- A statement of the driver's own that failed leaves the session with its connection. -/
theorem ask_refused {w w' : World} (asked : w.ask conn reply = some (w', false)) :
    reply ≠ .ok ∧ (Holding w conn → (w.gone = true → w.link conn = .closed) → w.session.transactionLost = false →
      Standing { w' with session.idle := some conn }) := by
  rcases ask_spec asked with ⟨rfl, rfl, -⟩ | ⟨-, rfl, accepted, -⟩
  · exact ⟨nofun, fun holding _ lost => holding.lose.standing (fun _ => lose_self) lost⟩
  · exact ⟨fun isOk => (nomatch accepted.mpr isOk), fun holding closed lost => holding.standing closed lost⟩

/-- The same world but for the session's settings. -/
structure Resettled (w w' : World) : Prop where
  link : w'.link = w.link
  gone : w'.gone = w.gone
  nextConn : w'.nextConn = w.nextConn
  idle : w'.session.idle = w.session.idle
  flight : w'.session.flight = w.session.flight
  inTransaction : w'.session.inTransaction = w.session.inTransaction
  transactionLost : w'.session.transactionLost = w.session.transactionLost

theorem Resettled.holding (resettled : Resettled w w') (holding : Holding w conn) : Holding w' conn where
  idle := resettled.idle.trans holding.idle
  flight := resettled.flight.trans holding.flight
  others := fun k opened => holding.others k (resettled.link ▸ opened)
  flag := by rw [resettled.inTransaction, resettled.gone, resettled.link, holding.flag]
  unborn := fun k later => by
    rw [resettled.link]
    exact holding.unborn k (resettled.nextConn ▸ later)

theorem use_ok {w w' : World} (used : w.useWantedDatabase conn reply = some (w', true)) : Resettled w w' := by
  unfold useWantedDatabase at used
  split at used
  · cases used
    exact ⟨rfl, rfl, rfl, rfl, rfl, rfl, rfl⟩
  · split at used
    · cases used
      exact ⟨rfl, rfl, rfl, rfl, rfl, rfl, rfl⟩
    · obtain ⟨⟨asked, accepted⟩, isAsked, same⟩ := Option.map_eq_some_iff.mp used
      cases same
      rcases ask_spec isAsked with ⟨-, -, no⟩ | ⟨-, rfl, -, -⟩
      · cases no
      · exact ⟨rfl, rfl, rfl, rfl, rfl, rfl, rfl⟩

theorem use_refused {w w' : World} (used : w.useWantedDatabase conn reply = some (w', false)) :
    w.ask conn reply = some (w', false) := by
  unfold useWantedDatabase at used
  split at used
  · cases used
  · split at used
    · cases used
    · obtain ⟨⟨asked, accepted⟩, isAsked, same⟩ := Option.map_eq_some_iff.mp used
      cases same
      exact isAsked

theorem settings_ok {w w' : World} (set : w.applySessionSettings conn wanted reply = some (w', true)) : w' = w := by
  unfold applySessionSettings at set
  split at set
  · cases set
    rfl
  · rcases ask_spec set with ⟨-, -, no⟩ | ⟨-, rfl, -, -⟩
    · cases no
    · rfl

theorem settings_refused {w w' : World} (set : w.applySessionSettings conn wanted reply = some (w', false)) :
    w.ask conn reply = some (w', false) := by
  unfold applySessionSettings at set
  split at set
  · cases set
  · exact set

/-- Either everything before the statement was accepted, or the session keeps its connection. -/
theorem prepare_spec {w w' : World} (prepared : w.prepare conn wanted fates = some (w', outcome)) :
    (outcome = none → Resettled w w') ∧
      ∀ refusal, outcome = some refusal → refusal ≠ .transactionLost ∧ (fates.use ≠ .ok ∨ fates.set ≠ .ok) ∧
        (Holding w conn → (w.gone = true → w.link conn = .closed) → w.session.transactionLost = false →
        Standing w') := by
  unfold prepare at prepared
  split at prepared
  · cases prepared
  · next used =>
    cases prepared
    refine ⟨nofun, fun refusal isUse => ?_⟩
    cases isUse
    obtain ⟨notOk, back⟩ := ask_refused (use_refused used)
    exact ⟨nofun, .inl notOk, back⟩
  · next middle used =>
    have resettled := use_ok used
    split at prepared
    · cases prepared
    · next set =>
      cases prepared
      refine ⟨nofun, fun refusal isSet => ?_⟩
      cases isSet
      obtain ⟨notOk, back⟩ := ask_refused (settings_refused set)
      refine ⟨nofun, .inr notOk, fun holding closed lost => ?_⟩
      refine back (resettled.holding holding) (fun gone => ?_) (resettled.transactionLost.trans lost)
      rw [resettled.link]
      exact closed (resettled.gone ▸ gone)
    · next last set =>
      cases prepared
      have same := settings_ok set
      subst same
      exact ⟨fun _ => ⟨resettled.link, resettled.gone, resettled.nextConn, resettled.idle, resettled.flight,
        resettled.inTransaction, resettled.transactionLost⟩, nofun⟩

/-- The statement of a call is a `ROLLBACK`. -/
def Action.isRollback : Action → Bool
  | textRows sql _ => serverEffect sql == .rollsBack
  | run sql _ _ => serverEffect sql == .rollsBack
  | _ => false

/-- A call sends its statement on the connection of the open transaction or not at all; on
another connection than the one that is gone it sends only a `ROLLBACK`; and it refuses a
statement for a lost transaction only when one is lost. -/
def Fair (w w' : World) (isRollback : Bool) : Outcome → Prop
  | .sent conn =>
    (∀ k, w.link k = .transaction → k = conn ∨ w'.link k = .closed ∧ isRollback = true) ∧
      (w.gone = true ∨ w'.gone = true → isRollback = true ∨ w'.link conn = .closed)
  | .refused refusal => refusal = .transactionLost → w'.gone = true

/-- The step, if it is a call, ends as it has to. -/
def Kept (readers : Readers) (w : World) (action : Action) : Prop :=
  ∀ w' outcome, step readers w action = some (w', some outcome) → Fair w w' action.isRollback outcome

/-- The first two words say what the statement does to the transaction, as it stands; and a
statement that changes the flag is sent, received and accepted. -/
def Truthful (w : World) : Action → Prop
  | .textRows sql _ => serverEffect sql = .keeps
  | .run sql _ fates =>
    (txnEffect sql).apply w.session.inTransaction = (serverEffect sql).apply w.session.inTransaction ∧
      (txnEffect sql = .rollback → serverEffect sql = .rollsBack) ∧
      ((txnEffect sql).apply w.session.inTransaction = w.session.inTransaction ∨ fates.use = .ok ∧ fates.set = .ok)
  | .answer false => ∀ flight ∈ w.session.flight, (serverEffect flight.sql).apply w.pending = w.pending
  | .finish false => ∀ flight ∈ w.session.flight, flight.stage = .sent →
      (serverEffect flight.sql).apply w.pending = w.pending ∨ serverEffect flight.sql = .rollsBack
  | _ => True

instance (w : World) : ∀ action, Decidable (Truthful w action)
  | .textRows .. => inferInstanceAs (Decidable (_ = _))
  | .run .. => inferInstanceAs (Decidable (_ ∧ _))
  | .answer false => inferInstanceAs (Decidable (∀ flight ∈ w.session.flight, _))
  | .finish false => inferInstanceAs (Decidable (∀ flight ∈ w.session.flight, _))
  | .setContext _ => .isTrue trivial
  | .answer true => .isTrue trivial
  | .finish true => .isTrue trivial
  | .dropCursor => .isTrue trivial

theorem accept_link {w : World} (sql : List Char) : (w.accept conn sql).link conn =
    if (serverEffect sql).apply (w.link conn == .transaction) = true then .transaction else .autocommit :=
      Function.update_self ..

theorem accept_other {w : World} (sql : List Char) (differs : k ≠ conn) : (w.accept conn sql).link k = w.link k :=
  Function.update_of_ne differs ..

theorem accept_keeps {w : World} (keeps : serverEffect sql = .keeps) (opened : w.link conn ≠ .closed) :
    w.accept conn sql = w := by
  have same :
      (if (serverEffect sql).apply (w.link conn == .transaction) = true then .transaction else .autocommit) =
        w.link conn := by
    rw [keeps, ServerEffect.apply]
    cases link : w.link conn with
    | closed => exact absurd link opened
    | autocommit => rfl
    | transaction => rfl
  simp only [accept, same, Function.update_eq_self]

theorem textRows_kept {w w' : World} (standing : Standing w) (settled : w.returned = true)
    (keeps : serverEffect sql = .keeps)
    (called : textRows readers w sql fates = some (w', outcome)) : Standing w' ∧ Fair w w' false outcome := by
  unfold textRows at called
  split at called
  · cases called
    exact ⟨standing, nofun⟩
  split at called
  · next refusal isRefused =>
    cases called
    exact (connection_spec standing settled).2 refusal isRefused
  next middle conn isConnected =>
  have connected := (connection_spec standing settled).1 conn isConnected
  have closed (gone : middle.gone = true) : middle.link conn = .closed := (connected.closed gone).resolve_right nofun
  split at called
  · cases called
  · next refusal prepared =>
    cases called
    obtain ⟨notLost, -, back⟩ := (prepare_spec prepared).2 refusal rfl
    exact ⟨back connected.holding closed (connected.lost rfl), fun isLost => absurd isLost notLost⟩
  next last prepared =>
  have resettled := (prepare_spec prepared).1 rfl
  have holding := resettled.holding connected.holding
  have lost := resettled.transactionLost.trans (connected.lost rfl)
  have closed (gone : last.gone = true) : last.link conn = .closed := by
    rw [resettled.link]
    exact closed (resettled.gone ▸ gone)
  have moved (k : Nat) (opened : w.link k = .transaction) : k = conn :=
    (connected.moved k opened).resolve_right fun both => (nomatch both.2)
  obtain ⟨⟨asked, accepted⟩, isAsked, same⟩ := Option.map_eq_some_iff.mp called
  cases same
  rcases ask_spec isAsked with ⟨-, rfl, rfl⟩ | ⟨-, rfl, -, opened⟩
  · exact ⟨holding.lose.standing (fun _ => lose_self) lost, fun k opened => .inl (moved k opened),
      fun _ => .inr lose_self⟩
  · have unchanged : (if accepted = true then asked.accept conn sql else asked) = asked := by
      split
      · exact accept_keeps keeps opened
      · rfl
    rw [unchanged]
    refine ⟨holding.standing closed lost, fun k opened => .inl (moved k opened), fun gone => .inr (closed ?_)⟩
    rcases gone with gone | gone
    · exact resettled.gone.trans (connected.gone gone)
    · exact gone

theorem run_kept {w w' : World} (standing : Standing w) (settled : w.returned = true)
    (truthful : Truthful w (.run sql options fates)) (describes : fates.described = true → serverEffect sql = .keeps)
    (called : runStatement readers w sql options fates = some (w', outcome)) :
    Standing w' ∧ Fair w w' (serverEffect sql == .rollsBack) outcome := by
  obtain ⟨told, rolls, delivered⟩ := truthful
  unfold runStatement at called
  split at called
  · cases called
    exact ⟨standing, nofun⟩
  simp only at called
  split at called
  · next barred =>
    cases called
    exact ⟨standing, fun _ => (standing.lost (Bool.and_eq_true_iff.mp barred).1).1⟩
  next admitted =>
  split at called
  · next refusal isRefused =>
    cases called
    exact (connection_spec standing settled).2 refusal isRefused
  next middle conn isConnected =>
  have connected := (connection_spec standing settled).1 conn isConnected
  have closed (gone : middle.gone = true) : middle.link conn = .closed ∨ txnEffect sql = .rollback := by
    simpa using connected.closed gone
  have lost : (middle.expect (txnEffect sql)).session.transactionLost = false := by
    simp only [expect]
    split
    · rfl
    · next other => exact connected.lost (by simp_all)
  split at called
  · cases called
  · next refusal prepared =>
    cases called
    obtain ⟨notLost, failed, back⟩ := (prepare_spec prepared).2 refusal rfl
    rcases delivered with unchanged | ⟨use, set⟩
    · have sameFlag : (txnEffect sql).apply middle.session.inTransaction = middle.session.inTransaction := by
        rw [connected.sameFlag, unchanged]
      have holding : Holding (middle.expect (txnEffect sql)) conn :=
        ⟨connected.holding.idle, connected.holding.flight, connected.holding.others,
          sameFlag.trans connected.holding.flag,
          connected.holding.unborn⟩
      refine ⟨back holding (fun gone => (closed gone).resolve_right fun rollback => ?_) lost,
        fun isLost => absurd isLost notLost⟩
      have flag := connected.holding.flag
      have isGone : middle.gone = true := gone
      rw [← sameFlag, rollback, TxnEffect.apply, isGone] at flag
      cases flag
    · exact absurd failed (by simp [use, set])
  next last prepared =>
  cases called
  have resettled := (prepare_spec prepared).1 rfl
  have opened (k : Nat) (isOpen : last.link k = .transaction) : k = conn :=
    connected.holding.others k (resettled.link ▸ isOpen)
  have gone (isGone : last.gone = true) : middle.gone = true := resettled.gone.symm.trans isGone
  have stillClosed (isGone : middle.gone = true) : serverEffect sql = .rollsBack ∨ last.link conn = .closed := by
    rcases closed isGone with shut | rollback
    · exact .inr ((congrFun resettled.link conn).trans shut)
    · exact .inl (rolls rollback)
  have standing' : Standing (last.dispatch conn sql (fates.described && options.rowLimit.isNone)) := by
    refine ⟨fun idle => absurd (resettled.idle.trans connected.holding.idle) idle, fun k isOpen => ?_,
      fun isGone k isCurrent => ?_,
      fun flight isFlight ended => ?_, ?_, fun isLost => ?_, fun k later => ?_, fun flight isFlight described => ?_,
      fun flight isFlight sent rollsBack => ?_⟩
    · simp only [current, dispatch, resettled.idle, expect, connected.holding.idle]
      exact congrArg some (opened k isOpen).symm
    · simp only [dispatch, Bool.and_eq_true, bne_iff_ne] at isGone
      simp only [current, dispatch, resettled.idle, expect, connected.holding.idle, Option.map_some,
        Option.some.injEq] at isCurrent
      exact isCurrent ▸ (stillClosed (gone isGone.1)).resolve_left isGone.2
    · cases isFlight
      cases ended
    · have before : w.session.inTransaction = (middle.gone || middle.link conn == .transaction) :=
        connected.sameFlag.symm.trans connected.holding.flag
      have flag : last.session.inTransaction = (serverEffect sql).apply w.session.inTransaction := by
        rw [resettled.inTransaction, expect, ← told, ← connected.sameFlag]
      simp only [expected, pending, current, dispatch, resettled.idle, expect, connected.holding.idle,
        Option.map_some, Option.any_some,
        if_true, flag, before, resettled.gone, resettled.link]
      have other : (ServerEffect.keeps != ServerEffect.rollsBack) = true := rfl
      cases serverEffect sql <;> simp [ServerEffect.apply, other]
    · cases lost.symm.trans (resettled.transactionLost.symm.trans isLost)
    · exact (congrFun resettled.link k).trans (connected.holding.unborn k (resettled.nextConn ▸ later))
    · cases isFlight
      exact describes (Bool.and_eq_true_iff.mp described).1
    · cases isFlight
      simp only at rollsBack
      simp [dispatch, rollsBack]
  refine ⟨standing', fun k isOpen => ?_, fun isGone => ?_⟩
  · rcases connected.moved k isOpen with same | ⟨shut, rollback⟩
    · exact .inl same
    · refine .inr ⟨(congrFun resettled.link k).trans shut, ?_⟩
      simpa using rolls (by simpa using rollback)
  · have isGone : middle.gone = true := by
      rcases isGone with before | after
      · exact connected.gone before
      · simp only [dispatch, Bool.and_eq_true] at after
        exact gone after.1
    rcases stillClosed isGone with rollsBack | shut
    · exact .inl (by simpa using rollsBack)
    · exact .inr shut

/-- The server's answer to a statement, and what comes of the producer. -/
theorem event_kept {w w' : World} (standing : Standing w) (flight : w.session.flight = some f)
    (stage : Stage) (gone : Bool) (link : Nat → Link) (sameLink : ∀ k, k ≠ f.conn → link k = w.link k)
    (bornLink : w.nextConn ≤ f.conn → link f.conn = .closed)
    (closed : gone = true → link f.conn = .closed) (notSent : stage ≠ .sent)
    (ended : stage = .finished false → link f.conn = .closed)
    (flag : w.session.inTransaction = (gone || link f.conn == .transaction))
    (later : w' = { w with link := link, gone := gone, session.flight := some { f with stage := stage } }) :
    Standing w' := by
  subst later
  have idle : w.session.idle = none := by
    by_contra idle
    cases flight.symm.trans (standing.exclusive idle)
  have isCurrent : w.current = some f.conn := by simp [current, idle, flight]
  refine ⟨fun other => absurd idle other, fun k isOpen => ?_, fun isGone k isNow => ?_,
    fun flight' isFlight isEnded => ?_, ?_,
    fun isLost => ?_, fun k beyond => ?_, fun flight' isFlight described => ?_, fun flight' isFlight sent => ?_⟩
  · by_cases same : k = f.conn
    · subst same
      simp [current, idle]
    · have before := standing.others k ((sameLink k same).symm.trans isOpen)
      exact absurd (Option.some.inj (before.symm.trans isCurrent)) same
  · simp only [current, idle, Option.map_some, Option.some.injEq] at isNow
    exact isNow ▸ closed isGone
  · cases isFlight
    exact ended isEnded
  · simp [expected, pending, current, idle, notSent, flag]
  · cases flight.symm.trans (standing.lost isLost).2.2
  · by_cases same : k = f.conn
    · exact same ▸ bornLink (same ▸ beyond)
    · exact (sameLink k same).trans (standing.unborn k beyond)
  · cases isFlight
    exact standing.described f flight described
  · cases isFlight
    exact absurd sent notSent

theorem Standing.pending_flight (standing : Standing w) (flight : w.session.flight = some f) :
    w.pending = (w.gone || w.link f.conn == .transaction) := by
  have idle : w.session.idle = none := by
    by_contra idle
    cases flight.symm.trans (standing.exclusive idle)
  simp [pending, current, idle, flight]

theorem Standing.current_flight (standing : Standing w) (flight : w.session.flight = some f) :
    w.current = some f.conn := by
  have idle : w.session.idle = none := by
    by_contra idle
    cases flight.symm.trans (standing.exclusive idle)
  simp [current, idle, flight]

theorem answer_kept {w w' : World} (standing : Standing w) (truthful : Truthful w (.answer accepted))
    (answered : step readers w (.answer accepted) = some (w', outcome)) : Standing w' := by
  simp only [step] at answered
  split at answered
  · cases answered
  next f flight =>
  split at answered
  · next enabled =>
    simp only [Bool.and_eq_true, decide_eq_true_eq, bne_iff_ne] at enabled
    obtain ⟨sent, opened⟩ := enabled
    cases answered
    have notGone : w.gone = false := by
      by_contra gone
      exact opened (standing.closed (by simpa using gone) f.conn (standing.current_flight flight))
    have flag : w.session.inTransaction = (serverEffect f.sql).apply (w.link f.conn == .transaction) := by
      have flag := standing.flag
      simpa only [expected, flight, sent, if_true, standing.pending_flight flight, notGone, Bool.false_or] using flag
    have born : ¬ w.nextConn ≤ f.conn := fun beyond => opened (standing.unborn f.conn beyond)
    cases accepted with
    | true =>
      refine event_kept standing flight .answered w.gone (w.accept f.conn f.sql).link
        (fun k differs => accept_other f.sql differs)
        (fun beyond => absurd beyond born) (fun gone => (nomatch notGone.symm.trans gone)) nofun nofun ?_ rfl
      rw [accept_link, flag, notGone, Bool.false_or]
      cases (serverEffect f.sql).apply (w.link f.conn == .transaction) <;> rfl
    | false =>
      refine event_kept standing flight .answered w.gone w.link (fun _ _ => rfl) (fun beyond => absurd beyond born)
        (fun gone => (nomatch notGone.symm.trans gone)) nofun nofun ?_ rfl
      have refused := truthful f flight
      rw [standing.pending_flight flight] at refused
      rw [notGone, Bool.false_or] at refused ⊢
      exact flag.trans refused
  · cases answered

theorem finish_kept {w w' : World} (standing : Standing w) (truthful : Truthful w (.finish handedBack))
    (finished : step readers w (.finish handedBack) = some (w', outcome)) : Standing w' := by
  simp only [step] at finished
  split at finished
  · cases finished
  next f flight =>
  have isPending := standing.pending_flight flight
  have flag := standing.flag
  simp only [expected, flight, isPending] at flag
  have shut : (Link.closed == Link.transaction) = false := rfl
  split at finished
  · next stage =>
    cases finished
    rw [if_neg (by simp [stage])] at flag
    exact event_kept standing flight (.finished true) w.gone w.link (fun _ _ => rfl) (standing.unborn f.conn)
      (fun gone => standing.closed gone f.conn (standing.current_flight flight)) nofun nofun flag rfl
  · next stage =>
    cases finished
    rw [if_neg (by simp [stage])] at flag
    refine event_kept standing flight (.finished false) (w.lose f.conn).gone (w.lose f.conn).link
      (fun k differs => Function.update_of_ne differs ..) (fun _ => lose_self)
      (fun _ => lose_self) nofun (fun _ => lose_self) ?_ rfl
    rw [lose_self, shut, Bool.or_false]
    exact flag
  · next stage =>
    cases finished
    rw [if_pos stage] at flag
    refine event_kept standing flight (.finished false) _ (w.lose f.conn).link
      (fun k differs => Function.update_of_ne differs ..) (fun _ => lose_self)
      (fun _ => lose_self) nofun (fun _ => lose_self) ?_ rfl
    rw [lose_self, shut, Bool.or_false, flag]
    split
    · next rollsBack => rw [rollsBack, ServerEffect.apply, standing.rolling f flight stage rollsBack]
    · next other =>
      rw [← isPending, (truthful f flight stage).resolve_right other, isPending]
      rfl
  · cases finished

/-- A truthful step keeps the flag right, and a call ends as it has to. -/
theorem step_kept {w w' : World} (standing : Standing w) (truthful : Truthful w action)
    (stepped : step readers w action = some (w', outcome)) :
    Standing w' ∧ ∀ called, outcome = some called → Fair w w' action.isRollback called := by
  cases action with
  | setContext database =>
    simp only [step] at stepped
    split at stepped
    · cases stepped
      exact ⟨⟨standing.exclusive, standing.others, standing.closed, standing.ended, standing.flag, standing.lost,
        standing.unborn,
        standing.described, standing.rolling⟩, nofun⟩
    · cases stepped
  | textRows sql fates =>
    simp only [step] at stepped
    split at stepped
    · next settled =>
      obtain ⟨⟨last, called⟩, isCalled, same⟩ := Option.map_eq_some_iff.mp stepped
      cases same
      obtain ⟨standing', fair⟩ := textRows_kept standing settled truthful isCalled
      refine ⟨standing', fun called' isSame => ?_⟩
      cases isSame
      have isRollback : (Action.textRows sql fates).isRollback = false := by
        rw [Action.isRollback, show serverEffect sql = .keeps from truthful]
        rfl
      exact isRollback ▸ fair
    · cases stepped
  | run sql options fates =>
    simp only [step] at stepped
    split at stepped
    · next enabled =>
      simp only [Bool.and_eq_true, Bool.or_eq_true, Bool.not_eq_true', beq_iff_eq] at enabled
      obtain ⟨⟨last, called⟩, isCalled, same⟩ := Option.map_eq_some_iff.mp stepped
      cases same
      obtain ⟨standing', fair⟩ := run_kept standing enabled.1 truthful
        (fun described => enabled.2.resolve_left (by simp [described])) isCalled
      refine ⟨standing', fun called' isSame => ?_⟩
      cases isSame
      exact fair
    · cases stepped
  | answer accepted =>
    refine ⟨answer_kept standing truthful stepped, ?_⟩
    simp only [step] at stepped
    split at stepped
    · cases stepped
    · split at stepped <;> cases stepped
      nofun
  | finish handedBack =>
    refine ⟨finish_kept standing truthful stepped, ?_⟩
    simp only [step] at stepped
    split at stepped
    · cases stepped
    · split at stepped <;> cases stepped <;> nofun
  | dropCursor =>
    simp only [step] at stepped
    split at stepped
    · next f flight =>
      split at stepped
      · cases stepped
        have idle : w.session.idle = none := by
          by_contra idle
          cases flight.symm.trans (standing.exclusive idle)
        have isCurrent := standing.current_flight flight
        refine ⟨⟨fun other => absurd idle other, fun k isOpen => ?_, fun gone k isNow => ?_,
          fun flight' isFlight => ?_, ?_, fun lost => ?_,
          standing.unborn, fun flight' isFlight => ?_, fun flight' isFlight => ?_⟩, nofun⟩
        · simpa [current, idle] using isCurrent.symm.trans (standing.others k isOpen)
        · refine standing.closed gone k (isCurrent.trans ?_)
          simpa [current, idle] using isNow
        · cases isFlight
          exact standing.ended f flight
        · have flag := standing.flag
          simpa [expected, pending, current, idle, flight] using flag
        · cases flight.symm.trans (standing.lost lost).2.2
        · cases isFlight
          exact standing.described f flight
        · cases isFlight
          exact standing.rolling f flight
      · cases stepped
    · cases stepped

theorem standing_connected (database : Option (List Char)) : Standing (connected database) where
  exclusive := fun _ => rfl
  others := fun k isOpen => by
    simp only [connected] at isOpen
    split at isOpen <;> cases isOpen
  closed := nofun
  ended := nofun
  flag := rfl
  lost := nofun
  unborn := fun k later => if_neg (by simp only [connected] at later; omega)
  described := nofun
  rolling := nofun

/-- In every run of truthful steps every call keeps the transaction on its connection. -/
theorem truthful_kept (readers : Readers) (database : Option (List Char)) (actions : List Action)
    (truthful : Runs.Along (next readers) Truthful (connected database) actions) :
    Runs.Along (next readers) (Kept readers) (connected database) actions := by
  refine Runs.along_of_invariant Standing (fun w action later standing isTruthful stepped => ?_)
    (fun w action standing isTruthful => ?_) (standing_connected database) truthful
  · obtain ⟨⟨w', outcome⟩, isStep, rfl⟩ := Option.map_eq_some_iff.mp stepped
    exact (step_kept standing isTruthful isStep).1
  · exact fun w' outcome isStep => (step_kept standing isTruthful isStep).2 outcome rfl

def anyText : Readers := ⟨fun _ => true, fun _ => false⟩

/-- A statement that the server answers and whose producer hands the connection back. -/
def answered (sql : String) : List Action := [.run sql.toList {} {}, .answer true, .finish true]

/-- A transaction of one write. -/
theorem truthful_kept_transaction :
    Runs.Along (next anyText) (Kept anyText) (connected none)
      (answered "BEGIN" ++ answered "INSERT INTO t VALUES (1)" ++ answered "COMMIT") :=
  truthful_kept anyText none _ (by decide +kernel)

/-- A `COMMIT` whose `USE` is refused, and a result that is not read to its end. -/
def unsentCommit : List Action :=
  answered "BEGIN" ++ [.setContext (some "gone".toList), .run "COMMIT".toList {} { use := .refused }, .setContext none,
    .run "SELECT * FROM t".toList {} { described := true }, .answer true, .finish false]

/-- The transaction that no `COMMIT` has ended is lost, and the next write is sent on another connection. -/
theorem transaction_split : ¬ Runs.Along (next anyText) (Kept anyText) (connected none)
    (unsentCommit ++ [.run "INSERT INTO t VALUES (1)".toList {} {}]) := by
  intro along
  have facts : (Runs.run (next anyText) (connected none) unsentCommit).map (fun w =>
      (w.gone, (step anyText w (.run "INSERT INTO t VALUES (1)".toList {} {})).map fun stepped =>
      (stepped.2, stepped.1.link 1))) =
      some (true, some (some (.sent 1), .autocommit)) := by decide +kernel
  obtain ⟨w, reached, isLost⟩ := Option.map_eq_some_iff.mp facts
  obtain ⟨gone, sends⟩ := Prod.mk.inj isLost
  obtain ⟨⟨w', outcome⟩, stepped, isSent⟩ := Option.map_eq_some_iff.mp sends
  obtain ⟨rfl, open'⟩ := Prod.mk.inj isSent
  rcases (Runs.along_at along reached w' _ stepped).2 (.inl gone) with rollback | shut
  · have plain : (Action.run "INSERT INTO t VALUES (1)".toList {} {}).isRollback = false := by decide +kernel
    cases plain.symm.trans rollback
  · cases open'.symm.trans shut

end QueryHive.Driver.MysqlTransactions
