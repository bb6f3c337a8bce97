import QueryHive.Host.PoolCalls

/-! What one section of the pool does. It trades the guards its party holds against the
counts of the one entry it locks, and the sessions it took against those it leaves. -/
namespace QueryHive.Host.Pool
open QueryHive.Core QueryHive.Host QueryHive.Library.Tally QueryHive.Library.Shares

variable {ι κ : Type}

/-- The lane count of the `LeaseGuard` a party holds. -/
def Party.lease : Party ι κ → Option (Nat × Lane)
  | opening (.lease lane) _ e _ => some (e, lane)
  | opening (.replacement borrower _ _) _ e _ => some (e, borrower.lane)
  | .lent borrower => some (borrower.entry, borrower.lane)
  | _ => none

/-- The entry of the `PendingGuard` a party holds. -/
def Party.pending : Party ι κ → Option Nat
  | opening .idle _ e _ | returning e _ _ _ | resetting e _ | spent e _ _ | parked e => some e
  | _ => none

def Party.sessions : Party ι κ → List Nat
  | opening (.replacement borrower _ _) _ _ _ | .lent borrower => [borrower.held.session.id]
  | unleased session _ => [session]
  | returning _ ride _ _ | resetting _ ride | spent _ ride _ | refilling _ ride _ => [ride.session.id]
  | closing rides | evicting rides => rides.map (·.session.id)
  | _ => []

/-- Where the sessions of a party are: lent, on their way back, or handed to a close. -/
inductive Place where
  | lent | returning | closing
  deriving DecidableEq, Repr

def Party.place : Party ι κ → Place
  | returning _ _ _ _ | resetting _ _ | spent _ _ _ | parked _ => .returning
  | refilling _ _ _ | closing _ | evicting _ => .closing
  | _ => .lent

def leaseShare (lane : Lane) (e : Nat) (party : Party ι κ) : Nat := if party.lease = some (e, lane) then 1 else 0

def pendingShare (e : Nat) (party : Party ι κ) : Nat := if party.pending = some e then 1 else 0

def holds (session : Nat) (party : Party ι κ) : Nat := party.sessions.count session

def idles (session : Nat) (entry : Entry ι κ) : Nat := (entry.idle.map (·.ride.session.id)).count session

/-- A borrower has a lease, and a call that opens a replacement is its own entry's. -/
def Party.Placed : Party ι κ → Prop
  | opening (.replacement borrower _ _) config e _ =>
    borrower.entry = e ∧ borrower.config = config ∧ borrower.held.lease.isSome
  | .lent borrower => borrower.held.lease.isSome
  | _ => True

theorem leaseShare_other {party : Party ι κ} (elsewhere : party.entry ≠ some e) (lane : Lane) :
    leaseShare lane e party = 0 := by
  refine if_neg fun same => elsewhere ?_
  unfold Party.lease at same
  split at same <;> first | cases same; rfl | cases same

theorem pendingShare_other {party : Party ι κ} (elsewhere : party.entry ≠ some e) : pendingShare e party = 0 := by
  refine if_neg fun same => elsewhere ?_
  unfold Party.pending at same
  split at same <;> first | cases same; rfl | cases same

theorem mem_closeInBackground {rides : List (Ride ι κ)} (member : party ∈ closeInBackground rides) :
    party = .closing rides := by
  unfold closeInBackground at member
  split at member
  · cases member
  · exact List.mem_singleton.mp member

@[simp] theorem closes_leaseShare (lane : Lane) (e : Nat) (rides : List (Ride ι κ)) :
    tally (leaseShare lane e) (closeInBackground rides) = 0 := by
  unfold closeInBackground
  split <;> rfl

@[simp] theorem closes_pendingShare (e : Nat) (rides : List (Ride ι κ)) :
    tally (pendingShare e) (closeInBackground rides) = 0 := by
  unfold closeInBackground
  split <;> rfl

@[simp] theorem closes_holds (session : Nat) (rides : List (Ride ι κ)) :
    tally (holds session) (closeInBackground rides) = (rides.map (·.session.id)).count session := by
  unfold closeInBackground
  split
  · next empty =>
    rw [List.isEmpty_iff.mp empty]
    rfl
  · rw [tally_cons, tally_nil, Nat.add_zero]
    rfl

@[simp] theorem lease_leased (lane other : Lane) (entry : Entry ι κ) :
    (entry.lease lane).leased other = entry.leased other + if lane = other then 1 else 0 := by
  by_cases same : lane = other
  · subst same
    simp [Entry.lease]
  · simp [Entry.lease, same, Function.update_of_ne (Ne.symm same)]

@[simp] theorem unlease_leased (lane other : Lane) (entry : Entry ι κ) :
    (entry.unlease lane).leased other = entry.leased other - if lane = other then 1 else 0 := by
  by_cases same : lane = other
  · subst same
    simp [Entry.unlease]
  · simp [Entry.unlease, same, Function.update_of_ne (Ne.symm same)]

/-- What a section changed at the entry it locked, against the guards and sessions its
party held and those of the parties it went on as. -/
structure Fair (world : World) (e : Nat) (party : Party ι κ) (entry : Entry ι κ) (turn : Turn ι κ) : Prop where
  leased : ∀ lane, leaseShare lane e party ≤ entry.leased lane →
    turn.entry.leased lane + leaseShare lane e party = entry.leased lane + tally (leaseShare lane e) turn.news
  pending : pendingShare e party ≤ entry.pending →
    turn.entry.pending + pendingShare e party = entry.pending + tally (pendingShare e) turn.news
  sessions : ∀ session, idles session turn.entry + tally (holds session) turn.news +
      (turn.closed.count session + turn.dropped.count session) =
    idles session entry + holds session party + (List.range' world.opened turn.opened).count session
  here : ∀ new ∈ turn.news, new.entry = some e ∨ new.entry = none
  placed : ∀ new ∈ turn.news, new.Placed
  few : entry.idle.length ≤ idleMax → turn.entry.idle.length ≤ idleMax
  key : turn.entry.key = entry.key
  retired : turn.entry.retired = entry.retired
  cleared : entry.retired = true → entry.idle = [] → turn.entry.idle = []

theorem count_filter_split (p : α → Bool) (f : α → Nat) (xs : List α) (n : Nat) :
    ((xs.filter p).map f).count n + ((xs.filter (!p ·)).map f).count n = (xs.map f).count n := by
  induction xs with
  | nil => rfl
  | cons x xs ih =>
    cases taken : p x <;> simp only [List.filter_cons, taken, Bool.not_true, Bool.not_false, Bool.false_eq_true,
      ↓reduceIte, List.map_cons, List.count_cons] <;> omega

section
variable {world : World} {config : Config ι κ} {e : Nat} {entry : Entry ι κ}

@[simp] theorem leaseShare_lend (lane other : Lane) (reused : Bool) (ride : Ride ι κ) :
    leaseShare other e (lend config e lane reused ride) = if lane = other then 1 else 0 := by
  simp [leaseShare, lend, Party.lease]

@[simp] theorem pendingShare_lend (lane : Lane) (reused : Bool) (ride : Ride ι κ) :
    pendingShare e (lend config e lane reused ride) = 0 := rfl

@[simp] theorem holds_lend (lane : Lane) (reused : Bool) (ride : Ride ι κ) (session : Nat) :
    holds session (lend config e lane reused ride) = [ride.session.id].count session := rfl

theorem swept_idle (world : World) (entry : Entry ι κ) (session : Nat) :
    idles session (entry.swept world) +
      ((entry.idle.filter (·.ride.stranded world)).map (·.ride.session.id)).count session = idles session entry := by
  rw [Nat.add_comm]
  exact count_filter_split (·.ride.stranded world) (·.ride.session.id) entry.idle session

theorem closes_idle (idle : List (Idle ι κ)) (session : Nat) :
    tally (holds session) (closeInBackground (idle.map (·.ride))) = (idle.map (·.ride.session.id)).count session := by
  rw [closes_holds, List.map_map]
  rfl

theorem beside_closes {P : Party ι κ → Prop} {rides : List (Ride ι κ)} (first : P party)
    (closing : P (.closing rides)) :
    ∀ new ∈ party :: closeInBackground rides, P new := by
  intro new member
  obtain rfl | later := List.mem_cons.mp member
  · exact first
  · rw [mem_closeInBackground later]
    exact closing

theorem swept_few (few : entry.idle.length ≤ idleMax) : (entry.swept world).idle.length ≤ idleMax :=
  Nat.le_trans (List.length_filter_le _ _) few

theorem swept_cleared (cleared : entry.idle = []) : (entry.swept world).idle = [] := by
  rw [Entry.swept, cleared]
  rfl

/-- What a checkout may decide. -/
theorem look_cases (world : World) (lane : Lane) (waited : Bool) (entry : Entry ι κ) :
    (∃ idle cooler, (entry.swept world).idle = cooler ++ [idle] ∧ (entry.swept world).leased lane < lane.cap ∧
        entry.look world lane waited = ({ entry.swept world with idle := cooler }.lease lane, .reuse idle)) ∨
      entry.look world lane waited = ((entry.swept world).lease lane, .open) ∨
      waited = false ∧ entry.look world lane waited = (entry.swept world, .wait) := by
  unfold Entry.look
  dsimp only
  by_cases room : (entry.swept world).leased lane < lane.cap
  rotate_left
  · exact .inr (.inl (if_neg room))
  · rw [if_pos room]
    cases warmest : (entry.swept world).idle.getLast? with
    | some idle =>
      obtain ⟨cooler, shape⟩ := List.getLast?_eq_some_iff.mp warmest
      exact .inl ⟨idle, cooler, shape, room, by rw [shape, List.dropLast_concat]⟩
    | none =>
      dsimp only
      split
      · next both => exact .inr (.inr ⟨by simpa using (Bool.and_eq_true_iff.mp both).1, rfl⟩)
      · exact .inr (.inl rfl)

theorem look_fair (world : World) (config : Config ι κ) (e : Nat) (lane : Lane) (waited : Bool) (entry : Entry ι κ) :
    Fair world e (.looking config e lane waited) entry (look world config e lane waited entry) := by
  have kept (session : Nat) := swept_idle world entry session
  have nothing (other : Lane) (waited : Bool) :
    leaseShare other e (.looking config e lane waited : Party ι κ) = 0 := rfl
  have opens (other : Lane) :
      leaseShare other e (.opening (.lease lane) config e .tunnel : Party ι κ) = if lane = other then 1 else 0 := by
    simp [leaseShare, Party.lease]
  unfold look
  dsimp only
  obtain ⟨idle, cooler, shape, -, decided⟩ | decided | ⟨-, decided⟩ := look_cases world lane waited entry <;>
    rw [decided] <;> dsimp only
  · exact {
      leased := fun other _ => by simp [nothing, Entry.swept]
      pending := fun _ => by rw [tally_cons, closes_pendingShare]; rfl
      sessions := fun session => by
        have before := kept session
        rw [idles, shape, List.map_append, List.count_append] at before
        rw [tally_cons, closes_idle, holds_lend, ← before]
        simp only [idles, Entry.lease, List.map_cons, List.map_nil, List.count_nil, List.range'_zero, holds,
          Party.sessions]
        omega
      here := beside_closes (.inl rfl) (.inr rfl), placed := beside_closes rfl trivial
      few := fun few => by
        have bounded := @swept_few _ _ world _ few
        rw [shape, List.length_append] at bounded
        exact Nat.le_trans (Nat.le_add_right _ _) bounded
      key := rfl, retired := rfl
      cleared := fun _ cleared => by
        rw [swept_cleared cleared] at shape
        exact absurd shape.symm (by simp) }
  · exact {
      leased := fun other _ => by simp [nothing, opens, Entry.swept]
      pending := fun _ => by rw [tally_cons, closes_pendingShare]; rfl
      sessions := fun session => by
        rw [tally_cons, closes_idle, ← kept session]
        simp only [idles, Entry.lease, List.count_nil, List.range'_zero, holds, Party.sessions]
        omega
      here := beside_closes (.inl rfl) (.inr rfl), placed := beside_closes trivial trivial
      few := swept_few, key := rfl, retired := rfl, cleared := fun _ => swept_cleared }
  · exact {
      leased := fun other _ => by simp [nothing, Entry.swept]
      pending := fun _ => by rw [tally_cons, closes_pendingShare]; rfl
      sessions := fun session => by
        rw [tally_cons, closes_idle, ← kept session]
        simp only [holds, Party.sessions, List.count_nil, List.range'_zero]
        omega
      here := beside_closes (.inl rfl) (.inr rfl), placed := beside_closes trivial trivial
      few := swept_few, key := rfl, retired := rfl, cleared := fun _ => swept_cleared }
/-- A section that leaves the idle list alone. -/
theorem fair_idle {party : Party ι κ} {turn : Turn ι κ} (idle : turn.entry.idle = entry.idle)
    (key : turn.entry.key = entry.key) (retired : turn.entry.retired = entry.retired)
    (leased : ∀ lane, leaseShare lane e party ≤ entry.leased lane →
      turn.entry.leased lane + leaseShare lane e party = entry.leased lane + tally (leaseShare lane e) turn.news)
    (pending : pendingShare e party ≤ entry.pending →
      turn.entry.pending + pendingShare e party = entry.pending + tally (pendingShare e) turn.news)
    (moved : ∀ session, tally (holds session) turn.news + (turn.closed.count session + turn.dropped.count session) =
      holds session party + (List.range' world.opened turn.opened).count session)
    (here : ∀ new ∈ turn.news, (new.entry = some e ∨ new.entry = none) ∧ new.Placed) :
    Fair world e party entry turn where
  leased := leased
  pending := pending
  sessions session := by
    have same := moved session
    rw [idles, idle, ← idles]
    omega
  here new member := (here new member).1
  placed new member := (here new member).2
  few few := by rwa [idle]
  key := key
  retired := retired
  cleared _ cleared := by rw [idle, cleared]

theorem forall_none {P : Party ι κ → Prop} : ∀ new ∈ ([] : List (Party ι κ)), P new := fun _ member => nomatch member

theorem forall_one {P : Party ι κ → Prop} (one : P party) : ∀ new ∈ [party], P new := by
  intro new member
  rw [List.mem_singleton.mp member]
  exact one

/-- The share of a lane that a purpose holds while its session is opened. -/
def Purpose.lane : Purpose ι κ → Option Lane
  | .lease lane => some lane
  | .replacement borrower _ _ => some borrower.lane
  | .idle | .unleased => none

theorem leaseShare_opening (purpose : Purpose ι κ) (phase : Phase) (lane : Lane) :
    leaseShare lane e (.opening purpose config e phase) = if purpose.lane = some lane then 1 else 0 := by
  cases purpose <;> simp [leaseShare, Party.lease, Purpose.lane]

/-- Opening a session holds the same guards and sessions in each of its phases. -/
theorem opening_phase (purpose : Purpose ι κ) (phase later : Phase) :
    (∀ lane, leaseShare lane e (.opening purpose config e later) =
      leaseShare lane e (.opening purpose config e phase)) ∧
      pendingShare e (.opening purpose config e later) = pendingShare e (.opening purpose config e phase) ∧
      (∀ session, holds session (.opening purpose config e later) = holds session (.opening purpose config e phase)) ∧
      ((Party.opening purpose config e phase).Placed → (Party.opening purpose config e later).Placed) := by
  cases purpose <;> exact ⟨fun _ => rfl, rfl, fun _ => rfl, id⟩

/-- Going on to another phase, with nothing changed but the tunnel. -/
theorem phase_fair {purpose : Purpose ι κ} {phase : Phase} (placed : (Party.opening purpose config e phase).Placed)
    (later : Phase) (slot : Option Nat) (dialing : Bool) (dialed : Nat) :
    Fair world e (.opening purpose config e phase) entry
      { entry := { entry with slot := slot, dialing := dialing }
        news := [.opening purpose config e later]
        dialed := dialed } := by
  obtain ⟨lanes, pending, held, kept⟩ := @opening_phase _ _ config e purpose phase later
  refine fair_idle rfl rfl rfl (fun lane _ => ?_) (fun _ => ?_) (fun session => ?_) (forall_one ⟨.inl rfl, kept placed⟩)
  · rw [tally_cons, tally_nil, lanes]
    rfl
  · rw [tally_cons, tally_nil, pending]
    rfl
  · rw [tally_cons, tally_nil, held]
    rfl

theorem ensureTunnel_fair {purpose : Purpose ι κ} (placed : (Party.opening purpose config e .tunnel).Placed)
    (took : ensureTunnel world purpose config e entry = some turn) :
    Fair world e (.opening purpose config e .tunnel) entry turn := by
  unfold ensureTunnel at took
  dsimp only at took
  split at took
  · cases took
    exact phase_fair placed _ entry.slot entry.dialing 0
  · split at took
    · cases took
    · split at took
      · cases took
        exact phase_fair placed .dialing entry.slot true 0
      · split at took <;> cases took
        · exact phase_fair placed _ entry.slot entry.dialing 0
        · obtain ⟨lanes, pending, held, kept⟩ := @opening_phase _ _ config e purpose .tunnel .dialing
          exact {
            leased := fun lane _ => by rw [tally_cons, closes_leaseShare, lanes]; rfl
            pending := fun _ => by rw [tally_cons, closes_pendingShare, pending]; rfl
            sessions := fun session => by
              rw [tally_cons, closes_idle, held]
              simp only [idles, List.map_nil, List.count_nil, List.range'_zero]
              omega
            here := beside_closes (.inl rfl) (.inr rfl), placed := beside_closes (kept placed) trivial
            few := fun _ => Nat.zero_le _, key := rfl, retired := rfl, cleared := fun _ _ => rfl }
theorem unlease_trade (lane other : Lane) (held : (if lane = other then 1 else 0) ≤ entry.leased other) :
    (entry.unlease lane).leased other + (if lane = other then 1 else 0) = entry.leased other := by
  rw [unlease_leased]
  exact Nat.sub_add_cancel held

/-- `open_session` that gives up holds nothing any more, or is a borrower again. -/
theorem giveUp_fair {purpose : Purpose ι κ} {phase : Phase} {how : Awaited} (failed : how ≠ .ok)
    (placed : (Party.opening purpose config e phase).Placed) (dialing : Bool) :
    Fair world e (.opening purpose config e phase) entry
      (giveUp world how purpose { entry with dialing := dialing }) := by
  cases purpose with
  | lease lane =>
    refine fair_idle rfl rfl rfl (fun other held => ?_) (fun _ => rfl) (fun _ => rfl) forall_none
    simp only [leaseShare_opening, Purpose.lane, Option.some.injEq] at held ⊢
    exact @unlease_trade _ _ { entry with dialing := dialing } lane other held
  | idle =>
    have one : pendingShare e (.opening .idle config e phase : Party ι κ) = 1 := if_pos rfl
    refine fair_idle rfl rfl rfl (fun _ _ => rfl) (fun held => ?_) (fun _ => rfl) forall_none
    rw [one] at held ⊢
    exact Nat.sub_add_cancel held
  | replacement borrower weather op =>
    obtain ⟨at_e, -, leased⟩ := placed
    obtain ⟨some', same | ⟨opens, -⟩⟩ :=
      @call_session _ _ borrower world.opened none { weather with opens := how } op leased
    · refine fair_idle rfl rfl rfl (fun lane _ => ?_) (fun _ => rfl) (fun session => ?_)
        (forall_one ⟨.inl (by simp [Party.entry, at_e]), some'⟩)
      · simp [giveUp, leaseShare, Party.lease, at_e]
      · simp [giveUp, holds, Party.sessions, same]
    · exact absurd opens failed
  | unleased => exact fair_idle rfl rfl rfl (fun _ _ => rfl) (fun _ => rfl) (fun _ => rfl) forall_none

theorem idles_append (idle : Idle ι κ) (session : Nat) :
    idles session { entry with idle := entry.idle ++ [idle] } = idles session entry +
      [idle.ride.session.id].count session := by
  rw [idles, List.map_append, List.count_append]
  rfl

theorem park_fair {party : Party ι κ} (ride : Ride ι κ) (opened : Nat)
    (lanes : ∀ lane, leaseShare lane e party = 0) (pending : pendingShare e party = 1)
    (has : ∀ session, holds session party + (List.range' world.opened opened).count session =
      [ride.session.id].count session) :
    Fair world e party entry { park world e ride entry with opened := opened } := by
  have guard (closes : List (Ride ι κ)) :
      tally (pendingShare e) (.parked e :: closeInBackground closes) = 1 := by
    rw [tally_cons, closes_pendingShare]
    simp [pendingShare, Party.pending]
  unfold park Entry.park
  dsimp only
  split
  · refine fair_idle rfl rfl rfl (fun lane _ => ?_) (fun _ => ?_) (fun session => ?_)
      (beside_closes ⟨.inl rfl, trivial⟩ ⟨.inr rfl, trivial⟩)
    · rw [lanes lane, tally_cons, closes_leaseShare]
      rfl
    · rw [pending, guard]
    · rw [has session, tally_cons, closes_holds]
      simp [holds, Party.sessions]
  · next room =>
    rw [Bool.or_eq_true, decide_eq_true_iff, not_or, Nat.not_le] at room
    refine {
      leased := fun lane _ => ?_, pending := fun _ => ?_, sessions := fun session => ?_
      here := beside_closes (.inl rfl) (.inr rfl), placed := beside_closes trivial trivial
      few := fun _ => ?_, key := rfl, retired := rfl, cleared := fun retired => absurd retired room.1 }
    · rw [lanes lane, tally_cons, closes_leaseShare]
      rfl
    · rw [pending, guard]
    · have moved := has session
      have nothing : holds session (.parked e : Party ι κ) = 0 := rfl
      rw [idles_append, tally_cons, closes_holds, nothing]
      simp only [List.count_nil, List.map_nil]
      omega
    · rw [List.length_append]
      exact room.2

theorem connected_fair {purpose : Purpose ι κ} {phase : Phase} (placed : (Party.opening purpose config e phase).Placed)
    (tunnel : Option Nat) :
    Fair world e (.opening purpose config e phase) entry (connected world purpose config e tunnel entry) := by
  cases purpose with
  | lease lane =>
    refine fair_idle rfl rfl rfl (fun other _ => ?_) (fun _ => rfl) (fun session => ?_) (forall_one ⟨.inl rfl, rfl⟩)
    · simp [connected, leaseShare_opening, Purpose.lane]
    · have nothing : holds session (.opening (.lease lane) config e phase : Party ι κ) = 0 := rfl
      simp [connected, nothing]
  | idle =>
    refine @park_fair _ _ _ _ _ (.opening .idle config e phase) ⟨⟨world.opened, config.key, none⟩, tunnel⟩ 1
      (fun _ => rfl) ?_ fun session => ?_
    · simp [pendingShare, Party.pending]
    · simp [holds, Party.sessions]
  | replacement borrower weather op =>
    obtain ⟨at_e, -, leased⟩ := placed
    obtain ⟨some', result⟩ :=
      @call_session _ _ borrower world.opened tunnel { weather with opens := .ok } op leased
    refine fair_idle rfl rfl rfl (fun lane _ => ?_) (fun _ => rfl) (fun session => ?_)
      (forall_one ⟨.inl (by simp [Party.entry, at_e]), some'⟩)
    · simp [connected, leaseShare, Party.lease, at_e]
    · simp only [connected, holds, Party.sessions, tally_cons, tally_nil, List.count_nil, List.range'_one]
      by_cases same : (borrower.call world.opened tunnel { weather with opens := .ok } op).held.session.id =
          borrower.held.session.id
      · rw [if_pos same, same]
        omega
      · obtain kept | ⟨-, -, next⟩ := result
        · exact absurd kept same
        · rw [if_neg same, next]
          omega
  | unleased =>
    refine fair_idle rfl rfl rfl (fun _ _ => rfl) (fun _ => rfl) (fun session => ?_) (forall_one ⟨.inr rfl, trivial⟩)
    simp [connected, holds, Party.sessions]

/-- A session more is on its way, for a party that holds no guard. -/
theorem openIdle_fair {party : Party ι κ} (only : Bool) (closes : List (Party ι κ))
    (lanes : ∀ lane, leaseShare lane e party = 0) (pending : pendingShare e party = 0)
    (same : ∀ session, tally (holds session) closes = holds session party)
    (free : ∀ lane, tally (leaseShare lane e) closes = 0) (settled : tally (pendingShare e) closes = 0)
    (here : ∀ new ∈ closes, (new.entry = some e ∨ new.entry = none) ∧ new.Placed) :
    Fair world e party entry (openIdle only config e closes entry) := by
  unfold openIdle
  split
  · refine fair_idle rfl rfl rfl (fun lane _ => ?_) (fun _ => ?_) (fun session => ?_)
      (List.forall_mem_cons.mpr ⟨⟨.inl rfl, trivial⟩, here⟩)
    · rw [lanes, tally_cons, free]
      rfl
    · rw [pending, tally_cons, settled]
      simp [pendingShare, Party.pending]
    · rw [tally_cons, same]
      simp [holds, Party.sessions]
  · refine fair_idle rfl rfl rfl (fun lane _ => ?_) (fun _ => ?_) (fun session => ?_) here
    · rw [lanes, free]
    · rw [pending, settled]
    · exact same session
theorem borrower_fair {borrower after : Lent ι κ} (entry' : after.entry = borrower.entry)
    (lane : after.lane = borrower.lane)
    (session : after.held.session.id = borrower.held.session.id) (leased : after.held.lease.isSome) :
    Fair world borrower.entry (.lent borrower) entry { entry := entry, news := [.lent after] } := by
  refine fair_idle rfl rfl rfl (fun other _ => ?_) (fun _ => rfl) (fun id => ?_)
    (forall_one ⟨.inl (congrArg some entry'), leased⟩)
  · simp [leaseShare, Party.lease, entry', lane]
  · simp [holds, Party.sessions, session]

theorem lent_fair {borrower : Lent ι κ} (leased : borrower.held.lease.isSome) {event : Event}
    (took : borrower.turn world event entry = some turn) :
    Fair world borrower.entry (.lent borrower) entry turn := by
  obtain ⟨lease, found⟩ := Option.isSome_iff_exists.mp leased
  unfold Lent.turn at took
  split at took
  · next weather op =>
    split at took <;> cases took
    · refine fair_idle rfl rfl rfl (fun lane _ => ?_) (fun _ => rfl) (fun _ => ?_)
        (forall_one ⟨.inl rfl, rfl, rfl, leased⟩)
      · simp [leaseShare, Party.lease]
      · simp [holds, Party.sessions]
    · next once =>
      obtain ⟨some', same | ⟨-, more, -⟩⟩ := @call_session _ _ borrower world.opened none weather op leased
      · exact borrower_fair (call_entry _ _ _ _ _) (call_lane _ _ _ _ _) same some'
      · exact absurd more once
  · cases took
    exact borrower_fair rfl rfl rfl leased
  · cases took
    exact borrower_fair rfl rfl rfl (by rw [Lent.cancel, Held.cancel, found]; rfl)
  · cases took
    exact borrower_fair rfl rfl rfl (by rw [Lent.read, found]; rfl)
  · unfold release at took
    rw [found] at took
    cases took
    refine fair_idle rfl rfl rfl (fun lane held => ?_) (fun _ => ?_) (fun _ => ?_) (forall_one ⟨.inl rfl, trivial⟩)
    · have one (other : Lane) : leaseShare other borrower.entry (.lent borrower) =
        if borrower.lane = other then 1 else 0 := by
        simp [leaseShare, Party.lease]
      rw [one] at held ⊢
      exact unlease_trade borrower.lane lane held
    · simp [Entry.intoPending, Entry.unlease, pendingShare, Party.pending]
    · simp [holds, Party.sessions, Lent.ride]
  · cases took
  · cases took

theorem opens_fair {purpose : Purpose ι κ} {phase : Phase} (placed : (Party.opening purpose config e phase).Placed)
    {event : Event} (took : opens world purpose config e phase event entry = some turn) :
    Fair world e (.opening purpose config e phase) entry turn := by
  unfold opens at took
  split at took
  · exact ensureTunnel_fair placed took
  · cases took
    exact @giveUp_fair _ _ _ _ _ entry _ _ _ (by simp) placed entry.dialing
  · cases took
    exact phase_fair placed _ (some world.tunnels) false 1
  · next failed =>
    cases took
    exact giveUp_fair (fun ok => failed ok) placed false
  · cases took
    exact connected_fair placed _
  · next failed =>
    cases took
    exact @giveUp_fair _ _ _ _ _ entry _ _ _ (fun ok => failed ok) placed entry.dialing
  · cases took

/-- The stages of a session that comes back hold one pending guard and the session. -/
theorem back_shares {party : Party ι κ} {ride : Ride ι κ} (pending : party.pending = some e)
    (lease : party.lease = none) (sessions : party.sessions = [ride.session.id]) :
    (∀ lane, leaseShare lane e party = 0) ∧ pendingShare e party = 1 ∧
      ∀ session, holds session party = [ride.session.id].count session := by
  refine ⟨fun lane => if_neg (by rw [lease]; simp), if_pos pending, fun session => by rw [holds, sessions]⟩

/-- A stage that follows another, with the guard and the session kept. -/
theorem stage_fair {party later : Party ι κ} (pending : party.pending = some e) (pending' : later.pending = some e)
    (lease : party.lease = none) (lease' : later.lease = none) (sessions : later.sessions = party.sessions)
    (here : later.entry = some e) (placed : later.Placed) :
    Fair world e party entry { entry := entry, news := [later] } := by
  refine fair_idle rfl rfl rfl (fun lane _ => ?_) (fun _ => ?_) (fun session => ?_) (forall_one ⟨.inl here, placed⟩)
  · simp [leaseShare, lease, lease']
  · simp [pendingShare, pending, pending']
  · simp [holds, sessions]

/-- A stage that gives its guard back, with its sessions passed on or dropped. -/
theorem settled_fair {party : Party ι κ} (pending : party.pending = some e) (lease : party.lease = none)
    (news : List (Party ι κ)) (dropped : List Nat) (lanes : ∀ lane, tally (leaseShare lane e) news = 0)
    (guards : tally (pendingShare e) news = 0)
    (moved : ∀ session, tally (holds session) news + dropped.count session = holds session party)
    (here : ∀ new ∈ news, (new.entry = some e ∨ new.entry = none) ∧ new.Placed) :
    Fair world e party entry { entry := entry.settle, news := news, dropped := dropped } := by
  refine fair_idle rfl rfl rfl (fun lane _ => ?_) (fun held => ?_) (fun session => ?_) here
  · simp [leaseShare, lease, lanes, Entry.settle]
  · have one : pendingShare e party = 1 := if_pos pending
    rw [one] at held ⊢
    rw [guards]
    exact Nat.sub_add_cancel held
  · have same := moved session
    simp only [List.count_nil, List.range'_zero]
    omega

/-- Every section trades its party's guards and sessions fairly. -/
theorem turn_fair {party : Party ι κ} {event : Event} (placed : party.Placed) (at_e : party.entry = some e)
    (took : party.turn world event entry = some turn) : Fair world e party entry turn := by
  unfold Party.turn at took
  split at took
  · cases took
    cases at_e
    exact look_fair _ _ _ _ _ _
  · cases took
    exact fair_idle rfl rfl rfl (fun _ _ => rfl) (fun _ => rfl) (fun _ => rfl) forall_none
  · cases at_e
    exact opens_fair placed took
  · cases at_e
    exact lent_fair placed took
  · cases took
    cases at_e
    exact openIdle_fair true [] (fun _ => rfl) rfl (fun _ => rfl) (fun _ => rfl) rfl forall_none
  · cases at_e
    split at took <;> cases took
    · exact stage_fair rfl rfl rfl rfl rfl rfl trivial
    · exact stage_fair rfl rfl rfl rfl rfl rfl trivial
  · cases took
    cases at_e
    exact settled_fair rfl rfl [] _ (fun _ => rfl) rfl (fun _ => Nat.zero_add _) forall_none
  · cases took
    cases at_e
    exact settled_fair rfl rfl [] _ (fun _ => rfl) rfl (fun _ => Nat.zero_add _) forall_none
  · next ride =>
    cases took
    cases at_e
    obtain ⟨lanes, pending, held⟩ := @back_shares _ _ _ (.resetting e ride) ride rfl rfl rfl
    exact park_fair _ 0 lanes pending held
  · cases took
    cases at_e
    exact stage_fair rfl rfl rfl rfl rfl rfl trivial
  · next ride refill =>
    cases took
    cases at_e
    cases refill with
    | some config => exact settled_fair rfl rfl _ [] (fun _ => rfl) rfl (fun _ => rfl) (forall_one ⟨.inl rfl, trivial⟩)
    | none => exact settled_fair rfl rfl _ [] (fun _ => rfl) rfl (fun _ => rfl) (forall_one ⟨.inr rfl, trivial⟩)
  · cases took
    cases at_e
    exact settled_fair rfl rfl [] [] (fun _ => rfl) rfl (fun _ => rfl) forall_none
  · cases took
    cases at_e
    exact openIdle_fair false _ (fun _ => rfl) rfl (fun _ => rfl) (fun _ => rfl) rfl (forall_one ⟨.inr rfl, trivial⟩)
  · cases took
end

end QueryHive.Host.Pool
