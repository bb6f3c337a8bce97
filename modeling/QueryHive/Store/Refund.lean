import QueryHive.Library.Runs
import QueryHive.Store.Value

/-! A release racing evictions of the same store. `StoreShared::spill_one` lets
go of the residency lock while it encrypts and writes, so it is a sequence of
short critical sections, and so is `StoreShared::release`. Every action here is
one of those sections or one atomic operation, and a run is any interleaving of
one release with any number of evictions. -/
namespace QueryHive.Store.Refund
open QueryHive.Library.Runs

/-- How far one run of `spill_one` has come. -/
inductive SpillPc where
  /-- Not called yet. -/
  | idle
  /-- Called; the cell has not been looked up in the index. -/
  | entered
  /-- The cell was cloned out of the index. -/
  | found
  /-- The chunk was cloned under the residency lock, which is free again. -/
  | held
  /-- The record is in the spill file; the phase was checked before. -/
  | appended
  /-- The residency section is over; the refund is next. -/
  | swapped
  | returned
  deriving DecidableEq, Repr

structure SpillRun where
  chunk : Nat
  pc : SpillPc
  deriving DecidableEq, Repr

/-- How far `release` has come. -/
inductive ReleasePc where
  | idle
  /-- The phase is `Released`. -/
  | marked
  /-- The entries were taken; `next` is the one to be looked at. -/
  | visiting (next total : Nat)
  | done (total : Nat)
  deriving DecidableEq, Repr

structure World where
  /-- The phase is `Released`. -/
  released : Bool
  /-- How many chunks the index lists. -/
  index : Nat
  residency : Nat → Residency
  /-- Clones of a chunk's `Arc` held by evictions. -/
  clones : Nat → Nat
  /-- Clones of a chunk's `Arc` held by readers. -/
  readers : Nat → Nat
  runs : Nat → SpillRun
  /-- The chunks in the spill file, when there is one. -/
  file : Option (List Nat)
  release : ReleasePc
  /-- What was passed to `uncharge` for each chunk, in order. -/
  refunds : Nat → List Nat

inductive Action where
  /-- A reader clones a chunk's `Arc`, or drops a clone. -/
  | borrow (chunk : Nat)
  | giveBack (chunk : Nat)
  /-- `spill_one` is called by run `k`. -/
  | enter (k chunk : Nat)
  | lookUp (k : Nat)
  /-- The first residency section. -/
  | take (k : Nat)
  /-- No cipher, or the record could not be encoded or sealed. -/
  | giveUp (k : Nat)
  /-- The section under the spill lock; `written` is whether the file took it. -/
  | append (k : Nat) (written : Bool)
  /-- The second residency section. -/
  | swap (k : Nat)
  | uncharge (k : Nat)
  /-- `release` stores the phase. -/
  | mark
  | takeList
  /-- `release` looks at the next entry under its residency lock. -/
  | visit
  | dropFile
  deriving DecidableEq, Repr

def World.setPc (w : World) (k : Nat) (pc : SpillPc) : World :=
  { w with runs := Function.update w.runs k { w.runs k with pc } }

def World.dropClone (w : World) (chunk : Nat) : World :=
  { w with clones := Function.update w.clones chunk (w.clones chunk - 1) }

def World.refund (w : World) (bytes : Nat → Nat) (chunk : Nat) : World :=
  { w with refunds := Function.update w.refunds chunk (w.refunds chunk ++ [bytes chunk]) }

/-- `spill_one`, one critical section at a time. -/
def spillStep (bytes : Nat → Nat) (w : World) : Action → Option World
  | .enter k chunk =>
    if (w.runs k).pc = .idle then some { w with runs := Function.update w.runs k ⟨chunk, .entered⟩ }
    else none
  | .lookUp k =>
    if (w.runs k).pc = .entered then
      some (w.setPc k (if (w.runs k).chunk < w.index then .found else .returned))
    else none
  | .take k =>
    let chunk := (w.runs k).chunk
    if (w.runs k).pc = .found then
      match w.residency chunk with
      | .spilled => some (w.setPc k .returned)
      | .resident =>
        -- `Arc::strong_count(chunk) > 1`
        if 1 < 1 + w.clones chunk + w.readers chunk then some (w.setPc k .returned)
        else some { w.setPc k .held with clones := Function.update w.clones chunk (w.clones chunk + 1) }
    else none
  | .giveUp k =>
    if (w.runs k).pc = .held then some ((w.setPc k .returned).dropClone (w.runs k).chunk) else none
  | .append k written =>
    let chunk := (w.runs k).chunk
    if (w.runs k).pc = .held then
      if w.released then some ((w.setPc k .returned).dropClone chunk)
      else if written then some { w.setPc k .appended with file := some (w.file.getD [] ++ [chunk]) }
      else some ((w.setPc k .returned).dropClone chunk)
    else none
  | .swap k =>
    let chunk := (w.runs k).chunk
    if (w.runs k).pc = .appended then
      match w.residency chunk with
      | .resident =>
        some { w.setPc k .swapped with residency := Function.update w.residency chunk .spilled }
      | .spilled => some (w.setPc k .swapped)
    else none
  | .uncharge k =>
    let chunk := (w.runs k).chunk
    if (w.runs k).pc = .swapped then some (((w.setPc k .returned).dropClone chunk).refund bytes chunk)
    else none
  | _ => none

/-- `release`, one critical section at a time. -/
def releaseStep (bytes : Nat → Nat) (w : World) : Action → Option World
  | .mark => if w.release = .idle then some { w with released := true, release := .marked } else none
  | .takeList =>
    if w.release = .marked then some { w with index := 0, release := .visiting 0 w.index } else none
  | .visit =>
    match w.release with
    | .visiting next total =>
      if next < total then
        let moved := { w with release := .visiting (next + 1) total }
        match w.residency next with
        | .resident => some (moved.refund bytes next)
        | .spilled => some moved
      else none
    | _ => none
  | .dropFile =>
    match w.release with
    | .visiting next total =>
      if next = total then some { w with file := none, release := .done total } else none
    | _ => none
  | _ => none

def step (bytes : Nat → Nat) (w : World) : Action → Option World
  | .borrow chunk => some { w with readers := Function.update w.readers chunk (w.readers chunk + 1) }
  | .giveBack chunk => some { w with readers := Function.update w.readers chunk (w.readers chunk - 1) }
  | .mark => releaseStep bytes w .mark
  | .takeList => releaseStep bytes w .takeList
  | .visit => releaseStep bytes w .visit
  | .dropFile => releaseStep bytes w .dropFile
  | action => spillStep bytes w action

/-- A store with `total` chunks, before its release and before any eviction of
the interleaving. -/
def start (total : Nat) (residency : Nat → Residency) (readers : Nat → Nat) (file : Option (List Nat)) :
    World :=
  { released := false, index := total, residency, clones := fun _ => 0, readers,
    runs := fun _ => ⟨0, .idle⟩, file, release := .idle, refunds := fun _ => [] }

/-- Every branch of `step`, with the guards that lead to it. -/
inductive Moves (bytes : Nat → Nat) (w : World) : Action → World → Prop where
  | borrow (chunk : Nat) : Moves bytes w (.borrow chunk)
      { w with readers := Function.update w.readers chunk (w.readers chunk + 1) }
  | giveBack (chunk : Nat) : Moves bytes w (.giveBack chunk)
      { w with readers := Function.update w.readers chunk (w.readers chunk - 1) }
  | enter (chunk : Nat) (pc : (w.runs k).pc = .idle) : Moves bytes w (.enter k chunk)
      { w with runs := Function.update w.runs k ⟨chunk, .entered⟩ }
  | listed (pc : (w.runs k).pc = .entered) : Moves bytes w (.lookUp k) (w.setPc k .found)
  | unlisted (pc : (w.runs k).pc = .entered) : Moves bytes w (.lookUp k) (w.setPc k .returned)
  | refused (pc : (w.runs k).pc = .found) : Moves bytes w (.take k) (w.setPc k .returned)
  | taken (pc : (w.runs k).pc = .found) (resident : w.residency (w.runs k).chunk = .resident)
      (alone : w.clones (w.runs k).chunk = 0) : Moves bytes w (.take k)
      { w.setPc k .held with
        clones := Function.update w.clones (w.runs k).chunk (w.clones (w.runs k).chunk + 1) }
  | gaveUp (pc : (w.runs k).pc = .held) : Moves bytes w (.giveUp k)
      ((w.setPc k .returned).dropClone (w.runs k).chunk)
  | notWritten (written : Bool) (pc : (w.runs k).pc = .held) : Moves bytes w (.append k written)
      ((w.setPc k .returned).dropClone (w.runs k).chunk)
  | written (pc : (w.runs k).pc = .held) (live : w.released = false) : Moves bytes w (.append k true)
      { w.setPc k .appended with file := some (w.file.getD [] ++ [(w.runs k).chunk]) }
  | swapped (pc : (w.runs k).pc = .appended) (resident : w.residency (w.runs k).chunk = .resident) :
      Moves bytes w (.swap k)
      { w.setPc k .swapped with residency := Function.update w.residency (w.runs k).chunk .spilled }
  | gone (pc : (w.runs k).pc = .appended) (spilled : w.residency (w.runs k).chunk = .spilled) :
      Moves bytes w (.swap k) (w.setPc k .swapped)
  | uncharged (pc : (w.runs k).pc = .swapped) : Moves bytes w (.uncharge k)
      (((w.setPc k .returned).dropClone (w.runs k).chunk).refund bytes (w.runs k).chunk)
  | marked (pc : w.release = .idle) : Moves bytes w .mark { w with released := true, release := .marked }
  | listTaken (pc : w.release = .marked) : Moves bytes w .takeList
      { w with index := 0, release := .visiting 0 w.index }
  | visitedResident (pc : w.release = .visiting next total) (more : next < total)
      (resident : w.residency next = .resident) : Moves bytes w .visit
      (({ w with release := .visiting (next + 1) total } : World).refund bytes next)
  | visitedSpilled (pc : w.release = .visiting next total) (more : next < total)
      (spilled : w.residency next = .spilled) : Moves bytes w .visit
      { w with release := .visiting (next + 1) total }
  | fileDropped (pc : w.release = .visiting total total) : Moves bytes w .dropFile
      { w with file := none, release := .done total }

theorem step_moves (stepped : step bytes w action = some next) : Moves bytes w action next := by
  cases action with
  | borrow chunk => cases stepped; exact .borrow chunk
  | giveBack chunk => cases stepped; exact .giveBack chunk
  | enter k chunk =>
    simp only [step, spillStep, Option.ite_none_right_eq_some, Option.some.injEq] at stepped
    obtain ⟨pc, rfl⟩ := stepped
    exact .enter chunk pc
  | lookUp k =>
    simp only [step, spillStep, Option.ite_none_right_eq_some, Option.some.injEq] at stepped
    obtain ⟨pc, rfl⟩ := stepped
    split
    · exact .listed pc
    · exact .unlisted pc
  | take k =>
    simp only [step, spillStep, Option.ite_none_right_eq_some] at stepped
    obtain ⟨pc, stepped⟩ := stepped
    split at stepped
    · cases stepped
      exact .refused pc
    · rename_i resident
      split at stepped
      · cases stepped
        exact .refused pc
      · cases stepped
        exact .taken pc resident (by omega)
  | giveUp k =>
    simp only [step, spillStep, Option.ite_none_right_eq_some, Option.some.injEq] at stepped
    obtain ⟨pc, rfl⟩ := stepped
    exact .gaveUp pc
  | append k written =>
    simp only [step, spillStep, Option.ite_none_right_eq_some] at stepped
    obtain ⟨pc, stepped⟩ := stepped
    split at stepped
    · cases stepped
      exact .notWritten written pc
    · rename_i live
      split at stepped
      · rename_i isWritten
        cases stepped
        subst isWritten
        exact .written pc (by simpa using live)
      · cases stepped
        exact .notWritten written pc
  | swap k =>
    simp only [step, spillStep, Option.ite_none_right_eq_some] at stepped
    obtain ⟨pc, stepped⟩ := stepped
    split at stepped
    · rename_i resident
      cases stepped
      exact .swapped pc resident
    · rename_i spilled
      cases stepped
      exact .gone pc spilled
  | uncharge k =>
    simp only [step, spillStep, Option.ite_none_right_eq_some, Option.some.injEq] at stepped
    obtain ⟨pc, rfl⟩ := stepped
    exact .uncharged pc
  | mark =>
    simp only [step, releaseStep, Option.ite_none_right_eq_some, Option.some.injEq] at stepped
    obtain ⟨pc, rfl⟩ := stepped
    exact .marked pc
  | takeList =>
    simp only [step, releaseStep, Option.ite_none_right_eq_some, Option.some.injEq] at stepped
    obtain ⟨pc, rfl⟩ := stepped
    exact .listTaken pc
  | visit =>
    simp only [step, releaseStep] at stepped
    split at stepped
    · rename_i position total pc
      simp only [Option.ite_none_right_eq_some] at stepped
      obtain ⟨more, stepped⟩ := stepped
      split at stepped
      · rename_i resident
        cases stepped
        exact .visitedResident pc more resident
      · rename_i spilled
        cases stepped
        exact .visitedSpilled pc more spilled
    · cases stepped
  | dropFile =>
    simp only [step, releaseStep] at stepped
    split at stepped
    · rename_i position total pc
      simp only [Option.ite_none_right_eq_some, Option.some.injEq] at stepped
      obtain ⟨rfl, rfl⟩ := stepped
      exact .fileDropped pc
    · cases stepped

/-- The run has a clone of its chunk. -/
def SpillPc.holding : SpillPc → Prop
  | .held | .appended | .swapped => True
  | _ => False

/-- Every eviction that holds a chunk is counted, and no two hold the same one:
the second would have seen the first one's clone. -/
structure Held (w : World) : Prop where
  counted : ∀ k, (w.runs k).pc.holding → 0 < w.clones (w.runs k).chunk
  alone : ∀ j k, (w.runs j).pc.holding → (w.runs k).pc.holding →
    (w.runs j).chunk = (w.runs k).chunk → j = k

theorem held_preserved (held : Held w) (moved : Moves bytes w action next) : Held next := by
  obtain ⟨counted, alone⟩ := held
  cases moved <;> constructor <;> simp only [World.setPc, World.dropClone, World.refund] <;>
    grind [SpillPc.holding, Function.update]

def ReleasePc.passed : ReleasePc → Nat → Prop
  | .visiting next _, chunk => chunk < next
  | .done total, chunk => chunk < total
  | _, _ => False

/-- The phase is stored before anything is refunded, and the entries the release
walks are the ones the index listed. -/
structure Progress (total : Nat) (w : World) : Prop where
  phase : w.released = true ↔ w.release ≠ .idle
  listed : w.release = .idle ∨ w.release = .marked → w.index = total
  walked : ∀ next listed, w.release = .visiting next listed → listed = total ∧ next ≤ total
  ended : ∀ listed, w.release = .done listed → listed = total

theorem progress_preserved (progress : Progress total w) (moved : Moves bytes w action next) :
    Progress total next := by
  obtain ⟨phase, listed, walked, ended⟩ := progress
  cases moved <;> constructor <;> simp only [World.setPc, World.dropClone, World.refund] <;> grind

/-- The one step that can go wrong: the release refunds a chunk whose eviction
has already passed its phase check and has not swapped the residency yet. -/
def Apart (w : World) (action : Action) : Prop :=
  ∀ next total, action = .visit → w.release = .visiting next total → next < total →
    ∀ k, (w.runs k).chunk = next → (w.runs k).pc ≠ .appended

/-- What each chunk was refunded so far, when release and evictions stay apart.
`before` is where the chunks were when the interleaving began. -/
structure Accounts (bytes : Nat → Nat) (before : Nat → Residency) (w : World) : Prop where
  unswapped : ∀ i k, w.residency i = .resident → (w.runs k).chunk = i → (w.runs k).pc ≠ .swapped
  unpaid : ∀ i, w.residency i = .resident → ¬w.release.passed i → w.refunds i = []
  released : ∀ i, w.residency i = .resident → w.release.passed i →
    w.refunds i = [bytes i] ∧ ∀ k, (w.runs k).chunk = i → (w.runs k).pc ≠ .appended
  moving : ∀ i, w.residency i = .spilled → before i = .resident →
    (w.refunds i = [] ∧ ∃ k, (w.runs k).chunk = i ∧ (w.runs k).pc = .swapped) ∨
      (w.refunds i = [bytes i] ∧ ∀ k, (w.runs k).chunk = i → (w.runs k).pc ≠ .swapped)
  settled : ∀ i k, w.residency i = .spilled → (w.runs k).chunk = i →
    (w.runs k).pc ≠ .held ∧ (w.runs k).pc ≠ .appended
  untouched : ∀ i, before i = .spilled → w.residency i = .spilled ∧ w.refunds i = [] ∧
    ∀ k, (w.runs k).chunk = i → ¬(w.runs k).pc.holding

private theorem moving_preserved (held : Held w) (accounts : Accounts bytes before w)
    (apart : Apart w action) (moved : Moves bytes w action next)
    (spilled : next.residency i = .spilled) (live : before i = .resident) :
    (next.refunds i = [] ∧ ∃ k, (next.runs k).chunk = i ∧ (next.runs k).pc = .swapped) ∨
      (next.refunds i = [bytes i] ∧ ∀ k, (next.runs k).chunk = i → (next.runs k).pc ≠ .swapped) := by
  have prior := accounts.moving i
  cases moved with
  | borrow | giveBack | fileDropped => exact prior spilled live
  | marked | listTaken | visitedSpilled => exact prior spilled live
  | @swapped k pc resident =>
    by_cases own : (w.runs k).chunk = i
    · have unpassed : ¬w.release.passed i := fun passed =>
        (accounts.released i (own ▸ resident) passed).2 k own pc
      exact .inl ⟨accounts.unpaid i (own ▸ resident) unpassed, k, by simp [World.setPc, own]⟩
    · simp only [Function.update_of_ne (Ne.symm own)] at spilled
      rcases prior spilled live with ⟨unpaid, j, chunk, swapped⟩ | ⟨paid, finished⟩
      · exact .inl ⟨unpaid, j, by simp only [World.setPc]; grind [Function.update]⟩
      · exact .inr ⟨paid, by simp only [World.setPc]; grind [Function.update]⟩
  | @gone k pc gone =>
    have other : (w.runs k).chunk ≠ i := fun own => (accounts.settled i k (own ▸ gone) own).2 pc
    rcases prior spilled live with ⟨unpaid, j, chunk, swapped⟩ | ⟨paid, finished⟩
    · exact .inl ⟨unpaid, j, by simp only [World.setPc]; grind [Function.update]⟩
    · exact .inr ⟨paid, by simp only [World.setPc]; grind [Function.update]⟩
  | @uncharged k pc =>
    by_cases own : (w.runs k).chunk = i
    · -- The holder is alone, so after its refund nobody on this chunk is left to pay.
      have sole : ∀ j, (w.runs j).chunk = i → (w.runs j).pc = .swapped → j = k := fun j chunk swapped =>
        held.alone j k (by simp [swapped, SpillPc.holding]) (by simp [pc, SpillPc.holding]) (chunk.trans own.symm)
      rcases prior spilled live with ⟨unpaid, j, chunk, swapped⟩ | ⟨paid, finished⟩
      · refine .inr ⟨by simp [World.refund, World.dropClone, World.setPc, own, unpaid], ?_⟩
        simp only [World.refund, World.dropClone, World.setPc]
        grind [Function.update]
      · exact absurd pc (finished k own)
    · have same : (((w.setPc k .returned).dropClone (w.runs k).chunk).refund bytes (w.runs k).chunk).refunds i =
          w.refunds i := by simp [World.refund, World.dropClone, World.setPc, Function.update_of_ne (Ne.symm own)]
      rw [same]
      rcases prior spilled live with ⟨unpaid, j, chunk, swapped⟩ | ⟨paid, finished⟩
      · refine .inl ⟨unpaid, j, ?_⟩
        simp only [World.refund, World.dropClone, World.setPc]
        grind [Function.update]
      · refine .inr ⟨paid, ?_⟩
        simp only [World.refund, World.dropClone, World.setPc]
        grind [Function.update]
  | @visitedResident position total pc more resident =>
    have other : i ≠ position := fun same => by
      subst same
      simp only [World.refund] at spilled
      rw [resident] at spilled
      cases spilled
    simpa [World.refund, Function.update_of_ne other] using prior spilled live
  | _ pc =>
    rcases prior spilled live with ⟨unpaid, k, chunk, swapped⟩ | ⟨paid, finished⟩
    · refine .inl ⟨unpaid, k, ?_⟩
      simp only [World.setPc, World.dropClone]
      grind [Function.update]
    · refine .inr ⟨paid, ?_⟩
      simp only [World.setPc, World.dropClone]
      grind [Function.update]

theorem accounts_preserved (held : Held w) (progress : Progress total w) (accounts : Accounts bytes before w)
    (apart : Apart w action) (moved : Moves bytes w action next) : Accounts bytes before next := by
  have moving : ∀ i, next.residency i = .spilled → before i = .resident → _ :=
    fun _ spilled live => moving_preserved held accounts apart moved spilled live
  obtain ⟨counted, alone⟩ := held
  obtain ⟨phase, listed, walked, ended⟩ := progress
  obtain ⟨unswapped, unpaid, released, _, settled, untouched⟩ := accounts
  refine ⟨?_, ?_, ?_, moving, ?_, ?_⟩
  all_goals
    clear moving
    cases moved <;> simp only [World.setPc, World.dropClone, World.refund] <;>
      grind [SpillPc.holding, Function.update, ReleasePc.passed, Apart]

private theorem held_start : Held (start total before readers file) :=
  ⟨fun _ holding => holding.elim, fun _ _ holding => holding.elim⟩

private theorem progress_start : Progress total (start total before readers file) :=
  ⟨by simp [start], fun _ => rfl, nofun, nofun⟩

private theorem accounts_start : Accounts bytes before (start total before readers file) where
  unswapped _ _ _ _ := by simp [start]
  unpaid _ _ _ := rfl
  released _ _ passed := passed.elim
  moving i spilled live := by
    have gone : before i = .spilled := spilled
    rw [gone] at live
    cases live
  settled _ _ _ _ := by simp [start]
  untouched i gone := ⟨gone, rfl, fun _ _ holding => holding⟩

theorem reached_sound (ran : run (step bytes) (start total before readers file) actions = some w) :
    Held w ∧ Progress total w :=
  run_invariant (fun w => Held w ∧ Progress total w)
    (fun _ _ _ sound stepped =>
      ⟨held_preserved sound.1 (step_moves stepped), progress_preserved sound.2 (step_moves stepped)⟩)
    ⟨held_start, progress_start⟩ ran

/-- In a run whose steps all stay apart the refunds are accounted for, chunk by
chunk, in every state reached. -/
theorem reached_accounts (ran : run (step bytes) (start total before readers file) actions = some w)
    (along : Along (step bytes) Apart (start total before readers file) actions) : Accounts bytes before w :=
  (run_invariant_along (fun w => (Held w ∧ Progress total w) ∧ Accounts bytes before w)
    (fun _ _ _ sound apart stepped =>
      have moved := step_moves stepped
      ⟨⟨held_preserved sound.1.1 moved, progress_preserved sound.1.2 moved⟩,
        accounts_preserved sound.1.1 sound.1.2 sound.2 apart moved⟩)
    ⟨⟨held_start, progress_start⟩, accounts_start⟩ along ran).2

/-- The interleaving is over: the release and every eviction have returned. -/
def Complete (total : Nat) (w : World) : Prop :=
  w.release = .done total ∧ ∀ k, (w.runs k).pc = .idle ∨ (w.runs k).pc = .returned

/-- Every chunk in memory at the start was refunded its own bytes, once; a chunk
spilled before it was not refunded again. -/
def RefundedOnce (bytes : Nat → Nat) (total : Nat) (before : Nat → Residency) (w : World) : Prop :=
  ∀ i, i < total → w.refunds i = if before i = .resident then [bytes i] else []

private theorem accounts_settle (accounts : Accounts bytes before w) (complete : Complete total w) :
    RefundedOnce bytes total before w := by
  obtain ⟨done, finished⟩ := complete
  intro i bound
  have passed : w.release.passed i := by rw [done]; exact bound
  cases live : before i with
  | spilled => simpa using (accounts.untouched i live).2.1
  | resident =>
    cases now : w.residency i with
    | resident => simpa using (accounts.released i now passed).1
    | spilled =>
      rcases accounts.moving i now live with ⟨_, k, _, swapped⟩ | ⟨paid, _⟩
      · rcases finished k with idle | returned
        · rw [idle] at swapped; cases swapped
        · rw [returned] at swapped; cases swapped
      · simpa using paid

/-- A chunk the release refunded under an eviction that will still refund it. -/
def Doubled (i k : Nat) (w : World) : Prop :=
  ((w.runs k).chunk = i ∧ ((w.runs k).pc = .appended ∨ (w.runs k).pc = .swapped) ∧
    1 ≤ (w.refunds i).length) ∨ 2 ≤ (w.refunds i).length

theorem doubled_preserved (doubled : Doubled i k w) (moved : Moves bytes w action next) :
    Doubled i k next := by
  unfold Doubled at *
  cases moved <;> simp only [World.setPc, World.dropClone, World.refund] <;> grind [Function.update]

/-- A release that catches an eviction between its phase check and its swap ends
with the chunk refunded at least twice. -/
theorem collision_refunds_twice
    (ran : run (step bytes) (start total before readers file) actions = some w) (complete : Complete total w)
    (failed : ¬Along (step bytes) Apart (start total before readers file) actions) :
    ∃ i, i < total ∧ before i = .resident ∧ 2 ≤ (w.refunds i).length := by
  obtain ⟨first, action, rest, middle, next, _, along, reached, collides, stepped, ended⟩ :=
    not_along_split ran failed
  have accounts := reached_accounts reached along
  have progress := (reached_sound reached).2
  simp only [Apart, not_forall, not_not] at collides
  obtain ⟨position, listed, rfl, visiting, more, k, chunk, appended⟩ := collides
  have resident : middle.residency position = .resident := by
    cases now : middle.residency position with
    | resident => rfl
    | spilled => exact absurd appended (accounts.settled position k now chunk).2
  have live : before position = .resident := by
    cases gone : before position with
    | resident => rfl
    | spilled => rw [(accounts.untouched position gone).1] at resident; cases resident
  have doubled : Doubled position k next := by
    cases step_moves stepped with
    | visitedResident pc _ _ =>
      rw [visiting] at pc
      cases pc
      exact .inl ⟨chunk, .inl appended, by simp [World.refund]⟩
    | visitedSpilled pc _ spilled =>
      rw [visiting] at pc
      cases pc
      rw [resident] at spilled
      cases spilled
  have final : Doubled position k w :=
    run_invariant (Doubled position k) (fun _ _ _ kept taken => doubled_preserved kept (step_moves taken))
      doubled ended
  refine ⟨position, (progress.walked _ _ visiting).1 ▸ more, live, ?_⟩
  rcases final with ⟨_, open_, _⟩ | twice
  · rcases complete.2 k with idle | returned
    · rw [idle] at open_; simp at open_
    · rw [returned] at open_; simp at open_
  · exact twice

/-- When the release and all evictions have returned, every chunk was refunded
exactly once if and only if the release never refunded a chunk between an
eviction's phase check and its swap. -/
theorem refunded_once_iff_apart
    (ran : run (step bytes) (start total before readers file) actions = some w) (complete : Complete total w) :
    RefundedOnce bytes total before w ↔ Along (step bytes) Apart (start total before readers file) actions := by
  constructor
  · intro once
    by_contra failed
    obtain ⟨i, bound, live, twice⟩ := collision_refunds_twice ran complete failed
    rw [once i bound, live] at twice
    simp at twice
  · exact fun along => accounts_settle (reached_accounts ran along) complete

/-- One chunk in memory, and one eviction that is over before the release begins. -/
theorem refunded_once_at :
    Along (step fun _ => 100) Apart (start 1 (fun _ => .resident) (fun _ => 0) none)
      [.enter 0 0, .lookUp 0, .take 0, .append 0 true, .swap 0, .uncharge 0, .mark, .takeList, .visit,
        .dropFile] := by
  obtain ⟨w, ran, done, refunds, idle⟩ : ∃ w,
      run (step fun _ => 100) (start 1 (fun _ => .resident) (fun _ => 0) none)
        [.enter 0 0, .lookUp 0, .take 0, .append 0 true, .swap 0, .uncharge 0, .mark, .takeList, .visit,
          .dropFile] = some w ∧ w.release = .done 1 ∧ w.refunds 0 = [100] ∧
        ∀ k, (w.runs k).pc = .idle ∨ (w.runs k).pc = .returned := by
    refine ⟨_, rfl, rfl, rfl, fun k => ?_⟩
    by_cases own : k = 0
    · subst own
      exact .inr rfl
    · exact .inl (by simp [World.refund, World.dropClone, World.setPc, start, own])
  refine (refunded_once_iff_apart ran ⟨done, idle⟩).mp fun i bound => ?_
  obtain rfl : i = 0 := by omega
  exact refunds

/-- The eviction has appended its record when the release refunds the chunk; the
swap still succeeds, and the chunk is refunded again. -/
theorem release_refunds_twice : ∃ w,
    run (step fun _ => 100) (start 1 (fun _ => .resident) (fun _ => 0) none)
      [.enter 0 0, .lookUp 0, .take 0, .append 0 true, .mark, .takeList, .visit, .dropFile, .swap 0,
        .uncharge 0] = some w ∧
      Complete 1 w ∧ ¬RefundedOnce (fun _ => 100) 1 (fun _ => .resident) w := by
  refine ⟨_, rfl, ⟨rfl, fun k => ?_⟩, fun once => ?_⟩
  · by_cases own : k = 0
    · subst own
      exact .inr rfl
    · exact .inl (by simp [World.refund, World.dropClone, World.setPc, start, own])
  · have twice : [100, 100] = [100] := once 0 (by omega)
    simp at twice

end QueryHive.Store.Refund
