import QueryHive.Driver.TrinoCursor
import Mathlib.Data.List.Forall2

/-! What reading a Trino result delivers: the rows of the pages, in order and each once,
and the end only where the result ends. A reader that has not halted holds in its cursor
exactly the rows that were read and not yet delivered. -/
namespace QueryHive.Driver.Trino
open QueryHive.Core QueryHive.Library.History QueryHive.Library.Runs

variable {Cell Value : Type} {setup : Setup Cell Value} {reader next : Reader Cell Value} {cursor : Cursor Value}
  {history : List (Event Value)} {rowLimit : Option Nat}

def Event.delivered : Event Value → List (List Value)
  | rows records => records
  | _ => []

def Event.page? : Event Value → Option (Page Value)
  | read page => some page
  | _ => none

/-- The rows handed to the caller. -/
def delivered (history : List (Event Value)) : List (List Value) := history.flatMap Event.delivered

def pagesRead (history : List (Event Value)) : List (Page Value) := history.filterMap Event.page?

def rowsRead (history : List (Event Value)) : List (List Value) := (pagesRead history).flatMap Page.data

def currentCall (history : List (Event Value)) : List (Event Value) :=
  history.reverse.takeWhile fun event => match event with
    | .asked => false
    | _ => true

/-- The result is over: its last page was read without an error, or as many rows were
delivered as were asked for. -/
def Over (rowLimit : Option Nat) (history : List (Event Value)) : Prop :=
  (∃ page, (pagesRead history).getLast? = some page ∧ page.error = none ∧ page.nextUri = none) ∨
    ∃ limit, rowLimit = some limit ∧ (delivered history).length = limit

/-- The end of the result is reported only where it is over, and in no call that read a
page's error. -/
structure Placed (rowLimit : Option Nat) (before : List (Event Value)) (event : Event Value) : Prop where
  complete : event = .ended → Over rowLimit before
  clean : event = .ended → ∀ page, .read page ∈ currentCall before → page.error = none

/-- A row as it was delivered: padded with `NULL` to the width of its batch. -/
def Padded (null : Value) (row record : List Value) : Prop := ∃ width, record = padded null width row

def DeliveredAs (null : Value) (history : List (Event Value)) (rows : List (List Value)) : Prop :=
  List.Forall₂ (Padded null) rows (delivered history)

def Body.Named (body : Body Cell) : Prop := body.data ≠ [] → body.columns.isSome

/-- The error of a page, if it has one, is not retried. -/
def Reader.answers (setup : Setup Cell Value) (reader : Reader Cell Value) (call : Call) (body : Body Cell) : Prop :=
  ∀ error ∈ (body.page setup.decoder).error,
    setup.again call.attempt (mapError error reader.cursor.sql reader.cursor.timeoutMs) = false

/-- The steps that keep it: no call after one that failed with the cursor moved on, and
every page read names the columns of its rows and has no error that is retried. -/
def Careful (setup : Setup Cell Value) (reader : Reader Cell Value) : Action → Prop
  | .ask _ _ => reader.halted = false
  | .turn request => ∀ call ∈ reader.call, reader.reads call request = true → ∀ body ∈ reader.unread.head?,
      body.Named ∧ reader.answers setup call body

instance decidableNamed (body : Body Cell) : Decidable body.Named :=
  inferInstanceAs (Decidable (¬body.data = [] → body.columns.isSome))

/-- Whether a step is careful can be computed. -/
instance decidableCareful (setup : Setup Cell Value) (reader : Reader Cell Value) :
    (action : Action) → Decidable (Careful setup reader action)
  | .ask _ _ => inferInstanceAs (Decidable (reader.halted = false))
  | .turn request =>
    have _answers (call : Call) (body : Body Cell) : Decidable (reader.answers setup call body) :=
      inferInstanceAs (Decidable (∀ error ∈ (body.page setup.decoder).error,
        setup.again call.attempt (mapError error reader.cursor.sql reader.cursor.timeoutMs) = false))
    inferInstanceAs (Decidable (∀ call ∈ reader.call, reader.reads call request = true → ∀ body ∈ reader.unread.head?,
      body.Named ∧ reader.answers setup call body))

@[simp] theorem delivered_concat (history : List (Event Value)) (event : Event Value) :
    delivered (history ++ [event]) = delivered history ++ event.delivered := by
  simp [delivered]

@[simp] theorem delivered_read (page : Page Value) : (Event.read page).delivered = [] := rfl

@[simp] theorem pagesRead_concat (history : List (Event Value)) (event : Event Value) :
    pagesRead (history ++ [event]) = pagesRead history ++ event.page?.toList := by
  cases event <;> simp [pagesRead, Event.page?]

@[simp] theorem rowsRead_concat (history : List (Event Value)) (event : Event Value) :
    rowsRead (history ++ [event]) = rowsRead history ++ event.page?.toList.flatMap Page.data := by
  simp [rowsRead]

/-- An event that neither reads nor delivers. -/
def Event.quiet (event : Event Value) : Prop := event.delivered = [] ∧ event.page? = none

/-- What the cursor holds of a result that is still read. -/
structure Live (null : Value) (rowLimit : Option Nat) (cursor : Cursor Value) (history : List (Event Value)) :
    Prop where
  rest : ∃ rows, DeliveredAs null history rows ∧ rows ++ cursor.pending = rowsRead history
  emitted : cursor.emitted = (delivered history).length
  fine : ∀ page ∈ pagesRead history, page.error = none
  finished : cursor.finished = true → cursor.nextUri = none ∨ ∃ limit, rowLimit = some limit ∧ cursor.emitted = limit
  next : ∃ page, (pagesRead history).getLast? = some page ∧ cursor.nextUri = page.nextUri
  limit : ∀ limit ∈ rowLimit, cursor.emitted ≤ limit
  rowLimit : cursor.rowLimit = rowLimit

/-- What the history says so far, with the pages still unread. -/
structure Told (setup : Setup Cell Value) (rowLimit : Option Nat) (pages unread : List (Body Cell))
    (history : List (Event Value)) : Prop where
  read : ∃ done, pages = done ++ unread ∧ pagesRead history = done.map (Body.page setup.decoder) ∧
    ∀ body ∈ done, body.Named
  placed : Each (Placed rowLimit) history
  sent : ∃ rows, DeliveredAs setup.decoder.null history rows ∧ rows <+: rowsRead history

/-- What holds of a reader in every careful run. -/
structure Sound (setup : Setup Cell Value) (rowLimit : Option Nat) (pages : List (Body Cell))
    (reader : Reader Cell Value) : Prop where
  told : Told setup rowLimit pages reader.unread reader.history
  idle : reader.halted = true → reader.call = none
  live : reader.halted = false → Live setup.decoder.null rowLimit reader.cursor reader.history

theorem Live.quiet {null : Value} (live : Live null rowLimit cursor history) (event : Event Value)
    (quiet : event.quiet) :
    Live null rowLimit cursor (history ++ [event]) := by
  have sameRows : delivered (history ++ [event]) = delivered history := by
    rw [delivered_concat, quiet.1, List.append_nil]
  have samePages : pagesRead (history ++ [event]) = pagesRead history := by
    rw [pagesRead_concat, quiet.2, Option.toList_none, List.append_nil]
  have sameRead : rowsRead (history ++ [event]) = rowsRead history := by rw [rowsRead, samePages, rowsRead]
  obtain ⟨rows, sent, rest⟩ := live.rest
  exact ⟨⟨rows, by rw [DeliveredAs, sameRows]; exact sent, by rw [sameRead]; exact rest⟩,
    by rw [sameRows]; exact live.emitted, by rw [samePages]; exact live.fine, live.finished,
    by rw [samePages]; exact live.next, live.limit, live.rowLimit⟩

/-- A page without an error, taken into the cursor. -/
theorem Live.take {null : Value} (live : Live null rowLimit cursor history) (going : cursor.finished = false)
    {page : Page Value} (fine : page.error = none) :
    Live null rowLimit (cursor.take page) (history ++ [.read page]) := by
  obtain ⟨rows, sent, rest⟩ := live.rest
  refine ⟨⟨rows, by rw [DeliveredAs, delivered_concat, delivered_read, List.append_nil]; exact sent, ?_⟩,
    ?_, ?_, ?_, ?_, live.limit, live.rowLimit⟩
  · rw [rowsRead_concat, ← rest, Cursor.take, ← List.append_assoc]
    simp [Event.page?]
  · rw [delivered_concat, delivered_read, List.append_nil]
    exact live.emitted
  · rw [pagesRead_concat]
    intro other inside
    obtain before | last := List.mem_append.mp inside
    · exact live.fine other before
    · rw [List.mem_singleton.mp last]
      exact fine
  · intro finished
    rw [Cursor.take, going, Bool.false_or] at finished
    exact .inl (Option.isNone_iff_eq_none.mp finished)
  · exact ⟨page, by rw [pagesRead_concat]; simp [Event.page?], rfl⟩

theorem budget_le (limited : cursor.rowLimit = some limit) (maxRows : Nat) :
    cursor.budget maxRows ≤ limit - cursor.emitted := by
  rw [Cursor.budget, limited]
  exact Nat.min_le_right _ _

theorem capped_pos (cursor : Cursor Value) (maxRows : Nat) : 0 < cursor.capped maxRows := by
  have asked : 0 < if maxRows = 0 then 2 ^ 64 - 1 else maxRows := by
    split <;> omega
  unfold Cursor.capped
  dsimp only
  split
  · split
    · next positive => exact Nat.lt_min.mpr ⟨asked, positive⟩
    · exact asked
  · exact asked

theorem limit_of_budget_zero (spent : cursor.budget maxRows = 0) :
    ∃ limit, cursor.rowLimit = some limit ∧ limit ≤ cursor.emitted := by
  have capped := capped_pos cursor maxRows
  unfold Cursor.budget at spent
  split at spent
  · next limit limited => exact ⟨limit, limited, by omega⟩
  · omega

theorem le_foldl_max (values : List Nat) (start : Nat) :
    start ≤ values.foldl max start ∧ ∀ value ∈ values, value ≤ values.foldl max start := by
  induction values generalizing start with
  | nil => exact ⟨Nat.le_refl start, fun _ inside => absurd inside List.not_mem_nil⟩
  | cons first values ih =>
    obtain ⟨low, high⟩ := ih (max start first)
    refine ⟨Nat.le_trans (Nat.le_max_left start first) low, fun value inside => ?_⟩
    obtain rfl | later := List.mem_cons.mp inside
    · exact Nat.le_trans (Nat.le_max_right start value) low
    · exact high value later

theorem le_batchWidth (cursor : Cursor Value) (inside : row ∈ rows) : row.length ≤ batchWidth cursor rows :=
  (le_foldl_max _ _).2 _ (List.mem_map.mpr ⟨row, inside, rfl⟩)

theorem batch_records {null : Value} (formed : cursor.batch null maxRows = (.batch batch, after)) :
    batch.records = (cursor.drain maxRows).map (padded null (batchWidth cursor (cursor.drain maxRows))) := by
  unfold Cursor.batch at formed
  dsimp only at formed
  split at formed
  · next made =>
    cases formed
    exact records_of_transpose (fun row inside => le_batchWidth cursor inside) made
  · cases formed

theorem batch_cursor (null : Value) (maxRows : Nat) (cursor : Cursor Value) :
    (cursor.batch null maxRows).2 = { cursor with
      pending := cursor.pending.drop (cursor.drain maxRows).length
      emitted := cursor.emitted + (cursor.drain maxRows).length } := by
  unfold Cursor.batch
  dsimp only
  split <;> rfl

theorem drain_rest (cursor : Cursor Value) (maxRows : Nat) :
    cursor.drain maxRows ++ cursor.pending.drop (cursor.drain maxRows).length = cursor.pending := by
  rw [Cursor.drain, List.length_take]
  by_cases all : cursor.budget maxRows ≤ cursor.pending.length
  · rw [Nat.min_eq_left all, List.take_append_drop]
  · rw [Nat.min_eq_right (by omega), List.drop_length, List.append_nil, List.take_of_length_le (by omega)]

theorem Live.deliver {null : Value} (live : Live null rowLimit cursor history) (has : cursor.hasRows maxRows = true)
    (formed : cursor.batch null maxRows = (.batch batch, after)) :
    Live null rowLimit after (history ++ [.rows batch.records]) := by
  obtain ⟨rows, sent, rest⟩ := live.rest
  have records := batch_records formed
  have moved := batch_cursor null maxRows cursor
  rw [formed] at moved
  dsimp only at moved
  subst moved
  have budget : 0 < cursor.budget maxRows := by
    simp only [Cursor.hasRows, Bool.and_eq_true, decide_eq_true_eq] at has
    exact has.2
  have count : batch.records.length = (cursor.drain maxRows).length := by rw [records, List.length_map]
  have within : ∀ limit ∈ rowLimit, cursor.emitted + (cursor.drain maxRows).length ≤ limit := by
    intro limit limited
    have ceiling := budget_le (live.rowLimit.trans limited) maxRows
    have drained : (cursor.drain maxRows).length ≤ cursor.budget maxRows := List.length_take_le _ _
    have held := live.limit limit limited
    omega
  refine ⟨⟨rows ++ cursor.drain maxRows, ?_, ?_⟩, ?_, ?_, fun finished => ?_, ?_, within, live.rowLimit⟩
  · rw [DeliveredAs, delivered_concat, Event.delivered, records]
    refine List.rel_append sent ?_
    rw [List.forall₂_map_right_iff]
    exact List.forall₂_same.mpr fun row _ => ⟨_, rfl⟩
  · rw [List.append_assoc, drain_rest, rest, rowsRead_concat]
    simp [Event.page?]
  · rw [delivered_concat, List.length_append, live.emitted, Event.delivered, count]
  · rw [pagesRead_concat]
    simpa [Event.page?] using live.fine
  · refine (live.finished finished).imp_right fun ⟨limit, limited, full⟩ => ?_
    have ceiling := budget_le (live.rowLimit.trans limited) maxRows
    omega
  · rw [pagesRead_concat]
    simpa [Event.page?] using live.next

/-- Every way a turn of the loop ends. -/
inductive Turns (null : Value) (maxRows : Nat) (request : Request) (page : Page Value) (cursor : Cursor Value) :
    Turn Value × Cursor Value → Prop where
  | batch (has : cursor.hasRows maxRows = true) : Turns null maxRows request page cursor (cursor.batch null maxRows)
  | spent (quiet : cursor.fetches maxRows = false) (spent : cursor.budget maxRows = 0) :
      Turns null maxRows request page cursor (.ended, { cursor with finished := true })
  | finished (quiet : cursor.fetches maxRows = false) (complete : cursor.finished = true) :
      Turns null maxRows request page cursor (.ended, cursor)
  | last (quiet : cursor.fetches maxRows = false) (complete : cursor.nextUri = none) :
      Turns null maxRows request page cursor (.ended, { cursor with finished := true })
  | unanswered (failed : request.error = some error) :
    Turns null maxRows request page cursor (.failed error false, cursor)
  | pageError (asks : cursor.fetches maxRows = true) (answered : request.error = none)
    (failed : page.error = some error) :
      Turns null maxRows request page cursor
        (.failed (mapError error cursor.sql cursor.timeoutMs) true, { cursor with finished := true })
  | page (asks : cursor.fetches maxRows = true) (answered : request.error = none) (fine : page.error = none) :
      Turns null maxRows request page cursor
        (if (cursor.take page).pending.isEmpty && (cursor.take page).finished then .ended else .again, cursor.take page)

theorem turn_cases (null : Value) (maxRows : Nat) (request : Request) (page : Page Value) (cursor : Cursor Value) :
    Turns null maxRows request page cursor (cursor.turn null maxRows request page) := by
  unfold Cursor.turn
  by_cases has : cursor.hasRows maxRows = true
  · rw [if_pos has]
    exact .batch has
  rw [if_neg has]
  by_cases spent : cursor.budget maxRows = 0
  · rw [if_pos spent]
    exact .spent (by simp [Cursor.fetches, spent]) spent
  rw [if_neg spent]
  by_cases finished : cursor.finished = true
  · rw [if_pos finished]
    exact .finished (by simp [Cursor.fetches, finished]) finished
  rw [if_neg finished]
  cases nextUri : cursor.nextUri with
  | none =>
    have fetched : cursor.fetchPage request page = (.ok (), { cursor with finished := true }) := by
      rw [Cursor.fetchPage, nextUri]
    have empty : cursor.pending.isEmpty = true := by
      simpa [Cursor.hasRows, Nat.pos_of_ne_zero spent] using has
    rw [fetched]
    dsimp only
    rw [empty]
    exact .last (by simp [Cursor.fetches, nextUri]) nextUri
  | some uri =>
    have asks : cursor.fetches maxRows = true := by
      simp [Cursor.fetches, has, Nat.pos_of_ne_zero spent, finished, nextUri]
    cases requested : request.error with
    | some error =>
      have fetched : cursor.fetchPage request page = (.error error, cursor) := by
        rw [Cursor.fetchPage, nextUri, requested]
      rw [fetched]
      exact .unanswered requested
    | none =>
      cases failed : page.error with
      | some error =>
        have fetched : cursor.fetchPage request page =
            (.error (mapError error cursor.sql cursor.timeoutMs), { cursor with finished := true }) := by
          rw [Cursor.fetchPage, nextUri, requested]
          simp only [failed]
        rw [fetched]
        exact .pageError asks requested failed
      | none =>
        have fetched : cursor.fetchPage request page = (.ok (), cursor.take page) := by
          rw [Cursor.fetchPage, nextUri, requested]
          simp only [failed]
        rw [fetched]
        exact .page asks requested failed

theorem Told.quiet (told : Told setup rowLimit pages unread history) (quiet : event.quiet)
    (placed : Placed rowLimit history event) : Told setup rowLimit pages unread (history ++ [event]) := by
  obtain ⟨done, split, read, named⟩ := told.read
  obtain ⟨rows, sent, before⟩ := told.sent
  refine ⟨⟨done, split, ?_, named⟩, told.placed.concat placed, ⟨rows, ?_, ?_⟩⟩
  · rw [pagesRead_concat, quiet.2, Option.toList_none, List.append_nil]
    exact read
  · rw [DeliveredAs, delivered_concat, quiet.1, List.append_nil]
    exact sent
  · rw [rowsRead_concat, quiet.2]
    simpa using before

theorem Told.page (told : Told setup rowLimit pages (body :: rest) history) (named : body.Named) :
    Told setup rowLimit pages rest (history ++ [.read (body.page setup.decoder)]) := by
  obtain ⟨done, split, read, earlier⟩ := told.read
  obtain ⟨rows, sent, before⟩ := told.sent
  refine ⟨⟨done ++ [body], by rw [split]; simp, ?_, ?_⟩,
    told.placed.concat ⟨(fun no => nomatch no), (fun no => nomatch no)⟩,
    ⟨rows, ?_, ?_⟩⟩
  · rw [pagesRead_concat, read]
    simp [Event.page?]
  · intro other inside
    obtain before | last := List.mem_append.mp inside
    · exact earlier other before
    · rw [List.mem_singleton.mp last]
      exact named
  · rw [DeliveredAs, delivered_concat, delivered_read, List.append_nil]
    exact sent
  · rw [rowsRead_concat]
    exact before.trans (List.prefix_append _ _)

/-- Rows handed over are told by the cursor that held them. -/
theorem Told.rows (told : Told setup rowLimit pages unread history)
    (live : Live setup.decoder.null rowLimit cursor (history ++ [.rows records])) :
    Told setup rowLimit pages unread (history ++ [.rows records]) := by
  obtain ⟨done, split, read, named⟩ := told.read
  obtain ⟨rows, sent, rest⟩ := live.rest
  refine ⟨⟨done, split, ?_, named⟩, told.placed.concat ⟨(fun no => nomatch no), (fun no => nomatch no)⟩,
    ⟨rows, sent, ⟨cursor.pending, rest⟩⟩⟩
  rw [pagesRead_concat]
  simpa [Event.page?] using read

theorem Live.ended {null : Value} (live : Live null rowLimit cursor history)
    (complete : cursor.nextUri = none ∨ ∃ limit, rowLimit = some limit ∧ cursor.emitted = limit) :
    Placed rowLimit history (.ended : Event Value) := by
  refine ⟨fun _ => ?_, fun _ page inside => ?_⟩
  · obtain gone | ⟨limit, limited, full⟩ := complete
    · obtain ⟨page, last, same⟩ := live.next
      exact .inl ⟨page, last, live.fine page (List.mem_of_getLast? last), same ▸ gone⟩
    · exact .inr ⟨limit, limited, live.emitted ▸ full⟩
  · refine live.fine page ?_
    have member : .read page ∈ history := by
      have taken := (List.takeWhile_subset _) inside
      exact List.mem_reverse.mp taken
    exact List.mem_filterMap.mpr ⟨_, member, rfl⟩

theorem next_page (answered : (reader.request request).error = none) :
    ∃ body rest, reader.unread = body :: rest ∧ reader.next setup = body.page setup.decoder := by
  cases unread : reader.unread with
  | nil =>
    simp only [Reader.request, unread, List.isEmpty_nil, Bool.true_and] at answered
    split at answered
    · cases answered
    · next other =>
      cases request <;> simp_all [Request.error]
  | cons body rest => exact ⟨body, rest, rfl, by simp [Reader.next, unread]⟩

theorem batch_shape (null : Value) (maxRows : Nat) (cursor : Cursor Value) :
    (∃ batch, cursor.batch null maxRows = (.batch batch, (cursor.batch null maxRows).2)) ∨
      ∃ error, cursor.batch null maxRows = (.failed (unformed error) true, (cursor.batch null maxRows).2) := by
  unfold Cursor.batch
  dsimp only
  split
  · exact .inl ⟨_, rfl⟩
  · exact .inr ⟨_, rfl⟩

theorem not_again_internal (setup : Setup Cell Value) (attempt : Nat) (message : String) :
    setup.again attempt (.internal message) = false := by
  simp [Setup.again, EngineError.failureKind]

/-- A call that fails after the cursor moved on halts the reader. -/
theorem fail_sound (reader : Reader Cell Value) (told : Told setup rowLimit pages reader.unread reader.history)
    (error : EngineError) :
    Sound setup rowLimit pages (reader.fail error true) := by
  refine ⟨told.quiet ⟨rfl, rfl⟩ ⟨(fun no => nomatch no), (fun no => nomatch no)⟩, fun _ => rfl, fun running => ?_⟩
  rw [Reader.fail, Bool.or_true] at running
  cases running

theorem ended_sound (told : Told setup rowLimit pages reader.unread reader.history)
    (live : Live setup.decoder.null rowLimit reader.cursor reader.history)
    (complete : reader.cursor.nextUri = none ∨ ∃ limit, rowLimit = some limit ∧ reader.cursor.emitted = limit) :
    Sound setup rowLimit pages { reader with call := none, history := reader.history ++ [.ended] } :=
  ⟨told.quiet ⟨rfl, rfl⟩ (live.ended complete), fun _ => rfl, fun _ => live.quiet .ended ⟨rfl, rfl⟩⟩

theorem deliver_sound (reader : Reader Cell Value) (told : Told setup rowLimit pages reader.unread reader.history)
    (live : Live setup.decoder.null rowLimit cursor reader.history) (has : cursor.hasRows maxRows = true)
    (formed : cursor.batch setup.decoder.null maxRows = (.batch batch, reader.cursor)) (call : Call) :
    Sound setup rowLimit pages (reader.deliver call batch) := by
  have after := live.deliver has formed
  have handed : Sound setup rowLimit pages
      { reader with call := none, history := reader.history ++ [.rows batch.records] } :=
    ⟨told.rows after, fun _ => rfl, fun _ => after⟩
  have some' : batch.rows ≠ 0 := by
    have count : batch.records.length = (cursor.drain maxRows).length := by rw [batch_records formed, List.length_map]
    have drained : 0 < (cursor.drain maxRows).length := by
      simp only [Cursor.hasRows, Bool.and_eq_true, decide_eq_true_eq, Bool.not_eq_true',
        List.isEmpty_eq_false_iff] at has
      rw [Cursor.drain, List.length_take]
      exact Nat.lt_min.mpr ⟨has.2, List.length_pos_iff.mpr has.1⟩
    rw [ColumnBatch.records, List.length_map, List.length_range] at count
    omega
  unfold Reader.deliver
  split
  · exact handed
  · rw [if_neg some']
    split
    · exact handed
    · exact fail_sound reader told _

/-- A cursor that has nothing to hand back, and is only marked as finished. -/
theorem Live.finish {null : Value} (live : Live null rowLimit cursor history)
    (complete : cursor.nextUri = none ∨ ∃ limit, rowLimit = some limit ∧ cursor.emitted = limit) :
    Live null rowLimit { cursor with finished := true } history :=
  ⟨live.rest, live.emitted, live.fine, fun _ => complete, live.next, live.limit, live.rowLimit⟩

theorem moved_quiet (quiet : reader.reads call request = false) :
    reader.moved setup call request cursor = { reader with cursor := cursor } := by
  rw [Reader.moved, quiet]
  rfl

theorem moved_reads (reads : reader.reads call request = true) (unread : reader.unread = body :: rest)
    (page : reader.next setup = body.page setup.decoder) :
    reader.moved setup call request cursor = { reader with
      cursor := cursor, unread := rest, history := reader.history ++ [.read (body.page setup.decoder)] } := by
  rw [Reader.moved, reads, unread, page]
  rfl

theorem turned_sound (sound : Sound setup rowLimit pages reader) (active : reader.call = some call)
    (careful : Careful setup reader (.turn request)) :
    Sound setup rowLimit pages (reader.turned setup call request) := by
  have running : reader.halted = false := by
    cases halted : reader.halted with
    | false => rfl
    | true =>
      rw [sound.idle halted] at active
      cases active
  have live := sound.live running
  have told := sound.told
  have cases' := turn_cases setup.decoder.null call.maxRows (reader.request request) (reader.next setup) reader.cursor
  have quietly (asks : reader.cursor.fetches call.maxRows = false) : reader.reads call request = false := by
    rw [Reader.reads, asks, Bool.false_and]
  unfold Reader.turned
  generalize reader.cursor.turn setup.decoder.null call.maxRows (reader.request request) (reader.next setup) = result
    at cases' ⊢
  cases cases' with
  | batch has =>
    obtain ⟨batch, formed⟩ | ⟨error, refused⟩ := batch_shape setup.decoder.null call.maxRows reader.cursor
    · rw [formed]
      dsimp only
      rw [moved_quiet (quietly (by simp [Cursor.fetches, has]))]
      exact deliver_sound
        { reader with cursor := (reader.cursor.batch setup.decoder.null call.maxRows).2 } told live has
        formed call
    · rw [refused]
      dsimp only
      rw [moved_quiet (quietly (by simp [Cursor.fetches, has])), Reader.conclude, unformed,
        if_neg (by simp [not_again_internal])]
      exact fail_sound { reader with cursor := (reader.cursor.batch setup.decoder.null call.maxRows).2 } told _
  | spent asks spent =>
    have complete : reader.cursor.nextUri = none ∨ ∃ limit, rowLimit = some limit ∧ reader.cursor.emitted = limit := by
      obtain ⟨limit, limited, full⟩ := limit_of_budget_zero spent
      have same := live.rowLimit.symm.trans limited
      exact .inr ⟨limit, same, Nat.le_antisymm (live.limit limit same) full⟩
    dsimp only
    rw [moved_quiet (quietly asks)]
    exact ended_sound told (live.finish complete) complete
  | finished asks complete =>
    dsimp only
    rw [moved_quiet (quietly asks)]
    exact ended_sound told live (live.finished complete)
  | last asks complete =>
    dsimp only
    rw [moved_quiet (quietly asks)]
    exact ended_sound told (live.finish (.inl complete)) (.inl complete)
  | unanswered failed =>
    dsimp only
    rw [moved_quiet (by simp [Reader.reads, failed]), Reader.conclude]
    split
    · exact ⟨told, fun halted => absurd (running.symm.trans halted) (by decide), fun _ => live⟩
    · refine ⟨told.quiet ⟨rfl, rfl⟩ ⟨(fun no => nomatch no), (fun no => nomatch no)⟩, fun _ => rfl, fun _ => ?_⟩
      exact live.quiet _ ⟨rfl, rfl⟩
  | pageError asks answered failed =>
    obtain ⟨body, rest, unread, page⟩ := @next_page _ _ setup _ _ answered
    have reads : reader.reads call request = true := by simp [Reader.reads, asks, answered]
    obtain ⟨named, answers⟩ := careful call active reads body (by rw [unread]; rfl)
    rw [page] at failed
    dsimp only
    rw [moved_reads reads unread page, Reader.conclude, if_neg (by simp [answers _ failed])]
    rw [unread] at told
    exact fail_sound { reader with
      cursor := { reader.cursor with finished := true }
      unread := rest
      history := reader.history ++ [.read (body.page setup.decoder)] } (told.page named) _
  | page asks answered fine =>
    obtain ⟨body, rest, unread, page⟩ := @next_page _ _ setup _ _ answered
    have reads : reader.reads call request = true := by simp [Reader.reads, asks, answered]
    obtain ⟨named, -⟩ := careful call active reads body (by rw [unread]; rfl)
    have going : reader.cursor.finished = false := by
      simp only [Cursor.fetches, Bool.and_eq_true, Bool.not_eq_true'] at asks
      exact asks.1.2
    rw [unread] at told
    rw [page] at fine ⊢
    have after := live.take going fine
    dsimp only
    rw [moved_reads reads unread page]
    split
    · next ended =>
      refine ended_sound (told.page named) after (after.finished ?_)
      simp only [Bool.and_eq_true] at ended
      exact ended.2
    · exact ⟨told.page named, fun halted => absurd (running.symm.trans halted) (by decide), fun _ => after⟩

theorem step_sound (sound : Sound setup rowLimit pages reader) (careful : Careful setup reader action)
    (stepped : step setup reader action = some next) : Sound setup rowLimit pages next := by
  cases action with
  | ask maxRows builder =>
    rw [step] at stepped
    split at stepped
    · cases stepped
    · cases stepped
      refine ⟨sound.told.quiet ⟨rfl, rfl⟩ ⟨(fun no => nomatch no), (fun no => nomatch no)⟩, fun halted => ?_,
        fun running => (sound.live running).quiet _ ⟨rfl, rfl⟩⟩
      exact absurd (Eq.trans (Eq.symm careful) halted) (by decide)
  | turn request =>
    obtain ⟨call, active, rfl⟩ := Option.map_eq_some_iff.mp stepped
    exact turned_sound sound active careful

theorem start_sound (setup : Setup Cell Value) (sql : String) (options : ExecuteOptions) (first : Body Cell)
    (pages : List (Body Cell)) (fine : (first.page setup.decoder).error = none) (named : first.Named) :
    Sound setup options.rowLimit (first :: pages) (Reader.start setup sql options first pages) := by
  have nothing : DeliveredAs setup.decoder.null (Reader.start setup sql options first pages).history [] := .nil
  have all : rowsRead (Reader.start setup sql options first pages).history = (first.page setup.decoder).data := by
    simp [Reader.start, rowsRead, pagesRead, Event.page?]
  refine ⟨⟨⟨[first], rfl, rfl, by simpa using named⟩,
    Each.concat each_nil ⟨(fun no => nomatch no), (fun no => nomatch no)⟩,
    ⟨[], nothing, List.nil_prefix⟩⟩, fun no => (nomatch no),
      fun _ => ⟨⟨[], nothing, all.symm⟩, rfl, ?_, fun finished => ?_,
      ⟨_, rfl, rfl⟩, fun limit _ => Nat.zero_le limit, rfl⟩⟩
  · intro page inside
    rw [List.mem_singleton.mp inside]
    exact fine
  · exact .inl (Option.isNone_iff_eq_none.mp finished)

theorem named_rows (decoder : Decoder Cell Value) {body : Body Cell} (named : body.Named) :
    (body.page decoder).data = body.rows decoder := by
  rw [page_data]
  split
  · rfl
  · next unnamed =>
    have empty : body.data = [] := by
      by_contra some'
      exact unnamed (named some')
    rw [Body.rows, empty]
    rfl

/-- In every careful run the rows delivered are the rows of the pages, in order and each
once, as far as they go; and the end is reported only where the result is over, in no
call that read a page's error. -/
theorem delivered_once (setup : Setup Cell Value) (sql : String) (options : ExecuteOptions) (first : Body Cell)
    (pages : List (Body Cell)) (actions : List Action) (last : Reader Cell Value)
    (fine : (first.page setup.decoder).error = none) (named : first.Named)
    (ran : run (step setup) (Reader.start setup sql options first pages) actions = some last)
    (careful : Along (step setup) (Careful setup) (Reader.start setup sql options first pages) actions) :
    (∃ rows, DeliveredAs setup.decoder.null last.history rows ∧
      rows <+: (first :: pages).flatMap (Body.rows setup.decoder)) ∧
    Each (Placed options.rowLimit) last.history := by
  have sound := run_invariant_along (Sound setup options.rowLimit (first :: pages))
    (fun _ _ _ sound careful stepped => step_sound sound careful stepped)
    (start_sound setup sql options first pages fine named) careful ran
  obtain ⟨done, split, read, all⟩ := sound.told.read
  obtain ⟨rows, sent, before⟩ := sound.told.sent
  refine ⟨⟨rows, sent, before.trans ?_⟩, sound.told.placed⟩
  have same : rowsRead last.history = done.flatMap (Body.rows setup.decoder) := by
    rw [rowsRead, read, List.flatMap_map]
    exact List.flatMap_congr fun body inside => named_rows setup.decoder (all body inside)
  rw [same, split, List.flatMap_append]
  exact List.prefix_append _ _

/-- Cells that are their own values. -/
def plainSetup : Setup Nat Nat where
  decoder := { decode := fun _ cell => cell, unknown := id, null := 0 }
  retries := 1

def queued : Body Nat := ⟨[.id (some "q"), .nextUri (some "one")], by decide⟩

def twoRows : Body Nat :=
  ⟨[.data (some [[1], [2, 3]]), .columns (some [⟨"a", "bigint"⟩]), .nextUri (some "two")], by decide⟩

def lastRow : Body Nat := ⟨[.columns (some [⟨"a", "bigint"⟩]), .data (some [[4]])], by decide⟩

def codelessError : Body Nat :=
  ⟨[.error (some { message := "worker lost", errorType := some "INTERNAL_ERROR" })], by decide⟩

theorem delivered_once_retried :
    ∃ last, run (step plainSetup) (Reader.start plainSetup "SELECT 1" {} queued [twoRows, lastRow])
        [.ask 1 none, .turn (.unsent "reset"), .turn .answered, .turn .answered, .ask 0 none, .turn .answered,
          .ask 5 (some 1), .turn .answered, .turn .answered, .ask 5 none, .turn .answered] = some last ∧
      (∃ rows, DeliveredAs 0 last.history rows ∧
        rows <+: [queued, twoRows, lastRow].flatMap (Body.rows plainSetup.decoder)) ∧
      Each (Placed none) last.history :=
  ⟨_, rfl, delivered_once plainSetup "SELECT 1" {} queued [twoRows, lastRow]
    [.ask 1 none, .turn (.unsent "reset"), .turn .answered, .turn .answered, .ask 0 none, .turn .answered,
      .ask 5 (some 1), .turn .answered, .turn .answered, .ask 5 none, .turn .answered] _ rfl
        (by decide) rfl (by decide)⟩

/-- The failing run: the error of a page has no code, is retried, and the call then
reports the end of the result. -/
theorem codeless_error_ends_result :
    ∃ last, run (step plainSetup) (Reader.start plainSetup "SELECT 1" {} queued [codelessError])
        [.ask 1 none, .turn .answered, .turn .answered] = some last ∧ ¬Each (Placed none) last.history := by
  refine ⟨_, rfl, fun each => ?_⟩
  have placed := each
    [.read (queued.page plainSetup.decoder), .asked, .read (codelessError.page plainSetup.decoder)] .ended [] rfl
  have clean := placed.clean rfl (codelessError.page plainSetup.decoder) (by simp [currentCall])
  exact absurd clean (by decide)

end QueryHive.Driver.Trino
