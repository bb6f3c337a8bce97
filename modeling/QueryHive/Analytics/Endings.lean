import QueryHive.Analytics.Server
import QueryHive.Analytics.Told

/-! Every query of the helper has one ending. Whatever the app sends and in whatever order the
threads and the tasks go on, the frames about the queries of one id are those queries' frames,
one query after another. What a `Done` says about its query is true; its count of rows is, in
exactly the runs in which no piece fails behind one that was sent and no task panics behind
its first row. -/
namespace QueryHive.Analytics.Server
open QueryHive.Library QueryHive.Analytics.Output

variable {ρ : Type}

/-- What a step does to the queries and to what was said. -/
inductive Change (maxChunkBytes : Nat) (s : Shared ρ) : Action ρ → Shared ρ → Prop where
  | quiet {s' : Shared ρ} {action : Action ρ} {extra : List (Nat × Frame ρ)} (started : s'.started = s.started)
      (said : s'.said = s.said ++ extra) (other : ∀ said ∈ extra, said.2.ofQuery = false)
      (notTask : ∀ place event, action ≠ .task place event) : Change maxChunkBytes s action s'
  | flagged {s' : Shared ρ} {id : Nat} {before after : List (Query ρ)} {q : Query ρ}
    (shape : s.started = before ++ q :: after)
      (started : s'.started = before ++ { q with cancelled := true } :: after) (said : s'.said = s.said) :
      Change maxChunkBytes s (.control id .cancel) s'
  | refused {s' : Shared ρ} {id session rowCap : Nat} {error : WireError} (idle : s.idle id = true)
      (started : s'.started = s.started ++ [{ id, rowCap, phase := .done, told := [.done (.failed 0 error)] }])
      (said : s'.said = s.said ++ [(id, .done (.failed 0 error))]) :
      Change maxChunkBytes s (.control id (.runSql session rowCap)) s'
  | begun {s' : Shared ρ} {id session rowCap : Nat} (idle : s.idle id = true)
      (started : s'.started = s.started ++ [({ id := id, rowCap := rowCap } : Query ρ)]) (said : s'.said = s.said) :
      Change maxChunkBytes s (.control id (.runSql session rowCap)) s'
  | moved {s' : Shared ρ} {before after : List (Query ρ)} {q : Query ρ} {event : Event ρ}
    {result : Query ρ × Option (Frame ρ)}
      (shape : s.started = before ++ q :: after) (stepped : q.step maxChunkBytes event = some result)
      (started : s'.started = before ++ result.1 :: after) (said : s'.said = s.said ++ result.2.toList.map (q.id, ·)) :
      Change maxChunkBytes s (.task before.length event) s'

theorem say_some {s s' : Shared ρ} {id : Nat} {frame : Frame ρ} (sent : s.say id frame = some s') :
    s'.started = s.started ∧ s'.said = s.said ++ [(id, frame)] := by
  unfold Shared.say at sent
  split at sent
  · cases sent
    exact ⟨rfl, (List.append_assoc _ _ _).symm⟩
  · exact nomatch sent

theorem answerRequest_quiet (s : Shared ρ) (request : Nat) (answer : Except String Unit) :
    (s.answerRequest request answer).started = s.started ∧ (s.answerRequest request answer).said = s.said := by
  unfold Shared.answerRequest
  split <;> exact ⟨rfl, rfl⟩

/-- The item at a place stands between those before it and those after it. -/
theorem split_at_place (items : List α) (found : items[place]? = some item) :
    ∃ before after, items = before ++ item :: after ∧ before.length = place ∧
      (∀ changed, items.set place changed = before ++ changed :: after) ∧
        ∀ f, items.modify place f = before ++ f item :: after := by
  obtain ⟨within, rfl⟩ := List.getElem?_eq_some_iff.mp found
  refine ⟨items.take place, items.drop (place + 1), ?_, List.length_take_of_le (Nat.le_of_lt within),
    fun changed => ?_, fun f => ?_⟩
  · rw [← List.drop_eq_getElem_cons within, List.take_append_drop]
  · rw [List.set_eq_take_append_cons_drop, if_pos within]
  · exact List.modify_eq_take_cons_drop within

theorem taskStep_change {s s' : Shared ρ} (stepped : s.taskStep maxChunkBytes place event = some s') :
    Change maxChunkBytes s (.task place event) s' := by
  unfold Shared.taskStep at stepped
  obtain ⟨q, found, inner⟩ := Option.bind_eq_some_iff.mp stepped
  obtain ⟨⟨next, frame⟩, moved, later⟩ := Option.bind_eq_some_iff.mp inner
  obtain ⟨before, after, shape, rfl, set, -⟩ := split_at_place s.started found
  cases frame with
  | none =>
    cases later
    exact .moved shape moved (set next) (List.append_nil _).symm
  | some frame =>
    obtain ⟨started, said⟩ := say_some later
    exact .moved shape moved (started.trans (set next)) said

theorem cancel_change (s : Shared ρ) (id : Nat) : Change maxChunkBytes s (.control id .cancel) (s.cancel id) := by
  have nothing : ∀ {s' : Shared ρ}, s'.started = s.started → s'.said = s.said →
      Change maxChunkBytes s (.control id .cancel) s' := fun started said =>
    .quiet started (said.trans (List.append_nil _).symm) (by simp) (fun _ _ same => nomatch same)
  cases running : s.running id with
  | none =>
    simp only [Shared.cancel, running]
    exact nothing rfl rfl
  | some place =>
    simp only [Shared.cancel, running]
    cases found : s.started[place]? with
    | none =>
      refine nothing ?_ rfl
      exact List.modify_eq_self (List.getElem?_eq_none_iff.mp found)
    | some q =>
      obtain ⟨before, after, shape, rfl, -, modify⟩ := split_at_place s.started found
      exact .flagged shape (modify _) rfl

theorem runSql_change {s s' : Shared ρ} {id : Nat} (idle : s.idle id = true)
    (stepped : s.startQuery id session rowCap = some s') :
    Change maxChunkBytes s (.control id (.runSql session rowCap)) s' := by
  have refused : ∀ error, s.refuse id rowCap error = some s' →
      Change maxChunkBytes s (.control id (.runSql session rowCap)) s' := by
    intro error sent
    obtain ⟨started, said⟩ := say_some sent
    exact .refused idle started said
  unfold Shared.startQuery at stepped
  split at stepped
  · exact refused _ stepped
  · split at stepped
    · exact refused _ stepped
    · cases stepped
      exact .begun idle rfl rfl

theorem step_change {s s' : Shared ρ} (stepped : step maxChunkBytes s action = some s') :
    Change maxChunkBytes s action s' := by
  have answered : ∀ request answer {action : Action ρ}, (∀ place event, action ≠ .task place event) →
      Change maxChunkBytes s action (s.answerRequest request answer) := by
    intro request answer action notTask
    obtain ⟨started, said⟩ := answerRequest_quiet s request answer
    exact @Change.quiet _ _ _ _ _ [] started (said.trans (List.append_nil _).symm) (by simp) notTask
  have replied : ∀ {action : Action ρ} (s₀ : Shared ρ) id frame, s₀.started = s.started → s₀.said = s.said →
      frame.ofQuery = false → (∀ place event, action ≠ .task place event) → s₀.say id frame = some s' →
      Change maxChunkBytes s action s' := by
    intro action s₀ id frame started₀ said₀ other notTask sent
    obtain ⟨started, said⟩ := say_some sent
    exact .quiet (started.trans started₀) (said.trans (congrArg (· ++ [(id, frame)]) said₀))
      (by simpa using other) notTask
  cases action with
  | write =>
    simp only [step] at stepped
    cases queued : s.channel with
    | nil => exact nomatch queued ▸ stepped
    | cons frame rest =>
      rw [queued] at stepped
      cases stepped
      refine @Change.quiet _ _ _ _ _ [] rfl ?_ (by simp) (fun _ _ same => nomatch same)
      simp [Shared.said, queued]
  | control id message =>
    cases message with
    | runSql session rowCap =>
      simp only [step] at stepped
      split at stepped <;> rename_i idle
      · exact runSql_change idle stepped
      · cases stepped
    | cancel =>
      cases stepped
      exact cancel_change s id
    | openSession session =>
      exact replied { s with sessions := s.sessions.insert session } id .ack rfl rfl rfl
        (fun _ _ same => nomatch same) stepped
    | closeSession session =>
      exact replied { s with sessions := s.sessions.erase session } id .ack rfl rfl rfl
        (fun _ _ same => nomatch same) stepped
    | chunkError message =>
      cases stepped
      exact answered id _ (fun _ _ same => nomatch same)
  | chunk id readable =>
    cases stepped
    exact answered id _ (fun _ _ same => nomatch same)
  | task place event => exact taskStep_change stepped
  | fetch session token chunk columns =>
    exact replied { s with pending := s.nextRequest :: s.pending, nextRequest := s.nextRequest + 1 } s.nextRequest
      (.chunkRequest session token chunk columns) rfl rfl rfl (fun _ _ same => nomatch same) stepped
  | forget request =>
    cases stepped
    exact @Change.quiet _ _ _ _ _ [] rfl (List.append_nil _).symm (by simp) (fun _ _ same => nomatch same)

def frames (id : Nat) (said : List (Nat × Frame ρ)) : List (Frame ρ) :=
  (said.filter fun entry => entry.1 == id && entry.2.ofQuery).map (·.2)

def conversation (id : Nat) (started : List (Query ρ)) : List (Frame ρ) :=
  (started.filter (·.id == id)).flatMap Query.told

@[simp] theorem frames_append (id : Nat) (said more : List (Nat × Frame ρ)) :
    frames id (said ++ more) = frames id said ++ frames id more := by
  simp [frames, List.filter_append]

@[simp] theorem conversation_append (id : Nat) (started more : List (Query ρ)) :
    conversation id (started ++ more) = conversation id started ++ conversation id more := by
  simp [conversation, List.filter_append]

theorem conversation_cons (id : Nat) (q : Query ρ) (started : List (Query ρ)) :
    conversation id (q :: started) = (if q.id = id then q.told else []) ++ conversation id started := by
  by_cases same : q.id = id <;> simp [conversation, same]

theorem frames_other (id : Nat) {extra : List (Nat × Frame ρ)} (other : ∀ said ∈ extra, said.2.ofQuery = false) :
    frames id extra = [] := by
  unfold frames
  rw [List.map_eq_nil_iff, List.filter_eq_nil_iff]
  intro entry member
  simp [other entry member]

theorem frames_of_query (id own : Nat) {said : List (Frame ρ)} (ofQuery : ∀ frame ∈ said, frame.ofQuery = true) :
    frames id (said.map (own, ·)) = if own = id then said else [] := by
  induction said with
  | nil => simp [frames]
  | cons frame said ih =>
    have first := ofQuery frame List.mem_cons_self
    have rest := ih fun frame member => ofQuery frame (List.mem_cons_of_mem _ member)
    by_cases same : own = id
    · simp only [frames, same, if_true] at rest ⊢
      simp [first, rest]
    · simp only [frames, same, if_false] at rest ⊢
      simp [same, rest]

/-- What the helper's state keeps over every step. -/
structure Kept (s : Shared ρ) : Prop where
  sound : ∀ q ∈ s.started, q.Sound
  wire : ∀ id, frames id s.said = conversation id s.started
  turns : s.started.Pairwise fun earlier later => earlier.id = later.id → earlier.phase.isDone = true

theorem kept_serve (build : String) : Kept (serve build : Shared ρ) := by
  refine ⟨by simp [serve], fun id => ?_, List.Pairwise.nil⟩
  exact frames_other id (by simp [serve, Shared.said, Frame.ofQuery])

theorem pairwise_changed {before after : List (Query ρ)} {q next : Query ρ}
    (turns : (before ++ q :: after).Pairwise fun earlier later => earlier.id = later.id → earlier.phase.isDone = true)
    (same : next.id = q.id) (done : q.phase.isDone = true → next.phase.isDone = true) :
    (before ++ next :: after).Pairwise fun earlier later => earlier.id = later.id → earlier.phase.isDone = true := by
  rw [List.pairwise_append, List.pairwise_cons] at turns ⊢
  obtain ⟨first, ⟨second, third⟩, cross⟩ := turns
  refine ⟨first, ⟨fun later member equal => done (second later member (same ▸ equal)), third⟩, ?_⟩
  intro earlier member later within
  rcases List.mem_cons.mp within with rfl | within
  · exact same ▸ cross earlier member q List.mem_cons_self
  · exact cross earlier member later (List.mem_cons_of_mem _ within)

theorem sound_changed {before after : List (Query ρ)} {q next : Query ρ} (sound : ∀ p ∈ before ++ q :: after, p.Sound)
    (changed : next.Sound) : ∀ p ∈ before ++ next :: after, p.Sound := by
  intro p member
  rcases List.mem_append.mp member with earlier | member
  · exact sound p (List.mem_append_left _ earlier)
  · rcases List.mem_cons.mp member with rfl | later
    · exact changed
    · exact sound p (List.mem_append_right _ (List.mem_cons_of_mem _ later))

theorem conversation_after {before after : List (Query ρ)} {q : Query ρ} {id : Nat}
    (turns : (before ++ q :: after).Pairwise fun earlier later => earlier.id = later.id → earlier.phase.isDone = true)
    (running : q.phase.isDone = false) (same : q.id = id) : conversation id after = [] := by
  have others := (List.pairwise_cons.mp (List.pairwise_append.mp turns).2.1).1
  have none : after.filter (·.id == id) = [] := by
    rw [List.filter_eq_nil_iff]
    intro later member equal
    have done := others later member (same.trans (eq_of_beq equal).symm)
    exact nomatch running.symm.trans done
  rw [conversation, none]
  rfl

theorem pairwise_started {started : List (Query ρ)} {q : Query ρ} {s : Shared ρ} (shape : s.started = started)
    (turns : started.Pairwise fun earlier later => earlier.id = later.id → earlier.phase.isDone = true)
    (idle : s.idle q.id = true) :
    (started ++ [q]).Pairwise fun earlier later => earlier.id = later.id → earlier.phase.isDone = true := by
  rw [List.pairwise_append]
  refine ⟨turns, List.pairwise_singleton _ _, ?_⟩
  intro earlier member later within same
  cases List.mem_singleton.mp within
  unfold Shared.idle at idle
  rw [List.all_eq_true] at idle
  have free := idle earlier (shape ▸ member)
  simpa [same] using free

theorem step_kept {s s' : Shared ρ} (kept : Kept s) (stepped : step maxChunkBytes s action = some s') : Kept s' := by
  cases step_change stepped with
  | quiet started said other _ =>
    refine ⟨started ▸ kept.sound, fun id => ?_, started ▸ kept.turns⟩
    rw [said, started, frames_append, frames_other id other, List.append_nil]
    exact kept.wire id
  | @flagged _ id before after q shape started said =>
    have turns := kept.turns
    have sound := kept.sound
    rw [shape] at turns sound
    refine ⟨?_, fun other => ?_, ?_⟩
    · rw [started]
      exact sound_changed sound (cancelled_sound (sound q (List.mem_append_right _ List.mem_cons_self)))
    · have wire := kept.wire other
      rw [shape, conversation_append, conversation_cons] at wire
      rw [said, started, conversation_append, conversation_cons]
      exact wire
    · rw [started]
      exact pairwise_changed turns rfl fun done => done
  | @refused _ id _ rowCap error idle started said =>
    refine ⟨?_, fun other => ?_, ?_⟩
    · intro p member
      rw [started, List.mem_append, List.mem_singleton] at member
      rcases member with earlier | rfl
      · exact kept.sound p earlier
      · exact ⟨[], _, rfl, .inl rfl, truthful_failed 0 List.nil_prefix (Nat.zero_le _)⟩
    · rw [said, started, frames_append, conversation_append, kept.wire other, conversation_cons]
      by_cases same : id = other <;> simp [frames, conversation, same, Frame.ofQuery]
    · rw [started]
      exact pairwise_started rfl kept.turns idle
  | @begun _ id _ rowCap idle started said =>
    refine ⟨?_, fun other => ?_, ?_⟩
    · intro p member
      rw [started, List.mem_append, List.mem_singleton] at member
      rcases member with earlier | rfl
      · exact kept.sound p earlier
      · exact ⟨rfl, rfl⟩
    · rw [said, started, conversation_append, kept.wire other, conversation_cons]
      simp [conversation]
    · rw [started]
      exact pairwise_started rfl kept.turns idle
  | @moved _ before after q event result shape moved started said =>
    obtain ⟨running, sameId, _, told, ofQuery⟩ := step_says moved
    have turns := kept.turns
    have sound := kept.sound
    rw [shape] at turns sound
    refine ⟨?_, fun other => ?_, ?_⟩
    · rw [started]
      exact sound_changed sound (step_sound (sound q (List.mem_append_right _ List.mem_cons_self)) moved)
    · have wire := kept.wire other
      rw [shape, conversation_append, conversation_cons] at wire
      rw [said, started, frames_append, conversation_append, conversation_cons, wire, sameId, told,
        frames_of_query other q.id (by simpa using ofQuery)]
      by_cases same : q.id = other
      · have last : conversation other after = [] := conversation_after turns running same
        simp [same, last]
      · simp [same]
    · rw [started]
      exact pairwise_changed turns sameId fun done => by cases running.symm.trans done

def KeepsCount (maxChunkBytes : Nat) (s : Shared ρ) : Action ρ → Prop
  | .task place event => ∀ q ∈ s.started[place]?, q.KeepsCount maxChunkBytes event
  | _ => True

instance (s : Shared ρ) : Decidable (KeepsCount maxChunkBytes s action) := by
  cases action <;> unfold KeepsCount <;> infer_instance

def AllCounted (s : Shared ρ) : Prop := ∀ q ∈ s.started, q.Counted

theorem allCounted_append {started : List (Query ρ)} {q : Query ρ} (counted : q.Counted) :
    (∀ p ∈ started ++ [q], p.Counted) ↔ ∀ p ∈ started, p.Counted := by
  simp [or_imp, forall_and, counted]

theorem step_allCounted {s s' : Shared ρ} (kept : Kept s) (stepped : step maxChunkBytes s action = some s') :
    AllCounted s' ↔ AllCounted s ∧ KeepsCount maxChunkBytes s action := by
  unfold AllCounted
  cases step_change stepped with
  | quiet started said other notTask =>
    rw [started]
    refine (and_iff_left ?_).symm
    cases action with
    | task place event => exact absurd rfl (notTask place event)
    | _ => trivial
  | @flagged _ id before after q shape started said =>
    have same : ({ q with cancelled := true } : Query ρ).Counted ↔ q.Counted := Iff.rfl
    rw [started, shape]
    refine Iff.trans ?_ (and_iff_left trivial).symm
    simp only [List.mem_append, List.mem_cons, or_imp, forall_and, forall_eq, same]
  | @refused _ id _ rowCap error idle started said =>
    rw [started, allCounted_append]
    · exact (and_iff_left trivial).symm
    · rintro o (ended | left | told)
      · cases ended
      · cases left
      · cases Frame.done.inj (List.mem_singleton.mp told)
        rfl
  | begun idle started said =>
    rw [started, allCounted_append]
    · exact (and_iff_left trivial).symm
    · exact counted_inQuery (show Query.Sound _ from ⟨rfl, rfl⟩) rfl
  | @moved _ before after q event result shape moved started said =>
    have sound := kept.sound
    rw [shape] at sound
    have counted := step_counted (sound q (List.mem_append_right _ List.mem_cons_self)) moved
    have here : KeepsCount maxChunkBytes s (.task before.length event) ↔ q.KeepsCount maxChunkBytes event := by
      simp [KeepsCount, shape]
    rw [started, shape, here]
    simp only [List.mem_append, List.mem_cons, or_imp, forall_and, forall_eq, counted]
    tauto

/-- While the helper runs nothing is stuck: what is queued can be written, and the task of a
query that has not had its `Done` can go on, however little the app answers. -/
def Unstuck (maxChunkBytes : Nat) (s : Shared ρ) : Prop :=
  (s.channel ≠ [] → (step maxChunkBytes s .write).isSome) ∧
    ∀ place, ∀ q ∈ s.started[place]?, q.phase.isDone = false → s.channel.length < channelSize →
      ∃ event, (step maxChunkBytes s (.task place event)).isSome

theorem unstuck (maxChunkBytes : Nat) (s : Shared ρ) : Unstuck maxChunkBytes s := by
  constructor
  · intro queued
    obtain ⟨frame, rest, shape⟩ := List.exists_cons_of_ne_nil queued
    simp [step, shape]
  · intro place q found running room
    obtain ⟨event, enabled⟩ := step_enabled maxChunkBytes running
    obtain ⟨⟨next, frame⟩, stepped⟩ := Option.isSome_iff_exists.mp enabled
    refine ⟨event, ?_⟩
    rw [Option.mem_def] at found
    cases frame <;> simp [step, Shared.taskStep, found, stepped, Shared.say, room]

/-- In every run of the helper the frames of an id are its queries' frames, one query after
another, and every query is told as it should be. The counts of the `Done` frames are right in
exactly the runs whose steps keep count. -/
theorem endings (served : serving maxChunkBytes build actions = some s) :
    (∀ id, frames id s.said = conversation id (ρ := ρ) s.started) ∧
      (s.started.Pairwise fun earlier later => earlier.id = later.id → earlier.phase.isDone = true) ∧
      (∀ q ∈ s.started, q.Told) ∧ Unstuck maxChunkBytes s ∧
      (AllCounted s ↔ Runs.Along (step maxChunkBytes) (KeepsCount maxChunkBytes) (serve build) actions) := by
  have kept : Kept s :=
    Runs.run_invariant Kept (fun _ _ _ kept stepped => step_kept kept stepped) (kept_serve build) served
  refine ⟨kept.wire, kept.turns, fun q member => told_of_sound (kept.sound q member), unstuck maxChunkBytes s, ?_⟩
  have counted := Runs.kept_iff_along Kept AllCounted (fun _ _ _ kept stepped => step_kept kept stepped)
    (fun _ _ _ kept stepped => step_allCounted kept stepped) (kept_serve build) served
  rw [counted]
  exact and_iff_right (by simp [AllCounted, serve])

/-- A statement that gives one batch of two rows, which goes out in two pieces. -/
def twoPieces (second : Encoded) : List (Action Nat) :=
  [.control 1 (.openSession 7), .control 5 (.runSql 7 10), .task 0 (.planned (.ok [⟨"k", "Int64"⟩])), .task 0 .columns,
    .task 0 .poll, .task 0 (.next (.batch [1, 2] 4194304)), .task 0 (.piece (.payload 10)), .task 0 (.piece second),
    .task 0 .leave, .task 0 .tell]

def bothPieces : List (Action Nat) :=
  (twoPieces (.payload 12)).take 8 ++
    [.task 0 (.counted false), .task 0 .poll, .task 0 (.next .ended), .task 0 .leave, .task 0 .tell]

theorem endings_both_pieces : (∀ q ∈ ((serving 100 "build" bothPieces).map (·.started)).getD [], q.Told) ∧
    ∀ q ∈ ((serving 100 "build" bothPieces).map (·.started)).getD [], q.Counted := by
  obtain ⟨s, served⟩ := Option.isSome_iff_exists.mp (by decide +kernel : (serving 100 "build" bothPieces).isSome = true)
  obtain ⟨_, _, told, _, counted⟩ := endings served
  simp only [served, Option.map_some, Option.getD_some]
  exact ⟨told, counted.mpr (by decide +kernel)⟩

/-- The second row is too large for a frame: one row was sent, and the `Done` says none. -/
theorem second_piece_too_large : ∃ s, serving 100 "build" (twoPieces (.payload 101)) = some s ∧ ∃ q ∈ s.started, ∃ o,
    .done o ∈ q.told ∧ o.rows = 0 ∧ sentRows q.told = [1] ∧ ¬q.Counted := by
  have told : (serving 100 "build" (twoPieces (.payload 101))).map (fun s => s.started.map (·.told)) =
      some [[.resultColumns [⟨"k", "Int64"⟩], .batch [1], .done (.failed 0 Query.tooLargeError)]] := by decide +kernel
  obtain ⟨s, served, told⟩ := Option.map_eq_some_iff.mp told
  obtain ⟨q, single, told⟩ := List.map_eq_singleton_iff.mp told
  have done : .done (.failed 0 Query.tooLargeError) ∈ q.told := by simp [told]
  have sent : sentRows q.told = [1] := by rw [told]; rfl
  refine ⟨s, served, q, by simp [single], _, done, rfl, sent, fun counted => ?_⟩
  exact absurd (sent ▸ counted _ (.inr (.inr done))) (by decide)

end QueryHive.Analytics.Server
