import QueryHive.Analytics.Output

/-! What the helper says about one query, from its first frame to its `Done`. Every step of the
task keeps the order of the frames, and keeps the rows of the `Batch` frames a prefix of the
stream's rows; the count in the `Done` is kept by the steps that do not lose count. -/
namespace QueryHive.Analytics.Output
open QueryHive.Library

variable {ρ : Type}

def Frame.sent : Frame ρ → List ρ
  | batch rows => rows
  | _ => []

/-- The rows of all `Batch` frames, in order. -/
def sentRows (told : List (Frame ρ)) : List ρ := told.flatMap Frame.sent

@[simp] theorem sentRows_nil : sentRows ([] : List (Frame ρ)) = [] := rfl

@[simp] theorem sentRows_append (told more : List (Frame ρ)) :
    sentRows (told ++ more) = sentRows told ++ sentRows more :=
  List.flatMap_append

@[simp] theorem sentRows_singleton (frame : Frame ρ) : sentRows [frame] = frame.sent := List.flatMap_singleton _ _

def Frame.InBody : Frame ρ → Prop
  | batch rows => rows.length ≤ outputChunkRows
  | progress _ => True
  | _ => False

/-- The columns, and then the body. -/
def Opened (told : List (Frame ρ)) : Prop :=
  ∃ columns body, told = .resultColumns columns :: body ∧ ∀ frame ∈ body, frame.InBody

theorem opened_columns (columns : List WireColumn) : Opened [(.resultColumns columns : Frame ρ)] :=
  ⟨columns, [], rfl, by simp⟩

theorem opened_append {told : List (Frame ρ)} (opened : Opened told) (inBody : frame.InBody) :
    Opened (told ++ [frame]) := by
  obtain ⟨columns, body, rfl, all⟩ := opened
  refine ⟨columns, body ++ [frame], rfl, ?_⟩
  intro other member
  rcases List.mem_append.mp member with earlier | same
  · exact all other earlier
  · cases List.mem_singleton.mp same
    exact inBody

theorem no_done_opened {told : List (Frame ρ)} (opened : Opened told) : .done o ∉ told := by
  obtain ⟨columns, body, rfl, all⟩ := opened
  intro member
  rcases List.mem_cons.mp member with same | inside
  · cases same
  · exact all _ inside

/-- Nothing yet, or the columns and then the body. -/
def Spoken (told : List (Frame ρ)) : Prop := told = [] ∨ Opened told

theorem no_done_spoken {told : List (Frame ρ)} (spoken : Spoken told) : .done o ∉ told := by
  rcases spoken with rfl | opened
  · exact List.not_mem_nil
  · exact no_done_opened opened

/-- What an ending says is true, apart from the count of rows. -/
structure Truthful (q : Query ρ) (o : Outcome) : Prop where
  within : sentRows q.told <+: q.produced
  capped : (sentRows q.told).length ≤ q.rowCap
  truncated : o.truncated = true → q.rowCap < q.produced.length
  cancelled : o.cancelled = true → q.cancelled = true
  whole : o.error = none → o.cancelled = false → o.truncated = false → q.exhausted = true ∧ sentRows q.told = q.produced

/-- All the rows of the stream so far were sent and counted. -/
structure Counting (q : Query ρ) (rows : Nat) : Prop where
  opened : Opened q.told
  all : sentRows q.told = q.produced
  counted : rows = q.produced.length
  capped : rows ≤ q.rowCap

/-- The pieces to come are what is missing of the batch. -/
structure Sending (q : Query ρ) (rows total : Nat) (pieces : List (List ρ)) (cut : Bool) : Prop where
  opened : Opened q.told
  missing : sentRows q.told ++ pieces.flatten = q.produced.take (rows + total)
  earlier : rows ≤ (sentRows q.told).length
  capped : rows + total ≤ q.rowCap
  short : ∀ piece ∈ pieces, piece.length ≤ outputChunkRows
  remains : if cut then q.rowCap < q.produced.length ∧
    rows + total ≤ q.produced.length else q.produced.length = rows + total

def SoundAt (q : Query ρ) : Phase ρ → Prop
  | .planning => q.told = [] ∧ q.produced = []
  | .opening _ => q.told = [] ∧ q.produced = []
  | .looping rows => Counting q rows
  | .waiting rows => Counting q rows
  | .sending rows total pieces cut => Sending q rows total pieces cut
  | .ended o => Spoken q.told ∧ Truthful q o
  | .leaving o => Spoken q.told ∧ Truthful q o
  | .done => ∃ said o, q.told = said ++ [.done o] ∧ Spoken said ∧ Truthful q o

def Query.Sound (q : Query ρ) : Prop := SoundAt q q.phase

theorem truthful_failed (rows : Nat) (within : sentRows q.told <+: q.produced)
    (capped : (sentRows q.told).length ≤ q.rowCap) : Truthful q (.failed rows error) :=
  ⟨within, capped, (fun cut => nomatch cut), (fun cancel => nomatch cancel), fun none => nomatch none⟩

theorem truthful_silent (rows : Nat) (silent : q.told = []) : Truthful q (.failed rows error) := by
  have nothing : sentRows q.told = [] := by rw [silent]; rfl
  exact truthful_failed rows (nothing ▸ List.nil_prefix) (nothing ▸ Nat.zero_le _)

namespace Counting

variable {q : Query ρ} {rows : Nat}

theorem within (counting : Counting q rows) : sentRows q.told <+: q.produced := counting.all ▸ List.prefix_refl _

theorem sent_capped (counting : Counting q rows) : (sentRows q.told).length ≤ q.rowCap := by
  rw [counting.all, ← counting.counted]
  exact counting.capped

theorem receive (counting : Counting q rows) (given : Next ρ) : (q.receive rows given).1.Sound := by
  cases given with
  | ended =>
    exact ⟨.inr counting.opened, counting.within, counting.sent_capped, (fun cut => nomatch cut),
      (fun cancel => nomatch cancel),
      fun _ _ _ => ⟨rfl, counting.all⟩⟩
  | failed error => exact ⟨.inr counting.opened, truthful_failed rows counting.within counting.sent_capped⟩
  | batch given memory =>
    have sentBelow : sentRows q.told <+: q.produced ++ given := counting.all ▸ List.prefix_append _ _
    have full := counting.counted
    have below := counting.capped
    dsimp only [Query.receive]
    split
    · rename_i empty
      have nothing : given = [] := List.isEmpty_iff.mp empty
      subst nothing
      refine ⟨counting.opened, ?_, ?_, below⟩ <;> dsimp only [Query.goes] <;> rw [List.append_nil]
      · exact counting.all
      · exact full
    · rename_i some
      have longer : 0 < given.length := List.length_pos_iff.mpr fun nothing => some (List.isEmpty_iff.mpr nothing)
      split
      · rename_i noRoom
        refine ⟨.inr counting.opened, sentBelow, counting.sent_capped, fun _ => ?_, (fun cancel => nomatch cancel),
          fun _ _ whole => nomatch whole⟩
        dsimp only [Query.finish, Query.goes]
        rw [List.length_append]
        omega
      · rename_i room
        have kept : (given.take (q.rowCap - rows)).length = min (q.rowCap - rows) given.length := List.length_take
        refine ⟨counting.opened, ?_, ?_, ?_, fun piece member => length_of_mem_split member, ?_⟩ <;>
          dsimp only [Query.goes]
        · subst full
          rw [split_flatten, counting.all, List.take_length_add_append, kept, ← List.take_eq_take_min]
        · rw [counting.all, full]
        · omega
        · simp only [List.length_append, kept, decide_eq_true_eq]
          split <;> omega

end Counting

namespace Sending

variable {q : Query ρ} {rows total : Nat} {pieces : List (List ρ)} {cut : Bool}

theorem within (sending : Sending q rows total pieces cut) : sentRows q.told <+: q.produced :=
  (List.prefix_append _ _).trans (sending.missing ▸ List.take_prefix _ _)

/-- The rows of the batch are sent or still to be sent. -/
theorem length_missing (sending : Sending q rows total pieces cut) :
    (sentRows q.told).length + pieces.flatten.length = rows + total := by
  have same := congrArg List.length sending.missing
  have enough : rows + total ≤ q.produced.length := by
    have remains := sending.remains
    split at remains <;> omega
  rw [List.length_append, List.length_take] at same
  omega

theorem sent_capped (sending : Sending q rows total pieces cut) : (sentRows q.told).length ≤ q.rowCap := by
  have length := sending.length_missing
  have capped := sending.capped
  omega

theorem failed (sending : Sending q rows total pieces cut) : (q.finish (.failed counted error)).1.Sound :=
  ⟨.inr sending.opened, truthful_failed counted sending.within sending.sent_capped⟩

/-- A piece that was sent, or could not be, keeps a query sound. -/
theorem sendPiece (sending : Sending q rows total (piece :: rest) cut) (maxChunkBytes : Nat) (encoded : Encoded) :
    (q.sendPiece maxChunkBytes rows total piece rest cut encoded).1.Sound := by
  cases encoded with
  | refused error => exact sending.failed
  | stopped join => exact sending.failed
  | payload length =>
    dsimp only [Query.sendPiece]
    split
    · exact sending.failed
    · refine ⟨opened_append sending.opened (sending.short piece List.mem_cons_self), ?_, ?_, sending.capped,
        fun other member => sending.short other (List.mem_cons_of_mem _ member), sending.remains⟩ <;>
          dsimp only [Query.speaks] <;>
        rw [sentRows_append, sentRows_singleton]
      · rw [List.append_assoc]
        exact sending.missing
      · rw [List.length_append]
        exact Nat.le_add_right_of_le sending.earlier

theorem count (sending : Sending q rows total [] cut) (progressDue : Bool) :
    (q.count (rows + total) cut progressDue).1.Sound := by
  have remains := sending.remains
  cases cut with
  | true =>
    exact ⟨.inr sending.opened, sending.within, sending.sent_capped, (fun _ => remains.1),
      (fun cancel => nomatch cancel),
      fun _ _ whole => nomatch whole⟩
  | false =>
    have whole : q.produced.length = rows + total := remains
    have all : sentRows q.told = q.produced := by
      have missing := sending.missing
      rwa [List.flatten_nil, List.append_nil, ← whole, List.take_length] at missing
    cases progressDue with
    | true =>
      refine ⟨opened_append sending.opened trivial, ?_, whole.symm, sending.capped⟩
      change sentRows (q.told ++ [.progress (rows + total)]) = q.produced
      rw [sentRows_append, sentRows_singleton]
      exact (List.append_nil _).trans all
    | false => exact ⟨sending.opened, all, whole.symm, sending.capped⟩

end Sending

theorem panics_sound {q : Query ρ} (sound : q.Sound) (inside : q.phase.inQuery) :
    (q.finish (.failed 0 Query.internalError)).1.Sound := by
  unfold Query.Sound at sound
  cases phase : q.phase with
  | planning =>
    rw [phase] at sound
    exact ⟨.inl sound.1, truthful_silent 0 sound.1⟩
  | opening =>
    rw [phase] at sound
    exact ⟨.inl sound.1, truthful_silent 0 sound.1⟩
  | looping =>
    rw [phase] at sound
    exact ⟨.inr sound.opened, truthful_failed 0 sound.within sound.sent_capped⟩
  | waiting =>
    rw [phase] at sound
    exact ⟨.inr sound.opened, truthful_failed 0 sound.within sound.sent_capped⟩
  | sending =>
    rw [phase] at sound
    exact sound.failed
  | ended => exact nomatch phase ▸ inside
  | leaving => exact nomatch phase ▸ inside
  | done => exact nomatch phase ▸ inside

theorem step_sound {q : Query ρ} (sound : q.Sound) (stepped : q.step maxChunkBytes event = some result) :
    result.1.Sound := by
  have sound' := sound
  unfold Query.Sound at sound'
  cases Query.step_turn stepped with
  | refused phase =>
    rw [phase] at sound'
    exact ⟨.inl sound'.1, truthful_silent 0 sound'.1⟩
  | planned phase =>
    rw [phase] at sound'
    exact sound'
  | opened phase =>
    rw [phase] at sound'
    obtain ⟨silent, nothing⟩ := sound'
    refine ⟨?_, ?_, ?_, Nat.zero_le _⟩ <;> dsimp only [Query.speaks]
    · rw [silent]
      exact opened_columns _
    · rw [silent, nothing]
      rfl
    · rw [nothing]
      rfl
  | polledCancel phase asked =>
    rw [phase] at sound'
    exact ⟨.inr sound'.opened, sound'.within, sound'.sent_capped, (fun cut => nomatch cut), (fun _ => asked),
      fun _ cancel => nomatch cancel⟩
  | polled phase =>
    rw [phase] at sound'
    exact ⟨sound'.opened, sound'.all, sound'.counted, sound'.capped⟩
  | woken phase asked =>
    rw [phase] at sound'
    exact ⟨.inr sound'.opened, sound'.within, sound'.sent_capped, (fun cut => nomatch cut), (fun _ => asked),
      fun _ cancel => nomatch cancel⟩
  | received phase =>
    rw [phase] at sound'
    exact sound'.receive _
  | piece phase =>
    rw [phase] at sound'
    exact sound'.sendPiece _ _
  | counted phase =>
    rw [phase] at sound'
    exact sound'.count _
  | left phase =>
    rw [phase] at sound'
    exact ⟨sound'.1, sound'.2.within, sound'.2.capped, sound'.2.truncated, sound'.2.cancelled, sound'.2.whole⟩
  | @told o phase =>
    rw [phase] at sound'
    have same : sentRows (q.told ++ [.done o]) = sentRows q.told := (sentRows_append _ _).trans (List.append_nil _)
    refine ⟨q.told, o, rfl, sound'.1, ?_, ?_, sound'.2.truncated, sound'.2.cancelled, ?_⟩ <;>
      dsimp only [Query.speaks] <;> rw [same]
    · exact sound'.2.within
    · exact sound'.2.capped
    · exact sound'.2.whole
  | panicked inside => exact panics_sound sound inside

theorem cancelled_sound {q : Query ρ} (sound : q.Sound) : { q with cancelled := true }.Sound := by
  have truthful : ∀ o, Truthful q o → Truthful { q with cancelled := true } o := fun o all =>
    ⟨all.within, all.capped, all.truncated, fun _ => rfl, all.whole⟩
  have at' : ∀ phase, SoundAt q phase → SoundAt { q with cancelled := true } phase := by
    intro phase sound
    cases phase with
    | planning => exact sound
    | opening => exact sound
    | looping => exact ⟨sound.opened, sound.all, sound.counted, sound.capped⟩
    | waiting => exact ⟨sound.opened, sound.all, sound.counted, sound.capped⟩
    | sending => exact ⟨sound.opened, sound.missing, sound.earlier, sound.capped, sound.short, sound.remains⟩
    | ended => exact ⟨sound.1, truthful _ sound.2⟩
    | leaving => exact ⟨sound.1, truthful _ sound.2⟩
    | done =>
      obtain ⟨said, o, told, spoken, all⟩ := sound
      exact ⟨said, o, told, spoken, truthful _ all⟩
  exact at' q.phase sound

/-- A task that ended takes no step, and every other says at most one frame, about its query. -/
theorem step_says {q : Query ρ} (stepped : q.step maxChunkBytes event = some result) :
    q.phase.isDone = false ∧ result.1.id = q.id ∧ result.1.rowCap = q.rowCap ∧
      result.1.told = q.told ++ result.2.toList ∧
      ∀ frame ∈ result.2, frame.ofQuery = true := by
  have silent : ∀ next : Query ρ, next.told = q.told →
      next.told = q.told ++ (none : Option (Frame ρ)).toList ∧ ∀ frame ∈ (none : Option (Frame ρ)),
        frame.ofQuery = true :=
    fun next same => ⟨by simp [same], fun _ member => nomatch member⟩
  cases Query.step_turn stepped with
  | @received rows given phase =>
    have going : q.phase.isDone = false := phase ▸ rfl
    cases given with
    | ended => exact ⟨going, rfl, rfl, silent _ rfl⟩
    | failed => exact ⟨going, rfl, rfl, silent _ rfl⟩
    | batch =>
      dsimp only [Query.receive]
      split
      · exact ⟨going, rfl, rfl, silent _ rfl⟩
      · split <;> exact ⟨going, rfl, rfl, silent _ rfl⟩
  | @piece rows total piece later cut encoded phase =>
    have going : q.phase.isDone = false := phase ▸ rfl
    cases encoded with
    | refused => exact ⟨going, rfl, rfl, silent _ rfl⟩
    | stopped => exact ⟨going, rfl, rfl, silent _ rfl⟩
    | payload length =>
      dsimp only [Query.sendPiece]
      split
      · exact ⟨going, rfl, rfl, silent _ rfl⟩
      · exact ⟨going, rfl, rfl, rfl, by simp [Query.speaks, Frame.ofQuery]⟩
  | @counted rows total cut due phase =>
    have going : q.phase.isDone = false := phase ▸ rfl
    dsimp only [Query.count]
    split
    · exact ⟨going, rfl, rfl, silent _ rfl⟩
    · split
      · exact ⟨going, rfl, rfl, rfl, by simp [Query.speaks, Frame.ofQuery]⟩
      · exact ⟨going, rfl, rfl, silent _ rfl⟩
  | opened phase => exact ⟨phase ▸ rfl, rfl, rfl, rfl, by simp [Query.speaks, Frame.ofQuery]⟩
  | told phase => exact ⟨phase ▸ rfl, rfl, rfl, rfl, by simp [Query.speaks, Frame.ofQuery]⟩
  | panicked inside =>
    have going : q.phase.isDone = false := by
      cases phase : q.phase <;> first | rfl | exact nomatch phase ▸ inside
    exact ⟨going, rfl, rfl, silent _ rfl⟩
  | refused phase => exact ⟨phase ▸ rfl, rfl, rfl, silent _ rfl⟩
  | planned phase => exact ⟨phase ▸ rfl, rfl, rfl, silent _ rfl⟩
  | polledCancel phase => exact ⟨phase ▸ rfl, rfl, rfl, silent _ rfl⟩
  | polled phase => exact ⟨phase ▸ rfl, rfl, rfl, silent _ rfl⟩
  | woken phase => exact ⟨phase ▸ rfl, rfl, rfl, silent _ rfl⟩
  | left phase => exact ⟨phase ▸ rfl, rfl, rfl, silent _ rfl⟩

theorem spoken_of_sound {q : Query ρ} (sound : q.Sound) (running : q.phase.isDone = false) : Spoken q.told := by
  unfold Query.Sound at sound
  cases phase : q.phase <;> rw [phase] at sound
  case planning => exact .inl sound.1
  case opening => exact .inl sound.1
  case looping => exact .inr sound.opened
  case waiting => exact .inr sound.opened
  case sending => exact .inr sound.opened
  case ended => exact sound.1
  case leaving => exact sound.1
  case done => exact nomatch phase ▸ running

/-- The frames of a query are at most one list of columns, the body, and one `Done` when its
task is done; the rows sent are a part of the stream; and the `Done` is true. -/
structure Query.Told (q : Query ρ) : Prop where
  order : ∃ head body ending, q.told = head ++ body ++ ending ∧
    (head = [] ∧ body = [] ∨ ∃ columns, head = [.resultColumns columns]) ∧ (∀ frame ∈ body, frame.InBody) ∧
    (∀ frame ∈ ending, ∃ o, frame = .done o) ∧ ending.length = q.phase.isDone.toNat
  within : sentRows q.told <+: q.produced
  capped : (sentRows q.told).length ≤ q.rowCap
  ending : ∀ o, .done o ∈ q.told → Truthful q o

theorem told_running {q : Query ρ} (running : q.phase.isDone = false) (spoken : Spoken q.told)
    (within : sentRows q.told <+: q.produced) (capped : (sentRows q.told).length ≤ q.rowCap) : q.Told := by
  refine ⟨?_, within, capped, fun o member => absurd member (no_done_spoken spoken)⟩
  rcases spoken with silent | ⟨columns, body, told, all⟩
  · exact ⟨[], [], [], silent, .inl ⟨rfl, rfl⟩, by simp, by simp, by simp [running]⟩
  · exact ⟨[.resultColumns columns], body, [], by simp [told], .inr ⟨columns, rfl⟩, all, by simp, by simp [running]⟩

theorem told_of_sound {q : Query ρ} (sound : q.Sound) : q.Told := by
  have spoken := spoken_of_sound sound
  have silent : q.told = [] → sentRows q.told <+: q.produced ∧ (sentRows q.told).length ≤ q.rowCap := by
    intro nothing
    rw [nothing]
    exact ⟨List.nil_prefix, Nat.zero_le _⟩
  unfold Query.Sound at sound
  cases phase : q.phase <;> rw [phase] at sound spoken
  case planning => exact told_running (phase ▸ rfl) (spoken rfl) (silent sound.1).1 (silent sound.1).2
  case opening => exact told_running (phase ▸ rfl) (spoken rfl) (silent sound.1).1 (silent sound.1).2
  case looping => exact told_running (phase ▸ rfl) (spoken rfl) sound.within sound.sent_capped
  case waiting => exact told_running (phase ▸ rfl) (spoken rfl) sound.within sound.sent_capped
  case sending => exact told_running (phase ▸ rfl) (spoken rfl) sound.within sound.sent_capped
  case ended => exact told_running (phase ▸ rfl) (spoken rfl) sound.2.within sound.2.capped
  case leaving => exact told_running (phase ▸ rfl) (spoken rfl) sound.2.within sound.2.capped
  case done =>
    obtain ⟨said, o, told, spoken, truthful⟩ := sound
    have only : ∀ other, .done other ∈ q.told → other = o := by
      intro other member
      rw [told, List.mem_append, List.mem_singleton] at member
      exact Frame.done.inj (member.resolve_left (no_done_spoken spoken))
    refine ⟨?_, truthful.within, truthful.capped, fun other member => only other member ▸ truthful⟩
    rcases spoken with rfl | ⟨columns, body, rfl, all⟩
    · exact ⟨[], [], [.done o], told, .inl ⟨rfl, rfl⟩, by simp, by simp, by simp [phase, Phase.isDone]⟩
    · exact ⟨[.resultColumns columns], body, [.done o], told,
        .inr ⟨columns, rfl⟩, all, by simp, by simp [phase, Phase.isDone]⟩

/-- How the query ended, as soon as its task knows it. -/
def Query.Ends (q : Query ρ) (o : Outcome) : Prop := q.phase = .ended o ∨ q.phase = .leaving o ∨ .done o ∈ q.told

def Query.Counted (q : Query ρ) : Prop := ∀ o, q.Ends o → o.rows = (sentRows q.told).length

/-- A piece that is sent. -/
def Encoded.Carried (maxChunkBytes : Nat) : Encoded → Prop
  | payload length => length ≤ maxChunkBytes
  | _ => False

instance : Decidable (Encoded.Carried maxChunkBytes encoded) := by
  cases encoded <;> unfold Encoded.Carried <;> infer_instance

/-- No piece of the batch was sent yet. -/
def Query.Unsent (q : Query ρ) : Prop :=
  match q.phase with
  | .sending _ total pieces _ => pieces.flatten.length = total
  | _ => True

instance (q : Query ρ) : Decidable q.Unsent := by
  unfold Query.Unsent
  split <;> infer_instance

/-- The steps that keep count: a piece that cannot be sent is the first of its batch, and a
panic comes before any row was sent. -/
def Query.KeepsCount (maxChunkBytes : Nat) (q : Query ρ) : Event ρ → Prop
  | .piece encoded => encoded.Carried maxChunkBytes ∨ q.Unsent
  | .panics => (sentRows q.told).length = 0
  | _ => True

instance (q : Query ρ) : Decidable (q.KeepsCount maxChunkBytes event) := by
  cases event <;> unfold Query.KeepsCount <;> infer_instance

/-- Inside `run_query` a query has no ending. -/
theorem counted_inQuery {q : Query ρ} (sound : q.Sound) (inside : q.phase.inQuery = true) : q.Counted := by
  rintro o (phase | phase | member)
  · exact nomatch phase ▸ inside
  · exact nomatch phase ▸ inside
  · refine absurd member (no_done_spoken (spoken_of_sound sound ?_))
    cases phase : q.phase <;> first | rfl | exact nomatch phase ▸ inside

theorem counted_goes {q next : Query ρ} (sound : q.Sound) (sound' : next.Sound) (inside : q.phase.inQuery = true)
    (goes : next.phase.inQuery = true) (keeps : keep) : next.Counted ↔ q.Counted ∧ keep :=
  iff_of_true (counted_inQuery sound' goes) ⟨counted_inQuery sound inside, keeps⟩

theorem counted_ended {q : Query ρ} (sound : q.Sound) (phase : q.phase = .ended o) :
    q.Counted ↔ o.rows = (sentRows q.told).length := by
  refine ⟨fun counted => counted o (.inl phase), ?_⟩
  rintro count other (same | left | member)
  · cases phase.symm.trans same
    exact count
  · exact nomatch phase.symm.trans left
  · exact absurd member (no_done_spoken (spoken_of_sound sound (phase ▸ rfl)))

theorem counted_leaving {q : Query ρ} (sound : q.Sound) (phase : q.phase = .leaving o) :
    q.Counted ↔ o.rows = (sentRows q.told).length := by
  refine ⟨fun counted => counted o (.inr (.inl phase)), ?_⟩
  rintro count other (ended | same | member)
  · exact nomatch phase.symm.trans ended
  · cases phase.symm.trans same
    exact count
  · exact absurd member (no_done_spoken (spoken_of_sound sound (phase ▸ rfl)))

theorem counted_done {q : Query ρ} (phase : q.phase = .done) (told : q.told = said ++ [.done o])
    (spoken : Spoken said) :
    q.Counted ↔ o.rows = (sentRows q.told).length := by
  refine ⟨fun counted => counted o (.inr (.inr (by simp [told]))), ?_⟩
  rintro count other (ended | left | member)
  · exact nomatch phase.symm.trans ended
  · exact nomatch phase.symm.trans left
  · rw [told, List.mem_append, List.mem_singleton] at member
    cases member.resolve_left (no_done_spoken spoken)
    exact count

theorem counted_finish {q next : Query ρ} (sound : q.Sound) (sound' : next.Sound) (inside : q.phase.inQuery = true)
    (phase : next.phase = .ended o) (keeps : o.rows = (sentRows next.told).length ↔ keep) :
    next.Counted ↔ q.Counted ∧ keep := by
  rw [counted_ended sound' phase, keeps]
  exact (and_iff_right (counted_inQuery sound inside)).symm

theorem counting_length {q : Query ρ} (counting : Counting q rows) : rows = (sentRows q.told).length := by
  rw [counting.all]
  exact counting.counted

/-- What the query counted is short of the rows of the batch that were sent already. -/
theorem sending_length {q : Query ρ} (sending : Sending q rows total pieces cut)
    (phase : q.phase = .sending rows total pieces cut) :
    rows = (sentRows q.told).length ↔ q.Unsent := by
  have length := sending.length_missing
  unfold Query.Unsent
  rw [phase]
  change rows = (sentRows q.told).length ↔ pieces.flatten.length = total
  omega

theorem step_counted {q : Query ρ} (sound : q.Sound) (stepped : q.step maxChunkBytes event = some result) :
    result.1.Counted ↔ q.Counted ∧ q.KeepsCount maxChunkBytes event := by
  have sound' := step_sound sound stepped
  have before := sound
  unfold Query.Sound at before
  cases Query.step_turn stepped with
  | refused phase =>
    rw [phase] at before
    refine counted_finish sound sound' (phase ▸ rfl) rfl (iff_of_true ?_ trivial)
    change 0 = (sentRows q.told).length
    rw [before.1]
    rfl
  | planned phase => exact counted_goes sound sound' (phase ▸ rfl) rfl trivial
  | opened phase => exact counted_goes sound sound' (phase ▸ rfl) rfl trivial
  | polledCancel phase =>
    rw [phase] at before
    have count := counting_length before
    exact counted_finish sound sound' (phase ▸ rfl) rfl (iff_of_true count trivial)
  | polled phase => exact counted_goes sound sound' (phase ▸ rfl) rfl trivial
  | woken phase =>
    rw [phase] at before
    have count := counting_length before
    exact counted_finish sound sound' (phase ▸ rfl) rfl (iff_of_true count trivial)
  | @received rows given phase =>
    rw [phase] at before
    have inside : q.phase.inQuery = true := phase ▸ rfl
    have count := counting_length before
    cases given with
    | ended => exact counted_finish sound sound' inside rfl (iff_of_true count trivial)
    | failed => exact counted_finish sound sound' inside rfl (iff_of_true count trivial)
    | batch =>
      dsimp only [Query.receive] at sound' ⊢
      split at sound' <;> rename_i empty
      · rw [if_pos empty]
        exact counted_goes sound sound' inside rfl trivial
      · rw [if_neg empty]
        split at sound' <;> rename_i full
        · rw [if_pos full]
          exact counted_finish sound sound' inside rfl (iff_of_true count trivial)
        · rw [if_neg full]
          exact counted_goes sound sound' inside rfl trivial
  | @piece rows total piece later cut encoded phase =>
    rw [phase] at before
    have inside : q.phase.inQuery = true := phase ▸ rfl
    have count : rows = (sentRows q.told).length ↔ q.Unsent := sending_length before phase
    cases encoded with
    | refused => exact counted_finish sound sound' inside rfl (count.trans (or_iff_right id).symm)
    | stopped => exact counted_finish sound sound' inside rfl (count.trans (or_iff_right id).symm)
    | payload length =>
      dsimp only [Query.sendPiece] at sound' ⊢
      split at sound' <;> rename_i large
      · rw [if_pos large]
        exact counted_finish sound sound' inside rfl (count.trans (or_iff_right (Nat.not_le_of_lt large)).symm)
      · rw [if_neg large]
        exact counted_goes sound sound' inside rfl (.inl (Nat.le_of_not_lt large))
  | @counted rows total cut due phase =>
    rw [phase] at before
    have inside : q.phase.inQuery = true := phase ▸ rfl
    cases cut with
    | true =>
      have all := before.length_missing
      exact counted_finish sound sound' inside rfl (iff_of_true all.symm trivial)
    | false => cases due <;> exact counted_goes sound sound' inside rfl trivial
  | left phase =>
    rw [counted_ended sound phase, counted_leaving sound' rfl]
    exact (and_iff_left trivial).symm
  | @told o phase =>
    rw [phase] at before
    have same : sentRows (q.told ++ [.done o]) = sentRows q.told := (sentRows_append _ _).trans (List.append_nil _)
    rw [counted_leaving sound phase, counted_done rfl rfl before.1]
    change o.rows = (sentRows (q.told ++ [.done o])).length ↔ _
    rw [same]
    exact (and_iff_left trivial).symm
  | panicked inside => exact counted_finish sound sound' inside rfl eq_comm

/-- The task of a query that has not ended can go on by itself, but for what its stream gives. -/
theorem step_enabled (maxChunkBytes : Nat) {q : Query ρ} (running : q.phase.isDone = false) :
    ∃ event, (q.step maxChunkBytes event).isSome := by
  cases phase : q.phase with
  | planning => exact ⟨.planned (.ok []), by simp [Query.step, phase]⟩
  | opening => exact ⟨.columns, by simp [Query.step, phase]⟩
  | looping => exact ⟨.poll, by simp [Query.step, phase]⟩
  | waiting => exact ⟨.next .ended, by simp [Query.step, phase]⟩
  | sending rows total pieces cut =>
    cases pieces with
    | nil => exact ⟨.counted false, by simp [Query.step, phase]⟩
    | cons piece rest => exact ⟨.piece (.payload 0), by simp [Query.step, phase]⟩
  | ended => exact ⟨.leave, by simp [Query.step, phase]⟩
  | leaving => exact ⟨.tell, by simp [Query.step, phase]⟩
  | done => exact nomatch phase ▸ running

end QueryHive.Analytics.Output
