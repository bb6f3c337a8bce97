import QueryHive.Library.Bytes
import QueryHive.Library.Pipe

/-! The frames of the pipe between the app and the analytics helper (`qh-analytics-proto`). A reader gets the frames
that arrived whole, however the pipe cuts its reads, and tells a stream that ends between frames from one that ends
inside. -/
namespace QueryHive.Analytics.Frames
open QueryHive.Library QueryHive.Library.Bytes QueryHive.Library.Pipe

abbrev Octets := List UInt8

/-- `MAX_FRAME_LEN`. -/
def maxFrameLen : Nat := 256 * 1024 * 1024

/-- `HEADER_LEN`. -/
def headerLen : Nat := 13

/-- `ProtoError`, as far as frames fail with it. -/
inductive ProtoError where
  | io
  | truncated
  | tooLarge (len : Nat)
  | unknownKind (byte : UInt8)
  deriving DecidableEq, Repr

inductive Kind where
  | control
  | batch
  deriving DecidableEq, Repr

def Kind.toByte : Kind → UInt8
  | .control => 1
  | .batch => 2

def Kind.fromByte : UInt8 → Except ProtoError Kind
  | 1 => .ok .control
  | 2 => .ok .batch
  | other => .error (.unknownKind other)

structure Frame where
  kind : Kind
  id : Nat
  payload : Octets
  deriving DecidableEq, Repr

/-- A frame that the protocol has: its id is a `u64`, and its payload is not too long. -/
structure Frame.Valid (frame : Frame) : Prop where
  id : frame.id < 2 ^ 64
  payload : frame.payload.length ≤ maxFrameLen

def header (kind : Kind) (id len : Nat) : Octets := leBytes 4 len ++ kind.toByte :: leBytes 8 id

/-- `write_frame`, what it writes. -/
def writeFrame (frame : Frame) : Except ProtoError Octets :=
  if frame.payload.length > maxFrameLen then .error (.tooLarge frame.payload.length)
  else .ok (header frame.kind frame.id frame.payload.length ++ frame.payload)

/-- A writer's frames one after another, up to the first that is refused. -/
def writeFrames : List Frame → Except ProtoError Octets
  | [] => .ok []
  | frame :: frames => do
    let bytes ← writeFrame frame
    let rest ← writeFrames frames
    .ok (bytes ++ rest)

/-- What is left in the pipe, and how it will be read. -/
structure Reader where
  content : Octets
  turns : List Turn

/-- `read_frame`, with the pipe that is left when there was a frame. -/
def readFrame (reader : Reader) : Except ProtoError (Option (Frame × Reader)) :=
  match fill reader.content reader.turns headerLen with
  | none => .error .io
  | some (bytes, content, turns) =>
    if bytes = [] then .ok none
    else if bytes.length < headerLen then .error .truncated
    else
      let len := leValue (bytes.take 4)
      if len > maxFrameLen then .error (.tooLarge len)
      else
        match Kind.fromByte (bytes.getD 4 0) with
        | .error error => .error error
        | .ok kind =>
          match fill content turns len with
          | none => .error .io
          | some (payload, content, turns) =>
            if payload.length ≠ len then .error .truncated
            else .ok (some (⟨kind, leValue (bytes.drop 5), payload⟩, ⟨content, turns⟩))

/-- The frames that a read loop gets, and the error that ends it. A frame takes a byte at least, so this many turns
of the loop are enough. -/
def readLoop : Nat → Reader → List Frame × Option ProtoError
  | 0, _ => ([], none)
  | fuel + 1, reader =>
    match readFrame reader with
    | .error error => ([], some error)
    | .ok none => ([], none)
    | .ok (some (frame, rest)) =>
      let (frames, ending) := readLoop fuel rest
      (frame :: frames, ending)

def session (content : Octets) (turns : List Turn) : List Frame × Option ProtoError :=
  readLoop (content.length + 1) ⟨content, turns⟩

def Frame.bytes (frame : Frame) : Octets := header frame.kind frame.id frame.payload.length ++ frame.payload

theorem length_header (kind : Kind) (id len : Nat) : (header kind id len).length = headerLen := by
  rw [header, List.length_append, List.length_cons, length_leBytes, length_leBytes, headerLen]

theorem length_bytes (frame : Frame) : frame.bytes.length = headerLen + frame.payload.length := by
  rw [Frame.bytes, List.length_append, length_header]

@[simp] theorem fromByte_toByte (kind : Kind) : Kind.fromByte kind.toByte = .ok kind := by
  cases kind <;> rfl

theorem toByte_fromByte (read : Kind.fromByte byte = .ok kind) : kind.toByte = byte := by
  unfold Kind.fromByte at read
  split at read <;> cases read <;> rfl

theorem header_length (kind : Kind) (id len : Nat) (small : len ≤ maxFrameLen) :
    leValue ((header kind id len).take 4) = len := by
  have bound : len < 256 ^ 4 := Nat.lt_of_le_of_lt small (by decide)
  rw [header, List.take_left' (length_leBytes 4 len), leValue_leBytes, Nat.mod_eq_of_lt bound]

theorem header_kind (kind : Kind) (id len : Nat) : (header kind id len).getD 4 0 = kind.toByte := by
  have place : (header kind id len)[4]? = some kind.toByte := by
    rw [header, List.getElem?_append_right (Nat.le_of_eq (length_leBytes 4 len)), length_leBytes]
    rfl
  rw [List.getD_eq_getElem?_getD, place, Option.getD_some]

theorem header_id (kind : Kind) (len : Nat) {id : Nat} (small : id < 2 ^ 64) :
    leValue ((header kind id len).drop 5) = id := by
  have split : header kind id len = (leBytes 4 len ++ [kind.toByte]) ++ leBytes 8 id := by
    rw [header, List.append_assoc, List.singleton_append]
  have width : 256 ^ 8 = 2 ^ 64 := rfl
  rw [split, List.drop_left' (by rw [List.length_append, length_leBytes, List.length_singleton]),
    leValue_leBytes, width,
    Nat.mod_eq_of_lt small]

theorem readFrame_header {frame : Frame} (valid : frame.Valid) (content : Octets) (turns : List Turn) :
    (Turn.failed ∈ turns ∧ readFrame ⟨header frame.kind frame.id frame.payload.length ++ content, turns⟩ = .error .io) ∨
      ∃ later, later ⊆ turns ∧ readFrame ⟨header frame.kind frame.id frame.payload.length ++ content, turns⟩ =
        if content.length < frame.payload.length then .error .truncated
        else .ok (some ({ frame with payload := content.take frame.payload.length },
          ⟨content.drop frame.payload.length, later⟩)) := by
  have front := length_header frame.kind frame.id frame.payload.length
  rw [readFrame]
  rcases fill_cases (header frame.kind frame.id frame.payload.length ++ content) turns headerLen with
    ⟨fails, none'⟩ | ⟨middle, within, first⟩
  · exact .inl ⟨fails, by simp only [none']⟩
  · rw [List.take_left' front, List.drop_left' front] at first
    have some' : header frame.kind frame.id frame.payload.length ≠ [] := by
      intro none'
      rw [none'] at front
      cases front
    have long : ¬(header frame.kind frame.id frame.payload.length).length < headerLen :=
      Nat.not_lt.mpr (Nat.le_of_eq front.symm)
    simp only [first]
    rw [if_neg some', if_neg long, header_length _ _ _ valid.payload,
      if_neg (Nat.not_lt.mpr valid.payload), header_kind,
      fromByte_toByte]
    rcases fill_cases content middle frame.payload.length with ⟨fails, none'⟩ | ⟨later, within', second⟩
    · exact .inl ⟨within fails, by simp only [none']⟩
    · refine .inr ⟨later, fun turn inside => within (within' inside), ?_⟩
      simp only [second]
      rw [header_id _ _ valid.id, List.length_take]
      by_cases short : content.length < frame.payload.length
      · rw [if_pos (by omega), if_pos short]
      · rw [if_neg (by omega), if_neg short]

theorem readFrame_whole {frame : Frame} (valid : frame.Valid) (rest : Octets) (turns : List Turn) :
    (Turn.failed ∈ turns ∧ readFrame ⟨frame.bytes ++ rest, turns⟩ = .error .io) ∨
      ∃ later, later ⊆ turns ∧ readFrame ⟨frame.bytes ++ rest, turns⟩ = .ok (some (frame, ⟨rest, later⟩)) := by
  have long : ¬(frame.payload ++ rest).length < frame.payload.length := by
    rw [List.length_append]
    omega
  have read := readFrame_header valid (frame.payload ++ rest) turns
  simp only [if_neg long, List.take_left, List.drop_left] at read
  rwa [Frame.bytes, List.append_assoc]

theorem readFrame_nil (quiet : Turn.failed ∉ turns) : readFrame ⟨[], turns⟩ = .ok none := by
  rcases fill_cases ([] : Octets) turns headerLen with ⟨fails, _⟩ | ⟨later, _, first⟩
  · exact absurd fails quiet
  · rw [readFrame]
    simp only [first]
    rfl

theorem readFrame_cut {frame : Frame} (valid : frame.Valid) (quiet : Turn.failed ∉ turns) (some' : 0 < k)
    (cut : k < frame.bytes.length) : readFrame ⟨frame.bytes.take k, turns⟩ = .error .truncated := by
  have front := length_header frame.kind frame.id frame.payload.length
  rw [length_bytes] at cut
  by_cases inside : k < headerLen
  · rcases fill_cases (frame.bytes.take k) turns headerLen with ⟨fails, _⟩ | ⟨later, _, first⟩
    · exact absurd fails quiet
    · have size : ((frame.bytes.take k).take headerLen).length = k := by
        rw [List.length_take, List.length_take, length_bytes]
        omega
      have held : (frame.bytes.take k).take headerLen ≠ [] := by
        intro none'
        rw [none'] at size
        exact absurd size (Nat.ne_of_lt some')
      rw [readFrame]
      simp only [first]
      rw [if_neg held, if_pos (size.symm ▸ inside)]
  · have split : frame.bytes.take k =
        header frame.kind frame.id frame.payload.length ++ frame.payload.take (k - headerLen) := by
      rw [Frame.bytes, List.take_append, front, List.take_of_length_le (by omega)]
    rw [split]
    rcases readFrame_header valid (frame.payload.take (k - headerLen)) turns with ⟨fails, _⟩ | ⟨later, _, read⟩
    · exact absurd fails quiet
    · rw [read, if_pos (by rw [List.length_take]; omega)]

theorem header_read (long : bytes.length = headerLen) (kind : Kind.fromByte (bytes.getD 4 0) = .ok found) :
    header found (leValue (bytes.drop 5)) (leValue (bytes.take 4)) = bytes := by
  have five : 4 < bytes.length := by
    rw [long]
    decide
  have middle : found.toByte = bytes[4] := by
    rw [toByte_fromByte kind, List.getD_eq_getElem?_getD, List.getElem?_eq_getElem five, Option.getD_some]
  have low : leBytes 4 (leValue (bytes.take 4)) = bytes.take 4 :=
    leBytes_leValue (List.length_take_of_le (Nat.le_of_lt five))
  have high : leBytes 8 (leValue (bytes.drop 5)) = bytes.drop 5 := leBytes_leValue (by rw [List.length_drop, long]; rfl)
  rw [header, low, high, middle, ← List.drop_eq_getElem_cons five, List.take_append_drop]

theorem readFrame_ok (read : readFrame reader = .ok found) :
    (found = none ∧ reader.content = []) ∨
      ∃ frame rest, found = some (frame, rest) ∧ frame.Valid ∧ reader.content = frame.bytes ++ rest.content ∧
        rest.turns ⊆ reader.turns := by
  obtain ⟨whole, turns⟩ := reader
  rw [readFrame] at read
  dsimp only at read
  split at read
  · cases read
  · next bytes content later first =>
    obtain ⟨rfl, rfl, within⟩ := fill_front first
    split at read
    · next empty =>
      cases read
      exact .inl ⟨rfl, (List.take_eq_nil_iff.mp empty).resolve_left (by decide)⟩
    · split at read
      · cases read
      · next long =>
        split at read
        · cases read
        · next small =>
          split at read
          · cases read
          · next kind known =>
            split at read
            · cases read
            · next payload rest ends second =>
              obtain ⟨rfl, rfl, within'⟩ := fill_front second
              split at read
              · cases read
              · next full =>
                cases read
                have size : (whole.take headerLen).length = headerLen := by
                  rw [List.length_take] at long ⊢
                  omega
                have head := header_read size known
                have full := not_not.mp full
                refine .inr ⟨_, _, rfl, ⟨?_, Nat.le_trans (Nat.le_of_eq full) (Nat.not_lt.mp small)⟩, ?_,
                  fun turn inside =>
                  within (within' inside)⟩
                · have bound := leValue_lt ((whole.take headerLen).drop 5)
                  rw [List.length_drop, size] at bound
                  exact bound
                · rw [Frame.bytes, full, head, List.append_assoc, List.take_append_drop, List.take_append_drop]

theorem readFrame_io (read : readFrame reader = .error .io) : Turn.failed ∈ reader.turns := by
  rw [readFrame] at read
  split at read
  · next first => exact fill_none first
  · next bytes content later first =>
    obtain ⟨_, _, within⟩ := fill_front first
    split at read
    · cases read
    · split at read
      · cases read
      · dsimp only at read
        split at read
        · cases read
        · split at read
          · next error unknown =>
            cases read
            unfold Kind.fromByte at unknown
            split at unknown <;> cases unknown
          · split at read
            · next second => exact within (fill_none second)
            · split at read <;> cases read

def bytesOf (frames : List Frame) : Octets := frames.flatMap Frame.bytes

/-- The frames that are whole among the first so many bytes. -/
def arrived : List Frame → Nat → List Frame
  | [], _ => []
  | frame :: frames, k => if frame.bytes.length ≤ k then frame :: arrived frames (k - frame.bytes.length) else []

theorem bytesOf_cons (frame : Frame) (frames : List Frame) :
    bytesOf (frame :: frames) = frame.bytes ++ bytesOf frames :=
  List.flatMap_cons

theorem writeFrames_ok (written : writeFrames frames = .ok bytes) :
    bytes = bytesOf frames ∧ ∀ frame ∈ frames, frame.payload.length ≤ maxFrameLen := by
  induction frames generalizing bytes with
  | nil =>
    cases written
    exact ⟨rfl, fun _ inside => absurd inside List.not_mem_nil⟩
  | cons frame frames ih =>
    rw [writeFrames, writeFrame] at written
    split at written
    · cases written
    · next small =>
      cases later : writeFrames frames with
      | error error =>
        rw [later] at written
        cases written
      | ok rest =>
        rw [later] at written
        cases written
        obtain ⟨rfl, payloads⟩ := ih later
        exact ⟨bytesOf_cons .., List.forall_mem_cons.mpr ⟨Nat.not_lt.mp small, payloads⟩⟩

theorem readLoop_arrived (valid : ∀ frame ∈ frames, frame.Valid) (quiet : Turn.failed ∉ turns)
    (cut : k ≤ (bytesOf frames).length) (enough : k < fuel) : readLoop fuel ⟨(bytesOf frames).take k, turns⟩ =
      (arrived frames k, if (bytesOf (arrived frames k)).length = k then none else some .truncated) := by
  induction frames generalizing k fuel turns with
  | nil =>
    obtain ⟨fuel, rfl⟩ := Nat.exists_eq_succ_of_ne_zero (Nat.ne_of_gt (Nat.lt_of_le_of_lt (Nat.zero_le k) enough))
    obtain rfl : k = 0 := Nat.le_zero.mp cut
    rw [readLoop, bytesOf, List.flatMap_nil, List.take_nil, readFrame_nil quiet]
    rfl
  | cons frame frames ih =>
    obtain ⟨fuel, rfl⟩ := Nat.exists_eq_succ_of_ne_zero (Nat.ne_of_gt (Nat.lt_of_le_of_lt (Nat.zero_le k) enough))
    obtain ⟨here, later⟩ := List.forall_mem_cons.mp valid
    rw [bytesOf_cons, List.length_append] at cut
    have taken : 0 < frame.bytes.length := by
      rw [length_bytes]
      exact Nat.lt_of_lt_of_le (by decide) (Nat.le_add_right _ _)
    rw [arrived, bytesOf_cons, List.take_append]
    by_cases whole : frame.bytes.length ≤ k
    · rw [if_pos whole, List.take_of_length_le whole, readLoop]
      rcases readFrame_whole here ((bytesOf frames).take (k - frame.bytes.length)) turns with ⟨fails, _⟩ |
        ⟨rest, within, read⟩
      · exact absurd fails quiet
      · have next := @ih rest (k - frame.bytes.length) fuel later (fun fails => quiet (within fails))
          (by omega) (by omega)
        rw [read]
        dsimp only
        have same : (bytesOf (arrived frames (k - frame.bytes.length))).length = k - frame.bytes.length ↔
            frame.bytes.length + (bytesOf (arrived frames (k - frame.bytes.length))).length = k := by omega
        rw [next, bytesOf_cons, List.length_append, if_congr same rfl rfl]
    · rw [if_neg whole, Nat.sub_eq_zero_of_le (Nat.le_of_not_le whole), List.take_zero, List.append_nil, readLoop]
      cases k with
      | zero =>
        rw [List.take_zero, readFrame_nil quiet]
        rfl
      | succ k =>
        rw [readFrame_cut here quiet (Nat.succ_pos k) (Nat.lt_of_not_le whole)]
        rfl

/-- However the pipe cuts the reads, and wherever the writer stops, the reader gets the frames that arrived whole, in
order, and learns whether the stream ended inside a frame. -/
theorem frames_delivered (written : writeFrames frames = .ok bytes) (ids : ∀ frame ∈ frames, frame.id < 2 ^ 64)
    (quiet : Turn.failed ∉ turns) (cut : k ≤ bytes.length) : session (bytes.take k) turns =
      (arrived frames k, if (bytesOf (arrived frames k)).length = k then none else some .truncated) := by
  obtain ⟨rfl, payloads⟩ := writeFrames_ok written
  rw [session, List.length_take_of_le cut]
  exact readLoop_arrived (fun frame inside => ⟨ids frame inside, payloads frame inside⟩) quiet cut (Nat.lt_succ_self k)

/-- Two frames, and a byte of a third, in reads of one and of three bytes. -/
theorem frames_delivered_cut : session
    ((bytesOf [⟨.control, 7, [1, 2]⟩, ⟨.batch, 8, []⟩, ⟨.control, 9, [3]⟩]).take 29)
    [.gives 0, .interrupted, .gives 2] =
      ([⟨.control, 7, [1, 2]⟩, ⟨.batch, 8, []⟩], some .truncated) :=
  have written : writeFrames [⟨.control, 7, [1, 2]⟩, ⟨.batch, 8, []⟩, ⟨.control, 9, [3]⟩] = .ok _ := rfl
  frames_delivered written (by decide) (by decide) (by decide)

/-- What a reader got from a peer: frames that the protocol has, which are the front of what was sent. The stream ended
without an error only where all of it was read, and only what no frame begins is refused. -/
structure Received (content : Octets) (turns : List Turn) (frames : List Frame) (ending : Option ProtoError)
    (rest : Octets) :
    Prop where
  valid : ∀ frame ∈ frames, frame.Valid
  front : content = bytesOf frames ++ rest
  whole : ending = none → rest = []
  fails : ending = some .io → Turn.failed ∈ turns
  refused : ∀ error, ending = some error → error ≠ .io → ∀ (frame : Frame) tail, frame.Valid →
    rest ≠ frame.bytes ++ tail

/-- Whatever the peer sends, and whatever the reads do. -/
theorem session_sound (ran : session content turns = (frames, ending)) :
    ∃ rest, Received content turns frames ending rest := by
  have enough : content.length < content.length + 1 := Nat.lt_succ_self _
  rw [session] at ran
  generalize content.length + 1 = fuel at ran enough
  induction fuel generalizing content turns frames with
  | zero => exact absurd enough (Nat.not_lt_zero _)
  | succ fuel ih =>
    rw [readLoop] at ran
    split at ran
    · next error failed =>
      cases ran
      refine ⟨content, fun _ inside => absurd inside List.not_mem_nil, rfl,
        fun none' => (Option.some_ne_none _ none').elim, ?_, ?_⟩
      · intro same
        cases same
        exact readFrame_io failed
      · rintro _ same other frame tail valid rfl
        cases same
        rcases readFrame_whole valid tail turns with ⟨_, read⟩ | ⟨_, _, read⟩
        · rw [read] at failed
          cases failed
          exact other rfl
        · rw [read] at failed
          cases failed
    · next read =>
      cases ran
      rcases readFrame_ok read with ⟨_, empty⟩ | ⟨_, _, none', _⟩
      · refine ⟨content, fun _ inside => absurd inside List.not_mem_nil, rfl, fun _ => empty, fun none' => ?_,
          fun _ none' => ?_⟩
        · cases none'
        · cases none'
      · cases none'
    · next frame rest read =>
      rcases readFrame_ok read with ⟨none', _⟩ | ⟨frame', rest', same, valid, split, within⟩
      · cases none'
      · cases same
        cases later : readLoop fuel rest with
        | mk frames' ending' =>
          rw [later] at ran
          cases ran
          have less : rest.content.length < fuel := by
            have size := congrArg List.length split
            have header : headerLen = 13 := rfl
            dsimp only at size
            rw [List.length_append, length_bytes] at size
            omega
          obtain ⟨tail, received⟩ := ih later less
          refine ⟨tail, List.forall_mem_cons.mpr ⟨valid, received.valid⟩, ?_, received.whole,
            fun same => within (received.fails same), received.refused⟩
          rw [bytesOf_cons, List.append_assoc, ← received.front]
          exact split

/-- A frame, and behind it the header of one that is too long. -/
theorem session_sound_long : ∃ rest,
    Received ((Frame.mk .control 7 [1, 2]).bytes ++ header .batch 8 (2 ^ 32 - 1)) [.gives 4] [⟨.control, 7, [1, 2]⟩]
      (some (.tooLarge (2 ^ 32 - 1))) rest :=
  session_sound rfl

end QueryHive.Analytics.Frames
