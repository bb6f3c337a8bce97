import QueryHive.Import.JsonSource

/-! What the framer makes of well-formed files. It goes through the bytes in their order, and how they are cut
into chunks does not show. -/
namespace QueryHive.Import.JsonSource
open QueryHive.Library.Json

/-- The source went over these bytes, and nothing else of it changed. -/
structure Advances (taken : List UInt8) (source next : JsonSource) : Prop where
  bytes : source.reader.bytes = taken ++ next.reader.bytes
  line : next.line = source.line + taken.count lineFeed
  offset : next.offset = source.offset + taken.length
  kept : next = { source with reader := next.reader, line := next.line, offset := next.offset }

theorem Advances.refl (source : JsonSource) : Advances [] source source := ⟨rfl, rfl, rfl, rfl⟩

theorem Advances.trans {source between next : JsonSource} (first : Advances front source between)
    (second : Advances back between next) : Advances (front ++ back) source next where
  bytes := by rw [first.bytes, second.bytes, List.append_assoc]
  line := by rw [second.line, first.line, List.count_append, Nat.add_assoc]
  offset := by rw [second.offset, first.offset, List.length_append, Nat.add_assoc]
  kept := by
    rw [second.kept, first.kept]

theorem Advances.mode {source next : JsonSource} (advances : Advances taken source next) : next.mode = source.mode := by
  rw [advances.kept]

theorem Advances.limits {source next : JsonSource} (advances : Advances taken source next) :
    next.limits = source.limits := by
  rw [advances.kept]

theorem Advances.expectElement {source next : JsonSource} (advances : Advances taken source next) :
    next.expectElement = source.expectElement := by
  rw [advances.kept]

theorem Advances.done {source next : JsonSource} (advances : Advances taken source next) : next.done = source.done := by
  rw [advances.kept]

theorem Advances.count {source next : JsonSource} (advances : Advances taken source next) :
    next.count = source.count := by
  rw [advances.kept]

/-- What is left, when what was gone over is known. -/
theorem Advances.rest {source next : JsonSource} {rest : List UInt8} (advances : Advances taken source next)
    (bytes : source.reader.bytes = taken ++ rest) : next.reader.bytes = rest :=
  List.append_cancel_left (advances.bytes.symm.trans bytes)

theorem peek_eq (source : JsonSource) : source.peek = source.reader.bytes.head? := by
  obtain ⟨rest, split⟩ := source.reader.bytes_split
  cases buffer : source.reader.fillBuf with
  | nil => rw [peek, buffer, (Reader.fillBuf_nil_iff _).mp buffer]
  | cons byte more => rw [peek, split, buffer, List.cons_append, List.head?_cons, List.head?_cons]

theorem advances_bump {source : JsonSource} (next : source.peek = some byte) :
    Advances [byte] source (bump byte source) where
  bytes := bytes_bump next
  line := by
    by_cases ends : byte = lineFeed
    · simp [bump, ends]
    · simp [bump, ends]
  offset := rfl
  kept := rfl

theorem advances_take {source : JsonSource} (short : used ≤ source.reader.fillBuf.length) :
    Advances (source.reader.fillBuf.take used) source (source.take used) where
  bytes := by
    obtain ⟨rest, split⟩ := source.reader.bytes_split
    rw [bytes_take short, split, List.drop_append_of_le_length short, ← List.append_assoc, List.take_append_drop]
  line := rfl
  offset := by rw [List.length_take_of_le short]; rfl
  kept := rfl

theorem advances_skipWs (source : JsonSource) :
    Advances (source.reader.bytes.takeWhile isWs) source (skipWs source) ∧
      (skipWs source).reader.bytes = source.reader.bytes.dropWhile isWs := by
  induction source using skipWs.induct with
  | case1 source none =>
    have empty : source.reader.bytes = [] := List.head?_eq_none_iff.mp (peek_eq source ▸ none)
    have step : skipWs source = source := by rw [skipWs, none]
    rw [step, empty]
    exact ⟨.refl source, rfl⟩
  | case2 source byte next blank ih =>
    have step : skipWs source = skipWs (bump byte source) := by
      rw [skipWs, next]
      exact if_pos blank
    have bytes := bytes_bump next
    rw [step, bytes, List.takeWhile_cons_of_pos blank, List.dropWhile_cons_of_pos blank]
    exact ⟨(advances_bump next).trans ih.1, ih.2⟩
  | case3 source byte next other =>
    have step : skipWs source = source := by
      rw [skipWs, next]
      exact if_neg other
    have bytes := bytes_bump next
    rw [step, bytes, List.takeWhile_cons_of_neg other, List.dropWhile_cons_of_neg other]
    exact ⟨.refl source, rfl⟩

def Blanks (bytes : List UInt8) : Prop := ∀ b ∈ bytes, isWs b = true

theorem skipWs_before {source : JsonSource} (blank : Blanks gap) (other : isWs byte = false)
    (bytes : source.reader.bytes = gap ++ byte :: rest) :
    Advances gap source (skipWs source) ∧ (skipWs source).reader.bytes = byte :: rest := by
  obtain ⟨advances, left⟩ := advances_skipWs source
  have bare : ¬isWs byte = true := by simp [other]
  rw [bytes, List.takeWhile_append_of_pos blank, List.takeWhile_cons_of_neg bare, List.append_nil] at advances
  rw [bytes, List.dropWhile_append_of_pos blank, List.dropWhile_cons_of_neg bare] at left
  exact ⟨advances, left⟩

theorem skipWs_end {source : JsonSource} (blank : Blanks source.reader.bytes) :
    Advances source.reader.bytes source (skipWs source) ∧ (skipWs source).reader.bytes = [] := by
  obtain ⟨advances, left⟩ := advances_skipWs source
  rw [List.takeWhile_eq_self_iff.mpr blank] at advances
  rw [List.dropWhile_eq_nil_iff.mpr blank] at left
  exact ⟨advances, left⟩

theorem scanChunk_stopped (stopped : (scanChunk scan front).stop = some stop) (back : List UInt8) :
    scanChunk scan (front ++ back) = scanChunk scan front := by
  induction front generalizing scan with
  | nil => cases stopped
  | cons byte front ih =>
    rw [scanChunk] at stopped
    rw [List.cons_append, scanChunk, scanChunk]
    split
    · rfl
    · next scan' steps =>
      rw [steps] at stopped
      rw [ih stopped]

theorem scanChunk_going (going : (scanChunk scan front).stop = none) (back : List UInt8) :
    scanChunk scan (front ++ back) =
      { scanChunk (scanChunk scan front).scan back with
        used := front.length + (scanChunk (scanChunk scan front).scan back).used } := by
  induction front generalizing scan with
  | nil => simp [scanChunk]
  | cons byte front ih =>
    rw [scanChunk] at going
    rw [List.cons_append, scanChunk, scanChunk]
    split
    · next steps =>
      rw [steps] at going
      cases going
    · next scan' steps =>
      rw [steps] at going
      rw [ih going]
      simp [Nat.add_right_comm]

/-- All these bytes are gone over, from one place of an object to another. -/
def Goes (scan : Scan) (bytes : List UInt8) (next : Scan) : Prop := scanChunk scan bytes = ⟨bytes.length, next, none⟩

/-- With the last of these bytes the object ends. -/
def Frames (scan : Scan) (bytes : List UInt8) : Prop :=
  ∃ next, scanChunk scan bytes = ⟨bytes.length, next, some .finished⟩

theorem Goes.nil (scan : Scan) : Goes scan [] scan := rfl

theorem Goes.append (first : Goes scan front between) (second : Goes between back next) :
    Goes scan (front ++ back) next := by
  unfold Goes at *
  rw [scanChunk_going (by rw [first]), first, second, List.length_append]

theorem Goes.frames (first : Goes scan front between) (second : Frames between back) : Frames scan (front ++ back) := by
  obtain ⟨next, second⟩ := second
  unfold Goes at first
  refine ⟨next, ?_⟩
  rw [scanChunk_going (by rw [first]), first, second, List.length_append]

theorem goes_byte (steps : scanByte scan byte = (next, none)) : Goes scan [byte] next := by
  rw [Goes, scanChunk, steps]
  rfl

/-- Nothing but the object is looked at. -/
theorem Frames.longer (frames : Frames scan element) (rest : List UInt8) :
    ∃ next, scanChunk scan (element ++ rest) = ⟨element.length, next, some .finished⟩ := by
  obtain ⟨next, scanned⟩ := frames
  exact ⟨next, by rw [scanChunk_stopped (by rw [scanned]), scanned]⟩

/-- An object is gone on with in the next chunk. -/
theorem Frames.later (frames : Frames scan (front ++ back)) (more : back ≠ []) :
    (scanChunk scan front).stop = none ∧ Frames (scanChunk scan front).scan back := by
  obtain ⟨next, scanned⟩ := frames
  have short := used_le scan front
  have long := List.length_pos_iff.mpr more
  cases stopped : (scanChunk scan front).stop with
  | some stop =>
    rw [scanChunk_stopped stopped] at scanned
    have used : (scanChunk scan front).used = (front ++ back).length := congrArg Scanned.used scanned
    rw [List.length_append] at used
    omega
  | none =>
    rw [scanChunk_going stopped, List.length_append] at scanned
    injection scanned with used _ stop
    refine ⟨rfl, (scanChunk (scanChunk scan front).scan back).scan, ?_⟩
    rw [← stop, ← Nat.add_left_cancel used]

section
variable {source : JsonSource} {scan next : Scan} {used : Nat}

theorem readObject_finished (atLine atOffset : Nat) (out : List UInt8) (buffered : source.reader.fillBuf ≠ [])
    (scanned : scanChunk scan source.reader.fillBuf = ⟨used, next, some .finished⟩)
    (fits : (out ++ source.reader.fillBuf.take used).length ≤ source.limits.maxElementBytes) :
    readObject atLine atOffset source out scan = .ok (out ++ source.reader.fillBuf.take used, source.take used) := by
  have within : ¬(out ++ source.reader.fillBuf.take used).length > source.limits.maxElementBytes := Nat.not_lt.mpr fits
  rw [readObject, dif_neg buffered]
  simp only [scanned, Option.some.injEq, reduceCtorEq, if_false, if_true]
  exact if_neg within

theorem readObject_goes (atLine atOffset : Nat) (out : List UInt8) (buffered : source.reader.fillBuf ≠ [])
    (scanned : scanChunk scan source.reader.fillBuf = ⟨used, next, none⟩)
    (fits : (out ++ source.reader.fillBuf.take used).length ≤ source.limits.maxElementBytes) :
    readObject atLine atOffset source out scan =
      readObject atLine atOffset (source.take used) (out ++ source.reader.fillBuf.take used) next := by
  have within : ¬(out ++ source.reader.fillBuf.take used).length > source.limits.maxElementBytes := Nat.not_lt.mpr fits
  rw [readObject, dif_neg buffered]
  simp only [scanned, reduceCtorEq, if_false]
  exact if_neg within

end

theorem readObject_frames {source : JsonSource} {rest : List UInt8} (atLine atOffset : Nat) (out : List UInt8)
    (frames : Frames scan element) (bytes : source.reader.bytes = element ++ rest)
    (fits : out.length + element.length ≤ source.limits.maxElementBytes) :
    ∃ after, readObject atLine atOffset source out scan = .ok (out ++ element, after) ∧
      Advances element source after := by
  induction count : element.length using Nat.strong_induction_on generalizing source out scan element with
  | _ size ih =>
    have filled : element ≠ [] := by
      rintro rfl
      obtain ⟨next, scanned⟩ := frames
      cases scanned
    have buffered : source.reader.fillBuf ≠ [] := by
      rw [ne_eq, Reader.fillBuf_nil_iff, bytes]
      exact List.append_ne_nil_of_left_ne_nil filled rest
    obtain ⟨more, split⟩ := source.reader.bytes_split
    -- The object ends in this chunk, or the chunk ends in the object.
    have cut : (∃ tail, source.reader.fillBuf = element ++ tail) ∨
        ∃ back, back ≠ [] ∧ element = source.reader.fillBuf ++ back ∧ more = back ++ rest := by
      rcases List.append_eq_append_iff.mp (bytes.symm.trans split) with ⟨tail, whole, _⟩ | ⟨back, whole, later⟩
      · exact .inl ⟨tail, whole⟩
      · cases back with
        | nil => exact .inl ⟨[], by rw [whole, List.append_nil, List.append_nil]⟩
        | cons byte back => exact .inr ⟨byte :: back, List.cons_ne_nil _ _, whole, later⟩
    rcases cut with ⟨tail, whole⟩ | ⟨back, nonempty, whole, later⟩
    · obtain ⟨next, scanned⟩ := frames.longer tail
      rw [← whole] at scanned
      have taken : source.reader.fillBuf.take element.length = element := by rw [whole, List.take_left]
      have short : element.length ≤ source.reader.fillBuf.length := by rw [whole, List.length_append]; omega
      have read := readObject_finished atLine atOffset out buffered scanned
        (by rw [taken, List.length_append]; exact fits)
      have advances := advances_take short
      rw [taken] at read advances
      exact ⟨_, read, advances⟩
    · rw [whole] at frames
      obtain ⟨going, frames⟩ := frames.later nonempty
      have scanned : scanChunk scan source.reader.fillBuf =
          ⟨source.reader.fillBuf.length, (scanChunk scan source.reader.fillBuf).scan, none⟩ := by
        rw [← used_of_going going, ← going]
      rw [whole, List.length_append] at fits count
      have advances := advances_take (Nat.le_refl source.reader.fillBuf.length)
      rw [List.take_length] at advances
      have read := readObject_goes atLine atOffset out buffered scanned
        (by rw [List.take_length, List.length_append]; omega)
      rw [List.take_length] at read
      have shorter : back.length < size := by
        rw [← count]
        exact Nat.lt_add_of_pos_left (List.length_pos_iff.mpr buffered)
      have fitsMore : (out ++ source.reader.fillBuf).length + back.length ≤
          (source.take source.reader.fillBuf.length).limits.maxElementBytes := by
        rw [advances.limits, List.length_append]
        omega
      obtain ⟨after, readMore, advancesMore⟩ :=
        ih back.length shorter _ frames ((advances.rest split).trans later) fitsMore rfl
      refine ⟨after, ?_, whole ▸ advances.trans advancesMore⟩
      rw [read, readMore, whole, List.append_assoc]

theorem scanChunk_take (stopped : (scanChunk scan chunk).stop = some stop) :
    scanChunk scan (chunk.take (scanChunk scan chunk).used) = scanChunk scan chunk := by
  induction chunk generalizing scan with
  | nil => cases stopped
  | cons byte rest ih =>
    rw [scanChunk] at stopped ⊢
    split
    · next steps => simp [scanChunk, steps]
    · next scan' steps =>
      rw [steps] at stopped
      rw [List.take_succ_cons, scanChunk, steps]
      simp only [ih stopped]

theorem readObject_ok {source after : JsonSource}
    (read : readObject atLine atOffset source out scan = .ok (bytes, after)) :
    ∃ element, bytes = out ++ element ∧ Frames scan element ∧ bytes.length ≤ source.limits.maxElementBytes ∧
      Advances element source after := by
  induction count : source.reader.bytes.length using Nat.strong_induction_on generalizing source out scan with
  | _ size ih =>
    by_cases ended : source.reader.fillBuf = []
    · rw [readObject, dif_pos ended] at read
      cases read
    · rw [readObject, dif_neg ended] at read
      dsimp only at read
      have short := used_le scan source.reader.fillBuf
      have advances := advances_take short
      split at read
      · cases read
      · next shallow =>
        split at read
        · cases read
        · next small =>
          rw [advances.limits] at small
          split at read
          · next finished =>
            cases read
            have framed := (scanChunk_take finished).trans (rfl : _ = Scanned.mk _ _ _)
            rw [finished] at framed
            refine ⟨_, rfl, ⟨(scanChunk scan source.reader.fillBuf).scan, ?_⟩, Nat.not_lt.mp small, advances⟩
            rw [List.length_take_of_le short]
            exact framed
          · next going =>
            have none : (scanChunk scan source.reader.fillBuf).stop = none := by
              rcases stop : (scanChunk scan source.reader.fillBuf).stop with _ | _ | _
              · rfl
              · exact absurd stop shallow
              · exact absurd stop going
            have whole := used_of_going none
            rw [whole, List.take_length] at read advances
            have goes : Goes scan source.reader.fillBuf (scanChunk scan source.reader.fillBuf).scan := by
              rw [Goes, ← whole, ← none]
            have shorter : (source.take source.reader.fillBuf.length).reader.bytes.length < size := by
              rw [← count, advances.bytes, List.length_append]
              exact Nat.lt_add_of_pos_left (List.length_pos_iff.mpr ended)
            obtain ⟨element, same, frames, fits, further⟩ := ih _ shorter read rfl
            refine ⟨source.reader.fillBuf ++ element, ?_, goes.frames frames, advances.limits ▸ fits,
              advances.trans further⟩
            rw [same, List.append_assoc]

end QueryHive.Import.JsonSource
