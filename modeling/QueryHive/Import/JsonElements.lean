import QueryHive.Import.JsonFraming
import QueryHive.Library.Ascii
import QueryHive.Library.JsonText

/-! The bytes of a JSON object, as the framer goes through them. It follows the nesting of what the text spells,
whatever stands in the strings. -/
namespace QueryHive.Import.JsonSource
open QueryHive.Library Json Text JsonText

def Sinks (scan : Scan) (bytes : List UInt8) : Prop := (scanChunk scan bytes).stop = some .tooDeep

theorem Sinks.longer (sinks : Sinks scan front) (back : List UInt8) : Sinks scan (front ++ back) := by
  unfold Sinks at *
  rw [scanChunk_stopped sinks, sinks]

theorem Goes.sinks (goes : Goes scan front between) (sinks : Sinks between back) : Sinks scan (front ++ back) := by
  unfold Goes at goes
  unfold Sinks at *
  rw [scanChunk_going (by rw [goes]), goes]
  exact sinks

def outside (depth : Nat) : Scan := ⟨depth, false, false⟩

/-- Bytes with so many levels inside are gone over exactly when the levels are not too many. -/
structure Scans (depth levels : Nat) (bytes : List UInt8) : Prop where
  goes : depth + levels ≤ maxDepth → Goes (outside depth) bytes (outside depth)
  sinks : depth ≤ maxDepth → maxDepth < depth + levels → Sinks (outside depth) bytes

theorem Goes.scans (goes : Goes (outside depth) bytes (outside depth)) : Scans depth 0 bytes :=
  ⟨fun _ => goes, fun shallow deep => absurd deep (Nat.not_lt.mpr shallow)⟩

theorem Scans.append (first : Scans depth a front) (second : Scans depth b back) :
    Scans depth (max a b) (front ++ back) where
  goes fits := (first.goes (by omega)).append (second.goes (by omega))
  sinks shallow deep := by
    by_cases fits : depth + a ≤ maxDepth
    · exact (first.goes fits).sinks (second.sinks shallow (by omega))
    · exact (first.sinks shallow (by omega)).longer back

theorem Scans.bracketed (inner : ∀ depth, 1 ≤ depth → Scans depth levels body)
    (opens : first = openBrace ∨ first = openBracket)
    (closes : last = closeBrace ∨ last = closeBracket) (inside : 1 ≤ depth) :
    Scans depth (levels + 1) (first :: (body ++ [last])) := by
  have opened : scanByte (outside depth) first =
      (outside (depth + 1), if depth + 1 > maxDepth then some .tooDeep else none) := by
    rcases opens with rfl | rfl <;> rfl
  have closed : scanByte (outside (depth + 1)) last = (outside depth, none) := by
    have more : depth ≠ 0 := by omega
    have stays : (if depth + 1 - 1 = 0 then some Stop.finished else none) = none := if_neg (by omega)
    rcases closes with rfl | rfl <;> exact congrArg (Prod.mk (outside depth)) stays
  have deeper := inner (depth + 1) (by omega)
  refine ⟨fun fits => ?_, fun shallow deep => ?_⟩
  · have down : Goes (outside depth) [first] (outside (depth + 1)) := goes_byte (by rw [opened, if_neg (by omega)])
    exact (down.append (deeper.goes (by omega))).append (goes_byte closed)
  · by_cases deep : depth + 1 > maxDepth
    · have stops : Sinks (outside depth) [first] := by
        rw [Sinks, scanChunk, opened, if_pos deep]
      exact stops.longer (body ++ [last])
    · have down : Goes (outside depth) [first] (outside (depth + 1)) := goes_byte (by rw [opened, if_neg deep])
      exact (down.sinks (deeper.sinks (by omega) (by omega))).longer [last]

/-- A character that means nothing to the framer outside strings. -/
def isFlat (c : Char) : Bool := c ≠ '"' && c ≠ '{' && c ≠ '[' && c ≠ '}' && c ≠ ']'

/-- A byte below 128 among the bytes of a text is one of its characters. -/
theorem not_mem_encodeUtf8 (c : Char) (ascii : c.toNat < 128) (absent : c ∉ text) :
    ∀ b ∈ encodeUtf8 text, b ≠ UInt8.ofNat c.toNat := by
  rintro b inside rfl
  have small : (UInt8.ofNat c.toNat).toNat = c.toNat := by
    rw [UInt8.toNat_ofNat']
    omega
  rw [ascii_mem_encodeUtf8 (by rw [small]; exact ascii), small, Char.ofNat_toNat] at inside
  exact absent inside

theorem goes_flat (flat : ∀ c ∈ text, isFlat c = true) : Goes (outside depth) (encodeUtf8 text) (outside depth) := by
  have absent : ∀ c, isFlat c = false → c ∉ text := fun c loud inside => absurd (flat c inside) (by simp [loud])
  have quiet : ∀ b ∈ encodeUtf8 text, b ≠ quote ∧ b ≠ openBrace ∧ b ≠ openBracket ∧ b ≠ closeBrace ∧ b ≠ closeBracket :=
    fun b inside =>
      ⟨not_mem_encodeUtf8 '"' (by decide) (absent _ (by decide)) b inside,
        not_mem_encodeUtf8 '{' (by decide) (absent _ (by decide)) b inside,
        not_mem_encodeUtf8 '[' (by decide) (absent _ (by decide)) b inside,
        not_mem_encodeUtf8 '}' (by decide) (absent _ (by decide)) b inside,
        not_mem_encodeUtf8 ']' (by decide) (absent _ (by decide)) b inside⟩
  generalize encodeUtf8 text = bytes at quiet
  induction bytes with
  | nil => exact .nil _
  | cons b rest ih =>
    obtain ⟨first, later⟩ := List.forall_mem_cons.mp quiet
    obtain ⟨quoted, brace, bracket, brace', bracket'⟩ := first
    have stays : scanByte (outside depth) b = (outside depth, none) := by
      simp [scanByte, outside, quoted, brace, bracket, brace', bracket']
    exact Goes.append (goes_byte stays) (ih later)

theorem blank_flat (blank : Blank gap) : ∀ c ∈ gap, isFlat c = true := by
  intro c inside
  have blank := blank c inside
  by_contra loud
  have which : (((c = '"' ∨ c = '{') ∨ c = '[') ∨ c = '}') ∨ c = ']' := by
    simpa [isFlat, -not_and, not_and_or, or_assoc] using loud
  rcases which with (((rfl | rfl) | rfl) | rfl) | rfl <;> exact absurd blank (by decide)

theorem number_flat (number : JsonText.isNumber token = true) : ∀ c ∈ token, isFlat c = true := by
  intro c inside
  have numeral := List.all_eq_true.mp (Bool.and_eq_true_iff.mp number).1 c inside
  by_contra loud
  have which : (((c = '"' ∨ c = '{') ∨ c = '[') ∨ c = '}') ∨ c = ']' := by
    simpa [isFlat, -not_and, not_and_or, or_assoc] using loud
  rcases which with (((rfl | rfl) | rfl) | rfl) | rfl <;> exact absurd numeral (by decide)

/-- In a string, so deep. -/
def within (depth : Nat) : Scan := ⟨depth, true, false⟩

theorem goes_within (plain : ∀ b ∈ bytes, b ≠ quote ∧ b ≠ backslash) : Goes (within depth) bytes (within depth) := by
  induction bytes with
  | nil => exact .nil _
  | cons b rest ih =>
    obtain ⟨first, later⟩ := List.forall_mem_cons.mp plain
    have stays : scanByte (within depth) b = (within depth, none) := by simp [scanByte, within, first.1, first.2]
    exact Goes.append (goes_byte stays) (ih later)

/-- The byte behind a backslash is gone over whatever it is. -/
theorem goes_escape (b : UInt8) : Goes (within depth) [backslash, b] (within depth) := by
  have first : Goes (within depth) [backslash] ⟨depth, true, true⟩ := goes_byte rfl
  exact Goes.append first (goes_byte rfl)

theorem goes_plain (unquoted : ∀ c ∈ text, c ≠ '"' ∧ c ≠ '\\') :
    Goes (within depth) (encodeUtf8 text) (within depth) := by
  refine goes_within fun b inside => ⟨?_, ?_⟩
  · exact not_mem_encodeUtf8 '"' (by decide) (fun inside => (unquoted _ inside).1 rfl) b inside
  · exact not_mem_encodeUtf8 '\\' (by decide) (fun inside => (unquoted _ inside).2 rfl) b inside

theorem hexValue_plain (digit : hexValue c = some n) : c ≠ '"' ∧ c ≠ '\\' := by
  constructor <;> (rintro rfl; cases digit)

theorem hex4_plain (digits : hex4 a b c d = some code) : ∀ e ∈ [a, b, c, d], e ≠ '"' ∧ e ≠ '\\' := by
  simp only [hex4, Option.bind_eq_bind, Option.bind_eq_some_iff] at digits
  obtain ⟨_, first, _, second, _, third, _, fourth, _⟩ := digits
  simpa using ⟨hexValue_plain first, hexValue_plain second, hexValue_plain third, hexValue_plain fourth⟩

/-- Four digits behind `\u`. -/
theorem goes_unicode (digits : hex4 a b c d = some code) :
    Goes (within depth) (encodeUtf8 ['\\', 'u', a, b, c, d]) (within depth) := by
  have split : encodeUtf8 ['\\', 'u', a, b, c, d] = [backslash, 0x75] ++ encodeUtf8 [a, b, c, d] :=
    encodeUtf8_append ['\\', 'u'] [a, b, c, d]
  rw [split]
  exact (goes_escape 0x75).append (goes_plain (hex4_plain digits))

theorem goes_chars (chars : Chars strict text body) : Goes (within depth) (encodeUtf8 body) (within depth) := by
  induction chars with
  | nil => exact .nil _
  | @plain c _ body _ unquoted unescaped _ ih =>
    have split : encodeUtf8 (c :: body) = encodeUtf8 [c] ++ encodeUtf8 body := encodeUtf8_append [c] body
    rw [split]
    exact (goes_plain (by simpa using ⟨unquoted, unescaped⟩)).append ih
  | @escape e _ _ body known _ ih =>
    have ascii : e.toNat < 128 := by
      simp only [escapes, List.mem_cons, Prod.mk.injEq, List.not_mem_nil, or_false] at known
      rcases known with ⟨rfl, _⟩ | ⟨rfl, _⟩ | ⟨rfl, _⟩ | ⟨rfl, _⟩ | ⟨rfl, _⟩ | ⟨rfl, _⟩ | ⟨rfl, _⟩ | ⟨rfl, _⟩ <;> decide
    have split : encodeUtf8 ('\\' :: e :: body) = [backslash, Ascii.byteOf e] ++ encodeUtf8 body := by
      have front : encodeUtf8 ['\\', e] = [backslash, Ascii.byteOf e] := by
        simp [encodeUtf8, Ascii.utf8EncodeChar_ascii ascii]
        rfl
      rw [← front, ← encodeUtf8_append]
      rfl
    rw [split]
    exact (goes_escape _).append ih
  | @unicode a b c d _ _ body digits _ _ ih =>
    have split : encodeUtf8 ('\\' :: 'u' :: a :: b :: c :: d :: body) = encodeUtf8 ['\\', 'u', a, b, c, d] ++
      encodeUtf8 body :=
      encodeUtf8_append ['\\', 'u', a, b, c, d] body
    rw [split]
    exact (goes_unicode digits).append ih
  | @pair a b c d _ a' b' c' d' _ _ body _ first second _ _ _ ih =>
    have split : encodeUtf8 ('\\' :: 'u' :: a :: b :: c :: d :: '\\' :: 'u' :: a' :: b' :: c' :: d' :: body) =
        encodeUtf8 ['\\', 'u', a, b, c, d] ++ (encodeUtf8 ['\\', 'u', a', b', c', d'] ++ encodeUtf8 body) := by
      rw [← encodeUtf8_append, ← encodeUtf8_append]
      rfl
    rw [split]
    exact (goes_unicode first).append ((goes_unicode second).append ih)

theorem goes_string (chars : Chars strict text body) :
    Goes (outside depth) (encodeUtf8 ('"' :: (body ++ ['"']))) (outside depth) := by
  have split : encodeUtf8 ('"' :: (body ++ ['"'])) = [quote] ++ (encodeUtf8 body ++ [quote]) := by
    have front := encodeUtf8_append ['"'] (body ++ ['"'])
    rw [encodeUtf8_append body] at front
    exact front
  rw [split]
  have opens : Goes (outside depth) [quote] (within depth) := goes_byte rfl
  have closes : Goes (within depth) [quote] (outside depth) := goes_byte rfl
  exact opens.append ((goes_chars chars).append closes)

theorem scans_flat (flat : ∀ c ∈ text, isFlat c = true) : Scans depth 0 (encodeUtf8 text) := (goes_flat flat).scans

theorem scans_blank (blank : Blank gap) : Scans depth 0 (encodeUtf8 gap) := scans_flat (blank_flat blank)

theorem flat_append {front back : List Char} (first : ∀ c ∈ front, isFlat c = true)
    (second : ∀ c ∈ back, isFlat c = true) :
    ∀ c ∈ front ++ back, isFlat c = true := by
  intro c inside
  rcases List.mem_append.mp inside with inside | inside
  · exact first c inside
  · exact second c inside

theorem scans_name (lead : Blank before) (chars : Chars strict key body) (gap : Blank beforeColon)
    (gap' : Blank afterColon) :
    Scans depth 0 (encodeUtf8 (before ++ ('"' :: (body ++ ['"']) ++ (beforeColon ++ ':' :: afterColon)))) := by
  have colon : ∀ c ∈ ':' :: afterColon, isFlat c = true := List.forall_mem_cons.mpr ⟨rfl, blank_flat gap'⟩
  rw [encodeUtf8_append, encodeUtf8_append]
  exact (scans_blank lead).append ((goes_string chars).scans.append (scans_flat (flat_append (blank_flat gap) colon)))

theorem encodeUtf8_brackets (first last : Char) {a b : UInt8} (opens : encodeUtf8 [first] = [a])
    (closes : encodeUtf8 [last] = [b])
    (body : List Char) : encodeUtf8 (first :: (body ++ [last])) = a :: (encodeUtf8 body ++ [b]) := by
  have split : encodeUtf8 (first :: (body ++ [last])) = encodeUtf8 [first] ++ encodeUtf8 (body ++ [last]) :=
    encodeUtf8_append [first] (body ++ [last])
  rw [split, encodeUtf8_append, opens, closes]
  rfl

theorem scans_spelled (spells : Spells strict part text) (inside : 1 ≤ depth) :
    Scans depth part.depth (encodeUtf8 text) := by
  induction spells generalizing depth with
  | null => exact (goes_flat (List.all_eq_true.mp (by decide))).scans
  | truth => exact (goes_flat (List.all_eq_true.mp (by decide))).scans
  | falsity => exact (goes_flat (List.all_eq_true.mp (by decide))).scans
  | number number => exact (goes_flat (number_flat number)).scans
  | string chars => exact (goes_string chars).scans
  | emptyArray blank =>
    rw [encodeUtf8_brackets '[' ']' rfl rfl]
    exact Scans.bracketed (fun _ _ => (goes_flat (blank_flat blank)).scans) (.inr rfl) (.inr rfl) inside
  | array _ ih =>
    rw [encodeUtf8_brackets '[' ']' rfl rfl]
    exact Scans.bracketed (fun _ inside => ih inside) (.inr rfl) (.inr rfl) inside
  | emptyObject blank =>
    rw [encodeUtf8_brackets '{' '}' rfl rfl]
    exact Scans.bracketed (fun _ _ => (goes_flat (blank_flat blank)).scans) (.inl rfl) (.inl rfl) inside
  | object _ ih =>
    rw [encodeUtf8_brackets '{' '}' rfl rfl]
    exact Scans.bracketed (fun _ inside => ih inside) (.inl rfl) (.inl rfl) inside
  | lastItem lead _ trail ih =>
    have all := (scans_blank lead).append ((ih inside).append (scans_blank trail))
    simpa only [← encodeUtf8_append, Part.depth, itemsDepth, Nat.zero_max, Nat.max_zero] using all
  | @nextItem _ _ _ after _ rest lead _ trail _ ih ihMore =>
    have separated : Scans depth 0 (encodeUtf8 (after ++ [','])) :=
      scans_flat (flat_append (blank_flat trail) (List.all_eq_true.mp (by decide)))
    have all := (scans_blank lead).append ((ih inside).append (separated.append (ihMore inside)))
    simpa only [← encodeUtf8_append, Part.depth, itemsDepth, Nat.zero_max, List.append_assoc,
      List.singleton_append] using all
  | @lastMember before _ body beforeColon afterColon _ _ _ lead chars gap gap' _ trail ih =>
    have named : Scans depth 0 (encodeUtf8
      (before ++ ('"' :: (body ++ ['"']) ++ (beforeColon ++ ':' :: afterColon)))) :=
      scans_name lead chars gap gap'
    have all := named.append ((ih inside).append (scans_blank trail))
    simpa only [← encodeUtf8_append, Part.depth, membersDepth, Nat.zero_max, Nat.max_zero, List.append_assoc,
      List.cons_append,
      List.nil_append] using all
  | @nextMember before _ body beforeColon afterColon _ _ after _ rest lead chars gap gap' _ trail _ ih ihMore =>
    have named : Scans depth 0 (encodeUtf8
      (before ++ ('"' :: (body ++ ['"']) ++ (beforeColon ++ ':' :: afterColon)))) :=
      scans_name lead chars gap gap'
    have separated : Scans depth 0 (encodeUtf8 (after ++ [','])) :=
      scans_flat (flat_append (blank_flat trail) (List.all_eq_true.mp (by decide)))
    have all := named.append ((ih inside).append (separated.append (ihMore inside)))
    simpa only [← encodeUtf8_append, Part.depth, membersDepth, Nat.zero_max, List.append_assoc, List.cons_append,
      List.nil_append] using all

theorem object_scans (spells : Spells strict (.value (.object members)) text) :
    ∃ body, encodeUtf8 text = openBrace :: (body ++ [closeBrace]) ∧ Scans 1 (membersDepth members) body := by
  cases spells with
  | emptyObject blank => exact ⟨_, encodeUtf8_brackets '{' '}' rfl rfl _, scans_blank blank⟩
  | object inner => exact ⟨_, encodeUtf8_brackets '{' '}' rfl rfl _, scans_spelled inner (Nat.le_refl 1)⟩

theorem sinks_object (spells : Spells strict (.value (.object members)) text)
    (deep : maxDepth < (Tree.object members).depth) :
    Sinks (outside 0) (encodeUtf8 text) := by
  obtain ⟨body, bytes, inner⟩ := object_scans spells
  have down : Goes (outside 0) [openBrace] (outside 1) := goes_byte rfl
  rw [Tree.depth] at deep
  have sinks := (down.sinks (inner.sinks (by decide) (by omega))).longer [closeBrace]
  rw [bytes]
  exact sinks

/-- An object is framed by its own braces exactly when it is not too deep. -/
theorem frames_object_iff (spells : Spells strict (.value (.object members)) text) :
    Frames (outside 0) (encodeUtf8 text) ↔ (Tree.object members).depth ≤ maxDepth := by
  constructor
  · rintro ⟨next, scanned⟩
    by_contra deep
    have sinks := sinks_object spells (Nat.not_le.mp deep)
    rw [Sinks, scanned] at sinks
    cases sinks
  · intro shallow
    obtain ⟨body, bytes, inner⟩ := object_scans spells
    have down : Goes (outside 0) [openBrace] (outside 1) := goes_byte rfl
    have ends : Frames (outside 1) [closeBrace] := ⟨outside 0, rfl⟩
    rw [Tree.depth] at shallow
    rw [bytes]
    exact down.frames ((inner.goes (by omega)).frames ends)

/-- Of a file that begins with an object nothing is framed but that, and only when it is not too deep. -/
theorem framed_of_spells (spells : Spells strict (.value (.object members)) text) (framed : Frames (outside 0) element)
    (same : encodeUtf8 text ++ tail = element ++ rest) :
    (Tree.object members).depth ≤ maxDepth ∧ encodeUtf8 text = element ∧ tail = rest := by
  obtain ⟨next, scanned⟩ := framed.longer rest
  by_cases shallow : (Tree.object members).depth ≤ maxDepth
  · obtain ⟨next', scanned'⟩ := ((frames_object_iff spells).mpr shallow).longer tail
    rw [same, scanned] at scanned'
    have used : element.length = (encodeUtf8 text).length := congrArg Scanned.used scanned'
    exact ⟨shallow, List.append_inj same used.symm⟩
  · have sinks := (sinks_object spells (Nat.not_le.mp shallow)).longer tail
    rw [Sinks, same, scanned] at sinks
    cases sinks

theorem frames_whole (spells : Spells strict (.value (.object members)) text)
    (framed : Frames (outside 0) (encodeUtf8 text ++ back)) : back = [] :=
  (framed_of_spells spells framed (List.append_nil _).symm).2.2

theorem blank_byte (blank : isBlank c = true) : ∃ b, encodeUtf8 [c] = [b] ∧ isWs b = true := by
  have which : ((c = ' ' ∨ c = '\t') ∨ c = '\n') ∨ c = '\r' := by simpa [isBlank] using blank
  rcases which with ((rfl | rfl) | rfl) | rfl
  · exact ⟨0x20, rfl, rfl⟩
  · exact ⟨0x09, rfl, rfl⟩
  · exact ⟨0x0A, rfl, rfl⟩
  · exact ⟨0x0D, rfl, rfl⟩

theorem encodeUtf8_cons (c : Char) (text : List Char) : encodeUtf8 (c :: text) = encodeUtf8 [c] ++ encodeUtf8 text :=
  encodeUtf8_append [c] text

theorem blanks_encode (blank : Blank gap) : Blanks (encodeUtf8 gap) := by
  induction gap with
  | nil => exact List.forall_mem_nil _
  | cons c rest ih =>
    obtain ⟨first, later⟩ := List.forall_mem_cons.mp blank
    obtain ⟨b, bytes, ws⟩ := blank_byte first
    rw [encodeUtf8_cons, bytes]
    exact List.forall_mem_cons.mpr ⟨ws, ih later⟩

theorem encodeUtf8_eq_nil (empty : encodeUtf8 text = []) : text = [] := by
  cases text with
  | nil => rfl
  | cons c rest =>
    rw [encodeUtf8, List.flatMap_cons] at empty
    exact absurd (List.append_eq_nil_iff.mp empty).1 String.utf8EncodeChar_ne_nil

end QueryHive.Import.JsonSource
