import QueryHive.Export.Xml
import QueryHive.Library.Ascii

/-! What a parser makes of an exported document. The document declares no prefix, so it is well formed
only without the attribute of a NULL and with names that need no prefix declared, and a parser reads line
ends its own way: the rows come back exactly when no cell is NULL and no text holds a carriage return or
one of the two characters that are not control characters and still no characters of XML. -/
namespace QueryHive.Export.Xml
open QueryHive.Library QueryHive.Store QueryHive.Library.Xml Text

/-- The tag of a cell and its text, or none for a NULL. -/
abbrev Cell := List Char × Option (List Char)

def readFile (file : List UInt8) : Option Node := (fromUtf8 file).bind fun text => readDocument text.toList

def cellOf (node : Node) : Cell := (node.name, if node.isNil then none else some node.content)

def rowsOf (root : Node) : List (List Cell) := root.elements.map fun record => record.elements.map cellOf

section
variable (floats : Buffer.FloatText)

def writtenCells (tags : List (List Char)) (row : List Value) : List Cell :=
  (tags.zip row).map fun cell => (cell.1, cleaned floats cell.2)

/-- The cells of a row with what XML can carry of their texts. -/
def carriedCells (tags : List (List Char)) (row : List Value) : List Cell :=
  (tags.zip row).map fun cell =>
    (cell.1, (Buffer.toText floats cell.2).map fun text => text.toList.filter isXmlChar)

end

def recordText (record : List Char) (cells : List Cell) : List Char :=
  [' ', ' ', '<'] ++ record ++ ['>', '\n'] ++ cells.flatMap (fun cell => renderCell cell.1 cell.2) ++
    [' ', ' ', '<', '/'] ++ record ++ ['>', '\n']

def documentText (root record : List Char) (rows : List (List Cell)) : List Char :=
  declaration ++ ['\n', '<'] ++ root ++ ['>', '\n'] ++ rows.flatMap (recordText record) ++ ['<', '/'] ++
    root ++ ['>', '\n']

section
variable (floats : Buffer.FloatText)

theorem renderXmlRow_eq (tags : List (List Char)) (record : String) (row : List Value) :
    renderXmlRow floats tags record row = recordText record.toList (writtenCells floats tags row) := by
  simp [renderXmlRow, recordText, writtenCells, List.flatMap_map]

theorem writeRows_out (rows : List (List Value)) (writer : XmlWriter) :
    rows.foldl (XmlWriter.writeRow floats) writer =
      { writer with
        out := writer.out ++
          encodeUtf8 (rows.flatMap fun row =>
            recordText writer.record.toList (writtenCells floats writer.tags row)) } := by
  induction rows generalizing writer with
  | nil => simp [encodeUtf8]
  | cons row rows ih =>
    rw [List.foldl_cons, ih, XmlWriter.writeRow, renderXmlRow_eq]
    simp [encodeUtf8]

/-- The file is the document in UTF-8. -/
theorem export_eq (columns : List Dbf.ColumnMeta) (options : Options) (rows : List (List Value)) :
    export_ floats columns options rows =
      encodeUtf8 (documentText options.xmlRoot.toList options.xmlRecord.toList
        (rows.map (writtenCells floats (columns.map fun column => xmlTag column.name)))) := by
  rw [export_, writeRows_out]
  simp [XmlWriter.finish, XmlWriter.new, documentText, encodeUtf8, List.flatMap_map]

end

theorem escape_cons (c : Char) (text : List Char) : escape (c :: text) = escapeChar c ++ escape text :=
  List.flatMap_cons

/-- An escaped character is the character itself or a reference, which is text of five letters at most. -/
theorem escapeChar_eq (c : Char) :
    (escapeChar c = [c] ∧ c ≠ '&' ∧ c ≠ '<' ∧ c ≠ '>') ∨
      ∃ name, escapeChar c = '&' :: (name ++ [';']) ∧ reference name = some c ∧
        (c = '&' ∨ c = '<' ∨ c = '>' ∨ c = '"' ∨ c = '\'') ∧
        ∀ c ∈ name, c.isAlphanum = true ∨ c = '#' := by
  unfold escapeChar
  split
  · next same => exact .inr ⟨['a', 'm', 'p'], rfl, same ▸ by decide, by simp [same], by simp⟩
  split
  · next same => exact .inr ⟨['l', 't'], rfl, same ▸ by decide, by simp [same], by simp⟩
  split
  · next same => exact .inr ⟨['g', 't'], rfl, same ▸ by decide, by simp [same], by simp⟩
  split
  · next same => exact .inr ⟨['q', 'u', 'o', 't'], rfl, same ▸ by decide, by simp [same], by simp⟩
  split
  · next same => exact .inr ⟨['#', 'x', '2', '7'], rfl, same ▸ by decide, by simp [same], by simp⟩
  · exact .inl ⟨rfl, by assumption, by assumption, by assumption⟩

theorem escapeChar_plain {c other : Char} (mem : other ∈ escapeChar c) (different : other ≠ c) :
    other.isAlphanum = true ∨ other ∈ ['&', '#', ';'] := by
  rcases escapeChar_eq c with ⟨same, _⟩ | ⟨name, shape, _, _, plain⟩
  · exact absurd (List.mem_singleton.mp (same ▸ mem)) different
  · rw [shape, List.mem_cons, List.mem_append, List.mem_singleton] at mem
    rcases mem with rfl | inside | rfl
    · simp
    · rcases plain other inside with letter | rfl
      · exact .inl letter
      · simp
    · simp

theorem bracket_not_mem_escape (bracket : other = '<' ∨ other = '>') (text : List Char) : other ∉ escape text := by
  simp only [escape, List.mem_flatMap, not_exists, not_and]
  intro c _ mem
  rcases escapeChar_eq c with ⟨same, _, notOpen, notClose⟩ | ⟨name, shape, _, _, letters⟩
  · have itself := (List.mem_singleton.mp (same ▸ mem)).symm
    rcases bracket with rfl | rfl
    · exact notOpen itself
    · exact notClose itself
  · rw [shape, List.mem_cons, List.mem_append, List.mem_singleton] at mem
    rcases bracket with rfl | rfl
    · exact absurd (letters '<' (by simpa using mem)) (by decide)
    · exact absurd (letters '>' (by simpa using mem)) (by decide)

theorem decode_escape (text : List Char) : decode (escape text) = some text := by
  unfold decode
  induction text with
  | nil => rfl
  | cons c rest ih =>
    rw [escape_cons]
    rcases escapeChar_eq c with ⟨same, plain, _⟩ | ⟨name, shape, means, _, letters⟩
    · rw [same, List.singleton_append, decode_plain plain, ih]
      rfl
    · have inside : ';' ∉ name := fun mem => absurd (letters _ mem) (by decide)
      rw [shape, List.cons_append, List.append_assoc, List.singleton_append, decode_reference inside means, ih]
      rfl

theorem escape_head (text : List Char) : (escape text).head? = some '\n' → text.head? = some '\n' := by
  cases text with
  | nil => exact id
  | cons c rest =>
    rw [escape_cons]
    rcases escapeChar_eq c with ⟨same, _⟩ | ⟨name, shape, _⟩
    · rw [same]
      exact id
    · rw [shape]
      intro impossible
      exact absurd (Option.some.inj impossible) (by decide)

theorem normalize_escape (text : List Char) : normalizeLineEnds (escape text) = escape (normalizeLineEnds text) := by
  induction text using normalizeLineEnds.induct with
  | case1 rest ih => simp [escape_cons, escapeChar, normalizeLineEnds, ih]
  | case2 rest notFeed ih =>
    have apart : ∀ more, escape rest = '\n' :: more → False := by
      intro more same
      have first := escape_head rest (by rw [same]; rfl)
      obtain ⟨more, same⟩ := List.head?_eq_some_iff.mp first
      exact notFeed more same
    rw [normalizeLineEnds.eq_2 _ notFeed, escape_cons, escape_cons, ← ih]
    exact normalizeLineEnds.eq_2 _ apart
  | case3 c rest _ other ih =>
    have plain : '\r' ∉ escapeChar c := fun mem =>
      absurd (escapeChar_plain mem (Ne.symm other)) (by decide)
    rw [normalize_cons other, escape_cons, escape_cons, normalize_append_plain plain, ih]
  | case4 => rfl

theorem escapeChar_xml (c : Char) : (escapeChar c).all isXmlChar = isXmlChar c := by
  rcases escapeChar_eq c with ⟨same, _⟩ | ⟨name, shape, _, which, letters⟩
  · rw [same, List.all_cons, List.all_nil, Bool.and_true]
  · rcases which with rfl | rfl | rfl | rfl | rfl <;> decide

theorem escape_xml (text : List Char) : (escape text).all isXmlChar = text.all isXmlChar := by
  induction text with
  | nil => rfl
  | cons c rest ih => rw [escape_cons, List.all_append, escapeChar_xml, ih, List.all_cons]

theorem letter_start (letter : c.isAlpha = true) : isNameStart c = true := by
  have cases : (65 ≤ c.toNat ∧ c.toNat ≤ 90) ∨ (97 ≤ c.toNat ∧ c.toNat ≤ 122) := by
    change (decide (c.val ≥ 65 ∧ c.val ≤ 90) || decide (c.val ≥ 97) && decide (c.val ≤ 122)) = true at letter
    simp only [ge_iff_le, UInt32.le_iff_toNat_le, Bool.or_eq_true, Bool.and_eq_true, decide_eq_true_eq] at letter
    exact letter
  rcases cases with capital | low
  · simp [isNameStart, inRanges, nameStartRanges, capital]
  · simp [isNameStart, inRanges, nameStartRanges, low]

theorem digit_name (digit : c.isDigit = true) : isNameChar c = true := by
  have range : 48 ≤ c.toNat ∧ c.toNat ≤ 57 := by
    simp only [Char.isDigit, ge_iff_le, UInt32.le_iff_toNat_le, Bool.and_eq_true, decide_eq_true_eq] at digit
    exact digit
  simp [isNameChar, inRanges, nameRanges, range]

theorem tagChar_name (tag : isTagChar c = true) : isNameChar c = true ∧ c ≠ ':' := by
  constructor
  · simp only [isTagChar, Char.isAlphanum, Bool.or_eq_true, decide_eq_true_eq] at tag
    rcases tag with (((letter | digit) | rfl) | rfl) | rfl
    · simp [isNameChar, letter_start letter]
    · exact digit_name digit
    all_goals decide
  · rintro rfl
    exact absurd tag (by decide)

theorem xmlTag_name (name : String) : isNcName (xmlTag name) = true := by
  have chars : ∀ c ∈ name.toList.map (fun c => if isTagChar c then c else '_'), isNameChar c = true ∧ c ≠ ':' := by
    simp only [List.mem_map, forall_exists_index, and_imp]
    rintro _ c _ rfl
    split
    · next tag => exact tagChar_name tag
    · decide
  have ncName : ∀ tag : List Char, (∀ c ∈ tag, isNameChar c = true ∧ c ≠ ':') → tag.head?.any isNameStart = true →
      isNcName tag = true := by
    intro tag chars start
    have noColon : ':' ∉ tag := fun mem => (chars _ mem).2 rfl
    simp only [isNcName, isName, start, Bool.true_and, Bool.and_eq_true, List.all_eq_true]
    exact ⟨fun c mem => (chars c mem).1, by simpa using noColon⟩
  unfold xmlTag
  dsimp only
  split
  · next safe =>
    apply ncName _ chars
    obtain ⟨c, first, start⟩ := Option.any_eq_true _ _ |>.mp safe
    rw [first]
    rcases Bool.or_eq_true_iff.mp start with letter | underscore
    · exact letter_start letter
    · rw [of_decide_eq_true underscore]
      decide
  · apply ncName _ _ rfl
    intro c mem
    rcases List.mem_cons.mp mem with rfl | inside
    · decide
    · exact chars c inside

theorem ncName_name (valid : isNcName name = true) : isName name = true := (Bool.and_eq_true_iff.mp valid).1

theorem ncName_bound (valid : isNcName name = true) : nameBound [] name = true := by
  have noColon : ':' ∉ name := by simpa using (Bool.and_eq_true_iff.mp valid).2
  have whole : name.splitOn ':' = [name] := List.splitOnP_eq_singleton fun c inside => by
    simpa using fun same : c = ':' => noColon (same ▸ inside)
  rw [nameBound, whole]
  exact valid

def cellTokens : Cell → List Token
  | (tag, none) => [.text ['\n', ' ', ' ', ' ', ' '], .tag (tag ++ " xsi:nil=\"true\"/".toList)]
  | (tag, some text) => [.text ['\n', ' ', ' ', ' ', ' '], .tag tag, .text (escape text), .tag ('/' :: tag)]

def cellNodes : Cell → List Node
  | (_, none) => []
  | (tag, some text) => [.text ['\n', ' ', ' ', ' ', ' '], .element tag [] [] [.text text]]

def readCell (cell : Cell) : Cell := (cell.1, cell.2.map normalizeLineEnds)

theorem normalize_cell (valid : isNcName cell.1 = true) (rest : List Char) :
    normalizeLineEnds (renderCell cell.1 cell.2 ++ rest) =
      renderCell (readCell cell).1 (readCell cell).2 ++ normalizeLineEnds rest := by
  obtain ⟨tag, text⟩ := cell
  have noReturn : '\r' ∉ tag := not_mem_name (ncName_name valid) (by decide)
  cases text with
  | none =>
    refine normalize_append_plain ?_ _
    simpa [renderCell] using noReturn
  | some text =>
    simp only [renderCell, readCell, Option.map_some, List.append_assoc, ← normalize_escape]
    rw [normalize_append_plain (by decide), normalize_append_plain noReturn, normalize_append_plain (by decide),
      normalize_append (by simp), normalize_append_plain (by decide), normalize_append_plain noReturn,
      normalize_append_plain (by decide)]

theorem tokens_cell (valid : isNcName cell.1 = true) (rest : List Char) :
    tokensFrom .text ['\n'] (renderCell cell.1 cell.2 ++ rest) =
      (tokensFrom .text ['\n'] rest).map (cellTokens cell ++ ·) := by
  obtain ⟨tag, text⟩ := cell
  have names : ∀ c ∈ tag, isNameChar c = true ∨ c = '/' := fun c mem => .inl (name_chars (ncName_name valid) c mem)
  have closing : ∀ c ∈ '/' :: tag, isNameChar c = true ∨ c = '/' := by
    simpa using fun c mem => names c mem
  have indent : ∀ rest, tokensFrom .text ['\n'] ([' ', ' ', ' ', ' ', '<'] ++ rest) =
      tokensFrom .text ['\n', ' ', ' ', ' ', ' '] ('<' :: rest) := fun _ => rfl
  cases text with
  | none =>
    simp only [renderCell, List.append_assoc]
    rw [indent, tokensFrom, if_pos rfl, tokens_within names]
    simp [tokensFrom, cellTokens, Function.comp_def]
  | some text =>
    simp only [renderCell, List.append_assoc]
    rw [indent, show tag ++ (['>'] ++ (escape text ++ (['<', '/'] ++ (tag ++ (['>', '\n'] ++ rest))))) =
      tag ++ '>' :: (escape text ++ ('<' :: (('/' :: tag) ++ '>' :: ('\n' :: rest)))) by simp,
      tokens_tag names, tokens_text (bracket_not_mem_escape (.inl rfl) text), tokens_tag closing,
      show tokensFrom .text [] ('\n' :: rest) = tokensFrom .text ['\n'] rest by simp [tokensFrom]]
    simp [cellTokens, Function.comp_def]

theorem step_nil (valid : isNcName tag = true) (frame : Xml.Frame) (bare : frame.bindings = []) :
    Xml.step ⟨frame :: stack, root⟩ (.tag (tag ++ " xsi:nil=\"true\"/".toList)) = none := by
  have chars := name_chars (ncName_name valid)
  obtain ⟨c, rest, shape, other⟩ := name_cons (ncName_name valid)
  have parsed : parseTag (tag ++ " xsi:nil=\"true\"/".toList) =
      some (.empty tag [("xsi:nil".toList, "true".toList)]) := by
    unfold parseTag
    split
    next same =>
      rw [shape, List.cons_append] at same
      exact absurd (List.cons.inj same).1 other
    · rw [behindName, List.takeWhile_append_of_pos chars, List.dropWhile_append_of_pos chars,
        show " xsi:nil=\"true\"/".toList.takeWhile isNameChar =
          [] by decide +kernel, List.append_nil, if_pos (ncName_name valid)]
      rfl
  have unbound : attributesBound [] [("xsi:nil".toList, "true".toList)] = false := by decide +kernel
  have undeclared : declared [("xsi:nil".toList, "true".toList)] = [] := by decide +kernel
  have refused : (⟨frame :: stack, root⟩ : Xml.Progress).frame tag [("xsi:nil".toList, "true".toList)] = none := by
    have bindings : declared [("xsi:nil".toList, "true".toList)] ++
      (⟨frame :: stack, root⟩ : Xml.Progress).bindings = [] := by
      rw [undeclared, List.nil_append]
      exact bare
    rw [Xml.Progress.frame, bindings, unbound, Bool.and_false]
    rfl
  simp only [Xml.step, parsed, refused, Option.bind_eq_bind, Option.bind_some, Option.bind_none]

theorem fold_cell (valid : isNcName cell.1 = true) (frame : Xml.Frame) (bare : frame.bindings = []) :
    (cellTokens cell).foldlM Xml.step ⟨frame :: stack, root⟩ =
      if cell.2.isSome = true then some ⟨{ frame with children := frame.children ++ cellNodes cell } :: stack, root⟩
      else none := by
  obtain ⟨tag, text⟩ := cell
  have name := ncName_name valid
  have indent : Xml.step ⟨frame :: stack, root⟩ (.text ['\n', ' ', ' ', ' ', ' ']) =
      some ⟨{ frame with children := frame.children ++ [.text ['\n', ' ', ' ', ' ', ' ']] } :: stack, root⟩ :=
    step_text (by decide) rfl
  cases text with
  | none =>
    have refused : Xml.step ⟨{ frame with children := frame.children ++
      [.text ['\n', ' ', ' ', ' ', ' ']] } :: stack, root⟩
        (.tag (tag ++ " xsi:nil=\"true\"/".toList)) = none := step_nil valid _ bare
    rw [cellTokens, List.foldlM_cons, indent, Option.bind_eq_bind, Option.bind_some, List.foldlM_cons, refused]
    rfl
  | some text =>
    rw [cellTokens, List.foldlM_cons, indent, Option.bind_eq_bind, Option.bind_some, List.foldlM_cons,
      step_opens name (.inl (by simp)) (by simpa [Xml.Progress.bindings] using bare), if_pos (ncName_bound valid),
      Option.bind_eq_bind, Option.bind_some, List.foldlM_cons,
      step_text (bracket_not_mem_escape (.inr rfl) text) (decode_escape text), Option.bind_eq_bind, Option.bind_some,
      List.foldlM_cons, step_closes name]
    simp [cellNodes, Xml.Progress.add]

section
variable {record : List Char} (named : isName record = true)

def recordTokens (record : List Char) (cells : List Cell) : List Token :=
  [.text ['\n', ' ', ' '], .tag record] ++ (cells.flatMap cellTokens ++ [.text ['\n', ' ', ' '], .tag ('/' :: record)])

def recordNodes (record : List Char) (cells : List Cell) : List Node :=
  [.text ['\n', ' ', ' '], .element record [] [] (cells.flatMap cellNodes ++ [.text ['\n', ' ', ' ']])]

def goodRecord (record : List Char) (cells : List Cell) : Bool := nameBound [] record && cells.all (·.2.isSome)

include named

theorem normalize_record (valid : ∀ cell ∈ cells, isNcName cell.1 = true) (rest : List Char) :
    normalizeLineEnds (recordText record cells ++ rest) =
      recordText record (cells.map readCell) ++ normalizeLineEnds rest := by
  have noReturn : '\r' ∉ record := not_mem_name named (by decide)
  have pieces : ∀ rest, normalizeLineEnds (cells.flatMap (fun cell => renderCell cell.1 cell.2) ++ rest) =
      cells.flatMap (fun cell => renderCell (readCell cell).1 (readCell cell).2) ++ normalizeLineEnds rest :=
    normalize_items fun cell mem => normalize_cell (valid cell mem)
  simp only [recordText, List.append_assoc]
  rw [normalize_append_plain (by decide), normalize_append_plain noReturn, normalize_append_plain (by decide), pieces,
    normalize_append_plain (by decide), normalize_append_plain noReturn, normalize_append_plain (by decide),
      List.flatMap_map]

theorem tokens_record (valid : ∀ cell ∈ cells, isNcName cell.1 = true) (rest : List Char) :
    tokensFrom .text ['\n'] (recordText record cells ++ rest) =
      (tokensFrom .text ['\n'] rest).map (recordTokens record cells ++ ·) := by
  have opening : ∀ c ∈ record, isNameChar c = true ∨ c = '/' := fun c mem => .inl (name_chars named c mem)
  have closing : ∀ c ∈ '/' :: record, isNameChar c = true ∨ c = '/' := by
    simpa using fun c mem => opening c mem
  have pieces : ∀ rest, tokensFrom .text ['\n'] (cells.flatMap (fun cell => renderCell cell.1 cell.2) ++ rest) =
      (tokensFrom .text ['\n'] rest).map (cells.flatMap cellTokens ++ ·) :=
    tokens_items fun cell mem => tokens_cell (valid cell mem)
  have feed : ∀ rest, tokensFrom .text [] ('\n' :: rest) = tokensFrom .text ['\n'] rest := fun _ => rfl
  have indent : ∀ rest, tokensFrom .text ['\n'] (' ' :: ' ' :: '<' :: rest) =
      tokensFrom .text ['\n', ' ', ' '] ('<' :: rest) := fun _ => rfl
  have shape : recordText record cells ++ rest =
      ' ' :: ' ' :: '<' :: (record ++ '>' :: '\n' :: (cells.flatMap (fun cell => renderCell cell.1 cell.2) ++
        (' ' :: ' ' :: '<' :: (('/' :: record) ++ '>' :: ('\n' :: rest))))) := by
    simp [recordText]
  rw [shape, indent, tokens_tag opening, feed, pieces, indent, tokens_tag closing, feed]
  simp [recordTokens, Function.comp_def]

theorem fold_record (valid : ∀ cell ∈ cells, isNcName cell.1 = true) (frame : Xml.Frame) (bare : frame.bindings = []) :
    (recordTokens record cells).foldlM Xml.step ⟨frame :: stack, root⟩ =
      if goodRecord record cells = true then
        some ⟨{ frame with children := frame.children ++ recordNodes record cells } :: stack, root⟩
      else none := by
  have indent : ∀ frame stack, Xml.step ⟨frame :: stack, root⟩ (.text ['\n', ' ', ' ']) =
      some ⟨{ frame with children := frame.children ++ [.text ['\n', ' ', ' ']] } :: stack, root⟩ :=
    fun _ _ => step_text (by decide) rfl
  rw [recordTokens, List.foldlM_append, List.foldlM_cons, indent, Option.bind_eq_bind, Option.bind_some,
    List.foldlM_cons,
    step_opens named (.inl (by simp)) (by simpa [Xml.Progress.bindings] using bare)]
  by_cases bound : nameBound [] record = true
  · have pieces : (cells.flatMap cellTokens).foldlM Xml.step
        ⟨⟨record, [], [], []⟩ :: { frame with children := frame.children ++ [.text ['\n', ' ', ' ']] } :: stack, root⟩ =
          if (cells.all fun cell => cell.2.isSome) = true then
            some ⟨⟨record, [], [], cells.flatMap cellNodes⟩ ::
              { frame with children := frame.children ++ [.text ['\n', ' ', ' ']] } :: stack, root⟩
          else none := by
      simpa using fold_items (fun cell mem => fold_cell (valid cell mem)) ⟨record, [], [], []⟩ rfl
    rw [if_pos bound, Option.bind_eq_bind, Option.bind_some, List.foldlM_nil, Option.pure_def, Option.bind_some,
      List.foldlM_append, pieces, goodRecord, bound, Bool.true_and]
    split
    · rw [Option.bind_eq_bind, Option.bind_some, List.foldlM_cons, indent, Option.bind_eq_bind, Option.bind_some,
        List.foldlM_cons, step_closes named]
      simp [recordNodes, Xml.Progress.add]
    · rfl
  · simp [goodRecord, bound]

end

theorem goodRecord_read (record : List Char) (rows : List (List Cell)) :
    (rows.map (List.map readCell)).all (goodRecord record) = rows.all (goodRecord record) := by
  rw [List.all_map]
  congr 1
  funext cells
  simp [goodRecord, readCell, Function.comp_def]

/-- What a parser makes of the document of these rows, when it refuses nothing. -/
def documentNode (root record : List Char) (rows : List (List Cell)) : Node :=
  .element root [] [] (rows.flatMap (recordNodes record) ++ [.text ['\n']])

def documentTokens (root record : List Char) (rows : List (List Cell)) : List Token :=
  [.text ['\n'], .tag root] ++ (rows.flatMap (recordTokens record) ++ [.text ['\n'], .tag ('/' :: root), .text ['\n']])

theorem splitDeclaration_at (clear : '?' ∉ content) (rest : List Char) :
    splitDeclaration (content ++ '?' :: '>' :: rest) = some (content, rest) := by
  induction content with
  | nil => rfl
  | cons c content ih =>
    obtain ⟨other, clear⟩ := not_or.mp (mt List.mem_cons.mpr clear)
    rw [List.cons_append, splitDeclaration, ih clear]
    · rfl
    · rintro _ rfl
      exact absurd rfl other

theorem behindDeclaration_at (split : splitDeclaration text = some (content, behind))
    (parsed : parseAttributes (content.length + 1) content =
      some [("version".toList, "1.0".toList), ("encoding".toList, "UTF-8".toList)]) :
    behindDeclaration ('<' :: '?' :: 'x' :: 'm' :: 'l' :: text) = some behind := by
  simp only [behindDeclaration, split, Option.bind_eq_bind, Option.bind_some, parsed, and_self, if_true]

/-- What the prologue says. -/
def versions : List Char := " version=\"1.0\" encoding=\"UTF-8\"".toList

theorem behindDeclaration_eq (rest : List Char) : behindDeclaration (declaration ++ rest) = some rest := by
  have shape : declaration = '<' :: '?' :: 'x' :: 'm' :: 'l' :: (versions ++ ['?', '>']) := by decide +kernel
  have parsed : parseAttributes (versions.length + 1) versions =
      some [("version".toList, "1.0".toList), ("encoding".toList, "UTF-8".toList)] := by decide +kernel
  have split := splitDeclaration_at (by decide +kernel : '?' ∉ versions) rest
  rw [shape, List.cons_append, List.cons_append, List.cons_append, List.cons_append, List.cons_append,
    List.append_assoc]
  exact behindDeclaration_at split parsed

section
variable {root record : List Char} (rootNamed : isName root = true) (recordNamed : isName record = true)
include rootNamed recordNamed

theorem normalize_document (valid : ∀ cells ∈ rows, ∀ cell ∈ cells, isNcName cell.1 = true) :
    normalizeLineEnds (documentText root record rows) = documentText root record (rows.map (List.map readCell)) := by
  have noReturn : '\r' ∉ root := not_mem_name rootNamed (by decide)
  have pieces : ∀ rest, normalizeLineEnds (rows.flatMap (recordText record) ++ rest) =
      rows.flatMap (fun cells => recordText record (cells.map readCell)) ++ normalizeLineEnds rest :=
    normalize_items fun cells mem => normalize_record recordNamed (valid cells mem)
  simp only [documentText, List.append_assoc]
  rw [normalize_append_plain (by decide), normalize_append_plain (by decide), normalize_append_plain noReturn,
    normalize_append_plain (by decide), pieces, normalize_append_plain (by decide), normalize_append_plain noReturn,
    List.flatMap_map]
  rfl

theorem tokens_document (valid : ∀ cells ∈ rows, ∀ cell ∈ cells, isNcName cell.1 = true) :
    tokensFrom .text [] (['\n', '<'] ++ root ++ ['>', '\n'] ++ rows.flatMap (recordText record) ++ ['<', '/'] ++ root ++
      ['>', '\n']) = some (documentTokens root record rows) := by
  have opening : ∀ c ∈ root, isNameChar c = true ∨ c = '/' := fun c mem => .inl (name_chars rootNamed c mem)
  have closing : ∀ c ∈ '/' :: root, isNameChar c = true ∨ c = '/' := by
    simpa using fun c mem => opening c mem
  have pieces : ∀ rest, tokensFrom .text ['\n'] (rows.flatMap (recordText record) ++ rest) =
      (tokensFrom .text ['\n'] rest).map (rows.flatMap (recordTokens record) ++ ·) :=
    tokens_items fun cells mem => tokens_record recordNamed (valid cells mem)
  have feed : ∀ rest, tokensFrom .text [] ('\n' :: rest) = tokensFrom .text ['\n'] rest := fun _ => rfl
  have shape : ['\n', '<'] ++ root ++ ['>', '\n'] ++ rows.flatMap (recordText record) ++ ['<', '/'] ++
    root ++ ['>', '\n'] =
      '\n' :: '<' :: (root ++ '>' :: '\n' :: (rows.flatMap (recordText record) ++
        ('<' :: (('/' :: root) ++ '>' :: ['\n'])))) := by
    simp
  rw [shape, feed, tokens_tag opening, feed, pieces, tokens_tag closing, feed]
  simp [documentTokens, tokensFrom]

theorem fold_document (valid : ∀ cells ∈ rows, ∀ cell ∈ cells, isNcName cell.1 = true) :
    ((documentTokens root record rows).foldlM Xml.step ⟨[], none⟩).bind Xml.Progress.finish =
      if nameBound [] root = true ∧ rows.all (goodRecord record) = true then some (documentNode root record rows)
      else none := by
  have outside : ∀ node, Xml.step ⟨[], node⟩ (.text ['\n']) = some ⟨[], node⟩ := fun _ => rfl
  have feed : ∀ frame, Xml.step ⟨[frame], none⟩ (.text ['\n']) =
      some ⟨[{ frame with children := frame.children ++ [.text ['\n']] }], none⟩ :=
    fun _ => step_text (by decide) rfl
  have pieces : (rows.flatMap (recordTokens record)).foldlM Xml.step ⟨[⟨root, [], [], []⟩], none⟩ =
      if rows.all (goodRecord record) = true then
        some ⟨[⟨root, [], [], rows.flatMap (recordNodes record)⟩], none⟩
      else none := by
    simpa using fold_items (fun cells mem => fold_record recordNamed (valid cells mem)) ⟨root, [], [], []⟩ rfl
  rw [documentTokens, List.foldlM_append, List.foldlM_cons, outside, Option.bind_eq_bind, Option.bind_some,
    List.foldlM_cons,
    step_opens rootNamed (.inr rfl) rfl]
  by_cases bound : nameBound [] root = true
  · rw [if_pos bound, Option.bind_eq_bind, Option.bind_some, List.foldlM_nil, Option.pure_def, Option.bind_some,
      List.foldlM_append, pieces]
    by_cases good : rows.all (goodRecord record) = true
    · rw [if_pos good, if_pos ⟨bound, good⟩, Option.bind_eq_bind, Option.bind_some, List.foldlM_cons, feed,
        Option.bind_eq_bind, Option.bind_some, List.foldlM_cons, step_closes rootNamed]
      simp [Xml.Progress.add, outside, documentNode, Xml.Progress.finish]
    · rw [if_neg good, if_neg (fun both => good both.2)]
      rfl
  · rw [if_neg bound, if_neg (fun both => bound both.1)]
    rfl

/-- A document is read exactly when it has characters of XML, names that need no declaration, and no NULL. -/
theorem readDocument_eq (valid : ∀ cells ∈ rows, ∀ cell ∈ cells, isNcName cell.1 = true) :
    readDocument (documentText root record rows) =
      if (documentText root record rows).all isXmlChar = true ∧ nameBound [] root = true ∧
        rows.all (goodRecord record) = true
      then some (documentNode root record (rows.map (List.map readCell)))
      else none := by
  have validRead : ∀ cells ∈ rows.map (List.map readCell), ∀ cell ∈ cells, isNcName cell.1 = true := by
    simp only [List.mem_map, forall_exists_index, and_imp]
    rintro _ cells mem rfl cell inside
    obtain ⟨cell, written, rfl⟩ := List.mem_map.mp inside
    exact valid cells mem cell written
  have read : behindDeclaration (normalizeLineEnds (documentText root record rows)) =
      some (['\n', '<'] ++ root ++ ['>', '\n'] ++ (rows.map (List.map readCell)).flatMap
        (recordText record) ++ ['<', '/'] ++
        root ++ ['>', '\n']) := by
    rw [normalize_document rootNamed recordNamed valid, documentText]
    simp only [List.append_assoc]
    exact behindDeclaration_eq _
  have folded := fold_document rootNamed recordNamed validRead
  rw [goodRecord_read] at folded
  rw [readDocument]
  by_cases chars : (documentText root record rows).all isXmlChar = true
  · rw [if_pos chars, read]
    simp only [Option.bind_eq_bind, Option.bind_some, tokens_document rootNamed recordNamed validRead, chars, true_and]
    exact folded
  · rw [if_neg chars, if_neg fun both => chars both.1]

end

theorem elements_records (rows : List (List Cell)) :
    (rows.flatMap (recordNodes record)).filter Node.isElement =
      rows.map fun cells => .element record [] [] (cells.flatMap cellNodes ++ [.text ['\n', ' ', ' ']]) := by
  induction rows with
  | nil => rfl
  | cons cells rows ih =>
    rw [List.flatMap_cons, List.filter_append, ih]
    rfl

theorem elements_cells {cells : List Cell} (filled : cells.all (·.2.isSome) = true) :
    ((cells.flatMap cellNodes).filter Node.isElement).map cellOf = cells := by
  induction cells with
  | nil => rfl
  | cons cell cells ih =>
    obtain ⟨tag, text⟩ := cell
    obtain ⟨present, later⟩ := Bool.and_eq_true_iff.mp filled
    obtain ⟨text, rfl⟩ := Option.isSome_iff_exists.mp present
    have read : cellOf (.element tag [] [] [.text text]) = (tag, some text) := by
      simp [cellOf, Node.name, Node.isNil, Node.content]
    rw [List.flatMap_cons, List.filter_append, List.map_append, ih later]
    exact congrArg (· :: cells) read

theorem rowsOf_documentNode (filled : rows.all (goodRecord record) = true) :
    rowsOf (documentNode root record rows) = rows := by
  have elements : (documentNode root record rows).elements =
      rows.map fun cells => .element record [] [] (cells.flatMap cellNodes ++ [.text ['\n', ' ', ' ']]) := by
    rw [documentNode, Node.elements, List.filter_append, elements_records]
    exact List.append_nil _
  rw [rowsOf, elements, List.map_map]
  refine (List.map_congr_left fun cells mem => ?_).trans (List.map_id _)
  have texts := (Bool.and_eq_true_iff.mp (List.all_eq_true.mp filled cells mem)).2
  rw [Function.comp_apply, Node.elements, List.filter_append, List.map_append, elements_cells texts]
  exact List.append_nil _

theorem isXmlChar_iff (c : Char) :
    isXmlChar c = true ↔ isXmlControl c = false ∧ c ≠ Char.ofNat 0xFFFE ∧ c ≠ Char.ofNat 0xFFFF := by
  have range : c.toNat < 0xD800 ∨ (0xDFFF < c.toNat ∧ c.toNat < 0x110000) := c.valid
  have literal : ∀ other : Char, c = other ↔ c.toNat = other.toNat := fun other => Char.toNat_inj.symm
  simp only [ne_eq, isXmlChar, isXmlControl, Bool.or_eq_true, Bool.and_eq_true, decide_eq_true_eq, beq_iff_eq, literal,
    Bool.or_eq_false_iff, Bool.and_eq_false_iff, decide_eq_false_iff_not]
  have tab : '\t'.toNat = 9 := rfl
  have feed : '\n'.toNat = 10 := rfl
  have back : '\r'.toNat = 13 := rfl
  have first : (Char.ofNat 0xFFFE).toNat = 0xFFFE := rfl
  have second : (Char.ofNat 0xFFFF).toNat = 0xFFFF := rfl
  omega

/-- A text is carried whole exactly when it has no carriage return and neither of the two characters. -/
theorem text_carried_iff (text : List Char) :
    ((text.filter (!isXmlControl ·)).all isXmlChar = true ∧
        normalizeLineEnds (text.filter (!isXmlControl ·)) = text.filter isXmlChar) ↔
      '\r' ∉ text ∧ Char.ofNat 0xFFFE ∉ text ∧ Char.ofNat 0xFFFF ∉ text := by
  have chars : (text.filter (!isXmlControl ·)).all isXmlChar = true ↔ Char.ofNat 0xFFFE ∉ text ∧
    Char.ofNat 0xFFFF ∉ text := by
    simp only [List.all_eq_true, List.mem_filter, Bool.not_eq_true', isXmlChar_iff, and_imp]
    constructor
    · intro all
      exact ⟨fun mem => (all _ mem (by decide)).2.1 rfl, fun mem => (all _ mem (by decide)).2.2 rfl⟩
    · rintro ⟨first, second⟩ c mem control
      exact ⟨control, fun same => first (same ▸ mem), fun same => second (same ▸ mem)⟩
  have returns : '\r' ∈ text.filter (!isXmlControl ·) ↔ '\r' ∈ text := by
    rw [List.mem_filter]
    exact and_iff_left (by decide)
  rw [chars, and_comm]
  refine and_congr_left fun clear => ?_
  have same : text.filter isXmlChar = text.filter (!isXmlControl ·) := by
    refine List.filter_congr fun c mem => ?_
    rw [Bool.eq_iff_iff, isXmlChar_iff, Bool.not_eq_true']
    exact and_iff_left ⟨fun same => clear.1 (same ▸ mem), fun same => clear.2 (same ▸ mem)⟩
  rw [same, normalize_eq_self_iff, returns]

theorem renderCell_xml {cell : Cell} (valid : isNcName cell.1 = true) :
    (renderCell cell.1 cell.2).all isXmlChar = cell.2.all fun text => text.all isXmlChar := by
  obtain ⟨tag, text⟩ := cell
  have name : tag.all isXmlChar = true :=
    List.all_eq_true.mpr fun c mem => isXmlChar_of_name c (name_chars (ncName_name valid) c mem)
  have indent : [' ', ' ', ' ', ' ', '<'].all isXmlChar = true := by decide
  cases text with
  | none =>
    have behind : " xsi:nil=\"true\"/>\n".toList.all isXmlChar = true := by decide
    simp only [renderCell, List.all_append, name, indent, behind, Option.all_none, Bool.and_self]
  | some text =>
    have closing : ['<', '/'].all isXmlChar = true := by decide
    have opened : ['>'].all isXmlChar = true := by decide
    have closed : ['>', '\n'].all isXmlChar = true := by decide
    simp only [renderCell, List.all_append, name, indent, closing, opened, closed, escape_xml, Option.all_some,
      Bool.and_true,
      Bool.true_and]

theorem documentText_xml (rootNamed : isName root = true) (recordNamed : isName record = true)
    (valid : ∀ cells ∈ rows, ∀ cell ∈ cells, isNcName cell.1 = true) :
    (documentText root record rows).all isXmlChar = true ↔
      ∀ cells ∈ rows, ∀ cell ∈ cells, (cell.2.all fun text => text.all isXmlChar) = true := by
  have names : ∀ {name}, isName name = true → name.all isXmlChar = true := fun named =>
    List.all_eq_true.mpr fun c mem => isXmlChar_of_name c (name_chars named c mem)
  have pieces : (declaration.all isXmlChar = true ∧ ['\n', '<'].all isXmlChar = true ∧
    ['>', '\n'].all isXmlChar = true ∧
      ['<', '/'].all isXmlChar = true ∧ [' ', ' ', '<'].all isXmlChar = true ∧
      [' ', ' ', '<', '/'].all isXmlChar = true) := by
    decide
  obtain ⟨front, opens, closed, closes, indent, outdent⟩ := pieces
  have records : ∀ cells ∈ rows, (recordText record cells).all isXmlChar =
      cells.all fun cell => cell.2.all fun text => text.all isXmlChar := by
    intro cells mem
    simp only [recordText, List.all_append, indent, outdent, names recordNamed, closed, List.all_flatMap, Bool.true_and,
      Bool.and_true]
    rw [Bool.eq_iff_iff, List.all_eq_true, List.all_eq_true]
    exact forall₂_congr fun cell inside => by rw [renderCell_xml (valid cells mem cell inside)]
  simp only [documentText, List.all_append, front, opens, closed, closes, names rootNamed, List.all_flatMap,
    Bool.true_and,
    Bool.and_true, List.all_eq_true]
  refine forall₂_congr fun cells mem => ?_
  rw [← List.all_eq_true, records cells mem, List.all_eq_true]

section
variable (floats : Buffer.FloatText)

/-- A value whose text a parser gives back: it has one, without a carriage return and without the two
characters that are no characters of XML and still no control characters. -/
def Carried (value : Value) : Prop :=
  ∃ text, Buffer.toText floats value = some text ∧
    '\r' ∉ text.toList ∧ Char.ofNat 0xFFFE ∉ text.toList ∧ Char.ofNat 0xFFFF ∉ text.toList

theorem readFile_export (columns : List Dbf.ColumnMeta) (options : Options) (rows : List (List Value)) :
    readFile (export_ floats columns options rows) =
      readDocument (documentText options.xmlRoot.toList options.xmlRecord.toList
        (rows.map (writtenCells floats (columns.map fun column => xmlTag column.name)))) := by
  rw [readFile, export_eq, ← Ascii.utf8_ofList, fromUtf8_utf8, Option.bind_some, String.toList_ofList]

theorem carried_iff (value : Value) :
    Carried floats value ↔
      ((cleaned floats value).isSome = true ∧ ((cleaned floats value).all fun text => text.all isXmlChar) = true) ∧
        (cleaned floats value).map normalizeLineEnds =
          (Buffer.toText floats value).map fun text => text.toList.filter isXmlChar := by
  unfold Carried cleaned
  cases Buffer.toText floats value with
  | none => simp
  | some text => simpa using (text_carried_iff text.toList).symm

theorem forall_zip_iff {keep : Value → Prop} (tags : List (List Char)) (row : List Value) :
    (∀ cell ∈ tags.zip row, keep cell.2) ↔ ∀ value ∈ row.take tags.length, keep value := by
  induction tags generalizing row with
  | nil => simp
  | cons tag tags ih =>
    cases row with
    | nil => simp
    | cons value row =>
      rw [List.zip_cons_cons, List.forall_mem_cons, ih, List.length_cons, List.take_succ_cons, List.forall_mem_cons]

/-- The document is well formed, and a parser reads each row back, exactly when the root and the record have
names that need no prefix declared and every value in a column is carried: NULL is not, and neither is a
text with a carriage return. -/
theorem xml_reads_back_iff (columns : List Dbf.ColumnMeta) (options : Options) (rows : List (List Value))
    (rootNamed : isName options.xmlRoot.toList = true) (recordNamed : isName options.xmlRecord.toList = true) :
    (readFile (export_ floats columns options rows)).map rowsOf =
        some (rows.map (carriedCells floats (columns.map fun column => xmlTag column.name))) ↔
      nameBound [] options.xmlRoot.toList = true ∧ (rows ≠ [] → nameBound [] options.xmlRecord.toList = true) ∧
        ∀ row ∈ rows, ∀ value ∈ row.take columns.length, Carried floats value := by
  generalize taken : (columns.map fun column => xmlTag column.name) = tags
  have length : tags.length = columns.length := by rw [← taken, List.length_map]
  have valid : ∀ cells ∈ rows.map (writtenCells floats tags), ∀ cell ∈ cells, isNcName cell.1 = true := by
    simp only [List.mem_map, forall_exists_index, and_imp]
    rintro _ row _ rfl cell inside
    obtain ⟨pair, zipped, rfl⟩ := List.mem_map.mp inside
    obtain ⟨column, _, same⟩ := List.mem_map.mp (taken ▸ (List.of_mem_zip zipped).1)
    exact same ▸ xmlTag_name column.name
  have texts : (∀ cells ∈ rows.map (writtenCells floats tags), ∀ cell ∈ cells,
      (cell.2.all fun text => text.all isXmlChar) = true) ↔
        ∀ row ∈ rows, ∀ cell ∈ tags.zip row, ((cleaned floats cell.2).all fun text => text.all isXmlChar) = true := by
    simp [writtenCells]
  have goods : (rows.map (writtenCells floats tags)).all (goodRecord options.xmlRecord.toList) = true ↔
      ∀ row ∈ rows, nameBound [] options.xmlRecord.toList = true ∧ ∀ cell ∈ tags.zip row,
        (cleaned floats cell.2).isSome = true := by
    simp [goodRecord, writtenCells]
  have same : (rows.map (writtenCells floats tags)).map (List.map readCell) = rows.map (carriedCells floats tags) ↔
      ∀ row ∈ rows, ∀ cell ∈ tags.zip row, (cleaned floats cell.2).map normalizeLineEnds =
        (Buffer.toText floats cell.2).map fun text => text.toList.filter isXmlChar := by
    simp only [writtenCells, carriedCells, List.map_map, List.map_inj_left, Function.comp_apply, readCell,
      Prod.mk.injEq,
      true_and]
  have xml := (documentText_xml rootNamed recordNamed valid).trans texts
  rw [readFile_export, taken, readDocument_eq rootNamed recordNamed valid]
  constructor
  · intro read
    split at read
    · next whole =>
      obtain ⟨chars, bound, good⟩ := whole
      rw [Option.map_some, Option.some.injEq, rowsOf_documentNode (by rw [goodRecord_read, good]), same] at read
      refine ⟨bound, fun filled => ?_, fun row mem => ?_⟩
      · obtain ⟨row, mem⟩ := List.exists_mem_of_ne_nil rows filled
        exact (goods.mp good row mem).1
      · rw [← length, ← forall_zip_iff tags row]
        intro cell inside
        exact (carried_iff floats cell.2).mpr
          ⟨⟨(goods.mp good row mem).2 cell inside, xml.mp chars row mem cell inside⟩, read row mem cell inside⟩
    · cases read
  · rintro ⟨bound, recordBound, carried⟩
    have each : ∀ row ∈ rows, ∀ cell ∈ tags.zip row, Carried floats cell.2 := fun row mem =>
      (forall_zip_iff tags row).mpr (length ▸ carried row mem)
    have good := goods.mpr fun row mem =>
      ⟨recordBound (List.ne_nil_of_mem mem),
        fun cell inside => ((carried_iff floats _).mp (each row mem cell inside)).1.1⟩
    have chars := xml.mpr fun row mem cell inside => ((carried_iff floats _).mp (each row mem cell inside)).1.2
    rw [if_pos ⟨chars, bound, good⟩, Option.map_some, Option.some.injEq,
      rowsOf_documentNode (by rw [goodRecord_read, good]),
      same]
    exact fun row mem cell inside => ((carried_iff floats _).mp (each row mem cell inside)).2

end

def noFloatText : Buffer.FloatText := ⟨fun _ => "", fun _ => "", fun _ => 0⟩

def usual : Options := ⟨"RECORDS", "RECORD"⟩

/-- A row with markup in one cell and nothing in the other. -/
theorem marked_row_read_back :
    (readFile (export_ noFloatText [⟨"a", "text"⟩, ⟨"2 b", "text"⟩] usual [[.text "x<&>\n", .text ""]])).map rowsOf =
      some [[("a".toList, some "x<&>\n".toList), ("_2_b".toList, some [])]] := by
  have carried : ∀ row ∈ [[Value.text "x<&>\n", .text ""]], ∀ value ∈ row.take 2, Carried noFloatText value := by
    simp only [List.forall_mem_singleton]
    intro value mem
    have which : value = .text "x<&>\n" ∨ value = .text "" := by simpa using mem
    rcases which with rfl | rfl
    · exact ⟨"x<&>\n", by decide, by decide +kernel, by decide +kernel, by decide +kernel⟩
    · exact ⟨"", by decide, by decide +kernel, by decide +kernel, by decide +kernel⟩
  exact (xml_reads_back_iff noFloatText [⟨"a", "text"⟩, ⟨"2 b", "text"⟩] usual [[.text "x<&>\n", .text ""]]
    (by decide +kernel) (by decide +kernel)).mpr ⟨by decide +kernel, fun _ => by decide +kernel, carried⟩

/-- One column and one NULL: the attribute that says so has a prefix that is not declared, and the document
is not well formed. -/
theorem null_row_not_well_formed :
    readFile (export_ noFloatText [⟨"a", "text"⟩] usual [[.null]]) = none ∧
      (readFile (export_ noFloatText [⟨"a", "text"⟩] usual [[.null]])).map rowsOf ≠
        some [carriedCells noFloatText ["a".toList] [.null]] := by
  have refused : readFile (export_ noFloatText [⟨"a", "text"⟩] usual [[.null]]) = none := by
    rw [readFile_export, readDocument_eq (by decide) (by decide) (by decide),
      if_neg fun whole => absurd whole.2.2 (by decide)]
  refine ⟨refused, ?_⟩
  rw [refused]
  exact Option.some_ne_none _ |>.symm

end QueryHive.Export.Xml
