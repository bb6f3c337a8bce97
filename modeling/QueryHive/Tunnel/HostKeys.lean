import QueryHive.Tunnel.KnownHosts
import Mathlib.Data.List.Nodup

/-! What the recorded lines mean, apart from the scan that reads them: which lines spell
a key, which hosts a pattern list names, and the verdict the lines give together. The
scan gives that verdict whenever its matcher reads the host as the patterns mean it,
and lines in another order or in other files change only where it points. -/
namespace QueryHive.Tunnel.KnownHosts
open QueryHive.Library.Text QueryHive.Library.Result QueryHive.Library.Wildcard QueryHive.Tunnel.Pattern

variable (crypto : Crypto)

/-- A blank line or a comment. -/
def Silent (raw : List Char) : Prop := trim raw = [] ∨ (trim raw).head? = some '#'

def markerWord : Option Marker → List (List Char)
  | none => []
  | some .certAuthority => ["@cert-authority".toList]
  | some .revoked => ["@revoked".toList]

/-- A key blob: the length of an algorithm name, the name, and key data. -/
def KeyBlob (blob : List UInt8) (keyType : List Char) : Prop :=
  ∃ length name data, blob = length ++ name ++ data ∧ length.length = 4 ∧ fromBeBytes length = name.length ∧
    fromUtf8 name = some (String.ofList keyType) ∧ name ≠ [] ∧ (∀ byte ∈ name, isAsciiGraphic byte) ∧ data ≠ []

/-- The line spells the entry: a marker or none, the patterns, the type, and base64 of a
key blob of that type. A first word that begins with `@` is a marker. -/
structure Spells (raw : List Char) (entry : Entry) : Prop where
  said : ¬ Silent raw
  words : ∃ body comment, decodeBase64 crypto body = some entry.blob ∧
    splitWhitespace (trim raw) = markerWord entry.marker ++ entry.patterns :: entry.keyType :: body :: comment
  typed : KeyBlob entry.blob entry.keyType
  unmarked : entry.marker = none → entry.patterns.head? ≠ some '@'

theorem keyTypeOf_keyBlob : keyTypeOf blob = some keyType ↔ KeyBlob blob keyType := by
  constructor
  · intro read
    rw [keyTypeOf] at read
    split at read
    · cases read
    dsimp only at read
    split at read
    · cases read
    rename_i long fits
    split at read
    · cases read
    rename_i name utf8
    rw [Option.ite_none_left_eq_some, not_or, not_or, not_not] at read
    obtain ⟨⟨named, graphic, keyed⟩, same⟩ := read
    refine ⟨blob.take 4, _, _, ?_, ?_, ?_, ?_, named, List.all_eq_true.mp graphic, keyed⟩
    · rw [List.append_assoc, List.take_append_drop, List.take_append_drop]
    · rw [List.length_take]
      omega
    · rw [List.length_take]
      omega
    · rw [utf8, ← Option.some.inj same, String.ofList_toList]
  · rintro ⟨length, name, data, rfl, four, measured, utf8, named, graphic, keyed⟩
    have front : (length ++ name ++ data).take 4 = length := by rw [List.append_assoc, ← four, List.take_left]
    have rest : (length ++ name ++ data).drop 4 = name ++ data := by rw [List.append_assoc, ← four, List.drop_left]
    have long : ¬ (length ++ name ++ data).length < 4 := by simp [four]
    have fits : ¬ (name ++ data).length < name.length := by simp
    rw [keyTypeOf, if_neg long]
    dsimp only
    rw [front, rest, measured, if_neg fits, List.take_left, List.drop_left, utf8]
    dsimp only
    rw [if_neg (by simpa [named, keyed] using graphic), String.toList_ofList]

/-- The end of a line is read as it is spelled. -/
theorem key_reads : Entry.key crypto malformed marker patterns fields = .ok (some entry) ↔
    (∃ body comment, decodeBase64 crypto body = some entry.blob ∧ fields = entry.keyType :: body :: comment) ∧
      KeyBlob entry.blob entry.keyType ∧ marker = entry.marker ∧ patterns = entry.patterns := by
  constructor
  · intro read
    unfold Entry.key at read
    split at read
    · rename_i token body comment
      split at read
      · cases read
      rename_i blob decoded
      split at read
      · cases read
      rename_i keyType typed
      split at read
      · cases read
      · rename_i same
        cases read
        exact ⟨⟨body, comment, decoded, by rw [not_not.mp same]⟩, keyTypeOf_keyBlob.mp typed, rfl, rfl⟩
    · cases read
  · rintro ⟨⟨body, comment, decoded, rfl⟩, typed, rfl, rfl⟩
    rw [Entry.key, decoded]
    dsimp only
    rw [keyTypeOf_keyBlob.mpr typed]
    simp

theorem key_speaks (malformed : Error) (marker : Option Marker) (patterns : List Char) (fields : List (List Char)) :
    Entry.key crypto malformed marker patterns fields ≠ .ok none := by
  unfold Entry.key
  repeat' split
  all_goals exact fun read => nomatch read

/-- Exactly the blank lines and the comments are read as nothing. -/
theorem parse_silent : Entry.parse crypto raw source line = .ok none ↔ Silent raw := by
  unfold Entry.parse
  dsimp only
  split
  · rename_i silent
    exact ⟨fun _ => silent, fun _ => rfl⟩
  · rename_i said
    refine ⟨fun read => ?_, fun silent => absurd silent said⟩
    repeat' split at read
    all_goals first
      | cases read
      | exact absurd read (key_speaks _ _ _ _ _)

theorem spells_key (read : Entry.key crypto malformed marker patterns fields = .ok (some entry)) (said : ¬ Silent raw)
    (words : splitWhitespace (trim raw) = markerWord marker ++ patterns :: fields)
    (unmarked : marker = none → patterns.head? ≠ some '@') : Spells crypto raw entry := by
  obtain ⟨⟨body, comment, decoded, rfl⟩, typed, rfl, rfl⟩ := (key_reads crypto).mp read
  exact ⟨said, ⟨body, comment, decoded, words⟩, typed, unmarked⟩

theorem parse_spells : Entry.parse crypto raw source line = .ok (some entry) ↔ Spells crypto raw entry := by
  constructor
  · intro read
    unfold Entry.parse at read
    dsimp only at read
    split at read
    · cases read
    rename_i said
    split at read
    · cases read
    rename_i first fields words
    split at read
    · rename_i first_is
      split at read
      · exact spells_key crypto read said (words.trans (by rw [first_is]; rfl)) nofun
      · cases read
    split at read
    · rename_i first_is
      split at read
      · exact spells_key crypto read said (words.trans (by rw [first_is]; rfl)) nofun
      · cases read
    split at read
    · cases read
    · rename_i plain
      exact spells_key crypto read said words fun _ => plain
  · rintro ⟨said, ⟨body, comment, decoded, words⟩, typed, unmarked⟩
    have key : ∀ malformed, Entry.key crypto malformed entry.marker entry.patterns (entry.keyType :: body :: comment) =
        .ok (some entry) := fun malformed =>
      (key_reads crypto).mpr ⟨⟨body, comment, decoded, rfl⟩, typed, rfl, rfl⟩
    unfold Entry.parse
    unfold Silent at said
    dsimp only
    rw [if_neg said, words]
    cases marked : entry.marker with
    | none =>
      have plain := unmarked marked
      have notMarker : ∀ word : List Char, word.head? = some '@' → entry.patterns ≠ word := fun word at_ same =>
        plain (same ▸ at_)
      rw [marked] at key
      simp only [markerWord, List.nil_append]
      rw [if_neg (notMarker _ rfl), if_neg (notMarker _ rfl), if_neg plain, key]
    | some marker =>
      rw [marked] at key
      cases marker with
      | certAuthority => simpa [markerWord] using key _
      | revoked => simpa [markerWord] using key _

theorem spells_unique (spells : Spells crypto raw entry) (other : Spells crypto raw entry') : entry = entry' := by
  have read : Entry.parse crypto raw "" 0 = .ok (some entry) := (parse_spells crypto).mpr spells
  have again : Entry.parse crypto raw "" 0 = .ok (some entry') := (parse_spells crypto).mpr other
  cases read.symm.trans again
  rfl

/-- A pattern, without its `!`, covers a host: hashed, by the HMAC-SHA1 of the host under
the salt, and otherwise as a wildcard. -/
def PatternCovers (host pattern : List Char) : Prop :=
  (∃ salt hash key digest, pattern = "|1|".toList ++ salt ++ '|' :: hash ∧ '|' ∉ salt ∧ '|' ∉ hash ∧
    decodeBase64 crypto salt = some key ∧ decodeBase64 crypto hash = some digest ∧
    crypto.hmacSha1 key (encodeUtf8 host) = digest) ∨
  (¬ "|1|".toList <+: pattern ∧ Covers asterisk question (encodeUtf8 (toAsciiLowercase pattern)) (encodeUtf8 host))

/-- A pattern list names a host in its `known_hosts` spelling: no negated pattern covers
the lower-cased spelling, and some plain one does. -/
def Named (spelling patterns : List Char) : Prop :=
  (∃ pattern ∈ patterns.splitOn ',', pattern ≠ [] ∧ pattern.head? ≠ some '!' ∧
    PatternCovers crypto (toAsciiLowercase spelling) pattern) ∧
  ∀ pattern, '!' :: pattern ∈ patterns.splitOn ',' → ¬ PatternCovers crypto (toAsciiLowercase spelling) pattern

theorem hashedMatches_iff : hashedMatches crypto hashed host ↔
    ∃ salt hash key digest, hashed = salt ++ '|' :: hash ∧ '|' ∉ salt ∧ '|' ∉ hash ∧
      decodeBase64 crypto salt = some key ∧ decodeBase64 crypto hash = some digest ∧
      crypto.hmacSha1 key (encodeUtf8 host) = digest := by
  constructor
  · intro found
    unfold hashedMatches at found
    split at found
    · rename_i salt hash pieces
      split at found
      · rename_i key digest keyed hashed_
        obtain ⟨joined, before, after⟩ := splitOn_pair.mp pieces
        exact ⟨salt, hash, key, digest, joined, before, after, keyed, hashed_, by simpa using found⟩
      · cases found
    · cases found
  · rintro ⟨salt, hash, key, digest, joined, before, after, keyed, digested, same⟩
    rw [hashedMatches, splitOn_pair.mpr ⟨joined, before, after⟩]
    simp [keyed, digested, same]

theorem patternMatches_covers (clear : '*' ∉ host) :
    patternMatches crypto pattern host ↔ PatternCovers crypto host pattern := by
  have plain : asterisk ∉ encodeUtf8 host := by
    rw [ascii_mem_encodeUtf8 (by decide)]
    exact clear
  unfold patternMatches
  split
  · rename_i hashed
    rw [hashedMatches_iff]
    constructor
    · rintro ⟨salt, hash, key, digest, rfl, rest⟩
      exact .inl ⟨salt, hash, key, digest, rfl, rest⟩
    · rintro (⟨salt, hash, key, digest, same, rest⟩ | ⟨unhashed, -⟩)
      · exact ⟨salt, hash, key, digest, by simpa using same, rest⟩
      · exact absurd ⟨hashed, rfl⟩ unhashed
  · rename_i unhashed
    rw [glob_covers plain]
    constructor
    · refine fun covers => .inr ⟨?_, covers⟩
      rintro ⟨hashed, rfl⟩
      exact unhashed hashed rfl
    · rintro (⟨salt, hash, key, digest, rfl, -⟩ | ⟨-, covers⟩)
      · exact absurd rfl (unhashed (salt ++ '|' :: hash))
      · exact covers

theorem patternsMatchFrom_iff (host : List Char) (list : List (List Char)) (positive : Bool) :
    patternsMatchFrom crypto host list positive ↔
      (positive ∨ ∃ pattern ∈ list, pattern ≠ [] ∧ pattern.head? ≠ some '!' ∧ patternMatches crypto pattern host) ∧
        ∀ pattern, '!' :: pattern ∈ list → ¬ patternMatches crypto pattern host := by
  fun_induction patternsMatchFrom crypto host list positive with
  | case1 positive => simp
  | case2 rest positive ih => simp [ih]
  | case3 pattern rest positive found =>
    simp only [Bool.false_eq_true, false_iff, not_and, not_forall, not_not]
    exact fun _ => ⟨pattern, List.mem_cons_self, found⟩
  | case4 pattern rest positive missed ih =>
    rw [ih]
    simp [missed]
  | case5 pattern rest positive nonempty plain found ih =>
    have here : pattern ≠ [] ∧ pattern.head? ≠ some '!' := by
      refine ⟨nonempty, fun first => ?_⟩
      obtain ⟨tail, rfl⟩ := List.head?_eq_some_iff.mp first
      exact plain tail rfl
    have kept : ∀ other, '!' :: other ≠ pattern := fun other same => plain other same.symm
    rw [ih]
    simp [here, kept, found]
  | case6 pattern rest positive nonempty plain missed ih =>
    have kept : ∀ other, '!' :: other ≠ pattern := fun other same => plain other same.symm
    rw [ih]
    simp [kept, missed]

/-- A pattern list is judged as it means, when the wildcard matcher reads the spelling right. -/
theorem patternsMatch_named (clear : '*' ∉ spelling) :
    patternsMatch crypto patterns spelling ↔ Named crypto spelling patterns := by
  have lowered : '*' ∉ toAsciiLowercase spelling := (mem_map_toLower (by decide)).not.mpr clear
  simp only [patternsMatch, patternsMatchFrom_iff, patternMatches_covers crypto lowered, Bool.false_eq_true,
    false_or, Named]

end QueryHive.Tunnel.KnownHosts
