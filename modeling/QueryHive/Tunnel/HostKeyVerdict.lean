import QueryHive.Library.Base64
import QueryHive.Tunnel.HostKeys

/-! The verdict of all the lines together. It is stated over the lines as a collection;
the scan is then shown to give it, whatever the order in which it meets them. -/
namespace QueryHive.Tunnel.KnownHosts
open QueryHive.Library QueryHive.Library.Text QueryHive.Library.Result QueryHive.Library.Wildcard
  QueryHive.Tunnel.Pattern

variable (crypto : Crypto)

/-- A line and where it stands. -/
structure Place where
  file : StoreFile
  line : Nat
  raw : List Char

def placesOf (fs : FileSystem) (euid : Nat) (file : StoreFile) : List Place :=
  match readStore fs file euid with
  | .ok text => ((lines text).zipIdx 1).map fun numbered => ⟨file, numbered.2, numbered.1⟩
  | .error _ => []

def places (fs : FileSystem) (euid : Nat) (files : List StoreFile) : List Place := files.flatMap (placesOf fs euid)

/-- Every file can be read and passes the store's check. -/
def Readable (fs : FileSystem) (euid : Nat) (files : List StoreFile) : Prop :=
  ∀ file ∈ files, ∃ text, readStore fs file euid = .ok text

/-- Every line is blank, a comment, or spells an entry. -/
def WellFormed (lines : List Place) : Prop :=
  ∀ place ∈ lines, Silent place.raw ∨ ∃ entry, Spells crypto place.raw entry

variable (named : List Char → Prop)

/-- The line spells an entry with this marker, whose patterns name the host. -/
def Says (marker : Option Marker) (place : Place) (entry : Entry) : Prop :=
  Spells crypto place.raw entry ∧ entry.marker = marker ∧ named entry.patterns

/-- Some matching line with this marker holds exactly this blob. -/
def Holds (marker : Option Marker) (lines : List Place) (blob : List UInt8) : Prop :=
  ∃ place ∈ lines, ∃ entry, Says crypto named marker place entry ∧ entry.blob = blob

def Covered (lines : List Place) : Prop := ∃ place ∈ lines, ∃ entry, Says crypto named (some .certAuthority) place entry

/-- The key of an unmarked matching line, with where it stands. -/
def Records (place : Place) (key : RecordedKey) : Prop :=
  ∃ entry, Says crypto named none place entry ∧
    key = ⟨entry.keyType, entry.blob, place.line, place.file.path, place.file.origin⟩

open Classical in
/-- The list has exactly a key for every unmarked matching line. -/
def Lists (lines : List Place) (recorded : List RecordedKey) : Prop :=
  List.Forall₂ (Records crypto named) (lines.filter fun place => ∃ entry, Says crypto named none place entry) recorded

/-- The verdict the lines give: a revocation of the blob first, then a record of it, then
the records of other keys, and last nothing on record. -/
inductive Rules (lines : List Place) (blob : List UInt8) : HostKeyVerdict → Prop
  | revoked (inside : place ∈ lines) (said : Says crypto named (some .revoked) place entry) (same : entry.blob = blob) :
      Rules lines blob (.revoked place.line place.file.path)
  | matched (unrevoked : ¬ Holds crypto named (some .revoked) lines blob) (held : Holds crypto named none lines blob) :
      Rules lines blob .matched
  | mismatch (unrevoked : ¬ Holds crypto named (some .revoked) lines blob)
    (other : ¬ Holds crypto named none lines blob)
      (listed : Lists crypto named lines recorded) (some_ : recorded ≠ []) : Rules lines blob (.mismatch recorded)
  | unknown (unrevoked : ¬ Holds crypto named (some .revoked) lines blob)
      (unrecorded : ∀ place ∈ lines, ∀ entry, ¬ Says crypto named none place entry)
      (covered : ca = true ↔ Covered crypto named lines) :
      Rules lines blob (.unknown (fingerprint crypto blob) ca)

def RecordedKey.content (key : RecordedKey) : List Char × List UInt8 := (key.keyType, key.blob)

/-- The same verdict, up to order and position. -/
def Alike : HostKeyVerdict → HostKeyVerdict → Prop
  | .matched, .matched => True
  | .unknown shown covered, .unknown shown' covered' => shown = shown' ∧ covered = covered'
  | .mismatch recorded, .mismatch recorded' =>
    (recorded.map RecordedKey.content).Perm (recorded'.map RecordedKey.content)
  | .revoked _ _, .revoked _ _ => True
  | _, _ => False

def AlikeResults : Except Error HostKeyVerdict → Except Error HostKeyVerdict → Prop
  | .ok verdict, .ok verdict' => Alike verdict verdict'
  | .error _, .error _ => True
  | _, _ => False

/-- The host-key check of this host and port is the verdict of the recorded lines, for all
files and keys, and does not depend on their order. -/
def ByLines (host : List Char) (port : UInt16) : Prop :=
  ∀ blob fs euid files, Readable fs euid files →
    (WellFormed crypto (places fs euid files) →
    ∃ verdict, checkAllAs crypto fs files host port blob euid = .ok verdict ∧
      Rules crypto (Named crypto (hostSpelling host port)) (places fs euid files) blob verdict) ∧
    (¬ WellFormed crypto (places fs euid files) →
    ∃ error, checkAllAs crypto fs files host port blob euid = .error error) ∧
    ∀ fs' euid' files', Readable fs' euid' files' →
      ((places fs euid files).map Place.raw).Perm ((places fs' euid' files').map Place.raw) →
      AlikeResults (checkAllAs crypto fs files host port blob euid) (checkAllAs crypto fs' files' host port blob euid')

/-- What the scan holds after the lines it has seen. -/
structure Sums (spelling : List Char) (blob : List UInt8) (seen : List Place) (scan : Scan) : Prop where
  host : scan.spelling = spelling
  key : scan.blob = blob
  matched : scan.matched = true ↔ Holds crypto named none seen blob
  caCovered : scan.caCovered = true ↔ Covered crypto named seen
  unrevoked : scan.revoked = none → ¬ Holds crypto named (some .revoked) seen blob
  revoked : ∀ file line, scan.revoked = some (file, line) → ∃ place ∈ seen, ∃ entry,
    Says crypto named (some .revoked) place entry ∧ entry.blob = blob ∧ place.file.path = file ∧ place.line = line
  recorded : ¬ Holds crypto named none seen blob → Lists crypto named seen scan.recorded

variable {crypto} {named : List Char → Prop} {seen : List Place} {place : Place} {scan : Scan} {entry : Entry}
  {spelling : List Char} {blob : List UInt8} {marker : Option Marker} {recorded : List RecordedKey}

theorem holds_concat : Holds crypto named marker (seen ++ [place]) blob ↔
    Holds crypto named marker seen blob ∨ ∃ entry, Says crypto named marker place entry ∧ entry.blob = blob := by
  simp only [Holds, List.mem_append, List.mem_singleton, or_and_right, exists_or, exists_eq_left]

open Classical in
theorem lists_quiet (quiet : ∀ entry, ¬ Says crypto named none place entry)
    (listed : Lists crypto named seen recorded) :
    Lists crypto named (seen ++ [place]) recorded := by
  have dropped : ¬ ∃ entry, Says crypto named none place entry := not_exists.mpr quiet
  rw [Lists, List.filter_append, List.filter_singleton, decide_eq_false dropped, cond_false, List.append_nil]
  exact listed

open Classical in
theorem lists_record (said : Says crypto named none place entry) (listed : Lists crypto named seen recorded) :
    Lists crypto named (seen ++ [place])
      (recorded ++ [⟨entry.keyType, entry.blob, place.line, place.file.path, place.file.origin⟩]) := by
  have kept : ∃ entry, Says crypto named none place entry := ⟨entry, said⟩
  rw [Lists, List.filter_append, List.filter_singleton, decide_eq_true kept, cond_true]
  exact List.rel_append listed (.cons ⟨entry, said, rfl⟩ .nil)

theorem sums_nil (spelling : List Char) (blob : List UInt8) :
    Sums crypto named spelling blob [] { spelling := spelling, blob := blob } where
  host := rfl
  key := rfl
  matched := by simp [Holds]
  caCovered := by simp [Covered]
  unrevoked _ := by simp [Holds]
  revoked _ _ found := nomatch found
  recorded _ := .nil

/-- A line that says nothing about the host leaves the scan as it is. -/
theorem Sums.quiet (sums : Sums crypto named spelling blob seen scan)
    (quiet : ∀ marker entry, ¬ Says crypto named marker place entry) :
    Sums crypto named spelling blob (seen ++ [place]) scan where
  host := sums.host
  key := sums.key
  matched := by simp [holds_concat, quiet, sums.matched]
  caCovered := by simp [Covered, quiet, or_and_right, exists_or, sums.caCovered]
  unrevoked none_ := by simp [holds_concat, quiet, sums.unrevoked none_]
  revoked file line found := by
    obtain ⟨place, inside, rest⟩ := sums.revoked file line found
    exact ⟨place, List.mem_append_left _ inside, rest⟩
  recorded other := lists_quiet (quiet none) (sums.recorded (by simpa [holds_concat, quiet] using other))

/-- A line that names the host is folded in under its marker. -/
theorem Sums.add (sums : Sums crypto named spelling blob seen scan)
    (only : ∀ marker other, Says crypto named marker place other ↔ other = entry ∧ entry.marker = marker) :
    Sums crypto named spelling blob (seen ++ [place]) (scan.add place.file place.line entry) := by
  have held : ∀ marker, Holds crypto named marker (seen ++ [place]) blob ↔
      Holds crypto named marker seen blob ∨ (entry.marker = marker ∧ entry.blob = blob) := by
    simp [holds_concat, only, and_assoc]
  have covered : Covered crypto named (seen ++ [place]) ↔ scan.caCovered = true ∨
    entry.marker = some .certAuthority := by
    simp [sums.caCovered, Covered, only, or_and_right, exists_or]
  have older : ∀ file line, scan.revoked = some (file, line) → ∃ there ∈ seen ++ [place], ∃ entry,
      Says crypto named (some .revoked) there entry ∧ entry.blob = blob ∧ there.file.path = file ∧
        there.line = line := by
    intro file line found
    obtain ⟨there, inside, rest⟩ := sums.revoked file line found
    exact ⟨there, List.mem_append_left _ inside, rest⟩
  have unlisted : entry.marker ≠ none → ¬ Holds crypto named none (seen ++ [place]) blob →
      Lists crypto named (seen ++ [place]) scan.recorded := fun marks other =>
    lists_quiet (fun other said => marks ((only none other).mp said).2)
      (sums.recorded fun earlier => other ((held none).mpr (.inl earlier)))
  unfold Scan.add
  split
  next marked =>
    exact { host := sums.host, key := sums.key, revoked := older
            matched := by simp [held, marked, sums.matched]
            caCovered := by simp [covered, marked]
            unrevoked := fun none_ => by simpa [held, marked] using sums.unrevoked none_
            recorded := unlisted (by simp [marked]) }
  next marked =>
    split
    next first =>
      exact { host := sums.host, key := sums.key
              matched := by simp [held, marked, sums.matched]
              caCovered := by simp [covered, marked]
              unrevoked := nofun
              revoked := by
                rintro _ _ ⟨⟩
                exact ⟨place, by simp, entry, (only _ _).mpr ⟨rfl, marked⟩, first.1.trans sums.key, rfl, rfl⟩
              recorded := unlisted (by simp [marked]) }
    next later =>
      exact { host := sums.host, key := sums.key, revoked := older
              matched := by simp [held, marked, sums.matched]
              caCovered := by simp [covered, marked]
              unrevoked := fun none_ => by
                have other : entry.blob ≠ blob := fun same => later ⟨same.trans sums.key.symm, none_⟩
                simpa [held, other] using sums.unrevoked none_
              recorded := unlisted (by simp [marked]) }
  next marked =>
    split
    next same =>
      have recorded : entry.marker = none ∧ entry.blob = blob := ⟨marked, same.trans sums.key⟩
      exact { host := sums.host, key := sums.key, revoked := older
              matched := by simp [held, recorded]
              caCovered := by simp [covered, marked]
              unrevoked := fun none_ => by simpa [held, marked] using sums.unrevoked none_
              recorded := fun other => absurd ((held none).mpr (.inr recorded)) other }
    next differs =>
      have other : entry.blob ≠ blob := fun same => differs (same.trans sums.key.symm)
      exact { host := sums.host, key := sums.key, revoked := older
              matched := by simp [held, other, sums.matched]
              caCovered := by simp [covered, marked]
              unrevoked := fun none_ => by simpa [held, marked] using sums.unrevoked none_
              recorded := fun other => lists_record ((only _ _).mpr ⟨rfl, marked⟩)
                (sums.recorded fun earlier => other ((held none).mpr (.inl earlier))) }

/-- What the scan itself takes a pattern list to name. -/
def ReadAs (crypto : Crypto) (spelling patterns : List Char) : Prop := patternsMatch crypto patterns spelling = true

/-- A step that reads the line either goes on with it seen, or fails at a line that is neither
blank, a comment nor an entry. -/
def Goes {σ : Type} (crypto : Crypto) (inv : List Place → σ → Prop) (seen lines : List Place)
    (result : Except Error σ) : Prop :=
  (WellFormed crypto lines ∧ ∃ next, result = .ok next ∧ inv (seen ++ lines) next) ∨
    (¬ WellFormed crypto lines ∧ ∃ error, result = .error error)

/-- What a step makes of a line follows from what it makes of nothing and of an entry. -/
theorem goes_place {σ : Type} {inv : List Place → σ → Prop} {same : σ} {next : Option Entry → Except Error σ}
    (nothing : (∀ entry, ¬ Spells crypto place.raw entry) → inv (seen ++ [place]) same)
    (unchanged : next none = .ok same) (found : ∀ entry, (∀ other, Spells crypto place.raw other ↔ other = entry) →
      ∃ s, next (some entry) = .ok s ∧ inv (seen ++ [place]) s) :
    Goes crypto inv seen [place] (Entry.parse crypto place.raw place.file.path place.line >>= next) := by
  have wellFormed : WellFormed crypto [place] ↔ Silent place.raw ∨ ∃ entry, Spells crypto place.raw entry := by
    simp [WellFormed]
  rw [Goes, wellFormed]
  cases read : Entry.parse crypto place.raw place.file.path place.line with
  | error error =>
    refine .inr ⟨?_, error, rfl⟩
    rintro (silent | ⟨entry, spells⟩)
    · cases read.symm.trans ((parse_silent crypto).mpr silent)
    · cases read.symm.trans ((parse_spells crypto).mpr spells)
  | ok reading =>
    rw [ok_bind]
    cases reading with
    | none =>
      refine .inl ⟨.inl ((parse_silent crypto).mp read), same, unchanged, nothing fun entry spells => ?_⟩
      cases read.symm.trans ((parse_spells crypto).mpr spells)
    | some entry =>
      have spells := (parse_spells crypto).mp read
      exact .inl ⟨.inr ⟨entry, spells⟩, found entry fun other =>
        ⟨fun again => spells_unique crypto again spells, fun same => same ▸ spells⟩⟩

theorem wellFormed_cons : WellFormed crypto (place :: seen) ↔ WellFormed crypto [place] ∧ WellFormed crypto seen := by
  simp [WellFormed]

theorem goes_lines {σ : Type} {inv : List Place → σ → Prop} {step : σ → Place → Except Error σ}
    (each : ∀ seen s place, inv seen s → Goes crypto inv seen [place] (step s place))
    (lines : List Place) {s : σ} (start : inv seen s) : Goes crypto inv seen lines (lines.foldlM step s) := by
  induction lines generalizing seen s with
  | nil => exact .inl ⟨by simp [WellFormed], s, rfl, by simpa using start⟩
  | cons place rest ih =>
    rw [Goes, wellFormed_cons, List.foldlM_cons]
    rcases each seen s place start with ⟨formed, next, added, later⟩ | ⟨malformed, error, refused⟩
    · rw [added, ok_bind]
      rcases ih later with ⟨others, last, ran, ended⟩ | ⟨malformed, error, refused⟩
      · exact .inl ⟨⟨formed, others⟩, last, ran, by simpa using ended⟩
      · exact .inr ⟨fun both => malformed both.2, error, refused⟩
    · rw [refused]
      exact .inr ⟨fun both => malformed both.1, error, rfl⟩

theorem addLine_goes (sums : Sums crypto (ReadAs crypto spelling) spelling blob seen scan) (place : Place) :
    Goes crypto (Sums crypto (ReadAs crypto spelling) spelling blob) seen [place]
      (Scan.addLine crypto place.file scan (place.raw, place.line)) := by
  refine goes_place (fun silent => sums.quiet fun marker entry said => silent entry said.1) rfl fun entry only => ?_
  dsimp only
  split
  next names =>
    refine ⟨_, rfl, sums.add fun marker other => ?_⟩
    rw [Says, only]
    constructor
    · rintro ⟨rfl, marked, -⟩
      exact ⟨rfl, marked⟩
    · rintro ⟨rfl, marked⟩
      exact ⟨rfl, marked, sums.host ▸ names⟩
  next other =>
    refine ⟨_, rfl, sums.quiet fun marker found said => ?_⟩
    obtain ⟨spells, -, names⟩ := said
    rw [(only found).mp spells, ReadAs, ← sums.host] at names
    exact other names

/-- The types of the unmarked lines that name the host, each once. -/
structure Types (crypto : Crypto) (spelling : List Char) (seen : List Place) (types : List (List Char)) : Prop where
  once : types.Nodup
  listed : ∀ keyType, keyType ∈ types ↔
    ∃ place ∈ seen, ∃ entry, Says crypto (ReadAs crypto spelling) none place entry ∧ entry.keyType = keyType

theorem addType_goes (types : List (List Char)) (held : Types crypto spelling seen types) (place : Place) :
    Goes crypto (Types crypto spelling) seen [place]
      (addType crypto spelling place.file types (place.raw, place.line)) := by
  have more : ∀ keyType, (∃ there ∈ seen ++ [place], ∃ entry, Says crypto (ReadAs crypto spelling) none there entry ∧
      entry.keyType = keyType) ↔ keyType ∈ types ∨ ∃ entry, Says crypto (ReadAs crypto spelling) none place entry ∧
        entry.keyType = keyType := by
    simp only [held.listed, List.mem_append, List.mem_singleton, or_and_right, exists_or, exists_eq_left, implies_true]
  refine goes_place (fun silent => ⟨held.once, fun keyType => ?_⟩) rfl fun entry only => ?_
  · rw [more]
    exact ⟨.inl, fun either => either.elim id fun ⟨entry, said, _⟩ => absurd said.1 (silent entry)⟩
  have here : ∀ keyType, (∃ other, Says crypto (ReadAs crypto spelling) none place other ∧ other.keyType = keyType) ↔
      entry.marker = none ∧ patternsMatch crypto entry.patterns spelling = true ∧ entry.keyType = keyType := by
    simp [Says, only, ReadAs, and_assoc]
  dsimp only
  split
  next added =>
    refine ⟨_, rfl, by simpa using List.Nodup.concat added.2.2 held.once, fun keyType => ?_⟩
    rw [more, here, List.mem_append, List.mem_singleton]
    simp [added.1, added.2.1, eq_comm]
  next same =>
    refine ⟨_, rfl, held.once, fun keyType => ?_⟩
    rw [more, here]
    refine ⟨.inl, fun either => either.elim id ?_⟩
    rintro ⟨marked, names, rfl⟩
    exact not_not.mp fun absent => same ⟨marked, names, absent⟩

theorem finish_rules (sums : Sums crypto named spelling blob seen scan) :
    Rules crypto named seen blob (scan.finish crypto) := by
  unfold Scan.finish
  split
  next file line found =>
    obtain ⟨place, inside, entry, said, same, rfl, rfl⟩ := sums.revoked file line found
    exact .revoked inside said same
  next none_ =>
    have unrevoked := sums.unrevoked none_
    split
    next matched => exact .matched unrevoked (sums.matched.mp matched)
    next unmatched =>
      have other : ¬ Holds crypto named none seen blob := fun held => unmatched (sums.matched.mpr held)
      have listed := sums.recorded other
      split
      next some_ => exact .mismatch unrevoked other listed some_
      next nothing =>
        rw [sums.key]
        refine .unknown unrevoked (fun place inside entry said => ?_) sums.caCovered
        rw [not_not.mp nothing, Lists, List.forall₂_nil_right_iff, List.filter_eq_nil_iff] at listed
        exact listed place inside (by simpa using ⟨entry, said⟩)

/-- To fold every file is to fold every line of every file. -/
theorem foldlM_places {σ : Type} (step : σ → Place → Except Error σ) (readable : Readable fs euid files) (s : σ) :
    files.foldlM (fun s file => do
      ((lines (← readStore fs file euid)).zipIdx 1).foldlM
        (fun s numbered => step s ⟨file, numbered.2, numbered.1⟩) s) s =
      (places fs euid files).foldlM step s := by
  induction files generalizing s with
  | nil => rfl
  | cons file rest ih =>
    obtain ⟨text, read⟩ := readable file List.mem_cons_self
    rw [List.foldlM_cons, places, List.flatMap_cons, List.foldlM_append, read, ok_bind, placesOf, read, List.foldlM_map]
    exact congrArg _ (funext fun s => ih (fun other inside => readable other (List.mem_cons_of_mem _ inside)) s)

/-- The check gives the verdict of the lines as the scan reads the pattern lists, or an
error when a line cannot be read. -/
theorem checkAllAs_rules (crypto : Crypto) (readable : Readable fs euid files) (host : List Char) (port : UInt16)
    (blob : List UInt8) :
    (WellFormed crypto (places fs euid files) ∧
    ∃ verdict, checkAllAs crypto fs files host port blob euid = .ok verdict ∧
      Rules crypto (ReadAs crypto (hostSpelling host port)) (places fs euid files) blob verdict) ∨
    (¬ WellFormed crypto (places fs euid files) ∧ ∃ error, checkAllAs crypto fs files host port blob euid =
    .error error) := by
  have folded := foldlM_places (fun scan place => Scan.addLine crypto place.file scan (place.raw, place.line)) readable
    { spelling := hostSpelling host port, blob := blob }
  unfold checkAllAs Scan.addText
  rw [folded]
  rcases goes_lines (fun _ _ place sums => addLine_goes sums place) (places fs euid files)
    (sums_nil (hostSpelling host port) blob) with ⟨formed, last, ran, sums⟩ | ⟨malformed, error, refused⟩
  · rw [ran, ok_bind]
    exact .inl ⟨formed, last.finish crypto, rfl, finish_rules sums⟩
  · rw [refused]
    exact .inr ⟨malformed, error, rfl⟩

/-- The key types on record are read from the same lines: those that are unmarked and name the
host, each type once. -/
theorem recordedKeyTypes_reads (crypto : Crypto) (readable : Readable fs euid files) (host : List Char)
    (port : UInt16) :
    Goes crypto (Types crypto (hostSpelling host port)) [] (places fs euid files)
      (recordedKeyTypes crypto fs files host port euid) := by
  have folded := foldlM_places (fun types place => addType crypto (hostSpelling host port) place.file types
    (place.raw, place.line)) readable []
  unfold recordedKeyTypes
  rw [folded]
  exact goes_lines (fun _ types place held => addType_goes types held place) (places fs euid files)
    ⟨List.nodup_nil, by simp⟩

variable {mine others : List Place}

theorem some_line (same : (mine.map Place.raw).Perm (others.map Place.raw)) (meaning : List Char → Prop) :
    (∃ place ∈ mine, meaning place.raw) ↔ ∃ place ∈ others, meaning place.raw := by
  have moved : ∀ raw, (∃ place ∈ mine, place.raw = raw) ↔ ∃ place ∈ others, place.raw = raw := fun raw => by
    simpa using same.mem_iff (a := raw)
  constructor
  · rintro ⟨place, inside, said⟩
    obtain ⟨other, there, equal⟩ := (moved place.raw).mp ⟨place, inside, rfl⟩
    exact ⟨other, there, equal ▸ said⟩
  · rintro ⟨place, inside, said⟩
    obtain ⟨other, there, equal⟩ := (moved place.raw).mpr ⟨place, inside, rfl⟩
    exact ⟨other, there, equal ▸ said⟩

/-- The key that a line holds. -/
def contentOf (crypto : Crypto) (raw : List Char) : List Char × List UInt8 :=
  match Entry.parse crypto raw "" 0 with
  | .ok (some entry) => (entry.keyType, entry.blob)
  | _ => ([], [])

theorem Records.content (records : Records crypto named place key) : contentOf crypto place.raw = key.content := by
  obtain ⟨entry, said, rfl⟩ := records
  rw [contentOf, (parse_spells crypto).mpr said.1]
  rfl

open Classical in
theorem Lists.contents (listed : Lists crypto named mine recorded) :
    recorded.map RecordedKey.content =
      ((mine.map Place.raw).filter fun raw =>
        ∃ entry, Spells crypto raw entry ∧ entry.marker = none ∧ named entry.patterns).map (contentOf crypto) := by
  rw [List.filter_map, List.map_map, ← List.forall₂_eq_eq_eq, List.forall₂_map_left_iff, List.forall₂_map_right_iff]
  exact listed.flip.imp fun key place records => Records.content records |>.symm

theorem Lists.someLine (listed : Lists crypto named mine recorded) (some_ : recorded ≠ []) :
    ∃ place ∈ mine, ∃ entry, Says crypto named none place entry := by
  cases recorded with
  | nil => exact absurd rfl some_
  | cons key rest =>
    obtain ⟨place, kept, -, -, split⟩ := List.forall₂_cons_right_iff.mp listed
    have inside := List.mem_filter.mp (split ▸ List.mem_cons_self)
    exact ⟨place, inside.1, by simpa using inside.2⟩

theorem rules_alike (same : (mine.map Place.raw).Perm (others.map Place.raw))
    (rules : Rules crypto named mine blob verdict)
    (rules' : Rules crypto named others blob verdict') : Alike verdict verdict' := by
  have held : ∀ marker, Holds crypto named marker mine blob ↔ Holds crypto named marker others blob := fun marker =>
    some_line same fun raw => ∃ entry, (Spells crypto raw entry ∧ entry.marker = marker ∧ named entry.patterns) ∧
      entry.blob = blob
  have said : ∀ marker, (∃ place ∈ mine, ∃ entry, Says crypto named marker place entry) ↔
      ∃ place ∈ others, ∃ entry, Says crypto named marker place entry := fun marker =>
    some_line same fun raw => ∃ entry, Spells crypto raw entry ∧ entry.marker = marker ∧ named entry.patterns
  cases rules with
  | revoked inside here key =>
    have revoked := (held _).mp ⟨_, inside, _, here, key⟩
    cases rules' with
    | revoked => exact trivial
    | matched unrevoked' => exact absurd revoked unrevoked'
    | mismatch unrevoked' => exact absurd revoked unrevoked'
    | unknown unrevoked' => exact absurd revoked unrevoked'
  | matched unrevoked recorded =>
    have recorded' := (held _).mp recorded
    cases rules' with
    | revoked inside here key => exact absurd ((held _).mpr ⟨_, inside, _, here, key⟩) unrevoked
    | matched => exact trivial
    | mismatch _ other' => exact absurd recorded' other'
    | unknown _ unrecorded' =>
      obtain ⟨place, inside, entry, here, -⟩ := recorded'
      exact absurd here (unrecorded' place inside entry)
  | mismatch unrevoked other listed some_ =>
    cases rules' with
    | revoked inside here key => exact absurd ((held _).mpr ⟨_, inside, _, here, key⟩) unrevoked
    | matched _ recorded' => exact absurd ((held _).mpr recorded') other
    | mismatch _ _ listed' =>
      simp only [Alike, Lists.contents listed, Lists.contents listed']
      exact (same.filter _).map _
    | unknown _ unrecorded' =>
      obtain ⟨place, inside, entry, here⟩ := (said none).mp (Lists.someLine listed some_)
      exact absurd here (unrecorded' place inside entry)
  | unknown unrevoked unrecorded covered =>
    cases rules' with
    | revoked inside here key => exact absurd ((held _).mpr ⟨_, inside, _, here, key⟩) unrevoked
    | matched _ recorded' =>
      obtain ⟨place, inside, entry, here, -⟩ := (held _).mpr recorded'
      exact absurd here (unrecorded place inside entry)
    | mismatch _ _ listed' some' =>
      obtain ⟨place, inside, entry, here⟩ := (said none).mpr (Lists.someLine listed' some')
      exact absurd here (unrecorded place inside entry)
    | unknown _ _ covered' =>
      exact ⟨rfl, Bool.eq_iff_iff.mpr (covered.trans ((said _).trans covered'.symm))⟩

theorem byLines_of_reading {host : List Char} {port : UInt16}
    (reads : ∀ patterns, patternsMatch crypto patterns (hostSpelling host port) ↔
    Named crypto (hostSpelling host port) patterns) :
    ByLines crypto host port := by
  intro blob fs euid files readable
  have same : ReadAs crypto (hostSpelling host port) = Named crypto (hostSpelling host port) :=
    funext fun patterns => propext (reads patterns)
  have checked := checkAllAs_rules crypto readable host port blob
  rw [same] at checked
  refine ⟨fun formed => ?_, fun malformed => ?_, fun fs' euid' files' readable' moved => ?_⟩
  · rcases checked with ⟨-, verdict, ran, rules⟩ | ⟨malformed, -⟩
    · exact ⟨verdict, ran, rules⟩
    · exact absurd formed malformed
  · rcases checked with ⟨formed, -⟩ | ⟨-, error⟩
    · exact absurd formed malformed
    · exact error
  · have formedAlike : WellFormed crypto (places fs euid files) ↔ WellFormed crypto (places fs' euid' files') := by
      have broken := some_line moved fun raw => ¬ (Silent raw ∨ ∃ entry, Spells crypto raw entry)
      simp only [WellFormed]
      exact not_iff_not.mp (by simpa using broken)
    have checked' := checkAllAs_rules crypto readable' host port blob
    rw [same] at checked'
    rcases checked with ⟨formed, verdict, ran, rules⟩ | ⟨malformed, error, refused⟩
    · rcases checked' with ⟨-, verdict', ran', rules'⟩ | ⟨malformed', -⟩
      · rw [ran, ran']
        exact rules_alike moved rules rules'
      · exact absurd (formedAlike.mp formed) malformed'
    · rcases checked' with ⟨formed', -⟩ | ⟨-, error', refused'⟩
      · exact absurd (formedAlike.mpr formed') malformed
      · rw [refused, refused']
        exact trivial

theorem asterisk_spelling (host : List Char) (port : UInt16) : '*' ∈ hostSpelling host port ↔ '*' ∈ host := by
  unfold hostSpelling
  split
  · rfl
  · have digits : '*' ∉ Nat.toDigits 10 port.toNat := fun inside =>
      absurd (Nat.isDigit_of_mem_toDigits (by decide) (by decide) inside) (by decide)
    simp [digits]

/-- The pattern list that the scan misreads on a spelling with a `*`. -/
def misread (head tail : List UInt8) : List Char :=
  List.replicate head.length '?' ++ '*' :: List.replicate (tail.length + 1) '?'

theorem misread_bytes (head tail : List UInt8) :
    encodeUtf8 (toAsciiLowercase (misread head tail)) = stumble head tail := by
  simp only [misread, stumble, toAsciiLowercase, encodeUtf8, List.map_append, List.map_cons, List.map_replicate,
    List.flatMap_append, List.flatMap_cons]
  have questions : ∀ n, (List.replicate n '?').flatMap String.utf8EncodeChar = List.replicate n question := by
    intro n
    induction n with
    | zero => rfl
    | succ n ih => rw [List.replicate_succ, List.flatMap_cons, ih]; rfl
  exact congrArg₂ (· ++ ·) (questions _) (congrArg (asterisk :: ·) (questions _))

theorem misread_symbols (inside : c ∈ misread head tail) : c = '?' ∨ c = '*' := by
  rcases List.mem_append.mp inside with before | after
  · exact .inl (List.eq_of_mem_replicate before)
  · rcases List.mem_cons.mp after with same | after
    · exact .inr same
    · exact .inl (List.eq_of_mem_replicate after)

theorem misread_head (head tail : List UInt8) : ∃ c rest, misread head tail = c :: rest := by
  cases head with
  | nil => exact ⟨_, _, rfl⟩
  | cons byte head => exact ⟨_, _, rfl⟩

/-- The scan misses a pattern list that names a spelling with a `*`. -/
theorem misread_named (crypto : Crypto) (head tail : List UInt8)
    (spelled : encodeUtf8 (toAsciiLowercase spelling) = head ++ asterisk :: tail) :
    patternsMatch crypto (misread head tail) spelling = false ∧ Named crypto spelling (misread head tail) := by
  obtain ⟨missed, covers⟩ := glob_stumbles head tail
  have alone : (misread head tail).splitOn ',' = [misread head tail] :=
    List.splitOn_eq_singleton fun inside => by rcases misread_symbols inside with same | same <;> cases same
  obtain ⟨c, rest, split⟩ := misread_head head tail
  have first := misread_symbols (c := c) (split ▸ List.mem_cons_self)
  have unnegated : c ≠ '!' := by rcases first with rfl | rfl <;> decide
  have unhashed : c ≠ '|' := by rcases first with rfl | rfl <;> decide
  constructor
  · have unmatched : patternMatches crypto (misread head tail) (toAsciiLowercase spelling) = false := by
      unfold patternMatches
      split
      · rename_i hashed same
        exact absurd (List.cons.inj (split.symm.trans same)).1 unhashed
      · rw [misread_bytes, spelled, missed]
    rw [Bool.eq_false_iff, Ne, patternsMatch, patternsMatchFrom_iff, alone]
    simp [unmatched]
  · refine ⟨⟨misread head tail, by rw [alone]; exact List.mem_singleton_self _, ?_, ?_, .inr ⟨?_, ?_⟩⟩, ?_⟩
    · simp [split]
    · simpa [split] using unnegated
    · rintro ⟨hashed, same⟩
      exact unhashed (List.cons.inj (split.symm.trans same.symm)).1
    · rw [misread_bytes, spelled]
      exact covers
    · intro pattern inside
      rw [alone, List.mem_singleton] at inside
      exact absurd (List.cons.inj (split.symm.trans inside.symm)).1 unnegated

/-- Base64 as it is written is read back, and is a word. -/
structure Written (crypto : Crypto) (encode : List UInt8 → List Char) : Prop where
  read : ∀ bytes, crypto.standard (encode bytes) = some bytes
  plain : ∀ bytes, ∀ c ∈ encode bytes, isWhitespace c = false
  word : ∀ bytes, bytes ≠ [] → encode bytes ≠ []

def keyLine (patterns keyType body : List Char) : List Char := List.intercalate [' '] [patterns, keyType, body]

/-- The smallest key blob there is: the algorithm `k` and one byte. -/
def smallKey : List UInt8 := [0, 0, 0, 1, 107, 0]

theorem smallKey_blob : KeyBlob smallKey ['k'] :=
  ⟨[0, 0, 0, 1], utf8 "k", [0], by decide, rfl, by decide, fromUtf8_utf8 "k", by decide,
    List.all_eq_true.mp (by decide), by decide⟩

theorem keyLine_spells (written : Written crypto encode) (first : patterns.head? = some c) (said : c ≠ '#' ∧ c ≠ '@')
    (clear : ∀ c ∈ patterns, isWhitespace c = false) :
    Spells crypto (keyLine patterns ['k'] (encode smallKey)) ⟨none, patterns, ['k'], smallKey⟩ ∧
      lines (keyLine patterns ['k'] (encode smallKey)) = [keyLine patterns ['k'] (encode smallKey)] := by
  obtain ⟨others, rfl⟩ := List.head?_eq_some_iff.mp first
  have words : ∀ word ∈ [c :: others, ['k'], encode smallKey], word ≠ [] ∧ ∀ c ∈ word, isWhitespace c = false := by
    intro word inside
    simp only [List.mem_cons, List.not_mem_nil, or_false] at inside
    rcases inside with rfl | rfl | rfl
    · exact ⟨List.cons_ne_nil _ _, clear⟩
    · exact ⟨List.cons_ne_nil _ _, List.forall_mem_singleton.mpr (by decide)⟩
    · exact ⟨written.word _ (by decide), written.plain _⟩
  have shape : keyLine (c :: others) ['k'] (encode smallKey) = c :: (others ++ [' ', 'k', ' '] ++ encode smallKey) := by
    simp [keyLine]
  have trimmed : trim (keyLine (c :: others) ['k'] (encode smallKey)) =
      keyLine (c :: others) ['k'] (encode smallKey) := by
    apply trim_of_ends
    · rw [shape]
      rintro _ ⟨⟩
      exact clear c List.mem_cons_self
    · intro last found
      rw [shape, ← List.cons_append, List.getLast?_append_of_ne_nil _ (written.word _ (by decide))] at found
      exact written.plain _ last (List.mem_of_getLast? found)
  constructor
  · refine ⟨?_, ⟨encode smallKey, [], ?_, ?_⟩, smallKey_blob, fun _ => ?_⟩
    · rw [Silent, trimmed, shape]
      simp [said.1]
    · rw [decodeBase64, written.read]
      rfl
    · rw [trimmed, keyLine, splitWhitespace_intercalate words]
      rfl
    · simpa using said.2
  · apply lines_single
    · rw [shape]
      exact List.cons_ne_nil _ _
    · have feed : ∀ {word : List Char}, (∀ c ∈ word, isWhitespace c = false) → '\n' ∉ word := fun clear inside =>
        absurd (clear _ inside) (by decide)
      have front := feed clear
      rw [List.mem_cons, not_or] at front
      rw [shape]
      simp only [List.mem_cons, List.mem_append, List.not_mem_nil, or_false, not_or]
      exact ⟨front.1, ⟨front.2, by decide⟩, feed (written.plain _)⟩

def oneFile : StoreFile := ⟨"known_hosts", .user⟩

def oneLine (raw : List Char) : FileSystem where
  openNoFollow _ := .notFound
  readToString _ := .text raw

theorem oneLine_readable (raw : List Char) : Readable (oneLine raw) 0 [oneFile] := by
  intro file inside
  rw [List.mem_singleton.mp inside]
  exact ⟨raw, rfl⟩

theorem oneLine_places (single : lines raw = [raw]) : places (oneLine raw) 0 [oneFile] = [⟨oneFile, 1, raw⟩] := by
  simp only [places, List.flatMap_cons, List.flatMap_nil, List.append_nil]
  rw [placesOf, show readStore (oneLine raw) oneFile 0 = .ok raw from rfl]
  simp [single]

theorem oneLine_wellFormed (single : lines raw = [raw]) (spells : Spells crypto raw entry) :
    WellFormed crypto (places (oneLine raw) 0 [oneFile]) := by
  rw [oneLine_places single]
  intro place inside
  obtain rfl := List.mem_singleton.mp inside
  exact .inr ⟨_, spells⟩

/-- On a host with a `*`, a key recorded for it is unknown. -/
theorem starred_check (written : Written crypto encode) {host : List Char} {port : UInt16}
    (spelled : encodeUtf8 (toAsciiLowercase (hostSpelling host port)) = head ++ asterisk :: tail)
    (text : raw = keyLine (misread head tail) ['k'] (encode smallKey)) :
    WellFormed crypto (places (oneLine raw) 0 [oneFile]) ∧
      Holds crypto (Named crypto (hostSpelling host port)) none (places (oneLine raw) 0 [oneFile]) smallKey ∧
      checkAllAs crypto (oneLine raw) [oneFile] host port smallKey 0 =
        .ok (.unknown (fingerprint crypto smallKey) false) := by
  obtain ⟨missed, names⟩ := misread_named crypto head tail spelled
  obtain ⟨c, rest, first⟩ := misread_head head tail
  have symbols : ∀ c ∈ misread head tail, c = '?' ∨ c = '*' := fun c inside => misread_symbols inside
  have said : c ≠ '#' ∧ c ≠ '@' := by
    rcases symbols c (first ▸ List.mem_cons_self) with rfl | rfl <;> decide
  have clear : ∀ c ∈ misread head tail, isWhitespace c = false := by
    intro c inside
    rcases symbols c inside with rfl | rfl <;> decide
  obtain ⟨spells, single⟩ := keyLine_spells written (by rw [first]; rfl) said clear
  rw [← text] at spells single
  have only := oneLine_places single
  have formed := oneLine_wellFormed single spells
  -- The scan finds no line that names the host.
  have unsaid : ∀ marker, ¬ ∃ place ∈ places (oneLine raw) 0 [oneFile], ∃ entry,
      Says crypto (ReadAs crypto (hostSpelling host port)) marker place entry := by
    rintro marker ⟨place, inside, entry, there, -, reads⟩
    rw [only, List.mem_singleton] at inside
    rw [inside] at there
    rw [spells_unique crypto there spells, ReadAs, missed] at reads
    cases reads
  refine ⟨formed, ?_, ?_⟩
  · rw [only]
    exact ⟨_, List.mem_singleton_self _, _, ⟨spells, rfl, names⟩, rfl⟩
  · rcases checkAllAs_rules crypto (oneLine_readable raw) host port smallKey with ⟨-, verdict, ran, rules⟩ |
      ⟨malformed, -⟩
    · rw [ran]
      cases rules with
      | revoked inside there _ => exact absurd ⟨_, inside, _, there⟩ (unsaid _)
      | matched _ recorded =>
        obtain ⟨place, inside, entry, there, -⟩ := recorded
        exact absurd ⟨place, inside, entry, there⟩ (unsaid _)
      | mismatch _ _ listed some_ => exact absurd (Lists.someLine listed some_) (unsaid _)
      | unknown _ _ covered =>
        rw [Bool.eq_false_iff.mpr fun true_ => unsaid _ (covered.mp true_)]
    · exact absurd formed malformed

theorem starred_host (written : Written crypto encode) {host : List Char} (port : UInt16) (starred : '*' ∈ host) :
    ¬ ByLines crypto host port := by
  intro byLines
  have inside : asterisk ∈ encodeUtf8 (toAsciiLowercase (hostSpelling host port)) :=
    (ascii_mem_encodeUtf8 (by decide)).mpr
    ((mem_map_toLower (by decide)).mpr ((asterisk_spelling host port).mpr starred))
  obtain ⟨head, tail, spelled⟩ := List.append_of_mem inside
  obtain ⟨formed, held, checked⟩ := starred_check written spelled rfl
  obtain ⟨verdict, ran, rules⟩ := (byLines smallKey _ 0 _ (oneLine_readable _)).1 formed
  cases checked.symm.trans ran
  cases rules with
  | unknown _ unrecorded =>
    obtain ⟨place, inside, entry, there, -⟩ := held
    exact unrecorded place inside entry there

/-- The host-key check is the verdict of the recorded lines, in whatever order and file
they stand, exactly for the hosts without a `*`. -/
theorem check_by_lines (crypto : Crypto) (encode : List UInt8 → List Char) (written : Written crypto encode)
    (host : List Char) (port : UInt16) : ByLines crypto host port ↔ '*' ∉ host := by
  constructor
  · exact fun byLines starred => starred_host written port starred byLines
  · intro clear
    apply byLines_of_reading
    intro patterns
    rw [patternsMatch_named crypto ((asterisk_spelling host port).not.mpr clear)]

/-- Base64 as the crate reads it. No line and no verdict below asks for a hash. -/
def plainCrypto : Crypto where
  standard := Base64.decode
  standardNoPad := Base64.decodeNoPad
  encodeNoPad bytes := String.ofList ((Base64.encode bytes).filter (· ≠ '='))
  sha256 _ := []
  hmacSha1 _ _ := []

theorem plainCrypto_written : Written plainCrypto Base64.encode where
  read := Base64.decode_encode
  plain bytes c inside := by
    have digits : ∀ n < 64, isWhitespace (Base64.digit n) = false := by decide +kernel
    rcases Base64.mem_encode inside with rfl | ⟨n, small, rfl⟩
    · decide
    · exact digits n small
  word bytes := Base64.encode_ne_nil

/-- The key is recorded for every host that a `*` and two symbols cover, and `*a` is one of
them: the verdict is not `Matched`. -/
theorem check_by_lines_starred :
    WellFormed plainCrypto (places (oneLine "*?? k AAAAAWsA".toList) 0 [oneFile]) ∧
      Holds plainCrypto (Named plainCrypto "*a".toList) none
        (places (oneLine "*?? k AAAAAWsA".toList) 0 [oneFile]) smallKey ∧
      (∃ shown, checkAllAs plainCrypto (oneLine "*?? k AAAAAWsA".toList) [oneFile] "*a".toList 22 smallKey 0 =
        .ok (.unknown shown false)) ∧
      ¬ ByLines plainCrypto "*a".toList 22 := by
  have spelled : encodeUtf8 (toAsciiLowercase (hostSpelling "*a".toList 22)) = [] ++ asterisk :: [97] := by decide
  have text : "*?? k AAAAAWsA".toList = keyLine (misread [] [97]) ['k'] (Base64.encode smallKey) := by decide
  obtain ⟨formed, held, checked⟩ := starred_check plainCrypto_written spelled text
  exact ⟨formed, held, ⟨_, checked⟩, starred_host plainCrypto_written 22 (by decide)⟩

/-- A key recorded for the host `h` is found as the lines say. -/
theorem check_by_lines_recorded :
    ∃ verdict, checkAllAs plainCrypto (oneLine "h k AAAAAWsA".toList) [oneFile] "h".toList 22 smallKey 0 = .ok verdict ∧
      Rules plainCrypto (Named plainCrypto "h".toList)
        (places (oneLine "h k AAAAAWsA".toList) 0 [oneFile]) smallKey verdict := by
  have text : "h k AAAAAWsA".toList = keyLine "h".toList ['k'] (Base64.encode smallKey) := by decide
  have clear : ∀ c ∈ "h".toList, isWhitespace c = false := List.forall_mem_singleton.mpr (by decide)
  have first : "h".toList.head? = some 'h' := rfl
  obtain ⟨spells, single⟩ := keyLine_spells plainCrypto_written first (by decide) clear
  rw [← text] at spells single
  have byLines := (check_by_lines plainCrypto Base64.encode plainCrypto_written "h".toList 22).mpr (by decide)
  exact (byLines smallKey _ 0 _ (oneLine_readable _)).1 (oneLine_wellFormed single spells)

end QueryHive.Tunnel.KnownHosts
