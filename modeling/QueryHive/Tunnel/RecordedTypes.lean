import QueryHive.Tunnel.HostKeyVerdict

/-! Which of a server's keys is checked. The types on record are read before the handshake, and
algorithms of these types are offered first. -/
namespace QueryHive.Tunnel.KnownHosts
open QueryHive.Library QueryHive.Library.Text QueryHive.Library.Result

variable {crypto : Crypto} {blob : List UInt8} {types : List (List Char)} {seen : List Place}

open Classical in
/-- The key of a line is among the keys that are listed. -/
theorem Lists.record (listed : Lists crypto named seen recorded) (inside : place ∈ seen)
    (said : Says crypto named none place entry) :
    ∃ key ∈ recorded, key.keyType = entry.keyType ∧ key.blob = entry.blob := by
  have kept : place ∈ seen.filter fun place => ∃ entry, Says crypto named none place entry :=
    List.mem_filter.mpr ⟨inside, decide_eq_true ⟨entry, said⟩⟩
  obtain ⟨i, small, rfl⟩ := List.getElem_of_mem kept
  obtain ⟨other, said', same⟩ := List.Forall₂.get listed small (listed.length_eq ▸ small)
  obtain rfl := spells_unique crypto said'.1 said.1
  refine ⟨_, List.get_mem recorded ⟨i, listed.length_eq ▸ small⟩, ?_⟩
  rw [same]
  exact ⟨rfl, rfl⟩

theorem readable_of_types {step : List (List Char) → StoreFile → List Char → Except Error (List (List Char))}
    {start : List (List Char)}
    (read : files.foldlM (fun types file => do step types file (← readStore fs file euid)) start = .ok types) :
    Readable fs euid files := by
  induction files generalizing start with
  | nil => exact nofun
  | cons file rest ih =>
    rw [List.foldlM_cons] at read
    obtain ⟨next, first, later⟩ := bind_ok_iff.mp read
    obtain ⟨text, told, -⟩ := bind_ok_iff.mp first
    exact List.forall_mem_cons.mpr ⟨⟨text, told⟩, ih later⟩

inductive EcdsaCurve where
  | nistP256 | nistP384 | nistP521
  deriving DecidableEq, Repr

def EcdsaCurve.asStr : EcdsaCurve → String
  | nistP256 => "nistp256"
  | nistP384 => "nistp384"
  | nistP521 => "nistp521"

inductive HashAlg where
  | sha256 | sha512
  deriving DecidableEq, Repr

/-- A host-key algorithm. The last stands for those that `is_recorded` never takes as recorded. -/
inductive Algorithm where
  | ed25519
  | ecdsa (curve : EcdsaCurve)
  | rsa (hash : Option HashAlg)
  | other (name : String)
  deriving DecidableEq, Repr

/-- `is_recorded`. -/
def isRecorded (algorithm : Algorithm) (recorded : List (List Char)) : Bool :=
  recorded.any fun name =>
    match algorithm with
    | .ed25519 => name = "ssh-ed25519".toList
    | .ecdsa curve => name = "ecdsa-sha2-".toList ++ curve.asStr.toList
    | .rsa _ => name = "ssh-rsa".toList
    | .other _ => false

/-- By the key of the sort, whether one algorithm may stand before another. -/
def mayPrecede (recorded : List (List Char)) (a b : Algorithm) : Bool :=
  (!isRecorded a recorded) ≤ (!isRecorded b recorded)

/-- The keys of `client_config`: a stable sort, recorded kinds first. -/
def offered (default : List Algorithm) (recorded : List (List Char)) : List Algorithm :=
  default.mergeSort (mayPrecede recorded)

def Algorithm.keyType : Algorithm → Option (List Char)
  | ed25519 => some "ssh-ed25519".toList
  | ecdsa curve => some ("ecdsa-sha2-".toList ++ curve.asStr.toList)
  | rsa _ => some "ssh-rsa".toList
  | other _ => none

theorem isRecorded_iff {algorithm : Algorithm} :
    isRecorded algorithm types ↔ ∃ keyType ∈ types, algorithm.keyType = some keyType := by
  rw [isRecorded, List.any_eq_true]
  refine exists_congr fun name => and_congr_right fun _ => ?_
  cases algorithm with
  | other _ => exact ⟨nofun, nofun⟩
  | ed25519 => rw [decide_eq_true_eq, Algorithm.keyType, Option.some.injEq, eq_comm]
  | ecdsa curve => rw [decide_eq_true_eq, Algorithm.keyType, Option.some.injEq, eq_comm]
  | rsa hash => rw [decide_eq_true_eq, Algorithm.keyType, Option.some.injEq, eq_comm]

/-- A server's host keys, by algorithm. The keys of an algorithm hold its name. -/
structure Server where
  key : Algorithm → Option (List UInt8)
  speaks : ∀ algorithm keyType blob, algorithm.keyType = some keyType → key algorithm = some blob →
    keyTypeOf blob = some keyType

/-- The handshake agrees on the first offered algorithm for which the server has a key. -/
def Presents (server : Server) (offer : List Algorithm) (blob : List UInt8) : Prop :=
  offer.findSome? server.key = some blob

def HasRecorded (server : Server) (default : List Algorithm) (types : List (List Char)) : Prop :=
  ∃ algorithm ∈ default, isRecorded algorithm types ∧ (server.key algorithm).isSome

theorem offered_first (default : List Algorithm) (types : List (List Char)) :
    (offered default types).Pairwise fun a b => isRecorded b types → isRecorded a types := by
  have transitive : ∀ a b c, mayPrecede types a b → mayPrecede types b c → mayPrecede types a c :=
    fun _ _ _ first second =>
    decide_eq_true (Bool.le_trans (of_decide_eq_true first) (of_decide_eq_true second))
  have total : ∀ a b, mayPrecede types a b || mayPrecede types b a := by simp [mayPrecede, Bool.le_total]
  refine (List.pairwise_mergeSort transitive total default).imp fun {a b} least recorded => ?_
  rw [mayPrecede, recorded] at least
  cases first : isRecorded a types with
  | true => rfl
  | false =>
    rw [first] at least
    exact absurd (of_decide_eq_true least) (by decide)

theorem presents_recorded {server : Server} {default : List Algorithm}
    (shown : Presents server (offered default types) blob)
    (has : HasRecorded server default types) : ∃ keyType ∈ types, keyTypeOf blob = some keyType := by
  obtain ⟨before, chosen, after, split, presents, missing⟩ := List.findSome?_eq_some_iff.mp shown
  obtain ⟨algorithm, inside, recorded, some_⟩ := has
  have first : isRecorded chosen types := by
    have sorted := offered_first default types
    rw [split, List.pairwise_append, List.pairwise_cons] at sorted
    have place : algorithm ∈ before ++ chosen :: after := split ▸ List.mem_mergeSort.mpr inside
    rcases List.mem_append.mp place with earlier | here
    · rw [missing algorithm earlier] at some_
      cases some_
    · rcases List.mem_cons.mp here with rfl | later
      · exact recorded
      · exact sorted.2.1.1 algorithm later recorded
  obtain ⟨keyType, listed, named⟩ := isRecorded_iff.mp first
  exact ⟨keyType, listed, server.speaks chosen keyType blob named presents⟩

def Fair (server : Server) (default : List Algorithm) (types : List (List Char)) (blob : List UInt8) :
    HostKeyVerdict → Prop
  | .matched => ∃ keyType ∈ types, keyTypeOf blob = some keyType
  | .mismatch recorded => HasRecorded server default types →
      ∃ key ∈ recorded, keyTypeOf blob = some key.keyType ∧ key.blob ≠ blob
  | .unknown _ _ => ¬ HasRecorded server default types
  | .revoked _ _ => True

/-- A server that has a key of a kind on record is compared on such a kind: it is not taken
for unknown, and where it is said to have changed, a key of the presented type is on record
and is another. -/
theorem compared_on_record (crypto : Crypto) (fs : FileSystem) (files : List StoreFile) (host : List Char)
    (port : UInt16)
    (euid : Nat) (default : List Algorithm) (server : Server) (types : List (List Char)) (blob : List UInt8)
    (read : recordedKeyTypes crypto fs files host port euid = .ok types)
    (shown : Presents server (offered default types) blob) :
    ∃ verdict, checkAllAs crypto fs files host port blob euid = .ok verdict ∧
      Fair server default types blob verdict := by
  have readable : Readable fs euid files := readable_of_types read
  obtain ⟨formed, held⟩ : WellFormed crypto (places fs euid files) ∧
      Types crypto (hostSpelling host port) (places fs euid files) types := by
    rcases recordedKeyTypes_reads crypto readable host port with ⟨formed, next, ran, held⟩ | ⟨-, error, failed⟩
    · cases read.symm.trans ran
      exact ⟨formed, held⟩
    · cases read.symm.trans failed
  obtain ⟨verdict, checked, rules⟩ : ∃ verdict, checkAllAs crypto fs files host port blob euid = .ok verdict ∧
      Rules crypto (ReadAs crypto (hostSpelling host port)) (places fs euid files) blob verdict := by
    rcases checkAllAs_rules crypto readable host port blob with ⟨-, checked⟩ | ⟨malformed, -⟩
    · exact checked
    · exact absurd formed malformed
  refine ⟨verdict, checked, ?_⟩
  cases rules with
  | revoked => exact trivial
  | matched _ recorded =>
    obtain ⟨place, inside, entry, said, rfl⟩ := recorded
    exact ⟨entry.keyType, (held.listed _).mpr ⟨place, inside, entry, said, rfl⟩, keyTypeOf_keyBlob.mpr said.1.typed⟩
  | mismatch _ other listed _ =>
    intro has
    obtain ⟨keyType, onRecord, typed⟩ := presents_recorded shown has
    obtain ⟨place, inside, entry, said, rfl⟩ := (held.listed _).mp onRecord
    obtain ⟨key, among, same, own⟩ := listed.record inside said
    exact ⟨key, among, same ▸ typed, fun equal => other ⟨place, inside, entry, said, own.symm.trans equal⟩⟩
  | unknown _ unrecorded =>
    intro has
    obtain ⟨keyType, onRecord, -⟩ := presents_recorded shown has
    obtain ⟨place, inside, entry, said, -⟩ := (held.listed _).mp onRecord
    exact unrecorded place inside entry said

def ed25519Key (data : List UInt8) : List UInt8 := [0, 0, 0, 11] ++ utf8 "ssh-ed25519" ++ data

theorem ed25519Key_typed (keyed : data ≠ []) : KeyBlob (ed25519Key data) "ssh-ed25519".toList :=
  ⟨[0, 0, 0, 11], utf8 "ssh-ed25519", data, rfl,
    rfl, by decide, fromUtf8_utf8 _, by decide, List.all_eq_true.mp (by decide), keyed⟩

def ed25519Server : Server where
  key algorithm := if algorithm = .ed25519 then some (ed25519Key [7]) else none
  speaks algorithm keyType blob named held := by
    obtain ⟨rfl, rfl⟩ : algorithm = .ed25519 ∧
      ed25519Key [7] = blob := by simpa [Option.ite_none_right_eq_some] using held
    cases named
    exact keyTypeOf_keyBlob.mpr (ed25519Key_typed (by decide))

def ed25519Line : List Char := "h ssh-ed25519 AAAAC3NzaC1lZDI1NTE5BAUG".toList

theorem ed25519Line_spells : Spells plainCrypto ed25519Line ⟨none, ['h'], "ssh-ed25519".toList,
    ed25519Key [4, 5, 6]⟩ where
  said := by unfold Silent; decide
  words := ⟨"AAAAC3NzaC1lZDI1NTE5BAUG".toList, [], by decide, by decide⟩
  typed := ed25519Key_typed (by decide)
  unmarked _ := by decide

/-- The recorded key is another than the server's. -/
theorem compared_on_record_changed : ∃ verdict,
    checkAllAs plainCrypto (oneLine ed25519Line) [oneFile] ['h'] 22 (ed25519Key [7]) 0 = .ok verdict ∧
      Fair ed25519Server [.ed25519] ["ssh-ed25519".toList] (ed25519Key [7]) verdict := by
  apply compared_on_record
  · have read : Entry.parse plainCrypto ed25519Line "known_hosts" 1 =
        .ok (some ⟨none, ['h'], "ssh-ed25519".toList, ed25519Key [4, 5, 6]⟩) :=
          (parse_spells plainCrypto).mpr ed25519Line_spells
    have alone : ['h'].splitOn ',' = [['h']] := by decide
    have names : patternsMatch plainCrypto ['h'] ['h'] = true := by
      refine (patternsMatch_named plainCrypto (by decide)).mpr
        ⟨⟨['h'], by decide, by decide, by decide, .inr ⟨by decide, .same .nil⟩⟩, ?_⟩
      simp [alone]
    have single : lines ed25519Line = [ed25519Line] := by decide
    have added : addType plainCrypto ['h'] oneFile [] (ed25519Line, 1) = .ok ["ssh-ed25519".toList] := by
      rw [addType, show oneFile.path = "known_hosts" from rfl, read, ok_bind]
      exact if_pos ⟨rfl, names, by decide⟩
    simp only [recordedKeyTypes, List.foldlM_cons, List.foldlM_nil, readStore, oneFile, oneLine, ok_bind, single]
    exact bind_ok_iff.mpr ⟨_, bind_ok_iff.mpr ⟨_, added, rfl⟩, rfl⟩
  · rw [Presents, offered, List.mergeSort_singleton]
    rfl

end QueryHive.Tunnel.KnownHosts
