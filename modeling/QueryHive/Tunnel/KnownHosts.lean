import QueryHive.Library.Result
import QueryHive.Library.Text
import QueryHive.Tunnel.Pattern

/-! Reading and matching `known_hosts`: what one line says, which hosts its pattern list
names, and the scan of every line of every file for one host and one key. Base64,
SHA-256, HMAC-SHA1 and the file system are given. -/
namespace QueryHive.Tunnel.KnownHosts
open QueryHive.Library.Text QueryHive.Library.Result QueryHive.Tunnel.Pattern

/-- What the file uses of other crates. -/
structure Crypto where
  /-- `STANDARD.decode` and `STANDARD_NO_PAD.decode`. -/
  standard : List Char → Option (List UInt8)
  standardNoPad : List Char → Option (List UInt8)
  /-- `STANDARD_NO_PAD.encode`. -/
  encodeNoPad : List UInt8 → String
  sha256 : List UInt8 → List UInt8
  /-- The key, then the message. -/
  hmacSha1 : List UInt8 → List UInt8 → List UInt8

/-- Whose file a record came from. -/
inductive Origin where
  | app | user | system
  deriving DecidableEq, Repr

structure StoreFile where
  path : String
  origin : Origin
  deriving DecidableEq, Repr

inductive Error where
  | knownHostsUnreadable (path : String)
  | malformedKnownHosts (file : String) (line : Nat)
  | hostKeyStoreUnsafe (path reason : String)
  deriving DecidableEq, Repr

/-- What opening a path without following a symbolic link gives. -/
inductive Opened where
  | notFound | symbolicLink | failed
  | file (isFile : Bool) (uid : Nat) (mode : Nat) (content : Option (List Char))
  deriving DecidableEq, Repr

/-- What `read_to_string` of a path gives. -/
inductive Reading where
  | notFound | failed
  | text (content : List Char)
  deriving DecidableEq, Repr

/-- The file system at one moment. -/
structure FileSystem where
  openNoFollow : String → Opened
  readToString : String → Reading

/-- `open_app_store`, for reading: the descriptor's content, which may fail to be read. -/
def openAppStore (fs : FileSystem) (path : String) (euid : Nat) : Except Error (Option (Option (List Char))) :=
  match fs.openNoFollow path with
  | .notFound => .ok none
  | .symbolicLink => .error (.hostKeyStoreUnsafe path "is a symbolic link")
  | .failed => .error (.knownHostsUnreadable path)
  | .file isFile uid mode content =>
    if !isFile then .error (.hostKeyStoreUnsafe path "is not a regular file")
    else if uid ≠ euid then .error (.hostKeyStoreUnsafe path "is owned by another user")
    else if mode &&& 0o022 ≠ 0 then .error (.hostKeyStoreUnsafe path "is writable by group or others")
    else .ok (some content)

/-- `read_store`. -/
def readStore (fs : FileSystem) (file : StoreFile) (euid : Nat) : Except Error (List Char) :=
  match file.origin with
  | .app => do
    match ← openAppStore fs file.path euid with
    | some (some text) => .ok text
    | some none => .error (.knownHostsUnreadable file.path)
    | none => .ok []
  | _ =>
    match fs.readToString file.path with
    | .text text => .ok text
    | .notFound => .ok []
    | .failed => .error (.knownHostsUnreadable file.path)

inductive Marker where
  | certAuthority | revoked
  deriving DecidableEq, Repr

/-- One parsed line: a marker, the host patterns, and one key. -/
structure Entry where
  marker : Option Marker
  patterns : List Char
  keyType : List Char
  blob : List UInt8
  deriving DecidableEq, Repr

variable (crypto : Crypto)

/-- `decode_base64`: mostly with padding, occasionally without. -/
def decodeBase64 (field : List Char) : Option (List UInt8) :=
  (crypto.standard field).or (crypto.standardNoPad field)

/-- `fingerprint`. -/
def fingerprint (blob : List UInt8) : String := "SHA256:" ++ crypto.encodeNoPad (crypto.sha256 blob)

/-- `u32::from_be_bytes`. -/
def fromBeBytes (bytes : List UInt8) : Nat := bytes.foldl (fun n byte => n * 256 + byte.toNat) 0

def isAsciiGraphic (byte : UInt8) : Bool := 0x21 ≤ byte && byte ≤ 0x7E

/-- `key_type_of`: the algorithm name inside a public key blob. -/
def keyTypeOf (blob : List UInt8) : Option (List Char) :=
  if blob.length < 4 then none
  else
    let length := fromBeBytes (blob.take 4)
    let rest := blob.drop 4
    if rest.length < length then none
    else match fromUtf8 (rest.take length) with
      | none => none
      | some name =>
        if rest.take length = [] ∨ ¬ (rest.take length).all isAsciiGraphic ∨ rest.drop length = [] then none
        else some name.toList

/-- The end of `Entry::parse`: what follows the patterns. -/
def Entry.key (malformed : Error) (marker : Option Marker) (patterns : List Char) :
    List (List Char) → Except Error (Option Entry)
  | token :: body :: _ =>
    match decodeBase64 crypto body with
    | none => .error malformed
    | some blob =>
      match keyTypeOf blob with
      | none => .error malformed
      | some keyType => if keyType ≠ token then .error malformed else .ok (some ⟨marker, patterns, keyType, blob⟩)
  | _ => .error malformed

/-- `Entry::parse`: one line, or nothing for a blank line or a comment. -/
def Entry.parse (raw : List Char) (source : String) (line : Nat) : Except Error (Option Entry) :=
  let raw := trim raw
  if raw = [] ∨ raw.head? = some '#' then .ok none
  else
    let malformed := Error.malformedKnownHosts source line
    match splitWhitespace raw with
    | [] => .error malformed
    | first :: fields =>
      if first = "@cert-authority".toList then
        match fields with
        | patterns :: fields => Entry.key crypto malformed (some .certAuthority) patterns fields
        | [] => .error malformed
      else if first = "@revoked".toList then
        match fields with
        | patterns :: fields => Entry.key crypto malformed (some .revoked) patterns fields
        | [] => .error malformed
      -- An unknown marker is not guessed at.
      else if first.head? = some '@' then .error malformed
      else Entry.key crypto malformed none first fields

def toAsciiLowercase (text : List Char) : List Char := text.map Char.toLower

/-- `hashed_matches`: HMAC-SHA1 of the host under the salt of `salt|hash`. -/
def hashedMatches (hashed host : List Char) : Bool :=
  match hashed.splitOn '|' with
  | [salt, hash] =>
    match decodeBase64 crypto salt, decodeBase64 crypto hash with
    | some salt, some hash => crypto.hmacSha1 salt (encodeUtf8 host) = hash
    | _, _ => false
  | _ => false

/-- One pattern without its `!`. -/
def patternMatches (pattern host : List Char) : Bool :=
  match pattern with
  | '|' :: '1' :: '|' :: hashed => hashedMatches crypto hashed host
  | pattern => glob (encodeUtf8 (toAsciiLowercase pattern)) (encodeUtf8 host)

/-- The loop of `patterns_match`, with what was found so far. -/
def patternsMatchFrom (host : List Char) : List (List Char) → Bool → Bool
  | [], positive => positive
  | [] :: rest, positive => patternsMatchFrom host rest positive
  | ('!' :: pattern) :: rest, positive =>
    if patternMatches crypto pattern host then false else patternsMatchFrom host rest positive
  | pattern :: rest, positive =>
    if patternMatches crypto pattern host then patternsMatchFrom host rest true
    else patternsMatchFrom host rest positive

/-- `patterns_match`. -/
def patternsMatch (patterns host : List Char) : Bool :=
  patternsMatchFrom crypto (toAsciiLowercase host) (patterns.splitOn ',') false

/-- `host_spelling`. -/
def hostSpelling (host : List Char) (port : UInt16) : List Char :=
  if port = 22 then host else '[' :: host ++ ']' :: ':' :: Nat.toDigits 10 port.toNat

/-- A key already on record, with the line it came from. -/
structure RecordedKey where
  keyType : List Char
  blob : List UInt8
  line : Nat
  file : String
  origin : Origin
  deriving DecidableEq, Repr

inductive HostKeyVerdict where
  | matched
  | unknown (fingerprint : String) (coveredByCertificateAuthority : Bool)
  | mismatch (recorded : List RecordedKey)
  | revoked (line : Nat) (file : String)
  deriving DecidableEq, Repr

/-- What reading every line for one host and one key adds up to. -/
structure Scan where
  spelling : List Char
  blob : List UInt8
  recorded : List RecordedKey := []
  matched : Bool := false
  caCovered : Bool := false
  revoked : Option (String × Nat) := none

def Scan.add (file : StoreFile) (line : Nat) (entry : Entry) (scan : Scan) : Scan :=
  match entry.marker with
  | some .certAuthority => { scan with caCovered := true }
  | some .revoked =>
    if entry.blob = scan.blob ∧ scan.revoked = none then { scan with revoked := some (file.path, line) } else scan
  | none =>
    if entry.blob = scan.blob then { scan with matched := true }
    else { scan with recorded := scan.recorded ++ [⟨entry.keyType, entry.blob, line, file.path, file.origin⟩] }

def Scan.addLine (file : StoreFile) (scan : Scan) (numbered : List Char × Nat) : Except Error Scan := do
  match ← Entry.parse crypto numbered.1 file.path numbered.2 with
  | none => pure scan
  | some entry =>
    if patternsMatch crypto entry.patterns scan.spelling then pure (scan.add file numbered.2 entry) else pure scan

/-- `add_text`. -/
def Scan.addText (file : StoreFile) (text : List Char) (scan : Scan) : Except Error Scan :=
  ((lines text).zipIdx 1).foldlM (Scan.addLine crypto file) scan

/-- `finish`, as a verdict: decided only after every line of every file has been read. -/
def Scan.finish (scan : Scan) : HostKeyVerdict :=
  match scan.revoked with
  | some (file, line) => .revoked line file
  | none =>
    if scan.matched then .matched
    else if scan.recorded ≠ [] then .mismatch scan.recorded
    else .unknown (fingerprint crypto scan.blob) scan.caCovered

/-- `check_all_as`. -/
def checkAllAs (fs : FileSystem) (files : List StoreFile) (host : List Char) (port : UInt16) (blob : List UInt8)
    (euid : Nat) : Except Error HostKeyVerdict := do
  let scan ← files.foldlM (fun scan file => do Scan.addText crypto file (← readStore fs file euid) scan)
    { spelling := hostSpelling host port, blob := blob }
  pure (scan.finish crypto)

/-- The type of an unmarked line that names the host, when it is not listed yet. -/
def addType (spelling : List Char) (file : StoreFile) (types : List (List Char)) (numbered : List Char × Nat) :
    Except Error (List (List Char)) := do
  match ← Entry.parse crypto numbered.1 file.path numbered.2 with
  | none => pure types
  | some entry =>
    if entry.marker = none ∧ patternsMatch crypto entry.patterns spelling ∧ entry.keyType ∉ types then
      pure (types ++ [entry.keyType])
    else pure types

/-- `recorded_key_types`. -/
def recordedKeyTypes (fs : FileSystem) (files : List StoreFile) (host : List Char) (port : UInt16) (euid : Nat) :
    Except Error (List (List Char)) :=
  files.foldlM (fun types file => do
    ((lines (← readStore fs file euid)).zipIdx 1).foldlM (addType crypto (hostSpelling host port) file) types) []

end QueryHive.Tunnel.KnownHosts
