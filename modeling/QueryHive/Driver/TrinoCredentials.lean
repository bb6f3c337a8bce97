import QueryHive.Core.Error

/-! What a request to the coordinator carries, and where it may go: the secret of a
connection, the one address it may be sent to, and the function every request is built
with. How a URL is read is a parameter, the same for every URL. -/
namespace QueryHive.Driver.Trino
open QueryHive.Core

inductive TlsMode where
  | disable | prefer | require | requireNoVerify
  deriving DecidableEq, Repr

/-- The parts of a connection config that the driver reads; of a CA file its path. -/
structure ConnectionConfig where
  host : String
  port : Nat
  user : String
  password : Option String := none
  database : Option String := none
  schema : Option String := none
  tls : TlsMode := .prefer
  insecure : Bool := false
  tlsCa : Option String := none
  bearer : Option String := none
  tlsServerName : Option String := none
  deriving DecidableEq, Repr

/-- `ca_for_verifying_mode`: a bundle only means something in the mode that verifies. -/
def ConnectionConfig.caForVerifyingMode (config : ConnectionConfig) : Except EngineError (Option String) :=
  match config.tlsCa with
  | some path =>
    if config.tls ≠ .require || config.insecure then
      let mode := match config.tls, config.insecure with
        | .disable, _ => "not encrypted"
        | .prefer, _ => "prefer, which does not verify"
        | _, true => "set to skip certificate verification"
        | _, false => "require without verification"
      .error (.usage ("a CA file (" ++ path ++
        ") only applies when the certificate is verified, and this connection is " ++
        mode ++ ": it would be ignored and the connection would not be pinned to that CA. Use verify-ca or " ++
        "verify-full, or remove the CA file"))
    else .ok (some path)
  | none => .ok none

def ConnectionConfig.hasSecret (config : ConnectionConfig) : Bool := config.password.isSome || config.bearer.isSome

/-- `scheme_for`: falling back to clear is the exception, never where a mode starts. -/
def schemeFor : TlsMode → String
  | .disable => "http"
  | .prefer | .require | .requireNoVerify => "https"

/-- `authority`: `host:port`, an IPv6 literal in brackets. -/
def authority (host : String) (port : Nat) : String :=
  if host.toList.contains ':' && host.toList.head? ≠ some '[' then "[" ++ host ++ "]:" ++ toString port
  else host ++ ":" ++ toString port

/-- The address of the session: what its URLs start with. -/
def ConnectionConfig.address (config : ConnectionConfig) : String :=
  schemeFor config.tls ++ "://" ++ authority (config.tlsServerName.getD config.host) config.port

/-- The text after `://`. -/
def afterScheme : List Char → Option (List Char)
  | [] => none
  | c :: rest => if ['/', '/'] <+: rest && c = ':' then some (rest.drop 2) else afterScheme rest

/-- `with_scheme`: the same authority under a different scheme. -/
def withScheme (scheme base : String) : String :=
  scheme ++ "://" ++ ((afterScheme base.toList).map String.ofList).getD base

/-- What a URL parser reads of a URL: its scheme, its host, and its port or the one its
scheme has by default. -/
structure Url where
  scheme : String
  host : Option String
  port : Option Nat
  deriving DecidableEq, Repr

/-- Where a URL is. -/
structure Origin where
  scheme : String
  host : String
  port : Nat
  deriving DecidableEq, Repr

def Origin.shown (origin : Origin) : String := origin.scheme ++ "://" ++ origin.host ++ ":" ++ toString origin.port

section
variable (parse : String → Option Url)

/-- `Origin::of`. -/
def Origin.of (url : String) : Except String Origin :=
  match parse url with
  | none => .error "it is not a URL"
  | some ⟨scheme, some host, some port⟩ =>
    if scheme = "http" || scheme = "https" then .ok ⟨scheme, host, port⟩
    else .error "it has no host, port or http scheme"
  | some _ => .error "it has no host, port or http scheme"

/-- Who is asking, with what secret, and the one address it may be sent to. -/
structure Credentials where
  user : String
  password : Option String
  bearer : Option String := none
  origin : Option Origin := none
  deriving DecidableEq, Repr

def defaultUser : String := "queryhive"

/-- `non_empty`. -/
def nonEmpty (text : String) : Option String :=
  let trimmed := Library.Text.trim text.toList
  if trimmed.isEmpty then none else some (String.ofList trimmed)

/-- `Credentials::new`. -/
def Credentials.new (user : String) (password : Option String) : Credentials :=
  { user := (nonEmpty user).getD defaultUser, password := password }

def Credentials.hasSecret (credentials : Credentials) : Bool :=
  credentials.password.isSome || credentials.bearer.isSome

/-- `refusal_for`: why a request to the URL must not carry the secret. -/
def Credentials.refusalFor (url : String) (credentials : Credentials) : Option String :=
  if !credentials.hasSecret then none
  else match credentials.origin with
    | none => some "these credentials have no session address on record, so they were not sent"
    | some session =>
      match Origin.of parse url with
      | .error _ =>
        some "the coordinator sent a URL that could not be read, so the credentials were not sent"
      | .ok target =>
        if target ≠ session then
          some ("the coordinator sent a page URL on " ++ target.shown ++ ", not on " ++ session.shown ++
            " (the address this connection uses), so the credentials were not sent. Check the coordinator's " ++
            "external address and its forwarded-header handling.")
        else if credentials.bearer.isSome && session.scheme ≠ "https" then
          some ("a bearer token is only sent over https, and this connection uses " ++ session.shown)
        else none

inductive Method where
  | get | post | delete
  deriving DecidableEq, Repr

/-- The `Authorization` header. -/
inductive Authorization where
  | bearer (token : String)
  | basic (user password : String)
  deriving DecidableEq, Repr

/-- An HTTP client, as far as it matters where requests go: whether it follows the
redirects it is answered with. -/
structure Client where
  tls : TlsMode
  redirects : Bool
  deriving DecidableEq, Repr

structure HttpRequest where
  client : Client
  method : Method
  url : String
  authorization : Option Authorization
  headers : List (String × String)
  body : Option String := none
  deriving DecidableEq, Repr

/-- `authorized`: the one function that attaches a secret, and the one that checks the
destination first. -/
def authorized (client : Client) (method : Method) (url : String) (credentials : Credentials) :
    Except String HttpRequest :=
  match credentials.refusalFor parse url with
  | some reason => .error reason
  | none => .ok {
      client := client, method := method, url := url
      authorization := match credentials.bearer, credentials.password with
        | some token, _ => some (.bearer token)
        | none, some password => some (.basic credentials.user password)
        | none, none => none
      headers := [("X-Trino-User", credentials.user), ("X-Trino-Client-Capabilities", "PARAMETRIC_DATETIME")] }

end

/-- What goes out on the wire: where to, and with what header. -/
structure Sent where
  url : String
  authorization : Option Authorization
  deriving DecidableEq, Repr

/-- The requests a client makes of one: the request, and every redirect it follows, which
keeps the header where only the scheme changes. -/
def HttpRequest.sends (request : HttpRequest) (redirects : List String) : List Sent :=
  ⟨request.url, request.authorization⟩ ::
    if request.client.redirects then redirects.map fun url => ⟨url, request.authorization⟩ else []

/-- How the parts of `connect` end that other code decides: reading the roots of a CA
file, and building the two clients. -/
structure Building where
  roots : Option EngineError := none
  client : Option EngineError := none
  fallback : Option EngineError := none
  deriving DecidableEq, Repr

structure TrinoSession where
  client : Client
  fallback : Option Client
  base : String
  credentials : Credentials
  catalog : String
  schema : String
  lastId : Option String := none
  deriving DecidableEq, Repr

def clientError (message : String) : EngineError := .connect message .permanent

/-- The step of `connect` that refuses two secrets, and a token that may go in clear. -/
def ConnectionConfig.refusedBearer (config : ConnectionConfig) : Option EngineError :=
  if config.bearer.isNone then none
  else if config.password.isSome then
    some (.usage "a connection sends a password or a bearer token, not both")
  else if config.tls = .require || config.tls = .requireNoVerify then none
  else some (.usage ("a bearer token is only sent over verified or unverified TLS, never over http or a mode that may " ++
    "fall back to it"))

/-- `loopback_of`: a TLS server name needs the host to be an address. -/
def loopbackOf (isAddress : String → Bool) (config : ConnectionConfig) : Except EngineError Unit :=
  if config.tlsServerName.isSome && !isAddress config.host then
    .error (.usage ("a TLS server name needs the connection address to be an IP address (the tunnel's loopback " ++
      "endpoint)"))
  else .ok ()

def refuse : Option EngineError → Except EngineError Unit
  | some error => .error error
  | none => .ok ()

/-- `build_client`. -/
def buildClient (failure : Option EngineError) (tls : TlsMode) (noRedirects : Bool) : Except EngineError Client :=
  match failure with
  | some error => .error error
  | none => .ok ⟨tls, !noRedirects⟩

/-- The plaintext client that `Prefer` keeps in reserve; a session with a secret has none. -/
def buildFallback (building : Building) (config : ConnectionConfig) : Except EngineError (Option Client) :=
  if config.tls = .prefer && !config.hasSecret then (buildClient building.fallback .disable false).map some
  else .ok none

def bindCredentials (parse : String → Option Url) (config : ConnectionConfig) : Except EngineError Credentials :=
  let credentials := { Credentials.new config.user config.password with bearer := config.bearer }
  if config.hasSecret then
    match Origin.of parse config.address with
    | .ok origin => .ok { credentials with origin := some origin }
    | .error why =>
      .error (clientError ("the coordinator address " ++ config.address ++ " is not usable: " ++ why))
  else .ok credentials

/-- `connect`. -/
def connect (parse : String → Option Url) (isAddress : String → Bool) (building : Building)
    (config : ConnectionConfig) :
    Except EngineError TrinoSession := do
  let ca ← config.caForVerifyingMode
  refuse (if ca.isSome then building.roots else none)
  refuse config.refusedBearer
  loopbackOf isAddress config
  let client ← buildClient building.client config.tls config.hasSecret
  let fallback ← buildFallback building config
  let credentials ← bindCredentials parse config
  return {
    client := client, fallback := fallback, base := config.address, credentials := credentials
    catalog := config.database.getD "", schema := config.schema.getD "" }

end QueryHive.Driver.Trino
