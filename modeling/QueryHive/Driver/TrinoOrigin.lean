import QueryHive.Driver.TrinoCredentials
import QueryHive.Driver.TrinoCursor
import QueryHive.Library.Result

/-! A Trino session against a coordinator that answers with any pages, statuses and
failures: every request of a connection with a secret goes to the connection's own
origin, and no other request is sent. -/
namespace QueryHive.Driver.Trino
open QueryHive.Core QueryHive.Library.Runs QueryHive.Library.Result

variable {Value : Type}

/-- How the coordinator answers a request in the end. -/
inductive Answer (Value : Type) where
  | unsent (why : String) (notTls : Bool)
  | unread (status : Nat) (shown why : String)
  | responded (status : Nat) (shown body : String) (page : Except String (Page Value))

/-- A reply: the redirects it starts with, for a client that follows them, and the
answer. -/
structure Reply (Value : Type) where
  redirects : List String := []
  answer : Answer Value

def isSuccess (status : Nat) : Bool := 200 ≤ status && status < 300

/-- How a page request ended, as the cursor sees it. -/
def Answer.request : Answer Value → Request
  | unsent why _ => .unsent why
  | unread _ _ why => .unread why
  | responded status shown body page =>
    if !isSuccess status then .status status shown body
    else match page with
      | .error why => .noPage why
      | .ok _ => .answered

def Answer.page : Answer Value → Page Value
  | responded _ _ _ (.ok page) => page
  | _ => {}

/-- A cursor with its own copies of the session's client and credentials. -/
structure Attached (Value : Type) where
  cursor : Cursor Value
  client : Client
  credentials : Credentials
  catalog : String
  schema : String

/-- A session, the query it has running, the cursors it made, and what went out. -/
structure State (Value : Type) where
  session : TrinoSession
  running : Option Running := none
  cursors : List (Attached Value) := []
  sent : List Sent := []

/-- What the operations use of other code: the URL parser, the text a statement is sent
as, and the NULL of a batch. -/
structure Parts (Value : Type) where
  parse : String → Option Url
  wireSql : String → String
  null : Value

variable (parts : Parts Value)

def State.send (request : HttpRequest) (reply : Reply Value) (state : State Value) : State Value :=
  { state with sent := state.sent ++ request.sends reply.redirects }

/-- `post_request`. -/
def postRequest (sql : String) (timeoutMs : Option Nat) (session : TrinoSession) : Except EngineError HttpRequest :=
  match authorized parts.parse session.client .post (session.base ++ "/v1/statement") session.credentials with
  | .error reason => .error (.connect reason .permanent)
  | .ok request => .ok { request with
      headers := request.headers ++ [("Content-Type", "text/plain")] ++
        (timeoutMs.toList.map fun limit => ("X-Trino-Session", "query_max_run_time=" ++ toString limit ++ "ms")) ++
        (if session.catalog.isEmpty then [] else [("X-Trino-Catalog", session.catalog)]) ++
        (if session.schema.isEmpty then [] else [("X-Trino-Schema", session.schema)])
      body := some sql }

/-- What `post` makes of an answer. -/
def readPosted (base sql : String) (timeoutMs : Option Nat) (state : State Value) :
    Answer Value → Except EngineError (Page Value) × State Value
  | .unsent why _ => (.error (.connect ("could not reach " ++ base ++ ": " ++ why) .transient), state)
  | .unread _ _ why => (.error (.query ("the response body could not be read: " ++ why) none none .transient), state)
  | .responded status shown body page =>
    match isSuccess status, page with
    | false, .ok { error := some error, .. } => (.error (mapError error sql timeoutMs), state)
    | false, _ =>
      (.error (.query (shown ++ ": " ++ String.ofList (Library.Text.trim body.toList)) (some (toString status)) none
        .permanent), state)
    | true, .error why =>
      (.error (.query ("the response was not a Trino page: " ++ why) none none .transient), state)
    | true, .ok page =>
      match page.error with
      | some error => (.error (mapError error sql timeoutMs), state)
      | none => (.ok page, { state with running := (runningFrom page).or state.running })

def noTls (base : String) : EngineError :=
  .connect (base ++ " does not speak TLS, and a connection with a password or a token never falls back to plain http. " ++
    "Turn TLS on at the coordinator.") .permanent

/-- The session after the one downgrade that is allowed: the plaintext client is taken, so
there is no other. -/
def TrinoSession.downgraded (plain : Client) (session : TrinoSession) : TrinoSession :=
  { session with client := plain, fallback := none, base := withScheme "http" session.base }

/-- The statement's request and its answer, on the client the session holds. -/
def postOnce (sql : String) (timeoutMs : Option Nat) (reply : Reply Value) (state : State Value) :
    Except EngineError (Page Value) × State Value :=
  match postRequest parts sql timeoutMs state.session with
  | .error error => (.error error, state)
  | .ok request => readPosted state.session.base sql timeoutMs (state.send request reply) reply.answer

/-- `post`: the first request settles the scheme of a session with a fallback. -/
def post (sql : String) (timeoutMs : Option Nat) (first second : Reply Value) (state : State Value) :
    Except EngineError (Page Value) × State Value :=
  match postRequest parts sql timeoutMs state.session with
  | .error error => (.error error, state)
  | .ok request =>
    let sent := state.send request first
    match first.answer, state.session.fallback with
    | .unsent _ true, some plain =>
      postOnce parts sql timeoutMs second { sent with session := state.session.downgraded plain }
    | .unsent why true, none =>
      if state.session.credentials.hasSecret then (.error (noTls state.session.base), sent)
      else readPosted state.session.base sql timeoutMs sent (.unsent why true)
    | answer, _ => readPosted state.session.base sql timeoutMs sent answer

/-- `execute`: the cursor gets its own copies of the client and the credentials. -/
def execute (sql : String) (options : ExecuteOptions) (first second : Reply Value) (state : State Value) :
    Except EngineError Unit × State Value :=
  let sql := parts.wireSql sql
  match post parts sql options.statementTimeout first second state with
  | (.error error, state) => (.error error, state)
  | (.ok page, state) =>
    let session := { state.session with lastId := page.id.or state.session.lastId }
    (.ok (), { state with
      session := session
      cursors := state.cursors ++ [{
        cursor := opened sql options page
        client := session.client, credentials := session.credentials
        catalog := session.catalog, schema := session.schema }] })

def unbound : EngineError :=
  .usage ("Trino's HTTP protocol has no bind parameters, so this statement cannot take values; write them into the SQL " ++
    "text instead (a driver whose Capabilities::parameters is None must be inlined for)")

/-- `execute_bound`. -/
def executeBound (sql : String) (parameters : Nat) (options : ExecuteOptions) (first second : Reply Value)
    (state : State Value) : Except EngineError Unit × State Value :=
  if parameters = 0 then execute parts sql options first second state else (.error unbound, state)

/-- The request of `fetch_page` for one page. -/
def Attached.pageRequest (uri : String) (attached : Attached Value) : Except String HttpRequest :=
  (authorized parts.parse attached.client .get uri attached.credentials).map fun request =>
    { request with
      headers := request.headers ++ [("X-Trino-Catalog", attached.catalog), ("X-Trino-Schema", attached.schema)] }

/-- The request a turn makes, if it makes one, and how it ended. -/
def Attached.fetch (maxRows : Nat) (reply : Reply Value) (state : State Value) (attached : Attached Value) :
    Request × State Value :=
  match attached.cursor.fetches maxRows, attached.cursor.nextUri with
  | true, some uri =>
    match attached.pageRequest parts uri with
    | .error reason => (.refused reason, state)
    | .ok request => (reply.answer.request, state.send request reply)
  | _, _ => (.answered, state)

/-- One turn of `next_batch` on a cursor, which shares the session's running query. -/
def nextBatch (k maxRows : Nat) (reply : Reply Value) (state : State Value) : Option (State Value) :=
  state.cursors[k]?.map fun attached =>
    let attached := { attached with cursor := { attached.cursor with running := state.running } }
    let fetched := attached.fetch parts maxRows reply state
    let cursor := (attached.cursor.turn parts.null maxRows fetched.1 reply.answer.page).2
    { fetched.2 with
      running := cursor.running
      cursors := state.cursors.set k { attached with cursor := cursor } }

/-- Where `delete_running` sends its request. -/
def deleteTarget (base : String) (running : Running) : String :=
  if running.nextUri.isEmpty then base ++ "/v1/statement/" ++ running.id else running.nextUri

/-- What `delete_running` makes of an answer. -/
def readDeleted (state : State Value) : Answer Value → Except EngineError Unit × State Value
  | .unsent why _ => (.error (.query ("could not send the cancel: " ++ why) none none .transient), state)
  | .unread status shown _ | .responded status shown _ _ =>
    if isSuccess status || status = 404 then (.ok (), { state with running := none })
    else (.error (.query ("the server refused the cancel: " ++ shown) (some (toString status)) none .transient), state)

/-- `delete_running`; a refused cancel sends nothing. -/
def deleteRunning (reply : Reply Value) (state : State Value) : Except EngineError Unit × State Value :=
  match state.running with
  | none => (.ok (), state)
  | some running =>
    match authorized parts.parse state.session.client .delete (deleteTarget state.session.base running)
        state.session.credentials with
    | .error reason => (.error (.query reason none none .permanent), state)
    | .ok request => readDeleted (state.send request reply) reply.answer

/-- `cancel`. -/
def cancel (reply : Reply Value) (state : State Value) : Except EngineError Unit × State Value :=
  deleteRunning parts reply state

/-- `reset`: a cancel that the server refused keeps the running query. -/
def reset (reply : Reply Value) (state : State Value) : Except EngineError Unit × State Value :=
  match deleteRunning parts reply state with
  | (.error (.query message (some code) position kind), state) =>
    (.error (.query message (some code) position kind), state)
  | (_, state) => (.ok (), { state with running := none, session := { state.session with lastId := none } })

inductive SessionCall (Value : Type) where
  | execute (sql : String) (options : ExecuteOptions) (first second : Reply Value)
  | executeBound (sql : String) (parameters : Nat) (options : ExecuteOptions) (first second : Reply Value)
  | nextBatch (cursor maxRows : Nat) (reply : Reply Value)
  | cancel (reply : Reply Value)
  | reset (reply : Reply Value)
  | setContext (catalog schema : Option String)

/-- One call, or one turn of `next_batch`. -/
def sessionStep (state : State Value) : SessionCall Value → Option (State Value)
  | .execute sql options first second => some (Trino.execute parts sql options first second state).2
  | .executeBound sql parameters options first second =>
    some (Trino.executeBound parts sql parameters options first second state).2
  | .nextBatch cursor maxRows reply => Trino.nextBatch parts cursor maxRows reply state
  | .cancel reply => some (Trino.cancel parts reply state).2
  | .reset reply => some (Trino.reset parts reply state).2
  | .setContext catalog schema =>
    some { state with session := { state.session with catalog := catalog.getD "", schema := schema.getD "" } }

/-- A request at home: on the origin, and over https when it carries a token. -/
structure AtHome (parse : String → Option Url) (origin : Origin) (sent : Sent) : Prop where
  same : Origin.of parse sent.url = .ok origin
  secure : ∀ token, sent.authorization = some (.bearer token) → origin.scheme = "https"

/-- What is true of a session with a secret, however it is used: it keeps its credentials
and its address, its clients follow no redirect, and there is none in reserve. -/
structure Bound (parse : String → Option Url) (origin : Origin) (credentials : Credentials) (base : String)
    (state : State Value) : Prop where
  carries : state.session.credentials = credentials
  base : state.session.base = base
  fallback : state.session.fallback = none
  redirects : state.session.client.redirects = false
  cursors : ∀ attached ∈ state.cursors, attached.credentials = credentials ∧ attached.client.redirects = false
  sent : ∀ sent ∈ state.sent, AtHome parse origin sent

section
variable {parts : Parts Value} {origin : Origin} {credentials : Credentials} {base : String} {state : State Value}

theorem unrefused {url : String} (secret : credentials.hasSecret = true) (home : credentials.origin = some origin)
    (allowed : credentials.refusalFor parts.parse url = none) :
    Origin.of parts.parse url = .ok origin ∧ (credentials.bearer.isSome = true → origin.scheme = "https") := by
  unfold Credentials.refusalFor at allowed
  rw [secret, home, Bool.not_true, if_neg Bool.false_ne_true] at allowed
  dsimp only at allowed
  cases read : Origin.of parts.parse url with
  | error why =>
    rw [read] at allowed
    cases allowed
  | ok target =>
    rw [read] at allowed
    dsimp only at allowed
    split at allowed
    · cases allowed
    · next same =>
      split at allowed
      · cases allowed
      · next clear =>
        rw [Bool.and_eq_true, not_and, decide_eq_true_eq, not_not] at clear
        exact ⟨congrArg _ (not_not.mp same), clear⟩

/-- A request that was built is for the origin of its credentials. -/
theorem authorized_home {client : Client} {method : Method} {url : String} {request : HttpRequest}
    (secret : credentials.hasSecret = true) (home : credentials.origin = some origin)
    (built : authorized parts.parse client method url credentials = .ok request) :
    request.client = client ∧ AtHome parts.parse origin ⟨request.url, request.authorization⟩ := by
  unfold authorized at built
  cases refused : credentials.refusalFor parts.parse url with
  | some reason =>
    rw [refused] at built
    cases built
  | none =>
    rw [refused] at built
    cases built
    obtain ⟨same, secure⟩ := unrefused secret home refused
    refine ⟨rfl, same, fun token carried => secure ?_⟩
    dsimp only at carried
    split at carried
    · next found => rw [found]; rfl
    · cases carried
    · cases carried

theorem sends_home {request : HttpRequest} (redirects : request.client.redirects = false)
    (home : AtHome parts.parse origin ⟨request.url, request.authorization⟩) (hops : List String) :
    ∀ sent ∈ request.sends hops, AtHome parts.parse origin sent := by
  rw [HttpRequest.sends, redirects, if_neg Bool.false_ne_true]
  intro sent member
  rw [List.mem_singleton.mp member]
  exact home

theorem Bound.send {request : HttpRequest} (bound : Bound parts.parse origin credentials base state)
    (redirects : request.client.redirects = false)
    (home : AtHome parts.parse origin ⟨request.url, request.authorization⟩) (reply : Reply Value) :
    Bound parts.parse origin credentials base (state.send request reply) :=
  { bound with
    sent := fun sent member =>
      (List.mem_append.mp member).elim (bound.sent sent) (sends_home redirects home reply.redirects sent) }

/-- What keeps the session and the cursors, and sends nothing. -/
theorem Bound.noted (bound : Bound parts.parse origin credentials base state) (running : Option Running) :
    Bound parts.parse origin credentials base { state with running := running } :=
  { bound with }

theorem Bound.readPosted (bound : Bound parts.parse origin credentials base state) (address sql : String)
    (timeoutMs : Option Nat) (answer : Answer Value) :
    Bound parts.parse origin credentials base (readPosted address sql timeoutMs state answer).2 := by
  unfold Trino.readPosted
  split
  · exact bound
  · exact bound
  · split
    · exact bound
    · exact bound
    · exact bound
    · split
      · exact bound
      · exact bound.noted _

variable (secret : credentials.hasSecret = true) (home : credentials.origin = some origin)
include secret home

theorem Bound.postRequest {sql : String} {timeoutMs : Option Nat} {request : HttpRequest}
    (bound : Bound parts.parse origin credentials base state)
    (built : postRequest parts sql timeoutMs state.session = .ok request) :
    request.client.redirects = false ∧ AtHome parts.parse origin ⟨request.url, request.authorization⟩ := by
  unfold Trino.postRequest at built
  rw [bound.carries] at built
  split at built
  · cases built
  · next plain made =>
    cases built
    obtain ⟨client, same⟩ := authorized_home secret home made
    exact ⟨client ▸ bound.redirects, same⟩

theorem Bound.post (bound : Bound parts.parse origin credentials base state) (sql : String) (timeoutMs : Option Nat)
    (first second : Reply Value) :
    Bound parts.parse origin credentials base (post parts sql timeoutMs first second state).2 := by
  unfold Trino.post
  split
  · exact bound
  · next request built =>
    obtain ⟨redirects, same⟩ := bound.postRequest secret home built
    have sent := bound.send redirects same first
    dsimp only
    split
    · next plain reserve =>
      rw [bound.fallback] at reserve
      cases reserve
    · split
      · exact sent
      · exact sent.readPosted _ _ _ _
    · exact sent.readPosted _ _ _ _

theorem Bound.execute (bound : Bound parts.parse origin credentials base state) (sql : String)
    (options : ExecuteOptions) (first second : Reply Value) :
    Bound parts.parse origin credentials base (execute parts sql options first second state).2 := by
  unfold Trino.execute
  dsimp only
  have posted := bound.post secret home (parts.wireSql sql) options.statementTimeout first second
  split
  · next same =>
    rw [same] at posted
    exact posted
  · next same =>
    rw [same] at posted
    refine { posted with cursors := fun attached member => ?_ }
    obtain old | new := List.mem_append.mp member
    · exact posted.cursors attached old
    · rw [List.mem_singleton.mp new]
      exact ⟨posted.carries, posted.redirects⟩

/-- A turn's request, made with the cursor's own copies, is at home. -/
theorem Bound.fetch (bound : Bound parts.parse origin credentials base state) (attached : Attached Value)
    (carries : attached.credentials = credentials) (redirects : attached.client.redirects = false) (maxRows : Nat)
    (reply : Reply Value) : Bound parts.parse origin credentials base (attached.fetch parts maxRows reply state).2 := by
  unfold Attached.fetch
  split
  · unfold Attached.pageRequest
    rw [carries]
    cases built : authorized parts.parse attached.client .get _ credentials with
    | error reason => exact bound
    | ok request =>
      obtain ⟨client, same⟩ := authorized_home secret home built
      exact bound.send (client ▸ redirects) same reply
  · exact bound

theorem Bound.nextBatch (bound : Bound parts.parse origin credentials base state) {k maxRows : Nat}
    {reply : Reply Value} {next : State Value} (turned : nextBatch parts k maxRows reply state = some next) :
    Bound parts.parse origin credentials base next := by
  obtain ⟨attached, found, rfl⟩ := Option.map_eq_some_iff.mp turned
  obtain ⟨carries, redirects⟩ := bound.cursors attached (List.mem_of_getElem? found)
  have fetched := bound.fetch secret home { attached with cursor := { attached.cursor with running := state.running } }
    carries redirects maxRows reply
  refine { fetched with cursors := fun other member => ?_ }
  obtain old | rfl := List.mem_or_eq_of_mem_set member
  · exact bound.cursors other old
  · exact ⟨carries, redirects⟩

theorem Bound.deleteRunning (bound : Bound parts.parse origin credentials base state) (reply : Reply Value) :
    Bound parts.parse origin credentials base (deleteRunning parts reply state).2 := by
  unfold Trino.deleteRunning
  split
  · exact bound
  · rw [bound.carries]
    split
    · exact bound
    · next request built =>
      obtain ⟨client, same⟩ := authorized_home secret home built
      have sent := bound.send (client ▸ bound.redirects) same reply
      unfold readDeleted
      split
      · exact sent
      · split
        · exact sent.noted _
        · exact sent
      · split
        · exact sent.noted _
        · exact sent

theorem Bound.reset (bound : Bound parts.parse origin credentials base state) (reply : Reply Value) :
    Bound parts.parse origin credentials base (reset parts reply state).2 := by
  unfold Trino.reset
  have deleted := bound.deleteRunning secret home reply
  split
  · next same =>
    rw [same] at deleted
    exact deleted
  · next result same =>
    rw [same] at deleted
    exact { deleted with }

theorem sessionStep_bound (state : State Value) (call : SessionCall Value) (next : State Value)
    (bound : Bound parts.parse origin credentials base state) (stepped : sessionStep parts state call = some next) :
    Bound parts.parse origin credentials base next := by
  cases call with
  | execute sql options first second =>
    cases stepped
    exact bound.execute secret home sql options first second
  | executeBound sql parameters options first second =>
    cases stepped
    unfold Trino.executeBound
    split
    · exact bound.execute secret home sql options first second
    · exact bound
  | nextBatch cursor maxRows reply => exact bound.nextBatch secret home stepped
  | cancel reply =>
    cases stepped
    exact bound.deleteRunning secret home reply
  | reset reply =>
    cases stepped
    exact bound.reset secret home reply
  | setContext catalog schema =>
    cases stepped
    exact { bound with }
end

theorem bindCredentials_home {parse : String → Option Url} {config : ConnectionConfig}
    (secret : config.hasSecret = true) (made : bindCredentials parse config = .ok credentials) :
    credentials.password = config.password ∧ credentials.bearer = config.bearer ∧
      ∃ origin, Origin.of parse config.address = .ok origin ∧ credentials.origin = some origin := by
  unfold bindCredentials at made
  dsimp only at made
  rw [if_pos secret] at made
  split at made
  · next origin found =>
    cases made
    exact ⟨rfl, rfl, origin, found, rfl⟩
  · cases made

/-- What `connect` makes of a config with a secret: credentials for its own address, and
a client that follows no redirect, with none in reserve. -/
theorem connect_bound {parse : String → Option Url} {isAddress : String → Bool} {building : Building}
    {config : ConnectionConfig} {session : TrinoSession} (secret : config.hasSecret = true)
    (accepted : connect parse isAddress building config = .ok session) :
    ∃ origin, Origin.of parse config.address = .ok origin ∧ session.credentials.hasSecret = true ∧
      session.credentials.origin = some origin ∧
      Bound parse origin session.credentials config.address ({ session := session } : State Value) := by
  unfold connect at accepted
  obtain ⟨ca, -, accepted⟩ := bind_ok_iff.mp accepted
  obtain ⟨-, -, accepted⟩ := bind_ok_iff.mp accepted
  obtain ⟨-, -, accepted⟩ := bind_ok_iff.mp accepted
  obtain ⟨-, -, accepted⟩ := bind_ok_iff.mp accepted
  obtain ⟨client, built, accepted⟩ := bind_ok_iff.mp accepted
  obtain ⟨fallback, reserve, accepted⟩ := bind_ok_iff.mp accepted
  obtain ⟨credentials, made, accepted⟩ := bind_ok_iff.mp accepted
  cases accepted
  obtain ⟨password, bearer, origin, found, home⟩ := bindCredentials_home secret made
  refine ⟨origin, found, ?_, home, rfl, rfl, ?_, ?_, (fun _ member => nomatch member), fun _ member => nomatch member⟩
  · rw [Credentials.hasSecret, password, bearer]
    exact secret
  · rw [buildFallback, secret, Bool.not_true, Bool.and_false, if_neg Bool.false_ne_true] at reserve
    exact (Except.ok.inj reserve).symm
  · unfold buildClient at built
    split at built
    · cases built
    · cases built
      rw [secret]
      rfl

/-- For a config with a secret that `connect` accepts, whatever the session is asked to do
and whatever the coordinator answers: every request that goes out goes to the origin of
the configured address, a bearer token only over https, and the session keeps its
address. -/
theorem requests_stay_home (parts : Parts Value) (isAddress : String → Bool) (building : Building)
    (config : ConnectionConfig)
    (session : TrinoSession) (secret : config.password.isSome = true ∨ config.bearer.isSome = true)
    (accepted : connect parts.parse isAddress building config = .ok session) (calls : List (SessionCall Value))
    (state : State Value) (ran : run (sessionStep parts) { session := session } calls = some state) :
    ∃ origin, Origin.of parts.parse config.address = .ok origin ∧
      (∀ sent ∈ state.sent, Origin.of parts.parse sent.url = .ok origin) ∧
      (∀ sent ∈ state.sent, ∀ token, sent.authorization = some (.bearer token) → origin.scheme = "https") ∧
      state.session.base = config.address := by
  have some' : config.hasSecret = true := Bool.or_eq_true_iff.mpr secret
  obtain ⟨origin, found, carried, home, bound⟩ := @connect_bound Value _ _ _ _ _ some' accepted
  have kept := run_invariant (Bound parts.parse origin session.credentials config.address)
    (fun state call next => sessionStep_bound carried home state call next) bound ran
  exact ⟨origin, found, fun sent member => (kept.sent sent member).same,
    fun sent member => (kept.sent sent member).secure, kept.base⟩

/-- A coordinator at `https://h:8443`, as the parser reads its URLs and one foreign URL. -/
def plainParts : Parts Nat where
  parse url :=
    if url ∈ ["https://h:8443", "https://h:8443/v1/statement", "https://h:8443/v1/q/1"] then
      some ⟨"https", some "h", some 8443⟩
    else if url = "http://h:8443/v1/q/2" then some ⟨"http", some "h", some 8443⟩
    else none
  wireSql := id
  null := 0

def tokenConfig : ConnectionConfig := { host := "h", port := 8443, user := "u", tls := .require, bearer := some "t" }

def pageReply (page : Page Nat) : Reply Nat := ⟨["http://h:8443/v1/q/2"], .responded 200 "200 OK" "" (.ok page)⟩

def foreignCalls : List (SessionCall Nat) :=
  [.execute "SELECT 1" {} (pageReply { id := some "q", nextUri := some "https://h:8443/v1/q/1" }) (pageReply {}),
    .nextBatch 0 10 (pageReply { id := some "q", nextUri := some "http://h:8443/v1/q/2" }),
    .nextBatch 0 10 (pageReply {}), .cancel (pageReply {})]

/-- A statement is sent and its first page read; the next page's URL and the cancel's are
on another scheme, and nothing is sent there. -/
theorem requests_stay_home_foreign :
    ∃ session state,
      connect plainParts.parse (fun _ => false) {} tokenConfig = .ok session ∧
      run (sessionStep plainParts) { session := session } foreignCalls = some state ∧
      state.sent.length = 2 ∧
      ∃ origin, Origin.of plainParts.parse tokenConfig.address = .ok origin ∧
        (∀ sent ∈ state.sent, Origin.of plainParts.parse sent.url = .ok origin) ∧
        (∀ sent ∈ state.sent, ∀ token, sent.authorization = some (.bearer token) → origin.scheme = "https") ∧
        state.session.base = tokenConfig.address := by
  refine ⟨_, _, rfl, rfl, rfl, ?_⟩
  exact requests_stay_home plainParts (fun _ => false) {} tokenConfig _ (.inr rfl) rfl foreignCalls _ rfl

end QueryHive.Driver.Trino
