import LogMonitor.ProjectAccess
import LogMonitor.RateLimiter

/-!
The HTTP server with all of its routes, in both modes: with a tenant manager a
log is routed by its project key, without one the server has a single key. A
request is handled from its arrival to its answer before the next one.
-/

namespace LogMonitor

namespace ProjectRoutes
open Library Library.ByteString

/-- The handler of a project route, alone from a phase on, with what each of its steps reads; it has
answered if these were enough. -/
def handleAlone (cfg : Config) (request : Request) :
    List Input → Phase → State → State × Option Response
  | [], _, s => (s, none)
  | input :: rest, phase, s =>
    match advance cfg s request phase input with
    | (s, .goesOn phase) => handleAlone cfg request rest phase s
    | (s, .answers response) => (s, some response)

end ProjectRoutes

namespace HttpServer
open Library Library.ByteString Library.Transition AuthManager Tsdb ProjectRoutes Server

inductive Page where
  | root
  | app
  | css
  | js

inductive Route where
  | page (page : Page)
  | health
  | register
  | login
  | project (route : ProjectRoutes.Route)
  | ingest
  | query
  | stats
  | apps
  | metrics
  | rules
  | history

structure Request where
  route : Route
  /-- The headers, empty when they are missing. -/
  xApiKey : Bytes
  authorization : Bytes
  /-- What the JSON reader makes of the body, if anything. -/
  body : Option Json
  /-- The parameters of the query string. -/
  app : Option Bytes
  level : Option Bytes
  last : Option Bytes

/-- Which of the callbacks for the single-tenant routes are set. -/
structure Callbacks where
  insert : Bool
  query : Bool
  stats : Bool
  apps : Bool
  metrics : Bool

structure Config extends ProjectRoutes.Config where
  /-- The key of the single-tenant routes. -/
  apiKey : Bytes
  hasUserStore : Bool
  callbacks : Callbacks
  hashPassword : Bytes → Bytes → Option Bytes
  page : Page → Bytes
  ringCapacity : Nat
  /-- `dump` does not throw on the message of an error that is ASCII text. -/
  dumpsErrors : ∀ message : Bytes, (∀ c ∈ message, c < 128) →
    (dump (.object [(text "error", .string message)])).isSome

structure State where
  /-- The projects, users, revoked tokens and the stores of the projects. -/
  routes : ProjectRoutes.State
  /-- The store behind the callbacks. -/
  tsdb : Store
  ring : List LogEntry
  totalIngested : UInt64
  rateBuckets : RateBuckets

structure Input where
  clocks : Clocks
  /-- The steady clock when a bucket is charged. -/
  consumeNs : Int
  /-- The clock of `create_token` and the bytes it draws. -/
  nowSec : Int64
  jti : Option (Vector UInt8 16)
  account : AccountEnvironment
  /-- The clock at each look at the store of a callback. -/
  lookNs : Nat → Int
  project : List ProjectRoutes.Input

variable (cfg : Config)

def authenticate (s : State) (key : Bytes) (nowNs : Int) : State × Option Response :=
  if key ≠ cfg.apiKey then
    (s, some (jsonError cfg.toConfig 401 (text "Unauthorized: invalid or missing X-API-Key")))
  else
    let (allowed, buckets) := RateLimiter.charge s.rateBuckets key nowNs
    ({ s with rateBuckets := buckets },
      if allowed then none
      else some (jsonError cfg.toConfig 429 (text "Rate limit exceeded: 100 requests per minute")))

def credentials (body : Json) : Except Json.Error (Bytes × Bytes) := do
  return (← body.valueString (text "email") [], ← body.valueString (text "password") [])

/-- The checks that `/auth/register` and `/auth/login` share. -/
def withCredentials (s : State) (request : Request) (next : Bytes → Bytes → State × Response) :
    State × Response :=
  if cfg.authMgr.isNone || !cfg.hasUserStore then
    (s, jsonError cfg.toConfig 503 (text "Authentication not configured"))
  else
    match request.body with
    | none => (s, jsonError cfg.toConfig 400 (text "Invalid JSON"))
    | some body =>
      match credentials body with
      | .error _ => (s, threwResponse)
      | .ok (email, password) =>
        if email = [] ∨ password = [] then
          (s, jsonError cfg.toConfig 400 (text "Missing email or password"))
        else next email password

def handleRegister (s : State) (request : Request) (input : Input) : State × Response :=
  withCredentials cfg s request fun email password =>
    let (users, outcome) :=
      UserStore.registerUser cfg.hashPassword s.routes.users email password input.account
    ({ s with routes := { s.routes with users := users } },
      match outcome with
      | .threw => threwResponse
      | .returned (.error error) => jsonError cfg.toConfig 400 error
      | .returned (.ok user) => sendJson cfg.toConfig 200 (.object [
          (text "message", .string (text "Account created")),
          (text "user_id", .string user.id)]))

/-- `verify_password`; it throws when the library fails. -/
def verifyPassword (password salt storedHash : Bytes) : Option Bool :=
  (cfg.hashPassword password salt).map fun computed => computed = storedHash

def loginToken (user : User) (input : Input) : Response :=
  match cfg.authMgr with
  | none => threwResponse
  | some jwt =>
    match createToken jwt cfg.dump user.id user.email input.nowSec input.jti with
    | .threw => threwResponse
    | .returned token => sendJson cfg.toConfig 200 (.object [
        (text "expires_in", .integer tokenExpirySeconds.toInt),
        (text "token", .string token),
        (text "user_id", .string user.id)])

def handleLogin (s : State) (request : Request) (input : Input) : State × Response :=
  withCredentials cfg s request fun email password =>
    match UserStore.findByEmail s.routes.users email with
    | none => (s, jsonError cfg.toConfig 401 (text "Invalid email or password"))
    | some user =>
      match verifyPassword cfg password user.salt user.passwordHash with
      | none => (s, threwResponse)
      | some false => (s, jsonError cfg.toConfig 401 (text "Invalid email or password"))
      | some true => (s, loginToken cfg user input)

/-- The insertion into the store behind the callback, if it is set. -/
def insertCb (s : State) (entry : TsdbEntry) : State :=
  if cfg.callbacks.insert then { s with tsdb := s.tsdb.insert entry } else s

/-- The part of `handle_ingest` in which the two modes differ: the check of the key and the
insertion of the log, with the response if the request is refused. -/
def vet (s : State) (key : Bytes) (entry : TsdbEntry) (nowNs : Int) : State × Option Response :=
  if cfg.hasTenantMgr then
    if key = [] then (s, some (jsonError cfg.toConfig 401 (text "Unauthorized: missing X-API-Key")))
    else
      let (allowed, buckets) := RateLimiter.charge s.rateBuckets key nowNs
      let s := { s with rateBuckets := buckets }
      if !allowed then
        (s, some (jsonError cfg.toConfig 429 (text "Rate limit exceeded: 100 requests per minute")))
      else
        let (tenantMgr, routed) := TenantManager.routeIngest cfg.persisted s.routes.tenantMgr key entry
        ({ s with routes := { s.routes with tenantMgr := tenantMgr } },
          if routed then none
          else some (jsonError cfg.toConfig 401 (text "Unauthorized: unknown project API key")))
  else
    match authenticate cfg s key nowNs with
    | (s, some refusal) => (s, some refusal)
    | (s, none) => (insertCb cfg s entry, none)

def accept (s : State) (app level : Bytes) (entry : LogEntry) : State × Response :=
  let s := { s with
    ring := if s.ring.length < cfg.ringCapacity then s.ring ++ [entry] else s.ring
    totalIngested := s.totalIngested + 1 }
  (s, sendJson cfg.toConfig 200 (.object [
    (text "app", .string app),
    (text "ingested", .integer s.totalIngested.toNat),
    (text "level", .string level),
    (text "status", .string (text "accepted"))]))

def complete (body : Json) : Bool :=
  body.contains (text "app") && body.contains (text "level") && body.contains (text "message")

def handleIngest (s : State) (request : Request) (input : Input) : State × Response :=
  match request.body with
  | none => (s, jsonError cfg.toConfig 400 (text "Invalid JSON body"))
  | some body =>
    if !complete body then
      (s, jsonError cfg.toConfig 400 (text "Missing required fields: app, level, message"))
    else
      match readFields body with
      | .error _ => (s, threwResponse)
      | .ok (app, level, message, tsClient) =>
        let tsNs := if 0 < tsClient then tsClient * 1000000000 else input.clocks.systemNs
        match vet cfg s request.xApiKey ⟨app, level, message, tsNs⟩ input.consumeNs with
        | (s, some refusal) => (s, refusal)
        | (s, none) => accept cfg s app level (pipelineEntry app message input.clocks)

def handleLegacy (s : State) (request : Request) (input : Input) (answer : State → Response) :
    State × Response :=
  match authenticate cfg s request.xApiKey input.consumeNs with
  | (s, some refusal) => (s, refusal)
  | (s, none) => (s, answer s)

/-- The parameter `last`; what is no number is ignored. -/
def lastSec (request : Request) (default : Int) : Int :=
  match request.last with
  | none => default
  | some param =>
    match stoi param with
    | .ok seconds => seconds.toInt
    | .error _ => default

def unavailable : Response := jsonError cfg.toConfig 503 (text "Storage not available")

def handleQuery (s : State) (request : Request) (input : Input) : State × Response :=
  handleLegacy cfg s request input fun s =>
    if cfg.callbacks.query then
      sendJson cfg.toConfig 200 (Look.queryToJson ⟨s.tsdb, input.lookNs 0⟩ (request.app.getD [])
        (request.level.getD []) (lastSec request 300))
    else unavailable cfg

def handleStats (s : State) (request : Request) (input : Input) : State × Response :=
  handleLegacy cfg s request input fun s =>
    if cfg.callbacks.stats then
      sendJson cfg.toConfig 200
        (Look.statsToJson ⟨s.tsdb, input.lookNs 0⟩ (request.app.getD []) (lastSec request 3600))
    else unavailable cfg

def handleApps (s : State) (request : Request) (input : Input) : State × Response :=
  handleLegacy cfg s request input fun s =>
    if cfg.callbacks.apps then
      sendJson cfg.toConfig 200 (appsToJson fun look => ⟨s.tsdb, input.lookNs look⟩)
    else ⟨200, text "[]"⟩

def handleMetrics (s : State) (request : Request) (input : Input) : State × Response :=
  handleLegacy cfg s request input fun s =>
    if cfg.callbacks.metrics then ⟨200, metricsToPrometheus fun look => ⟨s.tsdb, input.lookNs look⟩⟩
    else ⟨200, text "# No data\n"⟩

/-- The rules and the history are those of the project routes. -/
def handleRules (s : State) (request : Request) (input : Input) : State × Response :=
  handleLegacy cfg s request input fun s => handleProjRules cfg.toConfig s.routes

def handleHistory (s : State) (request : Request) (input : Input) : State × Response :=
  handleLegacy cfg s request input fun s => handleProjHistory cfg.toConfig s.routes

def handleProject (s : State) (request : Request) (route : ProjectRoutes.Route) (input : Input) :
    State × Option Response :=
  let (routes, response) := handleAlone cfg.toConfig
    ⟨route, request.authorization, request.body, request.app, request.level, request.last⟩
    input.project .received s.routes
  ({ s with routes := routes }, response)

/-- The state a request leaves and its response, if its handler has come to one. -/
def handle (s : State) (request : Request) (input : Input) : State × Option Response :=
  let answered (result : State × Response) : State × Option Response := (result.1, some result.2)
  match request.route with
  | .page page => (s, some ⟨200, cfg.page page⟩)
  | .health => (s, some ⟨200, text "\x7b\"status\":\"ok\"\x7d"⟩)
  | .register => answered (handleRegister cfg s request input)
  | .login => answered (handleLogin cfg s request input)
  | .project route => handleProject cfg s request route input
  | .ingest => answered (handleIngest cfg s request input)
  | .query => answered (handleQuery cfg s request input)
  | .stats => answered (handleStats cfg s request input)
  | .apps => answered (handleApps cfg s request input)
  | .metrics => answered (handleMetrics cfg s request input)
  | .rules => answered (handleRules cfg s request input)
  | .history => answered (handleHistory cfg s request input)

end HttpServer

end LogMonitor
