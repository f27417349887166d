import LogMonitor.AlertRulesEngine
import LogMonitor.Token
import LogMonitor.TsdbJson
import LogMonitor.UserStore

/-!
The project routes of the HTTP server. A request is handled in steps between
which others run: the two halves of the token's verification, the check of the
ownership, the operation itself or the creation of the project's store, and one
look at the store for each lock its answer takes.
-/

namespace LogMonitor

namespace AlertDelivery
open Library Library.ByteString AlertRulesEngine

def alertJson (a : FiredAlert) : Json := .object ([
  (text "rule_id", .string a.ruleId),
  (text "app", .string a.app),
  (text "level", .string a.level),
  (text "count", .integer a.count),
  (text "threshold", .integer a.threshold.toInt),
  (text "window_seconds", .integer a.windowSeconds.toInt),
  (text "fired_at_ns", .integer a.firedAtNs),
  (text "message", .string a.message),
  (text "delivered", .boolean a.delivered)] ++
  if a.deliveryError ≠ [] then [(text "error", .string a.deliveryError)] else [])

def historyToJson (history : List FiredAlert) : Json :=
  .object [(text "history", .array (history.map alertJson))]

end AlertDelivery

namespace ProjectRoutes
open Library Library.ByteString AuthManager ProjectStore Tsdb AlertRulesEngine

inductive Read where
  | query
  | stats
  | apps
  | metrics
deriving DecidableEq

inductive Action where
  | delete
  | rotate
  | rules
  | history
  | read (kind : Read)
deriving DecidableEq

inductive Route where
  | list
  | create
  | project (id : Bytes) (action : Action)
deriving DecidableEq

structure Request where
  route : Route
  /-- The header `Authorization`, empty when it is missing. -/
  authorization : Bytes
  /-- What the JSON reader makes of the body, if anything. -/
  body : Option Json
  /-- The parameters of the query string. -/
  app : Option Bytes
  level : Option Bytes
  last : Option Bytes

structure Response where
  status : Nat
  body : Bytes
deriving DecidableEq

structure Config where
  authMgr : Option Jwt
  hasProjectStore : Bool
  hasTenantMgr : Bool
  /-- What the file of a project holds when its store is created. -/
  persisted : Bytes → Store
  /-- `json.dump()`, which throws on text that is not UTF-8. -/
  dump : Json → Option Bytes

/-- The tenant manager has the project store with it. The rules and the history are those
behind the callbacks, if these are set. -/
structure State where
  tenantMgr : TenantManager.State
  users : UserStore.State
  revoked : Revoked
  rules : Option (List AlertRuleState)
  history : Option (List FiredAlert)

/-- The clock readings of a step, and what a call of the project store takes from outside. -/
structure Input where
  nowSec : Int64
  nowNs : Int
  env : AccountEnvironment

inductive Phase where
  | received
  /-- The token is signed and had not expired. -/
  | unexpired (claims : JwtClaims)
  | authenticated (claims : JwtClaims)
  | owned (claims : JwtClaims) (id : Bytes) (action : Action)
  | looking (id : Bytes) (kind : Read) (looks : List Look)

inductive Progress where
  | goesOn (phase : Phase)
  | answers (response : Response)

variable (cfg : Config)

/-- The HTTP library answers for a handler that throws. -/
def threwResponse : Response := ⟨500, []⟩

def sendJson (status : Nat) (json : Json) : Response :=
  match cfg.dump json with
  | some body => ⟨status, body⟩
  | none => threwResponse

def jsonError (status : Nat) (message : Bytes) : Response :=
  sendJson cfg status (.object [(text "error", .string message)])

def bearer : Bytes := text "Bearer "

/-- `auth_bearer` up to the expiry check of `verify_token`. -/
def authBearer (request : Request) (now : Int64) : Progress :=
  match cfg.authMgr with
  | none => .answers (jsonError cfg 503 (text "Authentication not configured"))
  | some jwt =>
    if ¬bearer <+: request.authorization then
      .answers (jsonError cfg 401 (text "Missing or invalid Authorization header"))
    else
      match signedClaims jwt (request.authorization.drop bearer.length) with
      | .threw => .answers threwResponse
      | .returned none => .answers (jsonError cfg 401 (text "Invalid or expired token"))
      | .returned (some claims) =>
        if claims.exp ≤ now then .answers (jsonError cfg 401 (text "Invalid or expired token"))
        else .goesOn (.unexpired claims)

/-- The rest of `auth_bearer`. -/
def finishAuth (s : State) (claims : JwtClaims) (now : Int64) : State × Progress :=
  let (accepted, revoked) := checkRevocation s.revoked claims now
  ({ s with revoked := revoked },
    if accepted then .goesOn (.authenticated claims)
    else .answers (jsonError cfg 401 (text "Invalid or expired token")))

/-- `verify_ownership`, with the response if it fails. -/
def verifyOwnership (projectStore : ProjectStore.State) (projectId : Bytes) (claims : JwtClaims) :
    Option Response :=
  if !cfg.hasProjectStore then some (jsonError cfg 503 (text "Project store not configured"))
  else
    match findById projectStore projectId with
    | none => some (jsonError cfg 404 (text "Project not found"))
    | some proj =>
      if proj.ownerId ≠ claims.sub then some (jsonError cfg 403 (text "Not your project"))
      else none

variable {cfg} in
/-- What the check has found out when it passes. -/
theorem verifyOwnership_none {projectStore : ProjectStore.State} {id : Bytes} {claims : JwtClaims}
    (passed : verifyOwnership cfg projectStore id claims = none) :
    ∃ p, findById projectStore id = some p ∧ p.ownerId = claims.sub := by
  unfold verifyOwnership at passed
  split at passed
  next => simp at passed
  next =>
    split at passed
    next => simp at passed
    next p found =>
      split at passed
      next => simp at passed
      next own => exact ⟨p, found, not_not.mp own⟩

def projectRow (p : Project) : Json := .object [
  (text "id", .string p.id),
  (text "name", .string p.name),
  (text "api_key", .string p.apiKey),
  (text "created_at_ns", .integer p.createdAtNs.toInt)]

def handleProjList (projectStore : ProjectStore.State) (claims : JwtClaims) : Response :=
  if !cfg.hasProjectStore then jsonError cfg 503 (text "Not configured")
  else sendJson cfg 200 (.array ((listByOwner projectStore claims.sub).map projectRow))

def State.withProjects (s : State) (projectStore : ProjectStore.State) : State :=
  { s with tenantMgr := { s.tenantMgr with projectStore := projectStore } }

def handleProjCreate (s : State) (body : Option Json) (claims : JwtClaims)
    (env : AccountEnvironment) : State × Response :=
  if !cfg.hasProjectStore then (s, jsonError cfg 503 (text "Not configured"))
  else
    match body with
    | none => (s, jsonError cfg 400 (text "Invalid JSON"))
    | some body =>
      match body.valueString (text "name") [] with
      | .error _ => (s, threwResponse)
      | .ok name =>
        if name = [] then (s, jsonError cfg 400 (text "Missing name"))
        else
          let (projectStore, outcome) := createProject s.tenantMgr.projectStore name claims.sub env
          (s.withProjects projectStore,
            match outcome with
            | .threw => threwResponse
            | .returned (.error error) => jsonError cfg 400 error
            | .returned (.ok p) => sendJson cfg 200 (projectRow p))

def handleProjDelete (s : State) (projectId : Bytes) (claims : JwtClaims)
    (env : AccountEnvironment) : State × Response :=
  let (projectStore, outcome) := deleteProject s.tenantMgr.projectStore projectId claims.sub env
  (s.withProjects projectStore,
    match outcome with
    | .threw => threwResponse
    | .returned error =>
      if error ≠ [] then jsonError cfg 400 error
      else ⟨200, text "\x7b\"message\":\"Project deleted\"\x7d"⟩)

def handleProjRotate (s : State) (projectId : Bytes) (claims : JwtClaims)
    (env : AccountEnvironment) : State × Response :=
  let (projectStore, outcome) := rotateApiKey s.tenantMgr.projectStore projectId claims.sub env
  (s.withProjects projectStore,
    match outcome with
    | .threw => threwResponse
    | .returned newKey =>
      if newKey = [] then jsonError cfg 500 (text "Failed to rotate key")
      else sendJson cfg 200 (.object [(text "api_key", .string newKey)]))

/-- For now the global rules. -/
def handleProjRules (s : State) : Response :=
  match s.rules with
  | some rules => sendJson cfg 200 (getRulesJson rules)
  | none => ⟨200, text "\x7b\"rules\":[]\x7d"⟩

def handleProjHistory (s : State) : Response :=
  match s.history with
  | some history => sendJson cfg 200 (AlertDelivery.historyToJson history)
  | none => ⟨200, text "\x7b\"history\":[]\x7d"⟩

def Read.emptyBody : Read → Bytes
  | .query => text "[]"
  | .stats => text "\x7b\"counts\":\x7b\x7d\x7d"
  | .apps => text "[]"
  | .metrics => text "# No data\n"

/-- The parameter `last`; what is no number is ignored. -/
def Request.lastSec (request : Request) : Int :=
  match request.last with
  | none => 3600
  | some param =>
    match stoi param with
    | .ok seconds => seconds.toInt
    | .error _ => 3600

/-- How many looks a read takes, as far as the first of them tells. -/
def Read.needed (kind : Read) (looks : List Look) : Nat :=
  let apps := match looks.head? with
    | none => 0
    | some first => first.tsdb.getApps.length
  match kind with
  | .query => 1
  | .stats => 1
  | .apps => 1 + 2 * apps
  | .metrics => 1 + 4 * apps

def Read.respond (kind : Read) (request : Request) (looks : List Look) : Response :=
  let look (i : Nat) : Look := looks.getD i ⟨Store.empty, 0⟩
  let app := request.app.getD []
  match kind with
  | .query =>
    sendJson cfg 200 ((look 0).queryToJson app (request.level.getD []) request.lastSec)
  | .stats => sendJson cfg 200 ((look 0).statsToJson app request.lastSec)
  | .apps => sendJson cfg 200 (appsToJson look)
  | .metrics => ⟨200, metricsToPrometheus look⟩

/-- `get_tsdb` of a read, which may create the store. Where that throws is a step of the server. -/
def openTsdb (s : State) (projectId : Bytes) (kind : Read) : State × Progress :=
  if !cfg.hasTenantMgr then (s, .answers ⟨200, kind.emptyBody⟩)
  else
    let (tenantMgr, tsdb) := TenantManager.getTsdb cfg.persisted s.tenantMgr projectId
    ({ s with tenantMgr := tenantMgr },
      match tsdb with
      | none => .answers ⟨200, kind.emptyBody⟩
      | some _ => .goesOn (.looking projectId kind []))

def operate (s : State) (claims : JwtClaims) (projectId : Bytes) (action : Action)
    (env : AccountEnvironment) : State × Progress :=
  match action with
  | .delete =>
    let (s, response) := handleProjDelete cfg s projectId claims env
    (s, .answers response)
  | .rotate =>
    let (s, response) := handleProjRotate cfg s projectId claims env
    (s, .answers response)
  | .rules => (s, .answers (handleProjRules cfg s))
  | .history => (s, .answers (handleProjHistory cfg s))
  | .read kind => openTsdb cfg s projectId kind

def advance (s : State) (request : Request) (phase : Phase) (input : Input) : State × Progress :=
  match phase with
  | .received => (s, authBearer cfg request input.nowSec)
  | .unexpired claims => finishAuth cfg s claims input.nowSec
  | .authenticated claims =>
    match request.route with
    | .list => (s, .answers (handleProjList cfg s.tenantMgr.projectStore claims))
    | .create =>
      let (s, response) := handleProjCreate cfg s request.body claims input.env
      (s, .answers response)
    | .project id action =>
      match verifyOwnership cfg s.tenantMgr.projectStore id claims with
      | some refusal => (s, .answers refusal)
      | none => (s, .goesOn (.owned claims id action))
  | .owned claims id action => operate cfg s claims id action input.env
  | .looking id kind looks =>
    if kind.needed looks ≤ looks.length then (s, .answers (kind.respond cfg request looks))
    else
      -- the store's address was fetched with `get_tsdb`; a store never leaves the map
      let tsdb := (s.tenantMgr.tsdbMap id).getD (cfg.persisted id)
      (s, .goesOn (.looking id kind (looks ++ [⟨tsdb, input.nowNs⟩])))

end ProjectRoutes

end LogMonitor
