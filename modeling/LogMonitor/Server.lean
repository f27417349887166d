import LogMonitor.Library.Transition
import LogMonitor.LogEntry
import LogMonitor.ProjectStore
import LogMonitor.Tsdb
import Mathlib.Algebra.Order.Ring.Unbundled.Rat

/-!
The server as `main` wires it in multi-tenant mode: the HTTP handlers store a
message under its project and push it into the shared ring buffer, the pipeline
hands what it pops to the thread pool, and the pool's workers call the tap that
`main` installs. Entries carry the project they came from; nothing in the
program reads this mark.
-/

namespace LogMonitor
open Library Library.ByteString

/-- A key's budget of requests, in exact arithmetic. -/
structure TokenBucket where
  tokens : Rat := 100
  lastRefillNs : Int := 0

namespace TokenBucket

def maxTokens : Rat := 100

def refillPerSecond : Rat := 100 / 60

def consume (bucket : TokenBucket) (nowNs : Int) : Bool × TokenBucket :=
  let tokens :=
    if 0 < bucket.lastRefillNs then
      min maxTokens (bucket.tokens + (nowNs - bucket.lastRefillNs : Rat) / 1000000000 * refillPerSecond)
    else bucket.tokens
  if tokens < 1 then (false, ⟨tokens, nowNs⟩) else (true, ⟨tokens - 1, nowNs⟩)

theorem consume_new (nowNs : Int) : (consume {} nowNs).1 = true := by
  rfl

end TokenBucket

inductive Severity where
  | info
  | warn
  | error
  | critical
deriving DecidableEq

def Severity.toText : Severity → Bytes
  | .info => text "INFO"
  | .warn => text "WARN"
  | .error => text "ERROR"
  | .critical => text "CRITICAL"

namespace Server
open ProjectStore Tsdb

structure Config where
  projects : ProjectStore.State
  defaultProjectId : Bytes
  /-- `PatternEngine::match`: the severity of the first rule whose expression is found. -/
  matchRule : Bytes → Option Severity
  /-- What the file of a project holds when its store is created. -/
  persisted : Bytes → Tsdb.Store
  /-- The threads of the pool; it never has none. -/
  workers : Nat
  someWorker : 0 < workers

def ringCapacity : Nat := 65536

/-- An entry on its way, with the id of the project whose key its request carried. -/
structure Tagged where
  entry : LogEntry
  origin : Option Bytes

structure Insertion where
  project : Bytes
  entry : TsdbEntry
  origin : Option Bytes

structure State where
  rateBuckets : Bytes → TokenBucket
  /-- Entries that a handler has routed and not yet tried to push. -/
  routed : List Tagged
  /-- The ring buffer, as the queue it is. -/
  ring : List Tagged
  /-- The queue of the thread pool. -/
  tasks : List Tagged
  /-- What the workers are at. -/
  running : List Tagged
  tsdbMap : Bytes → Option Tsdb.Store
  /-- The single-tenant store of the terminal dashboard. -/
  tsdb : Tsdb.Store
  totalIngested : UInt64
  /-- Every insertion into the store of a project so far. -/
  inserted : List Insertion

/-- After the constructors: only the default project's store is there, if it is a project. -/
def initial (cfg : Config) (tsdb : Tsdb.Store) : State where
  rateBuckets := fun _ => {}
  routed := []
  ring := []
  tasks := []
  running := []
  tsdbMap :=
    if cfg.defaultProjectId ≠ [] ∧ (findById cfg.projects cfg.defaultProjectId).isSome then
      Function.update (fun _ => none) cfg.defaultProjectId
        (some (cfg.persisted cfg.defaultProjectId))
    else fun _ => none
  tsdb := tsdb
  totalIngested := 0
  inserted := []

def ingestToProject (cfg : Config) (s : State) (projectId : Bytes) (entry : TsdbEntry)
    (origin : Option Bytes) : State :=
  if projectId = [] then s
  else
    -- a store that is not there is created and reads its file
    let store := (s.tsdbMap projectId).getD (cfg.persisted projectId)
    { s with
      tsdbMap := Function.update s.tsdbMap projectId (some (store.insert entry))
      inserted := s.inserted ++ [⟨projectId, entry, origin⟩] }

/-- With the id of the project the key belongs to; `none` is the source's `false`. -/
def routeIngest (cfg : Config) (s : State) (apiKey : Bytes) (entry : TsdbEntry) :
    State × Option Bytes :=
  match findByApiKey cfg.projects apiKey with
  | none => (s, none)
  | some proj => (ingestToProject cfg s proj.id entry (some proj.id), some proj.id)

structure Request where
  /-- What the JSON reader makes of the body, if anything. -/
  body : Option Json
  /-- The header `X-API-Key`, empty when it is missing. -/
  apiKey : Bytes

structure Clocks where
  systemNs : Int64
  steadyNs : Int

inductive Answer where
  | refused (status : Nat) (message : Bytes)
  /-- An accessor threw; the HTTP library answers for the handler. -/
  | threw (error : Json.Error)
  /-- The handler goes on to push the entry. -/
  | routed

def readFields (body : Json) : Except Json.Error (Bytes × Bytes × Bytes × Int64) := do
  let app ← ((body.member (text "app")).getD .null).getString
  let level ← ((body.member (text "level")).getD .null).getString
  let message ← ((body.member (text "message")).getD .null).getString
  let tsClient ← body.valueInt64 (text "timestamp") 0
  return (app, level, message, tsClient)

def pipelineEntry (app message : Bytes) (clocks : Clocks) : LogEntry where
  line := message
  source := text "http:" ++ app
  serviceName := app
  timestamp := clocks.steadyNs
  lineNumber := 0

/-- `handle_ingest` up to the push. -/
def handleIngest (cfg : Config) (s : State) (request : Request) (clocks : Clocks) :
    State × Answer :=
  match request.body with
  | none => (s, .refused 400 (text "Invalid JSON body"))
  | some body =>
    if !body.contains (text "app") || !body.contains (text "level") ||
        !body.contains (text "message") then
      (s, .refused 400 (text "Missing required fields: app, level, message"))
    else
      match readFields body with
      | .error error => (s, .threw error)
      | .ok (app, level, message, tsClient) =>
        let tsNs := if 0 < tsClient then tsClient * 1000000000 else clocks.systemNs
        if request.apiKey = [] then (s, .refused 401 (text "Unauthorized: missing X-API-Key"))
        else
          let (allowed, bucket) := (s.rateBuckets request.apiKey).consume clocks.steadyNs
          let s := { s with rateBuckets := Function.update s.rateBuckets request.apiKey bucket }
          if !allowed then
            (s, .refused 429 (text "Rate limit exceeded: 100 requests per minute"))
          else
            match routeIngest cfg s request.apiKey ⟨app, level, message, tsNs⟩ with
            | (s, none) => (s, .refused 401 (text "Unauthorized: unknown project API key"))
            | (s, some projectId) =>
              ({ s with
                routed := s.routed ++ [⟨pipelineEntry app message clocks, some projectId⟩] },
                .routed)

/-- The tap that `main` installs, on an entry and the severity of its rule. -/
def entryCallback (cfg : Config) (s : State) (tagged : Tagged) (rule : Option Severity)
    (nowNs : Int64) : State :=
  let e := tagged.entry
  let app := if e.serviceName = [] then e.source else e.serviceName
  let level := (rule.map Severity.toText).getD (text "INFO")
  let entry : TsdbEntry := ⟨app, level, e.line, nowNs⟩
  let s :=
    if cfg.defaultProjectId ≠ [] then
      ingestToProject cfg s cfg.defaultProjectId entry tagged.origin
    else s
  { s with tsdb := s.tsdb.insert entry }

def processEntry (cfg : Config) (s : State) (tagged : Tagged) (nowNs : Int64) : State :=
  entryCallback cfg s tagged (cfg.matchRule tagged.entry.line) nowNs

inductive Label where
  | ingest (request : Request) (clocks : Clocks)
  /-- A handler tries to push what it routed. -/
  | tryPush (index : Nat) (accepted : Bool)
  /-- A file watcher or the network ingester pushes an entry. -/
  | source (entry : LogEntry) (accepted : Bool)
  /-- The consumer pops an entry and enqueues it as a task. -/
  | consume
  /-- A worker takes the next task. -/
  | take
  /-- A worker is through with a task. -/
  | finish (index : Nat) (nowNs : Int64)
  /-- The consumer drops an entry while draining on shutdown. -/
  | drain
  /-- The store of a project evicts what is old. -/
  | evict (project : Bytes) (now : Int)

def State.push (s : State) (tagged : Tagged) (accepted : Bool) : State :=
  if accepted then { s with ring := s.ring ++ [tagged] } else s

inductive Step (cfg : Config) : State → Label → State → Prop
  | ingest (s : State) (request : Request) (clocks : Clocks) :
      Step cfg s (.ingest request clocks) (handleIngest cfg s request clocks).1
  | tryPush {s : State} {index : Nat} {tagged : Tagged} {accepted : Bool}
      (next : s.routed[index]? = some tagged) (room : accepted → s.ring.length < ringCapacity) :
      Step cfg s (.tryPush index accepted)
        { s.push tagged accepted with
          routed := s.routed.eraseIdx index
          totalIngested := s.totalIngested + 1 }
  | source {s : State} (entry : LogEntry) {accepted : Bool}
      (room : accepted → s.ring.length < ringCapacity) :
      Step cfg s (.source entry accepted) (s.push ⟨entry, none⟩ accepted)
  | consume {s : State} {tagged : Tagged} {rest : List Tagged} (popped : s.ring = tagged :: rest) :
      Step cfg s .consume { s with
        ring := rest
        tasks := s.tasks ++ [tagged] }
  | take {s : State} {tagged : Tagged} {rest : List Tagged} (popped : s.tasks = tagged :: rest)
      (idle : s.running.length < cfg.workers) :
      Step cfg s .take { s with
        tasks := rest
        running := s.running ++ [tagged] }
  | finish {s : State} {index : Nat} {tagged : Tagged} (nowNs : Int64)
      (chosen : s.running[index]? = some tagged) :
      Step cfg s (.finish index nowNs)
        { processEntry cfg s tagged nowNs with running := s.running.eraseIdx index }
  | drain {s : State} {tagged : Tagged} {rest : List Tagged} (popped : s.ring = tagged :: rest) :
      Step cfg s .drain { s with ring := rest }
  | evict {s : State} {project : Bytes} {store : Tsdb.Store} (now : Int)
      (loaded : s.tsdbMap project = some store) :
      Step cfg s (.evict project now)
        { s with tsdbMap := Function.update s.tsdbMap project (some (store.evictOldEntries now)) }

end Server

end LogMonitor
