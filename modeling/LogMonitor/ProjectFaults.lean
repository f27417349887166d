import LogMonitor.AlertRulesReload
import LogMonitor.ProjectLogs
import LogMonitor.TokenRoundTrip

/-!
Why a project route answers 500. The names of projects and the owners come out
of JSON that was read, the rest is drawn or fixed, so the account data is UTF-8
in every state: writing it never throws. What is left are the disk, the source
of randomness, fields of a wrong type, and logs or rules that are not UTF-8.
-/

namespace LogMonitor

namespace AuthManager
open Library Library.ByteString

theorem hexDigit_ascii (n : Nat) : hexDigit n < 128 := by
  have digits : ∀ c ∈ text "0123456789abcdef", c < 128 := by decide +kernel
  unfold hexDigit
  rw [List.getD_eq_getElem?_getD]
  cases there : (text "0123456789abcdef")[n]? with
  | none => decide
  | some c => exact digits c (List.mem_of_getElem? there)

theorem randomHex_utf8 {n : Nat} (drawn : Vector UInt8 n) : Utf8 (randomHex drawn) := by
  apply utf8_ascii
  intro c inside
  obtain ⟨byte, -, digit⟩ := List.mem_flatMap.mp inside
  simp only [List.mem_cons, List.not_mem_nil, or_false] at digit
  rcases digit with rfl | rfl
  · exact hexDigit_ascii _
  · exact hexDigit_ascii _

theorem signedClaims_sub {jwt : Jwt} {token : Bytes} {claims : JwtClaims}
    (reads : ∀ bytes json, jwt.parse bytes = some json → json.Writable)
    (signed : signedClaims jwt token = .returned (some claims)) : Utf8 claims.sub := by
  obtain ⟨header, body, signature, json, -, -, -, -, parsed, read⟩ := signedClaims_some signed
  unfold readClaims at read
  obtain ⟨sub, readSub, read⟩ := AlertRulesEngine.bind_ok read
  obtain ⟨email, -, read⟩ := AlertRulesEngine.bind_ok read
  obtain ⟨iat, -, read⟩ := AlertRulesEngine.bind_ok read
  obtain ⟨exp, -, read⟩ := AlertRulesEngine.bind_ok read
  obtain ⟨jti, -, read⟩ := AlertRulesEngine.bind_ok read
  obtain rfl := Except.ok.inj read
  exact (reads _ json parsed).valueString (by decide) readSub

end AuthManager

section Stores

open Library Library.ByteString AuthManager

structure Project.Legible (p : Project) : Prop where
  id : Utf8 p.id
  name : Utf8 p.name
  ownerId : Utf8 p.ownerId
  apiKey : Utf8 p.apiKey

namespace ProjectStore

def State.Legible (s : State) : Prop := ∀ p ∈ s.projects, p.Legible

def Call.Legible : Call → Prop
  | .create name ownerId => Utf8 name ∧ Utf8 ownerId
  | _ => True

variable {s : State}

theorem apiKeyOf_utf8 (drawn : Vector UInt8 16) : Utf8 (apiKeyOf drawn) := by
  have marker : Utf8 (text "lm_proj_") := by decide
  exact marker.append (randomHex_utf8 drawn)

theorem State.Legible.push (legible : s.Legible) {p : Project} (new : p.Legible) :
    (s.push p).Legible := by
  intro q listed
  rcases List.mem_append.mp listed with old | added
  · exact legible q old
  · rwa [List.mem_singleton.mp added]

theorem mem_projects_of_locate {id : Bytes} {idx : Nat} {p : Project}
    (located : s.locate id = some (idx, p)) : p ∈ s.projects :=
  List.mem_of_getElem? (locate_eq_some.mp located).2

theorem legible_set {projects : List Project} (legible : ∀ p ∈ projects, p.Legible) (idx : Nat)
    {p : Project} (new : p.Legible) : ∀ q ∈ projects.set idx p, q.Legible := by
  intro q listed
  rcases List.mem_or_eq_of_mem_set listed with old | rfl
  · exact legible q old
  · exact new

theorem State.Legible.save (legible : s.Legible) (env : AccountEnvironment) :
    (s.save env).1.Legible := legible

theorem State.Legible.eraseKey (legible : s.Legible) (p : Project) : (s.eraseKey p).Legible :=
  legible

theorem State.Legible.remove (legible : s.Legible) {id : Bytes} {idx : Nat} {p : Project}
    (located : s.locate id = some (idx, p)) : (s.remove id idx p).Legible := by
  have old := legible p (mem_projects_of_locate located)
  have unnamed : Utf8 [] := by decide
  exact legible_set legible idx ⟨unnamed, old.name, old.ownerId, old.apiKey⟩

theorem State.Legible.setKey (legible : s.Legible) {id : Bytes} {idx : Nat} {p : Project}
    (located : s.locate id = some (idx, p)) (drawn : Vector UInt8 16) :
    (s.setKey idx p (apiKeyOf drawn)).Legible := by
  have old := legible p (mem_projects_of_locate located)
  exact legible_set legible idx ⟨old.id, old.name, old.ownerId, apiKeyOf_utf8 drawn⟩

theorem perform_legible (legible : s.Legible) {call : Call} (clean : call.Legible)
    (env : AccountEnvironment) : (perform s call env).1.Legible := by
  cases call with
  | create name ownerId =>
    rcases createProject_cases s name ownerId env with
      ⟨_, same⟩ | ⟨_, _, same⟩ | ⟨_, _, _, same⟩ | ⟨id, key, _, _, _, _, same⟩
    · simpa only [perform, same] using legible
    · simpa only [perform, same] using legible
    · simpa only [perform, same] using legible
    · have new : (⟨randomHex id, name, ownerId, apiKeyOf key, env.now⟩ : Project).Legible :=
        ⟨randomHex_utf8 id, clean.1, clean.2, apiKeyOf_utf8 key⟩
      simpa only [perform, same, saved] using (legible.push new).save env
  | delete id owner =>
    rcases deleteProject_cases s id owner env with
      ⟨_, same⟩ | ⟨idx, p, located, ⟨_, same⟩ | ⟨_, same⟩⟩
    · simpa only [perform, same] using legible
    · simpa only [perform, same] using legible
    · simpa only [perform, same, saved] using (legible.remove located).save env
  | rotate id owner =>
    rcases rotateApiKey_cases s id owner env with
      ⟨_, same⟩ | ⟨idx, p, located, ⟨_, same⟩ | ⟨_, _, same⟩ | ⟨drawn, _, _, same⟩⟩
    · simpa only [perform, same] using legible
    · simpa only [perform, same] using legible
    · simpa only [perform, same] using legible.eraseKey p
    · have rekeyed := ((legible.eraseKey p).setKey located drawn).save env
      simpa only [perform, same, saved] using rekeyed

theorem toJson_writable {p : Project} (legible : p.Legible) : (toJson p).Writable := by
  have id : Utf8 (text "id") := by decide
  have name : Utf8 (text "name") := by decide
  have owner : Utf8 (text "owner_id") := by decide
  have key : Utf8 (text "api_key") := by decide
  have created : Utf8 (text "created_at_ns") := by decide
  simp [toJson, id, name, owner, key, created, legible.id, legible.name, legible.ownerId,
    legible.apiKey]

theorem State.Legible.encoding (legible : s.Legible) : (encoding s.projects).Writable := by
  refine (Json.writable_array _).mpr fun json listed => ?_
  obtain ⟨p, inside, rfl⟩ := List.mem_map.mp listed
  exact toJson_writable (legible p (List.mem_of_mem_filter inside))

theorem load_legible {parsed : Option Json} {files : Files} {s : State}
    (reads : ∀ json, parsed = some json → json.Writable) (loaded : load parsed files = .ok s) :
    s.Legible := by
  have records : ∀ (records : List Json), (∀ json ∈ records, json.Writable) → ∀ s t,
      State.Legible s → loadRecords records s = .ok t → State.Legible t := by
    intro records
    induction records with
    | nil =>
      intro _ s t legible loaded
      obtain rfl := Except.ok.inj loaded
      exact legible
    | cons json rest ih =>
      intro writable s t legible loaded
      obtain ⟨p, read, loaded⟩ := AlertRulesEngine.bind_ok loaded
      refine ih (fun other inside => writable other (List.mem_cons_of_mem _ inside)) _ t ?_ loaded
      split
      next => exact legible
      next =>
        apply legible.push
        have valid := writable json (List.mem_cons_self ..)
        unfold ofJson at read
        obtain ⟨id, readId, read⟩ := AlertRulesEngine.bind_ok read
        obtain ⟨name, readName, read⟩ := AlertRulesEngine.bind_ok read
        obtain ⟨owner, readOwner, read⟩ := AlertRulesEngine.bind_ok read
        obtain ⟨key, readKey, read⟩ := AlertRulesEngine.bind_ok read
        obtain ⟨created, -, read⟩ := AlertRulesEngine.bind_ok read
        obtain rfl := Except.ok.inj read
        exact ⟨valid.valueString (by decide) readId, valid.valueString (by decide) readName,
          valid.valueString (by decide) readOwner, valid.valueString (by decide) readKey⟩
  have none : State.Legible (empty files) := by
    intro p listed
    cases listed
  unfold load at loaded
  split at loaded
  next elements =>
    have writable := (Json.writable_array elements).mp (reads _ rfl)
    exact records elements writable _ s none loaded
  next =>
    obtain rfl := Except.ok.inj loaded
    exact none

def State.Stuck (s : State) (disk : Disk) : Prop :=
  disk.renames = false ∨ disk.opens = false ∧ s.files.tmp = none

/-- Why a call fails that the text of the store does not stop. -/
def Call.Unlucky (s : State) (env : AccountEnvironment) : Call → Prop
  | .create _ _ => env.idDraw = none ∨ env.keyDraw = none ∨ s.Stuck env.disk
  | .delete _ _ => s.Stuck env.disk
  | .rotate id requestingOwnerId => env.keyDraw = none ∨ s.Stuck env.disk ∨
      ∀ idx p, s.locate id = some (idx, p) → p.ownerId ≠ requestingOwnerId

section Failures

variable {env : AccountEnvironment}

theorem State.Legible.stuck (legible : s.Legible)
    (dumps : ∀ json : Json, json.Writable → (env.dump json).isSome)
    (failed : (s.save env).2 = false) : s.Stuck env.disk := by
  have written := dumps _ legible.encoding
  have result : (s.save env).2 = (saveLocked env.disk (env.dump (ProjectStore.encoding s.projects))
    s.files).2 := rfl
  rw [result, saveLocked_snd, written] at failed
  unfold State.Stuck
  cases renames : env.disk.renames with
  | false => exact .inl rfl
  | true =>
    right
    simpa [renames] using failed

theorem saved_threw {α : Type} {value : α} (legible : s.Legible)
    (dumps : ∀ json : Json, json.Writable → (env.dump json).isSome)
    (threw : (saved s env value).2 = .threw) : s.Stuck env.disk := by
  unfold saved at threw
  cases result : (s.save env).2 with
  | false => exact legible.stuck dumps result
  | true => simp [result] at threw

theorem saved_value {α : Type} {value result : α}
    (returned : (saved s env value).2 = .returned result) : result = value := by
  unfold saved at returned
  split at returned
  next => exact (Outcome.returned.inj returned).symm
  next => cases returned

theorem createProject_threw (legible : s.Legible) {name ownerId : Bytes} (clean : Utf8 name)
    (owner : Utf8 ownerId) (dumps : ∀ json : Json, json.Writable → (env.dump json).isSome)
    (threw : (createProject s name ownerId env).2 = .threw) :
    (Call.create name ownerId).Unlucky s env := by
  rcases createProject_cases s name ownerId env with
    ⟨_, same⟩ | ⟨_, _, same⟩ | ⟨_, _, undrawn, _⟩ | ⟨id, key, _, _, _, _, same⟩
  · rw [same] at threw
    cases threw
  · rw [same] at threw
    cases threw
  · exact undrawn.imp_right .inl
  · rw [same] at threw
    have new : (⟨randomHex id, name, ownerId, apiKeyOf key, env.now⟩ : Project).Legible :=
      ⟨randomHex_utf8 id, clean, owner, apiKeyOf_utf8 key⟩
    have stuck := saved_threw (legible.push new) dumps threw
    exact .inr (.inr stuck)

theorem deleteProject_threw (legible : s.Legible) {id owner : Bytes}
    (dumps : ∀ json : Json, json.Writable → (env.dump json).isSome)
    (threw : (deleteProject s id owner env).2 = .threw) : (Call.delete id owner).Unlucky s env := by
  rcases deleteProject_cases s id owner env with
    ⟨_, same⟩ | ⟨idx, p, located, ⟨_, same⟩ | ⟨_, same⟩⟩
  · rw [same] at threw
    cases threw
  · rw [same] at threw
    cases threw
  · rw [same] at threw
    have stuck := saved_threw (legible.remove located) dumps threw
    exact stuck

/-- A rotation gives no key back only if it fails. -/
theorem rotateApiKey_fails (legible : s.Legible) {id owner : Bytes}
    (dumps : ∀ json : Json, json.Writable → (env.dump json).isSome)
    (fails : (rotateApiKey s id owner env).2 = .threw ∨
      (rotateApiKey s id owner env).2 = .returned []) : (Call.rotate id owner).Unlucky s env := by
  rcases rotateApiKey_cases s id owner env with
    ⟨none, _⟩ | ⟨idx, p, located, ⟨other, _⟩ | ⟨_, undrawn, _⟩ | ⟨drawn, _, _, same⟩⟩
  · refine .inr (.inr fun idx p located => ?_)
    rw [none] at located
    cases located
  · refine .inr (.inr fun idx' p' located' => ?_)
    rw [located] at located'
    obtain ⟨rfl, rfl⟩ := Prod.mk.inj (Option.some.inj located')
    exact other
  · exact .inl undrawn
  · rw [same] at fails
    rcases fails with threw | empty
    · have stuck := saved_threw ((legible.eraseKey p).setKey located drawn) dumps threw
      exact .inr (.inl stuck)
    · have drew := saved_value empty
      simp [apiKeyOf, text] at drew

theorem createProject_returned {name ownerId : Bytes} (clean : Utf8 name) (owner : Utf8 ownerId) :
    (∀ p, (createProject s name ownerId env).2 = .returned (.ok p) → p.Legible) ∧
      ∀ error, (createProject s name ownerId env).2 = .returned (.error error) → Utf8 error := by
  rcases createProject_cases s name ownerId env with
    ⟨_, same⟩ | ⟨_, _, same⟩ | ⟨_, _, _, same⟩ | ⟨id, key, _, _, _, _, same⟩
  · rw [same]
    refine ⟨by rintro _ ⟨⟩, ?_⟩
    rintro _ ⟨⟩
    decide
  · rw [same]
    refine ⟨by rintro _ ⟨⟩, ?_⟩
    rintro _ ⟨⟩
    decide
  · rw [same]
    exact ⟨by rintro _ ⟨⟩, by rintro _ ⟨⟩⟩
  · rw [same]
    constructor
    · intro p returned
      obtain rfl := Except.ok.inj (saved_value returned)
      exact ⟨randomHex_utf8 id, clean, owner, apiKeyOf_utf8 key⟩
    · intro error returned
      cases saved_value returned

theorem deleteProject_returned {id owner error : Bytes}
    (returned : (deleteProject s id owner env).2 = .returned error) : Utf8 error := by
  rcases deleteProject_cases s id owner env with
    ⟨_, same⟩ | ⟨idx, p, _, ⟨_, same⟩ | ⟨_, same⟩⟩
  · rw [same] at returned
    obtain rfl := Outcome.returned.inj returned
    decide
  · rw [same] at returned
    obtain rfl := Outcome.returned.inj returned
    decide
  · rw [same] at returned
    obtain rfl := saved_value returned
    decide

theorem rotateApiKey_returned {id owner key : Bytes}
    (returned : (rotateApiKey s id owner env).2 = .returned key) : Utf8 key := by
  rcases rotateApiKey_cases s id owner env with
    ⟨_, same⟩ | ⟨idx, p, _, ⟨_, same⟩ | ⟨_, _, same⟩ | ⟨drawn, _, _, same⟩⟩
  · rw [same] at returned
    obtain rfl := Outcome.returned.inj returned
    decide
  · rw [same] at returned
    obtain rfl := Outcome.returned.inj returned
    decide
  · rw [same] at returned
    cases returned
  · rw [same] at returned
    obtain rfl := saved_value returned
    exact apiKeyOf_utf8 drawn

end Failures

end ProjectStore

end Stores

namespace ProjectRoutes
open Library Library.ByteString Library.Transition AuthManager ProjectStore Tsdb AlertRulesEngine

/-- What the JSON library promises: the writer throws on text that is not UTF-8 alone, and the
reader takes no other text. -/
structure Strict (cfg : Config) : Prop where
  dumps : ∀ json, (cfg.dump json).isSome ↔ json.Writable
  reads : ∀ jwt, cfg.authMgr = some jwt → ∀ bytes json, jwt.parse bytes = some json → json.Writable

/-- What a step brings in keeps to it too. -/
def Label.Clean : Label → Prop
  | .arrive _ request => ∀ body, request.body = some body → body.Writable
  | .handle _ input => ∀ json : Json, json.Writable → (input.env.dump json).isSome
  | .tenant (.account event) => event.call.Legible
  | _ => True

/-- The JSON of a read's answer; the metrics have none. -/
def Read.json (kind : Read) (request : Request) (looks : List Look) : Option Json :=
  let look (i : Nat) : Look := looks.getD i ⟨Store.empty, 0⟩
  let app := request.app.getD []
  match kind with
  | .query => some ((look 0).queryToJson app (request.level.getD []) request.lastSec)
  | .stats => some ((look 0).statsToJson app request.lastSec)
  | .apps => some (appsToJson look)
  | .metrics => none

section Faults

variable (cfg : Config) (hashPassword : Bytes → Bytes → Option Bytes) (start : System)
variable (labels : List Label) (s : System) (thread : Nat) (request : Request)

inductive Fault : Prop
  /-- The claims of the token are signed but of a wrong type. -/
  | claims {jwt : Jwt} {token : Bytes} (built : cfg.authMgr = some jwt)
      (header : request.authorization = bearer ++ token)
      (threw : signedClaims jwt token = .threw)
  | name {body : Json} {error : Json.Error} (route : request.route = .create)
      (read : request.body = some body) (wrong : body.valueString (text "name") [] = .error error)
  /-- The disk or the source of randomness fails, or the project to rotate the key of has gone. -/
  | store {claims : JwtClaims} {call : Call} {input : Input}
      (called : request.call claims.sub = some call)
      (took : Took (Step cfg hashPassword) start labels s (.handle thread input) fun _ m =>
        call.Unlucky m.state.tenantMgr.projectStore input.env)
  | rules {id : Bytes} {input : Input} (route : request.route = .project id .rules)
      (took : Took (Step cfg hashPassword) start labels s (.handle thread input) fun _ m =>
        ∃ rules, m.state.rules = some rules ∧ ¬(getRulesJson rules).Writable)
  | history {id : Bytes} {input : Input} (route : request.route = .project id .history)
      (took : Took (Step cfg hashPassword) start labels s (.handle thread input) fun _ m =>
        ∃ history, m.state.history = some history ∧
          ¬(AlertDelivery.historyToJson history).Writable)
  | read {id : Bytes} {kind : Read} {looks : List Look} {json : Json}
      (route : request.route = .project id (.read kind))
      (looked : Looked cfg hashPassword start labels s thread request id kind looks)
      (answer : kind.json request looks = some json) (other : ¬json.Writable)
  /-- The store of the project was not there, and could not be had. -/
  | unopened {id : Bytes} {kind : Read} (route : request.route = .project id (.read kind))
      (took : Took (Step cfg hashPassword) start labels s (.unopened thread) fun _ m =>
        m.state.tenantMgr.tsdbMap id = none)

end Faults

variable {cfg : Config} {hashPassword : Bytes → Bytes → Option Bytes}
variable {start s next : System} {labels : List Label} {label : Label} {thread : Nat}
variable {request : Request}

theorem Fault.snoc (fault : Fault cfg hashPassword start labels s thread request)
    (step : Step cfg hashPassword s label next) :
    Fault cfg hashPassword start (labels ++ [label]) next thread request := by
  cases fault with
  | claims built header threw => exact .claims built header threw
  | name route read wrong => exact .name route read wrong
  | store called took => exact .store called (took.snoc step)
  | rules route took => exact .rules route (took.snoc step)
  | history route took => exact .history route (took.snoc step)
  | read route looked answer other => exact .read route (looked.snoc step) answer other
  | unopened route took => exact .unopened route (took.snoc step)

section Answers

theorem sendJson_fails (strict : Strict cfg) {status : Nat} {json : Json}
    (failed : (sendJson cfg status json).status = 500) : status = 500 ∨ ¬json.Writable := by
  by_contra fine
  obtain ⟨other, writable⟩ := not_or.mp fine
  obtain ⟨bytes, dumped⟩ := Option.isSome_iff_exists.mp
    ((strict.dumps json).mpr (not_not.mp writable))
  unfold sendJson at failed
  rw [dumped] at failed
  exact other failed

theorem jsonError_fails (strict : Strict cfg) {status : Nat} {message : Bytes}
    (ascii : Utf8 message) (failed : (jsonError cfg status message).status = 500) :
    status = 500 := by
  rcases sendJson_fails strict failed with same | other
  · exact same
  · have key : Utf8 (text "error") := by decide
    exact absurd (by simp [key, ascii]) other

theorem respond_eq (cfg : Config) (kind : Read) (request : Request) (looks : List Look) :
    (∃ json, kind.json request looks = some json ∧
      kind.respond cfg request looks = sendJson cfg 200 json) ∨
      (kind.respond cfg request looks).status = 200 := by
  cases kind with
  | query => exact .inl ⟨_, rfl, rfl⟩
  | stats => exact .inl ⟨_, rfl, rfl⟩
  | apps => exact .inl ⟨_, rfl, rfl⟩
  | metrics => exact .inr rfl

theorem projectRow_writable {p : Project} (legible : p.Legible) : (projectRow p).Writable := by
  have id : Utf8 (text "id") := by decide
  have name : Utf8 (text "name") := by decide
  have key : Utf8 (text "api_key") := by decide
  have created : Utf8 (text "created_at_ns") := by decide
  simp [projectRow, id, name, key, created, legible.id, legible.name, legible.apiKey]

end Answers

section Failed

variable {input : Input} {response : Response}

theorem authenticated_sub (strict : Strict cfg) {claims : JwtClaims}
    (auth : Authenticated cfg hashPassword start labels s thread request claims) :
    Utf8 claims.sub := by
  obtain ⟨jwt, token, _, _, built, _, _, _, _, _, _, _, _, _, -, -, verified⟩ := auth
  exact signedClaims_sub (strict.reads jwt built) (verifyToken_eq_some.mp verified).1

theorem authBearer_fault (strict : Strict cfg)
    (answers : authBearer cfg request input.nowSec = .answers response)
    (failed : response.status = 500) :
    Fault cfg hashPassword start labels s thread request := by
  unfold authBearer at answers
  split at answers
  next =>
    obtain rfl := Progress.answers.inj answers
    cases jsonError_fails strict (by decide) failed
  next jwt built =>
    split at answers
    next =>
      obtain rfl := Progress.answers.inj answers
      cases jsonError_fails strict (by decide) failed
    next header =>
      obtain ⟨token, shape⟩ := not_not.mp header
      rw [← shape, List.drop_left] at answers
      split at answers
      next threw => exact .claims built shape.symm threw
      next =>
        obtain rfl := Progress.answers.inj answers
        cases jsonError_fails strict (by decide) failed
      next =>
        split at answers
        next =>
          obtain rfl := Progress.answers.inj answers
          cases jsonError_fails strict (by decide) failed
        next => cases answers

theorem finishAuth_fine (strict : Strict cfg) {state : State} {claims : JwtClaims}
    (answers : (finishAuth cfg state claims input.nowSec).2 = .answers response) :
    response.status ≠ 500 := by
  intro failed
  unfold finishAuth at answers
  dsimp only at answers
  split at answers
  next => cases answers
  next =>
    obtain rfl := Progress.answers.inj answers
    cases jsonError_fails strict (by decide) failed

theorem verifyOwnership_fine (strict : Strict cfg) {projectStore : ProjectStore.State}
    {id : Bytes} {claims : JwtClaims}
    (refused : verifyOwnership cfg projectStore id claims = some response) :
    response.status ≠ 500 := by
  intro failed
  unfold verifyOwnership at refused
  split at refused
  next =>
    obtain rfl := Option.some.inj refused
    cases jsonError_fails strict (by decide) failed
  next =>
    split at refused
    next =>
      obtain rfl := Option.some.inj refused
      cases jsonError_fails strict (by decide) failed
    next =>
      split at refused
      next =>
        obtain rfl := Option.some.inj refused
        cases jsonError_fails strict (by decide) failed
      next => cases refused

theorem handleProjList_fine (strict : Strict cfg) {projectStore : ProjectStore.State}
    (legible : projectStore.Legible) (claims : JwtClaims) :
    (handleProjList cfg projectStore claims).status ≠ 500 := by
  intro failed
  unfold handleProjList at failed
  split at failed
  next => cases jsonError_fails strict (by decide) failed
  next =>
    rcases sendJson_fails strict failed with wrong | other
    · cases wrong
    · refine other ((Json.writable_array _).mpr fun json listed => ?_)
      obtain ⟨p, inside, rfl⟩ := List.mem_map.mp listed
      obtain ⟨idx, -, there⟩ := List.mem_filterMap.mp inside
      exact projectRow_writable (legible p (List.mem_of_getElem? there))

theorem handleProjCreate_fault (strict : Strict cfg)
    (run : Run (Step cfg hashPassword) start labels s)
    (legible : s.state.tenantMgr.projectStore.Legible) (clean : (Label.handle thread input).Clean)
    (bodies : ∀ body, request.body = some body → body.Writable) {claims : JwtClaims}
    (subject : Utf8 claims.sub) (route : request.route = .create)
    (step : Step cfg hashPassword s (.handle thread input) next)
    (failed : (handleProjCreate cfg s.state request.body claims input.env).2.status = 500) :
    Fault cfg hashPassword start (labels ++ [.handle thread input]) next thread request := by
  unfold handleProjCreate at failed
  split at failed
  next => cases jsonError_fails strict (by decide) failed
  next =>
    split at failed
    next => cases jsonError_fails strict (by decide) failed
    next body read =>
      split at failed
      next error wrong => exact .name route read wrong
      next name named =>
        split at failed
        next => cases jsonError_fails strict (by decide) failed
        next =>
          have valid := (bodies body read).valueString (by decide) named
          have called : request.call claims.sub = some (.create name claims.sub) := by
            simp [Request.call, route, read, named, Except.toOption]
          have results := @createProject_returned s.state.tenantMgr.projectStore input.env _ _ valid
            subject
          dsimp only at failed
          split at failed
          next threw =>
            have unlucky := createProject_threw legible valid subject clean threw
            exact .store called (Took.now run step unlucky)
          next error returned =>
            cases jsonError_fails strict (results.2 error returned) failed
          next p returned =>
            rcases sendJson_fails strict failed with wrong | other
            · cases wrong
            · exact absurd (projectRow_writable (results.1 p returned)) other

theorem handleProjDelete_fault (strict : Strict cfg)
    (run : Run (Step cfg hashPassword) start labels s)
    (legible : s.state.tenantMgr.projectStore.Legible) (clean : (Label.handle thread input).Clean)
    {claims : JwtClaims} {id : Bytes} (route : request.route = .project id .delete)
    (step : Step cfg hashPassword s (.handle thread input) next)
    (failed : (handleProjDelete cfg s.state id claims input.env).2.status = 500) :
    Fault cfg hashPassword start (labels ++ [.handle thread input]) next thread request := by
  have called : request.call claims.sub = some (.delete id claims.sub) := by
    simp [Request.call, route]
  unfold handleProjDelete at failed
  dsimp only at failed
  split at failed
  next threw => exact .store called (Took.now run step (deleteProject_threw legible clean threw))
  next error returned =>
    split at failed
    next => cases jsonError_fails strict (deleteProject_returned returned) failed
    next => cases failed

theorem handleProjRotate_fault (strict : Strict cfg)
    (run : Run (Step cfg hashPassword) start labels s)
    (legible : s.state.tenantMgr.projectStore.Legible) (clean : (Label.handle thread input).Clean)
    {claims : JwtClaims} {id : Bytes} (route : request.route = .project id .rotate)
    (step : Step cfg hashPassword s (.handle thread input) next)
    (failed : (handleProjRotate cfg s.state id claims input.env).2.status = 500) :
    Fault cfg hashPassword start (labels ++ [.handle thread input]) next thread request := by
  have called : request.call claims.sub = some (.rotate id claims.sub) := by
    simp [Request.call, route]
  unfold handleProjRotate at failed
  dsimp only at failed
  split at failed
  next threw =>
    exact .store called (Took.now run step (rotateApiKey_fails legible clean (.inl threw)))
  next newKey returned =>
    split at failed
    next empty =>
      rw [empty] at returned
      exact .store called (Took.now run step (rotateApiKey_fails legible clean (.inr returned)))
    next =>
      have key := rotateApiKey_returned returned
      have field : Utf8 (text "api_key") := by decide
      rcases sendJson_fails strict failed with wrong | other
      · cases wrong
      · exact absurd (by simp [field, key]) other

theorem handleProjRules_fault (strict : Strict cfg)
    (run : Run (Step cfg hashPassword) start labels s) {id : Bytes}
    (route : request.route = .project id .rules)
    (step : Step cfg hashPassword s (.handle thread input) next)
    (failed : (handleProjRules cfg s.state).status = 500) :
    Fault cfg hashPassword start (labels ++ [.handle thread input]) next thread request := by
  unfold handleProjRules at failed
  split at failed
  next rules shown =>
    rcases sendJson_fails strict failed with wrong | other
    · cases wrong
    · exact .rules route (Took.now run step ⟨rules, shown, other⟩)
  next => cases failed

theorem handleProjHistory_fault (strict : Strict cfg)
    (run : Run (Step cfg hashPassword) start labels s) {id : Bytes}
    (route : request.route = .project id .history)
    (step : Step cfg hashPassword s (.handle thread input) next)
    (failed : (handleProjHistory cfg s.state).status = 500) :
    Fault cfg hashPassword start (labels ++ [.handle thread input]) next thread request := by
  unfold handleProjHistory at failed
  split at failed
  next history shown =>
    rcases sendJson_fails strict failed with wrong | other
    · cases wrong
    · exact .history route (Took.now run step ⟨history, shown, other⟩)
  next => cases failed

theorem advance_fault (strict : Strict cfg) (run : Run (Step cfg hashPassword) start labels s)
    (legible : s.state.tenantMgr.projectStore.Legible) (clean : (Label.handle thread input).Clean)
    (bodies : ∀ body, request.body = some body → body.Writable) {phase : Phase}
    (sound : phase.Sound cfg hashPassword start labels s thread request)
    (honest : phase.Honest cfg hashPassword start labels s thread request)
    (step : Step cfg hashPassword s (.handle thread input) next)
    (answers : (advance cfg s.state request phase input).2 = .answers response)
    (failed : response.status = 500) :
    Fault cfg hashPassword start (labels ++ [.handle thread input]) next thread request := by
  cases phase with
  | received => exact authBearer_fault strict answers failed
  | unexpired claims => exact absurd failed (finishAuth_fine strict answers)
  | authenticated claims =>
    have subject := authenticated_sub strict sound
    simp only [advance] at answers
    cases route : request.route with
    | list =>
      rw [route] at answers
      obtain rfl := Progress.answers.inj answers
      exact absurd failed (handleProjList_fine strict legible claims)
    | create =>
      rw [route] at answers
      obtain rfl := Progress.answers.inj answers
      exact handleProjCreate_fault strict run legible clean bodies subject route step failed
    | project id action =>
      rw [route] at answers
      dsimp only at answers
      split at answers
      next refused verified =>
        obtain rfl := Progress.answers.inj answers
        exact absurd failed (verifyOwnership_fine strict verified)
      next => cases answers
  | owned claims id action =>
    cases action with
    | delete =>
      obtain rfl := Progress.answers.inj answers
      exact handleProjDelete_fault strict run legible clean honest step failed
    | rotate =>
      obtain rfl := Progress.answers.inj answers
      exact handleProjRotate_fault strict run legible clean honest step failed
    | rules =>
      obtain rfl := Progress.answers.inj answers
      exact handleProjRules_fault strict run honest step failed
    | history =>
      obtain rfl := Progress.answers.inj answers
      exact handleProjHistory_fault strict run honest step failed
    | read kind =>
      simp only [advance, operate, openTsdb] at answers
      split at answers
      next =>
        obtain rfl := Progress.answers.inj answers
        cases failed
      next =>
        dsimp only at answers
        split at answers
        next =>
          obtain rfl := Progress.answers.inj answers
          cases failed
        next => cases answers
  | looking id kind looks =>
    rcases advance_looking cfg s.state request id kind looks input with ⟨more, on⟩ | done
    · rw [on] at answers
      cases answers
    · rw [done] at answers
      obtain rfl := Progress.answers.inj answers
      rcases respond_eq cfg kind request looks with ⟨json, shown, same⟩ | ok
      · rw [same] at failed
        rcases sendJson_fails strict failed with wrong | other
        · cases wrong
        · exact .read honest.1 (honest.2.snoc step) shown other
      · rw [ok] at failed
        cases failed

end Failed

section Kept

theorem advance_legible (strict : Strict cfg) {input : Input}
    (legible : s.state.tenantMgr.projectStore.Legible)
    (bodies : ∀ body, request.body = some body → body.Writable) {phase : Phase}
    (sound : phase.Sound cfg hashPassword start labels s thread request) :
    (advance cfg s.state request phase input).1.tenantMgr.projectStore.Legible := by
  cases phase with
  | received => exact legible
  | unexpired claims => exact legible
  | authenticated claims =>
    have subject := authenticated_sub strict sound
    simp only [advance]
    cases request.route with
    | list => exact legible
    | create =>
      simp only [handleProjCreate]
      split
      next => exact legible
      next =>
        split
        next => exact legible
        next body read =>
          split
          next => exact legible
          next name named =>
            split
            next => exact legible
            next =>
              have valid := (bodies body read).valueString (by decide) named
              have clean : (Call.create name claims.sub).Legible := ⟨valid, subject⟩
              exact perform_legible legible clean input.env
    | project id action =>
      dsimp only
      split
      next => exact legible
      next => exact legible
  | owned claims id action =>
    cases action with
    | delete => exact @perform_legible _ legible (.delete id claims.sub) trivial input.env
    | rotate => exact @perform_legible _ legible (.rotate id claims.sub) trivial input.env
    | rules => exact legible
    | history => exact legible
    | read kind =>
      simp only [advance, operate, openTsdb]
      split
      next => exact legible
      next =>
        dsimp only
        rw [TenantManager.getTsdb_projectStore]
        exact legible
  | looking id kind looks =>
    simp only [advance]
    split
    next => exact legible
    next => exact legible

theorem tenant_legible {persisted : Bytes → Store} {s next : TenantManager.State}
    {label : TenantManager.Label} (legible : s.projectStore.Legible)
    (clean : (Label.tenant label).Clean) (step : TenantManager.Step persisted s label next) :
    next.projectStore.Legible := by
  cases step with
  | @account event after step =>
    have kept := perform_legible legible clean event.env
    rwa [step] at kept
  | routeIngest apiKey entry =>
    rw [TenantManager.routeIngest_projectStore]
    exact legible
  | ingestToProject projectId entry =>
    rw [TenantManager.ingestToProject_projectStore]
    exact legible
  | getTsdb projectId =>
    rw [TenantManager.getTsdb_projectStore]
    exact legible
  | evict now present => exact legible

/-- The projects are UTF-8, and so are the bodies of the requests that are being handled. -/
structure System.Legible (s : System) : Prop where
  projects : s.state.tenantMgr.projectStore.Legible
  bodies : ∀ thread request phase, s.active thread = some (request, phase) →
    ∀ body, request.body = some body → body.Writable

theorem System.Legible.settle (legible : s.Legible) {result : State × Progress}
    (projects : result.1.tenantMgr.projectStore.Legible)
    (bodies : ∀ body, request.body = some body → body.Writable) :
    (s.settle thread request result).Legible := by
  constructor
  · rw [settle_state]
    exact projects
  · exact (@settle_holds s thread request result
      (fun _ current _ => ∀ body, current.body = some body → body.Writable) (fun _ => True)
      legible.bodies (fun _ _ => trivial) (fun _ _ => bodies) (fun _ _ => trivial)).1

theorem legible_step (strict : Strict cfg)
    (guarded : Guarded cfg hashPassword start labels s) (legible : s.Legible)
    (step : Step cfg hashPassword s label next) (clean : label.Clean) : next.Legible := by
  cases step with
  | @arrive thread request idle new =>
    refine ⟨legible.projects, fun other current phase here => ?_⟩
    by_cases same : other = thread
    · subst other
      have now := (Function.update_self _ _ s.active).symm.trans here
      obtain ⟨rfl, -⟩ := Prod.mk.inj (Option.some.inj now)
      exact clean
    · have before := (Function.update_of_ne same _ s.active).symm.trans here
      exact legible.bodies other current phase before
  | @handle thread request phase input here =>
    have bodies := legible.bodies thread request phase here
    have sound := guarded.active thread request phase here
    exact legible.settle (advance_legible strict legible.projects bodies sound) bodies
  | @unopened thread request _ _ _ here =>
    exact legible.settle legible.projects (legible.bodies thread request _ here)
  | tenant step => exact ⟨tenant_legible legible.projects clean step, legible.bodies⟩
  | register => exact ⟨legible.projects, legible.bodies⟩
  | revoke => exact ⟨legible.projects, legible.bodies⟩
  | isRevoked => exact ⟨legible.projects, legible.bodies⟩
  | alerts => exact ⟨legible.projects, legible.bodies⟩

def Explained (cfg : Config) (hashPassword : Bytes → Bytes → Option Bytes) (start : System)
    (labels : List Label) (s : System) : Prop :=
  ∀ served ∈ s.served, served.response.status = 500 →
    Fault cfg hashPassword start labels s served.thread served.request

theorem explained_step (strict : Strict cfg) (run : Run (Step cfg hashPassword) start labels s)
    (guarded : Guarded cfg hashPassword start labels s)
    (reading : Reading cfg hashPassword start labels s) (legible : s.Legible)
    (holds : Explained cfg hashPassword start labels s)
    (step : Step cfg hashPassword s label next) (clean : label.Clean) :
    Explained cfg hashPassword start (labels ++ [label]) next := by
  have whole := step
  intro served listed failed
  cases step with
  | @handle thread request phase input here =>
    cases progress : (advance cfg s.state request phase input).2 with
    | goesOn reached =>
      rw [(settle_goesOn s thread request progress).2] at listed
      exact (holds served listed failed).snoc whole
    | answers response =>
      rw [(settle_answers s thread request progress).2] at listed
      rcases List.mem_append.mp listed with before | new
      · exact (holds served before failed).snoc whole
      · obtain rfl := List.mem_singleton.mp new
        have sound := guarded.active thread request phase here
        have honest := reading.active thread request phase here
        have bodies := legible.bodies thread request phase here
        exact advance_fault strict run legible.projects clean bodies sound honest whole progress
          failed
  | @unopened thread request claims id kind here managed named absent =>
    rcases List.mem_append.mp listed with before | new
    · exact (holds served before failed).snoc whole
    · obtain rfl := List.mem_singleton.mp new
      exact .unopened (guarded.active thread request _ here).2.1 (Took.now run whole absent)
  | arrive => exact (holds served listed failed).snoc whole
  | tenant => exact (holds served listed failed).snoc whole
  | register => exact (holds served listed failed).snoc whole
  | revoke => exact (holds served listed failed).snoc whole
  | isRevoked => exact (holds served listed failed).snoc whole
  | alerts => exact (holds served listed failed).snoc whole

end Kept

section Launched

variable {parsed : Option Json} {files : Files} {projectStore : ProjectStore.State}
variable {defaultProjectId : Bytes} {users : UserStore.State}
variable {rules : Option (List AlertRuleState)} {history : Option (List FiredAlert)}

/-- Whatever requests are handled, the file of the projects can be written in every state, and a
project route answers 500 only for one of the faults. -/
theorem failed_for_fault (strict : Strict cfg)
    (reads : ∀ json, parsed = some json → json.Writable)
    (loaded : load parsed files = .ok projectStore)
    (run : Run (Step cfg hashPassword)
      (launch cfg projectStore defaultProjectId users rules history) labels s)
    (clean : ∀ label ∈ labels, label.Clean) :
    (encoding s.state.tenantMgr.projectStore.projects).Writable ∧
      Explained cfg hashPassword (launch cfg projectStore defaultProjectId users rules history)
        labels s := by
  let start := launch cfg projectStore defaultProjectId users rules history
  have same : start.state.tenantMgr.projectStore = projectStore :=
    TenantManager.construct_projectStore cfg.persisted projectStore defaultProjectId
  have indexed : start.state.tenantMgr.projectStore.Indexed := same ▸ load_indexed loaded
  have written : start.state.tenantMgr.projectStore.Legible := same ▸ load_legible reads loaded
  have legible : start.Legible := by
    refine ⟨written, ?_⟩
    intro thread request phase here
    cases here
  have unserved : Explained cfg hashPassword start [] start := by
    intro served listed
    cases listed
  have holds : s.state.tenantMgr.projectStore.Indexed ∧ Guarded cfg hashPassword start labels s ∧
      Reading cfg hashPassword start labels s ∧ s.Legible ∧
      Explained cfg hashPassword start labels s := by
    revert clean
    refine run.invariant (fun labels s => (∀ label ∈ labels, label.Clean) →
      s.state.tenantMgr.projectStore.Indexed ∧ Guarded cfg hashPassword start labels s ∧
      Reading cfg hashPassword start labels s ∧ s.Legible ∧
      Explained cfg hashPassword start labels s)
      (fun _ => ⟨indexed, guarded_idle _, reading_idle _, legible, unserved⟩) ?_
    intro labels current label next run holds step clean
    have now : label.Clean := clean label (by simp)
    obtain ⟨indexed, guarded, reading, legible, explained⟩ :=
      holds fun other inside => clean other (List.mem_append_left _ inside)
    exact ⟨indexed_step indexed step, guarded_step run indexed guarded step,
      reading_step run reading step, legible_step strict guarded legible step now,
      explained_step strict run guarded reading legible explained step now⟩
  obtain ⟨-, -, -, legible, explained⟩ := holds
  exact ⟨legible.projects.encoding, explained⟩

section Samples
open TokenRevocation

def createRequest : Request :=
  { userRequest .create with body := some (.object [(text "name", .string (text "web"))]) }

def undrawnInput : Input := { userInput with env := ⟨none, none, 0, .sound 0, fun _ => some []⟩ }

def emptyServer (dump : Json → Option Bytes) : System :=
  launch (logServer dump) (empty ⟨none, none⟩) [] (UserStore.empty ⟨none, none⟩) none none

theorem createRequest_fails (dump : Json → Option Bytes) :
    serve (logServer dump) createRequest [undrawnInput, undrawnInput, undrawnInput]
      (emptyServer dump).state = some threwResponse := by
  have carries : Carries (logServer dump) createRequest userClaims :=
    ⟨userJwt, userToken, rfl, rfl, userToken_signed⟩
  have alive : ¬userClaims.exp ≤ undrawnInput.nowSec := userClaims_alive
  rw [serve_authenticated carries alive rfl]
  rfl

theorem logServer_strict {dump : Json → Option Bytes} {parse : Bytes → Option Json}
    (form : Json.TextForm dump parse) : Strict (logServer dump) := by
  refine ⟨form.strict, ?_⟩
  intro jwt built bytes json parsed
  obtain rfl := Option.some.inj built
  obtain rfl := Option.some.inj parsed
  have claims : Utf8 userClaims.email ∧ Utf8 userClaims.jti ∧ Utf8 userClaims.sub := by decide
  have keys : Utf8 (text "email") ∧ Utf8 (text "exp") ∧ Utf8 (text "iat") ∧ Utf8 (text "jti") ∧
      Utf8 (text "sub") := by decide
  simp [payload, claims, keys]

theorem failed_for_fault_undrawn : ∃ dump labels s,
    s.served.map (fun served => served.response.status) = [500] ∧
      (encoding s.state.tenantMgr.projectStore.projects).Writable ∧
        Explained (logServer dump) (fun _ _ => none) (emptyServer dump) labels s := by
  obtain ⟨dump, parse, form, -⟩ := Json.TextForm.exists_writing (Json.writable_integer 0) []
  let start := emptyServer dump
  let arrived : System :=
    { start with active := Function.update start.active 0 (some (createRequest, .received)) }
  have here : arrived.active 0 = some (createRequest, .received) :=
    Function.update_self 0 _ start.active
  have arrive : Run (Step (logServer dump) fun _ _ => none) start [.arrive 0 createRequest]
      arrived :=
    Run.single (.arrive createRequest rfl (by rintro _ ⟨⟩))
  obtain ⟨labels, s, run, served, own⟩ :=
    @alone_run (logServer dump) (fun _ _ => none) _ _ _ _ _ _ here (createRequest_fails dump)
  have clean : ∀ label ∈ [.arrive 0 createRequest] ++ labels, label.Clean := by
    intro label inside
    rcases List.mem_cons.mp inside with rfl | later
    · intro body read
      obtain rfl := Option.some.inj read
      have name : Utf8 (text "name") ∧ Utf8 (text "web") := by decide
      simp [name]
    · obtain ⟨input, listed, rfl⟩ := own label later
      have same : input = undrawnInput := by simpa using listed
      subst same
      exact fun _ _ => rfl
  have unread : ∀ json, (none : Option Json) = some json → json.Writable := by rintro _ ⟨⟩
  have loaded : load none ⟨none, none⟩ = .ok (empty ⟨none, none⟩) := rfl
  refine ⟨dump, _, s, ?_, failed_for_fault (logServer_strict form) unread loaded
    (arrive.trans run) clean⟩
  rw [served]
  rfl

end Samples

end Launched

end ProjectRoutes

end LogMonitor
