import LogMonitor.Library.Transition
import LogMonitor.TenantResponses

/-!
Access control on the project routes. Any number of requests are handled at the
same time, a step each, among everything else that goes on in the server. A
request that is answered with 200 has been through the checks of its route, and
one that is refused has left the stores alone.
-/

namespace LogMonitor.ProjectRoutes
open Library Library.ByteString Library.Transition AuthManager ProjectStore Tsdb

structure Served where
  thread : Nat
  request : Request
  response : Response

/-- Each request has a number of its own. -/
structure System where
  state : State
  active : Nat → Option (Request × Phase)
  served : List Served

def System.idle (state : State) : System := ⟨state, fun _ => none, []⟩

@[simp] theorem System.idle_active (state : State) (thread : Nat) :
    (System.idle state).active thread = none := rfl

@[simp] theorem System.idle_served (state : State) : (System.idle state).served = [] := rfl

def System.settle (s : System) (thread : Nat) (request : Request) (result : State × Progress) :
    System :=
  match result.2 with
  | .goesOn phase =>
    { s with
      state := result.1
      active := Function.update s.active thread (some (request, phase)) }
  | .answers response =>
    { state := result.1
      active := Function.update s.active thread none
      served := s.served ++ [⟨thread, request, response⟩] }

inductive Label where
  | arrive (thread : Nat) (request : Request)
  | handle (thread : Nat) (input : Input)
  | unopened (thread : Nat)
  /-- A log is routed, a store evicts or is fetched for an alert rule. -/
  | tenant (label : TenantManager.Label)
  | register (email password : Bytes) (env : AccountEnvironment)
  | revoke (jti : Bytes) (exp : Int64)
  | isRevoked (jti : Bytes) (now : Int64)
  /-- The alert rules are reloaded or evaluated, or a delivery ends. -/
  | alerts

inductive Step (cfg : Config) (hashPassword : Bytes → Bytes → Option Bytes) :
    System → Label → System → Prop
  | arrive {s : System} {thread : Nat} (request : Request) (idle : s.active thread = none)
      (new : ∀ served ∈ s.served, served.thread ≠ thread) :
      Step cfg hashPassword s (.arrive thread request)
        { s with active := Function.update s.active thread (some (request, .received)) }
  | handle {s : System} {thread : Nat} {request : Request} {phase : Phase} (input : Input)
      (here : s.active thread = some (request, phase)) :
      Step cfg hashPassword s (.handle thread input)
        (s.settle thread request (advance cfg s.state request phase input))
  /-- The store of a read's project cannot be had: its constructor throws, or its start. -/
  | unopened {s : System} {thread : Nat} {request : Request} {claims : JwtClaims} {id : Bytes}
      {kind : Read} (here : s.active thread = some (request, .owned claims id (.read kind)))
      (managed : cfg.hasTenantMgr = true) (named : id ≠ [])
      (absent : s.state.tenantMgr.tsdbMap id = none) :
      Step cfg hashPassword s (.unopened thread)
        (s.settle thread request (s.state, .answers threwResponse))
  | tenant {s : System} {label : TenantManager.Label} {next : TenantManager.State}
      (step : TenantManager.Step cfg.persisted s.state.tenantMgr label next) :
      Step cfg hashPassword s (.tenant label)
        { s with state := { s.state with tenantMgr := next } }
  | register (s : System) (email password : Bytes) (env : AccountEnvironment) :
      Step cfg hashPassword s (.register email password env)
        { s with state := { s.state with
          users := (UserStore.registerUser hashPassword s.state.users email password env).1 } }
  | revoke (s : System) (jti : Bytes) (exp : Int64) :
      Step cfg hashPassword s (.revoke jti exp)
        { s with state := { s.state with revoked := revokeToken s.state.revoked jti exp } }
  | isRevoked (s : System) (jti : Bytes) (now : Int64) :
      Step cfg hashPassword s (.isRevoked jti now)
        { s with state := { s.state with revoked := (isRevoked s.state.revoked jti now).2 } }
  | alerts (s : System) (rules : Option (List AlertRulesEngine.AlertRuleState))
      (history : Option (List AlertRulesEngine.FiredAlert)) :
      Step cfg hashPassword s .alerts
        { s with state := { s.state with
          rules := rules
          history := history } }

/-- What a refused request must leave alone. -/
def State.stores (s : State) : ProjectStore.State × UserStore.State × (Bytes → Option Store) :=
  (s.tenantMgr.projectStore, s.users, s.tenantMgr.tsdbMap)

def Refusal (status : Nat) : Prop := status = 401 ∨ status = 403 ∨ status = 404

instance (status : Nat) : Decidable (Refusal status) :=
  inferInstanceAs (Decidable (_ ∨ _ ∨ _))

section Statuses

variable (cfg : Config)

theorem sendJson_status (status : Nat) (json : Json) :
    (sendJson cfg status json).status = status ∨ (sendJson cfg status json).status = 500 := by
  unfold sendJson
  split
  next => exact .inl rfl
  next => exact .inr rfl

/-- An answer whose status is no refusal stays none if it cannot be written. -/
theorem not_refusal_sendJson {status : Nat} (served : ¬Refusal status) (json : Json) :
    ¬Refusal (sendJson cfg status json).status := by
  rcases sendJson_status cfg status json with same | failed
  · rwa [same]
  · rw [failed]
    decide

theorem sendJson_ne_ok {status : Nat} (error : status ≠ 200) (json : Json) :
    (sendJson cfg status json).status ≠ 200 := by
  rcases sendJson_status cfg status json with same | failed
  · rwa [same]
  · rw [failed]
    omega

theorem sendJson_ok {json : Json} {response : Response} (sent : sendJson cfg 200 json = response)
    (ok : response.status = 200) : cfg.dump json = some response.body := by
  subst sent
  unfold sendJson at ok ⊢
  split
  next body dumped => exact dumped
  next failed =>
    rw [failed] at ok
    simp [threwResponse] at ok

theorem handleProjCreate_served (s : State) (body : Option Json) (claims : JwtClaims)
    (env : AccountEnvironment) : ¬Refusal (handleProjCreate cfg s body claims env).2.status := by
  unfold handleProjCreate
  split
  next => exact not_refusal_sendJson cfg (by decide) _
  next =>
    split
    next => exact not_refusal_sendJson cfg (by decide) _
    next =>
      split
      next => exact (by decide : ¬Refusal 500)
      next =>
        split
        next => exact not_refusal_sendJson cfg (by decide) _
        next =>
          dsimp only
          split
          next => decide
          next => exact not_refusal_sendJson cfg (by decide) _
          next => exact not_refusal_sendJson cfg (by decide) _

theorem handleProjDelete_served (s : State) (id : Bytes) (claims : JwtClaims)
    (env : AccountEnvironment) : ¬Refusal (handleProjDelete cfg s id claims env).2.status := by
  unfold handleProjDelete
  dsimp only
  split
  next => decide
  next =>
    split
    next => exact not_refusal_sendJson cfg (by decide) _
    next => decide

theorem handleProjRotate_served (s : State) (id : Bytes) (claims : JwtClaims)
    (env : AccountEnvironment) : ¬Refusal (handleProjRotate cfg s id claims env).2.status := by
  unfold handleProjRotate
  dsimp only
  split
  next => decide
  next =>
    split
    next => exact not_refusal_sendJson cfg (by decide) _
    next => exact not_refusal_sendJson cfg (by decide) _

theorem respond_served (kind : Read) (request : Request) (looks : List Look) :
    ¬Refusal (kind.respond cfg request looks).status := by
  cases kind with
  | query => exact not_refusal_sendJson cfg (by decide) _
  | stats => exact not_refusal_sendJson cfg (by decide) _
  | apps => exact not_refusal_sendJson cfg (by decide) _
  | metrics => exact (by decide : ¬Refusal 200)

/-- A step that changes the stores is the start of a read or answers without refusing. -/
theorem advance_stores (s : State) (request : Request) (phase : Phase) (input : Input) :
    let result := advance cfg s request phase input
    result.1.stores = s.stores ∨ (∃ id kind looks, result.2 = .goesOn (.looking id kind looks)) ∨
      ∃ response, result.2 = .answers response ∧ ¬Refusal response.status := by
  cases phase with
  | received => exact .inl rfl
  | unexpired claims => exact .inl rfl
  | authenticated claims =>
    simp only [advance]
    cases request.route with
    | list => exact .inl rfl
    | create =>
      exact .inr (.inr ⟨_, rfl, handleProjCreate_served cfg s request.body claims input.env⟩)
    | project id action =>
      dsimp only
      split
      next => exact .inl rfl
      next => exact .inl rfl
  | owned claims id action =>
    cases action with
    | delete => exact .inr (.inr ⟨_, rfl, handleProjDelete_served cfg s id claims input.env⟩)
    | rotate => exact .inr (.inr ⟨_, rfl, handleProjRotate_served cfg s id claims input.env⟩)
    | rules => exact .inl rfl
    | history => exact .inl rfl
    | read kind =>
      simp only [advance, operate, openTsdb]
      split
      next => exact .inl rfl
      next =>
        dsimp only
        split
        next => exact .inr (.inr ⟨_, rfl, (by decide : ¬Refusal 200)⟩)
        next => exact .inr (.inl ⟨id, kind, [], rfl⟩)
  | looking id kind looks =>
    simp only [advance]
    split
    next => exact .inl rfl
    next => exact .inl rfl

/-- A read that is on its way goes on or answers without refusing. -/
theorem advance_looking (s : State) (request : Request) (id : Bytes) (kind : Read)
    (looks : List Look) (input : Input) :
    let result := advance cfg s request (.looking id kind looks) input
    (∃ more, result.2 = .goesOn (.looking id kind more)) ∨
      result.2 = .answers (kind.respond cfg request looks) := by
  simp only [advance]
  split
  next => exact .inr rfl
  next => exact .inl ⟨_, rfl⟩

end Statuses

section Settling

variable {s : System} {thread : Nat} {request : Request} {result : State × Progress}

theorem settle_state (s : System) (thread : Nat) (request : Request) (result : State × Progress) :
    (s.settle thread request result).state = result.1 := by
  unfold System.settle
  split <;> rfl

theorem settle_active_of_ne {other : Nat} (different : other ≠ thread) :
    (s.settle thread request result).active other = s.active other := by
  unfold System.settle
  split
  · exact Function.update_of_ne different _ _
  · exact Function.update_of_ne different _ _

theorem settle_goesOn (s : System) (thread : Nat) (request : Request) {phase : Phase}
    (progress : result.2 = .goesOn phase) :
    (s.settle thread request result).active thread = some (request, phase) ∧
      (s.settle thread request result).served = s.served := by
  simp [System.settle, progress]

theorem settle_answers (s : System) (thread : Nat) (request : Request) {response : Response}
    (progress : result.2 = .answers response) :
    (s.settle thread request result).active thread = none ∧
      (s.settle thread request result).served = s.served ++ [⟨thread, request, response⟩] := by
  simp [System.settle, progress]

theorem served_settle {served : Served} (before : served ∈ s.served) :
    served ∈ (s.settle thread request result).served := by
  unfold System.settle
  split
  · exact before
  · exact List.mem_append_left _ before

/-- What holds of all handlers and answers, and of what a handler comes to, holds after it. -/
theorem settle_holds {P : Nat → Request → Phase → Prop} {Q : Served → Prop}
    (active : ∀ other current phase, s.active other = some (current, phase) →
      P other current phase) (served : ∀ answer ∈ s.served, Q answer)
    (goes : ∀ phase, result.2 = .goesOn phase → P thread request phase)
    (answers : ∀ response, result.2 = .answers response → Q ⟨thread, request, response⟩) :
    (∀ other current phase,
      (s.settle thread request result).active other = some (current, phase) →
        P other current phase) ∧
      ∀ answer ∈ (s.settle thread request result).served, Q answer := by
  have others : ∀ other current phase, other ≠ thread →
      (s.settle thread request result).active other = some (current, phase) →
      P other current phase := by
    intro other current phase different there
    rw [settle_active_of_ne different] at there
    exact active other current phase there
  cases progress : result.2 with
  | goesOn reached =>
    obtain ⟨here, same⟩ := settle_goesOn s thread request progress
    constructor
    · intro other current phase there
      by_cases own : other = thread
      · subst other
        obtain ⟨rfl, rfl⟩ := Prod.mk.inj (Option.some.inj (here.symm.trans there))
        exact goes reached progress
      · exact others other current phase own there
    · rw [same]
      exact served
  | answers response =>
    obtain ⟨gone, more⟩ := settle_answers s thread request progress
    constructor
    · intro other current phase there
      by_cases own : other = thread
      · subst other
        rw [gone] at there
        cases there
      · exact others other current phase own there
    · rw [more]
      intro answer listed
      rcases List.mem_append.mp listed with before | new
      · exact served answer before
      · rw [List.mem_singleton.mp new]
        exact answers response progress

end Settling

variable {cfg : Config} {hashPassword : Bytes → Bytes → Option Bytes}

/-- A request that may have changed the stores is at a read, or has been answered without
being refused. -/
def Touched (thread : Nat) (s : System) : Prop :=
  (∃ request id kind looks, s.active thread = some (request, .looking id kind looks)) ∨
    ∃ served ∈ s.served, served.thread = thread ∧ ¬Refusal served.response.status

theorem touched_of_changed {s next : System} {thread : Nat} {input : Input}
    (step : Step cfg hashPassword s (.handle thread input) next)
    (changed : next.state.stores ≠ s.state.stores) : Touched thread next := by
  cases step with
  | @handle _ request phase _ here =>
    rcases advance_stores cfg s.state request phase input with
      same | ⟨id, kind, looks, progress⟩ | ⟨response, progress, fine⟩
    · rw [settle_state] at changed
      exact absurd same changed
    · exact .inl ⟨request, id, kind, looks, (settle_goesOn _ _ _ progress).1⟩
    · refine .inr ⟨⟨thread, request, response⟩, ?_, rfl, fine⟩
      rw [(settle_answers _ _ _ progress).2]
      exact List.mem_append_right _ (List.mem_singleton_self _)

theorem touched_step {s next : System} {label : Label} {thread : Nat} (touched : Touched thread s)
    (step : Step cfg hashPassword s label next) : Touched thread next := by
  rcases touched with ⟨request, id, kind, looks, reading⟩ | ⟨served, before, same, fine⟩
  · cases step with
    | @arrive other _ idle new =>
      have different : thread ≠ other := by
        rintro rfl
        simp [idle] at reading
      exact .inl ⟨request, id, kind, looks, (Function.update_of_ne different _ _).trans reading⟩
    | @handle other current phase input here =>
      by_cases own : thread = other
      · subst other
        obtain ⟨rfl, rfl⟩ := Prod.mk.inj (Option.some.inj (here.symm.trans reading))
        rcases advance_looking cfg s.state current id kind looks input with ⟨more, progress⟩ | progress
        · exact .inl ⟨current, id, kind, more, (settle_goesOn _ _ _ progress).1⟩
        · refine .inr ⟨⟨thread, current, _⟩, ?_, rfl, respond_served cfg kind current looks⟩
          rw [(settle_answers _ _ _ progress).2]
          exact List.mem_append_right _ (List.mem_singleton_self _)
      · exact .inl ⟨request, id, kind, looks, (settle_active_of_ne own).trans reading⟩
    | @unopened other _ _ _ _ here =>
      have different : thread ≠ other := by
        rintro rfl
        cases here.symm.trans reading
      exact .inl ⟨request, id, kind, looks, (settle_active_of_ne different).trans reading⟩
    | tenant => exact .inl ⟨request, id, kind, looks, reading⟩
    | register => exact .inl ⟨request, id, kind, looks, reading⟩
    | revoke => exact .inl ⟨request, id, kind, looks, reading⟩
    | isRevoked => exact .inl ⟨request, id, kind, looks, reading⟩
    | alerts => exact .inl ⟨request, id, kind, looks, reading⟩
  · cases step with
    | handle => exact .inr ⟨served, served_settle before, same, fine⟩
    | unopened => exact .inr ⟨served, served_settle before, same, fine⟩
    | arrive => exact .inr ⟨served, before, same, fine⟩
    | tenant => exact .inr ⟨served, before, same, fine⟩
    | register => exact .inr ⟨served, before, same, fine⟩
    | revoke => exact .inr ⟨served, before, same, fine⟩
    | isRevoked => exact .inr ⟨served, before, same, fine⟩
    | alerts => exact .inr ⟨served, before, same, fine⟩

theorem touched_run {s final : System} {labels : List Label} {thread : Nat}
    (touched : Touched thread s) (run : Run (Step cfg hashPassword) s labels final) :
    Touched thread final := by
  refine run.invariant (fun _ s => Touched thread s) touched ?_
  exact fun _ _ _ _ _ touched step => touched_step touched step

structure Numbered (s : System) : Prop where
  distinct : (s.served.map Served.thread).Nodup
  answered : ∀ served ∈ s.served, s.active served.thread = none

theorem numbered_idle (state : State) : Numbered (.idle state) := by
  constructor
  · exact List.nodup_nil
  · intro served listed
    simp at listed

theorem Numbered.settle {s : System} (holds : Numbered s) {thread : Nat} {request : Request}
    {phase : Phase} (here : s.active thread = some (request, phase)) (result : State × Progress) :
    Numbered (s.settle thread request result) := by
  have apart : ∀ served ∈ s.served, served.thread ≠ thread := by
    rintro served before rfl
    rw [holds.answered served before] at here
    simp at here
  have old : ∀ served ∈ s.served, (s.settle thread request result).active served.thread = none := by
    intro served before
    rw [settle_active_of_ne (apart served before)]
    exact holds.answered served before
  cases progress : result.2 with
  | goesOn next =>
    have same := (settle_goesOn s thread request progress).2
    constructor
    · rw [same]
      exact holds.distinct
    · rw [same]
      exact old
  | answers response =>
    obtain ⟨idle, more⟩ := settle_answers s thread request progress
    constructor
    · rw [more, List.map_append, List.nodup_append]
      refine ⟨holds.distinct, List.nodup_singleton _, ?_⟩
      intro a listed b new
      obtain ⟨served, before, rfl⟩ := List.mem_map.mp listed
      rw [List.map_singleton, List.mem_singleton] at new
      rw [new]
      exact apart served before
    · rw [more]
      intro served listed
      rcases List.mem_append.mp listed with before | new
      · exact old served before
      · rw [List.mem_singleton.mp new]
        exact idle

theorem numbered_step {s next : System} {label : Label} (holds : Numbered s)
    (step : Step cfg hashPassword s label next) : Numbered next := by
  cases step with
  | arrive request idle new =>
    refine ⟨holds.distinct, fun served before => ?_⟩
    exact (Function.update_of_ne (new served before) _ _).trans (holds.answered served before)
  | handle input here => exact holds.settle here _
  | unopened here => exact holds.settle here _
  | tenant => exact ⟨holds.distinct, holds.answered⟩
  | register => exact ⟨holds.distinct, holds.answered⟩
  | revoke => exact ⟨holds.distinct, holds.answered⟩
  | isRevoked => exact ⟨holds.distinct, holds.answered⟩
  | alerts => exact ⟨holds.distinct, holds.answered⟩

theorem Numbered.same {s : System} (holds : Numbered s) {first second : Served}
    (one : first ∈ s.served) (other : second ∈ s.served) (same : first.thread = second.thread) :
    first = second :=
  List.inj_on_of_nodup_map holds.distinct one other same

/-- The calls of a handler are those of the project store. -/
theorem advance_projectStore (cfg : Config) (s : State) (request : Request) (phase : Phase)
    (input : Input) :
    let after := (advance cfg s request phase input).1.tenantMgr.projectStore
    after = s.tenantMgr.projectStore ∨
      ∃ call, after = (perform s.tenantMgr.projectStore call input.env).1 := by
  cases phase with
  | received => exact .inl rfl
  | unexpired claims => exact .inl rfl
  | authenticated claims =>
    simp only [advance]
    cases request.route with
    | list => exact .inl rfl
    | create =>
      simp only [handleProjCreate]
      split
      next => exact .inl rfl
      next =>
        split
        next => exact .inl rfl
        next =>
          split
          next => exact .inl rfl
          next name _ =>
            split
            next => exact .inl rfl
            next => exact .inr ⟨.create name claims.sub, rfl⟩
    | project id action =>
      dsimp only
      split <;> exact .inl rfl
  | owned claims id action =>
    cases action with
    | delete => exact .inr ⟨.delete id claims.sub, rfl⟩
    | rotate => exact .inr ⟨.rotate id claims.sub, rfl⟩
    | rules => exact .inl rfl
    | history => exact .inl rfl
    | read kind =>
      simp only [advance, operate, openTsdb]
      split
      next => exact .inl rfl
      next => exact .inl (TenantManager.getTsdb_projectStore ..)
  | looking id kind looks =>
    simp only [advance]
    split <;> exact .inl rfl

theorem tenant_indexed {persisted : Bytes → Store} {s next : TenantManager.State}
    {label : TenantManager.Label} (indexed : s.projectStore.Indexed)
    (step : TenantManager.Step persisted s label next) : next.projectStore.Indexed := by
  cases step with
  | @account event after step =>
    have kept := perform_indexed indexed event.call event.env
    rw [step] at kept
    exact kept
  | routeIngest apiKey entry =>
    rw [TenantManager.routeIngest_projectStore]
    exact indexed
  | ingestToProject projectId entry =>
    rw [TenantManager.ingestToProject_projectStore]
    exact indexed
  | getTsdb projectId =>
    rw [TenantManager.getTsdb_projectStore]
    exact indexed
  | evict now present => exact indexed

theorem indexed_step {s next : System} {label : Label}
    (indexed : s.state.tenantMgr.projectStore.Indexed)
    (step : Step cfg hashPassword s label next) :
    next.state.tenantMgr.projectStore.Indexed := by
  cases step with
  | @handle _ request phase input _ =>
    rw [settle_state]
    rcases advance_projectStore cfg s.state request phase input with same | ⟨call, same⟩
    · rw [same]
      exact indexed
    · rw [same]
      exact perform_indexed indexed call input.env
  | unopened =>
    rw [settle_state]
    exact indexed
  | tenant step => exact tenant_indexed indexed step
  | arrive => exact indexed
  | register => exact indexed
  | revoke => exact indexed
  | isRevoked => exact indexed
  | alerts => exact indexed

section Access

variable (cfg hashPassword) (start : System) (labels : List Label) (s : System)
variable (thread : Nat) (request : Request)

/-- The handler of the request has been through `verify_token`, with a clock reading for the
expiry and one for the revocation, and the token was accepted. -/
def Authenticated (claims : JwtClaims) : Prop :=
  ∃ jwt token first second, cfg.authMgr = some jwt ∧ request.authorization = bearer ++ token ∧
    Took (Step cfg hashPassword) start labels s (.handle thread second) fun before m =>
      .handle thread first ∈ before ∧ m.active thread = some (request, .unexpired claims) ∧
        (verifyToken jwt m.state.revoked token first.nowSec second.nowSec).1 =
          .returned (some claims)

/-- The handler has made the ownership check, and there the project existed and belonged to the
bearer of the token. -/
def OwnershipChecked (id : Bytes) (claims : JwtClaims) : Prop :=
  ∃ input, Took (Step cfg hashPassword) start labels s (.handle thread input) fun _ m =>
    m.active thread = some (request, .authenticated claims) ∧
      ∃ p, findById m.state.tenantMgr.projectStore id = some p ∧ p.id = id ∧ p.ownerId = claims.sub

/-- The answer lists the bearer's projects at the handler's step, and no others. -/
def ListsOwn (claims : JwtClaims) (response : Response) : Prop :=
  ∃ input, Took (Step cfg hashPassword) start labels s (.handle thread input) fun _ m =>
    let listed := listByOwner m.state.tenantMgr.projectStore claims.sub
    m.active thread = some (request, .authenticated claims) ∧
      cfg.dump (.array (listed.map projectRow)) = some response.body ∧
      ∀ p ∈ listed, p.ownerId = claims.sub

/-- What an answer with status 200 must rest on. -/
def Granted (served : Served) : Prop :=
  ∃ claims, Authenticated cfg hashPassword start labels s served.thread served.request claims ∧
    (∀ id action, served.request.route = .project id action →
      OwnershipChecked cfg hashPassword start labels s served.thread served.request id claims) ∧
    (served.request.route = .list →
      ListsOwn cfg hashPassword start labels s served.thread served.request claims served.response)

def Phase.Sound : Phase → Prop
  | .received => True
  | .unexpired claims => ∃ jwt token first, cfg.authMgr = some jwt ∧
      request.authorization = bearer ++ token ∧ .handle thread first ∈ labels ∧
      signedClaims jwt token = .returned (some claims) ∧ ¬claims.exp ≤ first.nowSec
  | .authenticated claims => Authenticated cfg hashPassword start labels s thread request claims
  | .owned claims id action =>
      Authenticated cfg hashPassword start labels s thread request claims ∧
      request.route = .project id action ∧
      OwnershipChecked cfg hashPassword start labels s thread request id claims
  | .looking id kind _ => ∃ claims,
      Authenticated cfg hashPassword start labels s thread request claims ∧
      request.route = .project id (.read kind) ∧
      OwnershipChecked cfg hashPassword start labels s thread request id claims

/-- What a step of a handler comes to: a phase whose checks have been made, or an answer that
is granted if it is a success. -/
def Progress.Sound : Progress → Prop
  | .goesOn phase => phase.Sound cfg hashPassword start labels s thread request
  | .answers response => response.status = 200 →
      Granted cfg hashPassword start labels s ⟨thread, request, response⟩

end Access

section Later

variable {start : System} {labels : List Label} {s next : System} {label : Label}
variable {thread : Nat} {request : Request}

theorem Authenticated.snoc {claims : JwtClaims}
    (auth : Authenticated cfg hashPassword start labels s thread request claims)
    (step : Step cfg hashPassword s label next) :
    Authenticated cfg hashPassword start (labels ++ [label]) next thread request claims := by
  obtain ⟨jwt, token, first, second, built, header, took⟩ := auth
  exact ⟨jwt, token, first, second, built, header, took.snoc step⟩

theorem OwnershipChecked.snoc {id : Bytes} {claims : JwtClaims}
    (owned : OwnershipChecked cfg hashPassword start labels s thread request id claims)
    (step : Step cfg hashPassword s label next) :
    OwnershipChecked cfg hashPassword start (labels ++ [label]) next thread request id claims := by
  obtain ⟨input, took⟩ := owned
  exact ⟨input, took.snoc step⟩

theorem Granted.snoc {served : Served} (granted : Granted cfg hashPassword start labels s served)
    (step : Step cfg hashPassword s label next) :
    Granted cfg hashPassword start (labels ++ [label]) next served := by
  obtain ⟨claims, auth, owned, lists⟩ := granted
  refine ⟨claims, auth.snoc step, fun id action route => ?_, fun route => ?_⟩
  · exact (owned id action route).snoc step
  · obtain ⟨input, took⟩ := lists route
    exact ⟨input, took.snoc step⟩

theorem Phase.Sound.snoc {phase : Phase}
    (sound : phase.Sound cfg hashPassword start labels s thread request)
    (step : Step cfg hashPassword s label next) :
    phase.Sound cfg hashPassword start (labels ++ [label]) next thread request := by
  cases phase with
  | received => exact trivial
  | unexpired claims =>
    obtain ⟨jwt, token, first, built, header, read, rest⟩ := sound
    exact ⟨jwt, token, first, built, header, List.mem_append_left _ read, rest⟩
  | authenticated claims => exact Authenticated.snoc sound step
  | owned claims id action =>
    obtain ⟨auth, route, owned⟩ := sound
    exact ⟨auth.snoc step, route, owned.snoc step⟩
  | looking id kind looks =>
    obtain ⟨claims, auth, route, owned⟩ := sound
    exact ⟨claims, auth.snoc step, route, owned.snoc step⟩

end Later

section Advance

variable {start : System} {labels : List Label} {s next : System} {thread : Nat}
variable {request : Request} {input : Input}

theorem authBearer_sound :
    (authBearer cfg request input.nowSec).Sound cfg hashPassword start
      (labels ++ [.handle thread input]) next thread request := by
  unfold authBearer
  split
  next => exact fun ok => absurd ok (sendJson_ne_ok cfg (by decide) _)
  next jwt built =>
    split
    next => exact fun ok => absurd ok (sendJson_ne_ok cfg (by decide) _)
    next header =>
      split
      next => exact fun ok => absurd ok (by decide)
      next => exact fun ok => absurd ok (sendJson_ne_ok cfg (by decide) _)
      next claims signed =>
        split
        next => exact fun ok => absurd ok (sendJson_ne_ok cfg (by decide) _)
        next alive =>
          obtain ⟨token, shape⟩ := not_not.mp header
          rw [← shape, List.drop_left] at signed
          have read : Label.handle thread input ∈ labels ++ [.handle thread input] :=
            List.mem_append_right _ (List.mem_singleton_self _)
          exact ⟨jwt, token, input, built, shape.symm, read, signed, alive⟩

theorem finishAuth_sound (run : Run (Step cfg hashPassword) start labels s) {claims : JwtClaims}
    (here : s.active thread = some (request, .unexpired claims))
    (step : Step cfg hashPassword s (.handle thread input) next)
    (sound : (Phase.unexpired claims).Sound cfg hashPassword start labels s thread request) :
    (finishAuth cfg s.state claims input.nowSec).2.Sound cfg hashPassword start
      (labels ++ [.handle thread input]) next thread request := by
  obtain ⟨jwt, token, first, built, header, read, signed, alive⟩ := sound
  unfold finishAuth
  dsimp only
  split
  next accepted =>
    have verified := verifyToken_eq_some.mpr ⟨signed, alive, accepted⟩
    exact ⟨jwt, token, first, input, built, header, Took.now run step ⟨read, here, verified⟩⟩
  next => exact fun ok => absurd ok (sendJson_ne_ok cfg (by decide) _)

theorem verifyOwnership_some {projectStore : ProjectStore.State} {id : Bytes} {claims : JwtClaims}
    {refusal : Response} (refused : verifyOwnership cfg projectStore id claims = some refusal) :
    refusal.status ≠ 200 := by
  unfold verifyOwnership at refused
  split at refused
  next => exact Option.some.inj refused ▸ sendJson_ne_ok cfg (by decide) _
  next =>
    split at refused
    next => exact Option.some.inj refused ▸ sendJson_ne_ok cfg (by decide) _
    next =>
      split at refused
      next => exact Option.some.inj refused ▸ sendJson_ne_ok cfg (by decide) _
      next => simp at refused

theorem handleProjList_lists {projectStore : ProjectStore.State} {claims : JwtClaims}
    (ok : (handleProjList cfg projectStore claims).status = 200) :
    cfg.dump (.array ((listByOwner projectStore claims.sub).map projectRow)) =
      some (handleProjList cfg projectStore claims).body := by
  unfold handleProjList at ok ⊢
  split at ok
  next => exact absurd ok (sendJson_ne_ok cfg (by decide) _)
  next configured =>
    rw [if_neg configured]
    exact sendJson_ok cfg rfl ok

theorem granted_project {claims : JwtClaims} {id : Bytes} {action : Action}
    (auth : Authenticated cfg hashPassword start labels s thread request claims)
    (route : request.route = .project id action)
    (owned : OwnershipChecked cfg hashPassword start labels s thread request id claims)
    (response : Response) :
    Granted cfg hashPassword start labels s ⟨thread, request, response⟩ := by
  refine ⟨claims, auth, fun other _ same => ?_, fun same => ?_⟩
  · rw [route, Route.project.injEq] at same
    rw [← same.1]
    exact owned
  · rw [route] at same
    exact Route.noConfusion same

/-- One step of a handler keeps to its checks. -/
theorem advance_sound (run : Run (Step cfg hashPassword) start labels s)
    (indexed : s.state.tenantMgr.projectStore.Indexed) {phase : Phase}
    (here : s.active thread = some (request, phase))
    (step : Step cfg hashPassword s (.handle thread input) next)
    (sound : phase.Sound cfg hashPassword start labels s thread request) :
    (advance cfg s.state request phase input).2.Sound cfg hashPassword start
      (labels ++ [.handle thread input]) next thread request := by
  cases phase with
  | received => exact authBearer_sound
  | unexpired claims => exact finishAuth_sound run here step sound
  | authenticated claims =>
    have auth := Authenticated.snoc sound step
    simp only [advance]
    cases route : request.route with
    | list =>
      intro ok
      refine ⟨claims, auth, fun id action same => ?_, fun _ => ⟨input, Took.now run step ?_⟩⟩
      · exact Route.noConfusion (route.symm.trans same)
      · exact ⟨here, handleProjList_lists ok, fun p listed => indexed.listByOwner listed⟩
    | create =>
      intro _
      refine ⟨claims, auth, fun id action same => ?_, fun same => ?_⟩
      · exact Route.noConfusion (route.symm.trans same)
      · exact Route.noConfusion (route.symm.trans same)
    | project id action =>
      dsimp only
      split
      next refusal refused => exact fun ok => absurd ok (verifyOwnership_some refused)
      next passed =>
        obtain ⟨p, found, own⟩ := verifyOwnership_none passed
        exact ⟨auth, route, input, Took.now run step ⟨here, p, found, indexed.findById found, own⟩⟩
  | owned claims id action =>
    obtain ⟨auth, route, owned⟩ := sound
    have grant := granted_project (auth.snoc step) route (owned.snoc step)
    cases action with
    | delete => exact fun _ => grant _
    | rotate => exact fun _ => grant _
    | rules => exact fun _ => grant _
    | history => exact fun _ => grant _
    | read kind =>
      simp only [advance, operate, openTsdb]
      split
      next => exact fun _ => grant _
      next =>
        dsimp only
        split
        next => exact fun _ => grant _
        next => exact ⟨claims, auth.snoc step, route, owned.snoc step⟩
  | looking id kind looks =>
    obtain ⟨claims, auth, route, owned⟩ := sound
    simp only [advance]
    split
    next => exact fun _ => granted_project (auth.snoc step) route (owned.snoc step) _
    next => exact ⟨claims, auth.snoc step, route, owned.snoc step⟩

end Advance

structure Guarded (cfg : Config) (hashPassword : Bytes → Bytes → Option Bytes) (start : System)
    (labels : List Label) (s : System) : Prop where
  active : ∀ thread request phase, s.active thread = some (request, phase) →
    phase.Sound cfg hashPassword start labels s thread request
  served : ∀ served ∈ s.served, served.response.status = 200 →
    Granted cfg hashPassword start labels s served

theorem guarded_idle (state : State) :
    Guarded cfg hashPassword (.idle state) [] (.idle state) := by
  constructor
  · intro thread request phase here
    simp at here
  · intro served listed
    simp at listed

theorem Guarded.same_requests {start s next : System} {labels : List Label} {label : Label}
    (holds : Guarded cfg hashPassword start labels s) (step : Step cfg hashPassword s label next)
    (active : next.active = s.active) (served : next.served = s.served) :
    Guarded cfg hashPassword start (labels ++ [label]) next where
  active thread request phase here :=
    (holds.active thread request phase (active ▸ here)).snoc step
  served answer listed ok := (holds.served answer (served ▸ listed) ok).snoc step

theorem Guarded.settle {start s : System} {labels : List Label} {label : Label} {thread : Nat}
    {request : Request} {result : State × Progress}
    (holds : Guarded cfg hashPassword start labels s)
    (step : Step cfg hashPassword s label (s.settle thread request result))
    (sound : result.2.Sound cfg hashPassword start (labels ++ [label])
      (s.settle thread request result) thread request) :
    Guarded cfg hashPassword start (labels ++ [label]) (s.settle thread request result) := by
  obtain ⟨active, served⟩ := @settle_holds s thread request result
    (fun other current phase => phase.Sound cfg hashPassword start (labels ++ [label])
      (s.settle thread request result) other current)
    (fun answer => answer.response.status = 200 → Granted cfg hashPassword start
      (labels ++ [label]) (s.settle thread request result) answer)
    (fun other current phase here => (holds.active other current phase here).snoc step)
    (fun answer listed ok => (holds.served answer listed ok).snoc step)
    (fun phase progress => by rwa [progress] at sound)
    (fun response progress => by rwa [progress] at sound)
  exact ⟨active, served⟩

theorem guarded_step {start s next : System} {labels : List Label} {label : Label}
    (run : Run (Step cfg hashPassword) start labels s)
    (indexed : s.state.tenantMgr.projectStore.Indexed)
    (holds : Guarded cfg hashPassword start labels s) (step : Step cfg hashPassword s label next) :
    Guarded cfg hashPassword start (labels ++ [label]) next := by
  have whole := step
  cases step with
  | @arrive thread request idle new =>
    refine ⟨fun other current phase here => ?_, fun answer listed ok => ?_⟩
    · by_cases same : other = thread
      · subst other
        simp only [Function.update_self, Option.some.injEq, Prod.mk.injEq] at here
        obtain ⟨rfl, rfl⟩ := here
        exact trivial
      · simp only [Function.update_of_ne same] at here
        exact (holds.active other current phase here).snoc whole
    · exact (holds.served answer listed ok).snoc whole
  | @handle thread request phase input here =>
    have sound := advance_sound run indexed here whole (holds.active thread request phase here)
    exact holds.settle whole sound
  | unopened => exact holds.settle whole fun ok => absurd ok (by decide)
  | tenant => exact holds.same_requests whole rfl rfl
  | register => exact holds.same_requests whole rfl rfl
  | revoke => exact holds.same_requests whole rfl rfl
  | isRevoked => exact holds.same_requests whole rfl rfl
  | alerts => exact holds.same_requests whole rfl rfl

def launch (cfg : Config) (projectStore : ProjectStore.State) (defaultProjectId : Bytes)
    (users : UserStore.State) (rules : Option (List AlertRulesEngine.AlertRuleState))
    (history : Option (List AlertRulesEngine.FiredAlert)) : System :=
  .idle {
    tenantMgr := TenantManager.construct cfg.persisted projectStore defaultProjectId
    users := users
    revoked := fun _ => none
    rules := rules
    history := history }

structure AccessControlled (cfg : Config) (hashPassword : Bytes → Bytes → Option Bytes)
    (start : System) (labels : List Label) (s : System) : Prop where
  granted : ∀ served ∈ s.served, served.response.status = 200 →
    Granted cfg hashPassword start labels s served
  refused : ∀ served ∈ s.served, Refusal served.response.status →
    ∀ before m input next after, Run (Step cfg hashPassword) start before m →
      Step cfg hashPassword m (.handle served.thread input) next →
      Run (Step cfg hashPassword) next after s → next.state.stores = m.state.stores

theorem run_access {parsed : Option Json} {files : Files} {projectStore : ProjectStore.State}
    (loaded : load parsed files = .ok projectStore) {cfg : Config}
    {hashPassword : Bytes → Bytes → Option Bytes} {defaultProjectId : Bytes}
    {users : UserStore.State} {rules : Option (List AlertRulesEngine.AlertRuleState)}
    {history : Option (List AlertRulesEngine.FiredAlert)} {labels : List Label} {s : System}
    (run : Run (Step cfg hashPassword)
      (launch cfg projectStore defaultProjectId users rules history) labels s) :
    AccessControlled cfg hashPassword (launch cfg projectStore defaultProjectId users rules history)
      labels s := by
  let start := launch cfg projectStore defaultProjectId users rules history
  have initially : start.state.tenantMgr.projectStore.Indexed := by
    change (TenantManager.construct cfg.persisted projectStore defaultProjectId).projectStore.Indexed
    rw [TenantManager.construct_projectStore]
    exact load_indexed loaded
  have unnumbered : Numbered start := numbered_idle _
  have unguarded : Guarded cfg hashPassword start [] start := guarded_idle _
  have holds : s.state.tenantMgr.projectStore.Indexed ∧ Numbered s ∧
      Guarded cfg hashPassword start labels s := by
    refine run.invariant (fun labels s => s.state.tenantMgr.projectStore.Indexed ∧ Numbered s ∧
      Guarded cfg hashPassword start labels s) ⟨initially, unnumbered, unguarded⟩ ?_
    intro labels current label next run ⟨indexed, numbered, guarded⟩ step
    exact ⟨indexed_step indexed step, numbered_step numbered step,
      guarded_step run indexed guarded step⟩
  obtain ⟨-, numbered, guarded⟩ := holds
  refine ⟨guarded.served, ?_⟩
  intro served listed refusal before m input next after _ step rest
  by_contra changed
  rcases touched_run (touched_of_changed step changed) rest with
    ⟨request, id, kind, looks, reading⟩ | ⟨other, answered, same, fine⟩
  · rw [numbered.answered served listed] at reading
    simp at reading
  · rw [numbered.same answered listed same] at fine
    exact fine refusal

section Sample

def System.moved (cfg : Config) (s : System) (thread : Nat) (input : Input) : System :=
  match s.active thread with
  | some (request, phase) => s.settle thread request (advance cfg s.state request phase input)
  | none => s

theorem moved_run (cfg : Config) (hashPassword : Bytes → Bytes → Option Bytes) (s : System)
    (moves : List (Nat × Input)) : ∃ labels, Run (Step cfg hashPassword) s labels
      (moves.foldl (fun s move => s.moved cfg move.1 move.2) s) := by
  induction moves generalizing s with
  | nil => exact ⟨[], .refl⟩
  | cons move moves ih =>
    obtain ⟨labels, run⟩ := ih (s.moved cfg move.1 move.2)
    cases here : s.active move.1 with
    | none =>
      have same : s.moved cfg move.1 move.2 = s := by simp only [System.moved, here]
      rw [same] at run
      rw [List.foldl_cons, same]
      exact ⟨labels, run⟩
    | some handler =>
      have step : Step cfg hashPassword s (.handle move.1 move.2) (s.moved cfg move.1 move.2) := by
        simp only [System.moved, here]
        exact .handle move.2 here
      exact ⟨_, (Run.single step).trans run⟩

/-- A project of alice and one of the user. -/
def sharedStore : ProjectStore.State :=
  webStore.push ⟨text "p3", text "web", text "u3", text "k3", 0⟩

theorem load_shared : load (some (.array [toJson web,
    toJson ⟨text "p3", text "web", text "u3", text "k3", 0⟩])) ⟨none, none⟩ = .ok sharedStore :=
  rfl

def sharedServer : System :=
  launch userServer sharedStore [] (UserStore.empty ⟨none, none⟩) none none

/-- The user queries the own project and deletes alice's, and somebody has no token. -/
def sharedRequest (thread : Nat) : Request :=
  match thread with
  | 0 => userRequest (.project (text "p3") (.read .query))
  | 1 => userRequest (.project (text "p1") .delete)
  | _ => ⟨.project (text "p3") .delete, [], none, none, none, none⟩

def System.arrived (s : System) (thread : Nat) : System :=
  { s with active := Function.update s.active thread (some (sharedRequest thread, .received)) }

def sharedAnswered : System :=
  [0, 1, 2, 1, 0, 1, 0, 0, 0, 0].foldl (fun s thread => s.moved userServer thread userInput)
    (((sharedServer.arrived 0).arrived 1).arrived 2)

theorem sharedServer_run : ∃ labels,
    Run (Step userServer fun _ _ => none) sharedServer labels sharedAnswered := by
  have unused (s : System) (unserved : s.served = []) (thread : Nat) :
      ∀ served ∈ s.served, served.thread ≠ thread := by
    simp [unserved]
  have first : Step userServer (fun _ _ => none) sharedServer _ (sharedServer.arrived 0) :=
    .arrive (sharedRequest 0) rfl (unused _ rfl 0)
  have second := (Run.single first).snoc (.arrive (sharedRequest 1) rfl (unused _ rfl 1))
  have third := second.snoc (.arrive (sharedRequest 2) rfl (unused _ rfl 2))
  obtain ⟨labels, rest⟩ := moved_run userServer (fun _ _ => none)
    (((sharedServer.arrived 0).arrived 1).arrived 2)
    ([0, 1, 2, 1, 0, 1, 0, 0, 0, 0].map fun thread => (thread, userInput))
  exact ⟨_, third.trans rest⟩

theorem sharedAnswered_served :
    sharedAnswered.served.map (fun served => served.response.status) = [401, 403, 200] := by
  decide +kernel

/-- The one without a token is refused, the foreign project too, and the own one is read. -/
theorem run_access_shared : ∃ labels,
    AccessControlled userServer (fun _ _ => none) sharedServer labels sharedAnswered ∧
      sharedAnswered.served.map (fun served => served.response.status) = [401, 403, 200] := by
  obtain ⟨labels, run⟩ := sharedServer_run
  exact ⟨labels, run_access load_shared run, sharedAnswered_served⟩

end Sample

end LogMonitor.ProjectRoutes
