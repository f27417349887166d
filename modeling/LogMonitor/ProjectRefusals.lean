import LogMonitor.ProjectAccess
import LogMonitor.TenantResponses

/-!
Why a project route refuses. Whatever runs between the steps of a handler, a
request is refused only for a cause that there was at one of them: a token that
is missing, forged, expired or revoked before, or a project that was not there
or somebody else's.
-/

namespace LogMonitor.ProjectRoutes
open Library Library.ByteString Library.Transition AuthManager ProjectStore Tsdb

section Causes

variable (cfg : Config) (hashPassword : Bytes → Bytes → Option Bytes) (start : System)
variable (labels : List Label) (s : System) (thread : Nat) (request : Request)

inductive Cause : Nat → Prop
  | noBearer (missing : ¬bearer <+: request.authorization) : Cause 401
  | unsigned {jwt : Jwt} {token : Bytes} (built : cfg.authMgr = some jwt)
      (header : request.authorization = bearer ++ token)
      (forged : signedClaims jwt token = .returned none) : Cause 401
  | expired {claims : JwtClaims} {input : Input} (carries : Carries cfg request claims)
      (took : Took (Step cfg hashPassword) start labels s (.handle thread input) fun _ m =>
        m.active thread = some (request, .received))
      (late : claims.exp ≤ input.nowSec) : Cause 401
  /-- The revocation came before the handler's look at the table, and was not pruned by then. -/
  | revoked {claims : JwtClaims} {input : Input} {exp : Int64}
      (carries : Carries cfg request claims) (named : claims.jti ≠ [])
      (took : Took (Step cfg hashPassword) start labels s (.handle thread input) fun before m =>
        m.active thread = some (request, .unexpired claims) ∧ .revoke claims.jti exp ∈ before)
      (kept : pruned input.nowSec exp = false) : Cause 401
  | missing {claims : JwtClaims} {id : Bytes} {action : Action} {input : Input}
      (auth : Authenticated cfg hashPassword start labels s thread request claims)
      (route : request.route = .project id action)
      (took : Took (Step cfg hashPassword) start labels s (.handle thread input) fun _ m =>
        m.active thread = some (request, .authenticated claims) ∧
          findById m.state.tenantMgr.projectStore id = none) : Cause 404
  | foreign {claims : JwtClaims} {id : Bytes} {action : Action} {input : Input}
      (auth : Authenticated cfg hashPassword start labels s thread request claims)
      (route : request.route = .project id action)
      (took : Took (Step cfg hashPassword) start labels s (.handle thread input) fun _ m =>
        m.active thread = some (request, .authenticated claims) ∧
          ∃ p, findById m.state.tenantMgr.projectStore id = some p ∧ p.ownerId ≠ claims.sub) :
      Cause 403

end Causes

variable {cfg : Config} {hashPassword : Bytes → Bytes → Option Bytes}
variable {start s next : System} {labels : List Label} {label : Label} {thread : Nat}
variable {request : Request}

theorem Cause.snoc {status : Nat}
    (cause : Cause cfg hashPassword start labels s thread request status)
    (step : Step cfg hashPassword s label next) :
    Cause cfg hashPassword start (labels ++ [label]) next thread request status := by
  cases cause with
  | noBearer missing => exact .noBearer missing
  | unsigned built header forged => exact .unsigned built header forged
  | expired carries took late => exact .expired carries (took.snoc step) late
  | revoked carries named took kept => exact .revoked carries named (took.snoc step) kept
  | missing auth route took => exact .missing (auth.snoc step) route (took.snoc step)
  | foreign auth route took => exact .foreign (auth.snoc step) route (took.snoc step)

section Statuses

/-- An error that cannot be written is answered with 500, which refuses nothing. -/
theorem jsonError_refusal {status : Nat} {message : Bytes}
    (refusal : Refusal (jsonError cfg status message).status) :
    (jsonError cfg status message).status = status := by
  rcases sendJson_status cfg status (.object [(text "error", .string message)]) with same | failed
  · exact same
  · exact absurd (failed ▸ refusal) (by decide)

theorem handleProjList_served (projectStore : ProjectStore.State) (claims : JwtClaims) :
    ¬Refusal (handleProjList cfg projectStore claims).status := by
  unfold handleProjList
  split
  next => exact not_refusal_sendJson cfg (by decide) _
  next => exact not_refusal_sendJson cfg (by decide) _

theorem handleProjRules_served (s : State) : ¬Refusal (handleProjRules cfg s).status := by
  unfold handleProjRules
  split
  next => exact not_refusal_sendJson cfg (by decide) _
  next => decide

theorem handleProjHistory_served (s : State) : ¬Refusal (handleProjHistory cfg s).status := by
  unfold handleProjHistory
  split
  next => exact not_refusal_sendJson cfg (by decide) _
  next => decide

theorem operate_served {claims : JwtClaims} {id : Bytes} {action : Action}
    {env : AccountEnvironment} {s : State} {response : Response}
    (answers : (operate cfg s claims id action env).2 = .answers response) :
    ¬Refusal response.status := by
  cases action with
  | delete =>
    obtain rfl := Progress.answers.inj answers
    exact handleProjDelete_served cfg s id claims env
  | rotate =>
    obtain rfl := Progress.answers.inj answers
    exact handleProjRotate_served cfg s id claims env
  | rules =>
    obtain rfl := Progress.answers.inj answers
    exact handleProjRules_served s
  | history =>
    obtain rfl := Progress.answers.inj answers
    exact handleProjHistory_served s
  | read kind =>
    simp only [operate, openTsdb] at answers
    split at answers
    next =>
      obtain rfl := Progress.answers.inj answers
      exact (by decide : ¬Refusal 200)
    next =>
      dsimp only at answers
      split at answers
      next =>
        obtain rfl := Progress.answers.inj answers
        exact (by decide : ¬Refusal 200)
      next => cases answers

end Statuses

section Revocations

/-- What the table of revoked tokens holds, `revoke_token` was called with. -/
def Filed (labels : List Label) (s : System) : Prop :=
  ∀ jti exp, s.state.revoked jti = some exp → .revoke jti exp ∈ labels

theorem prune_filed {revoked : Revoked} {now exp : Int64} {jti : Bytes}
    (there : prune revoked now jti = some exp) : revoked jti = some exp :=
  (prune_eq_some.mp there).1

theorem advance_revoked {s : State} {phase : Phase} {input : Input} {jti : Bytes} {exp : Int64}
    (there : (advance cfg s request phase input).1.revoked jti = some exp) :
    s.revoked jti = some exp := by
  cases phase with
  | received => exact there
  | unexpired claims =>
    rcases checkRevocation_snd s.revoked claims input.nowSec with same | pruned
    · rwa [← same]
    · change (checkRevocation s.revoked claims input.nowSec).2 jti = some exp at there
      rw [pruned] at there
      exact prune_filed there
  | authenticated claims =>
    simp only [advance] at there
    cases route : request.route with
    | list =>
      rw [route] at there
      exact there
    | create =>
      rw [route] at there
      simp only [handleProjCreate] at there
      split at there
      next => exact there
      next =>
        split at there
        next => exact there
        next =>
          split at there
          next => exact there
          next =>
            split at there
            next => exact there
            next => exact there
    | project id action =>
      rw [route] at there
      dsimp only at there
      split at there
      next => exact there
      next => exact there
  | owned claims id action =>
    cases action with
    | delete => exact there
    | rotate => exact there
    | rules => exact there
    | history => exact there
    | read kind =>
      simp only [advance, operate, openTsdb] at there
      split at there
      next => exact there
      next => exact there
  | looking id kind looks =>
    simp only [advance] at there
    split at there
    next => exact there
    next => exact there

theorem filed_step (filed : Filed labels s) (step : Step cfg hashPassword s label next) :
    Filed (labels ++ [label]) next := by
  intro jti exp there
  cases step with
  | handle input here =>
    rw [settle_state] at there
    exact List.mem_append_left _ (filed jti exp (advance_revoked there))
  | revoke other otherExp =>
    change revokeToken s.state.revoked other otherExp jti = some exp at there
    by_cases same : jti = other
    · subst other
      by_cases named : jti = []
      · rw [revokeToken, if_pos named] at there
        exact List.mem_append_left _ (filed jti exp there)
      · rw [revokeToken_self named] at there
        obtain rfl := Option.some.inj there
        exact List.mem_append_right _ (List.mem_singleton_self _)
    · rw [revokeToken_of_ne same] at there
      exact List.mem_append_left _ (filed jti exp there)
  | isRevoked other now =>
    rcases isRevoked_snd s.state.revoked other now with same | pruned
    · exact List.mem_append_left _ (filed jti exp (same ▸ there))
    · exact List.mem_append_left _ (filed jti exp (prune_filed (pruned ▸ there)))
  | arrive => exact List.mem_append_left _ (filed jti exp there)
  | unopened => exact List.mem_append_left _ (filed jti exp there)
  | tenant => exact List.mem_append_left _ (filed jti exp there)
  | register => exact List.mem_append_left _ (filed jti exp there)
  | alerts => exact List.mem_append_left _ (filed jti exp there)

end Revocations

section Refused

variable {input : Input} {response : Response}

theorem authBearer_cause (run : Run (Step cfg hashPassword) start labels s)
    (here : s.active thread = some (request, .received))
    (step : Step cfg hashPassword s (.handle thread input) next)
    (answers : authBearer cfg request input.nowSec = .answers response)
    (refusal : Refusal response.status) :
    Cause cfg hashPassword start (labels ++ [.handle thread input]) next thread request
      response.status := by
  unfold authBearer at answers
  split at answers
  next =>
    obtain rfl := Progress.answers.inj answers
    exact absurd refusal (not_refusal_sendJson cfg (by decide) _)
  next jwt built =>
    split at answers
    next missing =>
      obtain rfl := Progress.answers.inj answers
      rw [jsonError_refusal refusal]
      exact .noBearer missing
    next header =>
      obtain ⟨token, shape⟩ := not_not.mp header
      rw [← shape, List.drop_left] at answers
      split at answers
      next =>
        obtain rfl := Progress.answers.inj answers
        exact absurd refusal (by decide : ¬Refusal 500)
      next forged =>
        obtain rfl := Progress.answers.inj answers
        rw [jsonError_refusal refusal]
        exact .unsigned built shape.symm forged
      next claims signed =>
        split at answers
        next late =>
          obtain rfl := Progress.answers.inj answers
          rw [jsonError_refusal refusal]
          exact .expired ⟨jwt, token, built, shape.symm, signed⟩ (Took.now run step here) late
        next => cases answers

theorem finishAuth_cause (run : Run (Step cfg hashPassword) start labels s)
    (filed : Filed labels s) {claims : JwtClaims} (carries : Carries cfg request claims)
    (here : s.active thread = some (request, .unexpired claims))
    (step : Step cfg hashPassword s (.handle thread input) next)
    (answers : (finishAuth cfg s.state claims input.nowSec).2 = .answers response)
    (refusal : Refusal response.status) :
    Cause cfg hashPassword start (labels ++ [.handle thread input]) next thread request
      response.status := by
  unfold finishAuth at answers
  dsimp only at answers
  split at answers
  next => cases answers
  next rejected =>
    obtain rfl := Progress.answers.inj answers
    rw [jsonError_refusal refusal]
    rw [checkRevocation_fst, not_or] at rejected
    obtain ⟨named, kept⟩ := rejected
    simp only [not_forall, Bool.not_eq_true] at kept
    obtain ⟨exp, there, kept⟩ := kept
    exact .revoked carries named (Took.now run step ⟨here, filed _ exp there⟩) kept

theorem verifyOwnership_cause (run : Run (Step cfg hashPassword) start labels s)
    {claims : JwtClaims} {id : Bytes} {action : Action}
    (auth : Authenticated cfg hashPassword start labels s thread request claims)
    (route : request.route = .project id action)
    (here : s.active thread = some (request, .authenticated claims))
    (step : Step cfg hashPassword s (.handle thread input) next)
    (refused : verifyOwnership cfg s.state.tenantMgr.projectStore id claims = some response)
    (refusal : Refusal response.status) :
    Cause cfg hashPassword start (labels ++ [.handle thread input]) next thread request
      response.status := by
  unfold verifyOwnership at refused
  split at refused
  next =>
    obtain rfl := Option.some.inj refused
    exact absurd refusal (not_refusal_sendJson cfg (by decide) _)
  next =>
    split at refused
    next absent =>
      obtain rfl := Option.some.inj refused
      rw [jsonError_refusal refusal]
      exact .missing (auth.snoc step) route (Took.now run step ⟨here, absent⟩)
    next p found =>
      split at refused
      next other =>
        obtain rfl := Option.some.inj refused
        rw [jsonError_refusal refusal]
        exact .foreign (auth.snoc step) route (Took.now run step ⟨here, p, found, other⟩)
      next => cases refused

theorem advance_cause (run : Run (Step cfg hashPassword) start labels s) (filed : Filed labels s)
    {phase : Phase} (here : s.active thread = some (request, phase))
    (sound : phase.Sound cfg hashPassword start labels s thread request)
    (step : Step cfg hashPassword s (.handle thread input) next)
    (answers : (advance cfg s.state request phase input).2 = .answers response)
    (refusal : Refusal response.status) :
    Cause cfg hashPassword start (labels ++ [.handle thread input]) next thread request
      response.status := by
  cases phase with
  | received => exact authBearer_cause run here step answers refusal
  | unexpired claims =>
    obtain ⟨jwt, token, -, built, header, -, signed, -⟩ := sound
    exact finishAuth_cause run filed ⟨jwt, token, built, header, signed⟩ here step answers refusal
  | authenticated claims =>
    simp only [advance] at answers
    cases route : request.route with
    | list =>
      rw [route] at answers
      obtain rfl := Progress.answers.inj answers
      exact absurd refusal (handleProjList_served _ claims)
    | create =>
      rw [route] at answers
      obtain rfl := Progress.answers.inj answers
      exact absurd refusal (handleProjCreate_served cfg _ _ claims _)
    | project id action =>
      rw [route] at answers
      dsimp only at answers
      split at answers
      next refused verified =>
        obtain rfl := Progress.answers.inj answers
        exact verifyOwnership_cause run sound route here step verified refusal
      next => cases answers
  | owned claims id action => exact absurd refusal (operate_served answers)
  | looking id kind looks =>
    rcases advance_looking cfg s.state request id kind looks input with ⟨more, on⟩ | done
    · rw [on] at answers
      cases answers
    · rw [done] at answers
      obtain rfl := Progress.answers.inj answers
      exact absurd refusal (respond_served cfg kind request looks)

end Refused

def Justified (cfg : Config) (hashPassword : Bytes → Bytes → Option Bytes) (start : System)
    (labels : List Label) (s : System) : Prop :=
  ∀ served ∈ s.served, Refusal served.response.status →
    Cause cfg hashPassword start labels s served.thread served.request served.response.status

theorem justified_step (run : Run (Step cfg hashPassword) start labels s) (filed : Filed labels s)
    (guarded : Guarded cfg hashPassword start labels s)
    (holds : Justified cfg hashPassword start labels s)
    (step : Step cfg hashPassword s label next) :
    Justified cfg hashPassword start (labels ++ [label]) next := by
  have whole := step
  intro served listed refusal
  cases step with
  | @handle thread request phase input here =>
    cases progress : (advance cfg s.state request phase input).2 with
    | goesOn reached =>
      rw [(settle_goesOn s thread request progress).2] at listed
      exact (holds served listed refusal).snoc whole
    | answers response =>
      rw [(settle_answers s thread request progress).2] at listed
      rcases List.mem_append.mp listed with before | new
      · exact (holds served before refusal).snoc whole
      · obtain rfl := List.mem_singleton.mp new
        have sound := guarded.active thread request phase here
        exact advance_cause run filed here sound whole progress refusal
  | unopened here =>
    rcases List.mem_append.mp listed with before | new
    · exact (holds served before refusal).snoc whole
    · obtain rfl := List.mem_singleton.mp new
      exact absurd refusal (by decide : ¬Refusal 500)
  | arrive => exact (holds served listed refusal).snoc whole
  | tenant => exact (holds served listed refusal).snoc whole
  | register => exact (holds served listed refusal).snoc whole
  | revoke => exact (holds served listed refusal).snoc whole
  | isRevoked => exact (holds served listed refusal).snoc whole
  | alerts => exact (holds served listed refusal).snoc whole

section Launched

variable {parsed : Option Json} {files : Files} {projectStore : ProjectStore.State}
variable {defaultProjectId : Bytes} {users : UserStore.State}
variable {rules : Option (List AlertRulesEngine.AlertRuleState)}
variable {history : Option (List AlertRulesEngine.FiredAlert)}

/-- A request is refused only for a cause that there was while it was handled. -/
theorem refused_for_cause (loaded : load parsed files = .ok projectStore)
    (run : Run (Step cfg hashPassword)
      (launch cfg projectStore defaultProjectId users rules history) labels s) :
    Justified cfg hashPassword (launch cfg projectStore defaultProjectId users rules history)
      labels s := by
  let start := launch cfg projectStore defaultProjectId users rules history
  have same : start.state.tenantMgr.projectStore = projectStore :=
    TenantManager.construct_projectStore cfg.persisted projectStore defaultProjectId
  have initially : start.state.tenantMgr.projectStore.Indexed := same ▸ load_indexed loaded
  have unfiled : Filed [] start := by
    intro jti exp there
    cases there
  have unserved : Justified cfg hashPassword start [] start := by
    intro served listed
    cases listed
  have holds : s.state.tenantMgr.projectStore.Indexed ∧ Filed labels s ∧
      Guarded cfg hashPassword start labels s ∧ Justified cfg hashPassword start labels s := by
    refine run.invariant (fun labels s => s.state.tenantMgr.projectStore.Indexed ∧ Filed labels s ∧
      Guarded cfg hashPassword start labels s ∧ Justified cfg hashPassword start labels s)
      ⟨initially, unfiled, guarded_idle _, unserved⟩ ?_
    intro labels current label next run ⟨indexed, filed, guarded, justified⟩ step
    exact ⟨indexed_step indexed step, filed_step filed step, guarded_step run indexed guarded step,
      justified_step run filed guarded justified step⟩
  exact holds.2.2.2

/-- Two of the three requests are refused, each for its own cause. -/
theorem refused_for_cause_shared : ∃ labels,
    Justified userServer (fun _ _ => none) sharedServer labels sharedAnswered ∧
      sharedAnswered.served.map (fun served => served.response.status) = [401, 403, 200] := by
  obtain ⟨labels, run⟩ := sharedServer_run
  exact ⟨labels, refused_for_cause load_shared run, sharedAnswered_served⟩

end Launched

section Moves

variable (cfg : Config) (s : State) (request : Request) (input : Input)

inductive Moves : Phase → Progress → Prop
  | signed (claims : JwtClaims) : Moves .received (.goesOn (.unexpired claims))
  | accepted (claims : JwtClaims) : Moves (.unexpired claims) (.goesOn (.authenticated claims))
  | owner {claims : JwtClaims} {id : Bytes} {action : Action}
      (route : request.route = .project id action) :
      Moves (.authenticated claims) (.goesOn (.owned claims id action))
  | opened (claims : JwtClaims) (id : Bytes) (kind : Read) :
      Moves (.owned claims id (.read kind)) (.goesOn (.looking id kind []))
  | looked {id : Bytes} {kind : Read} {looks : List Look}
      (short : looks.length < kind.needed looks) :
      Moves (.looking id kind looks) (.goesOn (.looking id kind
        (looks ++ [⟨s.contents cfg.persisted id, input.nowNs⟩])))
  | answered {id : Bytes} {kind : Read} {looks : List Look}
      (enough : kind.needed looks ≤ looks.length) :
      Moves (.looking id kind looks) (.answers (kind.respond cfg request looks))
  | failed {phase : Phase} {response : Response} (failure : response.status ≠ 200) :
      Moves phase (.answers response)
  | handled {claims : JwtClaims} {response : Response}
      (none : ∀ id action, request.route ≠ .project id action) :
      Moves (.authenticated claims) (.answers response)
  | operated {claims : JwtClaims} {id : Bytes} {action : Action} {response : Response}
      (none : ∀ kind, action ≠ .read kind) :
      Moves (.owned claims id action) (.answers response)
  /-- A read without a tenant manager, or of the project without an id. -/
  | unstored {claims : JwtClaims} {id : Bytes} {kind : Read} {response : Response}
      (nowhere : cfg.hasTenantMgr = false ∨ id = []) :
      Moves (.owned claims id (.read kind)) (.answers response)

theorem authBearer_moves :
    Moves cfg s request input .received (authBearer cfg request input.nowSec) := by
  unfold authBearer
  split
  next => exact .failed (sendJson_ne_ok cfg (by decide) _)
  next =>
    split
    next => exact .failed (sendJson_ne_ok cfg (by decide) _)
    next =>
      split
      next => exact .failed (by decide)
      next => exact .failed (sendJson_ne_ok cfg (by decide) _)
      next claims _ =>
        split
        next => exact .failed (sendJson_ne_ok cfg (by decide) _)
        next => exact .signed claims

theorem finishAuth_moves (claims : JwtClaims) :
    Moves cfg s request input (.unexpired claims) (finishAuth cfg s claims input.nowSec).2 := by
  unfold finishAuth
  dsimp only
  split
  next => exact .accepted claims
  next => exact .failed (sendJson_ne_ok cfg (by decide) _)

theorem operate_moves (claims : JwtClaims) (id : Bytes) (action : Action) :
    Moves cfg s request input (.owned claims id action)
      (operate cfg s claims id action input.env).2 := by
  cases action with
  | delete => exact .operated (by rintro _ ⟨⟩)
  | rotate => exact .operated (by rintro _ ⟨⟩)
  | rules => exact .operated (by rintro _ ⟨⟩)
  | history => exact .operated (by rintro _ ⟨⟩)
  | read kind =>
    simp only [operate, openTsdb]
    split
    next unmanaged => exact .unstored (.inl (by simpa using unmanaged))
    next =>
      by_cases unnamed : id = []
      · simp only [TenantManager.getTsdb, if_pos unnamed]
        exact .unstored (.inr unnamed)
      · simp only [TenantManager.getTsdb, if_neg unnamed]
        exact .opened claims id kind

theorem advance_moves (phase : Phase) :
    Moves cfg s request input phase (advance cfg s request phase input).2 := by
  cases phase with
  | received => exact authBearer_moves cfg s request input
  | unexpired claims => exact finishAuth_moves cfg s request input claims
  | authenticated claims =>
    simp only [advance]
    cases route : request.route with
    | list => exact .handled (by simp [route])
    | create => exact .handled (by simp [route])
    | project id action =>
      dsimp only
      split
      next refusal refused => exact .failed (verifyOwnership_some refused)
      next => exact .owner route
  | owned claims id action => exact operate_moves cfg s request input claims id action
  | looking id kind looks =>
    simp only [advance]
    split
    next enough => exact .answered enough
    next short => exact .looked (Nat.lt_of_not_le short)

end Moves

end LogMonitor.ProjectRoutes
