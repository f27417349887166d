import LogMonitor.FailedCall
import LogMonitor.Library.Machine
import LogMonitor.ProjectRoutes
import LogMonitor.TokenRevocation

/-!
What a tenant's responses depend on. Two states of the server that agree on the
tenant's token, projects and stores answer a request alike, apart from what is
common to all tenants: which ids are taken, the file all projects are saved to,
and the rules and the history of the alerts.
-/

namespace LogMonitor

namespace ProjectStore
open Library Library.ByteString AuthManager

def Call.handed (s : State) (env : AccountEnvironment) : Call → Option (List Project)
  | .create name ownerId => do
    let id ← env.idDraw
    let key ← env.keyDraw
    return (s.push ⟨randomHex id, name, ownerId, apiKeyOf key, env.now⟩).projects
  | .delete id _ => do
    let (idx, p) ← s.locate id
    return (s.remove id idx p).projects
  | .rotate id _ => do
    let (idx, p) ← s.locate id
    let key ← env.keyDraw
    return ((s.eraseKey p).setKey idx p (apiKeyOf key)).projects

theorem findById_push_self (s : State) (p : Project) : findById (s.push p) p.id = some p := by
  simp [findById, State.push]

theorem findById_push_of_ne {s : State} (inside : s.InBounds) {p : Project} {id : Bytes}
    (different : id ≠ p.id) : findById (s.push p) id = findById s id := by
  simp only [findById, State.push, Function.update_of_ne different, Option.bind_eq_bind]
  apply Option.bind_congr
  intro idx entered
  exact List.getElem?_append_left (inside.byId id idx entered)

theorem listByOwner_push {s : State} (inside : s.InBounds) {p : Project} {owner : Bytes}
    (different : owner ≠ p.ownerId) : listByOwner (s.push p) owner = listByOwner s owner := by
  simp only [listByOwner, State.push, Function.update_of_ne different]
  apply List.filterMap_congr
  intro idx entered
  exact List.getElem?_append_left (inside.byOwner owner idx entered)

/-- What decides whether the save of a call goes through, apart from the disk: the JSON writer,
given the projects of everyone, and a temporary file left from earlier. -/
structure SavesAlike (env : AccountEnvironment) (call : Call) (s t : State) : Prop where
  written : ((call.handed s env).bind fun projects => env.dump (encoding projects)).isSome =
    ((call.handed t env).bind fun projects => env.dump (encoding projects)).isSome
  left : s.files.tmp.isSome = t.files.tmp.isSome

theorem saved_alike {α : Type} {s t : State} {env : AccountEnvironment}
    (written : (env.dump (encoding s.projects)).isSome = (env.dump (encoding t.projects)).isSome)
    (left : s.files.tmp.isSome = t.files.tmp.isSome) (value : α) :
    (match s.save env with
      | (s, true) => (s, Outcome.returned value)
      | (s, false) => (s, Outcome.threw)).2 =
    (match t.save env with
      | (t, true) => (t, Outcome.returned value)
      | (t, false) => (t, Outcome.threw)).2 := by
  have through : (s.save env).2 = (t.save env).2 := by
    simp only [State.save, saveLocked_snd, written, left]
  calc
    _ = (saved s env value).2 := congrArg Prod.snd (match_save s env value)
    _ = (saved t env value).2 := by simp only [saved, through]
    _ = _ := (congrArg Prod.snd (match_save t env value)).symm

theorem locate_of_findById {s : State} {id : Bytes} {p : Project}
    (found : findById s id = some p) : ∃ idx, s.locate id = some (idx, p) := by
  simp only [findById, Option.bind_eq_bind, Option.bind_eq_some_iff] at found
  obtain ⟨idx, entered, present⟩ := found
  exact ⟨idx, locate_eq_some.mpr ⟨entered, present⟩⟩

theorem createProject_alike {s t : State} {name owner : Bytes} {env : AccountEnvironment}
    (alike : SavesAlike env (.create name owner) s t) :
    (createProject s name owner env).2 = (createProject t name owner env).2 := by
  have written := alike.written
  unfold createProject
  split
  next => rfl
  next =>
    split
    next => rfl
    next =>
      cases idDraw : env.idDraw with
      | none => rfl
      | some id =>
        cases keyDraw : env.keyDraw with
        | none => rfl
        | some key =>
          simp only [Call.handed, idDraw, keyDraw, Option.bind_eq_bind, Option.bind_some,
            Option.pure_def] at written
          exact saved_alike written alike.left _

section Located

variable {s t : State} {id : Bytes} {p : Project} {env : AccountEnvironment}

theorem deleteProject_alike (inFirst : findById s id = some p) (inSecond : findById t id = some p)
    (alike : SavesAlike env (.delete id p.ownerId) s t) :
    (deleteProject s id p.ownerId env).2 = (deleteProject t id p.ownerId env).2 := by
  obtain ⟨i, first⟩ := locate_of_findById inFirst
  obtain ⟨j, second⟩ := locate_of_findById inSecond
  have written := alike.written
  simp only [Call.handed, first, second, Option.bind_eq_bind, Option.bind_some,
    Option.pure_def] at written
  simp only [deleteProject, first, second, ne_eq, not_true, if_false]
  exact saved_alike written alike.left _

theorem rotateApiKey_alike (inFirst : findById s id = some p) (inSecond : findById t id = some p)
    (alike : SavesAlike env (.rotate id p.ownerId) s t) :
    (rotateApiKey s id p.ownerId env).2 = (rotateApiKey t id p.ownerId env).2 := by
  obtain ⟨i, first⟩ := locate_of_findById inFirst
  obtain ⟨j, second⟩ := locate_of_findById inSecond
  have written := alike.written
  simp only [rotateApiKey, first, second, ne_eq, not_true, if_false]
  cases keyDraw : env.keyDraw with
  | none => rfl
  | some key =>
    simp only [Call.handed, first, second, keyDraw, Option.bind_eq_bind, Option.bind_some,
      Option.pure_def] at written
    exact saved_alike written alike.left _

end Located

end ProjectStore

namespace ProjectRoutes
open Library Library.ByteString AuthManager ProjectStore Tsdb

/-- A handler as a machine that takes the clock and what its calls need at every step. -/
def handler (cfg : Config) (request : Request) (s : State × Phase) (input : Input) :
    (State × Phase) ⊕ Response :=
  let (next, progress) := advance cfg s.1 request s.2 input
  match progress with
  | .goesOn phase => .inl (next, phase)
  | .answers response => .inr response

def serve (cfg : Config) (request : Request) (inputs : List Input) (s : State) : Option Response :=
  Machine.answer (handler cfg request) inputs (s, .received)

def Config.reading (cfg : Config) (persisted : Bytes → Store) : Config :=
  { cfg with persisted := persisted }

/-- The logs of a project, read from its file if its store is not there yet. -/
def State.contents (s : State) (persisted : Bytes → Store) (id : Bytes) : Store :=
  (s.tenantMgr.tsdbMap id).getD (persisted id)

def Carries (cfg : Config) (request : Request) (claims : JwtClaims) : Prop :=
  ∃ jwt token, cfg.authMgr = some jwt ∧ request.authorization = bearer ++ token ∧
    signedClaims jwt token = .returned (some claims)

/-- The bearer's projects and their logs are the same in both, and so is what became of the token. -/
structure Agree (first second : Bytes → Store) (claims : JwtClaims) (s t : State) : Prop where
  revoked : s.revoked claims.jti = t.revoked claims.jti
  found : ∀ id p, p.ownerId = claims.sub →
    (findById s.tenantMgr.projectStore id = some p ↔ findById t.tenantMgr.projectStore id = some p)
  listed : listByOwner s.tenantMgr.projectStore claims.sub =
    listByOwner t.tenantMgr.projectStore claims.sub
  contents : ∀ id p, findById s.tenantMgr.projectStore id = some p → p.ownerId = claims.sub →
    s.contents first id = t.contents second id

def Request.call (request : Request) (owner : Bytes) : Option Call :=
  match request.route with
  | .list => none
  | .create =>
    match request.body with
    | none => none
    | some body => (body.valueString (text "name") []).toOption.map (.create · owner)
  | .project id .delete => some (.delete id owner)
  | .project id .rotate => some (.rotate id owner)
  | .project _ _ => none

/-- What is common to all tenants is the same in both as far as the request meets it. -/
structure Comparable (request : Request) (owner : Bytes) (inputs : List Input) (s t : State) :
    Prop where
  known : ∀ id action, request.route = .project id action →
    (findById s.tenantMgr.projectStore id).isSome = (findById t.tenantMgr.projectStore id).isSome
  saves : ∀ call, request.call owner = some call → ∀ input ∈ inputs,
    SavesAlike input.env call s.tenantMgr.projectStore t.tenantMgr.projectStore
  rules : ∀ id, request.route = .project id .rules → s.rules = t.rules
  history : ∀ id, request.route = .project id .history → s.history = t.history

section OneRun

variable {cfg : Config} {request : Request} {claims : JwtClaims} {s : State} {input : Input}

def Phase.Reached (request : Request) (claims : JwtClaims) (s : State) : Phase → Prop
  | .received => True
  | .unexpired read => read = claims
  | .authenticated read => read = claims
  | .owned read id action => read = claims ∧ request.route = .project id action ∧
      ∃ p, findById s.tenantMgr.projectStore id = some p ∧ p.ownerId = claims.sub
  | .looking id kind _ => request.route = .project id (.read kind) ∧
      ∃ p, findById s.tenantMgr.projectStore id = some p ∧ p.ownerId = claims.sub

structure Keeps (persisted : Bytes → Store) (s next : State) : Prop where
  projects : next.tenantMgr.projectStore = s.tenantMgr.projectStore
  contents : ∀ id, next.contents persisted id = s.contents persisted id
  rules : next.rules = s.rules
  history : next.history = s.history

theorem Keeps.refl (persisted : Bytes → Store) (s : State) : Keeps persisted s s :=
  ⟨rfl, fun _ => rfl, rfl, rfl⟩

theorem getTsdb_contents (persisted : Bytes → Store) (s : TenantManager.State) (project id : Bytes) :
    ((TenantManager.getTsdb persisted s project).1.tsdbMap id).getD (persisted id) =
      (s.tsdbMap id).getD (persisted id) := by
  rw [TenantManager.getTsdb_tsdbMap]
  split
  next => rfl
  next => rfl

theorem openTsdb_keeps (cfg : Config) (s : State) (id : Bytes) (kind : Read) :
    Keeps cfg.persisted s (openTsdb cfg s id kind).1 := by
  unfold openTsdb
  split
  next => exact Keeps.refl _ s
  next =>
    refine ⟨TenantManager.getTsdb_projectStore .., fun other => ?_, rfl, rfl⟩
    exact getTsdb_contents cfg.persisted s.tenantMgr id other

theorem openTsdb_revoked (cfg : Config) (s : State) (id : Bytes) (kind : Read) :
    (openTsdb cfg s id kind).1.revoked = s.revoked := by
  unfold openTsdb
  split <;> rfl

theorem finishAuth_keeps (cfg : Config) (s : State) (claims : JwtClaims) (now : Int64) :
    Keeps cfg.persisted s (finishAuth cfg s claims now).1 :=
  ⟨rfl, fun _ => rfl, rfl, rfl⟩

/-- How many more steps a handler takes at most, given a bound on the looks of a read. -/
def Phase.rank (bound : Nat) : Phase → Nat
  | .received => bound + 5
  | .unexpired _ => bound + 4
  | .authenticated _ => bound + 3
  | .owned _ _ _ => bound + 2
  | .looking _ _ [] => bound + 1
  | .looking _ kind (look :: looks) => kind.needed (look :: looks) - (looks.length + 1) + 1

theorem needed_le (kind : Read) (look : Look) (looks : List Look) :
    kind.needed (look :: looks) ≤ 1 + 4 * look.tsdb.getApps.length := by
  cases kind <;> simp only [Read.needed, List.head?_cons] <;> omega

theorem looking_rank {bound : Nat} {id : Bytes} {kind : Read} {looks : List Look} (look : Look)
    (few : ¬kind.needed looks ≤ looks.length) (bounded : 1 + 4 * look.tsdb.getApps.length ≤ bound) :
    (Phase.looking id kind (looks ++ [look])).rank bound < (Phase.looking id kind looks).rank bound := by
  cases looks with
  | nil =>
    have enough := (needed_le kind look []).trans bounded
    simp only [List.nil_append, Phase.rank, List.length_nil]
    omega
  | cons first rest =>
    have same : kind.needed (first :: (rest ++ [look])) = kind.needed (first :: rest) := rfl
    simp only [List.cons_append, Phase.rank, List.length_append, List.length_singleton, same]
    rw [List.length_cons] at few
    omega

theorem authBearer_goesOn {now : Int64} {next : Phase} (carries : Carries cfg request claims)
    (going : authBearer cfg request now = .goesOn next) : next = .unexpired claims := by
  obtain ⟨jwt, token, built, header, signed⟩ := carries
  have starts : bearer <+: request.authorization := header ▸ List.prefix_append bearer token
  have rest : request.authorization.drop bearer.length = token := by
    rw [header, List.drop_left]
  simp only [authBearer, built, starts, not_true, if_false, rest, signed] at going
  split at going
  next => simp at going
  next => exact (Progress.goesOn.inj going).symm

/-- What a step that goes on makes of the table of revoked tokens. -/
def Phase.revokedAfter (phase : Phase) (revoked : Revoked) (now : Int64) : Revoked :=
  match phase with
  | .unexpired claims => (checkRevocation revoked claims now).2
  | _ => revoked

structure Advances (cfg : Config) (request : Request) (claims : JwtClaims) (bound : Nat)
    (now : Int64) (s after : State) (phase next : Phase) : Prop where
  keeps : Keeps cfg.persisted s after
  revoked : after.revoked = phase.revokedAfter s.revoked now
  reached : next.Reached request claims after
  nearer : next.rank bound < phase.rank bound

theorem advance_goesOn {bound : Nat} {phase next : Phase} (carries : Carries cfg request claims)
    (reached : phase.Reached request claims s)
    (bounded : ∀ id action, request.route = .project id action →
      1 + 4 * (s.contents cfg.persisted id).getApps.length ≤ bound)
    (going : (advance cfg s request phase input).2 = .goesOn next) :
    Advances cfg request claims bound input.nowSec s (advance cfg s request phase input).1
      phase next := by
  cases phase with
  | received =>
    obtain rfl := authBearer_goesOn carries going
    exact ⟨Keeps.refl _ s, rfl, rfl, Nat.lt_succ_self _⟩
  | unexpired read =>
    simp only [advance, finishAuth] at going
    split at going
    next =>
      obtain rfl := Progress.goesOn.inj going
      exact ⟨finishAuth_keeps cfg s read _, rfl, reached, Nat.lt_succ_self _⟩
    next => simp at going
  | authenticated read =>
    simp only [advance] at going ⊢
    cases route : request.route with
    | list => simp [route] at going
    | create => simp [route] at going
    | project id action =>
      simp only [route] at going ⊢
      split at going
      next => simp at going
      next passed =>
        obtain rfl := Progress.goesOn.inj going
        obtain ⟨p, found, own⟩ := verifyOwnership_none passed
        have same : read = claims := reached
        exact ⟨Keeps.refl _ s, rfl, ⟨same, route, p, found, same ▸ own⟩, Nat.lt_succ_self _⟩
  | owned read id action =>
    obtain ⟨-, route, p, found, own⟩ := reached
    cases action with
    | delete => simp [advance, operate] at going
    | rotate => simp [advance, operate] at going
    | rules => simp [advance, operate] at going
    | history => simp [advance, operate] at going
    | read kind =>
      have keeps := openTsdb_keeps cfg s id kind
      have next_eq : next = .looking id kind [] := by
        simp only [advance, operate, openTsdb] at going
        split at going
        next => simp at going
        next =>
          dsimp only at going
          split at going
          next => simp at going
          next => exact (Progress.goesOn.inj going).symm
      subst next_eq
      refine ⟨keeps, openTsdb_revoked cfg s id kind, ⟨route, p, ?_, own⟩, Nat.lt_succ_self _⟩
      change findById (openTsdb cfg s id kind).1.tenantMgr.projectStore id = some p
      rw [keeps.projects, found]
  | looking id kind looks =>
    simp only [advance] at going ⊢
    split at going
    next => simp at going
    next few =>
      obtain rfl := Progress.goesOn.inj going
      rw [if_neg few]
      exact ⟨Keeps.refl _ s, rfl, reached, looking_rank _ few (bounded id (.read kind) reached.1)⟩

theorem handler_inl {phase : Phase} {next : State × Phase}
    (going : handler cfg request (s, phase) input = .inl next) :
    (advance cfg s request phase input).2 = .goesOn next.2 ∧
      next.1 = (advance cfg s request phase input).1 := by
  unfold handler at going
  dsimp only at going
  split at going
  next reached progress =>
    obtain rfl := Sum.inl.inj going
    exact ⟨progress, rfl⟩
  next => simp at going

def Request.bound (request : Request) (persisted : Bytes → Store) (s : State) : Nat :=
  match request.route with
  | .project id _ => 1 + 4 * (s.contents persisted id).getApps.length
  | _ => 0

theorem Request.bound_enough (persisted : Bytes → Store) (s : State) (id : Bytes) (action : Action)
    (route : request.route = .project id action) :
    1 + 4 * (s.contents persisted id).getApps.length ≤ request.bound persisted s := by
  simp only [Request.bound, route, le_refl]

theorem serve_answers (carries : Carries cfg request claims) (s : State) {inputs : List Input}
    (enough : request.bound cfg.persisted s + 5 ≤ inputs.length) :
    (serve cfg request inputs s).isSome := by
  let bound := request.bound cfg.persisted s
  let holds (a : State × Phase) : Prop := a.2.Reached request claims a.1 ∧
    ∀ id action, request.route = .project id action →
      1 + 4 * (a.1.contents cfg.persisted id).getApps.length ≤ bound
  have positive : ∀ a : State × Phase, holds a → 0 < a.2.rank bound := by
    rintro ⟨s, phase⟩ -
    unfold Phase.rank
    split <;> exact Nat.succ_pos _
  refine Machine.answer_of_rank positive ?_ ⟨trivial, Request.bound_enough _ s⟩ enough
  rintro ⟨s, phase⟩ input next ⟨here, bounded⟩ going
  obtain ⟨progress, state⟩ := handler_inl going
  have advances := advance_goesOn carries here bounded progress
  refine ⟨⟨state ▸ advances.reached, fun id action route => ?_⟩, advances.nearer⟩
  rw [state, advances.keeps.contents]
  exact bounded id action route

end OneRun

section TwoRuns

variable {cfg : Config} {first second : Bytes → Store} {request : Request} {claims : JwtClaims}
variable {inputs : List Input} {s t : State} {input : Input}

theorem Carries.reading (carries : Carries cfg request claims) (persisted : Bytes → Store) :
    Carries (cfg.reading persisted) request claims := carries

theorem checkRevocation_alike {before other : Revoked} (same : before claims.jti = other claims.jti)
    (now : Int64) :
    (checkRevocation before claims now).1 = (checkRevocation other claims now).1 ∧
      (checkRevocation before claims now).2 claims.jti =
        (checkRevocation other claims now).2 claims.jti := by
  have pruned : prune before now claims.jti = prune other now claims.jti := by
    rw [prune, prune, same]
  by_cases named : claims.jti = []
  · simp only [checkRevocation, named, ne_eq, not_true, if_false, true_and]
    rw [← named, same]
  · simp only [checkRevocation, isRevoked, named, ne_eq, not_false_eq_true, if_true, if_false,
      pruned, and_self]

theorem verifyOwnership_alike (agree : Agree first second claims s t) {id : Bytes}
    (known : (findById s.tenantMgr.projectStore id).isSome =
      (findById t.tenantMgr.projectStore id).isSome) :
    verifyOwnership (cfg.reading first) s.tenantMgr.projectStore id claims =
      verifyOwnership (cfg.reading second) t.tenantMgr.projectStore id claims := by
  unfold verifyOwnership
  cases inFirst : findById s.tenantMgr.projectStore id with
  | none =>
    rw [inFirst, Option.isSome_none] at known
    rw [Option.isSome_eq_false_iff.mp known.symm |> Option.isNone_iff_eq_none.mp]
    rfl
  | some p =>
    rw [inFirst, Option.isSome_some] at known
    obtain ⟨q, inSecond⟩ := Option.isSome_iff_exists.mp known.symm
    by_cases own : p.ownerId = claims.sub
    · have same := (agree.found id p own).mp inFirst
      rw [same]
      rfl
    · have other : q.ownerId ≠ claims.sub := by
        intro own'
        have same := (agree.found id q own').mpr inSecond
        rw [inFirst, Option.some.injEq] at same
        exact own (same ▸ own')
      simp only [inSecond, own, other, ne_eq, not_false_eq_true, if_true]
      rfl

theorem handleProjCreate_alike {env : AccountEnvironment}
    (route : request.route = .create)
    (alike : ∀ call, request.call claims.sub = some call →
      SavesAlike env call s.tenantMgr.projectStore t.tenantMgr.projectStore) :
    (handleProjCreate (cfg.reading first) s request.body claims env).2 =
      (handleProjCreate (cfg.reading second) t request.body claims env).2 := by
  unfold handleProjCreate
  split
  next unconfigured =>
    have same : (!(cfg.reading second).hasProjectStore) = true := unconfigured
    rw [if_pos same]
    rfl
  next configured =>
    have same : ¬(!(cfg.reading second).hasProjectStore) = true := configured
    rw [if_neg same]
    cases body : request.body with
    | none => rfl
    | some body' =>
      dsimp only
      cases field : body'.valueString (text "name") [] with
      | error _ => rfl
      | ok name =>
        dsimp only
        split
        next => rfl
        next =>
          have made : request.call claims.sub = some (.create name claims.sub) := by
            simp only [Request.call, route, body, field, Except.toOption, Option.map_some]
          have outcome := createProject_alike (alike _ made)
          simp only [outcome]
          rfl

theorem openTsdb_alike (s t : State) (id : Bytes) (kind : Read) :
    (openTsdb (cfg.reading first) s id kind).2 = (openTsdb (cfg.reading second) t id kind).2 := by
  unfold openTsdb TenantManager.getTsdb
  split
  next unconfigured =>
    have same : (!(cfg.reading second).hasTenantMgr) = true := unconfigured
    rw [if_pos same]
  next configured =>
    have same : ¬(!(cfg.reading second).hasTenantMgr) = true := configured
    rw [if_neg same]
    by_cases unnamed : id = []
    · simp only [if_pos unnamed]
    · simp only [if_neg unnamed]

theorem advance_alike (agree : Agree first second claims s t)
    (comparable : Comparable request claims.sub inputs s t) (listed : input ∈ inputs) {phase : Phase}
    (reached : phase.Reached request claims s) :
    (advance (cfg.reading first) s request phase input).2 =
      (advance (cfg.reading second) t request phase input).2 := by
  cases phase with
  | received => rfl
  | unexpired read =>
    obtain rfl : read = claims := reached
    have same := (checkRevocation_alike agree.revoked input.nowSec).1
    simp only [advance, finishAuth, same]
    rfl
  | authenticated read =>
    obtain rfl : read = claims := reached
    simp only [advance]
    cases route : request.route with
    | list =>
      simp only [handleProjList, agree.listed]
      rfl
    | create =>
      exact congrArg Progress.answers (handleProjCreate_alike route
        fun call makes => comparable.saves call makes input listed)
    | project id action =>
      dsimp only
      rw [verifyOwnership_alike agree (comparable.known id action route)]
      split
      next => rfl
      next => rfl
  | owned read id action =>
    obtain ⟨rfl, route, p, inFirst, own⟩ := reached
    have inSecond := (agree.found id p own).mp inFirst
    have saves (call : Call) (makes : request.call read.sub = some call) :
        SavesAlike input.env call s.tenantMgr.projectStore t.tenantMgr.projectStore :=
      comparable.saves call makes input listed
    cases action with
    | delete =>
      have alike := saves (.delete id read.sub) (by simp only [Request.call, route])
      rw [← own] at alike
      have same := deleteProject_alike inFirst inSecond alike
      simp only [advance, operate, handleProjDelete, ← own, same]
      rfl
    | rotate =>
      have alike := saves (.rotate id read.sub) (by simp only [Request.call, route])
      rw [← own] at alike
      have same := rotateApiKey_alike inFirst inSecond alike
      simp only [advance, operate, handleProjRotate, ← own, same]
      rfl
    | rules =>
      simp only [advance, operate, handleProjRules, comparable.rules id route]
      rfl
    | history =>
      simp only [advance, operate, handleProjHistory, comparable.history id route]
      rfl
    | read kind => exact openTsdb_alike s t id kind
  | looking id kind looks =>
    obtain ⟨route, p, inFirst, own⟩ := reached
    have same : (s.tenantMgr.tsdbMap id).getD (first id) =
        (t.tenantMgr.tsdbMap id).getD (second id) := agree.contents id p inFirst own
    simp only [advance]
    split
    next => rfl
    next =>
      dsimp only [Config.reading]
      rw [same]

theorem Agree.after (agree : Agree first second claims s t) {s' t' : State}
    (left : Keeps first s s') (right : Keeps second t t')
    (revoked : s'.revoked claims.jti = t'.revoked claims.jti) :
    Agree first second claims s' t' where
  revoked := revoked
  found id p own := by
    rw [left.projects, right.projects]
    exact agree.found id p own
  listed := by
    rw [left.projects, right.projects]
    exact agree.listed
  contents id p found own := by
    rw [left.projects] at found
    rw [left.contents, right.contents]
    exact agree.contents id p found own

theorem Comparable.after {owner : Bytes} (comparable : Comparable request owner inputs s t)
    {s' t' : State} (left : Keeps first s s') (right : Keeps second t t') :
    Comparable request owner inputs s' t' where
  known id action route := by
    rw [left.projects, right.projects]
    exact comparable.known id action route
  saves call makes input listed := by
    rw [left.projects, right.projects]
    exact comparable.saves call makes input listed
  rules id route := by
    rw [left.rules, right.rules]
    exact comparable.rules id route
  history id route := by
    rw [left.history, right.history]
    exact comparable.history id route

theorem Agree.reached (agree : Agree first second claims s t) {phase : Phase}
    (reached : phase.Reached request claims s) : phase.Reached request claims t := by
  cases phase with
  | received => exact trivial
  | unexpired read => exact reached
  | authenticated read => exact reached
  | owned read id action =>
    obtain ⟨same, route, p, found, own⟩ := reached
    exact ⟨same, route, p, (agree.found id p own).mp found, own⟩
  | looking id kind looks =>
    obtain ⟨route, p, found, own⟩ := reached
    exact ⟨route, p, (agree.found id p own).mp found, own⟩

structure Alike (first second : Bytes → Store) (request : Request) (claims : JwtClaims)
    (inputs : List Input) (a b : State × Phase) : Prop where
  phase : a.2 = b.2
  reached : a.2.Reached request claims a.1
  agree : Agree first second claims a.1 b.1
  comparable : Comparable request claims.sub inputs a.1 b.1

theorem revokedAfter_alike {phase : Phase} {before other : Revoked}
    (same : before claims.jti = other claims.jti) (reached : phase.Reached request claims s)
    (now : Int64) :
    phase.revokedAfter before now claims.jti = phase.revokedAfter other now claims.jti := by
  cases phase with
  | unexpired read =>
    obtain rfl : read = claims := reached
    exact (checkRevocation_alike same now).2
  | received => exact same
  | authenticated read => exact same
  | owned read id action => exact same
  | looking id kind looks => exact same

theorem handler_together (carries : Carries cfg request claims) (listed : input ∈ inputs)
    {a b : State × Phase} (alike : Alike first second request claims inputs a b) :
    Machine.Together (Alike first second request claims inputs)
      (handler (cfg.reading first) request a input)
      (handler (cfg.reading second) request b input) := by
  obtain ⟨s, phase⟩ := a
  obtain ⟨t, phase'⟩ := b
  obtain ⟨same, reached, agree, comparable⟩ := alike
  obtain rfl : phase = phase' := same
  have progress : (advance (cfg.reading first) s request phase input).2 =
      (advance (cfg.reading second) t request phase input).2 :=
    advance_alike agree comparable listed reached
  cases came : (advance (cfg.reading first) s request phase input).2 with
  | answers response =>
    rw [came] at progress
    simp only [handler, came, ← progress]
    exact .done response
  | goesOn next =>
    rw [came] at progress
    have left := advance_goesOn (carries.reading first) reached
      (Request.bound_enough first s) came
    have right := advance_goesOn (carries.reading second) (agree.reached reached)
      (Request.bound_enough second t) progress.symm
    have revoked := revokedAfter_alike agree.revoked reached input.nowSec
    rw [← left.revoked, ← right.revoked] at revoked
    simp only [handler, came, ← progress]
    exact .on ⟨rfl, left.reached, agree.after left.keeps right.keeps revoked,
      comparable.after left.keeps right.keeps⟩

end TwoRuns

/-- The first two steps of a request whose token is alive and not revoked. -/
theorem serve_authenticated {cfg : Config} {request : Request} {claims : JwtClaims}
    (carries : Carries cfg request claims) {s : State} {first second : Input}
    (alive : ¬claims.exp ≤ first.nowSec) (unrevoked : s.revoked claims.jti = none)
    (rest : List Input) :
    serve cfg request (first :: second :: rest) s = Machine.answer (handler cfg request) rest
      ((finishAuth cfg s claims second.nowSec).1, .authenticated claims) := by
  obtain ⟨jwt, token, built, header, signed⟩ := carries
  have starts : bearer <+: request.authorization := header ▸ List.prefix_append bearer token
  have dropped : request.authorization.drop bearer.length = token := by
    rw [header, List.drop_left]
  have received : authBearer cfg request first.nowSec = .goesOn (.unexpired claims) := by
    simp only [authBearer, built, starts, not_true, if_false, dropped, signed, alive]
  have accepted : (checkRevocation s.revoked claims second.nowSec).1 = true := by
    rw [checkRevocation_fst]
    right
    intro exp filed
    rw [unrevoked] at filed
    simp at filed
  have passed : (finishAuth cfg s claims second.nowSec).2 = .goesOn (.authenticated claims) := by
    simp only [finishAuth, accepted, if_true]
  simp only [serve, Machine.answer, handler, advance, received, passed]

section Leaks
open TokenRevocation

def userToken : Bytes :=
  match createToken userJwt (fun _ => some userPayload) userClaims.sub userClaims.email
    userClaims.iat (some userDraw) with
  | .returned token => token
  | .threw => []

theorem userToken_signed : signedClaims userJwt userToken = .returned (some userClaims) := by
  have made : createToken userJwt (fun _ => some userPayload) userClaims.sub userClaims.email
      userClaims.iat (some userDraw) = .returned userToken := rfl
  exact signedClaims_createToken rfl rfl made

def dumpValue : Json → Bytes
  | .string value => text "\"" ++ value ++ text "\""
  | .integer value => text (toString value)
  | .boolean value => text (toString value)
  | _ => text "null"

def dumpMembers : List (Bytes × Json) → Bytes
  | [] => []
  | [(key, value)] => text "\"" ++ key ++ text "\":" ++ dumpValue value
  | (key, value) :: rest =>
    text "\"" ++ key ++ text "\":" ++ dumpValue value ++ text "," ++ dumpMembers rest

def dumpRow : Json → Bytes
  | .object members => text "\x7b" ++ dumpMembers members ++ text "\x7d"
  | value => dumpValue value

/-- `dump` on an object or a list of objects, with texts that need no escapes and without the
sorting of the keys. -/
def dumped : Json → Option Bytes
  | .object [(key, .array rows)] =>
    some (text "\x7b\"" ++ key ++ text "\":[" ++ (rows.map dumpRow).flatten ++ text "]\x7d")
  | json => some (dumpRow json)

def userServer : Config where
  authMgr := some userJwt
  hasProjectStore := true
  hasTenantMgr := true
  persisted := fun _ => Store.empty
  dump := dumped

def userProjects : ProjectStore.State :=
  (empty ⟨none, none⟩).push ⟨text "p3", text "web", text "u3", text "k3", 0⟩

def bobsProject : Project := ⟨text "p2", text "ops", text "bob", text "k2", 0⟩

def userState : State where
  tenantMgr := ⟨userProjects, fun _ => none⟩
  users := UserStore.empty ⟨none, none⟩
  revoked := fun _ => none
  rules := some []
  history := some []

def bobsRule : AlertRulesEngine.AlertRuleState where
  rule := {
    id := text "r1"
    app := text "ops"
    level := text "ERROR"
    threshold := 5
    windowSeconds := 60
    notifyUrl := text "http://bob/hook"
    cooldownSeconds := 300
    projectId := text "p2" }

def bobsAlert : AlertRulesEngine.FiredAlert := (AlertRulesEngine.fireAlert bobsRule 6 0).2

/-- The disk does not open the temporary file, and renames one that is there. -/
def userInput : Input where
  nowSec := 1700000000
  nowNs := 1700000000000000000
  env := ⟨none, none, 0, ⟨false, 0, true⟩, fun _ => some (text "[]")⟩

def userRequest (route : Route) : Request := ⟨route, bearer ++ userToken, none, none, none, none⟩

theorem userRequest_carries (route : Route) : Carries userServer (userRequest route) userClaims :=
  ⟨userJwt, userToken, rfl, rfl, userToken_signed⟩

/-- The user's request is answered differently in two states that agree on what is the user's. -/
def Leaks (route : Route) (s t : State) : Prop :=
  Carries userServer (userRequest route) userClaims ∧
    Agree userServer.persisted userServer.persisted userClaims s t ∧
    serve userServer (userRequest route) [userInput, userInput, userInput, userInput] s ≠
      serve userServer (userRequest route) [userInput, userInput, userInput, userInput] t

def served (route : Route) (s : State) : Option Response :=
  Machine.answer (handler userServer (userRequest route)) [userInput, userInput]
    ((finishAuth userServer s userClaims userInput.nowSec).1, .authenticated userClaims)

theorem userClaims_alive : ¬userClaims.exp ≤ userInput.nowSec := by decide

theorem serve_served (route : Route) {s : State} (unrevoked : s.revoked userClaims.jti = none) :
    serve userServer (userRequest route) [userInput, userInput, userInput, userInput] s =
      served route s :=
  serve_authenticated (userRequest_carries route) userClaims_alive unrevoked _

theorem leaks_of_differ {route : Route} {s t : State}
    (agree : Agree userServer.persisted userServer.persisted userClaims s t)
    (unrevoked : s.revoked userClaims.jti = none) (differ : served route s ≠ served route t) :
    Leaks route s t := by
  have left := serve_served route unrevoked
  have right := serve_served route (agree.revoked.symm.trans unrevoked)
  exact ⟨userRequest_carries route, agree, fun same => differ (left.symm.trans (same.trans right))⟩

theorem withAlerts_agree (persisted : Bytes → Store) (claims : JwtClaims) (s : State)
    (rules : Option (List AlertRulesEngine.AlertRuleState))
    (history : Option (List AlertRulesEngine.FiredAlert)) :
    Agree persisted persisted claims s { s with rules := rules, history := history } :=
  ⟨rfl, fun _ _ _ => Iff.rfl, rfl, fun _ _ _ _ => rfl⟩

theorem withFiles_agree (persisted : Bytes → Store) (claims : JwtClaims) (s : State)
    (files : Files) :
    Agree persisted persisted claims s
      (s.withProjects { s.tenantMgr.projectStore with files := files }) :=
  ⟨rfl, fun _ _ _ => Iff.rfl, rfl, fun _ _ _ _ => rfl⟩

/-- A new project of someone else leaves the agreement alone. -/
theorem push_agree (persisted : Bytes → Store) {claims : JwtClaims} {s : State} {q : Project}
    (inside : s.tenantMgr.projectStore.InBounds) (foreign : q.ownerId ≠ claims.sub)
    (unused : findById s.tenantMgr.projectStore q.id = none) :
    Agree persisted persisted claims s (s.withProjects (s.tenantMgr.projectStore.push q)) := by
  refine ⟨rfl, fun id p own => ?_, (listByOwner_push inside foreign.symm).symm, fun _ _ _ _ => rfl⟩
  change _ ↔ findById (s.tenantMgr.projectStore.push q) id = some p
  by_cases same : id = q.id
  · rw [same, unused, findById_push_self]
    constructor
    · intro found
      simp at found
    · intro found
      exact absurd (Option.some.inj found ▸ own) foreign
  · rw [findById_push_of_ne inside same]

theorem userProjects_inBounds : userProjects.InBounds :=
  State.InBounds.push (@load_inBounds none ⟨none, none⟩ _ rfl) _

/-- The same response to a request with the bearer's token, and always one. -/
theorem serve_alike {cfg : Config} {first second : Bytes → Store} {request : Request}
    {claims : JwtClaims} {s t : State} (carries : Carries cfg request claims)
    (agree : Agree first second claims s t) :
    (∀ inputs, Comparable request claims.sub inputs s t →
      serve (cfg.reading first) request inputs s = serve (cfg.reading second) request inputs t) ∧
    ∃ steps, ∀ inputs, steps ≤ inputs.length →
      (serve (cfg.reading first) request inputs s).isSome ∧
        (serve (cfg.reading second) request inputs t).isSome := by
  constructor
  · intro inputs comparable
    apply Machine.answer_lockstep
    · exact fun a b input listed alike => handler_together carries listed alike
    · exact ⟨rfl, trivial, agree, comparable⟩
  · refine ⟨request.bound first s + request.bound second t + 5, fun inputs enough => ⟨?_, ?_⟩⟩
    · have fewer : request.bound first s + 5 ≤ inputs.length := by omega
      exact serve_answers (carries.reading first) s fewer
    · have fewer : request.bound second t + 5 ≤ inputs.length := by omega
      exact serve_answers (carries.reading second) t fewer

/-- What the user's program logged is answered alike, with and without bob's project. -/
theorem serve_alike_bob :
    serve userServer (userRequest (.project (text "p3") (.read .query)))
        [userInput, userInput, userInput, userInput, userInput, userInput] userState =
      serve userServer (userRequest (.project (text "p3") (.read .query)))
        [userInput, userInput, userInput, userInput, userInput, userInput]
        (userState.withProjects (userProjects.push bobsProject)) := by
  have agree : Agree (fun _ => Store.empty) (fun _ => Store.empty) userClaims userState
      (userState.withProjects (userProjects.push bobsProject)) :=
    push_agree _ userProjects_inBounds (by decide) (by decide)
  apply (serve_alike (userRequest_carries (.project (text "p3") (.read .query))) agree).1
  refine ⟨?_, nofun, nofun, nofun⟩
  intro id action route
  cases route
  decide

/-- Another user's rule, alert and project show in the responses, and so does a file another
user's save has left. -/
theorem responses_leak :
    Leaks (.project (text "p3") .rules) userState { userState with rules := some [bobsRule] } ∧
    Leaks (.project (text "p3") .history) userState { userState with history := some [bobsAlert] } ∧
    Leaks (.project (text "p2") .rules) userState
      (userState.withProjects (userProjects.push bobsProject)) ∧
    Leaks (.project (text "p3") .delete) userState
      (userState.withProjects { userProjects with files := ⟨none, some []⟩ }) := by
  refine ⟨leaks_of_differ (withAlerts_agree ..) rfl ?_, leaks_of_differ (withAlerts_agree ..) rfl ?_,
    leaks_of_differ ?_ rfl ?_, leaks_of_differ (withFiles_agree ..) rfl ?_⟩
  · decide +kernel
  · decide +kernel
  · exact push_agree _ userProjects_inBounds (by decide) (by decide)
  · decide +kernel
  · decide +kernel

end Leaks

end ProjectRoutes

end LogMonitor
