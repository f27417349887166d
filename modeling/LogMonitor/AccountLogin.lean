import LogMonitor.AccountRestarts
import LogMonitor.HttpServerTrace
import LogMonitor.Library.JsonText
import LogMonitor.ProjectFaults

/-!
Accounts on the HTTP server: who can log in, whatever requests have come
between, and what a login is good for.
-/

namespace LogMonitor

namespace ProjectRoutes

variable (cfg : Config)

theorem advance_users (s : State) (request : Request) (phase : Phase) (input : Input) :
    (advance cfg s request phase input).1.users = s.users := by
  cases phase with
  | received => rfl
  | unexpired claims => rfl
  | authenticated claims =>
    simp only [advance]
    cases request.route with
    | list => rfl
    | create =>
      simp only [handleProjCreate]
      split
      next => rfl
      next =>
        split
        next => rfl
        next =>
          split
          next => rfl
          next =>
            split
            next => rfl
            next => rfl
    | project id action =>
      dsimp only
      split
      next => rfl
      next => rfl
  | owned claims id action =>
    cases action with
    | delete => rfl
    | rotate => rfl
    | rules => rfl
    | history => rfl
    | read kind =>
      simp only [advance, operate, openTsdb]
      split
      next => rfl
      next => rfl
  | looking id kind looks =>
    simp only [advance]
    split
    next => rfl
    next => rfl

theorem handleAlone_users (request : Request) (inputs : List Input) (phase : Phase) (s : State) :
    (handleAlone cfg request inputs phase s).1.users = s.users := by
  induction inputs generalizing phase s with
  | nil => rfl
  | cons input rest ih =>
    have first := advance_users cfg s request phase input
    unfold handleAlone
    split
    next next following went =>
      rw [went] at first
      exact (ih following next).trans first
    next next response went =>
      rw [went] at first
      exact first

end ProjectRoutes

namespace HttpServer
open Library Library.ByteString Library.Transition AuthManager ProjectRoutes Tsdb UserStore

variable (cfg : Config)

theorem authenticate_users (s : State) (key : Bytes) (nowNs : Int) :
    (authenticate cfg s key nowNs).1.routes.users = s.routes.users := by
  unfold authenticate
  split <;> rfl

theorem handleLegacy_users (s : State) (request : Request) (input : Input)
    (answer : State → Response) :
    (handleLegacy cfg s request input answer).1.routes.users = s.routes.users := by
  have checked := authenticate_users cfg s request.xApiKey input.consumeNs
  unfold handleLegacy
  split
  next after refusal refused => rwa [refused] at checked
  next after passed => rwa [passed] at checked

theorem vet_users (s : State) (key : Bytes) (entry : TsdbEntry) (nowNs : Int) :
    (vet cfg s key entry nowNs).1.routes.users = s.routes.users := by
  unfold vet
  split
  next =>
    split
    next => rfl
    next =>
      dsimp only
      split <;> rfl
  next =>
    have checked := authenticate_users cfg s key nowNs
    split
    next after refusal refused => rwa [refused] at checked
    next after passed =>
      rw [passed] at checked
      unfold insertCb
      split
      next => exact checked
      next => exact checked

theorem handleIngest_users (s : State) (request : Request) (input : Input) :
    (handleIngest cfg s request input).1.routes.users = s.routes.users := by
  unfold handleIngest
  split
  next => rfl
  next =>
    split
    next => rfl
    next =>
      split
      next => rfl
      next app level message tsClient _ =>
        have vetted := vet_users cfg s request.xApiKey ⟨app, level, message,
          if 0 < tsClient then tsClient * 1000000000 else input.clocks.systemNs⟩ input.consumeNs
        dsimp only
        split
        next after refusal refused => rwa [refused] at vetted
        next after passed =>
          rw [passed] at vetted
          exact vetted

theorem withCredentials_users {s : State} {request : Request}
    {next : Bytes → Bytes → State × Response}
    (rest : ∀ email password, (next email password).1.routes.users = s.routes.users) :
    (withCredentials cfg s request next).1.routes.users = s.routes.users := by
  unfold withCredentials
  split
  next => rfl
  next =>
    split
    next => rfl
    next =>
      split
      next => rfl
      next =>
        split
        next => rfl
        next => exact rest _ _

theorem handleLogin_users (s : State) (request : Request) (input : Input) :
    (handleLogin cfg s request input).1.routes.users = s.routes.users := by
  apply withCredentials_users
  intro email password
  split
  next => rfl
  next => split <;> rfl

theorem handle_users {s : State} {request : Request} (other : request.route ≠ .register)
    (input : Input) : (handle cfg s request input).1.routes.users = s.routes.users := by
  unfold handle
  cases route : request.route with
  | register => exact absurd route other
  | page page => rfl
  | health => rfl
  | login => exact handleLogin_users cfg s request input
  | project route => exact handleAlone_users cfg.toConfig _ _ _ _
  | ingest => exact handleIngest_users cfg s request input
  | query => exact handleLegacy_users cfg s request input _
  | stats => exact handleLegacy_users cfg s request input _
  | apps => exact handleLegacy_users cfg s request input _
  | metrics => exact handleLegacy_users cfg s request input _
  | rules => exact handleLegacy_users cfg s request input _
  | history => exact handleLegacy_users cfg s request input _

end HttpServer

namespace UserStore
open Library Library.ByteString AuthManager

/-- Every entry of the map by email points to an account with that email. -/
def State.Points (s : State) : Prop :=
  ∀ email index, s.byEmail email = some index → ∃ u, s.users[index]? = some u ∧ u.email = email

variable {s : State}

theorem push_byEmail (s : State) (u : User) (email : Bytes) :
    (s.push u).byEmail email =
      if email = u.email then some s.users.length else s.byEmail email := by
  exact Function.update_apply ..

theorem push_getElem {index : Nat} {v : User} (there : s.users[index]? = some v) (u : User) :
    (s.push u).users[index]? = some v :=
  (List.getElem?_append_left (List.getElem?_eq_some_iff.mp there).1).trans there

theorem State.Points.push (points : s.Points) (u : User) : (s.push u).Points := by
  intro email index entered
  rw [push_byEmail] at entered
  by_cases same : email = u.email
  · rw [if_pos same] at entered
    obtain rfl := Option.some.inj entered
    exact ⟨u, List.getElem?_concat_length, same.symm⟩
  · rw [if_neg same] at entered
    obtain ⟨v, there, named⟩ := points email index entered
    exact ⟨v, push_getElem there u, named⟩

theorem load_points {parsed : Option Json} {files : Files} (loaded : load parsed files = .ok s) :
    s.Points := by
  apply load_invariant loaded
  · intro email index entered
    cases entered
  · intro s u points _ _
    exact points.push u

theorem findByEmail_push (points : s.Points) (u : User) (email : Bytes) :
    findByEmail (s.push u) email = if email = u.email then some u else findByEmail s email := by
  rw [findByEmail, push_byEmail]
  by_cases same : email = u.email
  · rw [if_pos same, if_pos same]
    exact List.getElem?_concat_length
  · rw [if_neg same, if_neg same, findByEmail]
    cases entered : s.byEmail email with
    | none => rfl
    | some index =>
      obtain ⟨v, there, -⟩ := points email index entered
      exact (push_getElem there u).trans there.symm

theorem isSome_findByEmail (points : s.Points) (email : Bytes) :
    (findByEmail s email).isSome = (s.byEmail email).isSome := by
  unfold findByEmail
  cases entered : s.byEmail email with
  | none => rfl
  | some index =>
    obtain ⟨u, there, -⟩ := points email index entered
    exact congrArg Option.isSome there

theorem email_of_findByEmail (points : s.Points) {email : Bytes} {u : User}
    (found : findByEmail s email = some u) : u.email = email := by
  unfold findByEmail at found
  cases entered : s.byEmail email with
  | none =>
    rw [entered] at found
    cases found
  | some index =>
    rw [entered] at found
    obtain ⟨v, there, named⟩ := points email index entered
    obtain rfl := Option.some.inj (there.symm.trans found)
    exact named

def account (hashPassword : Bytes → Bytes → Option Bytes) (email password : Bytes)
    (env : AccountEnvironment) : Option User :=
  if password.length < 8 then none
  else
    match env.idDraw, env.keyDraw with
    | some id, some saltBytes =>
      (hashPassword password (randomHex saltBytes)).map fun passwordHash =>
        ⟨randomHex id, email, passwordHash, randomHex saltBytes, env.now⟩
    | _, _ => none

theorem account_some {hashPassword : Bytes → Bytes → Option Bytes} {email password : Bytes}
    {env : AccountEnvironment} {u : User}
    (made : account hashPassword email password env = some u) :
    u.email = email ∧ hashPassword password u.salt = some u.passwordHash ∧ Utf8 u.id := by
  unfold account at made
  split at made
  next => cases made
  next =>
    split at made
    next id saltBytes _ _ =>
      obtain ⟨hash, hashed, rfl⟩ := Option.map_eq_some_iff.mp made
      exact ⟨rfl, hashed, randomHex_utf8 id⟩
    next => cases made

theorem registerUser_account (hashPassword : Bytes → Bytes → Option Bytes) (s : State)
    {email password : Bytes} (given : ¬(email = [] ∨ password = [])) (env : AccountEnvironment) :
    (∃ u, account hashPassword email password env = some u ∧ s.byEmail email = none ∧
      registerUser hashPassword s email password env = entered s u env) ∨
    (account hashPassword email password env = none ∨ (s.byEmail email).isSome = true) ∧
      ∃ outcome, registerUser hashPassword s email password env = (s, outcome) ∧
        ∀ u, outcome ≠ .returned (.ok u) := by
  unfold registerUser account
  rw [if_neg given]
  by_cases short : password.length < 8
  · rw [if_pos short, if_pos short]
    exact .inr ⟨.inl rfl, _, rfl, by simp⟩
  · rw [if_neg short, if_neg short]
    by_cases taken : (s.byEmail email).isSome = true
    · rw [if_pos taken]
      exact .inr ⟨.inr taken, _, rfl, by simp⟩
    · rw [if_neg taken]
      cases env.idDraw with
      | none => exact .inr ⟨.inl rfl, .threw, rfl, by simp⟩
      | some id =>
        cases env.keyDraw with
        | none => exact .inr ⟨.inl rfl, .threw, rfl, by simp⟩
        | some saltBytes =>
          dsimp only
          cases hashed : hashPassword password (randomHex saltBytes) with
          | none => exact .inr ⟨.inl rfl, .threw, rfl, by simp⟩
          | some hash =>
            refine .inl ⟨⟨randomHex id, email, hash, randomHex saltBytes, env.now⟩, rfl,
              by simpa using taken, ?_⟩
            simp only [entered]
            split
            next done => rw [done, if_pos rfl]
            next done => rw [done, if_neg Bool.false_ne_true]

end UserStore

namespace HttpServer
open Library Library.ByteString Library.Transition AuthManager ProjectRoutes Tsdb UserStore

variable (cfg : Config)

/-- The email and the password of a request, if `/auth/register` and `/auth/login` get as far as
looking at the accounts. -/
def given (request : Request) : Option (Bytes × Bytes) :=
  if cfg.authMgr.isNone || !cfg.hasUserStore then none
  else
    match request.body with
    | none => none
    | some body =>
      match credentials body with
      | .error _ => none
      | .ok (email, password) =>
        if email = [] ∨ password = [] then none else some (email, password)

theorem withCredentials_given (s : State) (request : Request)
    (next : Bytes → Bytes → State × Response) :
    (∃ email password, given cfg request = some (email, password) ∧
      ¬(email = [] ∨ password = []) ∧ withCredentials cfg s request next = next email password) ∨
    given cfg request = none ∧ ∃ response, withCredentials cfg s request next = (s, response) ∧
      response.status ≠ 200 := by
  unfold withCredentials given
  by_cases unset : (cfg.authMgr.isNone || !cfg.hasUserStore) = true
  · rw [if_pos unset, if_pos unset]
    exact .inr ⟨rfl, _, rfl, sendJson_ne_ok cfg.toConfig (by decide) _⟩
  rw [if_neg unset, if_neg unset]
  cases request.body with
  | none => exact .inr ⟨rfl, _, rfl, sendJson_ne_ok cfg.toConfig (by decide) _⟩
  | some body =>
    dsimp only
    cases credentials body with
    | error error => exact .inr ⟨rfl, threwResponse, rfl, by decide⟩
    | ok pair =>
      obtain ⟨email, password⟩ := pair
      dsimp only
      by_cases missing : email = [] ∨ password = []
      · rw [if_pos missing, if_pos missing]
        exact .inr ⟨rfl, _, rfl, sendJson_ne_ok cfg.toConfig (by decide) _⟩
      · rw [if_neg missing, if_neg missing]
        exact .inl ⟨email, password, rfl, missing, rfl⟩

def registration (request : Request) (input : Input) : Option User :=
  match request.route with
  | .register => do
    let (email, password) ← given cfg request
    account cfg.hashPassword email password input.account
  | _ => none

def newcomer (email : Bytes) : Label → Option User
  | .serve request input _ => (registration cfg request input).filter fun u => u.email = email
  | .background _ => none

/-- The account for an email after a run: the one the store was loaded with, or else the first that
a registration entered. -/
def accountOf (start : State) (labels : List Label) (email : Bytes) : Option User :=
  (findByEmail start.routes.users email).or (labels.findSome? (newcomer cfg email))

theorem registration_some {request : Request} {input : Input} {u : User}
    (made : registration cfg request input = some u) : request.route = .register ∧
      ∃ password, given cfg request = some (u.email, password) ∧
        cfg.hashPassword password u.salt = some u.passwordHash ∧ Utf8 u.id := by
  unfold registration at made
  split at made
  next route =>
    obtain ⟨⟨email, password⟩, sent, entered⟩ := Option.bind_eq_some_iff.mp made
    obtain ⟨rfl, hashed, legible⟩ := account_some entered
    exact ⟨route, password, sent, hashed, legible⟩
  next => cases made

def registerResponse (outcome : Outcome (Except Bytes User)) : Response :=
  match outcome with
  | .threw => threwResponse
  | .returned (.error error) => jsonError cfg.toConfig 400 error
  | .returned (.ok user) => sendJson cfg.toConfig 200 (.object [
      (text "message", .string (text "Account created")),
      (text "user_id", .string user.id)])

theorem handleRegister_eq (s : State) (request : Request) (input : Input) :
    handleRegister cfg s request input = withCredentials cfg s request fun email password =>
      let result := registerUser cfg.hashPassword s.routes.users email password input.account
      ({ s with routes := { s.routes with users := result.1 } }, registerResponse cfg result.2) :=
  rfl

theorem registerResponse_ok {outcome : Outcome (Except Bytes User)}
    (ok : (registerResponse cfg outcome).status = 200) : ∃ u, outcome = .returned (.ok u) := by
  cases outcome with
  | threw => cases ok
  | returned result =>
    cases result with
    | error error => exact absurd ok (sendJson_ne_ok cfg.toConfig (by decide) _)
    | ok u => exact ⟨u, rfl⟩

/-- What `/auth/register` does to the accounts, and when it answers 200. -/
theorem handleRegister_cases {s : State} {request : Request} (route : request.route = .register)
    (input : Input) :
    (∃ u, registration cfg request input = some u ∧ s.routes.users.byEmail u.email = none ∧
      (handleRegister cfg s request input).1.routes.users =
        ((s.routes.users.push u).save input.account).1 ∧
      ((handleRegister cfg s request input).2.status = 200 →
        (handleRegister cfg s request input).2 = registerResponse cfg (.returned (.ok u)))) ∨
    (∀ u, registration cfg request input = some u →
        (s.routes.users.byEmail u.email).isSome = true) ∧
      (handleRegister cfg s request input).1.routes.users = s.routes.users ∧
      (handleRegister cfg s request input).2.status ≠ 200 := by
  have shape : registration cfg request input = (given cfg request).bind fun pair =>
      account cfg.hashPassword pair.1 pair.2 input.account := by
    rw [registration, route]
    rfl
  rw [handleRegister_eq]
  rcases withCredentials_given cfg s request _ with
    ⟨email, password, sent, complete, handled⟩ | ⟨absent, response, refused, status⟩
  · rw [sent, Option.bind_some] at shape
    rw [handled]
    rcases registerUser_account cfg.hashPassword s.routes.users complete input.account with
      ⟨u, made, free, registered⟩ | ⟨barred, outcome, registered, failed⟩
    · obtain ⟨rfl, -, -⟩ := account_some made
      refine .inl ⟨u, shape.trans made, free, ?_, ?_⟩
      · rw [registered]
        rfl
      · rw [registered]
        intro ok
        obtain ⟨v, returned⟩ := registerResponse_ok cfg ok
        have saved : (entered s.routes.users u input.account).2 = .returned (.ok u) := by
          unfold entered at returned ⊢
          dsimp only at returned ⊢
          split at returned
          next done => rw [if_pos done]
          next => cases returned
        exact congrArg (registerResponse cfg) saved
    · refine .inr ⟨?_, ?_, ?_⟩
      · intro u made
        rw [shape] at made
        rcases barred with none | taken
        · rw [none] at made
          cases made
        · rwa [(account_some made).1]
      · rw [registered]
      · rw [registered]
        intro ok
        obtain ⟨u, returned⟩ := registerResponse_ok cfg ok
        exact failed u returned
  · rw [refused]
    refine .inr ⟨fun u made => ?_, rfl, status⟩
    rw [shape, absent] at made
    cases made

def Serves (s : State) (label : Label) (next : State) : Prop :=
  Step cfg s label next ∧
    ∀ other, label = .background other → other.routes.users = s.routes.users

section Runs

variable {cfg} {start s next : State} {labels : List Label} {label : Label}

theorem accountOf_snoc (start : State) (labels : List Label) (label : Label) (email : Bytes) :
    accountOf cfg start (labels ++ [label]) email =
      (accountOf cfg start labels email).or (newcomer cfg email label) := by
  unfold accountOf
  rw [List.findSome?_append, ← Option.or_assoc, List.findSome?_singleton]

theorem newcomer_of_other {request : Request} {input : Input} {response : Option Response}
    (other : request.route ≠ .register) (email : Bytes) :
    newcomer cfg email (.serve request input response) = none := by
  cases made : registration cfg request input with
  | none => rw [newcomer, made, Option.filter_none]
  | some u => exact absurd (registration_some cfg made).1 other

theorem newcomer_of_made {request : Request} {input : Input} {u : User}
    (made : registration cfg request input = some u) (response : Option Response) (email : Bytes) :
    newcomer cfg email (.serve request input response) =
      if u.email = email then some u else none := by
  rw [newcomer, made, Option.filter_some]
  by_cases same : u.email = email
  · rw [if_pos (decide_eq_true same), if_pos same]
  · rw [if_neg (by simpa using same), if_neg same]

/-- One step: the accounts are those there were and the one that was entered. -/
theorem account_step (points : s.routes.users.Points) (step : Serves cfg s label next) :
    next.routes.users.Points ∧ ∀ email, findByEmail next.routes.users email =
      (findByEmail s.routes.users email).or (newcomer cfg email label) := by
  obtain ⟨taken, own⟩ := step
  have stays (same : next.routes.users = s.routes.users)
      (nobody : ∀ email, findByEmail s.routes.users email = none →
        newcomer cfg email label = none) :
      next.routes.users.Points ∧ ∀ email, findByEmail next.routes.users email =
        (findByEmail s.routes.users email).or (newcomer cfg email label) := by
    rw [same]
    refine ⟨points, fun email => ?_⟩
    cases found : findByEmail s.routes.users email with
    | none => rw [nobody email found, Option.or_none]
    | some u => rw [Option.some_or]
  cases taken with
  | background other buckets ingested => exact stays (own _ rfl) fun _ _ => rfl
  | serve request input =>
    by_cases route : request.route = .register
    · have handled : handle cfg s request input = ((handleRegister cfg s request input).1,
          some (handleRegister cfg s request input).2) := by
        rw [handle, route]
      rcases handleRegister_cases cfg route input with
        ⟨u, made, free, entered, -⟩ | ⟨barred, same, -⟩
      · rw [handled]
        dsimp only
        rw [entered]
        refine ⟨points.push u, fun email => ?_⟩
        have found := findByEmail_push points u email
        have none : findByEmail s.routes.users u.email = none := by
          rw [← Option.isNone_iff_eq_none, ← Option.not_isSome, isSome_findByEmail points, free]
          rfl
        refine Eq.trans found ?_
        rw [newcomer_of_made made]
        by_cases same : email = u.email
        · rw [if_pos same, if_pos same.symm, same, none, Option.none_or]
        · rw [if_neg same, if_neg (Ne.symm same), Option.or_none]
      · rw [handled] at stays ⊢
        apply stays same
        intro email nobody
        rw [newcomer, Option.filter_eq_none_iff]
        intro u made named
        have taken := barred u made
        rw [of_decide_eq_true named, ← isSome_findByEmail points, nobody] at taken
        cases taken
    · apply stays (handle_users cfg route input)
      intro email _
      exact newcomer_of_other route email

theorem accounts_run (points : start.routes.users.Points)
    (run : Run (Serves cfg) start labels s) :
    s.routes.users.Points ∧
      ∀ email, findByEmail s.routes.users email = accountOf cfg start labels email := by
  induction run with
  | refl =>
    refine ⟨points, fun email => ?_⟩
    rw [accountOf, List.findSome?_nil, Option.or_none]
  | @snoc labels current next label _ last ih =>
    obtain ⟨before, all⟩ := ih
    obtain ⟨after, more⟩ := account_step before last
    refine ⟨after, fun email => ?_⟩
    rw [accountOf_snoc, ← all, more]

theorem accountOf_append {email : Bytes} {u : User}
    (there : accountOf cfg start labels email = some u) (more : List Label) :
    accountOf cfg start (labels ++ more) email = some u := by
  unfold accountOf at there ⊢
  rw [List.findSome?_append, ← Option.or_assoc, there, Option.some_or]

/-- A registration that is answered 200 has entered the account, and nobody had its email. -/
theorem registered_of_ok (points : start.routes.users.Points)
    (run : Run (Serves cfg) start labels s) {request : Request} {input : Input}
    {response : Response} (route : request.route = .register)
    (answered : (handle cfg s request input).2 = some response) (ok : response.status = 200)
    {email password : Bytes} (sent : given cfg request = some (email, password)) :
    ∃ u, u.email = email ∧ cfg.hashPassword password u.salt = some u.passwordHash ∧ Utf8 u.id ∧
      response = registerResponse cfg (.returned (.ok u)) ∧
      accountOf cfg start labels email = none ∧
      accountOf cfg start (labels ++ [.serve request input (some response)]) email = some u := by
  obtain ⟨pointed, all⟩ := accounts_run points run
  have handled : handle cfg s request input = ((handleRegister cfg s request input).1,
      some (handleRegister cfg s request input).2) := by
    rw [handle, route]
  rw [handled] at answered
  obtain rfl := Option.some.inj answered
  rcases handleRegister_cases cfg route input with ⟨u, made, free, -, told⟩ | ⟨-, -, failed⟩
  · obtain ⟨-, other, same, hashed, legible⟩ := registration_some cfg made
    obtain ⟨rfl, rfl⟩ := Prod.mk.inj (Option.some.inj (sent.symm.trans same))
    have none : accountOf cfg start labels u.email = none := by
      rw [← all, ← Option.isNone_iff_eq_none, ← Option.not_isSome, isSome_findByEmail pointed, free]
      rfl
    refine ⟨u, rfl, hashed, legible, told ok, none, ?_⟩
    rw [accountOf_snoc, none, Option.none_or, newcomer_of_made made, if_pos rfl]
  · exact absurd ok failed

end Runs

section Login

variable {cfg} {start s : State} {labels : List Label}

theorem verifyPassword_iff {password : Bytes} {u : User} :
    verifyPassword cfg password u.salt u.passwordHash = some true ↔
      cfg.hashPassword password u.salt = some u.passwordHash := by
  unfold verifyPassword
  cases cfg.hashPassword password u.salt with
  | none => simp
  | some computed => simp

theorem handleLogin_given {request : Request} {email password : Bytes}
    (sent : given cfg request = some (email, password)) (s : State) (input : Input) :
    (∀ u, findByEmail s.routes.users email = some u →
        cfg.hashPassword password u.salt = some u.passwordHash →
        handleLogin cfg s request input = (s, loginToken cfg u input)) ∧
      ((handleLogin cfg s request input).2.status = 200 →
        ∃ u, findByEmail s.routes.users email = some u ∧
          cfg.hashPassword password u.salt = some u.passwordHash) := by
  unfold handleLogin
  rcases withCredentials_given cfg s request _ with
    ⟨email', password', same, -, handled⟩ | ⟨absent, -⟩
  · obtain ⟨rfl, rfl⟩ := Prod.mk.inj (Option.some.inj (sent.symm.trans same))
    rw [handled]
    constructor
    · intro u found hashed
      rw [found]
      dsimp only
      rw [verifyPassword_iff.mpr hashed]
    · intro ok
      cases found : findByEmail s.routes.users email with
      | none =>
        rw [found] at ok
        exact absurd ok (sendJson_ne_ok cfg.toConfig (by decide) _)
      | some u =>
        rw [found] at ok
        dsimp only at ok
        cases verified : verifyPassword cfg password u.salt u.passwordHash with
        | none =>
          rw [verified] at ok
          cases ok
        | some right =>
          cases right with
          | true => exact ⟨u, rfl, verifyPassword_iff.mp verified⟩
          | false =>
            rw [verified] at ok
            exact absurd ok (sendJson_ne_ok cfg.toConfig (by decide) _)
  · rw [sent] at absent
    cases absent

def loginAnswer (u : User) (token : Bytes) : Json := .object [
  (text "expires_in", .integer tokenExpirySeconds.toInt),
  (text "token", .string token),
  (text "user_id", .string u.id)]

theorem base64urlEncode_utf8 (data : Bytes) : Utf8 (base64urlEncode data) := by
  apply utf8_ascii
  intro c written
  have ascii : ∀ c ∈ base64Chars, c < 128 := by decide +kernel
  exact ascii c (base64urlEncode_mem written)

/-- A login is answered with a token if the writer does not throw on what is UTF-8. -/
theorem loginToken_ok (dumps : ∀ json : Json, json.Writable → (cfg.dump json).isSome) {jwt : Jwt}
    (manager : cfg.authMgr = some jwt) {u : User} (id : Utf8 u.id) (email : Utf8 u.email)
    {input : Input} {drawn : Vector UInt8 16} (jti : input.jti = some drawn) :
    ∃ token body, createToken jwt cfg.dump u.id u.email input.nowSec (some drawn) =
        .returned token ∧ cfg.dump (loginAnswer u token) = some body ∧
      loginToken cfg u input = ⟨200, body⟩ := by
  have keys : Utf8 (text "email") ∧ Utf8 (text "exp") ∧ Utf8 (text "iat") ∧ Utf8 (text "jti") ∧
      Utf8 (text "sub") := by decide
  have claims := dumps (payload ⟨u.id, u.email, input.nowSec, input.nowSec + tokenExpirySeconds,
    randomHex drawn⟩) (by simp [payload, keys, id, email, randomHex_utf8])
  obtain ⟨json, written⟩ := Option.isSome_iff_exists.mp claims
  let signingInput := base64urlEncode jwtHeader ++ text "." ++ base64urlEncode json
  let token := signingInput ++ text "." ++ base64urlEncode (jwt.hmacSha256 signingInput)
  have made : createToken jwt cfg.dump u.id u.email input.nowSec (some drawn) =
      .returned token := by
    simp only [createToken, written]
    rfl
  have dot : Utf8 (text ".") := by decide
  have readable : Utf8 token :=
    ((((base64urlEncode_utf8 _).append dot).append (base64urlEncode_utf8 _)).append dot).append
      (base64urlEncode_utf8 _)
  have names : Utf8 (text "expires_in") ∧ Utf8 (text "token") ∧ Utf8 (text "user_id") := by decide
  obtain ⟨body, dumped⟩ := Option.isSome_iff_exists.mp
    (dumps (loginAnswer u token) (by simp [loginAnswer, names, id, readable]))
  refine ⟨token, body, made, dumped, ?_⟩
  unfold loginToken
  rw [manager, jti]
  dsimp only
  rw [made]
  dsimp only
  rw [sendJson, ← loginAnswer, dumped]

theorem mem_of_findByEmail {s : UserStore.State} {email : Bytes} {u : User}
    (found : findByEmail s email = some u) : u ∈ s.users := by
  obtain ⟨index, -, there⟩ := Option.bind_eq_some_iff.mp found
  exact List.mem_of_getElem? there

/-- The ids of the accounts are UTF-8: those of new ones are hexadecimal. -/
theorem accountOf_legible (legible : ∀ u ∈ start.routes.users.users, Utf8 u.id) {email : Bytes}
    {u : User} (there : accountOf cfg start labels email = some u) : Utf8 u.id := by
  rcases Option.or_eq_some_iff.mp there with old | ⟨-, new⟩
  · exact legible u (mem_of_findByEmail old)
  · obtain ⟨label, -, made⟩ := List.exists_of_findSome?_eq_some new
    cases label with
    | background other => cases made
    | serve request input response =>
      obtain ⟨-, -, -, -, readable⟩ := registration_some cfg (Option.filter_eq_some_iff.mp made).1
      exact readable

theorem given_utf8 {request : Request} (read : ∀ body, request.body = some body → body.Writable)
    {email password : Bytes} (sent : given cfg request = some (email, password)) : Utf8 email := by
  unfold given at sent
  split at sent
  next => cases sent
  next =>
    cases shape : request.body with
    | none =>
      rw [shape] at sent
      cases sent
    | some body =>
      rw [shape] at sent
      dsimp only at sent
      cases found : credentials body with
      | error error =>
        rw [found] at sent
        cases sent
      | ok pair =>
        rw [found] at sent
        dsimp only at sent
        obtain ⟨name, first, rest⟩ := AlertRulesEngine.bind_ok found
        obtain ⟨secret, -, rest⟩ := AlertRulesEngine.bind_ok rest
        obtain rfl := Except.ok.inj rest
        split at sent
        next => cases sent
        next =>
          obtain ⟨rfl, rfl⟩ := Prod.mk.inj (Option.some.inj sent)
          exact (read body shape).valueString (by decide) first

theorem given_manager {request : Request} {pair : Bytes × Bytes}
    (sent : given cfg request = some pair) : ∃ jwt, cfg.authMgr = some jwt := by
  unfold given at sent
  split at sent
  next => cases sent
  next set =>
    cases manager : cfg.authMgr with
    | none => simp [manager] at set
    | some jwt => exact ⟨jwt, rfl⟩

/-- Who can log in, after any run. -/
theorem login_iff_account {parsed : Option Json} {files : Files}
    (loaded : UserStore.load parsed files = .ok start.routes.users)
    (legible : ∀ u ∈ start.routes.users.users, Utf8 u.id)
    (dumps : ∀ json : Json, json.Writable → (cfg.dump json).isSome)
    (run : Run (Serves cfg) start labels s) {request : Request} (route : request.route = .login)
    (read : ∀ body, request.body = some body → body.Writable) {email password : Bytes}
    (sent : given cfg request = some (email, password)) {input : Input} {drawn : Vector UInt8 16}
    (jti : input.jti = some drawn) :
    (∃ response, (handle cfg s request input).2 = some response ∧ response.status = 200) ↔
      ∃ u, accountOf cfg start labels email = some u ∧
        cfg.hashPassword password u.salt = some u.passwordHash := by
  obtain ⟨pointed, all⟩ := accounts_run (load_points loaded) run
  have handled : handle cfg s request input = ((handleLogin cfg s request input).1,
      some (handleLogin cfg s request input).2) := by
    rw [handle, route]
  obtain ⟨answers, only⟩ := handleLogin_given sent s input
  rw [handled]
  constructor
  · rintro ⟨response, answered, ok⟩
    obtain rfl := Option.some.inj answered
    obtain ⟨u, found, hashed⟩ := only ok
    exact ⟨u, (all email).symm.trans found, hashed⟩
  · rintro ⟨u, there, hashed⟩
    have found := (all email).trans there
    obtain ⟨jwt, manager⟩ := given_manager sent
    have named := email_of_findByEmail pointed found
    obtain ⟨token, body, -, -, ok⟩ := loginToken_ok dumps manager (accountOf_legible legible there)
      (named ▸ given_utf8 read sent) jti
    refine ⟨_, rfl, ?_⟩
    rw [answers u found hashed, ok]

theorem answered_of_step {next : State} {request : Request} {input : Input}
    {response : Option Response} (step : Step cfg s (.serve request input response) next) :
    (handle cfg s request input).2 = response := by
  generalize shape : Label.serve request input response = label at step
  cases step with
  | background other buckets ingested => cases shape
  | serve request' input' =>
    obtain ⟨rfl, rfl, same⟩ := Label.serve.inj shape
    exact same.symm

def loginClaims (u : User) (now : Input) (drawn : Vector UInt8 16) : JwtClaims :=
  ⟨u.id, u.email, now.nowSec, now.nowSec + tokenExpirySeconds, randomHex drawn⟩

theorem verifyToken_created {jwt : Jwt} {u : User} {now : Input} {drawn : Vector UInt8 16}
    {token json : Bytes} (written : cfg.dump (payload (loginClaims u now drawn)) = some json)
    (read : jwt.parse json = some (payload (loginClaims u now drawn)))
    (made : createToken jwt cfg.dump u.id u.email now.nowSec (some drawn) = .returned token)
    {revoked : Revoked} {expiryClock revocationClock : Int64}
    (alive : expiryClock < now.nowSec + tokenExpirySeconds)
    (free : (isRevoked revoked (randomHex drawn) revocationClock).1 = false) :
    (verifyToken jwt revoked token expiryClock revocationClock).1 =
      .returned (some (loginClaims u now drawn)) := by
  rw [verifyToken_eq_some, checkRevocation_isRevoked, Int64.not_le]
  exact ⟨signedClaims_createToken written read made, alive, .inr free⟩

/-- Whoever has registered can log in from then on, as the account that the registration told of,
and nobody else gets the email. -/
theorem registered_logs_in {parsed : Option Json} {files : Files}
    (loaded : UserStore.load parsed files = .ok start.routes.users)
    (dumps : ∀ json : Json, json.Writable → (cfg.dump json).isSome) {before after : List Label}
    {request : Request} {input : Input} {response : Response}
    (run : Run (Serves cfg) start (before ++ .serve request input (some response) :: after) s)
    (route : request.route = .register) (ok : response.status = 200)
    (readBody : ∀ body, request.body = some body → body.Writable) {email password : Bytes}
    (sent : given cfg request = some (email, password)) {jwt : Jwt}
    (manager : cfg.authMgr = some jwt) :
    ∃ u, u.email = email ∧ response = registerResponse cfg (.returned (.ok u)) ∧
      (∀ other later second secret, Label.serve other later (some second) ∈ after →
        other.route = .register → given cfg other = some (email, secret) →
          second.status ≠ 200) ∧
      ∀ login now drawn, login.route = .login → given cfg login = some (email, password) →
        now.jti = some drawn → ∃ token body,
          (handle cfg s login now).2 = some ⟨200, body⟩ ∧
          cfg.dump (loginAnswer u token) = some body ∧
          ((∀ json, cfg.dump (payload (loginClaims u now drawn)) = some json →
              jwt.parse json = some (payload (loginClaims u now drawn))) →
            ∀ revoked expiryClock revocationClock,
              expiryClock < now.nowSec + tokenExpirySeconds →
              (isRevoked revoked (randomHex drawn) revocationClock).1 = false →
              (verifyToken jwt revoked token expiryClock revocationClock).1 =
                .returned (some (loginClaims u now drawn))) := by
  have points := load_points loaded
  obtain ⟨middle, first, rest⟩ := run.split
  obtain ⟨reached, taken, rest⟩ := rest.uncons
  obtain ⟨u, rfl, hashed, legible, told, -, there⟩ :=
    registered_of_ok points first route (answered_of_step taken.1) ok sent
  refine ⟨u, rfl, told, ?_, ?_⟩
  · intro other later second secret listed otherRoute otherSent otherOk
    obtain ⟨early, late, rfl⟩ := List.append_of_mem listed
    obtain ⟨between, passed, more⟩ := rest.split
    obtain ⟨_, again, -⟩ := more.uncons
    have whole : Run (Serves cfg) start
        (before ++ [.serve request input (some response)] ++ early) between :=
      (first.snoc taken).trans passed
    obtain ⟨v, -, -, -, -, none, -⟩ :=
      registered_of_ok points whole otherRoute (answered_of_step again.1) otherOk otherSent
    rw [accountOf_append there early] at none
    cases none
  · intro login now drawn loginRoute loginSent jti
    obtain ⟨-, all⟩ := accounts_run points run
    have kept : accountOf cfg start (before ++ .serve request input (some response) :: after)
        u.email = some u := by
      have longer := accountOf_append there after
      rwa [List.append_assoc, List.singleton_append] at longer
    obtain ⟨token, body, made, dumped, answered⟩ :=
      loginToken_ok dumps manager legible (given_utf8 readBody sent) jti
    refine ⟨token, body, ?_, dumped, ?_⟩
    · obtain ⟨answers, -⟩ := handleLogin_given loginSent s now
      have handled : (handle cfg s login now).2 = some (handleLogin cfg s login now).2 := by
        rw [handle, loginRoute]
      rw [handled, answers u ((all u.email).trans kept) hashed, answered]
    · intro reads revoked expiryClock revocationClock alive free
      obtain ⟨json, written⟩ : ∃ json,
          cfg.dump (payload (loginClaims u now drawn)) = some json := by
        cases written : cfg.dump (payload (loginClaims u now drawn)) with
        | some json => exact ⟨json, rfl⟩
        | none =>
          simp only [createToken] at made
          rw [← loginClaims, written] at made
          cases made
      exact verifyToken_created written (reads json written) made alive free

end Login

section Example

open TokenRevocation Server

def accountConfig : Config where
  authMgr := some userJwt
  hasProjectStore := true
  hasTenantMgr := true
  persisted := fun _ => Store.empty
  dump := dumped
  apiKey := text "key"
  hasUserStore := true
  callbacks := ⟨true, true, true, true, true⟩
  hashPassword := fun password salt => some (password ++ salt)
  page := fun _ => []
  ringCapacity := ringCapacity
  dumpsErrors := fun _ _ => rfl

def accountServer : State where
  routes :=
    ⟨TenantManager.construct (fun _ => Store.empty) (ProjectStore.empty ⟨none, none⟩) [],
      UserStore.empty ⟨none, none⟩, fun _ => none, none, none⟩
  tsdb := Store.empty
  ring := []
  totalIngested := 0
  rateBuckets := fun _ => none

def withPassword (route : Route) (password : Bytes) : Request where
  route := route
  xApiKey := []
  authorization := []
  body := some (.object [(text "email", .string (text "ann@test.com")),
    (text "password", .string password)])
  app := none
  level := none
  last := none

def accountInput : Input :=
  ⟨⟨1, 1⟩, 1, 1700000000, some userDraw, ⟨some (Vector.replicate 8 7), some userDraw, 5,
    .sound 100, fun _ => some (text "[]")⟩, fun _ => 1, []⟩

def ann : User where
  id := text "0707070707070707"
  email := text "ann@test.com"
  passwordHash := text "correct horse" ++ randomHex userDraw
  salt := randomHex userDraw
  createdAtNs := 5

theorem ann_registered : (handle accountConfig accountServer
    (withPassword .register (text "correct horse")) accountInput).2 =
      some (registerResponse accountConfig (.returned (.ok ann))) := by
  decide +kernel

theorem signUp_step : Serves accountConfig accountServer
    (.serve (withPassword .register (text "correct horse")) accountInput
      (some (registerResponse accountConfig (.returned (.ok ann)))))
    (handle accountConfig accountServer (withPassword .register (text "correct horse"))
      accountInput).1 := by
  constructor
  · rw [← ann_registered]
    exact .serve ..
  · intro other same
    cases same

theorem given_withPassword (route : Route) {password : Bytes} (some : password ≠ []) :
    given accountConfig (withPassword route password) = .some (text "ann@test.com", password) := by
  have email : text "ann@test.com" ≠ [] := by decide
  have read : credentials (.object [(text "email", .string (text "ann@test.com")),
      (text "password", .string password)]) = .ok (text "ann@test.com", password) := rfl
  have set : (accountConfig.authMgr.isNone || !accountConfig.hasUserStore) = false := rfl
  simp only [given, withPassword, set, read, email, some, or_self, if_false, Bool.false_eq_true]

theorem withPassword_writable {route : Route} {password : Bytes} (utf8 : Utf8 password) :
    ∀ body, (withPassword route password).body = some body → body.Writable := by
  rintro body ⟨⟩
  have rest : Utf8 (text "email") ∧ Utf8 (text "password") ∧ Utf8 (text "ann@test.com") := by decide
  simp [rest, utf8]

theorem accountConfig_dumps (json : Json) : (accountConfig.dump json).isSome := by
  change (dumped json).isSome
  unfold dumped
  split <;> rfl

/-- Ann logs in with her password and not with another. -/
theorem login_iff_account_ann : ∃ labels s, Run (Serves accountConfig) accountServer labels s ∧
    (∃ response, (handle accountConfig s (withPassword .login (text "correct horse"))
      accountInput).2 = some response ∧ response.status = 200) ∧
    ¬∃ response, (handle accountConfig s (withPassword .login (text "wrong horse"))
      accountInput).2 = some response ∧ response.status = 200 := by
  have loaded : UserStore.load none ⟨none, none⟩ = .ok accountServer.routes.users := rfl
  have run := Run.single signUp_step
  have legible : ∀ u ∈ accountServer.routes.users.users, Utf8 u.id := by
    intro u listed
    cases listed
  have known : accountOf accountConfig accountServer
      [.serve (withPassword .register (text "correct horse")) accountInput
        (some (registerResponse accountConfig (.returned (.ok ann))))] (text "ann@test.com") =
      some ann := by
    decide +kernel
  refine ⟨_, _, run, ?_, ?_⟩
  · apply (login_iff_account loaded legible (fun json _ => accountConfig_dumps json) run rfl
      (withPassword_writable (by decide)) (given_withPassword .login (by decide)) rfl).mpr
    exact ⟨ann, known, rfl⟩
  · intro ok
    obtain ⟨u, there, hashed⟩ := (login_iff_account loaded legible
      (fun json _ => accountConfig_dumps json) run rfl (withPassword_writable (by decide))
      (given_withPassword .login (by decide)) rfl).mp ok
    obtain rfl := Option.some.inj (known.symm.trans there)
    exact absurd hashed (by decide +kernel)

theorem registered_logs_in_ann : ∃ labels s, Run (Serves accountConfig) accountServer labels s ∧
    ∃ u token body, u.email = text "ann@test.com" ∧
      (handle accountConfig s (withPassword .login (text "correct horse")) accountInput).2 =
        some ⟨200, body⟩ ∧
      dumped (loginAnswer u token) = some body := by
  have loaded : UserStore.load none ⟨none, none⟩ = .ok accountServer.routes.users := rfl
  have run := Run.single signUp_step
  have ok : (registerResponse accountConfig (.returned (.ok ann))).status = 200 := by
    decide +kernel
  obtain ⟨u, named, -, -, logsIn⟩ := @registered_logs_in accountConfig accountServer _ _ _ loaded
    (fun json _ => accountConfig_dumps json) [] [] _ _ _ run rfl ok
    (withPassword_writable (by decide)) _ _ (given_withPassword .register (by decide)) _ rfl
  obtain ⟨token, body, answered, written, -⟩ := logsIn
    (withPassword .login (text "correct horse")) accountInput userDraw rfl
    (given_withPassword .login (by decide)) rfl
  exact ⟨_, _, run, u, token, body, named, answered, written⟩

end Example

end HttpServer

end LogMonitor
