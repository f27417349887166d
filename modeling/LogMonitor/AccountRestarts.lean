import LogMonitor.FailedCall
import LogMonitor.Library.Restart
import LogMonitor.ProjectMapDraws

/-!
The account stores across restarts. The user store is rebuilt as it was. The
project store is rebuilt without its tombstones and with other positions, but it
simulates the same map of projects, and every answer is read off the map.
-/

namespace LogMonitor
open Library Library.ByteString Library.Transition Library.Restart AuthManager

/-- A save of the value succeeds, and the JSON library reads back what it wrote. -/
def AccountEnvironment.Keeps (env : AccountEnvironment) (parse : Bytes → Option Json)
    (json : Json) : Prop :=
  ∃ bytes, env.dump json = some bytes ∧ parse bytes = some json ∧ env.disk.opens = true ∧
    bytes.length ≤ env.disk.room ∧ env.disk.renames = true

theorem saveLocked_keeps {env : AccountEnvironment} {parse : Bytes → Option Json} {json : Json}
    (keeps : env.Keeps parse json) (files : Files) :
    ∃ bytes, saveLocked env.disk (env.dump json) files = (⟨some bytes, none⟩, true) ∧
      parse bytes = some json := by
  obtain ⟨bytes, dumped, read, opens, room, renames⟩ := keeps
  refine ⟨bytes, ?_, read⟩
  rw [dumped]
  simp [saveLocked, Files.openTmp, Files.writeTmp, Files.rename, opens, renames,
    List.take_of_length_le room]

namespace UserStore

inductive Op where
  | register (email password : Bytes) (env : AccountEnvironment)
  | findByEmail (email : Bytes)
  | findById (id : Bytes)
  | size

inductive Answer where
  | registered (outcome : Outcome (Except Bytes User))
  | found (user : Option User)
  | counted (size : Nat)

variable (hashPassword : Bytes → Bytes → Option Bytes) (parse : Bytes → Option Json)

def operate (s : State) : Op → State × Answer
  | .register email password env =>
    let (s, outcome) := registerUser hashPassword s email password env
    (s, .registered outcome)
  | .findByEmail email => (s, .found (findByEmail s email))
  | .findById id => (s, .found (findById s id))
  | .size => (s, .counted (size s))

def reload (s : State) : Option State := (load (s.files.target.bind parse) s.files).toOption

def durable : Durable State Op Answer := ⟨operate hashPassword, reload parse⟩

/-- If the call enters an account, the save succeeds. -/
def Proper (s : State) : Op → Prop
  | .register email password env =>
    Enters hashPassword s email password env →
      env.Keeps parse (encoding (registerUser hashPassword s email password env).1.users)
  | _ => True

theorem ofJson_toJson (user : User) : ofJson (toJson user) = .ok user := by
  have read : ofJson (toJson user) =
      .ok { user with createdAtNs := Int64.ofInt user.createdAtNs.toInt } := rfl
  rw [read, Int64.ofInt_toInt]

theorem load_records {users : List User} (named : ∀ u ∈ users, u.id ≠ [] ∧ u.email ≠ [])
    (s : State) : loadRecords (users.map toJson) s = .ok (users.foldl State.push s) := by
  induction users generalizing s with
  | nil => rfl
  | cons u rest ih =>
    obtain ⟨id, email⟩ := named u List.mem_cons_self
    have kept : ¬(u.id = [] ∨ u.email = []) := not_or.mpr ⟨id, email⟩
    rw [List.map_cons, loadRecords, ofJson_toJson]
    simp only [bind, Except.bind, if_neg kept, List.foldl_cons]
    exact ih (fun u inside => named u (List.mem_cons_of_mem _ inside)) _

/-- The state is what the pushes of its accounts make, and its accounts can be saved. -/
structure Rebuilt (s : State) : Prop where
  pushes : s = s.users.foldl State.push (empty s.files)
  named : ∀ u ∈ s.users, u.id ≠ [] ∧ u.email ≠ []

theorem Rebuilt.push {s : State} (rebuilt : Rebuilt s) {u : User} (id : u.id ≠ [])
    (email : u.email ≠ []) : Rebuilt (s.push u) := by
  constructor
  · change s.push u = (s.users ++ [u]).foldl State.push (empty s.files)
    rw [List.foldl_append, ← rebuilt.pushes]
    rfl
  · intro v inside
    rcases List.mem_append.mp inside with old | new
    · exact rebuilt.named v old
    · rw [List.mem_singleton.mp new]
      exact ⟨id, email⟩

/-- What holds of the store without an account and is kept by a push holds of what is loaded. -/
theorem load_invariant {holds : State → Prop} {parsed : Option Json} {files : Files} {s : State}
    (loaded : load parsed files = .ok s) (initially : holds (empty files))
    (push : ∀ s u, holds s → u.id ≠ [] → u.email ≠ [] → holds (s.push u)) : holds s := by
  have records (records : List Json) (current : State) (before : holds current)
      (loaded : loadRecords records current = .ok s) : holds s := by
    induction records generalizing current with
    | nil =>
      cases loaded
      exact before
    | cons json records ih =>
      cases read : ofJson json with
      | error error => simp [loadRecords, read, bind, Except.bind] at loaded
      | ok u =>
        simp only [loadRecords, read, bind, Except.bind] at loaded
        split at loaded
        next => exact ih current before loaded
        next complete =>
          obtain ⟨id, email⟩ := not_or.mp complete
          exact ih _ (push current u before id email) loaded
  unfold load at loaded
  split at loaded
  · exact records _ _ initially loaded
  · cases loaded
    exact initially

theorem load_rebuilt {parsed : Option Json} {files : Files} {s : State}
    (loaded : load parsed files = .ok s) : Rebuilt s := by
  apply load_invariant loaded
  · exact ⟨rfl, by simp [empty]⟩
  · exact fun s u rebuilt id email => rebuilt.push id email

theorem load_files {parsed : Option Json} {files : Files} {s : State}
    (loaded : load parsed files = .ok s) : s.files = files := by
  apply load_invariant loaded
  · rfl
  · exact fun s u same _ _ => same

theorem foldl_push_files (users : List User) (s : State) (files : Files) :
    users.foldl State.push { s with files := files } =
      { users.foldl State.push s with files := files } := by
  induction users generalizing s with
  | nil => rfl
  | cons u rest ih => exact ih (s.push u)

theorem Rebuilt.withFiles {s : State} (rebuilt : Rebuilt s) (files : Files) :
    Rebuilt { s with files := files } := by
  refine ⟨?_, rebuilt.named⟩
  conv_lhs => rw [rebuilt.pushes]
  exact (foldl_push_files s.users (empty s.files) files).symm

/-- What is saved is loaded as it was. -/
theorem Rebuilt.load {s : State} (rebuilt : Rebuilt s) :
    load (some (encoding s.users)) s.files = .ok s := by
  conv_rhs => rw [rebuilt.pushes]
  exact load_records rebuilt.named (empty s.files)

/-- The second store answers like the first, and would be rebuilt as it is. -/
structure Alike (s t : State) : Prop where
  users : t.users = s.users
  byEmail : t.byEmail = s.byEmail
  byId : t.byId = s.byId
  rebuilt : Rebuilt t
  reloads : load (t.files.target.bind parse) t.files = .ok t

variable {hashPassword parse}

/-- An account is entered in both, and the file is then that of the second. -/
theorem Alike.entered {s t : State} (alike : Alike parse s t) {u : User} (id : u.id ≠ [])
    (email : u.email ≠ []) {env : AccountEnvironment}
    (keeps : env.Keeps parse (encoding (s.push u).users)) :
    (entered s u env).2 = (entered t u env).2 ∧ Alike parse (entered s u env).1 (entered t u env).1 := by
  have vector : (t.push u).users = (s.push u).users := congrArg (· ++ [u]) alike.users
  have save (x : State) (same : (x.push u).users = (s.push u).users) :
      ∃ bytes, (x.push u).save env = ({ x.push u with files := ⟨some bytes, none⟩ }, true) ∧
        parse bytes = some (encoding (s.push u).users) := by
    obtain ⟨bytes, saved, read⟩ := saveLocked_keeps keeps x.files
    refine ⟨bytes, ?_, read⟩
    rw [← same] at saved
    simp only [State.save, show (x.push u).files = x.files from rfl, saved]
  obtain ⟨_, first, _⟩ := save s rfl
  obtain ⟨bytes, second, read⟩ := save t vector
  have rebuilt : Rebuilt { t.push u with files := ⟨some bytes, none⟩ } :=
    (alike.rebuilt.push id email).withFiles _
  simp only [UserStore.entered, first, second, true_and]
  refine ⟨vector, ?_, ?_, rebuilt, ?_⟩
  · simp only [State.push, alike.byEmail, alike.users]
  · simp only [State.push, alike.byId, alike.users]
  · change load (parse bytes) _ = _
    rw [read, ← vector]
    exact rebuilt.load

theorem standsFor : (durable hashPassword parse).StandsFor (Proper hashPassword parse) (Alike parse) := by
  have register {s t : State} {email password : Bytes} {env : AccountEnvironment}
      (alike : Alike parse s t) (proper : Proper hashPassword parse s (.register email password env)) :
      (registerUser hashPassword s email password env).2 =
          (registerUser hashPassword t email password env).2 ∧
        Alike parse (registerUser hashPassword s email password env).1
          (registerUser hashPassword t email password env).1 := by
    rcases registerUser_reads hashPassword s.byEmail email password env with
      ⟨outcome, refused⟩ | ⟨u, id, given, accepted⟩
    · rw [(refused s rfl).2, (refused t alike.byEmail).2]
      exact ⟨rfl, alike⟩
    · obtain ⟨enters, entered⟩ := accepted s rfl
      have keeps := proper enters
      rw [entered] at keeps ⊢
      rw [(accepted t alike.byEmail).2]
      exact alike.entered id given keeps
  constructor
  · intro s t op alike proper
    cases op with
    | register email password env => exact congrArg Answer.registered (register alike proper).1
    | findByEmail email =>
      have same : findByEmail s email = findByEmail t email := by
        rw [findByEmail, findByEmail, alike.byEmail, alike.users]
      exact congrArg Answer.found same
    | findById id =>
      have same : findById s id = findById t id := by
        rw [findById, findById, alike.byId, alike.users]
      exact congrArg Answer.found same
    | size => exact congrArg (fun users => Answer.counted (List.length users)) alike.users.symm
  · intro s t op alike proper
    cases op with
    | register email password env => exact (register alike proper).2
    | findByEmail email => exact alike
    | findById id => exact alike
    | size => exact alike
  · intro s t alike
    have rebuilt : reload parse t = some t := by rw [reload, alike.reloads]; rfl
    exact ⟨t, rebuilt, alike⟩

theorem load_alike {files : Files} {s : State} (loaded : load (files.target.bind parse) files = .ok s) :
    Alike parse s s := by
  refine ⟨rfl, rfl, rfl, load_rebuilt loaded, ?_⟩
  rw [load_files loaded]
  exact loaded

end UserStore

namespace ProjectStore

inductive Op where
  | call (call : Call) (env : AccountEnvironment)
  | findById (id : Bytes)
  | findByApiKey (key : Bytes)
  | listByOwner (ownerId : Bytes)
  | size

inductive Answer where
  | called (outcome : Outcome Reply)
  | found (project : Option Project)
  | listed (projects : List Project)
  | counted (size : Nat)

def operate (s : State) : Op → State × Answer
  | .call call env =>
    let (s, outcome) := perform s call env
    (s, .called outcome)
  | .findById id => (s, .found (findById s id))
  | .findByApiKey key => (s, .found (findByApiKey s key))
  | .listByOwner ownerId => (s, .listed (listByOwner s ownerId))
  | .size => (s, .counted (size s))

variable (parse : Bytes → Option Json)

def reload (s : State) : Option State := (load (s.files.target.bind parse) s.files).toOption

def durable : Durable State Op Answer := ⟨operate, reload parse⟩

def Changes (s : State) : Call → Prop
  | .create name ownerId => name ≠ [] ∧ ownerId ≠ []
  | .delete id requestingOwnerId => ∃ p, findById s id = some p ∧ p.ownerId = requestingOwnerId
  | .rotate id requestingOwnerId => ∃ p, findById s id = some p ∧ p.ownerId = requestingOwnerId

/-- The values of `random_hex` in a call that gets past its checks. -/
def drawnBy (env : AccountEnvironment) : Call → List Bytes
  | .create _ _ => [env.idText, env.keyText]
  | .delete _ _ => []
  | .rotate _ _ => [env.keyText]

/-- The random values are there and no project has them, and the save succeeds. -/
structure Sound (s : State) (call : Call) (env : AccountEnvironment) : Prop where
  yields : Yields env
  fresh : ∀ value ∈ drawnBy env call, ∀ p ∈ s.projects, p.live →
    p.id ≠ value ∧ p.apiKey ≠ text "lm_proj_" ++ value
  keeps : env.Keeps parse (encoding (perform s call env).1.projects)

def Proper (s : State) : Op → Prop
  | .call call env => Changes s call → Sound parse s call env
  | _ => True

theorem ofJson_toJson (p : Project) : ofJson (toJson p) = .ok p := by
  have read : ofJson (toJson p) = .ok { p with createdAtNs := Int64.ofInt p.createdAtNs.toInt } := rfl
  rw [read, Int64.ofInt_toInt]

theorem load_records {projects : List Project} (keyed : ∀ p ∈ projects, p.id ≠ [] ∧ p.apiKey ≠ [])
    (s : State) : loadRecords (projects.map toJson) s = .ok (projects.foldl State.push s) := by
  induction projects generalizing s with
  | nil => rfl
  | cons p rest ih =>
    obtain ⟨id, key⟩ := keyed p List.mem_cons_self
    have kept : ¬(p.id = [] ∨ p.apiKey = []) := not_or.mpr ⟨id, key⟩
    rw [List.map_cons, loadRecords, ofJson_toJson]
    simp only [bind, Except.bind, if_neg kept, List.foldl_cons]
    exact ih (fun p inside => keyed p (List.mem_cons_of_mem _ inside)) _

theorem foldl_push_projects (projects : List Project) (s : State) :
    (projects.foldl State.push s).projects = s.projects ++ projects := by
  induction projects generalizing s with
  | nil => exact (List.append_nil _).symm
  | cons p rest ih => simpa [State.push] using ih (s.push p)

theorem load_files {parsed : Option Json} {files : Files} {s : State}
    (loaded : load parsed files = .ok s) : s.files = files := by
  apply load_invariant loaded
  · rfl
  · exact fun s p same _ _ => same

section Simulation

variable {s t : State} {m : ProjectMap}

/-- A key leads to one position, so no two projects have it. -/
theorem Simulates.distinct_keys (related : Simulates s m) : (m.items.map Project.apiKey).Nodup := by
  have apart : s.projects.Pairwise fun p q => p.live → q.live → p.apiKey ≠ q.apiKey := by
    rw [List.pairwise_iff_getElem]
    intro i j first second below liveFirst liveSecond same
    have here := (related.byApiKey s.projects[i].apiKey i).mpr
      ⟨s.projects[i], List.getElem?_eq_getElem first, liveFirst, rfl⟩
    have there := (related.byApiKey s.projects[i].apiKey j).mpr
      ⟨s.projects[j], List.getElem?_eq_getElem second, liveSecond, same.symm⟩
    rw [here, Option.some.injEq] at there
    omega
  rw [related.items]
  refine List.pairwise_map.mpr ((apart.filter Project.live).imp_of_mem ?_)
  intro p q first second different
  exact different (List.mem_filter.mp first).2 (List.mem_filter.mp second).2

theorem Simulates.encoding (related : Simulates s m) :
    encoding s.projects = .array (m.items.map toJson) := by
  rw [ProjectStore.encoding, related.items]

/-- What is saved of a map is loaded as the map. -/
theorem Simulates.reload (related : Simulates s m) (keyed : ∀ p ∈ m.items, p.apiKey ≠ [])
    (files : Files) :
    ∃ fresh, load (some (.array (m.items.map toJson))) files = .ok fresh ∧ Simulates fresh m := by
  have storable : ∀ p ∈ m.items, p.id ≠ [] ∧ p.apiKey ≠ [] := by
    intro p inside
    have alive := (related.mem_items.mp inside).2
    exact ⟨by simpa [Project.live] using alive, keyed p inside⟩
  have loaded : load (some (.array (m.items.map toJson))) files =
      .ok (m.items.foldl State.push (empty files)) := load_records storable (empty files)
  have vector : (m.items.foldl State.push (empty files)).projects = m.items :=
    foldl_push_projects m.items (empty files)
  have keys := related.distinct_keys
  obtain ⟨items, distinct⟩ := m
  refine ⟨_, loaded, ?_⟩
  generalize items.foldl State.push (empty files) = fresh at loaded vector
  change fresh.projects = items at vector
  subst vector
  exact load_simulates loaded distinct keys

theorem findById_eq_locate (s : State) (id : Bytes) :
    findById s id = (s.locate id).map Prod.snd := by
  unfold findById State.locate
  cases s.byId id with
  | none => rfl
  | some idx => cases present : s.projects[idx]? <;> simp [present]

theorem own_iff (s : State) (id owner : Bytes) :
    (∃ p, findById s id = some p ∧ p.ownerId = owner) ↔
      ∃ idx p, s.locate id = some (idx, p) ∧ p.ownerId = owner := by
  simp only [findById_eq_locate, Option.map_eq_some_iff, Prod.exists]
  constructor
  · rintro ⟨p, ⟨idx, q, located, rfl⟩, own⟩
    exact ⟨idx, q, located, own⟩
  · rintro ⟨idx, p, located, own⟩
    exact ⟨p, ⟨idx, p, located, rfl⟩, own⟩

/-- A call is stopped at its checks, or it gets to the save with what it has drawn. -/
theorem perform_reads (s : State) (call : Call) (env : AccountEnvironment) :
    (¬Changes s call ∧ ∃ reply, perform s call env = (s, .returned reply) ∧
      Event.drawn ⟨call, env, .returned reply⟩ = []) ∨
    (Changes s call ∧ (Yields env → ∃ changed reply,
      perform s call env = saved changed env reply ∧
        ∀ value ∈ Event.drawn ⟨call, env, .returned reply⟩, value ∈ drawnBy env call)) := by
  have saved_map {α : Type} (changed : State) (value : α) (reply : α → Reply) :
      ((saved changed env value).1, (saved changed env value).2.map reply) =
        saved changed env (reply value) := by
    unfold saved
    split <;> rfl
  cases call with
  | create name ownerId =>
    rcases createProject_cases s name ownerId env with
      ⟨unnamed, ended⟩ | ⟨named, unowned, ended⟩ | ⟨named, owned, undrawn, ended⟩ |
        ⟨id, key, named, owned, idDraw, keyDraw, ended⟩
    · exact .inl ⟨fun changes => changes.1 unnamed, _, by rw [perform, ended]; rfl, rfl⟩
    · exact .inl ⟨fun changes => changes.2 unowned, _, by rw [perform, ended]; rfl, rfl⟩
    · refine .inr ⟨⟨named, owned⟩, fun yields => ?_⟩
      rcases undrawn with none | none
      · simp [Yields, none] at yields
      · simp [Yields, none] at yields
    · refine .inr ⟨⟨named, owned⟩, fun _ => ?_⟩
      simp only [perform, ended, saved_map]
      exact ⟨_, _, rfl, fun value drawn => drawn⟩
  | delete id owner =>
    rw [Changes, own_iff]
    rcases deleteProject_cases s id owner env with
      ⟨unknown, ended⟩ | ⟨idx, p, located, ⟨foreign, ended⟩ | ⟨own, ended⟩⟩
    · exact .inl ⟨by simp [unknown], _, by rw [perform, ended]; rfl, rfl⟩
    · exact .inl ⟨by simp [located, foreign], _, by rw [perform, ended]; rfl, rfl⟩
    · refine .inr ⟨⟨idx, p, located, own⟩, fun _ => ?_⟩
      simp only [perform, ended, saved_map]
      exact ⟨_, _, rfl, fun value drawn => drawn⟩
  | rotate id owner =>
    rw [Changes, own_iff]
    rcases rotateApiKey_cases s id owner env with
      ⟨unknown, ended⟩ | ⟨idx, p, located, ⟨foreign, ended⟩ | ⟨own, undrawn, ended⟩ |
        ⟨drawn, own, keyDraw, ended⟩⟩
    · exact .inl ⟨by simp [unknown], _, by rw [perform, ended]; rfl, rfl⟩
    · exact .inl ⟨by simp [located, foreign], _, by rw [perform, ended]; rfl, rfl⟩
    · refine .inr ⟨⟨idx, p, located, own⟩, fun yields => ?_⟩
      simp [Yields, undrawn] at yields
    · refine .inr ⟨⟨idx, p, located, own⟩, fun _ => ?_⟩
      simp only [perform, ended, saved_map]
      refine ⟨_, _, rfl, ?_⟩
      cases shape : apiKeyOf drawn with
      | nil => exact absurd shape (apiKeyOf_ne_nil drawn)
      | cons _ _ => exact fun value drawn => drawn

/-- The call of the map draws no more than what is drawn past the checks. -/
theorem mem_draws {m : ProjectMap} {call : Call} {env : AccountEnvironment} {value : Bytes}
    (drawn : value ∈ m.draws call env) : value ∈ drawnBy env call := by
  cases call with
  | create name ownerId =>
    simp only [ProjectMap.draws] at drawn
    split at drawn
    next => simp at drawn
    next => exact drawn
  | delete id owner => exact drawn
  | rotate id owner =>
    simp only [ProjectMap.draws] at drawn
    split at drawn
    next => simp at drawn
    next =>
      split at drawn
      next => exact drawn
      next => simp at drawn

theorem Simulates.changes_iff (first : Simulates s m) (second : Simulates t m) (call : Call) :
    Changes t call ↔ Changes s call := by
  cases call with
  | create name ownerId => exact Iff.rfl
  | delete id owner => simp only [Changes, first.agrees.byId, second.agrees.byId]
  | rotate id owner => simp only [Changes, first.agrees.byId, second.agrees.byId]

theorem perform_keyed (keyed : ∀ p ∈ m.items, p.apiKey ≠ []) (call : Call)
    (env : AccountEnvironment) : ∀ p ∈ (m.perform call env).1.items, p.apiKey ≠ [] := by
  intro p inside
  rcases (perform_draws m call env p inside).2 with ⟨q, old, same⟩ | ⟨value, _, shape⟩
  · rw [same]
    exact keyed q old
  · rw [shape]
    simp [text]

/-- Two stores of the same projects, the second with a file that is loaded as these. -/
structure Mirrors (m : ProjectMap) (s t : State) : Prop where
  first : Simulates s m
  second : Simulates t m
  keyed : ∀ p ∈ m.items, p.apiKey ≠ []
  reloads : ∃ fresh, load (t.files.target.bind parse) t.files = .ok fresh ∧ Simulates fresh m

variable {parse}

theorem Mirrors.stopped (mirrors : Mirrors parse m s t) {call : Call} (env : AccountEnvironment)
    (stop : ¬Changes s call) :
    perform s call env = (s, .returned (m.perform call env).2) ∧
      perform t call env = (t, .returned (m.perform call env).2) := by
  have both (x : State) (related : Simulates x m) (stop : ¬Changes x call) :
      perform x call env = (x, .returned (m.perform call env).2) := by
    rcases perform_reads x call env with ⟨_, reply, ended, undrawn⟩ | ⟨changes, _⟩
    · have step : Step x ⟨call, env, .returned reply⟩ x := ended
      have returned := (related.perform step nofun (by rw [undrawn]; exact nofun)).1
      rw [ended, ← returned]
    · exact absurd changes stop
  exact ⟨both s mirrors.first stop,
    both t mirrors.second (mt (mirrors.first.changes_iff mirrors.second call).mp stop)⟩

variable {call : Call} {env : AccountEnvironment}

theorem Sound.fresh_map (sound : Sound parse s call env) (related : Simulates s m) :
    Fresh m (drawnBy env call) := by
  intro value drawn p inside
  obtain ⟨inside, alive⟩ := related.mem_items.mp inside
  exact sound.fresh value drawn p inside alive

/-- What is sound for a store is sound for every store of the same projects. -/
theorem Sound.transfer (sound : Sound parse s call env) (first : Simulates s m)
    (second : Simulates t m) : Sound parse t call env := by
  have fresh := sound.fresh_map first
  have draws : Fresh m (m.draws call env) := fun value drawn => fresh value (mem_draws drawn)
  refine ⟨sound.yields, ?_, ?_⟩
  · intro value drawn p inside alive
    exact fresh value drawn p (second.mem_items.mpr ⟨inside, alive⟩)
  · have keeps := sound.keeps
    rw [(first.perform_saving call sound.yields draws).encoding] at keeps
    rwa [(second.perform_saving call sound.yields draws).encoding]

/-- A call that gets to a save that succeeds has the reply of the map, and leaves a store of the
new map with a file that is loaded as it. -/
theorem simulates_saves {x : State} (related : Simulates x m)
    (keyed : ∀ p ∈ m.items, p.apiKey ≠ []) (changes : Changes x call) (sound : Sound parse x call env) :
    (perform x call env).2 = .returned (m.perform call env).2 ∧
      Simulates (perform x call env).1 (m.perform call env).1 ∧
      ∃ fresh, load ((perform x call env).1.files.target.bind parse) (perform x call env).1.files =
        .ok fresh ∧ Simulates fresh (m.perform call env).1 := by
  have fresh := sound.fresh_map related
  rcases perform_reads x call env with ⟨stop, _⟩ | ⟨_, ended⟩
  · exact absurd changes stop
  obtain ⟨changed, reply, ended, drawn⟩ := ended sound.yields
  have keeps := sound.keeps
  rw [ended] at keeps
  obtain ⟨bytes, written, read⟩ := saveLocked_keeps keeps changed.files
  have save : perform x call env = ({ changed with files := ⟨some bytes, none⟩ }, .returned reply) := by
    rw [ended, saved, State.save]
    simp only [saved, save_projects] at written
    simp only [written, if_true]
  have step : Step x ⟨call, env, .returned reply⟩ (perform x call env).1 := by
    rw [Step, save]
  obtain ⟨returned, after⟩ := related.perform step (by rintro ⟨⟩) fun value inside =>
    fresh value (drawn value inside)
  refine ⟨by rw [save, ← returned], after, ?_⟩
  have file : (perform x call env).1.files.target.bind parse =
      some (.array ((m.perform call env).1.items.map toJson)) := by
    rw [← after.encoding, save]
    exact read
  rw [file]
  exact after.reload (perform_keyed keyed call env) _

theorem Mirrors.performs (mirrors : Mirrors parse m s t)
    (proper : Changes s call → Sound parse s call env) :
    (perform s call env).2 = (perform t call env).2 ∧
      ∃ next, Mirrors parse next (perform s call env).1 (perform t call env).1 := by
  by_cases changes : Changes s call
  · have sound := proper changes
    obtain ⟨reply, first, _⟩ := simulates_saves mirrors.first mirrors.keyed changes sound
    obtain ⟨same, second, reloads⟩ := simulates_saves mirrors.second mirrors.keyed
      ((mirrors.first.changes_iff mirrors.second call).mpr changes)
      (sound.transfer mirrors.first mirrors.second)
    exact ⟨reply.trans same.symm, _, first, second, perform_keyed mirrors.keyed call env, reloads⟩
  · obtain ⟨first, second⟩ := mirrors.stopped env changes
    rw [first, second]
    exact ⟨rfl, m, mirrors⟩

end Simulation

def Alike (s t : State) : Prop := ∃ m, Mirrors parse m s t

variable {parse}

theorem standsFor : (durable parse).StandsFor (Proper parse) (Alike parse) := by
  constructor
  · rintro s t op ⟨m, mirrors⟩ proper
    have first := mirrors.first.agrees
    have second := mirrors.second.agrees
    cases op with
    | call call env => exact congrArg Answer.called (mirrors.performs proper).1
    | findById id => exact congrArg Answer.found ((first.byId id).trans (second.byId id).symm)
    | findByApiKey key =>
      have same : findByApiKey s key = findByApiKey t key :=
        Option.ext fun p => (first.byApiKey key p).trans (second.byApiKey key p).symm
      exact congrArg Answer.found same
    | listByOwner ownerId =>
      exact congrArg Answer.listed ((first.byOwner ownerId).trans (second.byOwner ownerId).symm)
    | size => exact congrArg Answer.counted (first.size.trans second.size.symm)
  · rintro s t op ⟨m, mirrors⟩ proper
    cases op with
    | call call env => exact (mirrors.performs proper).2
    | findById id => exact ⟨m, mirrors⟩
    | findByApiKey key => exact ⟨m, mirrors⟩
    | listByOwner ownerId => exact ⟨m, mirrors⟩
    | size => exact ⟨m, mirrors⟩
  · rintro s t ⟨m, mirrors⟩
    obtain ⟨fresh, loaded, related⟩ := mirrors.reloads
    have rebuilt : reload parse t = some fresh := by rw [reload, loaded]; rfl
    refine ⟨fresh, rebuilt, m, mirrors.first, related, mirrors.keyed, fresh, ?_, related⟩
    rw [load_files loaded]
    exact loaded

/-- A store that is loaded from a file of projects with ids and keys of their own. -/
theorem load_alike {files : Files} {s : State}
    (loaded : load (files.target.bind parse) files = .ok s)
    (ownId : (s.projects.map Project.id).Nodup) (ownKey : (s.projects.map Project.apiKey).Nodup) :
    Alike parse s s := by
  have related := load_simulates loaded ownId ownKey
  have keyed : ∀ p ∈ s.projects, p.apiKey ≠ [] := by
    apply load_invariant loaded
    · simp [empty]
    · intro s p keyed _ key q inside
      rcases List.mem_append.mp inside with old | new
      · exact keyed q old
      · rwa [List.mem_singleton.mp new]
  refine ⟨_, related, related, keyed, s, ?_, related⟩
  rw [load_files loaded]
  exact loaded

end ProjectStore

/-- Restarts of the account stores, at any points of any operations, are invisible. -/
theorem restarts_invisible (hashPassword : Bytes → Bytes → Option Bytes)
    (parse : Bytes → Option Json) {userFiles projectFiles : Files} {users : UserStore.State}
    {projects : ProjectStore.State}
    (loadedUsers : UserStore.load (userFiles.target.bind parse) userFiles = .ok users)
    (loadedProjects : ProjectStore.load (projectFiles.target.bind parse) projectFiles = .ok projects)
    (ownId : (projects.projects.map Project.id).Nodup)
    (ownKey : (projects.projects.map Project.apiKey).Nodup)
    (userSteps : List (Option UserStore.Op)) (projectSteps : List (Option ProjectStore.Op))
    (properUsers : (UserStore.durable hashPassword parse).Along
      (UserStore.Proper hashPassword parse) users userSteps.reduceOption)
    (properProjects : (ProjectStore.durable parse).Along
      (ProjectStore.Proper parse) projects projectSteps.reduceOption) :
    (UserStore.durable hashPassword parse).answersRestarted users userSteps =
        some ((UserStore.durable hashPassword parse).answers users userSteps.reduceOption) ∧
      (ProjectStore.durable parse).answersRestarted projects projectSteps =
        some ((ProjectStore.durable parse).answers projects projectSteps.reduceOption) :=
  ⟨UserStore.standsFor.answersRestarted (UserStore.load_alike loadedUsers) properUsers,
    ProjectStore.standsFor.answersRestarted
      (ProjectStore.load_alike loadedProjects ownId ownKey) properProjects⟩

def webText : Bytes :=
  text "[\x7b\"api_key\":\"k1\",\"id\":\"p1\",\"name\":\"web\",\"owner_id\":\"alice\"\x7d]"

def readsWeb (bytes : Bytes) : Option Json :=
  if bytes = text "[]" then some (.array [])
  else if bytes = webText then
    some (.array [.object [(text "api_key", .string (text "k1")), (text "id", .string (text "p1")),
      (text "name", .string (text "web")), (text "owner_id", .string (text "alice"))]])
  else none

theorem load_webText :
    ProjectStore.load ((some webText).bind readsWeb) ⟨some webText, none⟩ =
      .ok ((ProjectStore.empty ⟨some webText, none⟩).push ProjectStore.web) := by
  have other : webText ≠ text "[]" := by decide
  have read : readsWeb webText = some (.array [.object [(text "api_key", .string (text "k1")),
      (text "id", .string (text "p1")), (text "name", .string (text "web")),
      (text "owner_id", .string (text "alice"))]]) := by
    rw [readsWeb, if_neg other, if_pos rfl]
  rw [Option.bind_some, read]
  rfl

def emptiedDrawing : AccountEnvironment :=
  { ProjectStore.emptied with
    idDraw := some (Vector.replicate 8 0)
    keyDraw := some (Vector.replicate 16 0) }

/-- The project is deleted between two restarts, and stays away after the second. -/
theorem restarts_invisible_delete :
    (ProjectStore.durable readsWeb).answersRestarted
        ((ProjectStore.empty ⟨some webText, none⟩).push ProjectStore.web)
        [none, some (.call (.delete (text "p1") (text "alice")) emptiedDrawing), none, some .size] =
      some ((ProjectStore.durable readsWeb).answers
        ((ProjectStore.empty ⟨some webText, none⟩).push ProjectStore.web)
        [.call (.delete (text "p1") (text "alice")) emptiedDrawing, .size]) := by
  let s := (ProjectStore.empty ⟨some webText, none⟩).push ProjectStore.web
  have untouched : UserStore.load ((Files.mk none none).target.bind readsWeb) ⟨none, none⟩ =
      .ok (UserStore.empty ⟨none, none⟩) := rfl
  have web : ProjectStore.load ((Files.mk (some webText) none).target.bind readsWeb)
      ⟨some webText, none⟩ = .ok s := load_webText
  have sound : ProjectStore.Sound readsWeb s (.delete (text "p1") (text "alice")) emptiedDrawing := by
    refine ⟨⟨rfl, rfl⟩, nofun, text "[]", rfl, if_pos rfl, rfl, ?_, rfl⟩
    exact le_refl 2
  exact (restarts_invisible (fun _ _ => none) readsWeb untouched web
    (List.nodup_singleton (text "p1")) (List.nodup_singleton (text "k1")) []
    [none, some (.call (.delete (text "p1") (text "alice")) emptiedDrawing), none, some .size]
    trivial ⟨fun _ => sound, trivial, trivial⟩).2

end LogMonitor
