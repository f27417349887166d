import LogMonitor.ProjectStoreRun
import LogMonitor.UserStore

/-!
Calls of the account stores that do not report success. Everything in memory is
changed before the save, the save is the step that may throw, and what was
changed is not taken back.
-/

namespace LogMonitor
open Library Library.ByteString Library.Transition AuthManager

namespace UserStore

structure SameAnswers (s t : State) : Prop where
  byEmail : ∀ email, findByEmail s email = findByEmail t email
  byId : ∀ id, findById s id = findById t id
  size : size s = size t

theorem SameAnswers.refl (s : State) : SameAnswers s s :=
  ⟨fun _ => rfl, fun _ => rfl, rfl⟩

def registered : Outcome (Except Bytes User) → Bool
  | .returned (.ok _) => true
  | _ => false

def Enters (hashPassword : Bytes → Bytes → Option Bytes) (s : State) (email password : Bytes)
    (env : AccountEnvironment) : Prop :=
  email ≠ [] ∧ 8 ≤ password.length ∧ s.byEmail email = none ∧
    ∃ id salt hash, env.idDraw = some id ∧ env.keyDraw = some salt ∧
      hashPassword password (randomHex salt) = some hash

theorem push_save_not_same (s : State) (u : User) (env : AccountEnvironment) :
    ¬SameAnswers s ((s.push u).save env).1 := by
  intro same
  have counted : s.users.length = (s.users ++ [u]).length := same.size
  rw [List.length_append] at counted
  exact Nat.ne_of_lt (Nat.lt_succ_self _) counted

def entered (s : State) (u : User) (env : AccountEnvironment) : State × Outcome (Except Bytes User) :=
  (((s.push u).save env).1, if ((s.push u).save env).2 then .returned (.ok u) else .threw)

/-- Of the state, a registration reads only which emails are taken. -/
theorem registerUser_reads (hashPassword : Bytes → Bytes → Option Bytes)
    (byEmail : Bytes → Option Nat) (email password : Bytes) (env : AccountEnvironment) :
    (∃ outcome, ∀ s : State, s.byEmail = byEmail → ¬Enters hashPassword s email password env ∧
      registerUser hashPassword s email password env = (s, outcome)) ∨
    ∃ u : User, u.id ≠ [] ∧ u.email ≠ [] ∧ ∀ s : State, s.byEmail = byEmail →
      Enters hashPassword s email password env ∧
        registerUser hashPassword s email password env = entered s u env := by
  unfold registerUser
  by_cases missing : email = [] ∨ password = []
  · refine .inl ⟨_, fun s _ => ⟨?_, if_pos missing⟩⟩
    rintro ⟨given, long, _⟩
    rcases missing with rfl | rfl
    · exact given rfl
    · simp at long
  by_cases short : password.length < 8
  · refine .inl ⟨_, fun s _ => ⟨?_, by rw [if_neg missing, if_pos short]⟩⟩
    rintro ⟨_, long, _⟩
    omega
  by_cases taken : (byEmail email).isSome
  · refine .inl ⟨.returned (.error (text "Email already registered")), fun s same => ⟨?_, ?_⟩⟩
    · rintro ⟨_, _, free, _⟩
      simp [← same, free] at taken
    · rw [if_neg missing, if_neg short, same, if_pos taken]
  simp only [if_neg missing, if_neg short]
  cases idDraw : env.idDraw with
  | none => exact .inl ⟨.threw, fun s same => ⟨by simp [Enters, idDraw], by simp [same, taken]⟩⟩
  | some id =>
    cases saltDraw : env.keyDraw with
    | none => exact .inl ⟨.threw, fun s same => ⟨by simp [Enters, saltDraw], by simp [same, taken]⟩⟩
    | some salt =>
      cases hashed : hashPassword password (randomHex salt) with
      | none =>
        exact .inl ⟨.threw, fun s same =>
          ⟨by simp [Enters, saltDraw, hashed], by simp [same, taken, hashed]⟩⟩
      | some hash =>
        have given : email ≠ [] := fun absent => missing (.inl absent)
        refine .inr ⟨⟨randomHex id, email, hash, randomHex salt, env.now⟩, randomHex_ne_nil id, given,
          fun s same => ⟨⟨given, Nat.le_of_not_lt short, ?_, id, salt, hash, idDraw, saltDraw, hashed⟩, ?_⟩⟩
        · rw [same]
          simpa using taken
        · rw [same, if_neg taken]
          simp only [hashed, entered]
          split
          next done => rw [done, if_pos rfl]
          next done => rw [done, if_neg nofun]

/-- A registration is refused or fails with the state as it was, or it gets to the save with the
account entered. -/
theorem registerUser_cases (hashPassword : Bytes → Bytes → Option Bytes) (s : State)
    (email password : Bytes) (env : AccountEnvironment) :
    (¬Enters hashPassword s email password env ∧
      (registerUser hashPassword s email password env).1 = s) ∨
    (Enters hashPassword s email password env ∧
      ∃ u, (registerUser hashPassword s email password env).1 = ((s.push u).save env).1) := by
  rcases registerUser_reads hashPassword s.byEmail email password env with
    ⟨outcome, refused⟩ | ⟨u, _, _, saved⟩
  · obtain ⟨stays, same⟩ := refused s rfl
    exact .inl ⟨stays, by rw [same]⟩
  · obtain ⟨enters, same⟩ := saved s rfl
    exact .inr ⟨enters, u, by rw [same, entered]⟩

/-- A registration leaves the answers alone if and only if it enters nothing. -/
theorem registerUser_same_iff (hashPassword : Bytes → Bytes → Option Bytes) (s : State)
    (email password : Bytes) (env : AccountEnvironment) :
    SameAnswers s (registerUser hashPassword s email password env).1 ↔
      ¬Enters hashPassword s email password env := by
  rcases registerUser_cases hashPassword s email password env with
    ⟨outside, same⟩ | ⟨entered, u, pushed⟩
  · rw [same]
    exact iff_of_true (.refl s) outside
  · rw [pushed]
    exact iff_of_false (push_save_not_same s u env) (not_not_intro entered)

end UserStore

namespace ProjectStore

structure SameAnswers (s t : State) : Prop where
  byId : ∀ id, findById s id = findById t id
  byApiKey : ∀ key, findByApiKey s key = findByApiKey t key
  byOwner : ∀ ownerId, listByOwner s ownerId = listByOwner t ownerId
  size : size s = size t

theorem SameAnswers.refl (s : State) : SameAnswers s s :=
  ⟨fun _ => rfl, fun _ => rfl, fun _ => rfl, rfl⟩

/-- The outcomes that report success: no error, no empty text of an error, no empty key. -/
def succeeded : Outcome Reply → Bool
  | .returned (.created (.ok _)) => true
  | .returned (.deleted error) => error = []
  | .returned (.rotated key) => key ≠ []
  | _ => false

/-- A rotation that draws nothing new: the old key was not in use anyway, or it is
drawn again. -/
def KeepsKey (s : State) (p : Project) : Option (Vector UInt8 16) → Prop
  | none => findByApiKey s p.apiKey = none
  | some drawn => apiKeyOf drawn = p.apiKey ∧ findByApiKey s p.apiKey = some p

def Spoils (s : State) (env : AccountEnvironment) : Call → Prop
  | .create name ownerId =>
    name ≠ [] ∧ ownerId ≠ [] ∧ env.idDraw ≠ none ∧ env.keyDraw ≠ none
  | .delete id owner => ∃ idx p, s.locate id = some (idx, p) ∧ p.ownerId = owner
  | .rotate id owner =>
    ∃ idx p, s.locate id = some (idx, p) ∧ p.ownerId = owner ∧ ¬KeepsKey s p env.keyDraw

theorem findById_of_locate {s : State} {id : Bytes} {idx : Nat} {p : Project}
    (located : s.locate id = some (idx, p)) : findById s id = some p := by
  obtain ⟨entered, present⟩ := locate_eq_some.mp located
  simp only [findById, entered, Option.bind_eq_bind, Option.bind_some, present]

theorem push_save_not_same (s : State) (p : Project) (env : AccountEnvironment)
    (named : p.id ≠ []) : ¬SameAnswers s ((s.push p).save env).1 := by
  intro same
  have counted : s.projects.countP Project.live = (s.projects ++ [p]).countP Project.live :=
    same.size
  rw [List.countP_append, List.countP_singleton, if_pos (by simpa [Project.live] using named)] at counted
  exact Nat.ne_of_lt (Nat.lt_succ_self _) counted

theorem remove_save_not_same {s : State} {id : Bytes} {idx : Nat} {p : Project}
    (located : s.locate id = some (idx, p)) (env : AccountEnvironment) :
    ¬SameAnswers s ((s.remove id idx p).save env).1 := by
  intro same
  have gone : findById ((s.remove id idx p).save env).1 id = none := by
    simp [findById, State.remove]
  have found := same.byId id
  rw [findById_of_locate located, gone] at found
  cases found

theorem eraseKey_same_iff (s : State) (p : Project) :
    SameAnswers s (s.eraseKey p) ↔ findByApiKey s p.apiKey = none := by
  have erased : findByApiKey (s.eraseKey p) p.apiKey = none := by
    simp [findByApiKey, State.eraseKey]
  constructor
  · intro same
    rw [same.byApiKey p.apiKey, erased]
  · intro unused
    refine ⟨fun _ => rfl, ?_, fun _ => rfl, rfl⟩
    intro key
    by_cases old : key = p.apiKey
    · rw [old, unused, erased]
    · simp only [findByApiKey, State.eraseKey, Function.update_of_ne old]

/-- A key that was replaced is seen by its project's id, and a key that was drawn again
must have led to the project before. -/
theorem setKey_same_iff {s : State} {id : Bytes} {idx : Nat} {p : Project}
    (located : s.locate id = some (idx, p)) (key : Bytes) (env : AccountEnvironment) :
    SameAnswers s (((s.eraseKey p).setKey idx p key).save env).1 ↔
      key = p.apiKey ∧ findByApiKey s p.apiKey = some p := by
  obtain ⟨entered, present⟩ := locate_eq_some.mp located
  obtain ⟨inside, same⟩ := List.getElem?_eq_some_iff.mp present
  have found : findById (((s.eraseKey p).setKey idx p key).save env).1 id =
      some { p with apiKey := key } := by
    simp [findById, State.setKey, State.eraseKey, entered, inside]
  have resolved : findByApiKey (((s.eraseKey p).setKey idx p key).save env).1 key =
      some { p with apiKey := key } := by
    simp [findByApiKey, State.setKey, State.eraseKey, inside]
  constructor
  · intro unchanged
    have shape := unchanged.byId id
    rw [findById_of_locate located, found, Option.some.injEq] at shape
    have again : key = p.apiKey := (congrArg Project.apiKey shape).symm
    refine ⟨again, ?_⟩
    rw [← again, unchanged.byApiKey key, resolved, ← shape]
  · rintro ⟨rfl, led⟩
    have vector : s.projects.set idx p = s.projects := by
      rw [← same]
      exact List.set_getElem_self inside
    refine ⟨?_, ?_, ?_, ?_⟩
    · intro other
      simp only [findById, save_projects, save_byId, State.setKey, State.eraseKey, vector]
    · intro other
      by_cases old : other = p.apiKey
      · rw [old, led, resolved]
      · simp only [findByApiKey, save_projects, save_byApiKey, State.setKey, State.eraseKey, vector,
          Function.update_of_ne old]
    · intro owner
      simp only [listByOwner, save_projects, save_byOwner, State.setKey, State.eraseKey, vector]
    · simp only [size, save_projects, State.setKey, State.eraseKey, vector]

/-- A call leaves the answers alone if and only if it changes nothing they see. -/
theorem perform_same_iff (s : State) (call : Call) (env : AccountEnvironment) :
    SameAnswers s (perform s call env).1 ↔ ¬Spoils s env call := by
  cases call with
  | create name ownerId =>
    rcases createProject_cases s name ownerId env with
      ⟨unnamed, ended⟩ | ⟨_, unowned, ended⟩ | ⟨named, owned, undrawn, ended⟩ |
        ⟨id, key, named, owned, idDraw, keyDraw, ended⟩
    · have outside : ¬Spoils s env (.create name ownerId) := fun spoils => spoils.1 unnamed
      simp only [perform, ended]
      exact iff_of_true (.refl s) outside
    · have outside : ¬Spoils s env (.create name ownerId) := fun spoils => spoils.2.1 unowned
      simp only [perform, ended]
      exact iff_of_true (.refl s) outside
    · have outside : ¬Spoils s env (.create name ownerId) := by
        rintro ⟨_, _, idDrawn, keyDrawn⟩
        exact undrawn.elim idDrawn keyDrawn
      simp only [perform, ended]
      exact iff_of_true (.refl s) outside
    · have entered : Spoils s env (.create name ownerId) := by
        simp [Spoils, named, owned, idDraw, keyDraw]
      simp only [perform, ended, saved]
      exact iff_of_false (push_save_not_same s _ env (randomHex_ne_nil id)) (not_not_intro entered)
  | delete id owner =>
    rcases deleteProject_cases s id owner env with
      ⟨unknown, ended⟩ | ⟨idx, p, located, ⟨foreign, ended⟩ | ⟨own, ended⟩⟩
    · have outside : ¬Spoils s env (.delete id owner) := by simp [Spoils, unknown]
      simp only [perform, ended]
      exact iff_of_true (.refl s) outside
    · have outside : ¬Spoils s env (.delete id owner) := by
        simp [Spoils, located, foreign]
      simp only [perform, ended]
      exact iff_of_true (.refl s) outside
    · have removed : Spoils s env (.delete id owner) := ⟨idx, p, located, own⟩
      simp only [perform, ended, saved]
      exact iff_of_false (remove_save_not_same located env) (not_not_intro removed)
  | rotate id owner =>
    rcases rotateApiKey_cases s id owner env with
      ⟨unknown, ended⟩ | ⟨idx, p, located, ⟨foreign, ended⟩ | ⟨own, undrawn, ended⟩ |
        ⟨drawn, own, keyDraw, ended⟩⟩
    · have outside : ¬Spoils s env (.rotate id owner) := by simp [Spoils, unknown]
      simp only [perform, ended]
      exact iff_of_true (.refl s) outside
    · have outside : ¬Spoils s env (.rotate id owner) := by
        simp [Spoils, located, foreign]
      simp only [perform, ended]
      exact iff_of_true (.refl s) outside
    · have spoils : Spoils s env (.rotate id owner) ↔ ¬KeepsKey s p none := by
        simp [Spoils, located, own, undrawn]
      rw [spoils, not_not]
      simpa only [perform, ended, KeepsKey] using eraseKey_same_iff s p
    · have spoils : Spoils s env (.rotate id owner) ↔ ¬KeepsKey s p (some drawn) := by
        simp [Spoils, located, own, keyDraw]
      rw [spoils, not_not]
      simpa only [perform, ended, saved, KeepsKey] using setKey_same_iff located (apiKeyOf drawn) env

end ProjectStore

structure Accounts where
  users : UserStore.State
  projects : ProjectStore.State

namespace Accounts

inductive Call where
  | registerUser (email password : Bytes)
  | project (call : ProjectStore.Call)

def perform (hashPassword : Bytes → Bytes → Option Bytes) (s : Accounts) (call : Call)
    (env : AccountEnvironment) : Accounts × Bool :=
  match call with
  | .registerUser email password =>
    let (users, outcome) := UserStore.registerUser hashPassword s.users email password env
    ({ s with users := users }, UserStore.registered outcome)
  | .project call =>
    let (projects, outcome) := ProjectStore.perform s.projects call env
    ({ s with projects := projects }, ProjectStore.succeeded outcome)

structure SameAnswers (s t : Accounts) : Prop where
  users : UserStore.SameAnswers s.users t.users
  projects : ProjectStore.SameAnswers s.projects t.projects

def Spoils (hashPassword : Bytes → Bytes → Option Bytes) (s : Accounts) (env : AccountEnvironment) :
    Call → Prop
  | .registerUser email password => UserStore.Enters hashPassword s.users email password env
  | .project call => ProjectStore.Spoils s.projects env call

/-- In every state, a call that does not report success leaves every answer as it was if and
only if it stopped before its first change that the lookups see. -/
theorem failed_call_unchanged_iff (hashPassword : Bytes → Bytes → Option Bytes) (s : Accounts)
    (call : Call) (env : AccountEnvironment) (failed : (perform hashPassword s call env).2 = false) :
    SameAnswers s (perform hashPassword s call env).1 ↔ ¬Spoils hashPassword s env call := by
  cases call with
  | registerUser email password =>
    have users := UserStore.registerUser_same_iff hashPassword s.users email password env
    constructor
    · intro same
      exact users.mp same.users
    · intro harmless
      exact ⟨users.mpr harmless, .refl _⟩
  | project call =>
    have projects := ProjectStore.perform_same_iff s.projects call env
    constructor
    · intro same
      exact projects.mp same.projects
    · intro harmless
      exact ⟨.refl _, projects.mpr harmless⟩

def loaded : Accounts := ⟨UserStore.empty ⟨none, none⟩, ProjectStore.webStore⟩

def noRename : AccountEnvironment where
  idDraw := some (Vector.replicate 8 0)
  keyDraw := some (Vector.replicate 16 0)
  now := 0
  disk := ⟨true, 1000, false⟩
  dump := fun _ => some (text "[\n  \x7b\n    \"api_key\": \"lm_proj_" ++ List.replicate 32 48 ++
    text "\",\n    \"created_at_ns\": 0,\n    \"id\": \"p1\",\n    \"name\": \"web\",\n" ++
    text "    \"owner_id\": \"alice\"\n  \x7d\n]")

theorem failed_call_unchanged_iff_stranger :
    SameAnswers loaded
      (perform (fun _ _ => none) loaded (.project (.rotate (text "p1") (text "bob"))) noRename).1 := by
  apply (failed_call_unchanged_iff (fun _ _ => none) loaded
    (.project (.rotate (text "p1") (text "bob"))) noRename (by decide)).mpr
  rintro ⟨idx, p, located, own, _⟩
  have first : loaded.projects.locate (text "p1") = some (0, ProjectStore.web) := by decide
  rw [first] at located
  cases located
  exact absurd own (by decide)

/-- The rotation throws, and the key the owner still has resolves no longer. -/
theorem failed_rotation_locks_out :
    (perform (fun _ _ => none) loaded (.project (.rotate (text "p1") (text "alice"))) noRename).2 =
        false ∧
      ¬SameAnswers loaded
        (perform (fun _ _ => none) loaded (.project (.rotate (text "p1") (text "alice")))
          noRename).1 := by
  refine ⟨by decide, ?_⟩
  intro same
  have resolved := same.projects.byApiKey (text "k1")
  revert resolved
  decide

end Accounts

end LogMonitor
