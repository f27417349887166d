import LogMonitor.Library.Transition
import LogMonitor.ProjectStore

/-!
The calls that change the project store, as one transition system. The positions
its maps hold always lie inside the vector, so a lookup that finds a position
finds a project there.
-/

namespace LogMonitor.ProjectStore
open Library Library.ByteString Library.Transition AuthManager

inductive Call where
  | create (name ownerId : Bytes)
  | delete (id requestingOwnerId : Bytes)
  | rotate (id requestingOwnerId : Bytes)
deriving DecidableEq

inductive Reply where
  | created (result : Except Bytes Project)
  /-- The text of the error, empty on success. -/
  | deleted (error : Bytes)
  /-- The new key, empty on failure. -/
  | rotated (key : Bytes)

def perform (s : State) (call : Call) (env : AccountEnvironment) : State × Outcome Reply :=
  match call with
  | .create name ownerId =>
    let (s, outcome) := createProject s name ownerId env
    (s, outcome.map .created)
  | .delete id requestingOwnerId =>
    let (s, outcome) := deleteProject s id requestingOwnerId env
    (s, outcome.map .deleted)
  | .rotate id requestingOwnerId =>
    let (s, outcome) := rotateApiKey s id requestingOwnerId env
    (s, outcome.map .rotated)

structure Event where
  call : Call
  env : AccountEnvironment
  outcome : Outcome Reply

def Step (s : State) (event : Event) (t : State) : Prop :=
  perform s event.call event.env = (t, event.outcome)

@[simp] theorem save_projects (s : State) (env : AccountEnvironment) :
    (s.save env).1.projects = s.projects := rfl

@[simp] theorem save_byId (s : State) (env : AccountEnvironment) :
    (s.save env).1.byId = s.byId := rfl

@[simp] theorem save_byApiKey (s : State) (env : AccountEnvironment) :
    (s.save env).1.byApiKey = s.byApiKey := rfl

@[simp] theorem save_byOwner (s : State) (env : AccountEnvironment) :
    (s.save env).1.byOwner = s.byOwner := rfl

/-- What a call gives back once it has come as far as the save. -/
def saved {α : Type} (s : State) (env : AccountEnvironment) (value : α) : State × Outcome α :=
  ((s.save env).1, if (s.save env).2 then .returned value else .threw)

theorem match_save {α : Type} (s : State) (env : AccountEnvironment) (value : α) :
    (match s.save env with
      | (s, true) => (s, Outcome.returned value)
      | (s, false) => (s, Outcome.threw)) = saved s env value := by
  unfold saved
  split
  next done => rw [done]; rfl
  next done => rw [done]; rfl

/-- A creation ends at a guard, at the draws or with the save. -/
theorem createProject_cases (s : State) (name ownerId : Bytes) (env : AccountEnvironment) :
    (name = [] ∧ createProject s name ownerId env =
      (s, .returned (.error (text "Project name is required")))) ∨
    (name ≠ [] ∧ ownerId = [] ∧ createProject s name ownerId env =
      (s, .returned (.error (text "Owner ID is required")))) ∨
    (name ≠ [] ∧ ownerId ≠ [] ∧ (env.idDraw = none ∨ env.keyDraw = none) ∧
      createProject s name ownerId env = (s, .threw)) ∨
    ∃ id key, name ≠ [] ∧ ownerId ≠ [] ∧ env.idDraw = some id ∧ env.keyDraw = some key ∧
      createProject s name ownerId env =
        let p : Project := ⟨randomHex id, name, ownerId, apiKeyOf key, env.now⟩
        saved (s.push p) env (.ok p) := by
  unfold createProject
  by_cases unnamed : name = []
  · exact .inl ⟨unnamed, if_pos unnamed⟩
  by_cases unowned : ownerId = []
  · exact .inr (.inl ⟨unnamed, unowned, by rw [if_neg unnamed, if_pos unowned]⟩)
  rw [if_neg unnamed, if_neg unowned]
  right
  right
  cases idDraw : env.idDraw with
  | none => exact .inl ⟨unnamed, unowned, .inl rfl, rfl⟩
  | some id =>
    cases keyDraw : env.keyDraw with
    | none => exact .inl ⟨unnamed, unowned, .inr rfl, rfl⟩
    | some key =>
      exact .inr ⟨id, key, unnamed, unowned, rfl, rfl, match_save ..⟩

theorem locate_eq_some {s : State} {id : Bytes} {idx : Nat} {p : Project} :
    s.locate id = some (idx, p) ↔ s.byId id = some idx ∧ s.projects[idx]? = some p := by
  simp only [State.locate, Option.bind_eq_bind, Option.pure_def, Option.bind_eq_some_iff,
    Option.some.injEq, Prod.mk.injEq]
  constructor
  · rintro ⟨_, entered, _, present, rfl, rfl⟩
    exact ⟨entered, present⟩
  · rintro ⟨entered, present⟩
    exact ⟨idx, entered, p, present, rfl, rfl⟩

theorem deleteProject_cases (s : State) (id owner : Bytes) (env : AccountEnvironment) :
    (s.locate id = none ∧
      deleteProject s id owner env = (s, .returned (text "Project not found"))) ∨
    ∃ idx p, s.locate id = some (idx, p) ∧
      ((p.ownerId ≠ owner ∧ deleteProject s id owner env = (s, .returned (text "Not your project"))) ∨
        (p.ownerId = owner ∧ deleteProject s id owner env = saved (s.remove id idx p) env [])) := by
  unfold deleteProject
  cases located : s.locate id with
  | none => exact .inl ⟨rfl, rfl⟩
  | some entry =>
    obtain ⟨idx, p⟩ := entry
    refine .inr ⟨idx, p, rfl, ?_⟩
    by_cases own : p.ownerId = owner
    · refine .inr ⟨own, ?_⟩
      simp only [own, ne_eq, not_true_eq_false, if_false]
      exact match_save ..
    · exact .inl ⟨own, if_pos own⟩

/-- A rotation ends at a guard, at the draw with the old key gone, or with the save. -/
theorem rotateApiKey_cases (s : State) (id owner : Bytes) (env : AccountEnvironment) :
    (s.locate id = none ∧ rotateApiKey s id owner env = (s, .returned [])) ∨
    ∃ idx p, s.locate id = some (idx, p) ∧
      ((p.ownerId ≠ owner ∧ rotateApiKey s id owner env = (s, .returned [])) ∨
        (p.ownerId = owner ∧ env.keyDraw = none ∧
          rotateApiKey s id owner env = (s.eraseKey p, .threw)) ∨
        ∃ drawn, p.ownerId = owner ∧ env.keyDraw = some drawn ∧
          rotateApiKey s id owner env =
            saved ((s.eraseKey p).setKey idx p (apiKeyOf drawn)) env (apiKeyOf drawn)) := by
  unfold rotateApiKey
  cases located : s.locate id with
  | none => exact .inl ⟨rfl, rfl⟩
  | some entry =>
    obtain ⟨idx, p⟩ := entry
    refine .inr ⟨idx, p, rfl, ?_⟩
    by_cases own : p.ownerId = owner
    · right
      cases draw : env.keyDraw with
      | none => exact .inl ⟨own, rfl, if_neg (not_not_intro own)⟩
      | some drawn =>
        refine .inr ⟨drawn, own, rfl, ?_⟩
        simp only [own, ne_eq, not_true_eq_false, if_false]
        exact match_save ..
    · exact .inl ⟨own, if_pos own⟩

structure State.InBounds (s : State) : Prop where
  byId : ∀ id idx, s.byId id = some idx → idx < s.projects.length
  byApiKey : ∀ key idx, s.byApiKey key = some idx → idx < s.projects.length
  byOwner : ∀ owner, ∀ idx ∈ s.byOwner owner, idx < s.projects.length

theorem update_inBounds {bound : Nat} {map : Bytes → Option Nat} {key : Bytes} {value : Option Nat}
    (inside : ∀ other idx, map other = some idx → idx < bound)
    (new : ∀ idx, value = some idx → idx < bound) (other : Bytes) (idx : Nat)
    (entered : Function.update map key value other = some idx) : idx < bound := by
  by_cases same : other = key
  · subst other
    rw [Function.update_self] at entered
    exact new idx entered
  · rw [Function.update_of_ne same] at entered
    exact inside other idx entered

theorem State.InBounds.push {s : State} (inside : s.InBounds) (p : Project) :
    (s.push p).InBounds := by
  have length : (s.push p).projects.length = s.projects.length + 1 := by
    simp [State.push]
  have last : ∀ idx, some s.projects.length = some idx → idx < s.projects.length + 1 := by
    intro idx same
    cases same
    exact Nat.lt_succ_self _
  constructor
  · rw [length]
    apply update_inBounds _ last
    intro id idx entered
    exact (inside.byId id idx entered).trans (Nat.lt_succ_self _)
  · rw [length]
    apply update_inBounds _ last
    intro key idx entered
    exact (inside.byApiKey key idx entered).trans (Nat.lt_succ_self _)
  · rw [length]
    intro owner idx listed
    by_cases same : owner = p.ownerId
    · subst owner
      simp only [State.push, Function.update_self, List.mem_append, List.mem_singleton] at listed
      rcases listed with listed | rfl
      · exact (inside.byOwner _ _ listed).trans (Nat.lt_succ_self _)
      · exact Nat.lt_succ_self _
    · simp only [State.push, Function.update_of_ne same] at listed
      exact (inside.byOwner _ _ listed).trans (Nat.lt_succ_self _)

theorem State.InBounds.remove {s : State} (inside : s.InBounds) (id : Bytes) (idx : Nat)
    (p : Project) : (s.remove id idx p).InBounds := by
  have length : (s.remove id idx p).projects.length = s.projects.length := List.length_set
  constructor
  · rw [length]
    exact update_inBounds inside.byId (by simp)
  · rw [length]
    exact update_inBounds inside.byApiKey (by simp)
  · rw [length]
    intro owner other listed
    by_cases same : owner = p.ownerId
    · subst owner
      simp only [State.remove, Function.update_self] at listed
      exact inside.byOwner _ _ (List.mem_of_mem_filter listed)
    · simp only [State.remove, Function.update_of_ne same] at listed
      exact inside.byOwner _ _ listed

theorem State.InBounds.eraseKey {s : State} (inside : s.InBounds) (p : Project) :
    (s.eraseKey p).InBounds :=
  ⟨inside.byId, update_inBounds inside.byApiKey (by simp), inside.byOwner⟩

theorem State.InBounds.setKey {s : State} (inside : s.InBounds) (idx : Nat) (p : Project)
    (key : Bytes) (present : idx < s.projects.length) : (s.setKey idx p key).InBounds := by
  have length : (s.setKey idx p key).projects.length = s.projects.length := List.length_set
  constructor
  · rw [length]
    exact inside.byId
  · rw [length]
    apply update_inBounds inside.byApiKey
    intro other same
    cases same
    exact present
  · rw [length]
    exact inside.byOwner

theorem State.InBounds.save {s : State} (inside : s.InBounds) (env : AccountEnvironment) :
    (s.save env).1.InBounds :=
  ⟨inside.byId, inside.byApiKey, inside.byOwner⟩

theorem perform_inBounds {s : State} (inside : s.InBounds) (call : Call)
    (env : AccountEnvironment) : (perform s call env).1.InBounds := by
  cases call with
  | create name ownerId =>
    rcases createProject_cases s name ownerId env with
      ⟨_, same⟩ | ⟨_, _, same⟩ | ⟨_, _, _, same⟩ | ⟨id, key, _, _, _, _, same⟩
    · simpa only [perform, same] using inside
    · simpa only [perform, same] using inside
    · simpa only [perform, same] using inside
    · simpa only [perform, same, saved] using (inside.push _).save env
  | delete id owner =>
    rcases deleteProject_cases s id owner env with
      ⟨_, same⟩ | ⟨idx, p, _, ⟨_, same⟩ | ⟨_, same⟩⟩
    · simpa only [perform, same] using inside
    · simpa only [perform, same] using inside
    · simpa only [perform, same, saved] using (inside.remove id idx p).save env
  | rotate id owner =>
    rcases rotateApiKey_cases s id owner env with
      ⟨_, same⟩ | ⟨idx, p, located, ⟨_, same⟩ | ⟨_, _, same⟩ | ⟨drawn, _, _, same⟩⟩
    · simpa only [perform, same] using inside
    · simpa only [perform, same] using inside
    · simpa only [perform, same] using inside.eraseKey p
    · have present : idx < s.projects.length := inside.byId id idx (locate_eq_some.mp located).1
      simpa only [perform, same, saved] using ((inside.eraseKey p).setKey idx p _ present).save env

theorem loadRecords_invariant {holds : State → Prop}
    (push : ∀ s p, holds s → p.id ≠ [] → p.apiKey ≠ [] → holds (s.push p))
    {records : List Json} {s t : State} (before : holds s)
    (loaded : loadRecords records s = .ok t) : holds t := by
  induction records generalizing s with
  | nil =>
    cases loaded
    exact before
  | cons json records ih =>
    cases read : ofJson json with
    | error error => simp [loadRecords, read, bind, Except.bind] at loaded
    | ok p =>
      simp only [loadRecords, read, bind, Except.bind] at loaded
      split at loaded
      next => exact ih before loaded
      next complete =>
        obtain ⟨named, keyed⟩ := not_or.mp complete
        exact ih (push s p before named keyed) loaded

/-- What holds of the store without a project and is kept by a push holds of what is loaded. -/
theorem load_invariant {holds : State → Prop} {parsed : Option Json} {files : Files} {s : State}
    (loaded : load parsed files = .ok s) (initially : holds (empty files))
    (push : ∀ s p, holds s → p.id ≠ [] → p.apiKey ≠ [] → holds (s.push p)) : holds s := by
  unfold load at loaded
  split at loaded
  · exact loadRecords_invariant push initially loaded
  · cases loaded
    exact initially

theorem load_inBounds {parsed : Option Json} {files : Files} {s : State}
    (loaded : load parsed files = .ok s) : s.InBounds := by
  apply load_invariant loaded
  · constructor <;> simp [empty]
  · exact fun _ p inside _ _ => inside.push p

/-- No call of any run reads past the end of the vector. -/
theorem run_inBounds {parsed : Option Json} {files : Files} {s t : State} {events : List Event}
    (loaded : load parsed files = .ok s) (run : Run Step s events t) : t.InBounds := by
  apply Run.invariant (fun _ t => t.InBounds) (load_inBounds loaded) _ run
  intro _ current event next _ inside step
  have after := perform_inBounds inside event.call event.env
  rw [step] at after
  exact after

/-- The maps point to projects with the id, or the owner, that they are asked for. -/
structure State.Indexed (s : State) : Prop where
  byId : ∀ id idx, s.byId id = some idx → ∃ p, s.projects[idx]? = some p ∧ p.id = id
  byOwner : ∀ owner, ∀ idx ∈ s.byOwner owner, ∃ p, s.projects[idx]? = some p ∧ p.ownerId = owner

theorem State.Indexed.push {s : State} (indexed : s.Indexed) (p : Project) :
    (s.push p).Indexed := by
  have last : (s.push p).projects[s.projects.length]? = some p := List.getElem?_concat_length
  have old : ∀ (idx : Nat) (q : Project), s.projects[idx]? = some q →
      (s.push p).projects[idx]? = some q := by
    intro idx q there
    have inside : idx < s.projects.length := (List.getElem?_eq_some_iff.mp there).1
    exact (List.getElem?_append_left inside).trans there
  constructor
  · intro id idx entered
    by_cases same : id = p.id
    · subst id
      simp only [State.push, Function.update_self, Option.some.injEq] at entered
      subst idx
      exact ⟨p, last, rfl⟩
    · simp only [State.push, Function.update_of_ne same] at entered
      obtain ⟨q, there, named⟩ := indexed.byId id idx entered
      exact ⟨q, old idx q there, named⟩
  · intro owner idx listed
    by_cases same : owner = p.ownerId
    · subst owner
      simp only [State.push, Function.update_self, List.mem_append, List.mem_singleton] at listed
      rcases listed with listed | rfl
      · obtain ⟨q, there, owned⟩ := indexed.byOwner _ idx listed
        exact ⟨q, old idx q there, owned⟩
      · exact ⟨p, last, rfl⟩
    · simp only [State.push, Function.update_of_ne same] at listed
      obtain ⟨q, there, owned⟩ := indexed.byOwner owner idx listed
      exact ⟨q, old idx q there, owned⟩

theorem State.Indexed.owner_set {s : State} (indexed : s.Indexed) {idx : Nat} {p q : Project}
    (there : s.projects[idx]? = some p) (same : q.ownerId = p.ownerId) {owner : Bytes} {other : Nat}
    (listed : other ∈ s.byOwner owner) :
    ∃ r, (s.projects.set idx q)[other]? = some r ∧ r.ownerId = owner := by
  obtain ⟨r, found, owned⟩ := indexed.byOwner owner other listed
  by_cases here : idx = other
  · subst other
    have inside : idx < s.projects.length := (List.getElem?_eq_some_iff.mp there).1
    obtain rfl : p = r := Option.some.inj (there.symm.trans found)
    exact ⟨q, List.getElem?_set_self inside, same.trans owned⟩
  · exact ⟨r, (List.getElem?_set_ne here).trans found, owned⟩

theorem State.Indexed.remove {s : State} (indexed : s.Indexed) {id : Bytes} {idx : Nat}
    {p : Project} (located : s.locate id = some (idx, p)) : (s.remove id idx p).Indexed := by
  obtain ⟨entered, there⟩ := locate_eq_some.mp located
  constructor
  · intro other i found
    have different : other ≠ id := by
      rintro rfl
      simp [State.remove] at found
    simp only [State.remove, Function.update_of_ne different] at found
    obtain ⟨q, present, named⟩ := indexed.byId other i found
    have apart : idx ≠ i := by
      rintro rfl
      obtain rfl : p = q := Option.some.inj (there.symm.trans present)
      obtain ⟨r, present, own⟩ := indexed.byId id idx entered
      obtain rfl : p = r := Option.some.inj (there.symm.trans present)
      exact different (named.symm.trans own)
    exact ⟨q, (List.getElem?_set_ne apart).trans present, named⟩
  · intro owner i listed
    have before : i ∈ s.byOwner owner := by
      by_cases same : owner = p.ownerId
      · subst owner
        simp only [State.remove, Function.update_self] at listed
        exact List.mem_of_mem_filter listed
      · simpa only [State.remove, Function.update_of_ne same] using listed
    exact indexed.owner_set (q := { p with id := [] }) there rfl before

theorem State.Indexed.eraseKey {s : State} (indexed : s.Indexed) (p : Project) :
    (s.eraseKey p).Indexed :=
  ⟨indexed.byId, indexed.byOwner⟩

theorem State.Indexed.setKey {s : State} (indexed : s.Indexed) {idx : Nat} {p : Project}
    (there : s.projects[idx]? = some p) (key : Bytes) : (s.setKey idx p key).Indexed := by
  constructor
  · intro id i entered
    obtain ⟨q, found, named⟩ := indexed.byId id i entered
    by_cases here : idx = i
    · subst i
      have inside : idx < s.projects.length := (List.getElem?_eq_some_iff.mp there).1
      obtain rfl : p = q := Option.some.inj (there.symm.trans found)
      exact ⟨{ p with apiKey := key }, List.getElem?_set_self inside, named⟩
    · exact ⟨q, (List.getElem?_set_ne here).trans found, named⟩
  · intro owner i listed
    exact indexed.owner_set (q := { p with apiKey := key }) there rfl listed

theorem State.Indexed.save {s : State} (indexed : s.Indexed) (env : AccountEnvironment) :
    (s.save env).1.Indexed :=
  ⟨indexed.byId, indexed.byOwner⟩

theorem perform_indexed {s : State} (indexed : s.Indexed) (call : Call)
    (env : AccountEnvironment) : (perform s call env).1.Indexed := by
  cases call with
  | create name ownerId =>
    rcases createProject_cases s name ownerId env with
      ⟨_, same⟩ | ⟨_, _, same⟩ | ⟨_, _, _, same⟩ | ⟨id, key, _, _, _, _, same⟩
    · simpa only [perform, same] using indexed
    · simpa only [perform, same] using indexed
    · simpa only [perform, same] using indexed
    · simpa only [perform, same, saved] using (indexed.push _).save env
  | delete id owner =>
    rcases deleteProject_cases s id owner env with
      ⟨_, same⟩ | ⟨idx, p, located, ⟨_, same⟩ | ⟨_, same⟩⟩
    · simpa only [perform, same] using indexed
    · simpa only [perform, same] using indexed
    · simpa only [perform, same, saved] using (indexed.remove located).save env
  | rotate id owner =>
    rcases rotateApiKey_cases s id owner env with
      ⟨_, same⟩ | ⟨idx, p, located, ⟨_, same⟩ | ⟨_, _, same⟩ | ⟨drawn, _, _, same⟩⟩
    · simpa only [perform, same] using indexed
    · simpa only [perform, same] using indexed
    · simpa only [perform, same] using indexed.eraseKey p
    · have there := (locate_eq_some.mp located).2
      simpa only [perform, same, saved] using ((indexed.eraseKey p).setKey there _).save env

theorem load_indexed {parsed : Option Json} {files : Files} {s : State}
    (loaded : load parsed files = .ok s) : s.Indexed := by
  apply load_invariant loaded
  · constructor <;> simp [empty]
  · exact fun _ p indexed _ _ => indexed.push p

theorem State.Indexed.findById {s : State} (indexed : s.Indexed) {id : Bytes} {p : Project}
    (found : findById s id = some p) : p.id = id := by
  obtain ⟨idx, entered, there⟩ := Option.bind_eq_some_iff.mp found
  obtain ⟨q, present, named⟩ := indexed.byId id idx entered
  obtain rfl : p = q := Option.some.inj (there.symm.trans present)
  exact named

theorem State.Indexed.listByOwner {s : State} (indexed : s.Indexed) {owner : Bytes} {p : Project}
    (listed : p ∈ listByOwner s owner) : p.ownerId = owner := by
  obtain ⟨idx, entered, there⟩ := List.mem_filterMap.mp listed
  obtain ⟨q, present, owned⟩ := indexed.byOwner owner idx entered
  obtain rfl : p = q := Option.some.inj (there.symm.trans present)
  exact owned

def web : Project := ⟨text "p1", text "web", text "alice", text "k1", 0⟩

def webStore : State := (empty ⟨none, none⟩).push web

theorem load_web : load (some (.array [toJson web])) ⟨none, none⟩ = .ok webStore := rfl

end LogMonitor.ProjectStore
