import LogMonitor.Library.OrderedMap
import LogMonitor.Library.Positions
import LogMonitor.ProjectStoreRun

/-!
What the project store is for: a finite map from ids to projects that remembers
the order of creation. The store's vector with its three maps of positions
simulates it, as long as nothing that is drawn was there before.
-/

namespace LogMonitor
open Library Library.ByteString Library.Transition Library.Positions AuthManager

/-- The value of `random_hex(8)`. -/
def AccountEnvironment.idText (env : AccountEnvironment) : Bytes :=
  (env.idDraw.map randomHex).getD []

/-- The value of `random_hex(16)`. -/
def AccountEnvironment.keyText (env : AccountEnvironment) : Bytes :=
  (env.keyDraw.map randomHex).getD []

abbrev ProjectMap := OrderedMap Project.id

namespace ProjectMap
open ProjectStore

def perform (m : ProjectMap) (call : Call) (env : AccountEnvironment) : ProjectMap × Reply :=
  match call with
  | .create name ownerId =>
    if name = [] then (m, .created (.error (text "Project name is required")))
    else if ownerId = [] then (m, .created (.error (text "Owner ID is required")))
    else
      let p : Project := ⟨env.idText, name, ownerId, text "lm_proj_" ++ env.keyText, env.now⟩
      (m.insert p, .created (.ok p))
  | .delete id requestingOwnerId =>
    match m.get id with
    | none => (m, .deleted (text "Project not found"))
    | some p =>
      if p.ownerId = requestingOwnerId then (m.erase id, .deleted [])
      else (m, .deleted (text "Not your project"))
  | .rotate id requestingOwnerId =>
    match m.get id with
    | none => (m, .rotated [])
    | some p =>
      if p.ownerId = requestingOwnerId then
        let key := text "lm_proj_" ++ env.keyText
        (m.insert { p with apiKey := key }, .rotated key)
      else (m, .rotated [])

def draws (m : ProjectMap) (call : Call) (env : AccountEnvironment) : List Bytes :=
  match call with
  | .create name ownerId => if name = [] ∨ ownerId = [] then [] else [env.idText, env.keyText]
  | .delete _ _ => []
  | .rotate id requestingOwnerId =>
    match m.get id with
    | none => []
    | some p => if p.ownerId = requestingOwnerId then [env.keyText] else []

def follow (m : ProjectMap) (events : List Event) : ProjectMap :=
  events.foldl (fun m event => (m.perform event.call event.env).1) m

end ProjectMap

namespace ProjectStore

def Event.drawn (event : Event) : List Bytes :=
  match event.outcome with
  | .returned (.created (.ok _)) => [event.env.idText, event.env.keyText]
  | .returned (.rotated (_ :: _)) => [event.env.keyText]
  | _ => []

structure Agrees (s : State) (m : ProjectMap) : Prop where
  byId : ∀ id, findById s id = m.get id
  byApiKey : ∀ key p, findByApiKey s key = some p ↔ p ∈ m.items ∧ p.apiKey = key
  byOwner : ∀ ownerId, listByOwner s ownerId = m.items.filter (·.ownerId = ownerId)
  size : size s = m.items.length

def HasId (id : Bytes) (p : Project) : Prop := p.live ∧ p.id = id

def HasKey (key : Bytes) (p : Project) : Prop := p.live ∧ p.apiKey = key

def hasOwner (ownerId : Bytes) (p : Project) : Bool := p.live && p.ownerId = ownerId

/-- The vector without its tombstones is the map, and the three maps of positions index it. -/
structure Simulates (s : State) (m : ProjectMap) : Prop where
  items : m.items = s.projects.filter Project.live
  byId : Indexes HasId s.projects s.byId
  byApiKey : Indexes HasKey s.projects s.byApiKey
  byOwner : ∀ ownerId, s.byOwner ownerId = positions (hasOwner ownerId) s.projects

theorem Simulates.mem_items {s : State} {m : ProjectMap} (related : Simulates s m) {p : Project} :
    p ∈ m.items ↔ p ∈ s.projects ∧ p.live := by
  rw [related.items, List.mem_filter]

theorem Simulates.agrees {s : State} {m : ProjectMap} (related : Simulates s m) : Agrees s m := by
  constructor
  · intro id
    apply Option.ext
    intro p
    calc
      findById s id = some p ↔ p ∈ s.projects ∧ HasId id p := related.byId.bind_eq_some_iff
      _ ↔ p ∈ m.items ∧ p.id = id := by rw [related.mem_items, HasId, and_assoc]
      _ ↔ m.get id = some p := OrderedMap.get_eq_some_iff.symm
  · intro key p
    calc
      findByApiKey s key = some p ↔ p ∈ s.projects ∧ HasKey key p :=
        related.byApiKey.bind_eq_some_iff
      _ ↔ p ∈ m.items ∧ p.apiKey = key := by rw [related.mem_items, HasKey, and_assoc]
  · intro ownerId
    rw [listByOwner, related.byOwner ownerId, filterMap_positions, related.items,
      List.filter_filter]
    apply List.filter_congr
    intro p _
    exact Bool.and_comm _ _
  · rw [size, related.items, List.countP_eq_length_filter]

theorem hasId_iff {p : Project} (alive : p.live) (id : Bytes) : HasId id p ↔ id = p.id := by
  rw [HasId, and_iff_right alive, eq_comm]

theorem hasKey_iff {p : Project} (alive : p.live) (key : Bytes) : HasKey key p ↔ key = p.apiKey := by
  rw [HasKey, and_iff_right alive, eq_comm]

theorem Simulates.unused_key {s : State} {m : ProjectMap} (related : Simulates s m) {key : Bytes}
    (fresh : ∀ p ∈ m.items, p.apiKey ≠ key) : Unused HasKey s.projects key := by
  rintro p inside ⟨alive, same⟩
  exact fresh p (related.mem_items.mpr ⟨inside, alive⟩) same

theorem Simulates.unused_id {s : State} {m : ProjectMap} (related : Simulates s m) {id : Bytes}
    (fresh : ∀ p ∈ m.items, p.id ≠ id) : Unused HasId s.projects id := by
  rintro p inside ⟨alive, same⟩
  exact fresh p (related.mem_items.mpr ⟨inside, alive⟩) same

/-- What the store locates is a live project under that id. -/
theorem Simulates.of_locate {s : State} {m : ProjectMap} (related : Simulates s m) {id : Bytes}
    {idx : Nat} {p : Project} (located : s.locate id = some (idx, p)) :
    s.projects[idx]? = some p ∧ p.live ∧ p.id = id ∧ m.get id = some p := by
  obtain ⟨entered, present⟩ := locate_eq_some.mp located
  obtain ⟨q, there, alive, named⟩ := (related.byId id idx).mp entered
  rw [present, Option.some.injEq] at there
  subst q
  refine ⟨present, alive, named, ?_⟩
  rw [← related.agrees.byId]
  exact Option.bind_eq_some_iff.mpr ⟨idx, entered, present⟩

theorem Simulates.of_locate_none {s : State} {m : ProjectMap} (related : Simulates s m)
    {id : Bytes} (unknown : s.locate id = none) : m.get id = none := by
  rw [← related.agrees.byId]
  cases found : findById s id with
  | none => rfl
  | some p =>
    obtain ⟨idx, entered, present⟩ := Option.bind_eq_some_iff.mp found
    rw [locate_eq_some.mpr ⟨entered, present⟩] at unknown
    cases unknown

theorem Simulates.save {s : State} {m : ProjectMap} (related : Simulates s m)
    (env : AccountEnvironment) : Simulates (s.save env).1 m :=
  ⟨related.items, related.byId, related.byApiKey, related.byOwner⟩

theorem Simulates.push {s : State} {m : ProjectMap} (related : Simulates s m) {p : Project}
    (alive : p.live) (newId : ∀ q ∈ m.items, q.id ≠ p.id)
    (newKey : ∀ q ∈ m.items, q.apiKey ≠ p.apiKey) : Simulates (s.push p) (m.insert p) := by
  constructor
  · rw [OrderedMap.items_insert_of_new newId, related.items]
    simp [State.push, alive]
  · exact related.byId.push (hasId_iff alive) (related.unused_id newId)
  · exact related.byApiKey.push (hasKey_iff alive) (related.unused_key newKey)
  · intro ownerId
    have listed := positions_concat (hasOwner ownerId) s.projects p
    by_cases same : ownerId = p.ownerId
    · subst ownerId
      simp only [State.push, Function.update_self, listed, related.byOwner]
      simp [hasOwner, alive]
    · simp only [State.push, Function.update_of_ne same, listed, related.byOwner]
      simp [hasOwner, Ne.symm same]

theorem Simulates.remove {s : State} {m : ProjectMap} (related : Simulates s m) {id : Bytes}
    {idx : Nat} {p : Project} (located : s.locate id = some (idx, p)) :
    Simulates (s.remove id idx p) (m.erase id) := by
  obtain ⟨present, alive, rfl, _⟩ := related.of_locate located
  obtain ⟨before, after, shape, overwritten⟩ := exists_split present { p with id := [] }
  constructor
  · have around : m.items = before.filter Project.live ++ p :: after.filter Project.live := by
      rw [related.items, shape, List.filter_append, List.filter_cons_of_pos alive]
    rw [OrderedMap.items_erase_of_split around]
    simp only [State.remove]
    rw [overwritten, List.filter_append, List.filter_cons_of_neg (by simp [Project.live])]
  · exact related.byId.drop present (hasId_iff alive) (by simp [HasId, Project.live])
  · exact related.byApiKey.drop present (hasKey_iff alive) (by simp [HasKey, Project.live])
  · intro ownerId
    by_cases same : ownerId = p.ownerId
    · subst ownerId
      simp only [State.remove, Function.update_self, related.byOwner]
      exact (positions_set_silent _ present (by simp [hasOwner, Project.live])).symm
    · simp only [State.remove, Function.update_of_ne same, related.byOwner]
      exact (positions_set_same _ present (by simp [hasOwner, Project.live, Ne.symm same])).symm

theorem Simulates.setKey {s : State} {m : ProjectMap} (related : Simulates s m) {id : Bytes}
    {idx : Nat} {p : Project} (located : s.locate id = some (idx, p)) {key : Bytes}
    (newKey : ∀ q ∈ m.items, q.apiKey ≠ key) :
    Simulates ((s.eraseKey p).setKey idx p key) (m.insert { p with apiKey := key }) := by
  obtain ⟨present, alive, rfl, _⟩ := related.of_locate located
  obtain ⟨before, after, shape, overwritten⟩ := exists_split present { p with apiKey := key }
  have aliveStill : Project.live { p with apiKey := key } := alive
  constructor
  · have around : m.items = before.filter Project.live ++ p :: after.filter Project.live := by
      rw [related.items, shape, List.filter_append, List.filter_cons_of_pos alive]
    have sameId : Project.id { p with apiKey := key } = p.id := rfl
    rw [OrderedMap.items_insert_of_split around sameId]
    simp only [State.setKey, State.eraseKey]
    rw [overwritten, List.filter_append, List.filter_cons_of_pos aliveStill]
  · exact related.byId.keep present fun _ => Iff.rfl
  · exact related.byApiKey.rename present (hasKey_iff alive) (hasKey_iff aliveStill)
      (related.unused_key newKey)
  · intro ownerId
    simp only [State.setKey, State.eraseKey, related.byOwner]
    have sameOwner : hasOwner ownerId { p with apiKey := key } = hasOwner ownerId p := rfl
    exact (positions_set_same _ present sameOwner).symm

/-- What is drawn in a call is neither an id nor a key of the map. -/
def Fresh (m : ProjectMap) (drawn : List Bytes) : Prop :=
  ∀ value ∈ drawn, ∀ p ∈ m.items, p.id ≠ value ∧ p.apiKey ≠ text "lm_proj_" ++ value

theorem apiKeyOf_ne_nil (drawn : Vector UInt8 16) : apiKeyOf drawn ≠ [] := by
  intro absurdity
  have long := congrArg List.length absurdity
  rw [apiKeyOf, List.length_append, length_randomHex] at long
  simp at long

theorem saved_returned {α : Type} {s t : State} {env : AccountEnvironment} {value : α}
    {reply : α → Reply} {outcome : Outcome Reply} (returns : outcome ≠ .threw)
    (ended : ((saved s env value).1, (saved s env value).2.map reply) = (t, outcome)) :
    outcome = .returned (reply value) ∧ t = (s.save env).1 := by
  obtain ⟨rfl, rfl⟩ := Prod.mk.inj ended
  simp only [saved] at returns ⊢
  cases done : (s.save env).2 with
  | false =>
    simp only [done] at returns
    exact absurd rfl returns
  | true => exact ⟨rfl, trivial⟩

/-- One call that does not throw: the reply is that of the map, and the simulation goes on. -/
theorem Simulates.perform {s t : State} {m : ProjectMap} (related : Simulates s m) {event : Event}
    (step : Step s event t) (returns : event.outcome ≠ .threw) (fresh : Fresh m event.drawn) :
    event.outcome = .returned (m.perform event.call event.env).2 ∧
      Simulates t (m.perform event.call event.env).1 := by
  obtain ⟨call, env, outcome⟩ := event
  simp only [Step] at step
  simp only at returns ⊢
  cases call with
  | create name ownerId =>
    rcases createProject_cases s name ownerId env with
      ⟨unnamed, ended⟩ | ⟨named, unowned, ended⟩ | ⟨_, _, _, ended⟩ |
        ⟨id, key, named, owned, idDraw, keyDraw, ended⟩
    · simp only [ProjectStore.perform, ended, Outcome.map] at step
      obtain ⟨rfl, rfl⟩ := Prod.mk.inj step
      simp only [ProjectMap.perform, if_pos unnamed, true_and]
      exact related
    · simp only [ProjectStore.perform, ended, Outcome.map] at step
      obtain ⟨rfl, rfl⟩ := Prod.mk.inj step
      simp only [ProjectMap.perform, if_neg named, if_pos unowned, true_and]
      exact related
    · simp only [ProjectStore.perform, ended, Outcome.map, Prod.mk.injEq] at step
      exact absurd step.2.symm returns
    · simp only [ProjectStore.perform, ended] at step
      obtain ⟨rfl, rfl⟩ := saved_returned returns step
      have idText : env.idText = randomHex id := by simp [AccountEnvironment.idText, idDraw]
      have keyText : env.keyText = randomHex key := by simp [AccountEnvironment.keyText, keyDraw]
      simp only [ProjectMap.perform, if_neg named, if_neg owned, idText, keyText]
      refine ⟨rfl, (related.push ?_ ?_ ?_).save env⟩
      · simpa [Project.live] using randomHex_ne_nil id
      · intro q inside
        exact (fresh (randomHex id) (by simp [Event.drawn, idText]) q inside).1
      · intro q inside
        exact (fresh (randomHex key) (by simp [Event.drawn, keyText]) q inside).2
  | delete id owner =>
    rcases deleteProject_cases s id owner env with
      ⟨unknown, ended⟩ | ⟨idx, p, located, ⟨foreign, ended⟩ | ⟨own, ended⟩⟩
    · simp only [ProjectStore.perform, ended, Outcome.map] at step
      obtain ⟨rfl, rfl⟩ := Prod.mk.inj step
      simp only [ProjectMap.perform, related.of_locate_none unknown, true_and]
      exact related
    · simp only [ProjectStore.perform, ended, Outcome.map] at step
      obtain ⟨rfl, rfl⟩ := Prod.mk.inj step
      obtain ⟨_, _, _, found⟩ := related.of_locate located
      simp only [ProjectMap.perform, found, if_neg foreign, true_and]
      exact related
    · simp only [ProjectStore.perform, ended] at step
      obtain ⟨rfl, rfl⟩ := saved_returned returns step
      obtain ⟨_, _, _, found⟩ := related.of_locate located
      simp only [ProjectMap.perform, found, if_pos own, true_and]
      exact (related.remove located).save env
  | rotate id owner =>
    rcases rotateApiKey_cases s id owner env with
      ⟨unknown, ended⟩ | ⟨idx, p, located, ⟨foreign, ended⟩ | ⟨own, undrawn, ended⟩ |
        ⟨drawn, own, keyDraw, ended⟩⟩
    · simp only [ProjectStore.perform, ended, Outcome.map] at step
      obtain ⟨rfl, rfl⟩ := Prod.mk.inj step
      simp only [ProjectMap.perform, related.of_locate_none unknown, true_and]
      exact related
    · simp only [ProjectStore.perform, ended, Outcome.map] at step
      obtain ⟨rfl, rfl⟩ := Prod.mk.inj step
      obtain ⟨_, _, _, found⟩ := related.of_locate located
      simp only [ProjectMap.perform, found, if_neg foreign, true_and]
      exact related
    · simp only [ProjectStore.perform, ended, Outcome.map, Prod.mk.injEq] at step
      exact absurd step.2.symm returns
    · simp only [ProjectStore.perform, ended] at step
      obtain ⟨rfl, rfl⟩ := saved_returned returns step
      obtain ⟨_, _, _, found⟩ := related.of_locate located
      have keyText : env.keyText = randomHex drawn := by simp [AccountEnvironment.keyText, keyDraw]
      simp only [ProjectMap.perform, found, if_pos own, keyText]
      refine ⟨rfl, (related.setKey located ?_).save env⟩
      intro q inside
      refine (fresh (randomHex drawn) ?_ q inside).2
      cases shape : apiKeyOf drawn with
      | nil => exact absurd shape (apiKeyOf_ne_nil drawn)
      | cons _ _ => simp [Event.drawn, keyText]

end ProjectStore

end LogMonitor
