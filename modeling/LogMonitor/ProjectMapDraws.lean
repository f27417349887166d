import LogMonitor.ProjectMapRun

/-!
The map of projects when saves fail. A call that throws in its save has made its
change in memory all the same, so the simulation goes on through failed saves;
all it takes is that `random_hex` yields a new value each time.
-/

namespace LogMonitor
open Library Library.ByteString Library.Transition AuthManager

namespace ProjectMap
open ProjectStore

def drawsOver : ProjectMap → List Event → List Bytes
  | _, [] => []
  | m, event :: rest =>
    m.draws event.call event.env ++ drawsOver (m.perform event.call event.env).1 rest

theorem drawsOver_append (m : ProjectMap) (first second : List Event) :
    m.drawsOver (first ++ second) = m.drawsOver first ++ (m.follow first).drawsOver second := by
  induction first generalizing m with
  | nil => rfl
  | cons event first ih =>
    rw [List.cons_append, drawsOver, drawsOver, ih, List.append_assoc]
    rfl

/-- The key under which a project takes in logs. -/
def currentKey (m : ProjectMap) (id : Bytes) : Option Bytes := (m.get id).map Project.apiKey

end ProjectMap

namespace ProjectStore

def Yields (env : AccountEnvironment) : Prop := env.idDraw.isSome ∧ env.keyDraw.isSome

/-- A call moves the store as it moves the map, whether its save succeeds or not. -/
theorem Simulates.perform_saving {s : State} {m : ProjectMap} (related : Simulates s m) (call : Call)
    {env : AccountEnvironment} (yields : Yields env) (fresh : Fresh m (m.draws call env)) :
    Simulates (ProjectStore.perform s call env).1 (m.perform call env).1 := by
  obtain ⟨idSome, keySome⟩ := yields
  cases call with
  | create name ownerId =>
    rcases createProject_cases s name ownerId env with
      ⟨unnamed, ended⟩ | ⟨named, unowned, ended⟩ | ⟨_, _, undrawn, ended⟩ |
        ⟨id, key, named, owned, idDraw, keyDraw, ended⟩
    · simpa only [ProjectStore.perform, ended, ProjectMap.perform, if_pos unnamed] using related
    · simpa only [ProjectStore.perform, ended, ProjectMap.perform, if_neg named, if_pos unowned]
        using related
    · rcases undrawn with none | none
      · simp [none] at idSome
      · simp [none] at keySome
    · have idText : env.idText = randomHex id := by simp [AccountEnvironment.idText, idDraw]
      have keyText : env.keyText = randomHex key := by simp [AccountEnvironment.keyText, keyDraw]
      simp only [ProjectMap.draws, named, owned, or_self, if_false, idText, keyText] at fresh
      simp only [ProjectStore.perform, ended, saved, ProjectMap.perform, if_neg named, if_neg owned,
        idText, keyText]
      apply (related.push _ _ _).save env
      · simpa [Project.live] using randomHex_ne_nil id
      · intro q inside
        exact (fresh (randomHex id) (by simp) q inside).1
      · intro q inside
        exact (fresh (randomHex key) (by simp) q inside).2
  | delete id owner =>
    rcases deleteProject_cases s id owner env with
      ⟨unknown, ended⟩ | ⟨idx, p, located, ⟨foreign, ended⟩ | ⟨own, ended⟩⟩
    · simpa only [ProjectStore.perform, ended, ProjectMap.perform, related.of_locate_none unknown]
        using related
    · obtain ⟨_, _, _, found⟩ := related.of_locate located
      simpa only [ProjectStore.perform, ended, ProjectMap.perform, found, if_neg foreign] using related
    · obtain ⟨_, _, _, found⟩ := related.of_locate located
      simp only [ProjectStore.perform, ended, saved, ProjectMap.perform, found, if_pos own]
      exact (related.remove located).save env
  | rotate id owner =>
    rcases rotateApiKey_cases s id owner env with
      ⟨unknown, ended⟩ | ⟨idx, p, located, ⟨foreign, ended⟩ | ⟨_, undrawn, ended⟩ |
        ⟨drawn, own, keyDraw, ended⟩⟩
    · simpa only [ProjectStore.perform, ended, ProjectMap.perform, related.of_locate_none unknown]
        using related
    · obtain ⟨_, _, _, found⟩ := related.of_locate located
      simpa only [ProjectStore.perform, ended, ProjectMap.perform, found, if_neg foreign] using related
    · simp [undrawn] at keySome
    · obtain ⟨_, _, _, found⟩ := related.of_locate located
      have keyText : env.keyText = randomHex drawn := by simp [AccountEnvironment.keyText, keyDraw]
      simp only [ProjectMap.draws, found, if_pos own, keyText] at fresh
      simp only [ProjectStore.perform, ended, saved, ProjectMap.perform, found, if_pos own, keyText]
      apply (related.setKey located _).save env
      intro q inside
      exact (fresh (randomHex drawn) (by simp) q inside).2

/-- `random_hex` yields a value in every call, and never one that was drawn or loaded before. -/
structure AlwaysNew (m : ProjectMap) (events : List Event) : Prop where
  yields : ∀ event ∈ events, Yields event.env
  nodup : (m.drawsOver events).Nodup
  new : Fresh m (m.drawsOver events)

theorem AlwaysNew.left {m : ProjectMap} {before after : List Event}
    (fresh : AlwaysNew m (before ++ after)) : AlwaysNew m before := by
  obtain ⟨yields, nodup, new⟩ := fresh
  rw [ProjectMap.drawsOver_append] at nodup new
  exact ⟨fun event inside => yields event (List.mem_append_left _ inside),
    (List.nodup_append.mp nodup).1, fun value inside => new value (List.mem_append_left _ inside)⟩

theorem AlwaysNew.last {m : ProjectMap} {before : List Event} {event : Event}
    (fresh : AlwaysNew m (before ++ [event])) :
    Yields event.env ∧
      (m.drawsOver before).Disjoint ((m.follow before).draws event.call event.env) ∧
      Fresh m ((m.follow before).draws event.call event.env) := by
  obtain ⟨yields, nodup, new⟩ := fresh
  have single : (m.follow before).drawsOver [event] =
      (m.follow before).draws event.call event.env := List.append_nil _
  rw [ProjectMap.drawsOver_append, single] at nodup new
  exact ⟨yields event (by simp), List.disjoint_of_nodup_append nodup,
    fun value inside => new value (List.mem_append_right _ inside)⟩

/-- Over a whole run, with saves that may fail, the store simulates the map. -/
theorem run_simulates_saving {s t : State} {m : ProjectMap} {events : List Event}
    (related : Simulates s m) (run : Run Step s events t) (fresh : AlwaysNew m events) :
    Simulates t (m.follow events) ∧
      ∀ p ∈ (m.follow events).items, Known m (m.drawsOver events) p := by
  revert fresh
  apply Run.invariant (fun events t => AlwaysNew m events → Simulates t (m.follow events) ∧
    ∀ p ∈ (m.follow events).items, Known m (m.drawsOver events) p) _ _ run
  · intro _
    exact ⟨related, fun p inside => .refl inside⟩
  · intro before current event next _ ih step fresh
    obtain ⟨simulates, known⟩ := ih fresh.left
    obtain ⟨yields, apart, new⟩ := fresh.last
    rw [follow_concat, ProjectMap.drawsOver_append]
    have after := simulates.perform_saving event.call yields (fresh_of_known known apart new)
    rw [show ProjectStore.perform current event.call event.env = (next, event.outcome) from step] at after
    refine ⟨after, fun p inside => ?_⟩
    have single : (m.follow before).drawsOver [event] =
        (m.follow before).draws event.call event.env := List.append_nil _
    rw [single]
    exact (perform_draws _ event.call event.env p inside).trans known

end ProjectStore

end LogMonitor
