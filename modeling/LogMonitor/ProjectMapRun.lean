import LogMonitor.ProjectMap

/-!
The project store over whole runs: what is drawn stays apart from what is known,
so the simulation holds from the loaded file to the last call.
-/

namespace LogMonitor
open Library Library.ByteString Library.Transition Library.Positions AuthManager

namespace ProjectStore

/-- The key is one of the map the calls began with, or it was drawn. -/
def KnownKey (m : ProjectMap) (drawn : List Bytes) (key : Bytes) : Prop :=
  (∃ q ∈ m.items, key = q.apiKey) ∨ ∃ value ∈ drawn, key = text "lm_proj_" ++ value

def Known (m : ProjectMap) (drawn : List Bytes) (p : Project) : Prop :=
  ((∃ q ∈ m.items, p.id = q.id) ∨ p.id ∈ drawn) ∧ KnownKey m drawn p.apiKey

theorem Known.refl {m : ProjectMap} {p : Project} (inside : p ∈ m.items) : Known m [] p :=
  ⟨.inl ⟨p, inside, rfl⟩, .inl ⟨p, inside, rfl⟩⟩

theorem Known.trans {m n : ProjectMap} {drawn more : List Bytes} {p : Project}
    (last : Known n more p) (first : ∀ q ∈ n.items, Known m drawn q) :
    Known m (drawn ++ more) p := by
  obtain ⟨id, key⟩ := last
  constructor
  · rcases id with ⟨q, inside, same⟩ | new
    · rw [same]
      exact (first q inside).1.imp_right (List.mem_append_left more)
    · exact .inr (List.mem_append_right drawn new)
  · rcases key with ⟨q, inside, same⟩ | ⟨value, new, shape⟩
    · rw [same]
      refine (first q inside).2.imp_right ?_
      rintro ⟨value, old, shape⟩
      exact ⟨value, List.mem_append_left more old, shape⟩
    · exact .inr ⟨value, List.mem_append_right drawn new, shape⟩

theorem perform_draws (m : ProjectMap) (call : Call) (env : AccountEnvironment) :
    ∀ p ∈ (m.perform call env).1.items, Known m (m.draws call env) p := by
  have unchanged : ∀ drawn, ∀ p ∈ m.items, Known m drawn p := by
    intro drawn p inside
    exact ⟨.inl ⟨p, inside, rfl⟩, .inl ⟨p, inside, rfl⟩⟩
  cases call with
  | create name ownerId =>
    by_cases unnamed : name = []
    · simp only [ProjectMap.perform, if_pos unnamed]
      exact unchanged _
    by_cases unowned : ownerId = []
    · simp only [ProjectMap.perform, if_neg unnamed, if_pos unowned]
      exact unchanged _
    simp only [ProjectMap.perform, ProjectMap.draws, unnamed, unowned,
      or_self, if_false]
    intro p inside
    rcases OrderedMap.mem_insert inside with rfl | old
    · exact ⟨.inr (by simp), .inr ⟨env.keyText, by simp, rfl⟩⟩
    · exact unchanged _ p old
  | delete id owner =>
    cases found : m.get id with
    | none =>
      simp only [ProjectMap.perform, found]
      exact unchanged _
    | some q =>
      by_cases own : q.ownerId = owner
      · simp only [ProjectMap.perform, found, if_pos own]
        intro p inside
        exact unchanged _ p (OrderedMap.mem_erase inside)
      · simp only [ProjectMap.perform, found, if_neg own]
        exact unchanged _
  | rotate id owner =>
    cases found : m.get id with
    | none =>
      simp only [ProjectMap.perform, found]
      exact unchanged _
    | some q =>
      by_cases own : q.ownerId = owner
      · simp only [ProjectMap.perform, ProjectMap.draws, found, if_pos own]
        intro p inside
        rcases OrderedMap.mem_insert inside with rfl | old
        · have member : q ∈ m.items := (OrderedMap.get_eq_some_iff.mp found).1
          exact ⟨.inl ⟨q, member, rfl⟩, .inr ⟨env.keyText, by simp, rfl⟩⟩
        · exact unchanged _ p old
      · simp only [ProjectMap.perform, found, if_neg own]
        exact unchanged _

theorem drawn_of_returned (m : ProjectMap) {event : Event}
    (returned : event.outcome = .returned (m.perform event.call event.env).2) :
    event.drawn = m.draws event.call event.env := by
  obtain ⟨call, env, outcome⟩ := event
  simp only at returned ⊢
  subst outcome
  cases call with
  | create name ownerId =>
    by_cases unnamed : name = []
    · simp [Event.drawn, ProjectMap.perform, ProjectMap.draws, unnamed]
    by_cases unowned : ownerId = []
    · simp [Event.drawn, ProjectMap.perform, ProjectMap.draws, unnamed, unowned]
    · simp [Event.drawn, ProjectMap.perform, ProjectMap.draws, unnamed, unowned]
  | delete id owner =>
    cases found : m.get id with
    | none => simp [Event.drawn, ProjectMap.perform, ProjectMap.draws, found]
    | some q => by_cases own : q.ownerId = owner <;>
        simp [Event.drawn, ProjectMap.perform, ProjectMap.draws, found, own]
  | rotate id owner =>
    cases found : m.get id with
    | none => simp [Event.drawn, ProjectMap.perform, ProjectMap.draws, found]
    | some q =>
      by_cases own : q.ownerId = owner
      · have given : text "lm_proj_" ++ env.keyText ≠ [] := by
          rw [← List.length_pos_iff, List.length_append]
          exact Nat.add_pos_left (by decide) _
        obtain ⟨first, rest, shape⟩ := List.exists_cons_of_ne_nil given
        simp only [Event.drawn, ProjectMap.perform, ProjectMap.draws, found, if_pos own, shape]
      · simp [Event.drawn, ProjectMap.perform, ProjectMap.draws, found, own]

theorem perform_known (m : ProjectMap) {event : Event}
    (returned : event.outcome = .returned (m.perform event.call event.env).2) :
    ∀ p ∈ (m.perform event.call event.env).1.items, Known m event.drawn p := by
  rw [drawn_of_returned m returned]
  exact perform_draws m event.call event.env

theorem fresh_of_known {m n : ProjectMap} {drawn more : List Bytes}
    (known : ∀ p ∈ n.items, Known m drawn p) (apart : drawn.Disjoint more) (new : Fresh m more) :
    Fresh n more := by
  intro value inside p member
  obtain ⟨id, key⟩ := known p member
  constructor
  · rcases id with ⟨q, old, same⟩ | earlier
    · rw [same]
      exact (new value inside q old).1
    · rintro rfl
      exact apart earlier inside
  · rcases key with ⟨q, old, same⟩ | ⟨other, earlier, shape⟩
    · rw [same]
      exact (new value inside q old).2
    · intro same
      obtain rfl : other = value := List.append_cancel_left (shape.symm.trans same)
      exact apart earlier inside

/-- No value of `random_hex` repeats one from before, nor an id or a key that was loaded. -/
structure NeverRepeats (m : ProjectMap) (events : List Event) : Prop where
  nodup : (events.flatMap Event.drawn).Nodup
  new : Fresh m (events.flatMap Event.drawn)

theorem NeverRepeats.left {m : ProjectMap} {before after : List Event}
    (fresh : NeverRepeats m (before ++ after)) : NeverRepeats m before := by
  obtain ⟨nodup, new⟩ := fresh
  rw [List.flatMap_append] at nodup new
  exact ⟨(List.nodup_append.mp nodup).1, fun value inside => new value (List.mem_append_left _ inside)⟩

theorem NeverRepeats.last {m : ProjectMap} {before : List Event} {event : Event}
    (fresh : NeverRepeats m (before ++ [event])) :
    (before.flatMap Event.drawn).Disjoint event.drawn ∧ Fresh m event.drawn := by
  obtain ⟨nodup, new⟩ := fresh
  rw [List.flatMap_append, List.flatMap_singleton] at nodup new
  exact ⟨List.disjoint_of_nodup_append nodup,
    fun value inside => new value (List.mem_append_right _ inside)⟩

structure Good (m : ProjectMap) (events : List Event) : Prop where
  returns : ∀ event ∈ events, event.outcome ≠ .threw
  fresh : NeverRepeats m events

theorem Good.left {m : ProjectMap} {before after : List Event} (good : Good m (before ++ after)) :
    Good m before :=
  ⟨fun event inside => good.returns event (List.mem_append_left after inside), good.fresh.left⟩

theorem follow_concat (m : ProjectMap) (events : List Event) (event : Event) :
    m.follow (events ++ [event]) = ((m.follow events).perform event.call event.env).1 := by
  rw [ProjectMap.follow, List.foldl_append]
  rfl

/-- Over a whole run the store simulates the map, and the map holds nothing that is not known. -/
theorem run_simulates {s t : State} {m : ProjectMap} {events : List Event}
    (related : Simulates s m) (run : Run Step s events t) (good : Good m events) :
    Simulates t (m.follow events) ∧
      ∀ p ∈ (m.follow events).items, Known m (events.flatMap Event.drawn) p := by
  revert good
  apply Run.invariant (fun events t => Good m events → Simulates t (m.follow events) ∧
    ∀ p ∈ (m.follow events).items, Known m (events.flatMap Event.drawn) p) _ _ run
  · intro _
    exact ⟨related, fun p inside => .refl inside⟩
  · intro before current event next _ ih step good
    obtain ⟨simulates, known⟩ := ih good.left
    obtain ⟨apart, new⟩ := good.fresh.last
    have returns := good.returns event (by simp)
    obtain ⟨returned, simulatesNext⟩ :=
      simulates.perform step returns (fresh_of_known known apart new)
    rw [follow_concat]
    refine ⟨simulatesNext, ?_⟩
    intro p inside
    rw [List.flatMap_append, List.flatMap_singleton]
    exact (perform_known _ returned p inside).trans known

/-- A key that was known and is not in use any more stays out of use. -/
theorem key_stays_out {s u t : State} {m : ProjectMap} {before after : List Event} {key : Bytes}
    (related : Simulates s m) (first : Run Step s before u) (rest : Run Step u after t)
    (good : Good m (before ++ after)) (known : KnownKey m (before.flatMap Event.drawn) key)
    (out : ∀ p ∈ (m.follow before).items, p.apiKey ≠ key) :
    ∀ p ∈ (m.follow (before ++ after)).items, p.apiKey ≠ key := by
  revert good
  apply Run.invariant (fun after _ => Good m (before ++ after) →
    ∀ p ∈ (m.follow (before ++ after)).items, p.apiKey ≠ key) _ _ rest
  · intro _
    rw [List.append_nil]
    exact out
  · intro middle current event next earlier ih step good
    rw [← List.append_assoc] at good ⊢
    obtain ⟨simulates, alreadyKnown⟩ := run_simulates related (first.trans earlier) good.left
    obtain ⟨apart, new⟩ := good.fresh.last
    obtain ⟨returned, _⟩ := simulates.perform step (good.returns event (by simp))
      (fresh_of_known alreadyKnown apart new)
    intro p inside
    rw [follow_concat] at inside
    rcases (perform_known _ returned p inside).2 with ⟨q, old, same⟩ | ⟨value, drawn, shape⟩
    · rw [same]
      exact ih good.left q old
    · rintro rfl
      rcases known with ⟨q, loaded, same⟩ | ⟨other, earlierDraw, sameKey⟩
      · exact (new value drawn q loaded).2 (same.symm.trans shape)
      · obtain rfl : other = value := List.append_cancel_left (sameKey.symm.trans shape)
        rw [List.flatMap_append] at apart
        exact apart (List.mem_append_left _ earlierDraw) drawn

theorem resolves_iff {s : State} {m : ProjectMap} (agrees : Agrees s m) (key : Bytes) :
    findByApiKey s key = none ↔ ∀ p ∈ m.items, p.apiKey ≠ key := by
  constructor
  · intro unresolved p inside same
    rw [(agrees.byApiKey key p).mpr ⟨inside, same⟩] at unresolved
    cases unresolved
  · intro absent
    cases found : findByApiKey s key with
    | none => rfl
    | some p =>
      obtain ⟨inside, same⟩ := (agrees.byApiKey key p).mp found
      exact absurd same (absent p inside)

theorem loadRecords_prefix {records : List Json} {s t : State}
    (loaded : loadRecords records s = .ok t) : ∃ more, t.projects = s.projects ++ more := by
  have push : ∀ (current : State) (p : Project), (∃ more, current.projects = s.projects ++ more) →
      p.id ≠ [] → p.apiKey ≠ [] → ∃ more, (current.push p).projects = s.projects ++ more := by
    intro current p before _ _
    obtain ⟨more, shape⟩ := before
    refine ⟨more ++ [p], ?_⟩
    rw [State.push, shape, List.append_assoc]
  exact loadRecords_invariant push ⟨[], (List.append_nil _).symm⟩ loaded

theorem loadRecords_simulates {records : List Json} {s t : State} {m : ProjectMap}
    (related : Simulates s m) (loaded : loadRecords records s = .ok t)
    (ownId : (t.projects.map Project.id).Nodup) (ownKey : (t.projects.map Project.apiKey).Nodup)
    (live : ∀ p ∈ s.projects, p.live) :
    (∃ n, Simulates t n) ∧ ∀ p ∈ t.projects, p.live := by
  induction records generalizing s m with
  | nil =>
    cases loaded
    exact ⟨⟨m, related⟩, live⟩
  | cons json records ih =>
    cases read : ofJson json with
    | error error => simp [loadRecords, read, bind, Except.bind] at loaded
    | ok p =>
      simp only [loadRecords, read, bind, Except.bind] at loaded
      split at loaded
      next => exact ih related loaded live
      next complete =>
        have alive : p.live := by
          rw [Project.live, decide_eq_true_eq]
          exact fun absent => complete (.inl absent)
        obtain ⟨more, shape⟩ := loadRecords_prefix loaded
        have vector : t.projects = s.projects ++ p :: more := by simpa [State.push] using shape
        have newId : ∀ q ∈ m.items, q.id ≠ p.id := by
          intro q inside
          rw [vector, List.map_append, List.nodup_append] at ownId
          exact ownId.2.2 q.id (List.mem_map_of_mem (related.mem_items.mp inside).1) p.id (by simp)
        have newKey : ∀ q ∈ m.items, q.apiKey ≠ p.apiKey := by
          intro q inside
          rw [vector, List.map_append, List.nodup_append] at ownKey
          exact ownKey.2.2 q.apiKey (List.mem_map_of_mem (related.mem_items.mp inside).1) p.apiKey
            (by simp)
        apply ih (related.push alive newId newKey) loaded
        intro q inside
        rcases List.mem_append.mp inside with old | last
        · exact live q old
        · rwa [List.mem_singleton.mp last]

theorem empty_simulates (files : Files) : Simulates (empty files) OrderedMap.empty :=
  ⟨rfl, by simp [Indexes, empty], by simp [Indexes, empty], fun _ => rfl⟩

theorem load_simulates {parsed : Option Json} {files : Files} {s : State}
    (loaded : load parsed files = .ok s) (ownId : (s.projects.map Project.id).Nodup)
    (ownKey : (s.projects.map Project.apiKey).Nodup) : Simulates s ⟨s.projects, ownId⟩ := by
  have simulates : (∃ n, Simulates s n) ∧ ∀ p ∈ s.projects, p.live := by
    unfold load at loaded
    split at loaded
    · exact loadRecords_simulates (empty_simulates files) loaded ownId ownKey (by simp [empty])
    · cases loaded
      exact ⟨⟨_, empty_simulates files⟩, by simp [empty]⟩
  obtain ⟨⟨n, related⟩, live⟩ := simulates
  exact ⟨(List.filter_eq_self.mpr live).symm, related.byId, related.byApiKey, related.byOwner⟩

/-- From a file with ids and keys of their own, through any calls of which none throws and with
nothing drawn twice: every lookup has the answer of the map, every call had its reply, and a key
that resolved once and then did not never resolves again. -/
theorem run_agrees {parsed : Option Json} {files : Files} {s t : State} {events : List Event}
    (loaded : load parsed files = .ok s) (ownId : (s.projects.map Project.id).Nodup)
    (ownKey : (s.projects.map Project.apiKey).Nodup) (run : Run Step s events t)
    (good : Good ⟨s.projects, ownId⟩ events) :
    Agrees t (ProjectMap.follow ⟨s.projects, ownId⟩ events) ∧
      (∀ before event after, events = before ++ event :: after → event.outcome =
        .returned ((ProjectMap.follow ⟨s.projects, ownId⟩ before).perform event.call event.env).2) ∧
      ∀ before middle after first second key, events = before ++ middle ++ after →
        Run Step s before first → Run Step first middle second → Run Step second after t →
        findByApiKey first key ≠ none → findByApiKey second key = none →
        findByApiKey t key = none := by
  have related := load_simulates loaded ownId ownKey
  refine ⟨(run_simulates related run good).1.agrees, ?_, ?_⟩
  · intro before event after shape
    have divided : events = (before ++ [event]) ++ after := by simpa using shape
    rw [divided] at run good
    obtain ⟨_, earlier, _⟩ := run.split
    obtain ⟨current, start, step⟩ := earlier.last
    obtain ⟨simulates, known⟩ := run_simulates related start good.left.left
    obtain ⟨apart, new⟩ := good.left.fresh.last
    have returns := good.left.returns event (by simp)
    exact (simulates.perform step returns (fresh_of_known known apart new)).1
  · intro before middle after first second key shape toFirst toSecond toLast resolved unresolved
    rw [shape] at good run
    obtain ⟨simulatesFirst, known⟩ := run_simulates related toFirst good.left.left
    have toBoth := toFirst.trans toSecond
    have agreesSecond := (run_simulates related toBoth good.left).1.agrees
    have agreesLast := (run_simulates related run good).1.agrees
    obtain ⟨p, found⟩ := Option.ne_none_iff_exists'.mp resolved
    obtain ⟨inside, same⟩ := (simulatesFirst.agrees.byApiKey key p).mp found
    have knownFirst : KnownKey ⟨s.projects, ownId⟩ (before.flatMap Event.drawn) key :=
      same ▸ (known p inside).2
    have knownBoth : KnownKey ⟨s.projects, ownId⟩ ((before ++ middle).flatMap Event.drawn) key := by
      rw [List.flatMap_append]
      refine knownFirst.imp_right ?_
      rintro ⟨value, drawn, shape⟩
      exact ⟨value, List.mem_append_left _ drawn, shape⟩
    rw [resolves_iff agreesLast]
    exact key_stays_out related toBoth toLast good knownBoth ((resolves_iff agreesSecond key).mp unresolved)

def emptied : AccountEnvironment where
  idDraw := none
  keyDraw := none
  now := 0
  disk := .sound 2
  dump
    | .array [] => some (text "[]")
    | _ => none

def strangerRotates : Event :=
  ⟨.rotate (text "p1") (text "bob"), emptied, .returned (.rotated [])⟩

def ownerDeletes : Event :=
  ⟨.delete (text "p1") (text "alice"), emptied, .returned (.deleted [])⟩

theorem run_agrees_delete :
    Agrees (perform webStore (.delete (text "p1") (text "alice")) emptied).1
      (ProjectMap.follow ⟨[web], List.nodup_singleton _⟩ [strangerRotates, ownerDeletes]) := by
  have first : Run Step webStore [strangerRotates] webStore := Run.single rfl
  have run : Run Step webStore [strangerRotates, ownerDeletes]
      (perform webStore (.delete (text "p1") (text "alice")) emptied).1 := first.snoc rfl
  apply (run_agrees load_web (List.nodup_singleton _) (List.nodup_singleton _) run ⟨?_, ?_, ?_⟩).1
  · simp [strangerRotates, ownerDeletes]
  · simp [strangerRotates, ownerDeletes, Event.drawn]
  · simp [strangerRotates, ownerDeletes, Event.drawn, Fresh]

end ProjectStore

end LogMonitor
