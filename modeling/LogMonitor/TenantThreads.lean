import LogMonitor.Library.SharedMutex
import LogMonitor.TenantManager

/-!
The tenant manager under threads. A call looks its project up under the shared
lock, and only if it is not there takes the exclusive lock, looks again, and
constructs and enters a store; the reference it comes away with is used without
any lock. A store that does not start is destroyed before the lock is given
back. Whatever the interleaving, a project has one store at a time and everybody
has a reference to the one in the map.
-/

namespace LogMonitor.TenantThreads
open Library Library.ByteString Library.Transition ProjectStore Tsdb TenantManager

inductive Purpose where
  | insert (entry : TsdbEntry)
  | returnPointer

structure Call where
  projectId : Bytes
  named : projectId ≠ []
  purpose : Purpose

/-- Where a thread is in `get_or_create_tsdb` and after it. Stores are known by their address. -/
inductive Stage where
  | called
  /-- With the shared lock. -/
  | reading
  | read (found : Option Nat)
  /-- Between the locks. -/
  | missed
  /-- With the exclusive lock. -/
  | rechecking
  | constructing
  | constructed (address : Nat)
  | leaving (address : Nat)
  /-- With the reference and without a lock. -/
  | referring (address : Nat)

inductive Point where
  | idle
  | within (call : Call) (stage : Stage)

def Stage.holding : Stage → Holding
  | .reading | .read _ => .shared
  | .rechecking | .constructing | .constructed _ | .leaving _ => .exclusive
  | .called | .missed | .referring _ => .nothing

def Point.holding : Point → Holding
  | .idle => .nothing
  | .within _ stage => stage.holding

structure Instance where
  projectId : Bytes
  alive : Bool
  store : Tsdb.Store

structure State (ι : Type) where
  projectStore : ProjectStore.State
  tsdbMapMutex : SharedMutex ι
  tsdbMap : Bytes → Option Nat
  /-- Every store that was ever constructed, by its address. -/
  heap : List Instance
  threads : ι → Point
  /-- What reading a project's file gives. -/
  files : Bytes → Tsdb.Store

variable {ι : Type} [DecidableEq ι]

/-- The threads begin once the constructor is done, which may have made the default project's
store. -/
def construct (persisted : Bytes → Tsdb.Store) (projectStore : ProjectStore.State)
    (defaultProjectId : Bytes) : State ι :=
  let s : State ι := ⟨projectStore, .free, fun _ => none, [], fun _ => .idle, persisted⟩
  if defaultProjectId ≠ [] then
    if (findById projectStore defaultProjectId).isSome then
      { s with
        tsdbMap := Function.update s.tsdbMap defaultProjectId (some 0)
        heap := [⟨defaultProjectId, true, persisted defaultProjectId⟩] }
    else s
  else s

def State.goto (s : State ι) (t : ι) (point : Point) : State ι :=
  { s with threads := Function.update s.threads t point }

def Point.ingestToProject (projectId : Bytes) (entry : TsdbEntry) : Point :=
  if named : projectId = [] then .idle else .within ⟨projectId, named, .insert entry⟩ .called

def Point.routeIngest (projectStore : ProjectStore.State) (apiKey : Bytes) (entry : TsdbEntry) :
    Point :=
  match findByApiKey projectStore apiKey with
  | none => .idle
  | some proj => .ingestToProject proj.id entry

def destroy (heap : List Instance) (address : Nat) : List Instance :=
  heap.modify address fun inst => { inst with alive := false }

/-- `tsdb_map_[project_id] = std::move(tsdb)`, which destroys what the entry had before. -/
def State.enter (s : State ι) (projectId : Bytes) (address : Nat) : State ι :=
  { s with
    tsdbMap := Function.update s.tsdbMap projectId (some address)
    heap := match s.tsdbMap projectId with
      | some old => destroy s.heap old
      | none => s.heap }

def State.insert (s : State ι) (address : Nat) (entry : TsdbEntry) : State ι :=
  { s with
    heap := s.heap.modify address fun inst => { inst with store := inst.store.insert entry } }

def State.evict (s : State ι) (address : Nat) (now : Int) : State ι :=
  { s with
    heap := s.heap.modify address fun inst =>
      { inst with store := inst.store.evictOldEntries now } }

inductive Label (ι : Type) where
  | account (event : Event)
  | evicted (projectId : Bytes) (now : Int)
  | moved (t : ι)
  | constructed (t : ι) (projectId : Bytes)
  | failed (t : ι) (projectId : Bytes)
  | inserted (t : ι) (projectId : Bytes) (address : Nat) (entry : TsdbEntry)
  | returned (t : ι) (projectId : Bytes) (address : Option Nat)

inductive Step (s : State ι) : Label ι → State ι → Prop
  | account {event : Event} {next : ProjectStore.State}
      (step : ProjectStore.Step s.projectStore event next) :
      Step s (.account event) { s with projectStore := next }
  | evicted {address : Nat} {inst : Instance} (now : Int) (present : s.heap[address]? = some inst)
      (alive : inst.alive = true) :
      Step s (.evicted inst.projectId now) (s.evict address now)
  | routeIngest {t : ι} (apiKey : Bytes) (entry : TsdbEntry) (here : s.threads t = .idle) :
      Step s (.moved t) (s.goto t (.routeIngest s.projectStore apiKey entry))
  | ingestToProject {t : ι} (projectId : Bytes) (entry : TsdbEntry) (here : s.threads t = .idle) :
      Step s (.moved t) (s.goto t (.ingestToProject projectId entry))
  | getTsdb {t : ι} {projectId : Bytes} (here : s.threads t = .idle) (named : projectId ≠ []) :
      Step s (.moved t) (s.goto t (.within ⟨projectId, named, .returnPointer⟩ .called))
  | gotNullptr {t : ι} (here : s.threads t = .idle) : Step s (.returned t [] none) s
  | lockShared {t : ι} {call : Call} {mutex : SharedMutex ι}
      (here : s.threads t = .within call .called)
      (taken : s.tsdbMapMutex.lockShared t = some mutex) :
      Step s (.moved t) { s.goto t (.within call .reading) with tsdbMapMutex := mutex }
  | find {t : ι} {call : Call} (here : s.threads t = .within call .reading) :
      Step s (.moved t) (s.goto t (.within call (.read (s.tsdbMap call.projectId))))
  | unlockShared {t : ι} {call : Call} {found : Option Nat} {mutex : SharedMutex ι}
      (here : s.threads t = .within call (.read found))
      (left : s.tsdbMapMutex.unlockShared t = some mutex) :
      Step s (.moved t) { s.goto t (.within call (found.elim .missed .referring)) with
        tsdbMapMutex := mutex }
  | lock {t : ι} {call : Call} {mutex : SharedMutex ι} (here : s.threads t = .within call .missed)
      (taken : s.tsdbMapMutex.lock t = some mutex) :
      Step s (.moved t) { s.goto t (.within call .rechecking) with tsdbMapMutex := mutex }
  | recheck {t : ι} {call : Call} (here : s.threads t = .within call .rechecking) :
      Step s (.moved t)
        (s.goto t (.within call ((s.tsdbMap call.projectId).elim .constructing .leaving)))
  /-- The constructor throws, and the call with it. -/
  | threw {t : ι} {call : Call} {mutex : SharedMutex ι}
      (here : s.threads t = .within call .constructing)
      (left : s.tsdbMapMutex.unlock t = some mutex) :
      Step s (.moved t) { s.goto t .idle with tsdbMapMutex := mutex }
  | constructed {t : ι} {call : Call} (here : s.threads t = .within call .constructing) :
      Step s (.constructed t call.projectId)
        { s.goto t (.within call (.constructed s.heap.length)) with
          heap := s.heap ++ [⟨call.projectId, true, s.files call.projectId⟩] }
  /-- `start` throws, or the map cannot take the entry: the store is destroyed, which waits for
  the threads it has and writes its file, and the lock is given back. -/
  | failed {t : ι} {call : Call} {address : Nat} {mutex : SharedMutex ι} (saved : Tsdb.Store)
      (here : s.threads t = .within call (.constructed address))
      (left : s.tsdbMapMutex.unlock t = some mutex) :
      Step s (.failed t call.projectId)
        { s.goto t .idle with
          tsdbMapMutex := mutex
          heap := destroy s.heap address
          files := Function.update s.files call.projectId saved }
  | entered {t : ι} {call : Call} {address : Nat}
      (here : s.threads t = .within call (.constructed address)) :
      Step s (.moved t) ((s.enter call.projectId address).goto t (.within call (.leaving address)))
  | unlock {t : ι} {call : Call} {address : Nat} {mutex : SharedMutex ι}
      (here : s.threads t = .within call (.leaving address))
      (left : s.tsdbMapMutex.unlock t = some mutex) :
      Step s (.moved t) { s.goto t (.within call (.referring address)) with tsdbMapMutex := mutex }
  | inserted {t : ι} {projectId : Bytes} {named : projectId ≠ []} {entry : TsdbEntry}
      {address : Nat}
      (here : s.threads t = .within ⟨projectId, named, .insert entry⟩ (.referring address)) :
      Step s (.inserted t projectId address entry) ((s.insert address entry).goto t .idle)
  | returned {t : ι} {projectId : Bytes} {named : projectId ≠ []} {address : Nat}
      (here : s.threads t = .within ⟨projectId, named, .returnPointer⟩ (.referring address)) :
      Step s (.returned t projectId (some address)) (s.goto t .idle)

/-- The call of the label has put its entry into this store or given out a pointer to it. -/
def Label.Uses (projectId : Bytes) (address : Nat) : Label ι → Prop
  | .inserted _ id used _ => id = projectId ∧ used = address
  | .returned _ id used => id = projectId ∧ used = some address
  | _ => False

/-- There is a store of the project at the address, and it was not destroyed. -/
def Lives (heap : List Instance) (projectId : Bytes) (address : Nat) : Prop :=
  ∃ inst, heap[address]? = some inst ∧ inst.projectId = projectId ∧ inst.alive = true

def Stage.Sound (tsdbMap : Bytes → Option Nat) (heap : List Instance) (projectId : Bytes) :
    Stage → Prop
  | .read (some address) | .leaving address | .referring address => tsdbMap projectId = some address
  | .constructing => tsdbMap projectId = none
  | .constructed address => tsdbMap projectId = none ∧ Lives heap projectId address
  | _ => True

/-- A project's next store is constructed when the one before it is no more. -/
def Instance.Before (earlier later : Instance) : Prop :=
  earlier.projectId = later.projectId → earlier.alive = false

structure Invariant (s : State ι) : Prop where
  holding (t : ι) : (s.threads t).holding = s.tsdbMapMutex.holding t
  entries {projectId : Bytes} {address : Nat} :
    s.tsdbMap projectId = some address → Lives s.heap projectId address
  /-- A store that is not in the map is in the hands of the thread that constructed it. -/
  known {address : Nat} {inst : Instance} : s.heap[address]? = some inst → inst.alive = true →
    s.tsdbMap inst.projectId = some address ∨
      ∃ t call, s.threads t = .within call (.constructed address) ∧ call.projectId = inst.projectId
  sound {t : ι} {call : Call} {stage : Stage} : s.threads t = .within call stage →
    stage.Sound s.tsdbMap s.heap call.projectId
  destroyed : s.heap.Pairwise Instance.Before

@[simp] theorem State.goto_self (s : State ι) (t : ι) (point : Point) :
    (s.goto t point).threads t = point := Function.update_self ..

theorem State.goto_ne {s : State ι} {t u : ι} (other : u ≠ t) (point : Point) :
    (s.goto t point).threads u = s.threads u := Function.update_of_ne other ..

section Preservation

variable {s : State ι} {t : ι}

omit [DecidableEq ι] in
theorem Lives.modify {heap : List Instance} {projectId : Bytes} {address : Nat}
    (lives : Lives heap projectId address) (changed : Nat) {f : Instance → Instance}
    (keepsId : ∀ inst, (f inst).projectId = inst.projectId)
    (keepsAlive : ∀ inst, (f inst).alive = inst.alive) :
    Lives (heap.modify changed f) projectId address := by
  obtain ⟨inst, present, named, alive⟩ := lives
  refine ⟨if changed = address then f inst else inst, ?_, ?_, ?_⟩
  · rw [List.getElem?_modify, present]
    rfl
  · split
    · exact (keepsId inst).trans named
    · exact named
  · split
    · exact (keepsAlive inst).trans alive
    · exact alive

theorem Lives.append {heap more : List Instance} {projectId : Bytes} {address : Nat}
    (lives : Lives heap projectId address) : Lives (heap ++ more) projectId address := by
  obtain ⟨inst, present, rest⟩ := lives
  obtain ⟨inside, -⟩ := List.getElem?_eq_some_iff.mp present
  exact ⟨inst, by rwa [List.getElem?_append_left inside], rest⟩

omit [DecidableEq ι] in
theorem before_modify {heap : List Instance} (before : heap.Pairwise Instance.Before)
    (changed : Nat) {f : Instance → Instance}
    (keepsId : ∀ inst, (f inst).projectId = inst.projectId)
    (keepsDead : ∀ inst, inst.alive = false → (f inst).alive = false) :
    (heap.modify changed f).Pairwise Instance.Before := by
  rw [List.pairwise_iff_getElem] at before ⊢
  intro i j first second earlier same
  have named (k : Nat) (inside : k < (heap.modify changed f).length) :
      (heap.modify changed f)[k].projectId =
        (heap.get ⟨k, by rwa [List.length_modify] at inside⟩).projectId := by
    rw [List.getElem_modify]
    split
    · exact keepsId _
    · rfl
  rw [named i first, named j second] at same
  have dead := before i j (by rwa [List.length_modify] at first)
    (by rwa [List.length_modify] at second) earlier same
  rw [List.getElem_modify]
  split
  · exact keepsDead _ dead
  · exact dead

theorem Stage.Sound.mono {tsdbMap : Bytes → Option Nat} {heap next : List Instance}
    {projectId : Bytes} {stage : Stage}
    (stays : ∀ {address}, Lives heap projectId address → Lives next projectId address)
    (sound : stage.Sound tsdbMap heap projectId) : stage.Sound tsdbMap next projectId := by
  cases stage with
  | constructed address => exact ⟨sound.1, stays sound.2⟩
  | read found => cases found <;> exact sound
  | _ => exact sound

theorem entry_stays {tsdbMap : Bytes → Option Nat} {new projectId : Bytes} {known : Nat}
    (absent : tsdbMap new = none) (entered : tsdbMap projectId = some known) (address : Nat) :
    Function.update tsdbMap new (some address) projectId = some known := by
  have other : projectId ≠ new := by
    rintro rfl
    rw [absent] at entered
    cases entered
  rw [Function.update_of_ne other, entered]

theorem Stage.Sound.enter {tsdbMap : Bytes → Option Nat} {heap : List Instance}
    {new projectId : Bytes} {stage : Stage} (absent : tsdbMap new = none) (address : Nat)
    (outside : stage.holding ≠ .exclusive) (sound : stage.Sound tsdbMap heap projectId) :
    stage.Sound (Function.update tsdbMap new (some address)) heap projectId := by
  cases stage with
  | read found =>
    cases found with
    | none => trivial
    | some found => exact entry_stays absent sound address
  | referring found => exact entry_stays absent sound address
  | leaving found => exact absurd rfl outside
  | constructing => exact absurd rfl outside
  | constructed found => exact absurd rfl outside
  | _ => trivial

theorem Invariant.moves (inv : Invariant s) {point : Point} {mutex : SharedMutex ι}
    (follows : mutex.holding = Function.update s.tsdbMapMutex.holding t point.holding)
    (sound : ∀ call stage, point = .within call stage →
      stage.Sound s.tsdbMap s.heap call.projectId)
    (unfinished : ∀ call address, s.threads t ≠ .within call (.constructed address)) :
    Invariant { s.goto t point with tsdbMapMutex := mutex } where
  holding u := by
    rw [follows]
    by_cases same : u = t
    · subst u
      simp only [State.goto_self, Function.update_self]
    · simp only [State.goto_ne same, Function.update_of_ne same]
      exact inv.holding u
  entries := inv.entries
  known present alive := by
    rcases inv.known present alive with entered | ⟨u, call, there, named⟩
    · exact .inl entered
    · refine .inr ⟨u, call, ?_, named⟩
      have other : u ≠ t := fun same => unfinished call _ (same ▸ there)
      simpa only [State.goto_ne other] using there
  destroyed := inv.destroyed
  sound {u call stage} there := by
    by_cases same : u = t
    · subst u
      simp only [State.goto_self] at there
      exact sound call stage there
    · simp only [State.goto_ne same] at there
      exact inv.sound there

theorem Invariant.walks (inv : Invariant s) {point : Point}
    (same : point.holding = (s.threads t).holding)
    (sound : ∀ call stage, point = .within call stage →
      stage.Sound s.tsdbMap s.heap call.projectId)
    (unfinished : ∀ call address, s.threads t ≠ .within call (.constructed address)) :
    Invariant (s.goto t point) := by
  have follows : s.tsdbMapMutex.holding =
      Function.update s.tsdbMapMutex.holding t point.holding := by
    rw [same, inv.holding t, Function.update_eq_self]
  exact inv.moves follows sound unfinished

theorem Invariant.modify (inv : Invariant s) (changed : Nat) {f : Instance → Instance}
    (keepsId : ∀ inst, (f inst).projectId = inst.projectId)
    (keepsAlive : ∀ inst, (f inst).alive = inst.alive) :
    Invariant { s with heap := s.heap.modify changed f } where
  holding := inv.holding
  entries entered := (inv.entries entered).modify changed keepsId keepsAlive
  known {address inst} present alive := by
    rw [List.getElem?_modify, Option.map_eq_map, Option.map_eq_some_iff] at present
    obtain ⟨old, there, rfl⟩ := present
    have named : (if changed = address then f old else old).projectId = old.projectId := by
      split
      · exact keepsId old
      · rfl
    have lived : (if changed = address then f old else old).alive = old.alive := by
      split
      · exact keepsAlive old
      · rfl
    rw [named]
    exact inv.known there (lived.symm.trans alive)
  sound there := (inv.sound there).mono fun lives => lives.modify changed keepsId keepsAlive
  destroyed := before_modify inv.destroyed changed keepsId fun inst dead =>
    (keepsAlive inst).trans dead

theorem Invariant.alone (inv : Invariant s) {u : ι}
    (mine : (s.threads t).holding = .exclusive) (held : (s.threads u).holding ≠ .nothing) :
    u = t := by
  rw [inv.holding] at mine held
  exact SharedMutex.alone mine held

/-- Where a store is about to be constructed, no other of the project is left. -/
theorem Invariant.none_alive (inv : Invariant s) {call : Call}
    (here : s.threads t = .within call .constructing) {inst : Instance} (inside : inst ∈ s.heap)
    (named : inst.projectId = call.projectId) : inst.alive = false := by
  obtain ⟨address, present⟩ := List.getElem?_of_mem inside
  have absent : s.tsdbMap call.projectId = none := inv.sound here
  apply Bool.eq_false_of_not_eq_true
  intro alive
  rcases inv.known present alive with entered | ⟨u, holder, there, -⟩
  · rw [named, absent] at entered
    cases entered
  · have same : u = t := by
      apply inv.alone
      · rw [here]
        rfl
      · rw [there]
        rintro ⟨⟩
    rw [same, here] at there
    cases there

/-- A store is constructed by the thread with the exclusive lock, which has just seen that the
project has none. -/
theorem Invariant.constructed (inv : Invariant s) {call : Call} {inst : Instance}
    (here : s.threads t = .within call .constructing) (named : inst.projectId = call.projectId)
    (alive : inst.alive = true) :
    Invariant { s.goto t (.within call (.constructed s.heap.length)) with
      heap := s.heap ++ [inst] } where
  holding u := by
    by_cases same : u = t
    · rw [same]
      have held := inv.holding t
      rw [here] at held
      simp only [State.goto_self]
      exact held
    · simp only [State.goto_ne same]
      exact inv.holding u
  entries entered := (inv.entries entered).append
  known {address other} present living := by
    by_cases old : address < s.heap.length
    · rw [List.getElem?_append_left old] at present
      rcases inv.known present living with entered | ⟨u, holder, there, same⟩
      · exact .inl entered
      · have elsewhere : u ≠ t := by
          rintro rfl
          rw [here] at there
          cases there
        refine .inr ⟨u, holder, ?_, same⟩
        simpa only [State.goto_ne elsewhere] using there
    · rw [List.getElem?_append_right (Nat.not_lt.mp old), List.getElem?_singleton,
        Option.ite_none_right_eq_some, Option.some.injEq] at present
      obtain ⟨last, rfl⟩ := present
      have position : address = s.heap.length := by omega
      refine .inr ⟨t, call, ?_, named.symm⟩
      simp only [State.goto_self, position]
  sound {u holder stage} there := by
    by_cases same : u = t
    · subst u
      simp only [State.goto_self] at there
      cases there
      exact ⟨inv.sound here, inst, by simp, named, alive⟩
    · simp only [State.goto_ne same] at there
      exact (inv.sound there).mono Lives.append
  destroyed := by
    rw [List.pairwise_append]
    refine ⟨inv.destroyed, List.pairwise_singleton .., fun earlier inside later last same => ?_⟩
    rw [List.mem_singleton] at last
    subst last
    exact inv.none_alive here inside (same.trans named)

/-- The thread that constructed a store finds no entry to be replaced. -/
theorem Invariant.enter_heap (inv : Invariant s) {call : Call} {address : Nat}
    (here : s.threads t = .within call (.constructed address)) :
    (s.enter call.projectId address).heap = s.heap := by
  have absent : s.tsdbMap call.projectId = none := (inv.sound here).1
  simp only [State.enter, absent]

theorem Invariant.entered (inv : Invariant s) {call : Call} {address : Nat}
    (here : s.threads t = .within call (.constructed address)) :
    Invariant ((s.enter call.projectId address).goto t (.within call (.leaving address))) := by
  obtain ⟨absent, lives⟩ := inv.sound here
  have heap := inv.enter_heap here
  have exclusive : (s.threads t).holding = .exclusive := by rw [here]; rfl
  have now : (s.enter call.projectId address).tsdbMap call.projectId = some address := by
    simp only [State.enter, Function.update_self]
  constructor
  case holding =>
    intro u
    by_cases same : u = t
    · subst u
      simp only [State.goto_self]
      exact exclusive.symm.trans (inv.holding _)
    · simp only [State.goto_ne same]
      exact inv.holding u
  case entries =>
    intro projectId known entered
    change Lives (s.enter call.projectId address).heap projectId known
    change (s.enter call.projectId address).tsdbMap projectId = some known at entered
    rw [heap]
    by_cases same : projectId = call.projectId
    · subst same
      rw [now, Option.some.injEq] at entered
      subst entered
      exact lives
    · simp only [State.enter, Function.update_of_ne same] at entered
      exact inv.entries entered
  case known =>
    intro known inst present alive
    change (s.enter call.projectId address).heap[known]? = some inst at present
    rw [heap] at present
    rcases inv.known present alive with entered | ⟨u, holder, there, named⟩
    · exact .inl (entry_stays absent entered address)
    · have same : u = t := by
        apply inv.alone exclusive
        rw [there]
        rintro ⟨⟩
      subst u
      rw [here] at there
      cases there
      refine .inl ?_
      rw [← named]
      exact now
  case sound =>
    intro u holder stage there
    change stage.Sound (s.enter call.projectId address).tsdbMap
      (s.enter call.projectId address).heap holder.projectId
    rw [heap]
    by_cases same : u = t
    · subst u
      simp only [State.goto_self] at there
      cases there
      exact now
    · simp only [State.goto_ne same] at there
      have outside : stage.holding ≠ .exclusive := by
        intro both
        refine same (inv.alone exclusive ?_)
        have held : (s.threads u).holding = stage.holding := congrArg Point.holding there
        rw [held, both]
        rintro ⟨⟩
      exact (inv.sound there).enter absent address outside
  case destroyed =>
    change (s.enter call.projectId address).heap.Pairwise Instance.Before
    rw [heap]
    exact inv.destroyed

theorem Stage.Sound.outside {tsdbMap : Bytes → Option Nat} {heap next : List Instance}
    {projectId : Bytes} {stage : Stage} (outside : stage.holding ≠ .exclusive)
    (sound : stage.Sound tsdbMap heap projectId) : stage.Sound tsdbMap next projectId := by
  cases stage with
  | read found => cases found <;> exact sound
  | constructed address => exact absurd rfl outside
  | _ => exact sound

/-- The store that is destroyed is in nobody else's hands. -/
theorem Invariant.failed (inv : Invariant s) {call : Call} {address : Nat} {mutex : SharedMutex ι}
    (here : s.threads t = .within call (.constructed address))
    (left : s.tsdbMapMutex.unlock t = some mutex) (files : Bytes → Tsdb.Store) :
    Invariant { s.goto t .idle with
      tsdbMapMutex := mutex
      heap := destroy s.heap address
      files := files } := by
  obtain ⟨absent, own, present, named, -⟩ := inv.sound here
  have exclusive : (s.threads t).holding = .exclusive := by rw [here]; rfl
  have elsewhere {known : Nat} (other : known ≠ address) :
      (destroy s.heap address)[known]? = s.heap[known]? := by
    exact List.getElem?_modify_ne _ _ (Ne.symm other)
  constructor
  case holding =>
    intro u
    change Point.holding ((s.goto t .idle).threads u) = mutex.holding u
    rw [SharedMutex.holding_unlock left]
    by_cases same : u = t
    · subst u
      simp only [State.goto_self, Function.update_self]
      rfl
    · simp only [State.goto_ne same, Function.update_of_ne same]
      exact inv.holding u
  case entries =>
    intro projectId known entered
    obtain ⟨inst, there, rfl, alive⟩ := inv.entries entered
    have other : known ≠ address := by
      intro same
      rw [same, present, Option.some.injEq] at there
      subst there
      exact absurd (absent.symm.trans (named ▸ entered)) (by simp)
    exact ⟨inst, (elsewhere other).trans there, rfl, alive⟩
  case known =>
    intro known inst there alive
    change (destroy s.heap address)[known]? = some inst at there
    have other : known ≠ address := by
      intro same
      subst known
      rw [destroy, List.getElem?_modify_eq, present, Option.map_eq_map, Option.map_some,
        Option.some.injEq] at there
      subst there
      cases alive
    rw [elsewhere other] at there
    rcases inv.known there alive with entered | ⟨u, holder, constructing, same⟩
    · exact .inl entered
    · have stranger : u ≠ t := by
        intro same
        rw [same, here] at constructing
        cases constructing
        exact other rfl
      refine .inr ⟨u, holder, ?_, same⟩
      simpa only [State.goto_ne stranger] using constructing
  case sound =>
    intro u holder stage there
    by_cases same : u = t
    · subst u
      simp only [State.goto_self, reduceCtorEq] at there
    · simp only [State.goto_ne same] at there
      have outside : stage.holding ≠ .exclusive := by
        intro both
        refine same (inv.alone exclusive ?_)
        have held : (s.threads u).holding = stage.holding := congrArg Point.holding there
        rw [held, both]
        rintro ⟨⟩
      exact (inv.sound there).outside outside
  case destroyed => exact before_modify inv.destroyed address (fun _ => rfl) fun _ _ => rfl

/-- Where a call begins, nothing is known yet. -/
theorem ingestToProject_cases (projectId : Bytes) (entry : TsdbEntry) :
    Point.ingestToProject projectId entry = .idle ∨
      ∃ call, Point.ingestToProject projectId entry = .within call .called := by
  unfold Point.ingestToProject
  split
  · exact .inl rfl
  · exact .inr ⟨_, rfl⟩

theorem routeIngest_cases (projectStore : ProjectStore.State) (apiKey : Bytes) (entry : TsdbEntry) :
    Point.routeIngest projectStore apiKey entry = .idle ∨
      ∃ call, Point.routeIngest projectStore apiKey entry = .within call .called := by
  unfold Point.routeIngest
  cases findByApiKey projectStore apiKey with
  | none => exact .inl rfl
  | some proj => exact ingestToProject_cases proj.id entry

theorem Invariant.begins (inv : Invariant s) {point : Point} (here : s.threads t = .idle)
    (shape : point = .idle ∨ ∃ call, point = .within call .called) :
    Invariant (s.goto t point) := by
  have nobody : ∀ call address, s.threads t ≠ .within call (.constructed address) := by
    intro call address there
    rw [here] at there
    cases there
  rcases shape with rfl | ⟨call, rfl⟩
  · exact inv.walks (by rw [here]) nofun nobody
  · refine inv.walks (by rw [here]; rfl) ?_ nobody
    intro other stage same
    cases same
    trivial

theorem step_invariant {label : Label ι} {next : State ι} (inv : Invariant s)
    (step : Step s label next) : Invariant next := by
  -- A thread that is at another stage has not just constructed a store.
  have elsewhere {u : ι} {call : Call} {stage : Stage} (here : s.threads u = .within call stage)
      (other : ∀ address, stage ≠ .constructed address) (holder : Call) (address : Nat) :
      s.threads u ≠ .within holder (.constructed address) := by
    intro there
    rw [here] at there
    cases there
    exact other address rfl
  cases step with
  | account step => exact ⟨inv.holding, inv.entries, inv.known, inv.sound, inv.destroyed⟩
  | evicted now present alive => exact inv.modify _ (fun _ => rfl) fun _ => rfl
  | routeIngest apiKey entry here => exact inv.begins here (routeIngest_cases ..)
  | ingestToProject projectId entry here => exact inv.begins here (ingestToProject_cases ..)
  | getTsdb here named => exact inv.begins here (.inr ⟨_, rfl⟩)
  | gotNullptr here => exact inv
  | lockShared here taken =>
    refine inv.moves (SharedMutex.holding_lockShared taken) ?_ (elsewhere here nofun)
    rintro _ _ ⟨⟩
    trivial
  | @find t call here =>
    refine inv.walks (by rw [here]; rfl) ?_ (elsewhere here nofun)
    rintro _ _ ⟨⟩
    cases found : s.tsdbMap call.projectId with
    | none => trivial
    | some address => exact found
  | @unlockShared t call found mutex here left =>
    have known := inv.sound here
    cases found with
    | none =>
      refine inv.moves (SharedMutex.holding_unlockShared left) ?_ (elsewhere here nofun)
      rintro _ _ ⟨⟩
      trivial
    | some address =>
      refine inv.moves (SharedMutex.holding_unlockShared left) ?_ (elsewhere here nofun)
      rintro _ _ ⟨⟩
      exact known
  | lock here taken =>
    refine inv.moves (SharedMutex.holding_lock taken) ?_ (elsewhere here nofun)
    rintro _ _ ⟨⟩
    trivial
  | @recheck t call here =>
    cases found : s.tsdbMap call.projectId with
    | none =>
      refine inv.walks (by rw [here]; rfl) ?_ (elsewhere here nofun)
      rintro _ _ ⟨⟩
      exact found
    | some address =>
      refine inv.walks (by rw [here]; rfl) ?_ (elsewhere here nofun)
      rintro _ _ ⟨⟩
      exact found
  | threw here left =>
    exact inv.moves (SharedMutex.holding_unlock left) nofun (elsewhere here nofun)
  | constructed here => exact inv.constructed here rfl rfl
  | failed saved here left => exact inv.failed here left _
  | entered here => exact inv.entered here
  | unlock here left =>
    have known := inv.sound here
    refine inv.moves (SharedMutex.holding_unlock left) ?_ (elsewhere here nofun)
    rintro _ _ ⟨⟩
    exact known
  | @inserted t projectId named entry address here =>
    have filled : Invariant (s.insert address entry) :=
      inv.modify _ (fun _ => rfl) fun _ => rfl
    have there : (s.insert address entry).threads t = .within _ (.referring address) := here
    exact filled.walks (by rw [there]; rfl) nofun (elsewhere here nofun)
  | returned here => exact inv.walks (by rw [here]; rfl) nofun (elsewhere here nofun)

theorem step_tsdbMap {label : Label ι} {next : State ι} (inv : Invariant s)
    (step : Step s label next) {projectId : Bytes} {address : Nat}
    (entered : s.tsdbMap projectId = some address) : next.tsdbMap projectId = some address := by
  cases step with
  | @entered t call new here =>
    have absent : s.tsdbMap call.projectId = none := (inv.sound here).1
    exact entry_stays absent entered new
  | _ => exact entered

/-- What a call uses is what the map has then. -/
theorem step_uses {label : Label ι} {next : State ι} (inv : Invariant s)
    (step : Step s label next) {projectId : Bytes} {address : Nat}
    (used : label.Uses projectId address) : s.tsdbMap projectId = some address := by
  cases step with
  | inserted here =>
    obtain ⟨rfl, rfl⟩ := used
    exact inv.sound here
  | returned here =>
    obtain ⟨rfl, same⟩ := used
    cases same
    exact inv.sound here
  | gotNullptr here => exact nomatch used.2
  | _ => exact used.elim

theorem mem_modify {heap : List Instance} {changed : Nat} {f : Instance → Instance}
    {inst : Instance} (inside : inst ∈ heap.modify changed f) :
    inst ∈ heap ∨ ∃ old, heap[changed]? = some old ∧ inst = f old := by
  obtain ⟨address, there⟩ := List.getElem?_of_mem inside
  rw [List.getElem?_modify, Option.map_eq_map, Option.map_eq_some_iff] at there
  obtain ⟨old, present, rfl⟩ := there
  split
  next same => exact .inr ⟨old, same ▸ present, rfl⟩
  next other => exact .inl (List.mem_of_getElem? present)

/-- A store is destroyed only where it was not started. -/
theorem step_destroyed {label : Label ι} {next : State ι} (inv : Invariant s)
    (step : Step s label next) {inst : Instance} (inside : inst ∈ next.heap)
    (dead : inst.alive = false) :
    (∃ old ∈ s.heap, old.projectId = inst.projectId ∧ old.alive = false) ∨
      ∃ t, label = .failed t inst.projectId := by
  cases step with
  | evicted now present alive =>
    rcases mem_modify inside with old | ⟨old, there, rfl⟩
    · exact .inl ⟨inst, old, rfl, dead⟩
    · exact .inl ⟨old, List.mem_of_getElem? there, rfl, dead⟩
  | inserted here =>
    rcases mem_modify inside with old | ⟨old, there, rfl⟩
    · exact .inl ⟨inst, old, rfl, dead⟩
    · exact .inl ⟨old, List.mem_of_getElem? there, rfl, dead⟩
  | constructed here =>
    rcases List.mem_append.mp inside with old | new
    · exact .inl ⟨inst, old, rfl, dead⟩
    · rw [List.mem_singleton.mp new] at dead
      cases dead
  | @failed t call address mutex saved here left =>
    rcases mem_modify inside with old | ⟨old, there, rfl⟩
    · exact .inl ⟨inst, old, rfl, dead⟩
    · obtain ⟨-, own, present, named, -⟩ := inv.sound here
      rw [present, Option.some.injEq] at there
      subst there
      exact .inr ⟨t, congrArg (Label.failed t) named.symm⟩
  | entered here =>
    have same : inst ∈ s.heap := by
      rw [← inv.enter_heap here]
      exact inside
    exact .inl ⟨inst, same, rfl, dead⟩
  | _ => exact .inl ⟨inst, inside, rfl, dead⟩

def storeOf (heap : List Instance) (projectId : Bytes) : Option Tsdb.Store :=
  (heap.find? fun inst => inst.projectId = projectId).map Instance.store

/-- What the threads have made, seen as if every call were one step. -/
def State.atomic (s : State ι) : TenantManager.State := ⟨s.projectStore, storeOf s.heap⟩

def Label.atomic : Label ι → List TenantManager.Label
  | .account event => [.account event]
  | .evicted projectId now => [.evict projectId now]
  | .moved _ | .failed .. => []
  | .constructed _ projectId => [.getTsdb projectId]
  | .inserted _ projectId _ entry => [.ingestToProject projectId entry]
  | .returned _ projectId _ => [.getTsdb projectId]

theorem storeOf_of_getElem? {heap : List Instance} (unique : (heap.map Instance.projectId).Nodup)
    {address : Nat} {inst : Instance} (present : heap[address]? = some inst) :
    storeOf heap inst.projectId = some inst.store := by
  let stores : OrderedMap Instance.projectId := ⟨heap, unique⟩
  have found : stores.get inst.projectId = some inst :=
    OrderedMap.get_eq_some_iff.mpr ⟨List.mem_of_getElem? present, rfl⟩
  exact congrArg (Option.map Instance.store) found

theorem storeOf_modify {heap : List Instance} (unique : (heap.map Instance.projectId).Nodup)
    {address : Nat} {inst : Instance} (present : heap[address]? = some inst)
    {f : Instance → Instance} (keepsId : (f inst).projectId = inst.projectId) (project : Bytes) :
    storeOf (heap.modify address f) project =
      if inst.projectId = project then some (f inst).store else storeOf heap project := by
  obtain ⟨inside, rfl⟩ := List.getElem?_eq_some_iff.mp present
  have shape : heap.take address ++ heap[address] :: heap.drop (address + 1) = heap := by
    rw [List.cons_getElem_drop_succ, List.take_append_drop]
  by_cases same : heap[address].projectId = project
  · subst same
    have changed : (heap.modify address f)[address]? = some (f heap[address]) := by
      rw [List.getElem?_modify_eq, present]
      rfl
    have again : ((heap.modify address f).map Instance.projectId).Nodup := by
      rw [List.modify_eq_take_cons_drop inside, List.map_append, List.map_cons, keepsId,
        ← List.map_cons, ← List.map_append, shape]
      exact unique
    have found := storeOf_of_getElem? again changed
    rw [keepsId] at found
    rw [found, if_pos rfl]
  · rw [if_neg same, List.modify_eq_take_cons_drop inside]
    conv_rhs => rw [← shape]
    unfold storeOf
    rw [List.find?_append, List.find?_append, List.find?_cons_of_neg, List.find?_cons_of_neg]
    · simpa using same
    · simpa [keepsId] using same

theorem storeOf_append {heap : List Instance} {inst : Instance}
    (unique : ((heap ++ [inst]).map Instance.projectId).Nodup) (project : Bytes) :
    storeOf (heap ++ [inst]) project =
      if inst.projectId = project then some inst.store else storeOf heap project := by
  by_cases same : inst.projectId = project
  · subst same
    rw [if_pos rfl]
    exact storeOf_of_getElem? unique List.getElem?_concat_length
  · rw [if_neg same]
    unfold storeOf
    rw [List.find?_append, List.find?_singleton, if_neg (by simpa using same), Option.or_none]

omit [DecidableEq ι] in
theorem eq_atomic {a : TenantManager.State} (accounts : a.projectStore = s.projectStore)
    (stores : ∀ project, a.tsdbMap project = storeOf s.heap project) : s.atomic = a := by
  cases a with
  | mk projectStore tsdbMap =>
    subst accounts
    exact congrArg (TenantManager.State.mk s.projectStore) (funext fun project =>
      (stores project).symm)

omit [DecidableEq ι] in
theorem single_atomic {persisted : Bytes → Tsdb.Store} {a b : TenantManager.State}
    {label : TenantManager.Label} (step : TenantManager.Step persisted b label a)
    (accounts : a.projectStore = s.projectStore)
    (stores : ∀ project, a.tsdbMap project = storeOf s.heap project) :
    Run (TenantManager.Step persisted) b [label] s.atomic := by
  rw [eq_atomic accounts stores]
  exact Run.single step

theorem Invariant.nodup (inv : Invariant s) (alive : ∀ inst ∈ s.heap, inst.alive = true) :
    (s.heap.map Instance.projectId).Nodup := by
  rw [List.Nodup, List.pairwise_map]
  refine inv.destroyed.imp_of_mem fun inside _ before same => ?_
  have dead := before same
  rw [alive _ inside] at dead
  cases dead

theorem step_atomic {label : Label ι} {next : State ι} (inv : Invariant s)
    (alive : ∀ inst ∈ s.heap, inst.alive = true) (step : Step s label next)
    (started : ∀ t projectId, label ≠ .failed t projectId) :
    Run (TenantManager.Step s.files) s.atomic label.atomic next.atomic := by
  have unique := inv.nodup alive
  cases step with
  | account step => exact Run.single (.account step)
  | failed saved here left => exact absurd rfl (started _ _)
  | @evicted address inst now present _ =>
    have before : s.atomic.tsdbMap inst.projectId = some inst.store :=
      storeOf_of_getElem? unique present
    refine single_atomic (.evict now before) rfl fun project => ?_
    rw [State.evict, storeOf_modify unique present rfl]
    simp only [State.atomic, Function.update_apply, eq_comm]
  | @constructed t call here =>
    have grown := (step_invariant inv (.constructed here)).nodup fun inst inside => by
      rcases List.mem_append.mp inside with old | new
      · exact alive inst old
      · rw [List.mem_singleton.mp new]
    have absent : storeOf s.heap call.projectId = none := by
      refine Option.map_eq_none_iff.mpr (List.find?_eq_none.mpr fun inst inside same => ?_)
      rw [List.map_append, List.nodup_append] at grown
      exact grown.2.2 _ (List.mem_map_of_mem inside) _ (List.mem_singleton_self _)
        (of_decide_eq_true same)
    refine single_atomic (.getTsdb s.atomic call.projectId)
      (TenantManager.getTsdb_projectStore s.files s.atomic call.projectId) fun project => ?_
    rw [TenantManager.getTsdb_tsdbMap, storeOf_append grown]
    by_cases same : call.projectId = project
    · subst project
      rw [if_pos ⟨rfl, call.named⟩, if_pos rfl]
      simp only [State.atomic, absent, Option.getD_none]
    · rw [if_neg same, if_neg fun both => same both.1]
      rfl
  | @inserted t projectId named entry address here =>
    obtain ⟨inst, present, rfl, -⟩ := inv.entries (inv.sound here)
    have before : s.atomic.tsdbMap inst.projectId = some inst.store :=
      storeOf_of_getElem? unique present
    refine single_atomic (.ingestToProject s.atomic inst.projectId entry)
      (TenantManager.ingestToProject_projectStore s.files s.atomic _ entry) fun project => ?_
    rw [TenantManager.ingestToProject_tsdbMap, State.goto, State.insert,
      storeOf_modify unique present rfl]
    by_cases same : inst.projectId = project
    · subst project
      rw [if_pos ⟨rfl, named⟩, if_pos rfl, before, Option.getD_some]
    · rw [if_neg same, if_neg fun both => same both.1]
      rfl
  | @returned t projectId named address here =>
    obtain ⟨inst, present, rfl, -⟩ := inv.entries (inv.sound here)
    have before : s.atomic.tsdbMap inst.projectId = some inst.store :=
      storeOf_of_getElem? unique present
    refine single_atomic (.getTsdb s.atomic inst.projectId)
      (TenantManager.getTsdb_projectStore s.files s.atomic _) fun project => ?_
    rw [TenantManager.getTsdb, if_neg named, TenantManager.getOrCreateTsdb, before]
    rfl
  | gotNullptr here => exact Run.single (.getTsdb s.atomic [])
  | @entered t call address here =>
    have heap := inv.enter_heap here
    have same : ((s.enter call.projectId address).goto t
        (.within call (.leaving address))).atomic = s.atomic := by
      refine eq_atomic rfl fun project => ?_
      rw [State.goto, heap]
      rfl
    exact same ▸ Run.refl
  | _ => exact Run.refl

end Preservation

section Runs

variable {persisted : Bytes → Tsdb.Store} {projectStore : ProjectStore.State}
  {defaultProjectId : Bytes}

theorem construct_invariant :
    Invariant (construct persisted projectStore defaultProjectId : State ι) := by
  have empty : Invariant
      (⟨projectStore, .free, fun _ => none, [], fun _ => .idle, persisted⟩ : State ι) := by
    exact ⟨fun t => (SharedMutex.holding_free t).symm, nofun, nofun, nofun, .nil⟩
  unfold construct
  split
  next named =>
    split
    next =>
      constructor
      case holding => exact empty.holding
      case entries =>
        intro projectId address entered
        by_cases same : projectId = defaultProjectId
        · subst same
          simp only [Function.update_self, Option.some.injEq] at entered
          subst entered
          exact ⟨_, rfl, rfl, rfl⟩
        · simp only [Function.update_of_ne same, reduceCtorEq] at entered
      case known =>
        intro address inst present _
        rw [List.getElem?_singleton, Option.ite_none_right_eq_some, Option.some.injEq] at present
        obtain ⟨rfl, rfl⟩ := present
        exact .inl (Function.update_self ..)
      case sound => nofun
      case destroyed => exact List.pairwise_singleton ..
    next => exact empty
  next => exact empty

omit [DecidableEq ι] in
theorem construct_atomic :
    (construct persisted projectStore defaultProjectId : State ι).atomic =
      TenantManager.construct persisted projectStore defaultProjectId := by
  unfold construct TenantManager.construct
  split
  next named =>
    split
    next =>
      refine eq_atomic rfl fun project => ?_
      unfold storeOf
      rw [List.find?_singleton]
      by_cases same : defaultProjectId = project
      · subst project
        simp [TenantManager.getOrCreateTsdb]
      · simp [TenantManager.getOrCreateTsdb, same, Ne.symm same]
    next => rfl
  next => rfl

variable {labels : List (Label ι)} {s : State ι}

theorem run_invariant
    (run : Run Step (construct persisted projectStore defaultProjectId) labels s) :
    Invariant s :=
  run.invariant (fun _ s => Invariant s) construct_invariant
    fun _ _ _ _ _ inv step => step_invariant inv step

omit [DecidableEq ι] in
theorem construct_files :
    (construct persisted projectStore defaultProjectId : State ι).files = persisted := by
  unfold construct
  dsimp only
  split
  · split <;> rfl
  · rfl

omit [DecidableEq ι] in
theorem construct_alive : ∀ inst ∈
    (construct persisted projectStore defaultProjectId : State ι).heap, inst.alive = true := by
  unfold construct
  dsimp only
  split
  · split
    · intro inst inside
      rw [List.mem_singleton.mp inside]
    · nofun
  · nofun

theorem run_destroyed
    (run : Run Step (construct persisted projectStore defaultProjectId) labels s)
    {inst : Instance} (inside : inst ∈ s.heap) (dead : inst.alive = false) :
    ∃ t, .failed t inst.projectId ∈ labels := by
  revert inst
  refine run.invariant (fun labels s => ∀ {inst}, inst ∈ s.heap → inst.alive = false →
    ∃ t, .failed t inst.projectId ∈ labels) ?_ ?_
  · intro inst inside dead
    rw [construct_alive inst inside] at dead
    cases dead
  · intro labels current label next earlier ih step inst inside dead
    rcases step_destroyed (run_invariant earlier) step inside dead with
      ⟨old, there, named, before⟩ | ⟨t, rfl⟩
    · obtain ⟨t, failed⟩ := ih there before
      exact ⟨t, List.mem_append_left _ (named ▸ failed)⟩
    · exact ⟨t, List.mem_append_right _ (List.mem_singleton_self _)⟩

theorem step_files {s next : State ι} {label : Label ι} (step : Step s label next)
    (started : ∀ t projectId, label ≠ .failed t projectId) : next.files = s.files := by
  cases step with
  | failed saved here left => exact absurd rfl (started _ _)
  | _ => rfl

/-- Where every store starts, the threads together do what the calls do one after another. -/
theorem run_atomic
    (run : Run Step (construct persisted projectStore defaultProjectId) labels s)
    (started : ∀ t projectId, .failed t projectId ∉ labels) :
    Run (TenantManager.Step persisted)
      (TenantManager.construct persisted projectStore defaultProjectId)
      (labels.flatMap Label.atomic) s.atomic := by
  have both : s.files = persisted ∧ Run (TenantManager.Step persisted)
      (TenantManager.construct persisted projectStore defaultProjectId)
      (labels.flatMap Label.atomic) s.atomic := by
    revert started
    refine run.invariant (fun labels s => (∀ t projectId, .failed t projectId ∉ labels) →
      s.files = persisted ∧ Run _ _ (labels.flatMap Label.atomic) s.atomic) ?_ ?_
    · intro _
      rw [construct_atomic]
      exact ⟨construct_files, Run.refl⟩
    · intro labels current label next earlier ih step started
      have before : ∀ t projectId, Label.failed t projectId ∉ labels :=
        fun t projectId inside => started t projectId (List.mem_append_left _ inside)
      have now : ∀ t projectId, label ≠ .failed t projectId := fun t projectId same =>
        started t projectId (same ▸ List.mem_append_right _ (List.mem_singleton_self _))
      have alive : ∀ inst ∈ current.heap, inst.alive = true := by
        intro inst inside
        by_contra dead
        obtain ⟨t, failed⟩ := run_destroyed earlier inside (Bool.eq_false_of_not_eq_true dead)
        exact before t _ failed
      obtain ⟨files, atomic⟩ := ih before
      have last := step_atomic (run_invariant earlier) alive step now
      rw [files] at last
      refine ⟨(step_files step now).trans files, ?_⟩
      rw [List.flatMap_append, List.flatMap_singleton]
      exact atomic.trans last
  exact both.2

/-- The map leads from the project to the store at this address, which was not destroyed. -/
def State.Serves (s : State ι) (projectId : Bytes) (address : Nat) : Prop :=
  s.tsdbMap projectId = some address ∧ Lives s.heap projectId address

theorem run_uses
    (run : Run Step (construct persisted projectStore defaultProjectId) labels s)
    {label : Label ι} (inside : label ∈ labels) {projectId : Bytes} {address : Nat}
    (used : label.Uses projectId address) : s.tsdbMap projectId = some address := by
  revert inside
  refine run.invariant (fun labels s => label ∈ labels → s.tsdbMap projectId = some address)
    nofun ?_
  intro labels current last next earlier ih step inside
  have inv := run_invariant earlier
  have entered : current.tsdbMap projectId = some address := by
    rcases List.mem_append.mp inside with before | now
    · exact ih before
    · rw [List.mem_singleton.mp now] at used
      exact step_uses inv step used
  exact step_tsdbMap inv step entered

/-- However many threads call and however their steps interleave: a project's next store is
constructed only when the one before it failed and was destroyed; a call that inserts or gives
out a pointer does it with the store that the map has for its project then; and that stays the
project's store, and is not destroyed, in every state that follows. -/
theorem one_tsdb
    (run : Run Step (construct persisted projectStore defaultProjectId) labels s) :
    s.heap.Pairwise Instance.Before ∧
      (∀ inst ∈ s.heap, inst.alive = false → ∃ t, .failed t inst.projectId ∈ labels) ∧
      (∀ label next, Step s label next → ∀ projectId address,
        label.Uses projectId address → s.Serves projectId address) ∧
      ∀ label ∈ labels, ∀ projectId address, label.Uses projectId address →
        s.Serves projectId address := by
  have inv := run_invariant run
  refine ⟨inv.destroyed, fun inst inside dead => run_destroyed run inside dead, ?_, ?_⟩
  · intro label next step projectId address used
    have entered := step_uses inv step used
    exact ⟨entered, inv.entries entered⟩
  · intro label inside projectId address used
    have entered := run_uses run inside used
    exact ⟨entered, inv.entries entered⟩

end Runs

/-- Two threads look for a project before one of them constructs its store. -/
def first : List (Label Bool) :=
  [.moved false, .moved true, .moved false, .moved true, .moved false, .moved true, .moved false,
    .moved true, .moved false, .moved false, .constructed false (text "p1")]

/-- The store does not start, and the other thread constructs one again. -/
def retry : List (Label Bool) :=
  first ++ [.failed false (text "p1"), .moved true, .moved true, .constructed true (text "p1")]

def race : List (Label Bool) :=
  first ++ [.moved false, .moved false, .returned false (text "p1") (some 0), .moved true,
    .moved true, .moved true, .returned true (text "p1") (some 0)]

def begin : State Bool := construct (fun _ => Tsdb.Store.empty) webStore []

def getP1 : Call := ⟨text "p1", by decide, .returnPointer⟩

theorem first_run : ∃ s : State Bool, Run Step begin first s ∧
    s.threads false = .within getP1 (.constructed 0) ∧ s.threads true = .within getP1 .missed ∧
    s.tsdbMapMutex = .exclusive false ∧ s.tsdbMap = begin.tsdbMap ∧
    s.heap = [⟨text "p1", true, Tsdb.Store.empty⟩] := by
  have both := (Run.single (@Step.getTsdb Bool _ begin false _ rfl getP1.named)).snoc
    (@Step.getTsdb _ _ _ true _ rfl getP1.named)
  have reading := (both.snoc (@Step.lockShared _ _ _ false _ _ rfl rfl)).snoc
    (@Step.lockShared _ _ _ true _ _ rfl rfl)
  have read := (reading.snoc (@Step.find _ _ _ false _ rfl)).snoc (@Step.find _ _ _ true _ rfl)
  have missed := (read.snoc (@Step.unlockShared _ _ _ false _ _ _ rfl rfl)).snoc
    (@Step.unlockShared _ _ _ true _ _ _ rfl rfl)
  have locked := (missed.snoc (@Step.lock _ _ _ false _ _ rfl rfl)).snoc
    (@Step.recheck _ _ _ false _ rfl)
  have constructed := locked.snoc (@Step.constructed _ _ _ false _ rfl)
  exact ⟨_, constructed, rfl, rfl, rfl, rfl, rfl⟩

theorem retry_run : ∃ s : State Bool, Run Step begin retry s ∧
    s.heap.map Instance.projectId = [text "p1", text "p1"] := by
  obtain ⟨s, run, here, there, mutex, tsdbMap, heap⟩ := first_run
  have absent : s.tsdbMap getP1.projectId = none := congrFun tsdbMap _
  have failed := run.snoc (.failed Tsdb.Store.empty here (by rw [mutex]; rfl))
  have locked := failed.snoc (@Step.lock _ _ _ true getP1 _ there rfl)
  have again := locked.snoc (@Step.recheck _ _ _ true getP1 rfl)
  have missed : Point.within getP1 ((s.tsdbMap getP1.projectId).elim .constructing .leaving) =
      .within getP1 .constructing := by
    rw [absent]
    rfl
  refine ⟨_, again.snoc (@Step.constructed _ _ _ true getP1 missed), ?_⟩
  change List.map Instance.projectId (destroy s.heap 0 ++ _) = _
  rw [heap]
  rfl

/-- Two stores of the project are constructed, one after the other. -/
theorem secondStore_constructed : ¬∀ (labels : List (Label Bool)) (s : State Bool),
    Run Step begin labels s → (s.heap.map Instance.projectId).Nodup := by
  intro claim
  obtain ⟨s, run, twice⟩ := retry_run
  have unique := claim retry s run
  rw [twice] at unique
  exact absurd unique (by decide)

theorem race_run : ∃ s : State Bool, Run Step begin race s := by
  obtain ⟨s, run, here, there, mutex, -, -⟩ := first_run
  have entered := run.snoc (.entered here)
  have left : s.tsdbMapMutex.unlock false = some .free := by rw [mutex]; rfl
  have done := (entered.snoc (@Step.unlock _ _ _ false getP1 0 _ rfl left)).snoc
    (@Step.returned _ _ _ false _ getP1.named 0 rfl)
  have second := (done.snoc (@Step.lock _ _ _ true getP1 _ there rfl)).snoc
    (@Step.recheck _ _ _ true getP1 rfl)
  exact ⟨_, (second.snoc (@Step.unlock _ _ _ true getP1 0 _ rfl rfl)).snoc
    (@Step.returned _ _ _ true _ getP1.named 0 rfl)⟩

/-- Both come away with the one store. -/
theorem one_tsdb_race : ∃ s : State Bool, Run Step begin race s ∧
    s.heap.Pairwise Instance.Before ∧
      (∀ inst ∈ s.heap, inst.alive = false → ∃ t, .failed t inst.projectId ∈ race) ∧
      ∀ label ∈ race, ∀ projectId address, label.Uses projectId address →
        s.Serves projectId address := by
  obtain ⟨s, run⟩ := race_run
  obtain ⟨before, failed, -, served⟩ := one_tsdb run
  exact ⟨s, run, before, failed, served⟩

end LogMonitor.TenantThreads
