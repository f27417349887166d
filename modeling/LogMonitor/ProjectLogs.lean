import LogMonitor.ProjectQuery
import LogMonitor.ProjectRefusals

/-!
What the logs of a project are over a whole run, and what a query lists: the
logs that had been handed to the project when the store was looked at, with
nothing of the others, whatever ran between the steps of the handler.
-/

namespace LogMonitor

namespace Tsdb
open Library Library.ByteString

end Tsdb

namespace ProjectRoutes
open Library Library.ByteString Library.Transition AuthManager ProjectStore Tsdb

section Contents

variable (cfg : Config)

end Contents

def System.contents (s : System) (cfg : Config) (id : Bytes) : Store :=
  s.state.contents cfg.persisted id

variable {cfg : Config} {hashPassword : Bytes → Bytes → Option Bytes}

section Reads

variable (cfg hashPassword) (start : System) (labels : List Label) (s : System) (thread : Nat)
variable (request : Request)

/-- Each look of a read found the logs of the project as they were at a step of its handler, after
the looks before it. -/
def Looked (id : Bytes) (kind : Read) (looks : List Look) : Prop :=
  ∀ (i : Nat) (look : Look), looks[i]? = some look →
    ∃ input, Took (Step cfg hashPassword) start labels s (.handle thread input) fun _ m =>
      m.active thread = some (request, .looking id kind (looks.take i)) ∧
        look = ⟨m.contents cfg id, input.nowNs⟩

def Phase.Honest : Phase → Prop
  | .owned _ id action => request.route = .project id action
  | .looking id kind looks => request.route = .project id (.read kind) ∧
      Looked cfg hashPassword start labels s thread request id kind looks
  | _ => True

def Answered (response : Response) : Prop :=
  ∀ id kind, cfg.hasTenantMgr = true → id ≠ [] → request.route = .project id (.read kind) →
    response.status = 200 →
    ∃ looks, Looked cfg hashPassword start labels s thread request id kind looks ∧
      kind.needed looks ≤ looks.length ∧ response = kind.respond cfg request looks

end Reads

section Later

variable {start s next : System} {labels : List Label} {label : Label} {thread : Nat}
variable {request : Request}

theorem Looked.snoc {id : Bytes} {kind : Read} {looks : List Look}
    (looked : Looked cfg hashPassword start labels s thread request id kind looks)
    (step : Step cfg hashPassword s label next) :
    Looked cfg hashPassword start (labels ++ [label]) next thread request id kind looks := by
  intro i look there
  obtain ⟨input, took⟩ := looked i look there
  exact ⟨input, took.snoc step⟩

theorem Phase.Honest.snoc {phase : Phase}
    (honest : phase.Honest cfg hashPassword start labels s thread request)
    (step : Step cfg hashPassword s label next) :
    phase.Honest cfg hashPassword start (labels ++ [label]) next thread request := by
  cases phase with
  | received => exact trivial
  | unexpired claims => exact trivial
  | authenticated claims => exact trivial
  | owned claims id action => exact honest
  | looking id kind looks => exact ⟨honest.1, honest.2.snoc step⟩

theorem Answered.snoc {response : Response}
    (answered : Answered cfg hashPassword start labels s thread request response)
    (step : Step cfg hashPassword s label next) :
    Answered cfg hashPassword start (labels ++ [label]) next thread request response := by
  intro id kind managed named route ok
  obtain ⟨looks, looked, enough⟩ := answered id kind managed named route ok
  exact ⟨looks, looked.snoc step, enough⟩

theorem Looked.look (run : Run (Step cfg hashPassword) start labels s) {id : Bytes} {kind : Read}
    {looks : List Look} {input : Input}
    (looked : Looked cfg hashPassword start labels s thread request id kind looks)
    (here : s.active thread = some (request, .looking id kind looks))
    (step : Step cfg hashPassword s (.handle thread input) next) :
    Looked cfg hashPassword start (labels ++ [.handle thread input]) next thread request id kind
      (looks ++ [⟨s.contents cfg id, input.nowNs⟩]) := by
  intro i look there
  rcases Nat.lt_trichotomy i looks.length with less | rfl | more
  · rw [List.getElem?_append_left less] at there
    rw [List.take_append_of_le_length less.le]
    exact looked.snoc step i look there
  · rw [List.getElem?_append_right le_rfl, Nat.sub_self] at there
    obtain rfl := Option.some.inj there
    rw [List.take_left]
    exact ⟨input, Took.now run step ⟨here, rfl⟩⟩
  · rw [List.getElem?_eq_none (by rw [List.length_append, List.length_singleton]; exact more)]
      at there
    cases there

end Later

section Advance

variable {start s next : System} {labels : List Label} {thread : Nat} {request : Request}
variable {input : Input}

def Progress.Honest (cfg : Config) (hashPassword : Bytes → Bytes → Option Bytes) (start : System)
    (labels : List Label) (s : System) (thread : Nat) (request : Request) : Progress → Prop
  | .goesOn phase => phase.Honest cfg hashPassword start labels s thread request
  | .answers response => Answered cfg hashPassword start labels s thread request response

theorem advance_honest (run : Run (Step cfg hashPassword) start labels s) {phase : Phase}
    (here : s.active thread = some (request, phase))
    (step : Step cfg hashPassword s (.handle thread input) next)
    (honest : phase.Honest cfg hashPassword start labels s thread request) :
    (advance cfg s.state request phase input).2.Honest cfg hashPassword start
      (labels ++ [.handle thread input]) next thread request := by
  have moves := advance_moves cfg s.state request input phase
  generalize (advance cfg s.state request phase input).2 = progress at moves ⊢
  cases moves with
  | signed claims => exact trivial
  | accepted claims => exact trivial
  | owner route => exact route
  | opened claims id kind =>
    refine ⟨honest, ?_⟩
    intro i look there
    cases there
  | looked short => exact ⟨honest.1, honest.2.look run here step⟩
  | @answered id kind looks enough =>
    intro other otherKind _ named route ok
    obtain ⟨same, read⟩ := Route.project.inj (honest.1.symm.trans route)
    obtain rfl := Action.read.inj read
    subst same
    exact ⟨looks, honest.2.snoc step, enough, rfl⟩
  | failed failure =>
    intro id kind _ named route ok
    exact absurd ok failure
  | handled none =>
    intro id kind _ named route ok
    exact absurd route (none id (.read kind))
  | operated none =>
    intro id kind _ named route ok
    exact absurd (Route.project.inj (honest.symm.trans route)).2 (none kind)
  | unstored nowhere =>
    intro id kind managed named route ok
    obtain ⟨rfl, -⟩ := Route.project.inj (honest.symm.trans route)
    rcases nowhere with unmanaged | unnamed
    · rw [managed] at unmanaged
      cases unmanaged
    · exact absurd unnamed named

end Advance

structure Reading (cfg : Config) (hashPassword : Bytes → Bytes → Option Bytes) (start : System)
    (labels : List Label) (s : System) : Prop where
  active : ∀ thread request phase, s.active thread = some (request, phase) →
    phase.Honest cfg hashPassword start labels s thread request
  served : ∀ served ∈ s.served,
    Answered cfg hashPassword start labels s served.thread served.request served.response

section Reading

variable {start s next : System} {labels : List Label} {label : Label}

theorem reading_idle (state : State) : Reading cfg hashPassword (.idle state) [] (.idle state) := by
  constructor
  · intro thread request phase here
    cases here
  · intro served listed
    cases listed

theorem Reading.same_requests (holds : Reading cfg hashPassword start labels s)
    (step : Step cfg hashPassword s label next) (active : next.active = s.active)
    (served : next.served = s.served) :
    Reading cfg hashPassword start (labels ++ [label]) next where
  active thread request phase here :=
    (holds.active thread request phase (active ▸ here)).snoc step
  served answer listed := (holds.served answer (served ▸ listed)).snoc step

theorem Reading.settle {thread : Nat} {request : Request} {result : State × Progress}
    (holds : Reading cfg hashPassword start labels s)
    (step : Step cfg hashPassword s label (s.settle thread request result))
    (honest : result.2.Honest cfg hashPassword start (labels ++ [label])
      (s.settle thread request result) thread request) :
    Reading cfg hashPassword start (labels ++ [label]) (s.settle thread request result) := by
  obtain ⟨active, served⟩ := @settle_holds s thread request result
    (fun other current phase => phase.Honest cfg hashPassword start (labels ++ [label])
      (s.settle thread request result) other current)
    (fun answer => Answered cfg hashPassword start (labels ++ [label])
      (s.settle thread request result) answer.thread answer.request answer.response)
    (fun other current phase here => (holds.active other current phase here).snoc step)
    (fun answer listed => (holds.served answer listed).snoc step)
    (fun phase progress => by rwa [progress] at honest)
    (fun response progress => by rwa [progress] at honest)
  exact ⟨active, served⟩

theorem reading_step (run : Run (Step cfg hashPassword) start labels s)
    (holds : Reading cfg hashPassword start labels s)
    (step : Step cfg hashPassword s label next) :
    Reading cfg hashPassword start (labels ++ [label]) next := by
  have whole := step
  cases step with
  | @arrive thread request idle new =>
    refine ⟨fun other current phase here => ?_, fun answer listed => ?_⟩
    · by_cases same : other = thread
      · subst other
        have now := (Function.update_self _ _ s.active).symm.trans here
        obtain ⟨rfl, rfl⟩ := Prod.mk.inj (Option.some.inj now)
        exact trivial
      · have before := (Function.update_of_ne same _ s.active).symm.trans here
        exact (holds.active other current phase before).snoc whole
    · exact (holds.served answer listed).snoc whole
  | @handle thread request phase input here =>
    have honest := advance_honest run here whole (holds.active thread request phase here)
    exact holds.settle whole honest
  | unopened => exact holds.settle whole fun _ _ _ _ _ ok => absurd ok (by decide)
  | tenant => exact holds.same_requests whole rfl rfl
  | register => exact holds.same_requests whole rfl rfl
  | revoke => exact holds.same_requests whole rfl rfl
  | isRevoked => exact holds.same_requests whole rfl rfl
  | alerts => exact holds.same_requests whole rfl rfl

end Reading

/-- A request that is handled alone is answered in the system as `serve` says. -/
theorem alone_run {request : Request} {response : Response} {thread : Nat} {inputs : List Input}
    {s : System} {phase : Phase} (here : s.active thread = some (request, phase))
    (answered : Machine.answer (handler cfg request) inputs (s.state, phase) = some response) :
    ∃ labels final, Run (Step cfg hashPassword) s labels final ∧
      final.served = s.served ++ [⟨thread, request, response⟩] ∧
      ∀ label ∈ labels, ∃ input ∈ inputs, label = .handle thread input := by
  induction inputs generalizing s phase with
  | nil => cases answered
  | cons input rest ih =>
    let result := advance cfg s.state request phase input
    have step : Step cfg hashPassword s (.handle thread input) (s.settle thread request result) :=
      .handle input here
    unfold Machine.answer handler at answered
    cases progress : result.2 with
    | goesOn reached =>
      obtain ⟨there, unserved⟩ := settle_goesOn s thread request progress
      simp only [result] at progress
      simp only [progress] at answered
      rw [← settle_state s thread request] at answered
      obtain ⟨labels, final, run, listed, own⟩ := ih there answered
      refine ⟨[.handle thread input] ++ labels, final, (Run.single step).trans run, ?_, ?_⟩
      · rw [listed, unserved]
      · intro label inside
        rcases List.mem_cons.mp inside with rfl | later
        · exact ⟨input, List.mem_cons_self .., rfl⟩
        · obtain ⟨other, listed, same⟩ := own label later
          exact ⟨other, List.mem_cons_of_mem _ listed, same⟩
    | answers reply =>
      have more := (settle_answers s thread request progress).2
      simp only [result] at progress
      simp only [progress, Option.some.injEq] at answered
      refine ⟨[.handle thread input], _, Run.single step, ?_, ?_⟩
      · rw [more, answered]
      · intro label inside
        exact ⟨input, List.mem_cons_self .., List.mem_singleton.mp inside⟩

end ProjectRoutes

end LogMonitor
