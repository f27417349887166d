import LogMonitor.Library.Tally
import LogMonitor.LogPipeline
import LogMonitor.Server
import Mathlib.Algebra.BigOperators.Fin
import Mathlib.Data.UInt

/-!
The counters of the pipeline and of the alerts, one `fetch_add` at a time. The
consumer, its drain and every worker bump them at different points of the way of an
entry, so that in between they differ by what is on its way.
-/

namespace LogMonitor.PipelineCounters
open Library Library.ByteString Library.Transition Library.Tally
open LogPipeline (PatternEngine)

structure AlertRule where
  patternStr : Bytes
  severity : Severity

variable (engine : PatternEngine AlertRule)

/-- `PatternEngine::match`, as the place of the rule in the list. -/
def firstIndex (line : Bytes) : Option (Fin engine.rules.length) :=
  engine.rules.findFinIdx? fun rule => engine.regexSearch rule line

def IsFirst (rule : Fin engine.rules.length) (line : Bytes) : Prop :=
  engine.regexSearch (engine.rules.get rule) line = true ∧
    ∀ earlier < rule, engine.regexSearch (engine.rules.get earlier) line = false

instance (rule : Fin engine.rules.length) (line : Bytes) : Decidable (IsFirst engine rule line) :=
  inferInstanceAs (Decidable (_ ∧ _))

def severityOf (rule : Fin engine.rules.length) : Severity :=
  (engine.rules.get rule).severity

structure Counters (n : Nat) where
  totalLines : UInt64
  totalMatched : UInt64
  triggerCount : Fin n → UInt64
  severityCount : Severity → UInt64

def Counters.totalAlerts {n : Nat} (counters : Counters n) : UInt64 :=
  counters.severityCount .info + counters.severityCount .warn + counters.severityCount .error +
    counters.severityCount .critical

/-- Where an entry is between `match` and the end of `handle_alert`. -/
inductive Handling (n : Nat) where
  | matching (entry : LogEntry)
  /-- Before `trigger_count` is bumped. -/
  | triggering (rule : Fin n)
  /-- Before `increment_severity_counter`. -/
  | classifying (rule : Fin n)
  | handled

/-- The next `fetch_add`, in `process_entry` and in `drain` alike. -/
def advance (handling : Handling engine.rules.length) (counters : Counters engine.rules.length) :
    Handling engine.rules.length × Counters engine.rules.length :=
  match handling with
  | .matching entry =>
    match firstIndex engine entry.line with
    | none => (.handled, counters)
    | some rule => (.triggering rule, { counters with totalMatched := counters.totalMatched + 1 })
  | .triggering rule =>
    (.classifying rule, { counters with triggerCount := bump counters.triggerCount rule })
  | .classifying rule =>
    (.handled, { counters with
      severityCount := bump counters.severityCount (severityOf engine rule) })
  | .handled => (.handled, counters)

inductive Consumer (n : Nat) where
  | checking
  | popping
  | popped (entry : LogEntry)
  /-- The entry is counted and not yet handed to the pool. -/
  | counted (entry : LogEntry)
  | draining
  | drainPopped (entry : LogEntry)
  | alerting (handling : Handling n)
  | returned

structure State (n : Nat) where
  ring : List LogEntry
  stopFlag : Bool
  consumer : Consumer n
  counters : Counters n
  /-- The queue of the pool, its flag, and how many of its workers have not returned. -/
  tasks : List LogEntry
  stop : Bool
  alive : Nat
  running : List (Handling n)

def initial (n workers : Nat) : State n where
  ring := []
  stopFlag := false
  consumer := .checking
  counters := ⟨0, 0, fun _ => 0, fun _ => 0⟩
  tasks := []
  stop := false
  alive := workers
  running := []

inductive Label where
  | push (entry : LogEntry)
  /-- The stop flag is raised. -/
  | raise
  | check
  | popNothing
  | pop (entry : LogEntry)
  | count (entry : LogEntry)
  | enqueue (entry : LogEntry) (accepted : Bool)
  | drainNothing
  | take (entry : LogEntry)
  | advance
  | finish
  /-- `ThreadPool::shutdown` sets its flag; it returns when the workers have. -/
  | shutdown
  | exit

inductive Step : State engine.rules.length → Label → State engine.rules.length → Prop
  | push (s : State engine.rules.length) (entry : LogEntry) :
      Step s (.push entry) { s with ring := s.ring ++ [entry] }
  | raise (s : State engine.rules.length) : Step s .raise { s with stopFlag := true }
  | check {s : State engine.rules.length} (here : s.consumer = .checking) :
      Step s .check { s with consumer := if s.stopFlag then .draining else .popping }
  | popNothing {s : State engine.rules.length} (here : s.consumer = .popping) :
      Step s .popNothing { s with consumer := .checking }
  | pop {s : State engine.rules.length} {entry : LogEntry} {rest : List LogEntry}
      (here : s.consumer = .popping) (first : s.ring = entry :: rest) :
      Step s (.pop entry) { s with
        ring := rest
        consumer := .popped entry }
  | count {s : State engine.rules.length} {entry : LogEntry} (here : s.consumer = .popped entry) :
      Step s (.count entry) { s with
        consumer := .counted entry
        counters := { s.counters with totalLines := s.counters.totalLines + 1 } }
  | enqueue {s : State engine.rules.length} {entry : LogEntry}
      (here : s.consumer = .counted entry) :
      Step s (.enqueue entry (!s.stop)) { s with
        consumer := .checking
        -- `enqueue` returns without a word when the pool is shut down
        tasks := if s.stop then s.tasks else s.tasks ++ [entry] }
  | drainPop {s : State engine.rules.length} {entry : LogEntry} {rest : List LogEntry}
      (here : s.consumer = .draining) (first : s.ring = entry :: rest) :
      Step s (.pop entry) { s with
        ring := rest
        consumer := .drainPopped entry }
  | drainCount {s : State engine.rules.length} {entry : LogEntry}
      (here : s.consumer = .drainPopped entry) :
      Step s (.count entry) { s with
        consumer := .alerting (.matching entry)
        counters := { s.counters with totalLines := s.counters.totalLines + 1 } }
  | drainAdvance {s : State engine.rules.length} {handling : Handling engine.rules.length}
      (here : s.consumer = .alerting handling) :
      Step s .advance { s with
        consumer := .alerting (advance engine handling s.counters).1
        counters := (advance engine handling s.counters).2 }
  | drainFinish {s : State engine.rules.length} (here : s.consumer = .alerting .handled) :
      Step s .finish { s with consumer := .draining }
  | drainNothing {s : State engine.rules.length} (here : s.consumer = .draining) :
      Step s .drainNothing { s with consumer := .returned }
  | take {s : State engine.rules.length} {entry : LogEntry} {rest : List LogEntry}
      (first : s.tasks = entry :: rest) (idle : s.running.length < s.alive) :
      Step s (.take entry) { s with
        tasks := rest
        running := s.running ++ [.matching entry] }
  | advance {s : State engine.rules.length} {index : Nat} {handling : Handling engine.rules.length}
      (here : s.running[index]? = some handling) :
      Step s .advance { s with
        running := s.running.set index (advance engine handling s.counters).1
        counters := (advance engine handling s.counters).2 }
  | finish {s : State engine.rules.length} {index : Nat}
      (here : s.running[index]? = some .handled) :
      Step s .finish { s with running := s.running.eraseIdx index }
  | shutdown (s : State engine.rules.length) : Step s .shutdown { s with stop := true }
  | exit {s : State engine.rules.length} (stopped : s.stop = true) (empty : s.tasks = [])
      (idle : s.running.length < s.alive) : Step s .exit { s with alive := s.alive - 1 }

def State.Finished {n : Nat} (s : State n) : Prop :=
  s.consumer = .returned ∧ s.stop = true ∧ s.alive = 0

def popped (labels : List Label) : List LogEntry :=
  labels.filterMap fun
    | .pop entry => some entry
    | _ => none

def lined (labels : List Label) : List LogEntry :=
  labels.filterMap fun
    | .count entry => some entry
    | _ => none

def dropped (labels : List Label) : List LogEntry :=
  labels.filterMap fun
    | .enqueue entry false => some entry
    | _ => none

structure Ordered {n : Nat} (counters : Counters n) : Prop where
  alerts : counters.totalAlerts.toNat ≤ ∑ rule, (counters.triggerCount rule).toNat
  triggers : ∑ rule, (counters.triggerCount rule).toNat ≤ counters.totalMatched.toNat
  matched : counters.totalMatched.toNat ≤ counters.totalLines.toNat

structure Settled (entries : List LogEntry) (counters : Counters engine.rules.length) : Prop where
  lines : counters.totalLines.toNat = entries.length
  triggers : ∀ rule, (counters.triggerCount rule).toNat =
    entries.countP fun entry => IsFirst engine rule entry.line
  matched : counters.totalMatched.toNat = ∑ rule, (counters.triggerCount rule).toNat
  alerts : counters.totalMatched.toNat =
    (counters.severityCount .info).toNat + (counters.severityCount .warn).toNat +
      (counters.severityCount .error).toNat + (counters.severityCount .critical).toNat
  severity : ∀ severity, (counters.severityCount severity).toNat =
    ∑ rule with severityOf engine rule = severity, (counters.triggerCount rule).toNat

theorem popped_append (first second : List Label) :
    popped (first ++ second) = popped first ++ popped second :=
  List.filterMap_append

theorem lined_append (first second : List Label) :
    lined (first ++ second) = lined first ++ lined second :=
  List.filterMap_append

theorem dropped_append (first second : List Label) :
    dropped (first ++ second) = dropped first ++ dropped second :=
  List.filterMap_append

theorem firstIndex_eq_some (line : Bytes) (rule : Fin engine.rules.length) :
    firstIndex engine line = some rule ↔ IsFirst engine rule line := by
  unfold firstIndex IsFirst
  rw [List.findFinIdx?_eq_some_iff]
  simp

theorem firstIndex_firstMatch (line : Bytes) :
    (firstIndex engine line).map engine.rules.get = engine.firstMatch line :=
  List.find?_eq_map_findFinIdx?_getElem.symm

variable {engine}

section Places

def Consumer.unlined {n : Nat} : Consumer n → List LogEntry
  | .popped entry => [entry]
  | .drainPopped entry => [entry]
  | _ => []

def Consumer.inHand {n : Nat} : Consumer n → List (Handling n)
  | .counted entry => [.matching entry]
  | .alerting handling => [handling]
  | _ => []

def State.inFlight {n : Nat} (s : State n) : List (Handling n) :=
  s.consumer.inHand ++ (s.tasks.map .matching ++ s.running)

def waits (engine : PatternEngine AlertRule) (rule : Fin engine.rules.length) :
    Handling engine.rules.length → Bool
  | .matching entry => firstIndex engine entry.line = some rule
  | _ => false

def Handling.triggers {n : Nat} (rule : Fin n) : Handling n → Bool
  | .triggering found => found = rule
  | _ => false

def Handling.classifies {n : Nat} (rule : Fin n) : Handling n → Bool
  | .classifying found => found = rule
  | _ => false

end Places

inductive Moves (engine : PatternEngine AlertRule) (s : State engine.rules.length) (label : Label)
    (t : State engine.rules.length) : Prop
  | still (notLined : lined [label] = []) (notDropped : dropped [label] = [])
      (inFlight : s.inFlight.Perm t.inFlight) (counters : t.counters = s.counters)
  | line (entry : LogEntry) (isLined : lined [label] = [entry]) (notDropped : dropped [label] = [])
      (inFlight : t.inFlight.Perm (.matching entry :: s.inFlight))
      (counters : t.counters = { s.counters with totalLines := s.counters.totalLines + 1 })
  | advance (handling : Handling engine.rules.length) (rest : List (Handling engine.rules.length))
      (notLined : lined [label] = []) (notDropped : dropped [label] = [])
      (before : s.inFlight.Perm (handling :: rest))
      (after : t.inFlight.Perm ((PipelineCounters.advance engine handling s.counters).1 :: rest))
      (counters : t.counters = (PipelineCounters.advance engine handling s.counters).2)
  | drop (entry : LogEntry) (notLined : lined [label] = []) (isDropped : dropped [label] = [entry])
      (inFlight : s.inFlight.Perm (.matching entry :: t.inFlight))
      (counters : t.counters = s.counters)
  | finish (notLined : lined [label] = []) (notDropped : dropped [label] = [])
      (inFlight : s.inFlight.Perm (.handled :: t.inFlight)) (counters : t.counters = s.counters)

theorem front_perm {n : Nat} {first second last rest : List (Handling n)} {handling : Handling n}
    (perm : last.Perm (handling :: rest)) :
    (first ++ (second ++ last)).Perm (handling :: (first ++ (second ++ rest))) :=
  calc (first ++ (second ++ last)).Perm (first ++ (second ++ handling :: rest)) :=
        (perm.append_left second).append_left first
    _ |>.Perm (first ++ handling :: (second ++ rest)) := List.perm_middle.append_left first
    _ |>.Perm (handling :: (first ++ (second ++ rest))) := List.perm_middle

theorem inFlight_at {n : Nat} {s : State n} {position : Consumer n} (here : s.consumer = position) :
    s.inFlight.Perm (position.inHand ++ (s.tasks.map .matching ++ s.running)) := by
  rw [← here]
  exact List.Perm.refl _

theorem step_moves {s t : State engine.rules.length} {label : Label}
    (step : Step engine s label t) : Moves engine s label t := by
  cases step with
  | push entry => exact .still rfl rfl (List.Perm.refl _) rfl
  | raise => exact .still rfl rfl (List.Perm.refl _) rfl
  | check here =>
    refine .still rfl rfl ((inFlight_at here).trans ?_) rfl
    unfold State.inFlight
    cases s.stopFlag <;> exact List.Perm.refl _
  | popNothing here =>
    have places := inFlight_at here
    exact .still rfl rfl places rfl
  | pop here first =>
    have places := inFlight_at here
    exact .still rfl rfl places rfl
  | @count entry here => exact .line entry rfl rfl ((inFlight_at here).symm.cons _) rfl
  | @enqueue entry here =>
    cases stopped : s.stop with
    | false =>
      refine .still rfl rfl ((inFlight_at here).trans ?_) rfl
      unfold State.inFlight
      simp only [Consumer.inHand, List.nil_append, List.singleton_append, List.map_append,
        List.map_cons, List.map_nil, List.append_assoc, Bool.false_eq_true, if_false]
      exact List.perm_middle.symm
    | true => exact .drop entry rfl rfl (inFlight_at here) rfl
  | drainPop here first =>
    have places := inFlight_at here
    exact .still rfl rfl places rfl
  | @drainCount entry here => exact .line entry rfl rfl ((inFlight_at here).symm.cons _) rfl
  | @drainAdvance handling here =>
    exact .advance handling _ rfl rfl (inFlight_at here) (List.Perm.refl _) rfl
  | drainFinish here => exact .finish rfl rfl (inFlight_at here) rfl
  | drainNothing here =>
    have places := inFlight_at here
    exact .still rfl rfl places rfl
  | @take entry rest first idle =>
    refine .still rfl rfl ?_ rfl
    unfold State.inFlight
    rw [first, List.map_cons, List.cons_append]
    refine List.Perm.append_left _ ?_
    rw [← List.append_assoc]
    exact (List.perm_append_singleton _ _).symm
  | @advance index handling here =>
    obtain ⟨rest, before, after⟩ :=
      set_perm here (PipelineCounters.advance engine handling s.counters).1
    refine .advance handling (s.consumer.inHand ++ (s.tasks.map .matching ++ rest)) rfl rfl
      ?_ ?_ rfl
    · exact front_perm before
    · exact front_perm after
  | @finish index here =>
    obtain ⟨bound, found⟩ := List.getElem?_eq_some_iff.mp here
    have removed := (List.getElem_cons_eraseIdx_perm bound).symm
    rw [found] at removed
    refine .finish rfl rfl ?_ rfl
    exact front_perm removed
  | shutdown => exact .still rfl rfl (List.Perm.refl _) rfl
  | exit stopped empty idle => exact .still rfl rfl (List.Perm.refl _) rfl

/-- The counters as they would be without a limit, by rule. -/
structure Tally (n : Nat) where
  lines : Nat
  matched : Fin n → Nat
  triggered : Fin n → Nat
  classified : Fin n → Nat

/-- The counters of the program are those modulo `2 ^ 64`. -/
def Tally.wrapped (engine : PatternEngine AlertRule) (tally : Tally engine.rules.length) :
    Counters engine.rules.length where
  totalLines := UInt64.ofNat tally.lines
  totalMatched := UInt64.ofNat (∑ rule, tally.matched rule)
  triggerCount rule := UInt64.ofNat (tally.triggered rule)
  severityCount severity :=
    UInt64.ofNat (∑ rule with severityOf engine rule = severity, tally.classified rule)

def Tally.advance (engine : PatternEngine AlertRule) (handling : Handling engine.rules.length)
    (tally : Tally engine.rules.length) : Tally engine.rules.length :=
  match handling with
  | .matching entry =>
    match firstIndex engine entry.line with
    | none => tally
    | some rule => { tally with matched := bump tally.matched rule }
  | .triggering rule => { tally with triggered := bump tally.triggered rule }
  | .classifying rule => { tally with classified := bump tally.classified rule }
  | .handled => tally

theorem bump_ofNat {ι : Type} [DecidableEq ι] (counters : ι → Nat) (kind : ι) :
    (fun other => UInt64.ofNat (bump counters kind other)) =
      bump (fun other => UInt64.ofNat (counters other)) kind := by
  funext other
  by_cases same : other = kind
  · rw [same, bump, bump, Function.update_self, Function.update_self, UInt64.ofNat_add]
    rfl
  · rw [bump, bump, Function.update_of_ne same, Function.update_of_ne same]

theorem Tally.wrapped_advance (handling : Handling engine.rules.length)
    (tally : Tally engine.rules.length) : (tally.advance engine handling).wrapped engine =
      (PipelineCounters.advance engine handling (tally.wrapped engine)).2 := by
  cases handling with
  | matching entry =>
    cases found : firstIndex engine entry.line with
    | none => simp only [Tally.advance, PipelineCounters.advance, found]
    | some rule =>
      simp only [Tally.advance, PipelineCounters.advance, found, Tally.wrapped, sum_bump,
        Finset.mem_univ, if_true, UInt64.ofNat_add]
      rfl
  | triggering rule =>
    simp only [Tally.advance, PipelineCounters.advance, Tally.wrapped, bump_ofNat]
  | classifying rule =>
    simp only [Tally.advance, PipelineCounters.advance, Tally.wrapped, Counters.mk.injEq, true_and]
    funext severity
    simp only [sum_bump, Finset.mem_filter, Finset.mem_univ, true_and]
    by_cases same : severityOf engine rule = severity
    · rw [if_pos same, ← same, bump, Function.update_self, UInt64.ofNat_add]
      rfl
    · rw [if_neg same, bump, Function.update_of_ne (Ne.symm same), Nat.add_zero]
  | handled => rfl

/-- What was counted at one point of the way and not yet at the next is between the two. -/
structure Conserved (engine : PatternEngine AlertRule) (labels : List Label)
    (inFlight : List (Handling engine.rules.length)) (tally : Tally engine.rules.length) :
    Prop where
  lines : tally.lines = (lined labels).length
  matched : ∀ rule, ofKind (fun entry => firstIndex engine entry.line) rule (lined labels) =
    tally.matched rule + inFlight.countP (waits engine rule) +
      ofKind (fun entry => firstIndex engine entry.line) rule (dropped labels)
  triggered : ∀ rule, tally.matched rule =
    tally.triggered rule + inFlight.countP (Handling.triggers rule)
  classified : ∀ rule, tally.triggered rule =
    tally.classified rule + inFlight.countP (Handling.classifies rule)

theorem Conserved.advance {labels : List Label}
    {inFlight rest : List (Handling engine.rules.length)} {tally : Tally engine.rules.length}
    {handling : Handling engine.rules.length}
    (conserved : Conserved engine labels inFlight tally) (before : inFlight.Perm (handling :: rest))
    (counters : Counters engine.rules.length) :
    Conserved engine labels ((PipelineCounters.advance engine handling counters).1 :: rest)
      (tally.advance engine handling) := by
  obtain ⟨lines, matched, triggered, classified⟩ := conserved
  simp only [before.countP_eq, List.countP_cons] at matched triggered classified
  cases handling with
  | matching entry =>
    simp only [waits, Handling.triggers, Handling.classifies] at matched triggered classified
    unfold Tally.advance PipelineCounters.advance
    cases found : firstIndex engine entry.line with
    | none =>
      simp only [found] at matched ⊢
      exact ⟨lines, matched, triggered, classified⟩
    | some first =>
      simp only [found] at matched ⊢
      refine ⟨lines, fun rule => ?_, fun rule => ?_, fun rule => ?_⟩
      · have balance := matched rule
        simp only [bump_apply, List.countP_cons, waits, Option.some.injEq, decide_eq_true_eq,
          Bool.false_eq_true, if_false] at balance ⊢
        omega
      · have balance := triggered rule
        simp only [bump_apply, List.countP_cons, Handling.triggers, decide_eq_true_eq,
          Bool.false_eq_true, if_false] at balance ⊢
        omega
      · have balance := classified rule
        simp only [List.countP_cons, Handling.classifies, Bool.false_eq_true, if_false] at balance ⊢
        omega
  | triggering first =>
    refine ⟨lines, fun rule => ?_, fun rule => ?_, fun rule => ?_⟩
    · have balance := matched rule
      simp only [Tally.advance, PipelineCounters.advance, List.countP_cons, waits,
        Bool.false_eq_true, if_false] at balance ⊢
      omega
    · have balance := triggered rule
      simp only [Tally.advance, PipelineCounters.advance, bump_apply, List.countP_cons,
        Handling.triggers, decide_eq_true_eq, Bool.false_eq_true, if_false] at balance ⊢
      omega
    · have balance := classified rule
      simp only [Tally.advance, PipelineCounters.advance, bump_apply, List.countP_cons,
        Handling.classifies, decide_eq_true_eq, Bool.false_eq_true, if_false] at balance ⊢
      omega
  | classifying first =>
    refine ⟨lines, fun rule => ?_, fun rule => ?_, fun rule => ?_⟩
    · have balance := matched rule
      simp only [Tally.advance, PipelineCounters.advance, List.countP_cons, waits,
        Bool.false_eq_true, if_false] at balance ⊢
      omega
    · have balance := triggered rule
      simp only [Tally.advance, PipelineCounters.advance, List.countP_cons, Handling.triggers,
        Bool.false_eq_true, if_false] at balance ⊢
      omega
    · have balance := classified rule
      simp only [Tally.advance, PipelineCounters.advance, bump_apply, List.countP_cons,
        Handling.classifies, decide_eq_true_eq, Bool.false_eq_true, if_false] at balance ⊢
      omega
  | handled => exact ⟨lines, matched, triggered, classified⟩

theorem Conserved.of_counts {labels : List Label}
    {inFlight next : List (Handling engine.rules.length)} {tally : Tally engine.rules.length}
    {label : Label}
    (conserved : Conserved engine labels inFlight tally) (notLined : lined [label] = [])
    (waiting : ∀ rule, inFlight.countP (waits engine rule) = next.countP (waits engine rule) +
      ofKind (fun entry => firstIndex engine entry.line) rule (dropped [label]))
    (triggering : ∀ rule, next.countP (Handling.triggers rule) =
      inFlight.countP (Handling.triggers rule))
    (classifying : ∀ rule, next.countP (Handling.classifies rule) =
      inFlight.countP (Handling.classifies rule)) :
    Conserved engine (labels ++ [label]) next tally := by
  obtain ⟨lines, matched, triggered, classified⟩ := conserved
  refine ⟨?_, fun rule => ?_, fun rule => ?_, fun rule => ?_⟩
  · rw [lined_append, notLined, List.append_nil, lines]
  · have balance := matched rule
    have moved := waiting rule
    rw [lined_append, notLined, List.append_nil, dropped_append, ofKind_append]
    omega
  · rw [triggering, triggered]
  · rw [classifying, classified]

theorem conserved_moves {labels : List Label} {s t : State engine.rules.length} {label : Label}
    {tally : Tally engine.rules.length} (conserved : Conserved engine labels s.inFlight tally)
    (counters : s.counters = tally.wrapped engine) (moves : Moves engine s label t) :
    ∃ next, Conserved engine (labels ++ [label]) t.inFlight next ∧
      t.counters = next.wrapped engine := by
  cases moves with
  | still notLined notDropped inFlight same =>
    refine ⟨tally, conserved.of_counts notLined (fun rule => ?_) (fun rule => ?_) (fun rule => ?_),
      same.trans counters⟩
    · rw [notDropped, inFlight.countP_eq, ofKind_nil, Nat.add_zero]
    · rw [inFlight.countP_eq]
    · rw [inFlight.countP_eq]
  | line entry isLined notDropped inFlight same =>
    obtain ⟨lines, matched, triggered, classified⟩ := conserved
    refine ⟨{ tally with lines := tally.lines + 1 }, ⟨?_, fun rule => ?_, fun rule => ?_,
      fun rule => ?_⟩, ?_⟩
    · rw [lined_append, isLined, List.length_append, List.length_singleton, lines]
    · have balance := matched rule
      rw [lined_append, isLined, dropped_append, notDropped, List.append_nil, ofKind_append,
        ofKind_singleton, inFlight.countP_eq, List.countP_cons]
      simp only [waits, decide_eq_true_eq]
      omega
    · rw [inFlight.countP_eq, List.countP_cons_of_neg (by simp [Handling.triggers]), triggered]
    · rw [inFlight.countP_eq, List.countP_cons_of_neg (by simp [Handling.classifies]), classified]
    · rw [same, counters, Tally.wrapped, Tally.wrapped, UInt64.ofNat_add]
      rfl
  | advance handling rest notLined notDropped before after same =>
    have advanced := conserved.advance before s.counters
    refine ⟨tally.advance engine handling, advanced.of_counts notLined (fun rule => ?_)
      (fun rule => ?_) (fun rule => ?_), ?_⟩
    · rw [notDropped, after.countP_eq, ofKind_nil, Nat.add_zero]
    · rw [after.countP_eq]
    · rw [after.countP_eq]
    · rw [same, counters, Tally.wrapped_advance]
  | drop entry notLined isDropped inFlight same =>
    refine ⟨tally, conserved.of_counts notLined (fun rule => ?_) (fun rule => ?_) (fun rule => ?_),
      same.trans counters⟩
    · rw [isDropped, inFlight.countP_eq, List.countP_cons, ofKind_singleton]
      simp only [waits, decide_eq_true_eq]
    · rw [inFlight.countP_eq, List.countP_cons_of_neg (by simp [Handling.triggers])]
    · rw [inFlight.countP_eq, List.countP_cons_of_neg (by simp [Handling.classifies])]
  | finish notLined notDropped inFlight same =>
    refine ⟨tally, conserved.of_counts notLined (fun rule => ?_) (fun rule => ?_) (fun rule => ?_),
      same.trans counters⟩
    · rw [notDropped, inFlight.countP_eq, List.countP_cons_of_neg (by simp [waits]), ofKind_nil,
        Nat.add_zero]
    · rw [inFlight.countP_eq, List.countP_cons_of_neg (by simp [Handling.triggers])]
    · rw [inFlight.countP_eq, List.countP_cons_of_neg (by simp [Handling.classifies])]

theorem conserved_run {workers : Nat} {labels : List Label} {s : State engine.rules.length}
    (run : Run (Step engine) (initial _ workers) labels s) :
    ∃ tally, Conserved engine labels s.inFlight tally ∧ s.counters = tally.wrapped engine := by
  apply Run.invariant (fun labels s => ∃ tally : Tally engine.rules.length,
    Conserved engine labels s.inFlight tally ∧ s.counters = tally.wrapped engine) _ _ run
  · refine ⟨⟨0, fun _ => 0, fun _ => 0, fun _ => 0⟩,
      ⟨rfl, fun _ => rfl, fun _ => rfl, fun _ => rfl⟩, ?_⟩
    simp only [initial, Tally.wrapped, Finset.sum_const_zero]
    rfl
  · rintro labels current label next _ ⟨tally, conserved, counters⟩ step
    exact conserved_moves conserved counters (step_moves step)

theorem popped_eq_run {workers : Nat} {labels : List Label} {s : State engine.rules.length}
    (run : Run (Step engine) (initial _ workers) labels s) :
    popped labels = lined labels ++ s.consumer.unlined := by
  apply Run.invariant (fun labels s => popped labels = lined labels ++ s.consumer.unlined) _ _ run
  · rfl
  · intro labels current label next _ same step
    have kept (quiet : popped [label] = [] ∧ lined [label] = [])
        (unlined : next.consumer.unlined = current.consumer.unlined) :
        popped (labels ++ [label]) = lined (labels ++ [label]) ++ next.consumer.unlined := by
      rw [popped_append, lined_append, quiet.1, quiet.2, unlined, List.append_nil, List.append_nil,
        same]
    have nothing {position : Consumer engine.rules.length} (here : current.consumer = position)
        (empty : position.unlined = []) (quiet : popped [label] = [] ∧ lined [label] = [])
        (unlined : next.consumer.unlined = []) :
        popped (labels ++ [label]) = lined (labels ++ [label]) ++ next.consumer.unlined :=
      kept quiet (by rw [here, empty, unlined])
    have pops {entry : LogEntry} {position : Consumer engine.rules.length}
        (here : current.consumer = position) (empty : position.unlined = [])
        (isPop : label = .pop entry) (unlined : next.consumer.unlined = [entry]) :
        popped (labels ++ [label]) = lined (labels ++ [label]) ++ next.consumer.unlined := by
      rw [popped_append, lined_append, same, here, empty, unlined, isPop, List.append_nil]
      simp [popped, lined]
    have counts {entry : LogEntry} {position : Consumer engine.rules.length}
        (here : current.consumer = position) (holds : position.unlined = [entry])
        (isCount : label = .count entry) (unlined : next.consumer.unlined = []) :
        popped (labels ++ [label]) = lined (labels ++ [label]) ++ next.consumer.unlined := by
      rw [popped_append, lined_append, same, here, holds, unlined, isCount, List.append_nil]
      simp [popped, lined]
    cases step with
    | push entry => exact kept ⟨rfl, rfl⟩ rfl
    | raise => exact kept ⟨rfl, rfl⟩ rfl
    | check here => exact nothing here rfl ⟨rfl, rfl⟩ (by cases current.stopFlag <;> rfl)
    | popNothing here => exact nothing here rfl ⟨rfl, rfl⟩ rfl
    | pop here first => exact pops here rfl rfl rfl
    | count here => exact counts here rfl rfl rfl
    | enqueue here => exact nothing here rfl ⟨rfl, rfl⟩ rfl
    | drainPop here first => exact pops here rfl rfl rfl
    | drainCount here => exact counts here rfl rfl rfl
    | drainAdvance here => exact nothing here rfl ⟨rfl, rfl⟩ rfl
    | drainFinish here => exact nothing here rfl ⟨rfl, rfl⟩ rfl
    | drainNothing here => exact nothing here rfl ⟨rfl, rfl⟩ rfl
    | take first idle => exact kept ⟨rfl, rfl⟩ rfl
    | advance here => exact kept ⟨rfl, rfl⟩ rfl
    | finish here => exact kept ⟨rfl, rfl⟩ rfl
    | shutdown => exact kept ⟨rfl, rfl⟩ rfl
    | exit stopped empty idle => exact kept ⟨rfl, rfl⟩ rfl

/-- No more entries run than there are workers, and a worker returns from an empty queue only. -/
structure Manned {n : Nat} (workers : Nat) (s : State n) : Prop where
  bounded : s.running.length ≤ s.alive
  exited : s.alive < workers → s.stop = true ∧ s.tasks = []

theorem manned_run {workers : Nat} {labels : List Label} {s : State engine.rules.length}
    (run : Run (Step engine) (initial _ workers) labels s) : Manned workers s := by
  apply Run.invariant (fun _ s => Manned workers s) _ _ run
  · exact ⟨Nat.zero_le workers, fun gone => absurd gone (lt_irrefl workers)⟩
  · intro labels current label next _ manned step
    obtain ⟨bounded, exited⟩ := manned
    cases step with
    | push entry => exact ⟨bounded, exited⟩
    | raise => exact ⟨bounded, exited⟩
    | check here => exact ⟨bounded, exited⟩
    | popNothing here => exact ⟨bounded, exited⟩
    | pop here first => exact ⟨bounded, exited⟩
    | count here => exact ⟨bounded, exited⟩
    | @enqueue entry here =>
      refine ⟨bounded, fun gone => ?_⟩
      obtain ⟨stopped, empty⟩ := exited gone
      exact ⟨stopped, by simp only [stopped, if_true, empty]⟩
    | drainPop here first => exact ⟨bounded, exited⟩
    | drainCount here => exact ⟨bounded, exited⟩
    | drainAdvance here => exact ⟨bounded, exited⟩
    | drainFinish here => exact ⟨bounded, exited⟩
    | drainNothing here => exact ⟨bounded, exited⟩
    | @take entry rest first idle =>
      refine ⟨by rw [List.length_append]; exact idle, fun gone => ?_⟩
      have empty := (exited gone).2
      rw [first] at empty
      cases empty
    | advance here => exact ⟨by rwa [List.length_set], exited⟩
    | finish here => exact ⟨(List.eraseIdx_sublist ..).length_le.trans bounded, exited⟩
    | shutdown => exact ⟨bounded, fun gone => ⟨rfl, (exited gone).2⟩⟩
    | exit stopped empty idle =>
      exact ⟨Nat.le_sub_one_of_lt idle, fun _ => ⟨stopped, empty⟩⟩

theorem Manned.finished {n workers : Nat} {s : State n} (manned : Manned workers s)
    (someWorker : 0 < workers) (finished : s.Finished) : s.inFlight = [] := by
  obtain ⟨returned, stopped, gone⟩ := finished
  have idle : s.running = [] := by
    have bounded := manned.bounded
    rw [gone] at bounded
    exact List.eq_nil_of_length_eq_zero (Nat.le_zero.mp bounded)
  have empty : s.tasks = [] := (manned.exited (by omega)).2
  rw [State.inFlight, returned, idle, empty]
  rfl

theorem sum_severities (counters : Fin engine.rules.length → Nat) :
    (∑ rule with severityOf engine rule = .info, counters rule) +
      (∑ rule with severityOf engine rule = .warn, counters rule) +
      (∑ rule with severityOf engine rule = .error, counters rule) +
      (∑ rule with severityOf engine rule = .critical, counters rule) = ∑ rule, counters rule := by
  simp only [Finset.sum_filter, ← Finset.sum_add_distrib]
  refine Finset.sum_congr rfl fun rule _ => ?_
  cases severityOf engine rule <;> simp

section Bound

variable {labels : List Label} {inFlight : List (Handling engine.rules.length)}
  {tally : Tally engine.rules.length}

theorem Conserved.classified_le (conserved : Conserved engine labels inFlight tally) :
    ∑ rule, tally.classified rule ≤ ∑ rule, tally.triggered rule :=
  Finset.sum_le_sum fun rule _ => by have balance := conserved.classified rule; omega

theorem Conserved.triggered_le (conserved : Conserved engine labels inFlight tally) :
    ∑ rule, tally.triggered rule ≤ ∑ rule, tally.matched rule :=
  Finset.sum_le_sum fun rule _ => by have balance := conserved.triggered rule; omega

theorem Conserved.matched_le (conserved : Conserved engine labels inFlight tally) :
    ∑ rule, tally.matched rule ≤ tally.lines := by
  rw [conserved.lines]
  refine le_trans (Finset.sum_le_sum fun rule _ => ?_)
    (sum_ofKind_le (fun entry : LogEntry => firstIndex engine entry.line) (lined labels))
  have balance := conserved.matched rule
  omega

/-- Below `2 ^ 64` lines no counter wraps around. -/
theorem Conserved.triggered_toNat (conserved : Conserved engine labels inFlight tally)
    (small : tally.lines < 2 ^ 64) (rule : Fin engine.rules.length) :
    ((tally.wrapped engine).triggerCount rule).toNat = tally.triggered rule := by
  have one : tally.triggered rule ≤ ∑ other, tally.triggered other :=
    Finset.single_le_sum (fun _ _ => Nat.zero_le _) (Finset.mem_univ rule)
  have all := (one.trans conserved.triggered_le).trans conserved.matched_le
  exact UInt64.toNat_ofNat_of_lt' (lt_of_le_of_lt all small)

theorem Conserved.matched_toNat (conserved : Conserved engine labels inFlight tally)
    (small : tally.lines < 2 ^ 64) :
    (tally.wrapped engine).totalMatched.toNat = ∑ rule, tally.matched rule :=
  UInt64.toNat_ofNat_of_lt' (lt_of_le_of_lt conserved.matched_le small)

theorem Conserved.severity_toNat (conserved : Conserved engine labels inFlight tally)
    (small : tally.lines < 2 ^ 64) (severity : Severity) :
    ((tally.wrapped engine).severityCount severity).toNat =
      ∑ rule with severityOf engine rule = severity, tally.classified rule := by
  have part : ∑ rule with severityOf engine rule = severity, tally.classified rule ≤
      ∑ rule, tally.classified rule := Finset.sum_le_sum_of_subset (Finset.filter_subset _ _)
  have all := ((part.trans conserved.classified_le).trans conserved.triggered_le).trans
    conserved.matched_le
  exact UInt64.toNat_ofNat_of_lt' (lt_of_le_of_lt all small)

end Bound

theorem Tally.totalAlerts_wrapped (tally : Tally engine.rules.length) :
    (tally.wrapped engine).totalAlerts = UInt64.ofNat (∑ rule, tally.classified rule) := by
  rw [← sum_severities tally.classified, UInt64.ofNat_add, UInt64.ofNat_add, UInt64.ofNat_add]
  rfl

theorem Conserved.ordered {labels : List Label} {inFlight : List (Handling engine.rules.length)}
    {tally : Tally engine.rules.length} (conserved : Conserved engine labels inFlight tally)
    (small : tally.lines < 2 ^ 64) : Ordered (tally.wrapped engine) := by
  have lines : (tally.wrapped engine).totalLines.toNat = tally.lines :=
    UInt64.toNat_ofNat_of_lt' small
  have alerts : (tally.wrapped engine).totalAlerts.toNat = ∑ rule, tally.classified rule := by
    have all := (conserved.classified_le.trans conserved.triggered_le).trans conserved.matched_le
    rw [Tally.totalAlerts_wrapped]
    exact UInt64.toNat_ofNat_of_lt' (lt_of_le_of_lt all small)
  constructor
  · simp only [alerts, conserved.triggered_toNat small]
    exact conserved.classified_le
  · simp only [conserved.triggered_toNat small, conserved.matched_toNat small]
    exact conserved.triggered_le
  · rw [conserved.matched_toNat small, lines]
    exact conserved.matched_le

theorem Conserved.settled {labels : List Label} {tally : Tally engine.rules.length}
    (conserved : Conserved engine labels [] tally) (small : tally.lines < 2 ^ 64)
    (noneDropped : dropped labels = []) :
    Settled engine (lined labels) (tally.wrapped engine) := by
  have matched : ∀ rule, tally.matched rule = tally.triggered rule := conserved.triggered
  have triggered : ∀ rule, tally.triggered rule = tally.classified rule := conserved.classified
  have lines : (tally.wrapped engine).totalLines.toNat = tally.lines :=
    UInt64.toNat_ofNat_of_lt' small
  constructor
  · rw [lines, conserved.lines]
  · intro rule
    have balance := conserved.matched rule
    rw [noneDropped, List.countP_nil, ofKind_nil, Nat.add_zero, matched] at balance
    rw [conserved.triggered_toNat small, ← balance]
    simp only [ofKind, firstIndex_eq_some]
  · simp only [conserved.matched_toNat small, conserved.triggered_toNat small, matched]
  · simp only [conserved.matched_toNat small, conserved.severity_toNat small, sum_severities,
      matched, triggered]
  · intro severity
    simp only [conserved.severity_toNat small, conserved.triggered_toNat small, triggered]

/-- As long as fewer than `2 ^ 64` entries were popped, every counter is at most the one before
it; and when all is over and no entry came to the pool too late, the counters agree with the
entries that were popped. -/
theorem counters_conserved {workers : Nat} (someWorker : 0 < workers) {labels : List Label}
    {s : State engine.rules.length} (run : Run (Step engine) (initial _ workers) labels s)
    (small : (popped labels).length < 2 ^ 64) :
    Ordered s.counters ∧
      (s.Finished → dropped labels = [] → Settled engine (popped labels) s.counters) := by
  obtain ⟨tally, conserved, counters⟩ := conserved_run run
  have same := popped_eq_run run
  have fewer : tally.lines < 2 ^ 64 := by
    rw [same, List.length_append] at small
    rw [conserved.lines]
    omega
  rw [counters]
  refine ⟨conserved.ordered fewer, fun finished noneDropped => ?_⟩
  have landed := (manned_run run).finished someWorker finished
  have counted : popped labels = lined labels := by
    rw [same, finished.1]
    exact List.append_nil _
  rw [landed] at conserved
  rw [counted]
  exact conserved.settled fewer noneDropped

/-- `main` shuts the pool down after it has joined the consumer. -/
def Joined (labels : List Label) : Prop :=
  ∀ before after, labels = before ++ .shutdown :: after → .drainNothing ∈ before

theorem Joined.left {first second : List Label} (joined : Joined (first ++ second)) :
    Joined first :=
  fun before after shape => joined before (after ++ second) (by rw [shape]; simp)

theorem Step.returned {s t : State engine.rules.length} {label : Label}
    (step : Step engine s label t) (gone : s.consumer = .returned) : t.consumer = .returned := by
  cases step with
  | push entry => exact gone
  | raise => exact gone
  | check here => rw [gone] at here; cases here
  | popNothing here => rw [gone] at here; cases here
  | pop here first => rw [gone] at here; cases here
  | count here => rw [gone] at here; cases here
  | enqueue here => rw [gone] at here; cases here
  | drainPop here first => rw [gone] at here; cases here
  | drainCount here => rw [gone] at here; cases here
  | drainAdvance here => rw [gone] at here; cases here
  | drainFinish here => rw [gone] at here; cases here
  | drainNothing here => rfl
  | take first idle => exact gone
  | advance here => exact gone
  | finish here => exact gone
  | shutdown => exact gone
  | exit stopped empty idle => exact gone

theorem Step.of_drainNothing {s t : State engine.rules.length}
    (step : Step engine s .drainNothing t) : t.consumer = .returned := by
  cases step
  rfl

theorem Step.stop_eq {s t : State engine.rules.length} {label : Label}
    (step : Step engine s label t) (other : label ≠ .shutdown) : t.stop = s.stop := by
  cases step with
  | shutdown => exact absurd rfl other
  | _ => rfl

theorem dropped_of_joined {workers : Nat} {labels : List Label} {s : State engine.rules.length}
    (run : Run (Step engine) (initial _ workers) labels s) (joined : Joined labels) :
    dropped labels = [] := by
  apply Run.invariant (fun labels _ => Joined labels → dropped labels = []) _ _ run joined
  · exact fun _ => rfl
  · intro labels current label next run none step joined
    have gone : current.stop = true → current.consumer = .returned := by
      refine run.brought (fun s => s.consumer = .returned) (fun s => s.stop = true)
        Bool.false_ne_true (fun step before => ?_) (fun {_ label _} step shut => ?_) joined.left
      · rcases before with already | now
        · exact step.returned already
        · rw [now] at step
          exact step.of_drainNothing
      · by_cases other : label = .shutdown
        · exact .inr other
        · exact .inl (step.stop_eq other ▸ shut)
    rw [dropped_append, none joined.left, List.nil_append]
    cases step with
    | @enqueue entry here =>
      cases stopped : current.stop with
      | false => rfl
      | true =>
        rw [gone stopped] at here
        cases here
    | _ => rfl

def oneRule : PatternEngine AlertRule := ⟨[⟨text "down", .error⟩], fun _ _ => true⟩

def entry : LogEntry := ⟨text "down", text "app.log", [], 0, 1⟩

def inTime : List Label :=
  [.push entry, .check, .pop entry, .count entry, .enqueue entry true, .take entry, .advance,
    .advance, .advance, .finish, .raise, .check, .drainNothing, .shutdown, .exit]

theorem counters_conserved_inTime : ∃ s : State oneRule.rules.length, Ordered s.counters ∧
    s.Finished ∧ Settled oneRule (popped inTime) s.counters := by
  have pushed := Run.single (@Step.push oneRule (initial _ 1) entry)
  have counted := ((pushed.snoc (.check rfl)).snoc (.pop rfl rfl)).snoc (.count rfl)
  have handed := counted.snoc (.enqueue rfl)
  have taken := handed.snoc (.take rfl (by decide))
  have matched := taken.snoc (@Step.advance oneRule _ 0 (.matching entry) rfl)
  have triggered := matched.snoc (@Step.advance oneRule _ 0 (.triggering ⟨0, by decide⟩) rfl)
  have classified := triggered.snoc (@Step.advance oneRule _ 0 (.classifying ⟨0, by decide⟩) rfl)
  have handled := classified.snoc (@Step.finish oneRule _ 0 rfl)
  have returned := ((handled.snoc (.raise _)).snoc (.check rfl)).snoc (.drainNothing rfl)
  have run := (returned.snoc (.shutdown _)).snoc (.exit rfl rfl (by decide))
  have both := counters_conserved (by decide) run (by decide)
  exact ⟨_, both.1, ⟨rfl, rfl, rfl⟩, both.2 ⟨rfl, rfl, rfl⟩ rfl⟩

def level (lines matched triggered classified : UInt64) : Counters oneRule.rules.length where
  totalLines := lines
  totalMatched := matched
  triggerCount _ := triggered
  severityCount := Function.update (fun _ => 0) .error classified

def drainAt (consumer : Consumer oneRule.rules.length) (counters : Counters oneRule.rules.length) :
    State oneRule.rules.length :=
  { initial _ 1 with
    stopFlag := true
    consumer := consumer
    counters := counters }

section Drain

variable (lines matched triggered classified : UInt64)

theorem advance_matching :
    advance oneRule (.matching entry) (level lines matched triggered classified) =
      (.triggering ⟨0, by decide⟩, level lines (matched + 1) triggered classified) :=
  rfl

theorem advance_triggering (rule : Fin oneRule.rules.length) :
    advance oneRule (.triggering rule) (level lines matched triggered classified) =
      (.classifying rule, level lines matched (triggered + 1) classified) := by
  have all : bump (fun _ => triggered) rule = fun _ => triggered + 1 := by
    funext other
    have same : other = rule := Subsingleton.elim (α := Fin 1) other rule
    rw [same, bump, Function.update_self]
  simp only [advance, level, all]

theorem advance_classifying (rule : Fin oneRule.rules.length) :
    advance oneRule (.classifying rule) (level lines matched triggered classified) =
      (.handled, level lines matched triggered (classified + 1)) := by
  have isError : severityOf oneRule rule = .error := by
    have same : rule = ⟨0, by decide⟩ := Subsingleton.elim (α := Fin 1) rule _
    rw [same]
    rfl
  simp only [advance, level, isError, bump, Function.update_self, Function.update_idem]

theorem drain_advance {handling next : Handling oneRule.rules.length}
    {counters after : Counters oneRule.rules.length}
    (advanced : advance oneRule handling counters = (next, after)) :
    Step oneRule (drainAt (.alerting handling) counters) .advance
      (drainAt (.alerting next) after) := by
  have step := Step.drainAdvance (s := drainAt (.alerting handling) counters) rfl
  change Step oneRule _ _ (drainAt (.alerting (advance oneRule handling counters).1)
    (advance oneRule handling counters).2) at step
  rwa [advanced] at step

theorem drain_entry (count : UInt64) :
    Run (Step oneRule) (drainAt .draining (level count count count count))
      [.push entry, .pop entry, .count entry, .advance, .advance, .advance, .finish]
      (drainAt .draining (level (count + 1) (count + 1) (count + 1) (count + 1))) := by
  have pushed := Run.single (Step.push (drainAt .draining (level count count count count)) entry)
  have lined := (pushed.snoc (.drainPop rfl rfl)).snoc (.drainCount rfl)
  have matched := lined.snoc (drain_advance (advance_matching (count + 1) count count count))
  have triggered := matched.snoc (drain_advance (advance_triggering _ _ _ _ _))
  have classified := triggered.snoc (drain_advance (advance_classifying _ _ _ _ _))
  exact classified.snoc (.drainFinish rfl)

end Drain

theorem drain_entries (count : Nat) : ∃ labels, Run (Step oneRule) (initial _ 1) labels
    (drainAt .draining (level (UInt64.ofNat count) (UInt64.ofNat count) (UInt64.ofNat count)
      (UInt64.ofNat count))) := by
  induction count with
  | zero =>
    have draining := (Run.single (@Step.raise oneRule (initial _ 1))).snoc (.check rfl)
    have same : level 0 0 0 0 = (initial oneRule.rules.length 1).counters := by
      simp only [level, initial, Function.update_eq_self]
    refine ⟨[.raise, .check], ?_⟩
    change Run (Step oneRule) _ _ (drainAt .draining (level 0 0 0 0))
    rw [same]
    exact draining
  | succ count ih =>
    obtain ⟨labels, run⟩ := ih
    rw [UInt64.ofNat_add]
    exact ⟨_, run.trans (drain_entry (UInt64.ofNat count))⟩

def shutEarly : List Label :=
  [.push entry, .check, .pop entry, .count entry, .shutdown, .exit, .enqueue entry false, .raise,
    .check, .drainNothing]

/-- After `2 ^ 64` lines `total_lines` is zero again; and an entry that comes to the pool too late
is popped and counted, and never matched. -/
theorem counters_differ :
    (∃ labels, ∃ s : State oneRule.rules.length,
      Run (Step oneRule) (initial _ 1) labels s ∧ ¬Ordered s.counters) ∧
    ∃ s : State oneRule.rules.length, Run (Step oneRule) (initial _ 1) shutEarly s ∧ s.Finished ∧
      ¬Settled oneRule (popped shutEarly) s.counters := by
  constructor
  · obtain ⟨labels, run⟩ := drain_entries (2 ^ 64 - 1)
    have pushed := run.snoc (.push _ entry)
    have lined := (pushed.snoc (.drainPop rfl rfl)).snoc (.drainCount rfl)
    exact ⟨_, _, lined, fun ordered => absurd ordered.matched (by decide)⟩
  · have pushed := Run.single (@Step.push oneRule (initial _ 1) entry)
    have counted := ((pushed.snoc (.check rfl)).snoc (.pop rfl rfl)).snoc (.count rfl)
    have shut := (counted.snoc (.shutdown _)).snoc (.exit rfl rfl (by decide))
    have dropped := shut.snoc (.enqueue rfl)
    have run := ((dropped.snoc (.raise _)).snoc (.check rfl)).snoc (.drainNothing rfl)
    refine ⟨_, run, ⟨rfl, rfl, rfl⟩, fun settled => ?_⟩
    exact absurd (settled.triggers ⟨0, by decide⟩) (by decide)

end LogMonitor.PipelineCounters
