import LogMonitor.StatsAggregator
import Mathlib.Data.Rat.Floor
import Mathlib.Tactic.FieldSimp
import Mathlib.Tactic.Positivity

/-!
The throughputs that the snapshots show, over a whole run: each is the whole part of
the lines a second since the snapshot before, so that together they account for the
lines.
-/

namespace LogMonitor.StatsAggregator
open Library Library.ByteString Library.Transition

variable {cfg : Config}

section Throughput

/-- The milliseconds of each snapshot and its lines per second. -/
def saves (labels : List Label) : List (Int × Int) :=
  labels.filterMap fun
    | .save elapsed linesPerSecond => some (elapsed, linesPerSecond)
    | _ => none

def isLine : Label → Bool
  | .line => true
  | _ => false

theorem linesPerSec_bounds {lines : UInt64} {elapsed whole : Int} (passed : 0 < elapsed)
    (rounded : whole = (linesPerSec lines elapsed).num.tdiv (linesPerSec lines elapsed).den) :
    whole * elapsed ≤ 1000 * lines.toNat ∧ 1000 * lines.toNat < (whole + 1) * elapsed := by
  have positive : (0 : Rat) < elapsed := by exact_mod_cast passed
  have rate : linesPerSec lines elapsed = 1000 * lines.toNat / elapsed := by
    rw [linesPerSec, if_pos passed]
    field_simp
  have nonneg : 0 ≤ linesPerSec lines elapsed := by
    rw [rate]
    positivity
  have floor : whole = ⌊linesPerSec lines elapsed⌋ := by
    rw [rounded, Int.tdiv_eq_ediv_of_nonneg (Rat.num_nonneg.mpr nonneg), Rat.floor_def']
  have below := Int.floor_le (linesPerSec lines elapsed)
  have above := Int.lt_floor_add_one (linesPerSec lines elapsed)
  rw [← floor, rate] at below above
  constructor
  · exact_mod_cast (le_div_iff₀ positive).mp below
  · exact_mod_cast (div_lt_iff₀ positive).mp above

structure Measured (cfg : Config) (clock prevTime : Int) (prevLines totalLines : UInt64)
    (reading : Reading) : Prop where
  current : reading.now ≤ clock
  ordered : prevLines.toNat ≤ reading.currentLines.toNat
  counted : reading.currentLines.toNat ≤ totalLines.toNat
  passed : prevTime + cfg.naps * 100000000 ≤ reading.now
  elapsed : reading.elapsed = (reading.now - prevTime).tdiv 1000000
  rate : reading.linesPerSec = linesPerSec (reading.currentLines - prevLines) reading.elapsed

def Sound (cfg : Config) (s : State) : Prop :=
  match s.phase with
  | .sleeping left => left ≤ cfg.naps ∧
      s.prevTime + (cfg.naps - left : Nat) * 100000000 ≤ s.clock ∧
      s.prevLines.toNat ≤ s.totalLines.toNat
  | .timed now => now ≤ s.clock ∧ s.prevTime + cfg.naps * 100000000 ≤ now ∧
      s.prevLines.toNat ≤ s.totalLines.toNat
  | .counted now currentLines => now ≤ s.clock ∧ s.prevTime + cfg.naps * 100000000 ≤ now ∧
      s.prevLines.toNat ≤ currentLines.toNat ∧ currentLines.toNat ≤ s.totalLines.toNat
  | .figured reading | .received reading _ | .active reading _ _ | .gathered reading _
  | .opened reading _ | .written reading =>
    Measured cfg s.clock s.prevTime s.prevLines s.totalLines reading
  | .terminated => s.prevLines.toNat ≤ s.totalLines.toNat

structure Accounts (saved : List (Int × Int)) (lines : Nat) : Prop where
  below : (saved.map fun save => save.2 * save.1).sum ≤ 1000 * (lines : Int)
  above : saved = [] ∧ lines = 0 ∨
    1000 * (lines : Int) < (saved.map fun save => (save.2 + 1) * save.1).sum

theorem Accounts.snoc {saved : List (Int × Int)} {lines more : Nat} {elapsed whole : Int}
    (accounts : Accounts saved lines) (below : whole * elapsed ≤ 1000 * (more : Int))
    (above : 1000 * (more : Int) < (whole + 1) * elapsed) :
    Accounts (saved ++ [(elapsed, whole)]) (lines + more) := by
  obtain ⟨least, most⟩ := accounts
  constructor
  · rw [List.map_append, List.sum_append, List.map_singleton, List.sum_singleton]
    push_cast
    omega
  · right
    rw [List.map_append, List.sum_append, List.map_singleton, List.sum_singleton]
    push_cast
    rcases most with ⟨rfl, rfl⟩ | most
    · rw [List.map_nil, List.sum_nil]
      omega
    · omega

theorem Sound.later {s next : State} (sound : Sound cfg s) (phase : next.phase = s.phase)
    (clock : next.clock = s.clock) (time : next.prevTime = s.prevTime)
    (lines : next.prevLines = s.prevLines)
    (total : s.totalLines.toNat ≤ next.totalLines.toNat) : Sound cfg next := by
  unfold Sound at sound ⊢
  rw [phase, clock, time, lines]
  cases here : s.phase with
  | sleeping left =>
    rw [here] at sound
    exact ⟨sound.1, sound.2.1, Nat.le_trans sound.2.2 total⟩
  | timed now =>
    rw [here] at sound
    exact ⟨sound.1, sound.2.1, Nat.le_trans sound.2.2 total⟩
  | counted now currentLines =>
    rw [here] at sound
    exact ⟨sound.1, sound.2.1, sound.2.2.1, Nat.le_trans sound.2.2.2 total⟩
  | terminated =>
    rw [here] at sound
    exact Nat.le_trans sound total
  | _ =>
    rw [here] at sound
    exact ⟨sound.1, sound.2, Nat.le_trans sound.3 total, sound.4, sound.5, sound.6⟩

structure Balanced (cfg : Config) (labels : List Label) (s : State) : Prop where
  sound : Sound cfg s
  total : s.totalLines.toNat = labels.countP isLine
  accounts : Accounts (saves labels) s.prevLines.toNat
  spans : ∀ save ∈ saves labels, 1000 * cfg.intervalSeconds.toInt ≤ save.1

theorem Balanced.quiet {labels : List Label} {label : Label} {s next : State}
    (inv : Balanced cfg labels s) (line : isLine label = false) (save : saves [label] = [])
    (total : next.totalLines = s.totalLines) (lines : next.prevLines = s.prevLines)
    (sound : Sound cfg next) : Balanced cfg (labels ++ [label]) next := by
  have same : saves (labels ++ [label]) = saves labels := by
    rw [saves, List.filterMap_append]
    change saves labels ++ saves [label] = saves labels
    rw [save, List.append_nil]
  refine ⟨sound, ?_, ?_, ?_⟩
  · rw [total, inv.total, List.countP_append, List.countP_singleton, line]
    rfl
  · rw [same, lines]
    exact inv.accounts
  · rw [same]
    exact inv.spans

/-- At least a second, and no overflow in the product that the loop counts to. -/
structure Config.Bounded (cfg : Config) : Prop where
  positive : 1 ≤ cfg.intervalSeconds.toInt
  fits : cfg.intervalSeconds.toInt ≤ 214748364

theorem Config.Bounded.naps (interval : cfg.Bounded) :
    (cfg.naps : Int) = 10 * cfg.intervalSeconds.toInt := by
  obtain ⟨positive, fits⟩ := interval
  have product : (cfg.intervalSeconds * 10).toInt = cfg.intervalSeconds.toInt * 10 := by
    rw [Int32.toInt_mul]
    apply Int.bmod_eq_of_le
    · change -(2147483648 : Int) ≤ cfg.intervalSeconds.toInt * 10
      omega
    · change cfg.intervalSeconds.toInt * 10 < (2147483648 : Int)
      omega
  unfold Config.naps
  rw [product]
  omega

theorem balanced_run {opened : Nat → Bool} {clock : Int} {file : Bytes} {labels : List Label}
    {s : State} (interval : cfg.Bounded)
    (run : Run (Step cfg) (initial cfg opened clock file) labels s) :
    labels.countP isLine < 2 ^ 64 → Balanced cfg labels s := by
  refine run.invariant (fun labels s => labels.countP isLine < 2 ^ 64 → Balanced cfg labels s)
    ?_ ?_
  · intro _
    refine ⟨?_, rfl, ⟨Int.le_refl 0, .inl ⟨rfl, rfl⟩⟩, by simp [saves]⟩
    simp [Sound, initial]
  intro labels s label next _ ih step few
  rw [List.countP_append] at few
  have inv := ih (Nat.lt_of_le_of_lt (Nat.le_add_right ..) few)
  have sound := inv.sound
  cases step with
  | network | heard | httpLine =>
    exact inv.quiet rfl rfl rfl rfl (sound.later rfl rfl rfl rfl (Nat.le_refl _))
  | line alive =>
    have one : (s.totalLines + 1).toNat = s.totalLines.toNat + 1 := by
      rw [UInt64.toNat_add, inv.total]
      exact Nat.mod_eq_of_lt few
    refine ⟨sound.later rfl rfl rfl rfl ?_, ?_, ?_, ?_⟩
    · rw [one]
      omega
    · rw [one, inv.total, List.countP_append]
      rfl
    · simpa [saves] using inv.accounts
    · simpa [saves] using inv.spans
  | nap here | time here | count here =>
    refine inv.quiet rfl rfl rfl rfl ?_
    simp only [Sound, here] at sound ⊢
    omega
  | figure figures here =>
    refine inv.quiet rfl rfl rfl rfl ?_
    simp only [Sound, here] at sound ⊢
    exact ⟨sound.1, sound.2.2.1, sound.2.2.2, sound.2.1, rfl, rfl⟩
  | receive here | active here | gather here | tornGather _ here | gatherAlone here | notOpened here
  | openFile here | dump here =>
    refine inv.quiet rfl rfl rfl rfl ?_
    simp only [Sound, here] at sound ⊢
    exact sound
  | terminate here =>
    refine inv.quiet rfl rfl rfl rfl ?_
    simp only [Sound, here] at sound ⊢
    exact Nat.le_trans sound.2 sound.3
  | @save reading here =>
    simp only [Sound, here] at sound
    have naps := interval.naps
    have positive := interval.positive
    have span : 1000 * cfg.intervalSeconds.toInt ≤ reading.elapsed := by
      have passed := sound.passed
      rw [sound.elapsed, Int.tdiv_eq_ediv_of_nonneg (by omega)]
      omega
    have passed : 0 < reading.elapsed := by omega
    have bounds := @linesPerSec_bounds (reading.currentLines - s.prevLines) _ reading.wholeLines
      passed (by rw [Reading.wholeLines, sound.rate])
    have more := UInt64.toNat_sub_of_le _ _ (UInt64.le_iff_toNat_le.mpr sound.ordered)
    have saved : saves (labels ++ [.save reading.elapsed reading.wholeLines]) =
        saves labels ++ [(reading.elapsed, reading.wholeLines)] := List.filterMap_append
    refine ⟨?_, ?_, ?_, ?_⟩
    · have current := sound.current
      have counted := sound.counted
      simp only [Sound]
      omega
    · rw [inv.total, List.countP_append]
      rfl
    · have accounts := inv.accounts.snoc bounds.1 bounds.2
      rw [more, Nat.add_sub_cancel' sound.ordered] at accounts
      rw [saved]
      exact accounts
    · rw [saved]
      intro save listed
      rcases List.mem_append.mp listed with old | new
      · exact inv.spans save old
      · rw [List.mem_singleton.mp new]
        exact span

/-- So many lines had been counted when the snapshot in hand asked. -/
def AskedAt (labels : List Label) (lines : Nat) : Prop :=
  ∃ earlier later, labels = earlier ++ .count :: later ∧ .count ∉ later ∧
    lines = earlier.countP isLine

def SavedAt (labels : List Label) (lines : Nat) : Prop :=
  saves labels = [] ∧ lines = 0 ∨ ∃ earlier middle elapsed linesPerSecond later,
    labels = earlier ++ .count :: (middle ++ .save elapsed linesPerSecond :: later) ∧
      .count ∉ middle ∧ saves later = [] ∧ lines = earlier.countP isLine

theorem AskedAt.snoc {labels : List Label} {label : Label} {lines : Nat}
    (asked : AskedAt labels lines) (other : label ≠ .count) :
    AskedAt (labels ++ [label]) lines := by
  obtain ⟨earlier, later, rfl, last, rfl⟩ := asked
  refine ⟨earlier, later ++ [label], by rw [List.append_assoc, List.cons_append], ?_, rfl⟩
  simp only [List.mem_append, List.mem_singleton, not_or]
  exact ⟨last, Ne.symm other⟩

theorem SavedAt.snoc {labels : List Label} {label : Label} {lines : Nat}
    (saved : SavedAt labels lines) (quiet : saves [label] = []) :
    SavedAt (labels ++ [label]) lines := by
  have more (before : List Label) (none : saves before = []) : saves (before ++ [label]) = [] := by
    rw [saves, List.filterMap_append]
    change saves before ++ saves [label] = []
    rw [none, quiet, List.append_nil]
  rcases saved with ⟨none, zero⟩ | ⟨earlier, middle, elapsed, whole, later, rfl, last, none, count⟩
  · exact .inl ⟨more labels none, zero⟩
  · have quieter := more later none
    refine .inr ⟨earlier, middle, elapsed, whole, later ++ [label], ?_, last, quieter, count⟩
    simp only [List.append_assoc, List.cons_append]

def Phase.lines : Phase → Option UInt64
  | .counted _ currentLines => some currentLines
  | .figured reading | .received reading _ | .active reading _ _ | .gathered reading _
  | .opened reading _ | .written reading => some reading.currentLines
  | _ => none

structure Traced (labels : List Label) (s : State) : Prop where
  asked : ∀ lines, s.phase.lines = some lines → AskedAt labels lines.toNat
  saved : SavedAt labels s.prevLines.toNat

theorem Traced.quiet {labels : List Label} {label : Label} {s next : State}
    (inv : Traced labels s) (count : label ≠ .count) (save : saves [label] = [])
    (phase : ∀ lines, next.phase.lines = some lines → s.phase.lines = some lines)
    (same : next.prevLines = s.prevLines) : Traced (labels ++ [label]) next := by
  refine ⟨fun lines there => (inv.asked lines (phase lines there)).snoc count, ?_⟩
  rw [same]
  exact inv.saved.snoc save

theorem traced_run {opened : Nat → Bool} {clock : Int} {file : Bytes} {labels : List Label}
    {s : State} (interval : cfg.Bounded)
    (run : Run (Step cfg) (initial cfg opened clock file) labels s) :
    labels.countP isLine < 2 ^ 64 → Traced labels s := by
  refine run.invariant (fun labels s => labels.countP isLine < 2 ^ 64 → Traced labels s) ?_ ?_
  · exact fun _ => ⟨nofun, .inl ⟨rfl, rfl⟩⟩
  intro labels s label next run ih step few
  rw [List.countP_append] at few
  have fewer := Nat.lt_of_le_of_lt (Nat.le_add_right ..) few
  have inv := ih fewer
  cases step with
  | network | heard | httpLine | line => exact inv.quiet nofun rfl (fun _ there => there) rfl
  | nap here | time here | terminate here => exact inv.quiet nofun rfl nofun rfl
  | figure figures here | receive here | active here | gather here | tornGather _ here | gatherAlone here
  | notOpened here | openFile here | dump here =>
    refine inv.quiet nofun rfl (fun lines there => ?_) rfl
    rw [here]
    exact there
  | count here =>
    refine ⟨fun lines there => ⟨labels, [], rfl, List.not_mem_nil, ?_⟩, inv.saved.snoc rfl⟩
    rw [← Option.some.inj there]
    exact (balanced_run interval run fewer).total
  | @save reading here =>
    refine ⟨nofun, .inr ?_⟩
    obtain ⟨earlier, later, rfl, last, same⟩ := inv.asked reading.currentLines (by rw [here]; rfl)
    refine ⟨earlier, later, reading.elapsed, reading.wholeLines, [], ?_, last, rfl, same⟩
    rw [List.append_assoc, List.cons_append]

end Throughput

/-- Over any number of snapshots, at least the interval apart, the throughputs that were measured
account for every line that the last of them has counted, to less than one line for each second. -/
theorem throughput_accounts (interval : cfg.Bounded) {opened : Nat → Bool}
    {clock : Int} {file : Bytes} {labels : List Label} {s : State}
    (run : Run (Step cfg) (initial cfg opened clock file) labels s)
    (few : labels.countP isLine < 2 ^ 64) :
    ∃ lines : Nat, SavedAt labels lines ∧
      ((saves labels).map fun save => save.2 * save.1).sum ≤ 1000 * (lines : Int) ∧
      (saves labels ≠ [] →
        1000 * (lines : Int) < ((saves labels).map fun save => (save.2 + 1) * save.1).sum) ∧
      ∀ save ∈ saves labels, 1000 * cfg.intervalSeconds.toInt ≤ save.1 := by
  have balanced := balanced_run interval run few
  have traced := traced_run interval run few
  refine ⟨s.prevLines.toNat, traced.saved, balanced.accounts.below, fun some => ?_, balanced.spans⟩
  exact balanced.accounts.above.resolve_left fun none => some none.1

theorem throughput_accounts_line : ∃ labels : List Label, labels.countP isLine = 1 ∧
    .dump ∈ labels ∧ (saves labels).length = 1 ∧ ∃ lines : Nat, SavedAt labels lines ∧
      ((saves labels).map fun save => save.2 * save.1).sum ≤ 1000 * (lines : Int) ∧
      (saves labels ≠ [] →
        1000 * (lines : Int) < ((saves labels).map fun save => (save.2 + 1) * save.1).sum) ∧
      ∀ save ∈ saves labels, 1000 * 1 ≤ save.1 := by
  let cfg : Config := ⟨false, 1, fun _ => some []⟩
  have interval : cfg.Bounded := ⟨by decide, by decide⟩
  have counted := Run.single (@Step.line cfg (initial cfg (fun _ => false) 0 []) nofun)
  have rested := counted.trans (@naps_run cfg 10 _ rfl)
  have asked := (rested.snoc (.time rfl (Int.le_refl _))).snoc (.count rfl)
  have gathered := (asked.snoc (.figure someFigures rfl)).snoc (.gatherAlone rfl rfl)
  have written := (gathered.snoc (.openFile rfl)).snoc (.dump rfl rfl (List.prefix_refl _))
  have saved := written.snoc (.save rfl)
  exact ⟨_, rfl, by simp, rfl, @throughput_accounts cfg interval _ _ _ _ _ saved (by decide)⟩

end LogMonitor.StatsAggregator
