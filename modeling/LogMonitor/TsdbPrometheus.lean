import LogMonitor.Library.Lines
import LogMonitor.Library.PrometheusText
import LogMonitor.TsdbMetrics
import Mathlib.Algebra.BigOperators.Group.List.Basic
import Mathlib.Algebra.Order.BigOperators.Group.List
import Mathlib.Algebra.Order.Ring.Nat
import Mathlib.Algebra.Ring.Rat

/-!
The exported counts as a reader of the text format gets them back. The names of
the apps stand in the lines as they are, so it depends on the names what is read.
-/

namespace LogMonitor.Tsdb.Metrics
open Library Library.ByteString Library.Prometheus

def exportedLines (look : Nat → Look) : List Bytes :=
  (Lines.ended 10 (metricsToPrometheus look)).drop 2

structure Carries (sample : Sample ℚ) (series : Series) : Prop where
  name : sample.name = text "log_count"
  labels : sample.labels.Perm [(text "app", series.app), (text "level", series.level)]
  value : sample.value = series.count
  timestamp : sample.timestamp = none

def Unambiguous (number : Bytes → Option ℚ) (look : Nat → Look) : Prop :=
  ∃ series, series.Perm (metricsSeries look) ∧
    List.Forall₂ (fun line series =>
      ∃ sample, parseSample number line = some sample ∧ Carries sample series)
      (exportedLines look) series

/-! ### The lines -/

def behind (series : Series) : Bytes :=
  text ",level=\"" ++ series.level ++ text "\"\x7d " ++ text (toString series.count)

def sampleLine (series : Series) : Bytes :=
  text "log_count" ++ 123 :: (text "app" ++ 61 :: 34 :: (series.app ++ 34 :: behind series))

theorem metricsLine_eq (series : Series) :
    metricsLine series.app series.level series.count = sampleLine series ++ [10] := by
  have front : text "log_count\x7bapp=\"" =
      text "log_count" ++ 123 :: (text "app" ++ [61, 34]) := rfl
  have closing : text "\",level=\"" = 34 :: text ",level=\"" := rfl
  have newline : text "\n" = [10] := rfl
  simp only [metricsLine, sampleLine, behind, front, closing, newline, List.append_assoc,
    List.cons_append, List.nil_append]

theorem exportedLines_eq (look : Nat → Look) : exportedLines look =
    Lines.ended 10 (Lines.joined 10 ((metricsSeries look).map sampleLine)) := by
  have header : metricsHeader = text "# HELP log_count Total log entries ingested" ++
      10 :: (text "# TYPE log_count counter" ++ [10]) := by decide
  have first : 10 ∉ text "# HELP log_count Total log entries ingested" := by decide
  have second : 10 ∉ text "# TYPE log_count counter" := by decide
  have body : ((metricsSeries look).map fun series =>
      metricsLine series.app series.level series.count).flatten =
        Lines.joined 10 ((metricsSeries look).map sampleLine) := by
    rw [Lines.joined, List.map_map]
    exact congrArg List.flatten (List.map_congr_left fun series _ => metricsLine_eq series)
  rw [exportedLines, metricsToPrometheus_eq, header, body, List.append_assoc, List.cons_append,
    List.append_assoc, List.singleton_append, Lines.ended_cons first, Lines.ended_cons second,
    List.drop_succ_cons, List.drop_succ_cons, List.drop_zero]

/-- Neither a level nor a number ends a line. -/
theorem newline_mem_sampleLine {series : Series} (counted : series.level ∈ levels) :
    10 ∈ sampleLine series ↔ 10 ∈ series.app := by
  have level : 10 ∉ series.level := by
    have each : ∀ level ∈ levels, 10 ∉ level := by decide
    exact each series.level counted
  have count : 10 ∉ text (toString series.count) := by
    intro listed
    exact absurd (isDigit_of_mem_toString listed) (by decide)
  have metric : 10 ∉ text "log_count" := by decide
  have label : 10 ∉ text "app" := by decide
  have between : 10 ∉ text ",level=\"" := by decide
  have closing : 10 ∉ text "\"\x7d " := by decide
  simp only [sampleLine, behind, List.mem_append, List.mem_cons, level, count, metric, label,
    between, closing, false_or, or_false]
  simp

theorem exportedLines_of_names {look : Nat → Look}
    (names : ∀ series ∈ metricsSeries look, 10 ∉ sampleLine series) :
    exportedLines look = (metricsSeries look).map sampleLine := by
  rw [exportedLines_eq, Lines.ended_joined (List.forall_mem_map.mpr names)]

/-- A name that ends a line makes more lines than there are series. -/
theorem names_of_length {look : Nat → Look}
    (length : (exportedLines look).length = (metricsSeries look).length) :
    ∀ series ∈ metricsSeries look, 10 ∉ sampleLine series := by
  rw [exportedLines_eq, ← (metricsSeries look).length_map (f := sampleLine)] at length
  intro series member
  exact (Lines.length_ended_joined _).2.mp length _ (List.mem_map_of_mem member)

/-! ### What is read of a line -/

theorem level_facts : ∀ level ∈ levels,
    Named labelStart labelPart level ∧ Plain level ∧ Utf8 level := by
  decide

/-- A reader does not get past the quote that the export writes behind a name. -/
theorem not_read_behind {series : Series} (counted : series.level ∈ levels) {more after : Bytes}
    (read : readValue (behind series) = some (more, after)) :
    (skipBlanks after).head? ≠ some 125 ∧ (skipBlanks after).head? ≠ some 44 := by
  have shape : behind series = escape (text ",level=") ++ 34 ::
      (series.level ++ (text "\"\x7d " ++ text (toString series.count))) := by
    have between : text ",level=\"" = text ",level=" ++ [34] := rfl
    rw [escape_plain (by decide), behind, between]
    simp only [List.append_assoc, List.cons_append, List.nil_append]
  rw [shape, readValue_escape] at read
  obtain ⟨-, rfl⟩ := Prod.mk.inj (Option.some.inj read)
  have named := (level_facts _ counted).1
  rw [skipBlanks_name named labelStart_of_blank]
  obtain ⟨start, -⟩ := named
  cases level : series.level with
  | nil => simp [level] at start
  | cons c rest =>
    rw [level] at start
    constructor
    all_goals
      intro same
      cases same
      exact Bool.false_ne_true start

/-- A line is never read for a longer name, and for one of the same length only if nothing in the
name needs an escape. -/
theorem name_read {number : Bytes → Option ℚ} {series carried : Series}
    (counted : series.level ∈ levels) (line : 10 ∉ series.app) {sample : Sample ℚ}
    (parsed : parseSample number (sampleLine series) = some sample)
    (carries : Carries sample carried) :
    carried.app.length ≤ series.app.length ∧
      (carried.app.length = series.app.length → Plain series.app ∧ Utf8 series.app) := by
  obtain ⟨value, after, more, read, valid, labels, separated⟩ :=
    parseSample_label (by decide) (by decide) parsed
  have same : value = carried.app := by
    have first : (text "app", value) ∈ sample.labels := labels ▸ List.mem_cons_self
    have distinct : text "app" ≠ text "level" := by decide
    have listed := carries.labels.mem_iff.mp first
    simpa [distinct] using listed
  subst same
  rcases readValue_quoted line read with ⟨shorter, whole⟩ | ⟨further, beyond⟩
  · refine ⟨shorter, fun full => ?_⟩
    obtain ⟨same, plain⟩ := whole full
    exact ⟨plain, same ▸ valid⟩
  · obtain ⟨brace, comma⟩ := not_read_behind counted beyond
    exact absurd separated (not_or.mpr ⟨brace, comma⟩)

/-- A line whose name needs no escape is read for its series. -/
theorem parseSample_sampleLine {number : Bytes → Option ℚ}
    (reads : ∀ n : Nat, number (text (toString n)) = some (n : ℚ)) {series : Series}
    (counted : series.level ∈ levels) (plain : Plain series.app) (valid : Utf8 series.app) :
    ∃ sample, parseSample number (sampleLine series) = some sample ∧ Carries sample series := by
  obtain ⟨-, plainLevel, validLevel⟩ := level_facts _ counted
  let labels := [(text "app", series.app), (text "level", series.level)]
  have written : sampleLine series =
      writeSample (text "log_count") labels (text (toString series.count)) := by
    have second : text ",level=\"" = 44 :: (text "level" ++ [61, 34]) := rfl
    have closing : text "\"\x7d " = [34, 125, 32] := rfl
    simp only [writeSample, writeLabels, writeLabel, labels, escape_plain plain,
      escape_plain plainLevel, sampleLine, behind, second, closing, List.append_assoc,
      List.cons_append, List.nil_append]
  have named : ∀ label ∈ labels, Named labelStart labelPart label.1 := by
    simp only [labels, List.forall_mem_cons]
    exact ⟨by decide, by decide, List.forall_mem_nil _⟩
  have utf8 : ∀ label ∈ labels, Utf8 label.2 := by
    simp only [labels, List.forall_mem_cons]
    exact ⟨valid, validLevel, List.forall_mem_nil _⟩
  have solid : ∀ c ∈ text (toString series.count), blank c = false := by
    intro c listed
    refine Bool.eq_false_iff.mpr fun hidden => ?_
    have digit := isDigit_of_mem_toString listed
    simp only [blank, Bool.or_eq_true, decide_eq_true_eq] at hidden
    rcases hidden with rfl | rfl
    all_goals exact Bool.false_ne_true digit
  have metric : Named nameStart namePart (text "log_count") := by decide
  have read := parseSample_write metric named utf8 solid (reads series.count)
  exact ⟨_, written ▸ read, rfl, .refl _, rfl, rfl⟩

/-! ### The whole export -/

theorem listed_of_mem {look : Nat → Look} {series : Series} (member : series ∈ metricsSeries look) :
    series.app ∈ (look 0).tsdb.getApps ∧ series.level ∈ levels := by
  obtain ⟨i, j, listed, counted, -⟩ := mem_metricsSeries.mp member
  exact ⟨List.mem_of_getElem? listed, List.mem_of_getElem? counted⟩

/-- What holds of the name in every series holds of every app, as each has four. -/
theorem forall_apps {look : Nat → Look} {p : Bytes → Prop}
    (each : ∀ series ∈ metricsSeries look, p series.app) :
    ∀ app ∈ (look 0).tsdb.getApps, p app := by
  intro app listed
  obtain ⟨i, there⟩ := List.getElem?_of_mem listed
  let series : Series := ⟨app, text "INFO", (look (4 * i + 0 + 1)).tsdb.getCount
    (look (4 * i + 0 + 1)).now app (text "INFO") defaultWindow⟩
  have member : series ∈ metricsSeries look := mem_metricsSeries.mpr ⟨i, 0, there, rfl, rfl⟩
  exact each series member

theorem forall_of_sum_eq {α β : Type} {f : α → Nat} {g : β → Nat} {p : α → Prop} {first : List α}
    {second : List β}
    (below : List.Forall₂ (fun a b => g b ≤ f a ∧ (g b = f a → p a)) first second)
    (sums : (second.map g).sum = (first.map f).sum) : ∀ a ∈ first, p a := by
  induction below with
  | nil => nofun
  | @cons a b first second here rest ih =>
    have most : (second.map g).sum ≤ (first.map f).sum := by
      refine List.Forall₂.sum_le_sum ?_
      rw [List.forall₂_map_left_iff, List.forall₂_map_right_iff]
      exact (rest.imp fun _ _ both => both.1).flip
    simp only [List.map_cons, List.sum_cons] at sums
    refine List.forall_mem_cons.mpr ⟨here.2 ?_, ih ?_⟩ <;> have := here.1 <;> omega

theorem plain_of_unambiguous {number : Bytes → Option ℚ} {look : Nat → Look}
    (unambiguous : Unambiguous number look) :
    ∀ app ∈ (look 0).tsdb.getApps, Plain app ∧ Utf8 app := by
  obtain ⟨carried, same, lines⟩ := unambiguous
  have names := names_of_length (lines.length_eq.trans same.length_eq)
  rw [exportedLines_of_names names, List.forall₂_map_left_iff] at lines
  have known : ∀ series ∈ metricsSeries look, series.level ∈ levels ∧ 10 ∉ series.app := by
    intro series member
    have counted := (listed_of_mem member).2
    exact ⟨counted, fun ends => names series member ((newline_mem_sampleLine counted).mpr ends)⟩
  -- the names that are read are those of the series, so they are as long in total
  have sums : (carried.map fun series => series.app.length).sum =
      ((metricsSeries look).map fun series => series.app.length).sum := (same.map _).sum_eq
  have within := (List.forall₂_and_left _ _).mpr ⟨known, lines⟩
  refine forall_apps (forall_of_sum_eq (within.imp ?_) sums)
  rintro series carried ⟨⟨counted, line⟩, sample, parsed, carries⟩
  exact name_read counted line parsed carries

/-- Every line of the export is a sample, exactly one for each app and level with its count, if
and only if every name is UTF-8 without a quote, a backslash or a line feed. -/
theorem unambiguous_iff {number : Bytes → Option ℚ}
    (reads : ∀ n : Nat, number (text (toString n)) = some (n : ℚ)) (look : Nat → Look) :
    Unambiguous number look ↔ ∀ app ∈ (look 0).tsdb.getApps, Plain app ∧ Utf8 app := by
  refine ⟨plain_of_unambiguous, fun names => ?_⟩
  have each : ∀ series ∈ metricsSeries look, series.level ∈ levels ∧ Plain series.app ∧
      Utf8 series.app := fun series member =>
    ⟨(listed_of_mem member).2, names _ (listed_of_mem member).1⟩
  have lines : ∀ series ∈ metricsSeries look, 10 ∉ sampleLine series := by
    intro series member ends
    obtain ⟨counted, plain, -⟩ := each series member
    exact plain.2.2 ((newline_mem_sampleLine counted).mp ends)
  refine ⟨metricsSeries look, .refl _, ?_⟩
  rw [exportedLines_of_names lines, List.forall₂_map_left_iff, List.forall₂_same]
  intro series member
  obtain ⟨counted, plain, valid⟩ := each series member
  exact parseSample_sampleLine reads counted plain valid

def wholeNumber (token : Bytes) : Option ℚ := (integer token).map fun n => (n : ℚ)

theorem wholeNumber_toString (n : Nat) : wholeNumber (text (toString n)) = some (n : ℚ) := by
  rw [wholeNumber, integer_toString]
  rfl

theorem unambiguous_iff_web :
    Unambiguous wholeNumber fun _ => ⟨Store.empty.insert errorEntry, 0⟩ := by
  refine (unambiguous_iff wholeNumber_toString _).mpr ?_
  decide

def quotedEntry : TsdbEntry := ⟨text "a\"b", text "ERROR", text "failed", 0⟩

/-- The quote ends the label early, so the lines of the app cannot be read. -/
theorem quoted_ambiguous :
    ¬Unambiguous wholeNumber fun _ => ⟨Store.empty.insert quotedEntry, 0⟩ := by
  intro unambiguous
  have names := plain_of_unambiguous unambiguous
  exact absurd names (by decide)

end LogMonitor.Tsdb.Metrics
