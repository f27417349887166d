import LogMonitor.CodeIndexerQuery
import Mathlib.Tactic.Linarith
import Mathlib.Tactic.NormNum

/-!
How far the line and the score of a location are what they are meant to be. The
line is that of the last entry with a weight, where the best was meant; the
score counts every entry, where each token was meant to count once.
-/

namespace LogMonitor.CodeIndexer
open Library Library.ByteString Library.Scoring

section Weights
variable {K : Type} [Field K] (s : Indexer K)

theorem weight_eq (hit : Hit) : weight s hit = fileWeight s hit.token hit.file := by
  unfold weight score fileWeight Hit.file
  split <;> simp

variable [LinearOrder K] [IsStrictOrderedRing K]

theorem fileWeight_pos (token file : Bytes) : 0 < fileWeight s token file ↔ 0 < getIdf s token := by
  unfold fileWeight
  split <;> simp

variable {s}

theorem fileWeight_nonneg (nonneg : ∀ token, 0 ≤ getIdf s token) (token file : Bytes) :
    0 ≤ fileWeight s token file := by
  unfold fileWeight
  split
  · exact mul_nonneg (nonneg token) zero_le_two
  · exact mul_nonneg (nonneg token) zero_le_one

end Weights

section Sample

def samplePatterns : Patterns where
  functionName _ _ := none
  className _ := none
  strLit _ := []
  ident line := if line = text "alpha" ∨ line = text "zetas" then [line] else []
  fileRef _ := []
  funcRef _ := []
  camel _ := []
  snake _ := []
  word line := if line = text "alpha zetas" then [text "alpha", text "zetas"] else [line]

/-- A file that is named after the word in its first line, and an empty one. -/
def sampleTree : List DirectoryEntry := [
  ⟨text "alpha.cpp", true, some (text "alpha\nzetas\n")⟩,
  ⟨text "b.cpp", true, some []⟩]

def indexed {K : Type} [Field K] (log : K → K) : Indexer K :=
  build samplePatterns log (some sampleTree) [text ".cpp"] (create 3)

def alphaStem : Hit := ⟨text "alpha", ⟨text "alpha.cpp", 0, text "alpha.cpp", []⟩⟩

def alphaLine : Hit := ⟨text "alpha", ⟨text "alpha.cpp", 1, text "alpha", []⟩⟩

def zetasLine : Hit := ⟨text "zetas", ⟨text "alpha.cpp", 2, text "zetas", []⟩⟩

theorem tokens_alpha_zetas :
    extractErrorTokens samplePatterns (text "alpha zetas") = [text "alpha", text "zetas"] := by
  have sorted : [text "alpha", text "zetas"].Pairwise fun first second =>
      decide (first ≤ second) = true := by decide
  change ([text "alpha", text "zetas"].mergeSort _).destutter _ = _
  rw [List.mergeSort_of_pairwise sorted]
  decide

theorem tokens_zetas : extractErrorTokens samplePatterns (text "zetas") = [text "zetas"] := by
  change ([text "zetas"].mergeSort _).destutter _ = _
  rw [List.mergeSort_singleton]
  decide

theorem hits_alpha_zetas {K : Type} [Field K] (log : K → K) :
    hits (indexed log) [text "alpha", text "zetas"] = [alphaStem, alphaLine, zetasLine] := rfl

theorem hits_zetas {K : Type} [Field K] (log : K → K) :
    hits (indexed log) [text "zetas"] = [zetasLine] := rfl

theorem idf_indexed {K : Type} [Field K] (log : K → K) {token : Bytes}
    (word : token = text "alpha" ∨ token = text "zetas") :
    getIdf (indexed log) token = log ((2 : Nat) / (1 : Nat)) := by
  rcases word with rfl | rfl <;> rfl

theorem idf_indexed_pos {token : Bytes} (word : token = text "alpha" ∨ token = text "zetas") :
    0 < getIdf (indexed Real.log) token := by
  rw [idf_indexed Real.log word]
  exact Real.log_pos (by norm_num)

theorem exists_location {line : Bytes} {tokens : List Bytes}
    (asks : extractErrorTokens samplePatterns line = tokens)
    (some : hits (indexed Real.log) tokens ≠ [])
    (only : ∀ hit ∈ hits (indexed Real.log) tokens, hit.file = text "alpha.cpp") :
    ∃ location ∈ query samplePatterns (Ranking.merge Bytes ℝ) (indexed Real.log) line,
      location.filePath = text "alpha.cpp" := by
  have asked : ¬(!(indexed Real.log).built || (indexed Real.log).totalFiles = 0) = true := nofun
  have top := topMatches_query (indexed Real.log) samplePatterns (Ranking.merge Bytes ℝ) line asked
  rw [asks] at top
  have hit : 0 < ((hits (indexed Real.log) tokens).map Hit.file).toFinset.card := by
    obtain ⟨hit, listed⟩ := List.exists_mem_of_ne_nil _ some
    exact Finset.card_pos.mpr ⟨hit.file, List.mem_toFinset.mpr (List.mem_map_of_mem listed)⟩
  have room : 0 < (indexed Real.log).maxResults := Nat.succ_pos 2
  have results := top.length ▸ Nat.lt_min.mpr ⟨room, hit⟩
  obtain ⟨location, found⟩ := List.exists_mem_of_length_pos results
  obtain ⟨token, asked, e, listed, file, -⟩ := top.actual location found
  refine ⟨location, found, ?_⟩
  rw [← file]
  exact only ⟨token, e⟩ ((mem_hits _).mpr ⟨asked, listed⟩)

theorem exists_location_alpha_zetas : ∃ location ∈ query samplePatterns (Ranking.merge Bytes ℝ)
    (indexed Real.log) (text "alpha zetas"), location.filePath = text "alpha.cpp" := by
  apply exists_location tokens_alpha_zetas
  · rw [hits_alpha_zetas]
    exact List.cons_ne_nil _ _
  · rw [hits_alpha_zetas]
    decide

theorem exists_location_zetas : ∃ location ∈ query samplePatterns (Ranking.merge Bytes ℝ)
    (indexed Real.log) (text "zetas"), location.filePath = text "alpha.cpp" := by
  apply exists_location tokens_zetas
  · rw [hits_zetas]
    exact List.cons_ne_nil _ _
  · rw [hits_zetas]
    decide

theorem indexed_nonneg (token : Bytes) : 0 ≤ getIdf (indexed Real.log) token :=
  (consistent_build samplePatterns Real.log (some sampleTree) [text ".cpp"] 3).getIdf_nonneg token

end Sample

section Tokens

/-- The tokens of a query come in alphabetical order, each once. -/
theorem sorted_extractErrorTokens (patterns : Patterns) (line : Bytes) :
    (extractErrorTokens patterns line).Pairwise (· < ·) := by
  let tokens := (patterns.fileRef line).flatMap fileTokens ++ patterns.funcRef line ++
    patterns.camel line ++ patterns.snake line ++
    (patterns.word line).filter fun w => w ∉ logStopWords
  let sorted := tokens.mergeSort fun first second => decide (first ≤ second)
  change (sorted.destutter (· ≠ ·)).Pairwise (· < ·)
  have ascending : sorted.Pairwise (· ≤ ·) := by
    have pairs : sorted.Pairwise fun first second => decide (first ≤ second) := by
      apply List.pairwise_mergeSort
      · intro _ _ _ first second
        simp only [decide_eq_true_eq] at first second ⊢
        exact List.le_trans first second
      · intro first second
        simp only [Bool.or_eq_true, decide_eq_true_eq]
        exact List.le_total first second
    exact pairs.imp of_decide_eq_true
  have ordered := (ascending.sublist (List.destutter_sublist (· ≠ ·) sorted)).isChain
  have distinct := List.isChain_destutter (· ≠ ·) sorted
  have less : (sorted.destutter (· ≠ ·)).IsChain (· < ·) := by
    rw [List.isChain_iff_getElem] at ordered distinct ⊢
    intro i inside
    rcases List.le_iff_lt_or_eq.mp (ordered i inside) with less | same
    · exact less
    · exact absurd same (distinct i inside)
  exact less.pairwise

end Tokens

section Best
variable {K : Type} (s : Indexer K)

def entriesIn (token file : Bytes) : List IndexEntry :=
  (s.entriesOf token).filter fun e => e.filePath = file

def fileHits (tokens : List Bytes) (file : Bytes) : List Hit := hitsOn Hit.file file (hits s tokens)

theorem mem_fileHits {tokens : List Bytes} {file : Bytes} {hit : Hit} :
    hit ∈ fileHits s tokens file ↔ hit.token ∈ tokens ∧ hit.entry ∈ entriesIn s hit.token file := by
  rw [fileHits, mem_hitsOn, mem_hits, entriesIn, List.mem_filter, decide_eq_true_eq, and_assoc]
  rfl

theorem fileHits_append (first second : List Bytes) (file : Bytes) :
    fileHits s (first ++ second) file = fileHits s first file ++ fileHits s second file := by
  simp only [fileHits, hitsOn, hits, List.flatMap_append, List.filter_append]

theorem fileHits_singleton (token file : Bytes) :
    fileHits s [token] file = (entriesIn s token file).map (Hit.mk token) := by
  rw [fileHits, hits, List.flatMap_singleton, hitsOn, List.filter_map]
  rfl

variable [Field K]

theorem weight_fileHits {tokens : List Bytes} {file : Bytes} {hit : Hit}
    (listed : hit ∈ fileHits s tokens file) : weight s hit = fileWeight s hit.token file := by
  rw [weight_eq, (mem_hitsOn.mp listed).2]

variable [LinearOrder K]

/-- The place of a hit on the file with which no other hit on it compares. -/
def BestPlace (tokens : List Bytes) (file : Bytes) (place : Nat × Bytes × Bytes) : Prop :=
  ∃ best ∈ fileHits s tokens file, best.entry.place = place ∧
    ∀ other ∈ fileHits s tokens file, weight s other ≤ weight s best

/-- No token of the query that is in the file has a greater weight there. -/
def Heaviest (tokens : List Bytes) (file token : Bytes) : Prop :=
  ∀ other ∈ tokens, entriesIn s other file ≠ [] → fileWeight s other file ≤ fileWeight s token file

/-- The last token in the alphabet that is in the file and has a positive frequency weight. -/
structure LastToken (tokens : List Bytes) (file token : Bytes) : Prop where
  asked : token ∈ tokens
  positive : 0 < getIdf s token
  last : ∀ later ∈ tokens, token < later → 0 < getIdf s later → entriesIn s later file = []

/-- If there is such a token, the last of its entries in the file is where one of a heaviest token
is, which it may be itself. -/
def LastIsHeaviest (tokens : List Bytes) (file : Bytes) : Prop :=
  ∀ token e, LastToken s tokens file token → (entriesIn s token file).getLast? = some e →
    ∃ heaviest ∈ tokens, Heaviest s tokens file heaviest ∧
      ∃ same ∈ entriesIn s heaviest file, same.place = e.place

variable {s}

theorem bestPlace_iff_heaviest {tokens : List Bytes} {file : Bytes} {place : Nat × Bytes × Bytes} :
    BestPlace s tokens file place ↔ ∃ heaviest ∈ tokens, Heaviest s tokens file heaviest ∧
      ∃ same ∈ entriesIn s heaviest file, same.place = place := by
  constructor
  · rintro ⟨best, listed, here, most⟩
    obtain ⟨asked, inside⟩ := (mem_fileHits s).mp listed
    refine ⟨best.token, asked, fun other among some => ?_, best.entry, inside, here⟩
    obtain ⟨e, entry⟩ := List.exists_mem_of_ne_nil _ some
    have also : ⟨other, e⟩ ∈ fileHits s tokens file := (mem_fileHits s).mpr ⟨among, entry⟩
    have less := most _ also
    rw [weight_fileHits s also, weight_fileHits s listed] at less
    exact less
  · rintro ⟨heaviest, asked, most, same, inside, here⟩
    have listed : ⟨heaviest, same⟩ ∈ fileHits s tokens file := (mem_fileHits s).mpr ⟨asked, inside⟩
    refine ⟨_, listed, here, fun other also => ?_⟩
    obtain ⟨among, entry⟩ := (mem_fileHits s).mp also
    rw [weight_fileHits s also, weight_fileHits s listed]
    exact most other.token among (List.ne_nil_of_mem entry)

theorem exists_lastToken {tokens : List Bytes} (sorted : tokens.Pairwise (· < ·)) {file : Bytes}
    {token : Bytes} (asked : token ∈ tokens) (positive : 0 < getIdf s token)
    (occurs : entriesIn s token file ≠ []) : ∃ last e, LastToken s tokens file last ∧
      (entriesIn s last file).getLast? = some e := by
  let weighs := tokens.filter fun token => 0 < getIdf s token ∧ entriesIn s token file ≠ []
  have mem {token : Bytes} : token ∈ weighs ↔
      token ∈ tokens ∧ 0 < getIdf s token ∧ entriesIn s token file ≠ [] := by
    simp only [weighs, List.mem_filter, decide_eq_true_eq]
  have among : weighs ≠ [] := List.ne_nil_of_mem (mem.mpr ⟨asked, positive, occurs⟩)
  obtain ⟨before, last, split⟩ := (List.eq_nil_or_concat weighs).resolve_left among
  rw [List.concat_eq_append] at split
  have ends : last ∈ weighs := split ▸ List.mem_append_right _ (List.mem_singleton_self _)
  obtain ⟨inside, weight, entries⟩ := mem.mp ends
  refine ⟨last, _, ⟨inside, weight, fun later asked after positive => ?_⟩,
    List.getLast?_eq_getLast_of_ne_nil entries⟩
  by_contra left
  have pairs : (before ++ [last]).Pairwise (· < ·) := split ▸ sorted.filter _
  have listed : later ∈ before ++ [last] := split ▸ mem.mpr ⟨asked, positive, left⟩
  rcases List.mem_append.mp listed with earlier | same
  · have less := (List.pairwise_append.mp pairs).2.2 later earlier last (List.mem_singleton_self _)
    exact List.lt_asymm less after
  · rw [List.mem_singleton.mp same] at after
    exact List.lt_irrefl _ after

variable [IsStrictOrderedRing K]

theorem remembered_lastToken {tokens : List Bytes} (sorted : tokens.Pairwise (· < ·))
    {file token : Bytes} {e : IndexEntry} (last : LastToken s tokens file token)
    (final : (entriesIn s token file).getLast? = some e) :
    remembered (weight s) (fileHits s tokens file) = some ⟨token, e⟩ := by
  obtain ⟨before, after, rfl⟩ := List.append_of_mem last.asked
  obtain ⟨earlier, entries⟩ := List.getLast?_eq_some_iff.mp final
  have split : fileHits s (before ++ token :: after) file =
      (fileHits s before file ++ earlier.map (Hit.mk token)) ++
        ⟨token, e⟩ :: fileHits s after file := by
    rw [← List.singleton_append, fileHits_append, fileHits_append, fileHits_singleton, entries,
      List.map_append]
    simp
  rw [split]
  apply remembered_last
  · rw [weight_eq, fileWeight_pos]
    exact last.positive
  · intro other listed
    obtain ⟨asked, inside⟩ := (mem_fileHits s).mp listed
    rw [weight_eq, fileWeight_pos]
    intro positive
    have later : token < other.token :=
      (List.pairwise_cons.mp (List.pairwise_append.mp sorted).2.1).1 _ asked
    have none := last.last _ (List.mem_append_right _ (List.mem_cons_of_mem _ asked)) later positive
    rw [none] at inside
    exact List.not_mem_nil inside

variable {patterns : Patterns} {ranking : Ranking Bytes K} {errorLine : Bytes}

/-- The place of a location is the best in its file if and only if the last token there that has a
weight ends where a heaviest one is. -/
theorem bestPlace_iff (nonneg : ∀ token, 0 ≤ getIdf s token) {location : CodeLocation K}
    (found : location ∈ query patterns ranking s errorLine) :
    BestPlace s (extractErrorTokens patterns errorLine) location.filePath location.place ↔
      LastIsHeaviest s (extractErrorTokens patterns errorLine) location.filePath := by
  have sorted := sorted_extractErrorTokens patterns errorLine
  obtain ⟨-, hit, reported, place⟩ := mem_query s found
  change remembered _ (fileHits s _ _) = _ at reported
  rw [place]
  constructor
  · intro best token e last final
    have same := remembered_lastToken sorted last final
    rw [reported, Option.some.injEq] at same
    subst same
    exact bestPlace_iff_heaviest.mp best
  · intro condition
    by_cases weightless : ∀ other ∈ fileHits s (extractErrorTokens patterns errorLine)
        location.filePath, ¬0 < weight s other
    · refine ⟨hit, remembered_mem (weight s) reported, rfl, fun other listed => ?_⟩
      have small := not_lt.mp (weightless other listed)
      rw [weight_eq s hit]
      exact small.trans (fileWeight_nonneg nonneg hit.token hit.file)
    · push Not at weightless
      obtain ⟨other, listed, positive⟩ := weightless
      obtain ⟨asked, inside⟩ := (mem_fileHits s).mp listed
      rw [weight_fileHits s listed, fileWeight_pos] at positive
      obtain ⟨token, e, last, final⟩ :=
        exists_lastToken sorted asked positive (List.ne_nil_of_mem inside)
      have same := remembered_lastToken sorted last final
      rw [reported, Option.some.injEq] at same
      subst same
      exact bestPlace_iff_heaviest.mpr (condition token e last final)

end Best

theorem bestPlace_iff_zetas : ∃ location ∈ query samplePatterns (Ranking.merge Bytes ℝ)
    (indexed Real.log) (text "zetas"), BestPlace (indexed Real.log)
      (extractErrorTokens samplePatterns (text "zetas")) location.filePath location.place := by
  obtain ⟨location, found, file⟩ := exists_location_zetas
  refine ⟨location, found, (bestPlace_iff indexed_nonneg found).mpr ?_⟩
  rw [tokens_zetas, file]
  intro token e last final
  have only := List.mem_singleton.mp last.asked
  subst only
  refine ⟨text "zetas", List.mem_singleton_self _, ?_, e, List.mem_of_getLast? final, rfl⟩
  intro other asked _
  rw [List.mem_singleton.mp asked]

/-- The line of the word without a boost is reported, as it comes later in the alphabet. -/
theorem zetasLine_reported : ∃ location ∈ query samplePatterns (Ranking.merge Bytes ℝ)
    (indexed Real.log) (text "alpha zetas"), ¬BestPlace (indexed Real.log)
      (extractErrorTokens samplePatterns (text "alpha zetas")) location.filePath location.place := by
  obtain ⟨location, found, file⟩ := exists_location_alpha_zetas
  refine ⟨location, found, ?_⟩
  obtain ⟨-, hit, reported, place⟩ := mem_query (indexed Real.log) found
  have three : fileHits (indexed Real.log) [text "alpha", text "zetas"] (text "alpha.cpp") =
      [alphaStem, alphaLine] ++ zetasLine :: [] := rfl
  have positive : 0 < weight (indexed Real.log) zetasLine := by
    rw [weight_eq, fileWeight_pos]
    exact idf_indexed_pos (.inr rfl)
  have last : remembered (weight (indexed Real.log)) ([alphaStem, alphaLine] ++ zetasLine :: []) =
      some zetasLine := remembered_last _ positive nofun
  rw [tokens_alpha_zetas, file] at reported
  change remembered _ (fileHits (indexed Real.log) [text "alpha", text "zetas"] (text "alpha.cpp")) =
    some hit at reported
  rw [three, last] at reported
  obtain rfl := Option.some.inj reported
  rw [tokens_alpha_zetas, file, place]
  rintro ⟨best, listed, here, most⟩
  rw [three] at listed most
  have late : best = zetasLine := by
    simp only [List.cons_append, List.nil_append, List.mem_cons, List.not_mem_nil,
      or_false] at listed
    rcases listed with rfl | rfl | rfl
    · exact absurd here (by decide)
    · exact absurd here (by decide)
    · rfl
  -- the file is named after the other word
  have less := most alphaStem (List.mem_cons_self ..)
  have boosted : weight (indexed Real.log) alphaStem =
      getIdf (indexed Real.log) (text "alpha") * 2 := by
    rw [weight_eq]
    rfl
  have plain : weight (indexed Real.log) zetasLine =
      getIdf (indexed Real.log) (text "zetas") * 1 := by
    rw [weight_eq]
    rfl
  rw [late, boosted, plain, idf_indexed Real.log (.inl rfl),
    idf_indexed Real.log (.inr rfl)] at less
  have some := idf_indexed_pos (.inl rfl)
  rw [idf_indexed Real.log (.inl rfl)] at some
  linarith

section Presence
variable {K : Type} [Field K] (s : Indexer K)

def occurrences (token file : Bytes) : Nat :=
  ((s.entriesOf token).filter fun e => e.filePath = file).length

def presenceScore (tokens : List Bytes) (file : Bytes) : K :=
  ((tokens.filter fun token => 0 < occurrences s token file).map fun token =>
    fileWeight s token file).sum

theorem presenceScore_eq (tokens : List Bytes) (file : Bytes) : presenceScore s tokens file =
    (tokens.map fun token =>
      if 0 < occurrences s token file then fileWeight s token file else 0).sum := by
  unfold presenceScore
  induction tokens with
  | nil => rfl
  | cons token rest ih =>
    by_cases occurs : 0 < occurrences s token file
    · rw [List.filter_cons_of_pos (by simpa using occurs), List.map_cons, List.sum_cons, ih,
        List.map_cons, List.sum_cons, if_pos occurs]
    · rw [List.filter_cons_of_neg (by simpa using occurs), ih, List.map_cons, List.sum_cons,
        if_neg occurs, zero_add]

/-- The entries of one token add its weight once for each of them in the file. -/
theorem total_entries (token file : Bytes) :
    total Hit.file (weight s) ((s.entriesOf token).map (Hit.mk token)) file =
      occurrences s token file • fileWeight s token file := by
  have each : ∀ x ∈ (hitsOn Hit.file file ((s.entriesOf token).map (Hit.mk token))).map (weight s),
      x = fileWeight s token file := by
    intro x listed
    obtain ⟨hit, inside, rfl⟩ := List.mem_map.mp listed
    obtain ⟨among, on⟩ := mem_hitsOn.mp inside
    obtain ⟨e, -, rfl⟩ := List.mem_map.mp among
    rw [weight_eq, on]
  have many : (hitsOn Hit.file file ((s.entriesOf token).map (Hit.mk token))).length =
      occurrences s token file := by
    rw [hitsOn, List.filter_map, List.length_map]
    rfl
  rw [total, List.sum_eq_card_nsmul _ _ each, List.length_map, many]

theorem fileScore_eq [LinearOrder K] (tokens : List Bytes) (file : Bytes) :
    fileScore s tokens file =
      (tokens.map fun token => occurrences s token file • fileWeight s token file).sum := by
  unfold fileScore
  induction tokens with
  | nil => rfl
  | cons token rest ih =>
    rw [hits, List.flatMap_cons, total_append, total_entries, List.map_cons, List.sum_cons, ← ih]
    rfl

variable [LinearOrder K] [IsStrictOrderedRing K] {s}

theorem fileScore_eq_presenceScore_iff (nonneg : ∀ token, 0 ≤ getIdf s token) (tokens : List Bytes)
    (file : Bytes) : fileScore s tokens file = presenceScore s tokens file ↔
      ∀ token ∈ tokens, 0 < getIdf s token → occurrences s token file ≤ 1 := by
  have weights (token : Bytes) := fileWeight_nonneg nonneg token file
  rw [fileScore_eq, presenceScore_eq, eq_comm, sum_map_eq_iff]
  · refine forall₂_congr fun token _ => ?_
    rw [← fileWeight_pos s token file]
    rcases Nat.lt_trichotomy (occurrences s token file) 1 with none | one | more
    · have zero : occurrences s token file = 0 := by omega
      simp [zero]
    · simp [one]
    · rw [if_pos (by omega)]
      constructor
      · intro same positive
        have larger := nsmul_lt_nsmul_left positive more
        rw [one_nsmul] at larger
        exact absurd same larger.ne
      · intro few
        have weightless : ¬0 < fileWeight s token file := fun positive => by
          have one := few positive
          omega
        have zero := le_antisymm (not_lt.mp weightless) (weights token)
        rw [zero, smul_zero]
  · intro token _
    split
    · rename_i occurs
      exact le_self_nsmul (weights token) (by omega)
    · exact nsmul_nonneg (weights token) _

end Presence

/-- The score of a location is that of presence if and only if each token with a weight has one
entry in the file at most. -/
theorem relevance_iff {patterns : Patterns} {root : Option (List DirectoryEntry)}
    {extensions : List Bytes} {maxResults : Nat} {ranking : Ranking Bytes ℝ} {errorLine : Bytes}
    {location : CodeLocation ℝ} (found : location ∈ query patterns ranking
      (build patterns Real.log root extensions (create maxResults)) errorLine) :
    let s := build patterns Real.log root extensions (create maxResults)
    let tokens := extractErrorTokens patterns errorLine
    location.relevanceScore = presenceScore s tokens location.filePath ↔
      ∀ token ∈ tokens, 0 < getIdf s token → occurrences s token location.filePath ≤ 1 := by
  intro s tokens
  rw [(mem_query s found).1]
  have consistent := consistent_build patterns Real.log root extensions maxResults
  exact fileScore_eq_presenceScore_iff consistent.getIdf_nonneg tokens location.filePath

theorem relevance_iff_zetas : ∃ location ∈ query samplePatterns (Ranking.merge Bytes ℝ)
    (indexed Real.log) (text "zetas"), location.relevanceScore = presenceScore (indexed Real.log)
      (extractErrorTokens samplePatterns (text "zetas")) location.filePath := by
  obtain ⟨location, found, file⟩ := exists_location_zetas
  refine ⟨location, found, (relevance_iff found).mpr ?_⟩
  rw [tokens_zetas, file]
  intro token asked _
  rw [List.mem_singleton.mp asked]
  have one : occurrences (indexed Real.log) (text "zetas") (text "alpha.cpp") = 1 := rfl
  exact one.le

/-- A word that is in the file and in its name counts twice. -/
theorem alpha_twice : ∃ location ∈ query samplePatterns (Ranking.merge Bytes ℝ)
    (indexed Real.log) (text "alpha zetas"), location.relevanceScore ≠
      presenceScore (indexed Real.log) (extractErrorTokens samplePatterns (text "alpha zetas"))
        location.filePath := by
  obtain ⟨location, found, file⟩ := exists_location_alpha_zetas
  refine ⟨location, found, fun same => ?_⟩
  rw [(mem_query _ found).1, fileScore_eq_presenceScore_iff indexed_nonneg, tokens_alpha_zetas,
    file] at same
  have two : occurrences (indexed Real.log) (text "alpha") (text "alpha.cpp") = 2 := rfl
  have few := same (text "alpha") (List.mem_cons_self ..) (idf_indexed_pos (.inl rfl))
  omega

end LogMonitor.CodeIndexer
