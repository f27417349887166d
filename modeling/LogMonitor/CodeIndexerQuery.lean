import LogMonitor.CodeIndexerBuild

/-!
What a query answers. Its loops over tokens and entries are one loop over hits;
the file scores are the totals of the hits on a file, and the line that is
reported is the one of the last hit that has a weight.
-/

namespace LogMonitor.CodeIndexer
open Library Library.ByteString Library.Scoring

structure Hit where
  token : Bytes
  entry : IndexEntry

def Hit.file (hit : Hit) : Bytes := hit.entry.filePath

def IndexEntry.place (e : IndexEntry) : Nat × Bytes × Bytes := (e.lineNumber, e.function, e.context)

def CodeLocation.place {K : Type} (location : CodeLocation K) : Nat × Bytes × Bytes :=
  (location.lineNumber, location.functionName, location.snippet)

section Query
variable {K : Type} (s : Indexer K)

def Indexer.entriesOf (token : Bytes) : List IndexEntry := (s.invertedIndex.lookup token).getD []

/-- The hits of a query, in the order of its loops. -/
def hits (tokens : List Bytes) : List Hit :=
  tokens.flatMap fun token => (s.entriesOf token).map (Hit.mk token)

theorem mem_hits {tokens : List Bytes} {hit : Hit} :
    hit ∈ hits s tokens ↔ hit.token ∈ tokens ∧ hit.entry ∈ s.entriesOf hit.token := by
  simp only [hits, List.mem_flatMap, List.mem_map]
  constructor
  · rintro ⟨token, asked, entry, listed, rfl⟩
    exact ⟨asked, listed⟩
  · rintro ⟨asked, listed⟩
    exact ⟨hit.token, asked, hit.entry, listed, rfl⟩

variable [Field K] [LinearOrder K]

def weight (hit : Hit) : K := score (getIdf s hit.token) hit.token hit.entry

def fileScore (tokens : List Bytes) (file : Bytes) : K :=
  total Hit.file (weight s) (hits s tokens) file

def bestEntry (tokens : List Bytes) (file : Bytes) : Option IndexEntry :=
  (remembered (weight s) (hitsOn Hit.file file (hits s tokens))).map Hit.entry

theorem foldl_scoreToken (tokens : List Bytes) (scores : Scores K) :
    tokens.foldl (scoreToken s) scores = (hits s tokens).foldl (fun scores hit =>
      scoreEntry (getIdf s hit.token) hit.token scores hit.entry) scores := by
  have inner (scores : Scores K) (token : Bytes) : scoreToken s scores token =
      ((s.entriesOf token).map (Hit.mk token)).foldl (fun scores hit =>
        scoreEntry (getIdf s hit.token) hit.token scores hit.entry) scores := by
    rw [List.foldl_map, scoreToken, Indexer.entriesOf]
    cases s.invertedIndex.lookup token <;> rfl
  rw [hits, List.foldl_flatMap]
  exact congrArg (fun step => tokens.foldl step scores) (funext₂ inner)

/-- The two maps of the loop are filled each for itself. -/
theorem foldl_scoreEntry (list : List Hit) (fileScores : Table Bytes K)
    (best : Bytes → Option IndexEntry) :
    list.foldl (fun scores hit => scoreEntry (getIdf s hit.token) hit.token scores hit.entry)
        ⟨fileScores, best⟩ =
      ⟨list.foldl (accumulate Hit.file (weight s)) fileScores,
        list.foldl (fun best hit => Function.update best hit.file
          (prefer Hit.entry (weight s) (best hit.file) hit)) best⟩ := by
  induction list generalizing fileScores best with
  | nil => rfl
  | cons hit rest ih => exact ih _ _

theorem scores_eq (tokens : List Bytes) :
    tokens.foldl (scoreToken s) ⟨∅, fun _ => none⟩ =
      ⟨(hits s tokens).foldl (accumulate Hit.file (weight s)) ∅, bestEntry s tokens⟩ := by
  rw [foldl_scoreToken, foldl_scoreEntry]
  congr 1
  funext file
  exact (foldl_update Hit.file (prefer Hit.entry (weight s)) (hits s tokens) _ file).trans
    (foldl_prefer Hit.entry (weight s) _)

variable (patterns : Patterns) (ranking : Ranking Bytes K) (errorLine : Bytes)

def located (tokens : List Bytes) : List (CodeLocation K) :=
  let scores := totals Hit.file (weight s) (hits s tokens)
  ((ranking.sort scores).take (min s.maxResults scores.length)).map
    (toLocation (bestEntry s tokens))

theorem query_eq : query patterns ranking s errorLine =
    if !s.built || s.totalFiles = 0 then []
    else located s ranking (extractErrorTokens patterns errorLine) := by
  unfold query
  split
  · rfl
  dsimp only
  split
  next none =>
    rw [none]
    have nothing : ranking.sort [] = [] := (ranking.perm []).eq_nil
    have zero : totals Hit.file (weight s) (hits s []) = [] := rfl
    rw [located, zero, nothing, List.take_nil, List.map_nil]
  next =>
    rw [scores_eq, (ranking.perm _).length_eq]
    rfl

variable {patterns ranking errorLine} in
/-- A location is a file that was hit, with its score and the place of its best entry. -/
theorem mem_query {location : CodeLocation K}
    (found : location ∈ query patterns ranking s errorLine) :
    let tokens := extractErrorTokens patterns errorLine
    location.relevanceScore = fileScore s tokens location.filePath ∧
      ∃ hit, remembered (weight s) (hitsOn Hit.file location.filePath (hits s tokens)) = some hit ∧
        location.place = hit.entry.place := by
  dsimp only
  rw [query_eq] at found
  split at found
  · exact absurd found List.not_mem_nil
  obtain ⟨⟨file, x⟩, first, rfl⟩ := List.mem_map.mp found
  obtain ⟨some, rfl⟩ := (mem_totals _ _).mp (ranking.mem_of_take first)
  refine ⟨rfl, ?_⟩
  obtain ⟨hit, best⟩ := Option.isSome_iff_exists.mp ((remembered_isSome (weight s)).mpr some)
  refine ⟨hit, best, ?_⟩
  have entry : bestEntry s (extractErrorTokens patterns errorLine) file =
      Option.some hit.entry := by
    rw [bestEntry, best]
    rfl
  simp only [CodeLocation.place, toLocation, entry]
  rfl

/-- The files with the largest scores, as many of them as there are or as fit. -/
structure TopMatches (count : Nat) (tokens : List Bytes) (results : List (CodeLocation K)) :
    Prop where
  length : results.length = min count ((hits s tokens).map Hit.file).toFinset.card
  distinct : (results.map CodeLocation.filePath).Nodup
  descending : results.Pairwise fun first second => second.relevanceScore ≤ first.relevanceScore
  scored : ∀ location ∈ results, location.relevanceScore = fileScore s tokens location.filePath
  best : ∀ location ∈ results, ∀ file ∈ (hits s tokens).map Hit.file,
    file ∉ results.map CodeLocation.filePath → fileScore s tokens file ≤ location.relevanceScore
  actual : ∀ location ∈ results, ∃ token ∈ tokens, ∃ e ∈ s.entriesOf token,
    e.filePath = location.filePath ∧ e.place = location.place

theorem topMatches_query (asked : ¬(!s.built || s.totalFiles = 0) = true) :
    TopMatches s s.maxResults (extractErrorTokens patterns errorLine)
      (query patterns ranking s errorLine) := by
  let tokens := extractErrorTokens patterns errorLine
  let scores := totals Hit.file (weight s) (hits s tokens)
  let count := min s.maxResults scores.length
  have same : query patterns ranking s errorLine =
      ((ranking.sort scores).take count).map (toLocation (bestEntry s tokens)) := by
    rw [query_eq, if_neg asked]
    rfl
  have files : (query patterns ranking s errorLine).map CodeLocation.filePath =
      ((ranking.sort scores).take count).map Prod.fst := by
    rw [same, List.map_map]
    rfl
  constructor
  · have few : scores.length = ((hits s tokens).map Hit.file).toFinset.card := length_totals ..
    rw [same, List.length_map, ranking.length_take]
    exact (min_eq_left (Nat.min_le_right ..)).trans (congrArg (min s.maxResults) few)
  · rw [files]
    exact ranking.nodup_take (nodup_totals _ _ _) count
  · rw [same, List.pairwise_map]
    exact ranking.ordered_take count
  · exact fun location found => (mem_query s found).1
  · intro location found file hit omitted
    rw [files] at omitted
    rw [same] at found
    obtain ⟨taken, first, rfl⟩ := List.mem_map.mp found
    have listed : (file, fileScore s tokens file) ∈ scores := by
      refine (mem_totals _ _).mpr ⟨?_, rfl⟩
      obtain ⟨one, inside, on⟩ := List.mem_map.mp hit
      exact List.ne_nil_of_mem (mem_hitsOn.mpr ⟨inside, on⟩)
    exact ranking.take_best first listed fun inside => omitted (List.mem_map_of_mem inside)
  · intro location found
    obtain ⟨-, hit, best, place⟩ := mem_query s found
    obtain ⟨inside, on⟩ := mem_hitsOn.mp (remembered_mem _ best)
    obtain ⟨asked, listed⟩ := (mem_hits s).mp inside
    exact ⟨hit.token, asked, hit.entry, listed, on, place.symm⟩

theorem topMatches_unasked {log : K → K} (consistent : Consistent log s)
    (unasked : (!s.built || s.totalFiles = 0) = true) (tokens : List Bytes) :
    TopMatches s s.maxResults tokens [] := by
  have absent (token : Bytes) : s.entriesOf token = [] := by
    unfold Indexer.entriesOf
    cases found : s.invertedIndex.lookup token with
    | none => rfl
    | some entries =>
      obtain ⟨files, -, counted⟩ := consistent.counted token entries found
      have some := counted.some.trans counted.within
      have built : s.built = false := by
        simpa [Nat.one_le_iff_ne_zero.mp some] using unasked
      exact nomatch found.symm.trans (consistent.unbuilt built token)
  have nothing : hits s tokens = [] := by
    simp [hits, absent]
  constructor <;> simp [nothing]

end Query

theorem maxResults_build {K : Type} [Field K] (patterns : Patterns) (log : K → K)
    (root : Option (List DirectoryEntry)) (extensions : List Bytes) (maxResults : Nat) :
    (build patterns log root extensions (create maxResults)).maxResults = maxResults := by
  cases root with
  | none => rfl
  | some entries =>
    have visited : (entries.foldl (visit patterns extensions)
        ({ create maxResults with totalFiles := 0 } : Indexer K)).maxResults = maxResults := by
      apply List.foldlRecOn (motive := fun s : Indexer K => s.maxResults = maxResults)
      · rfl
      · intro s same entry _
        rw [← same]
        unfold visit
        split
        · rfl
        split <;> rfl
    exact visited

/-- Whatever is indexed, each token is counted and weighed as it should be, and whatever is asked,
the best files are found. -/
theorem build_finds_top (patterns : Patterns) (root : Option (List DirectoryEntry))
    (extensions : List Bytes) (maxResults : Nat) :
    let s := build patterns Real.log root extensions (create maxResults)
    Consistent Real.log s ∧ (∀ token, 0 ≤ getIdf s token) ∧
      ∀ ranking errorLine, TopMatches s maxResults (extractErrorTokens patterns errorLine)
        (query patterns ranking s errorLine) := by
  intro s
  have consistent : Consistent Real.log s :=
    consistent_build patterns Real.log root extensions maxResults
  refine ⟨consistent, consistent.getIdf_nonneg, fun ranking errorLine => ?_⟩
  have count : s.maxResults = maxResults :=
    maxResults_build patterns Real.log root extensions maxResults
  by_cases unasked : (!s.built || s.totalFiles = 0) = true
  · have none : query patterns ranking s errorLine = [] := by
      rw [query_eq, if_pos unasked]
    rw [none, ← count]
    exact topMatches_unasked s consistent unasked _
  · rw [← count]
    exact topMatches_query s patterns ranking errorLine unasked

end LogMonitor.CodeIndexer
