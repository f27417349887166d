import LogMonitor.CodeIndexer
import Mathlib.Analysis.SpecialFunctions.Log.Basic

/-!
What a built index is like. Whatever the regular expressions find, the files
that are counted for a token are the files of its entries, and there are no more
of them than were indexed.
-/

namespace LogMonitor.CodeIndexer
open Library Library.ByteString Library.Scoring

structure Counted (files : Finset Bytes) (index : Index) : Prop where
  same : ∀ token, index.tokenDocumentCount.lookup token =
    (index.invertedIndex.lookup token).map fun entries =>
      (entries.map IndexEntry.filePath).toFinset
  filled : ∀ token entries, index.invertedIndex.lookup token = some entries → entries ≠ []
  within : ∀ token entries, index.invertedIndex.lookup token = some entries →
    ∀ e ∈ entries, e.filePath ∈ files

section Extractors
variable {files : Finset Bytes} {index : Index}

theorem counted_empty : Counted ∅ Index.empty where
  same _ := rfl
  filled _ _ found := nomatch found
  within _ _ found := nomatch found

theorem Counted.mono (counted : Counted files index) {more : Finset Bytes} (sub : files ⊆ more) :
    Counted more index where
  same := counted.same
  filled := counted.filled
  within token entries found e listed := sub (counted.within token entries found e listed)

theorem Counted.addToIndex (counted : Counted files index) (token : Bytes) {entry : IndexEntry}
    (inside : entry.filePath ∈ files) : Counted files (addToIndex index token entry) := by
  unfold CodeIndexer.addToIndex
  split
  · exact counted
  constructor
  · intro other
    by_cases here : other = token
    · subst here
      rw [AList.lookup_insert, AList.lookup_insert, counted.same]
      cases index.invertedIndex.lookup other with
      | none => rfl
      | some entries =>
        simp only [Option.map_some, Option.getD_some, List.map_append, List.toFinset_append,
          List.map_cons, List.map_nil, List.toFinset_cons, List.toFinset_nil, insert_empty_eq,
          Finset.union_singleton]
    · rw [AList.lookup_insert_ne here, AList.lookup_insert_ne here, counted.same]
  · intro other entries found
    by_cases here : other = token
    · subst here
      rw [AList.lookup_insert] at found
      obtain rfl := Option.some.inj found
      simp
    · rw [AList.lookup_insert_ne here] at found
      exact counted.filled other entries found
  · intro other entries found e listed
    by_cases here : other = token
    · subst here
      rw [AList.lookup_insert] at found
      obtain rfl := Option.some.inj found
      rcases List.mem_append.mp listed with old | new
      · cases before : index.invertedIndex.lookup other with
        | none => simp [before] at old
        | some entries =>
          rw [before] at old
          exact counted.within other entries before e old
      · rwa [List.mem_singleton.mp new]
    · rw [AList.lookup_insert_ne here] at found
      exact counted.within other entries found e listed

variable (patterns : Patterns) {file : Bytes}

theorem Counted.extractStringLiterals (counted : Counted files index) (inside : file ∈ files)
    (line : Bytes) (lineNum : Nat) (func : Bytes) :
    Counted files (extractStringLiterals patterns line file lineNum func index) := by
  unfold CodeIndexer.extractStringLiterals
  apply List.foldlRecOn _ _ counted
  intro index counted literal _
  exact counted.addToIndex _ inside

theorem Counted.extractIdentifiers (counted : Counted files index) (inside : file ∈ files)
    (line : Bytes) (lineNum : Nat) (func : Bytes) :
    Counted files (extractIdentifiers patterns line file lineNum func index) := by
  unfold CodeIndexer.extractIdentifiers
  apply List.foldlRecOn _ _ counted
  intro index counted word _
  split
  · exact counted
  · exact counted.addToIndex _ inside

theorem Counted.indexLine {s : Reading} (counted : Counted files s.index) (inside : file ∈ files)
    (line : Bytes) : Counted files (indexLine patterns file s line).index := by
  unfold CodeIndexer.indexLine
  apply Counted.extractIdentifiers _ _ inside
  apply Counted.extractStringLiterals _ _ inside
  cases patterns.functionName line (extension file) with
  | none =>
    cases patterns.className line with
    | none => exact counted
    | some cls => exact counted.addToIndex cls inside
  | some func =>
    have defined : Counted files (CodeIndexer.addToIndex s.index func
        ⟨file, s.lineNum + 1, line, func⟩) := counted.addToIndex func inside
    cases patterns.className line with
    | none => exact defined
    | some cls => exact defined.addToIndex cls inside

/-- A file adds itself to the files, even if it cannot be opened. -/
theorem Counted.indexFile (counted : Counted files index) (file : Bytes) (content : Option Bytes) :
    Counted (insert file files) (indexFile patterns index file content) := by
  have inside : file ∈ insert file files := Finset.mem_insert_self file files
  have before := counted.mono (Finset.subset_insert file files)
  unfold CodeIndexer.indexFile
  cases content with
  | none => exact before
  | some content =>
    have named : Counted (insert file files) (CodeIndexer.addToIndex index (filename file)
        ⟨file, 0, filename file, []⟩) := before.addToIndex (filename file) inside
    have stemmed : Counted (insert file files)
        (if stem file ≠ filename file then
          CodeIndexer.addToIndex
            (CodeIndexer.addToIndex index (filename file) ⟨file, 0, filename file, []⟩)
            (stem file) ⟨file, 0, filename file, []⟩
        else CodeIndexer.addToIndex index (filename file) ⟨file, 0, filename file, []⟩) := by
      split
      · exact named.addToIndex (stem file) inside
      · exact named
    apply List.foldlRecOn (motive := fun s : Reading => Counted (insert file files) s.index)
      _ _ stemmed
    intro s counted line _
    exact counted.indexLine patterns inside line

end Extractors

section Build
variable {K : Type}

def Covered (s : Indexer K) : Prop := ∃ files, Counted files s.toIndex ∧ files.card ≤ s.totalFiles

theorem covered_visit (patterns : Patterns) (extensions : List Bytes) {s : Indexer K}
    (covered : Covered s) (entry : DirectoryEntry) :
    Covered (visit patterns extensions s entry) := by
  obtain ⟨files, counted, few⟩ := covered
  unfold visit
  split
  · exact ⟨files, counted, few⟩
  split
  · exact ⟨files, counted, few⟩
  · refine ⟨insert entry.path files, counted.indexFile patterns entry.path entry.content, ?_⟩
    have more := Finset.card_insert_le entry.path files
    change _ ≤ s.totalFiles + 1
    omega

variable [Field K]

theorem idf_computeIdf (log : K → K) (s : Indexer K) (token : Bytes) :
    (computeIdf log s).idf token =
      ((s.tokenDocumentCount.lookup token).map fun files => log (s.totalFiles / files.card)).or
        (s.idf token) :=
  Table.foldl_update_dlookup s.tokenDocumentCount.nodupKeys
    (fun files => log (s.totalFiles / files.card)) s.idf token

structure TokenCounted (log : K → K) (s : Indexer K) (token : Bytes) (entries : List IndexEntry)
    (files : Finset Bytes) : Prop where
  same : files = (entries.map IndexEntry.filePath).toFinset
  some : 1 ≤ files.card
  within : files.card ≤ s.totalFiles
  weighed : s.idf token = Option.some (log (s.totalFiles / files.card))

/-- What a build leaves behind: a count and a weight for each token that has entries, and for no
other. -/
structure Consistent (log : K → K) (s : Indexer K) : Prop where
  counted : ∀ token entries, s.invertedIndex.lookup token = some entries →
    ∃ files, s.tokenDocumentCount.lookup token = some files ∧ TokenCounted log s token entries files
  only : ∀ token, s.invertedIndex.lookup token = none →
    s.tokenDocumentCount.lookup token = none ∧ s.idf token = none
  unbuilt : s.built = false → ∀ token, s.invertedIndex.lookup token = none

theorem Covered.consistent {log : K → K} {s : Indexer K} (covered : Covered s)
    (fresh : ∀ token, s.idf token = none) :
    Consistent log { computeIdf log s with built := true } where
  counted token entries found := by
    obtain ⟨files, counted, few⟩ := covered
    have documents : s.tokenDocumentCount.lookup token =
        some (entries.map IndexEntry.filePath).toFinset := by
      rw [counted.same, show s.invertedIndex.lookup token = some entries from found]
      rfl
    refine ⟨_, documents, rfl, ?_, ?_, ?_⟩
    · obtain ⟨e, listed⟩ := List.exists_mem_of_ne_nil _ (counted.filled token entries found)
      apply Finset.card_pos.mpr
      exact ⟨e.filePath, List.mem_toFinset.mpr (List.mem_map_of_mem listed)⟩
    · refine le_trans (Finset.card_le_card fun path inside => ?_) few
      obtain ⟨e, listed, rfl⟩ := List.mem_map.mp (List.mem_toFinset.mp inside)
      exact counted.within token entries found e listed
    · change (computeIdf log s).idf token = _
      rw [idf_computeIdf, documents]
      rfl
  only token absent := by
    obtain ⟨files, counted, -⟩ := covered
    have none : s.tokenDocumentCount.lookup token = none := by
      rw [counted.same, show s.invertedIndex.lookup token = Option.none from absent]
      rfl
    refine ⟨none, ?_⟩
    change (computeIdf log s).idf token = _
    rw [idf_computeIdf, none, fresh]
    rfl
  unbuilt := nofun

theorem consistent_build (patterns : Patterns) (log : K → K) (root : Option (List DirectoryEntry))
    (extensions : List Bytes) (maxResults : Nat) :
    Consistent log (build patterns log root extensions (create maxResults)) := by
  cases root with
  | none => exact ⟨nofun, fun _ _ => ⟨rfl, rfl⟩, fun _ _ => rfl⟩
  | some entries =>
    let visited : Indexer K :=
      entries.foldl (visit patterns extensions) { create maxResults with totalFiles := 0 }
    have both : Covered visited ∧ ∀ token, visited.idf token = none := by
      apply List.foldlRecOn (motive := fun s => Covered s ∧ ∀ token, s.idf token = none)
      · exact ⟨⟨∅, counted_empty, le_rfl⟩, fun _ => rfl⟩
      · intro s holds entry _
        refine ⟨covered_visit patterns extensions holds.1 entry, fun token => ?_⟩
        rw [← holds.2 token]
        unfold visit
        split
        · rfl
        split <;> rfl
    exact both.1.consistent both.2

end Build

theorem TokenCounted.log_nonneg {s : Indexer ℝ} {token : Bytes} {entries : List IndexEntry}
    {files : Finset Bytes} (counted : TokenCounted Real.log s token entries files) :
    0 ≤ Real.log (s.totalFiles / files.card) := by
  have some : (0 : ℝ) < files.card := Nat.cast_pos.mpr counted.some
  apply Real.log_nonneg
  rw [le_div_iff₀ some, one_mul]
  exact Nat.cast_le.mpr counted.within

theorem Consistent.getIdf_nonneg {s : Indexer ℝ} (consistent : Consistent Real.log s)
    (token : Bytes) : 0 ≤ getIdf s token := by
  unfold getIdf
  cases found : s.invertedIndex.lookup token with
  | none => simp [(consistent.only token found).2]
  | some entries =>
    obtain ⟨files, -, counted⟩ := consistent.counted token entries found
    rw [counted.weighed]
    exact counted.log_nonneg

end LogMonitor.CodeIndexer
