import LogMonitor.Library.ByteString
import LogMonitor.Library.Scoring
import Mathlib.Algebra.Field.Basic
import Mathlib.Data.Finset.Card
import Mathlib.Data.List.Destutter

/-!
The index of a code base. Each file is read line by line; what the regular
expressions find in a line becomes tokens of an inverted index. A query looks up
the tokens of an error message and adds up the weights of the entries file by
file. The regular expressions are parameters, and so is the logarithm: the
arithmetic is that of any field.
-/

namespace LogMonitor.CodeIndexer
open Library Library.ByteString Library.Scoring

structure IndexEntry where
  filePath : Bytes
  lineNumber : Nat
  /-- The line of code with the token. -/
  context : Bytes
  /-- The enclosing function, if known. -/
  function : Bytes
deriving DecidableEq

structure CodeLocation (K : Type) where
  filePath : Bytes
  lineNumber : Nat
  functionName : Bytes
  snippet : Bytes
  relevanceScore : K

/-- What the regular expressions find: their matches in a line, or the first groups of these. -/
structure Patterns where
  /-- For a line and the extension of its file. -/
  functionName : Bytes → Bytes → Option Bytes
  className : Bytes → Option Bytes
  strLit : Bytes → List Bytes
  ident : Bytes → List Bytes
  fileRef : Bytes → List Bytes
  funcRef : Bytes → List Bytes
  camel : Bytes → List Bytes
  snake : Bytes → List Bytes
  word : Bytes → List Bytes

section Paths

def rfind (c : UInt8) (s : Bytes) : Option Nat :=
  (s.reverse.idxOf? c).map fun back => s.length - 1 - back

def filename (path : Bytes) : Bytes := (path.reverse.takeWhile (· ≠ 47)).reverse

/-- Where the extension of a file name starts. A name that starts with its only dot has none. -/
def extensionStart (name : Bytes) : Option Nat :=
  if name = text "." ∨ name = text ".." then none
  else
    match rfind 46 name with
    | some (pos + 1) => some (pos + 1)
    | _ => none

def extension (path : Bytes) : Bytes :=
  match extensionStart (filename path) with
  | some pos => (filename path).drop pos
  | none => []

def stem (path : Bytes) : Bytes :=
  match extensionStart (filename path) with
  | some pos => (filename path).take pos
  | none => filename path

/-- What `std::getline` reads from a file, line by line. -/
def getlines (content : Bytes) : List Bytes :=
  let pieces := content.splitOn 10
  if pieces.getLast? = some [] then pieces.dropLast else pieces

end Paths

section Indexing

structure Index where
  invertedIndex : Table Bytes (List IndexEntry)
  /-- The files that contain a token. -/
  tokenDocumentCount : Table Bytes (Finset Bytes)

def Index.empty : Index := ⟨∅, ∅⟩

def addToIndex (index : Index) (token : Bytes) (entry : IndexEntry) : Index :=
  if token = [] ∨ token.length < 3 then index
  else
    { tokenDocumentCount := index.tokenDocumentCount.insert token
        (insert entry.filePath ((index.tokenDocumentCount.lookup token).getD ∅))
      invertedIndex := index.invertedIndex.insert token
        ((index.invertedIndex.lookup token).getD [] ++ [entry]) }

variable (patterns : Patterns)

def extractStringLiterals (line file : Bytes) (lineNum : Nat) (func : Bytes) (index : Index) :
    Index :=
  (patterns.strLit line).foldl (fun index literal =>
    -- without the quotes
    addToIndex index ((literal.drop 1).take (literal.length - 2)) ⟨file, lineNum, line, func⟩) index

def stopWords : List Bytes := [
  text "void", text "int", text "char", text "bool", text "auto", text "const", text "static",
  text "return", text "class", text "struct", text "public", text "private", text "protected",
  text "virtual", text "override", text "include", text "namespace", text "using",
  text "this", text "self", text "import", text "from", text "function", text "true", text "false",
  text "null", text "nullptr", text "None", text "undefined", text "string", text "else",
  text "while", text "break", text "continue", text "switch", text "case", text "default",
  text "throw", text "catch", text "finally", text "async", text "await", text "yield",
  text "template", text "typename"]

def extractIdentifiers (line file : Bytes) (lineNum : Nat) (func : Bytes) (index : Index) : Index :=
  (patterns.ident line).foldl (fun index word =>
    if word ∈ stopWords then index else addToIndex index word ⟨file, lineNum, line, func⟩) index

structure Reading where
  index : Index
  currentFunction : Bytes
  lineNum : Nat

def indexLine (file : Bytes) (s : Reading) (line : Bytes) : Reading :=
  let lineNum := s.lineNum + 1
  let (index, currentFunction) :=
    match patterns.functionName line (extension file) with
    | some func => (addToIndex s.index func ⟨file, lineNum, line, func⟩, func)
    | none => (s.index, s.currentFunction)
  let index :=
    match patterns.className line with
    | some cls => addToIndex index cls ⟨file, lineNum, line, currentFunction⟩
    | none => index
  let index := extractStringLiterals patterns line file lineNum currentFunction index
  let index := extractIdentifiers patterns line file lineNum currentFunction index
  ⟨index, currentFunction, lineNum⟩

def indexFile (index : Index) (file : Bytes) (content : Option Bytes) : Index :=
  match content with
  | none => index
  | some content =>
    let index := addToIndex index (filename file) ⟨file, 0, filename file, []⟩
    let index :=
      if stem file ≠ filename file then addToIndex index (stem file) ⟨file, 0, filename file, []⟩
      else index
    ((getlines content).foldl (indexLine patterns file) ⟨index, [], 0⟩).index

structure DirectoryEntry where
  path : Bytes
  isRegularFile : Bool
  content : Option Bytes

end Indexing

structure Indexer (K : Type) extends Index where
  maxResults : Nat
  built : Bool
  totalFiles : Nat
  idf : Bytes → Option K

section Building
variable {K : Type} [Field K] (patterns : Patterns) (log : K → K)

def create (maxResults : Nat) : Indexer K := ⟨Index.empty, maxResults, false, 0, fun _ => none⟩

def computeIdf (s : Indexer K) : Indexer K :=
  { s with idf := s.tokenDocumentCount.entries.foldl (fun idf entry =>
      Function.update idf entry.1 (some (log (s.totalFiles / entry.2.card)))) s.idf }

/-- An entry of the directory tree. A file that cannot be opened counts as well. -/
def visit (extensions : List Bytes) (s : Indexer K) (entry : DirectoryEntry) : Indexer K :=
  if !entry.isRegularFile then s
  else if extension entry.path ∉ extensions then s
  else
    { s with
      toIndex := indexFile patterns s.toIndex entry.path entry.content
      totalFiles := s.totalFiles + 1 }

/-- `build` on the entries below the root, which are none if there is no root. -/
def build (root : Option (List DirectoryEntry)) (extensions : List Bytes) (s : Indexer K) :
    Indexer K :=
  match root with
  | none => s
  | some entries =>
    let s := entries.foldl (visit patterns extensions) { s with totalFiles := 0 }
    { computeIdf log s with built := true }

end Building

section Querying

def logStopWords : List Bytes := [
  text "ERROR", text "error", text "WARN", text "warn", text "INFO", text "info",
  text "CRITICAL", text "critical", text "DEBUG", text "debug", text "FATAL",
  text "fatal", text "Exception", text "Traceback", text "failed"]

def fileTokens (name : Bytes) : List Bytes :=
  match rfind 46 name with
  | some dot => [name, name.take dot]
  | none => [name]

def extractErrorTokens (patterns : Patterns) (line : Bytes) : List Bytes :=
  let tokens := (patterns.fileRef line).flatMap fileTokens ++ patterns.funcRef line ++
    patterns.camel line ++ patterns.snake line ++
    (patterns.word line).filter fun w => w ∉ logStopWords
  (tokens.mergeSort fun first second => decide (first ≤ second)).destutter (· ≠ ·)

variable {K : Type} [Field K] [LinearOrder K]

def getIdf (s : Indexer K) (token : Bytes) : K := (s.idf token).getD 0

/-- The score of an entry: the weight of its token, twice if the path of the file contains it. -/
def score (idf : K) (token : Bytes) (entry : IndexEntry) : K :=
  if (find token entry.filePath 0).isSome then 1 * idf * 2 else 1 * idf

def fileWeight (s : Indexer K) (token file : Bytes) : K :=
  getIdf s token * if (find token file 0).isSome then 2 else 1

structure Scores (K : Type) where
  fileScores : Table Bytes K
  bestEntryPerFile : Bytes → Option IndexEntry

def scoreEntry (idf : K) (token : Bytes) (s : Scores K) (entry : IndexEntry) : Scores K :=
  let score := score idf token entry
  let best := s.bestEntryPerFile entry.filePath
  { fileScores := s.fileScores.insert entry.filePath
      ((s.fileScores.lookup entry.filePath).getD 0 + score)
    bestEntryPerFile := Function.update s.bestEntryPerFile entry.filePath
      (if best.isNone ∨ 0 < score then some entry else best) }

def scoreToken (s : Indexer K) (scores : Scores K) (token : Bytes) : Scores K :=
  match s.invertedIndex.lookup token with
  | none => scores
  | some entries => entries.foldl (scoreEntry (getIdf s token) token) scores

def toLocation (best : Bytes → Option IndexEntry) (ranked : Bytes × K) : CodeLocation K where
  filePath := ranked.1
  lineNumber := ((best ranked.1).map IndexEntry.lineNumber).getD 0
  functionName := ((best ranked.1).map IndexEntry.function).getD []
  snippet := ((best ranked.1).map IndexEntry.context).getD []
  relevanceScore := ranked.2

def query (patterns : Patterns) (ranking : Ranking Bytes K) (s : Indexer K) (errorLine : Bytes) :
    List (CodeLocation K) :=
  if !s.built || s.totalFiles = 0 then []
  else
    let tokens := extractErrorTokens patterns errorLine
    if tokens = [] then []
    else
      let scores := tokens.foldl (scoreToken s) ⟨∅, fun _ => none⟩
      let ranked := ranking.sort (scores.fileScores.entries.map fun entry => (entry.1, entry.2))
      let count := min s.maxResults ranked.length
      (ranked.take count).map (toLocation scores.bestEntryPerFile)

end Querying

end LogMonitor.CodeIndexer
