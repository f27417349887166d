import LogMonitor.AuthManager
import LogMonitor.Library.Json
import LogMonitor.SaveFile
import Mathlib.Logic.Function.Basic

/-!
The project store: a vector of projects that keeps deleted ones as tombstones,
three maps of positions into it, and the file that every change is saved to.
Each call comes with what it draws, the clock, the disk and the JSON writer.
-/

namespace LogMonitor
open Library Library.ByteString AuthManager

inductive Outcome (α : Type) where
  | returned (value : α)
  | threw

def Outcome.map {α β : Type} (f : α → β) : Outcome α → Outcome β
  | .returned value => .returned (f value)
  | .threw => .threw

structure AccountEnvironment where
  /-- The bytes drawn for an identifier; `none` when the source of randomness fails. -/
  idDraw : Option (Vector UInt8 8)
  /-- The bytes drawn for a key or a salt. -/
  keyDraw : Option (Vector UInt8 16)
  now : Int64
  disk : Disk
  /-- `json.dump(2)`, which throws on text that is not UTF-8. -/
  dump : Json → Option Bytes

structure Project where
  id : Bytes
  name : Bytes
  ownerId : Bytes
  apiKey : Bytes
  createdAtNs : Int64
deriving DecidableEq

/-- A deleted project stays in the vector with an empty id. -/
def Project.live (project : Project) : Bool := project.id ≠ []

namespace ProjectStore

structure State where
  projects : List Project
  byId : Bytes → Option Nat
  byApiKey : Bytes → Option Nat
  /-- Empty for an owner without an entry. -/
  byOwner : Bytes → List Nat
  files : Files

def toJson (project : Project) : Json := .object [
  (text "id", .string project.id),
  (text "name", .string project.name),
  (text "owner_id", .string project.ownerId),
  (text "api_key", .string project.apiKey),
  (text "created_at_ns", .integer project.createdAtNs.toInt)]

/-- The array that is saved: deleted projects are skipped. -/
def encoding (projects : List Project) : Json := .array ((projects.filter Project.live).map toJson)

/-- `save_locked`, with whether it returns. -/
def State.save (s : State) (env : AccountEnvironment) : State × Bool :=
  let (files, saved) := saveLocked env.disk (env.dump (encoding s.projects)) s.files
  ({ s with files := files }, saved)

def apiKeyOf (drawn : Vector UInt8 16) : Bytes := text "lm_proj_" ++ randomHex drawn

def State.push (s : State) (p : Project) : State :=
  let idx := s.projects.length
  { s with
    projects := s.projects ++ [p]
    byId := Function.update s.byId p.id (some idx)
    byApiKey := Function.update s.byApiKey p.apiKey (some idx)
    byOwner := Function.update s.byOwner p.ownerId (s.byOwner p.ownerId ++ [idx]) }

def createProject (s : State) (name ownerId : Bytes) (env : AccountEnvironment) :
    State × Outcome (Except Bytes Project) :=
  if name = [] then (s, .returned (.error (text "Project name is required")))
  else if ownerId = [] then (s, .returned (.error (text "Owner ID is required")))
  else
    match env.idDraw, env.keyDraw with
    | some id, some key =>
      let p : Project := ⟨randomHex id, name, ownerId, apiKeyOf key, env.now⟩
      match (s.push p).save env with
      | (s, true) => (s, .returned (.ok p))
      | (s, false) => (s, .threw)
    | _, _ => (s, .threw)

def findById (s : State) (id : Bytes) : Option Project := do s.projects[← s.byId id]?

def findByApiKey (s : State) (key : Bytes) : Option Project := do s.projects[← s.byApiKey key]?

def listByOwner (s : State) (ownerId : Bytes) : List Project :=
  (s.byOwner ownerId).filterMap fun idx => s.projects[idx]?

def size (s : State) : Nat := s.projects.countP Project.live

/-- The position of a project and the project itself. The maps hold no position past the
end of the vector. -/
def State.locate (s : State) (id : Bytes) : Option (Nat × Project) := do
  let idx ← s.byId id
  let p ← s.projects[idx]?
  return (idx, p)

/-- The project at `idx` leaves the maps and becomes a tombstone. -/
def State.remove (s : State) (id : Bytes) (idx : Nat) (p : Project) : State :=
  { s with
    projects := s.projects.set idx { p with id := [] }
    byId := Function.update s.byId id none
    byApiKey := Function.update s.byApiKey p.apiKey none
    byOwner := Function.update s.byOwner p.ownerId ((s.byOwner p.ownerId).filter (· ≠ idx)) }

def deleteProject (s : State) (id requestingOwnerId : Bytes) (env : AccountEnvironment) :
    State × Outcome Bytes :=
  match s.locate id with
  | none => (s, .returned (text "Project not found"))
  | some (idx, p) =>
    if p.ownerId ≠ requestingOwnerId then (s, .returned (text "Not your project"))
    else
      match (s.remove id idx p).save env with
      | (s, true) => (s, .returned [])
      | (s, false) => (s, .threw)

def State.eraseKey (s : State) (p : Project) : State :=
  { s with byApiKey := Function.update s.byApiKey p.apiKey none }

def State.setKey (s : State) (idx : Nat) (p : Project) (key : Bytes) : State :=
  { s with
    projects := s.projects.set idx { p with apiKey := key }
    byApiKey := Function.update s.byApiKey key (some idx) }

def rotateApiKey (s : State) (id requestingOwnerId : Bytes) (env : AccountEnvironment) :
    State × Outcome Bytes :=
  match s.locate id with
  | none => (s, .returned [])
  | some (idx, p) =>
    if p.ownerId ≠ requestingOwnerId then (s, .returned [])
    else
      -- the old key is gone before the new one is drawn
      match env.keyDraw with
      | none => (s.eraseKey p, .threw)
      | some drawn =>
        let key := apiKeyOf drawn
        match ((s.eraseKey p).setKey idx p key).save env with
        | (s, true) => (s, .returned key)
        | (s, false) => (s, .threw)

/-- A record of the file; missing fields get their defaults. -/
def ofJson (json : Json) : Except Json.Error Project := do
  return {
    id := ← json.valueString (text "id") []
    name := ← json.valueString (text "name") []
    ownerId := ← json.valueString (text "owner_id") []
    apiKey := ← json.valueString (text "api_key") []
    createdAtNs := ← json.valueInt64 (text "created_at_ns") 0 }

/-- The loop of `load`; a record without an id or a key is skipped. -/
def loadRecords : List Json → State → Except Json.Error State
  | [], s => .ok s
  | json :: rest, s => do
    let p ← ofJson json
    loadRecords rest (if p.id = [] ∨ p.apiKey = [] then s else s.push p)

def empty (files : Files) : State := ⟨[], fun _ => none, fun _ => none, fun _ => [], files⟩

/-- The constructor, given what the JSON reader makes of the file, if anything. -/
def load (parsed : Option Json) (files : Files) : Except Json.Error State :=
  match parsed with
  | some (.array records) => loadRecords records (empty files)
  | _ => .ok (empty files)

end ProjectStore

end LogMonitor
