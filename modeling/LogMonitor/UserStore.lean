import LogMonitor.ProjectStore

/-!
The user store. It never removes an account, so its two maps of positions only
grow with the vector.
-/

namespace LogMonitor
open Library Library.ByteString AuthManager

structure User where
  id : Bytes
  email : Bytes
  passwordHash : Bytes
  salt : Bytes
  createdAtNs : Int64
deriving DecidableEq

namespace UserStore

structure State where
  users : List User
  byEmail : Bytes → Option Nat
  byId : Bytes → Option Nat
  files : Files

def toJson (user : User) : Json := .object [
  (text "id", .string user.id),
  (text "email", .string user.email),
  (text "password_hash", .string user.passwordHash),
  (text "salt", .string user.salt),
  (text "created_at_ns", .integer user.createdAtNs.toInt)]

def encoding (users : List User) : Json := .array (users.map toJson)

/-- `save_locked`, with whether it returns. -/
def State.save (s : State) (env : AccountEnvironment) : State × Bool :=
  let (files, saved) := saveLocked env.disk (env.dump (encoding s.users)) s.files
  ({ s with files := files }, saved)

def State.push (s : State) (u : User) : State :=
  { s with
    users := s.users ++ [u]
    byEmail := Function.update s.byEmail u.email (some s.users.length)
    byId := Function.update s.byId u.id (some s.users.length) }

/-- `hashPassword` is PBKDF2 on the password and the salt; it throws when the library fails. -/
def registerUser (hashPassword : Bytes → Bytes → Option Bytes) (s : State) (email password : Bytes)
    (env : AccountEnvironment) : State × Outcome (Except Bytes User) :=
  if email = [] ∨ password = [] then
    (s, .returned (.error (text "Email and password are required")))
  else if password.length < 8 then
    (s, .returned (.error (text "Password must be at least 8 characters")))
  else if (s.byEmail email).isSome then
    (s, .returned (.error (text "Email already registered")))
  else
    match env.idDraw, env.keyDraw with
    | some id, some saltBytes =>
      let salt := randomHex saltBytes
      match hashPassword password salt with
      | none => (s, .threw)
      | some passwordHash =>
        let u : User := ⟨randomHex id, email, passwordHash, salt, env.now⟩
        match (s.push u).save env with
        | (s, true) => (s, .returned (.ok u))
        | (s, false) => (s, .threw)
    | _, _ => (s, .threw)

def findByEmail (s : State) (email : Bytes) : Option User := do s.users[← s.byEmail email]?

def findById (s : State) (id : Bytes) : Option User := do s.users[← s.byId id]?

def size (s : State) : Nat := s.users.length

/-- A record of the file; missing fields get their defaults. -/
def ofJson (json : Json) : Except Json.Error User := do
  return {
    id := ← json.valueString (text "id") []
    email := ← json.valueString (text "email") []
    passwordHash := ← json.valueString (text "password_hash") []
    salt := ← json.valueString (text "salt") []
    createdAtNs := ← json.valueInt64 (text "created_at_ns") 0 }

/-- The loop of `load`; a record without an id or an email is skipped. -/
def loadRecords : List Json → State → Except Json.Error State
  | [], s => .ok s
  | json :: rest, s => do
    let u ← ofJson json
    loadRecords rest (if u.id = [] ∨ u.email = [] then s else s.push u)

def empty (files : Files) : State := ⟨[], fun _ => none, fun _ => none, files⟩

/-- The constructor, given what the JSON reader makes of the file, if anything. -/
def load (parsed : Option Json) (files : Files) : Except Json.Error State :=
  match parsed with
  | some (.array records) => loadRecords records (empty files)
  | _ => .ok (empty files)

end UserStore

end LogMonitor
