import LogMonitor.Library.ByteString

/-!
JSON values with the accessors of a value class that throws on a wrong type.
Reading and writing the text form is left to the program that uses it.
-/

namespace LogMonitor.Library
open ByteString

inductive Json where
  | null
  | boolean (value : Bool)
  | integer (value : Int)
  | real (value : Rat)
  | string (value : Bytes)
  | array (elements : List Json)
  | object (members : List (Bytes × Json))

namespace Json

inductive Error where
  /-- The text is not JSON. -/
  | parseError (what : Bytes)
  /-- An accessor met a value of another type. -/
  | typeError (what : Bytes)

def Error.what : Error → Bytes
  | .parseError what => what
  | .typeError what => what

def typeName : Json → Bytes
  | .null => text "null"
  | .boolean _ => text "boolean"
  | .integer _ => text "number"
  | .real _ => text "number"
  | .string _ => text "string"
  | .array _ => text "array"
  | .object _ => text "object"

/-- `json.find(key)` on an object. -/
def member (key : Bytes) : Json → Option Json
  | .object members => (members.find? (fun entry => entry.1 = key)).map Prod.snd
  | _ => none

def contains (key : Bytes) (json : Json) : Bool := (json.member key).isSome

/-- `json.get<std::string>()`. -/
def getString : Json → Except Error Bytes
  | .string value => .ok value
  | json => .error (.typeError
    (text "[json.exception.type_error.302] type must be string, but is " ++ json.typeName))

/-- `json.value(key, fallback)` for a string. -/
def valueString (key fallback : Bytes) : Json → Except Error Bytes
  | .object members =>
    match (Json.object members).member key with
    | some json => json.getString
    | none => .ok fallback
  | json => .error (.typeError
    (text "[json.exception.type_error.306] cannot use value() with " ++ json.typeName))

/-- `json.get<std::int64_t>()`: numbers are converted as the language does, which leaves reals out
of range undefined; here they wrap. -/
def getInt64 : Json → Except Error Int64
  | .integer value => .ok (Int64.ofInt value)
  | .real value => .ok (Int64.ofInt (value.num.tdiv value.den))
  | json => .error (.typeError
    (text "[json.exception.type_error.302] type must be number, but is " ++ json.typeName))

/-- `json.value(key, fallback)` for a 64-bit number. -/
def valueInt64 (key : Bytes) (fallback : Int64) : Json → Except Error Int64
  | .object members =>
    match (Json.object members).member key with
    | some json => json.getInt64
    | none => .ok fallback
  | json => .error (.typeError
    (text "[json.exception.type_error.306] cannot use value() with " ++ json.typeName))

/-- `json.get<int>()`, which also takes a boolean. Reals are converted as above. -/
def getInt32 : Json → Except Error Int32
  | .boolean value => .ok (if value then 1 else 0)
  | .integer value => .ok (Int32.ofInt value)
  | .real value => .ok (Int32.ofInt (value.num.tdiv value.den))
  | json => .error (.typeError
    (text "[json.exception.type_error.302] type must be number, but is " ++ json.typeName))

/-- `json.value(key, fallback)` for an `int`. -/
def valueInt32 (key : Bytes) (fallback : Int32) : Json → Except Error Int32
  | .object members =>
    match (Json.object members).member key with
    | some json => json.getInt32
    | none => .ok fallback
  | json => .error (.typeError
    (text "[json.exception.type_error.306] cannot use value() with " ++ json.typeName))

end Json

end LogMonitor.Library
