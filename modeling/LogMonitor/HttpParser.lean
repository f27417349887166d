import LogMonitor.LogEntry
import Mathlib.Logic.Function.Basic

/-!
The HTTP request parser and the responses of the ingestion API. Slices go
through the checked `substr`, so that an access outside the buffer would show
as an exception; the parser never has one.
-/

namespace LogMonitor
open Library.ByteString

structure HttpRequest where
  method : Bytes
  path : Bytes
  version : Bytes
  headers : Bytes → Option Bytes
  body : Bytes

def HttpRequest.header (request : HttpRequest) (key : Bytes) : Option Bytes :=
  request.headers (key.map toLower)

structure HttpResponse where
  statusCode : Nat
  statusText : Bytes
  contentType : Bytes
  body : Bytes

namespace HttpResponse

def serialize (response : HttpResponse) : Bytes :=
  text "HTTP/1.1 " ++ toDecimal response.statusCode ++ text " " ++ response.statusText ++
    text "\r\n" ++ text "Content-Type: " ++ response.contentType ++ text "\r\n" ++
    text "Content-Length: " ++ toDecimal response.body.length ++ text "\r\n" ++
    text "Connection: close\r\n" ++ text "\r\n" ++ response.body

def ok (jsonBody : Bytes) : HttpResponse := ⟨200, text "OK", text "application/json", jsonBody⟩

def badRequest (message : Bytes) : HttpResponse :=
  ⟨400, text "Bad Request", text "application/json",
    text "\x7b\"error\":\"" ++ message ++ text "\"\x7d"⟩

def notFound : HttpResponse :=
  ⟨404, text "Not Found", text "application/json", text "\x7b\"error\":\"Not Found\"\x7d"⟩

def html (htmlBody : Bytes) : HttpResponse :=
  ⟨200, text "OK", text "text/html; charset=utf-8", htmlBody⟩

end HttpResponse

namespace HttpParser

/-- A carriage return at the end of a line is dropped. -/
def trimCr (line : Bytes) : Bytes := if line.getLast? = some 13 then line.dropLast else line

/-- Where the headers end: at an empty line, with or without carriage returns. -/
def headerEnd (raw : Bytes) : Option Nat :=
  match find (text "\r\n\r\n") raw 0 with
  | some pos => some pos
  | none => find (text "\n\n") raw 0

def addHeader (headers : Bytes → Option Bytes) (line : Bytes) :
    Except Exception (Bytes → Option Bytes) :=
  let line := trimCr line
  if line = [] then .ok headers
  else
    match find (text ":") line 0 with
    | none => .ok headers
    | some colon => do
      let key := (← substr line 0 colon).map toLower
      let value := (← substrFrom line (colon + 1)).dropWhile (· = 32)
      return Function.update headers key (some value)

def parseHeaders (remaining : Bytes) (headers : Bytes → Option Bytes) :
    Except Exception (Bytes → Option Bytes) :=
  if _nonempty : remaining = [] then .ok headers
  else
    match find (text "\n") remaining 0 with
    | none => addHeader headers remaining
    | some lineEnd =>
      match substr remaining 0 lineEnd with
      | .error exception => .error exception
      | .ok line =>
        match addHeader headers line with
        | .error exception => .error exception
        | .ok headers =>
          match _shorter : substrFrom remaining (lineEnd + 1) with
          | .error exception => .error exception
          | .ok rest => parseHeaders rest headers
termination_by remaining.length
decreasing_by
  have positive := List.length_pos_of_ne_nil _nonempty
  rw [substrFrom_eq _shorter, List.length_drop]
  omega

def parseRequestLine (requestLine : Bytes) : Except Exception (Option (Bytes × Bytes × Bytes)) :=
  match find (text " ") requestLine 0 with
  | none => .ok none
  | some sp1 =>
    match find (text " ") requestLine (sp1 + 1) with
    | none => .ok none
    | some sp2 => do
      let method ← substr requestLine 0 sp1
      let path ← substr requestLine (sp1 + 1) (sp2 - sp1 - 1)
      let version ← substrFrom requestLine (sp2 + 1)
      return some (method, path, version)

/-- The separator is four bytes long with carriage returns and two without. -/
def bodyStart (raw : Bytes) (headerEnd : Nat) : Nat :=
  headerEnd + (if raw[headerEnd]? = some 13 then 4 else 2)

def parseBody (raw : Bytes) (headerEnd : Nat) : Except Exception Bytes :=
  if bodyStart raw headerEnd < raw.length then substrFrom raw (bodyStart raw headerEnd) else .ok []

def parse (raw : Bytes) : Except Exception (Option HttpRequest) :=
  match headerEnd raw with
  | none => .ok none
  | some headerEnd =>
    let headerSection := raw.take headerEnd
    match find (text "\n") headerSection 0 with
    | none => .ok none
    | some firstLineEnd => do
      let requestLine := trimCr (← substr headerSection 0 firstLineEnd)
      match ← parseRequestLine requestLine with
      | none => return none
      | some (method, path, version) =>
        let remaining ← substrFrom headerSection (firstLineEnd + 1)
        let headers ← parseHeaders remaining (fun _ => none)
        let body ← parseBody raw headerEnd
        return some ⟨method, path, version, headers, body⟩

theorem addHeader_ok (headers : Bytes → Option Bytes) (line : Bytes) :
    ∃ result, addHeader headers line = .ok result := by
  simp only [addHeader]
  by_cases empty : trimCr line = []
  · exact ⟨headers, if_pos empty⟩
  · rw [if_neg empty]
    cases colon : find (text ":") (trimCr line) 0 with
    | none => exact ⟨headers, rfl⟩
    | some pos =>
      have fits : pos + 1 ≤ (trimCr line).length := (find_some colon).2.2.1
      simp only [substr_ok (Nat.zero_le _), substrFrom_ok fits]
      exact ⟨_, rfl⟩

theorem parseHeaders_ok (remaining : Bytes) (headers : Bytes → Option Bytes) :
    ∃ result, parseHeaders remaining headers = .ok result := by
  fun_induction parseHeaders remaining headers with
  | case1 headers => exact ⟨headers, rfl⟩
  | case2 remaining headers _ _ => exact addHeader_ok headers remaining
  | case3 _ _ _ lineEnd _ _ failed => simp [substr_ok (Nat.zero_le _)] at failed
  | case4 remaining headers _ lineEnd _ line _ exception failed =>
    obtain ⟨result, ok⟩ := addHeader_ok headers line
    simp [ok] at failed
  | case5 remaining _ _ lineEnd found _ _ _ _ _ failed =>
    have fits : lineEnd + 1 ≤ remaining.length := (find_some found).2.2.1
    simp [substrFrom_ok fits] at failed
  | case6 _ _ _ _ _ _ _ _ _ _ _ ih => exact ih

theorem parseRequestLine_ok (requestLine : Bytes) :
    ∃ result, parseRequestLine requestLine = .ok result := by
  unfold parseRequestLine
  cases first : find (text " ") requestLine 0 with
  | none => exact ⟨none, rfl⟩
  | some sp1 =>
    simp only
    cases second : find (text " ") requestLine (sp1 + 1) with
    | none => exact ⟨none, rfl⟩
    | some sp2 =>
      have low := (find_some second).1
      have fits : sp2 + 1 ≤ requestLine.length := (find_some second).2.2.1
      simp only [substr_ok (Nat.zero_le _), substr_ok (show sp1 + 1 ≤ requestLine.length by omega),
        substrFrom_ok fits]
      exact ⟨_, rfl⟩

theorem parseBody_ok (raw : Bytes) (headerEnd : Nat) :
    ∃ result, parseBody raw headerEnd = .ok result := by
  unfold parseBody
  split
  next inside => exact ⟨_, substrFrom_ok inside.le⟩
  next => exact ⟨[], rfl⟩

/-- No bytes make the parser throw. -/
theorem parse_ok (raw : Bytes) : ∃ result, parse raw = .ok result := by
  unfold parse
  cases headerEnd raw with
  | none => exact ⟨none, rfl⟩
  | some headerEnd =>
    simp only
    cases first : find (text "\n") (raw.take headerEnd) 0 with
    | none => exact ⟨none, rfl⟩
    | some firstLineEnd =>
      have fits : firstLineEnd + 1 ≤ (raw.take headerEnd).length := (find_some first).2.2.1
      simp only [substr_ok (Nat.zero_le _), substrFrom_ok fits]
      obtain ⟨parts, line⟩ := parseRequestLine_ok
        (trimCr (((raw.take headerEnd).drop 0).take firstLineEnd))
      obtain ⟨headers, fields⟩ :=
        parseHeaders_ok ((raw.take headerEnd).drop (firstLineEnd + 1)) (fun _ => none)
      obtain ⟨body, rest⟩ := parseBody_ok raw headerEnd
      simp only [bind, Except.bind, pure, Except.pure, line, fields, rest]
      cases parts with
      | none => exact ⟨none, rfl⟩
      | some parts => exact ⟨_, rfl⟩

end HttpParser

end LogMonitor
