import LogMonitor.Base64
import LogMonitor.ProjectStore

/-!
The bearer tokens: how they are made, the checks of `verify_token` in their
order, and the table of revoked tokens with its pruning. The keyed hash under
the secret and the JSON reader and writer come from the source's libraries.
-/

namespace LogMonitor.AuthManager
open Library Library.ByteString

structure JwtClaims where
  sub : Bytes
  email : Bytes
  iat : Int64
  exp : Int64
  jti : Bytes
deriving DecidableEq

/-- `HMAC` with SHA-256 under the secret, and `nlohmann::json::parse`. -/
structure Jwt where
  hmacSha256 : Bytes → Bytes
  parse : Bytes → Option Json

/-- The payload of a token, with its members in the order of the JSON object. -/
def payload (claims : JwtClaims) : Json := .object [
  (text "email", .string claims.email),
  (text "exp", .integer claims.exp.toInt),
  (text "iat", .integer claims.iat.toInt),
  (text "jti", .string claims.jti),
  (text "sub", .string claims.sub)]

def jwtHeader : Bytes := text "\x7b\"alg\":\"HS256\",\"typ\":\"JWT\"\x7d"

def tokenExpirySeconds : Int64 := 86400

/-- `create_token` with the clock, the text `dump` makes of the payload and the bytes drawn
for the id; it throws when one of the two is missing. -/
def createToken (jwt : Jwt) (dump : Json → Option Bytes) (userId email : Bytes) (now : Int64)
    (drawn : Option (Vector UInt8 16)) : Outcome Bytes :=
  match drawn with
  | none => .threw
  | some jti =>
    match dump (payload ⟨userId, email, now, now + tokenExpirySeconds, randomHex jti⟩) with
    | none => .threw
    | some json =>
      let signingInput := base64urlEncode jwtHeader ++ text "." ++ base64urlEncode json
      .returned (signingInput ++ text "." ++ base64urlEncode (jwt.hmacSha256 signingInput))

/-- The parts before, between and after the first two dots. -/
def splitToken (token : Bytes) : Option (Bytes × Bytes × Bytes) := do
  let p1 ← find (text ".") token 0
  let p2 ← find (text ".") token (p1 + 1)
  return (token.take p1, (token.drop (p1 + 1)).take (p2 - p1 - 1), token.drop (p2 + 1))

/-- A token is taken apart into the parts it was joined from. -/
theorem splitToken_join {header payload : Bytes} (plain : 46 ∉ header) (plain' : 46 ∉ payload)
    (signature : Bytes) :
    splitToken (header ++ text "." ++ payload ++ text "." ++ signature) =
      some (header, payload, signature) := by
  have dot : text "." = [46] := rfl
  let token := header ++ 46 :: (payload ++ 46 :: signature)
  have first : find [46] token 0 = some header.length := by
    simpa using find_single plain [] (payload ++ 46 :: signature)
  have second : find [46] token (header.length + 1) = some (header.length + 1 + payload.length) := by
    have found := find_single plain' (header ++ [46]) signature
    rw [List.length_append, List.length_singleton, List.append_assoc] at found
    exact found
  have shape : header ++ [46] ++ payload ++ [46] ++ signature = token := by simp [token]
  have middle : token.drop (header.length + 1) = payload ++ 46 :: signature := by
    simp [token, List.drop_append]
  have last : token.drop (header.length + 1 + payload.length + 1) = signature := by
    rw [Nat.add_assoc, ← List.drop_drop, middle]
    simp [List.drop_append]
  have width : header.length + 1 + payload.length - header.length - 1 = payload.length := by omega
  rw [dot, shape, splitToken, dot, first]
  simp only [Option.bind_eq_bind, Option.bind_some, second, middle, last, width]
  simp [token]

def readClaims (json : Json) : Except Json.Error JwtClaims := do
  return {
    sub := ← json.valueString (text "sub") []
    email := ← json.valueString (text "email") []
    iat := ← json.valueInt64 (text "iat") 0
    exp := ← json.valueInt64 (text "exp") 0
    jti := ← json.valueString (text "jti") [] }

theorem readClaims_payload (claims : JwtClaims) : readClaims (payload claims) = .ok claims := by
  have read : readClaims (payload claims) = .ok ⟨claims.sub, claims.email,
    Int64.ofInt claims.iat.toInt, Int64.ofInt claims.exp.toInt, claims.jti⟩ := rfl
  rw [read, Int64.ofInt_toInt, Int64.ofInt_toInt]

/-- `verify_token` up to the expiry check: the claims of a token that is signed. Only the
accessors throw. -/
def signedClaims (jwt : Jwt) (token : Bytes) : Outcome (Option JwtClaims) :=
  match splitToken token with
  | none => .returned none
  | some (header, payload, signature) =>
    if base64urlEncode (jwt.hmacSha256 (header ++ text "." ++ payload)) ≠ signature then
      .returned none
    else
      match jwt.parse (base64urlDecode payload) with
      | none => .returned none
      | some json =>
        match readClaims json with
        | .ok claims => .returned (some claims)
        | .error _ => .threw

/-- The revoked tokens by their id, with the expiry they were revoked with. -/
abbrev Revoked := Bytes → Option Int64

def revokeToken (revoked : Revoked) (jti : Bytes) (expUnixSec : Int64) : Revoked :=
  if jti = [] then revoked else Function.update revoked jti (some expUnixSec)

def pruned (now exp : Int64) : Bool := 0 < exp && exp < now

def prune (revoked : Revoked) (now : Int64) : Revoked :=
  fun jti => (revoked jti).filter fun exp => !pruned now exp

/-- `is_revoked`, with the clock it reads under the lock. -/
def isRevoked (revoked : Revoked) (jti : Bytes) (now : Int64) : Bool × Revoked :=
  if jti = [] then (false, revoked)
  else
    let revoked := prune revoked now
    ((revoked jti).isSome, revoked)

def checkRevocation (revoked : Revoked) (claims : JwtClaims) (now : Int64) : Bool × Revoked :=
  if claims.jti ≠ [] then
    let (found, revoked) := isRevoked revoked claims.jti now
    (!found, revoked)
  else (true, revoked)

/-- `verify_token` with its two readings of the clock: the claims when it returns true. -/
def verifyToken (jwt : Jwt) (revoked : Revoked) (token : Bytes) (expiryClock revocationClock : Int64) :
    Outcome (Option JwtClaims) × Revoked :=
  match signedClaims jwt token with
  | .threw => (.threw, revoked)
  | .returned none => (.returned none, revoked)
  | .returned (some claims) =>
    if claims.exp ≤ expiryClock then (.returned none, revoked)
    else
      let (accepted, revoked) := checkRevocation revoked claims revocationClock
      (.returned (if accepted then some claims else none), revoked)

theorem base64urlEncode_plain (data : Bytes) : 46 ∉ base64urlEncode data := by
  intro written
  have absent : (46 : UInt8) ∉ base64Chars := by decide +kernel
  exact absent (base64urlEncode_mem written)

theorem splitToken_createToken {jwt : Jwt} {dump : Json → Option Bytes}
    {userId email token json : Bytes} {now : Int64} {jti : Vector UInt8 16}
    (written : dump (payload ⟨userId, email, now, now + tokenExpirySeconds, randomHex jti⟩) =
      some json)
    (made : createToken jwt dump userId email now (some jti) = .returned token) :
    splitToken token = some (base64urlEncode jwtHeader, base64urlEncode json,
      base64urlEncode (jwt.hmacSha256
        (base64urlEncode jwtHeader ++ text "." ++ base64urlEncode json))) := by
  simp only [createToken, written, Outcome.returned.injEq] at made
  rw [← made]
  exact splitToken_join (base64urlEncode_plain jwtHeader) (base64urlEncode_plain json) _

/-- A token of `create_token` carries the claims it was made of, if the reader undoes what the
writer wrote. -/
theorem signedClaims_createToken {jwt : Jwt} {dump : Json → Option Bytes}
    {userId email token json : Bytes} {now : Int64} {jti : Vector UInt8 16}
    (written : dump (payload ⟨userId, email, now, now + tokenExpirySeconds, randomHex jti⟩) =
      some json)
    (read : jwt.parse json =
      some (payload ⟨userId, email, now, now + tokenExpirySeconds, randomHex jti⟩))
    (made : createToken jwt dump userId email now (some jti) = .returned token) :
    signedClaims jwt token =
      .returned (some ⟨userId, email, now, now + tokenExpirySeconds, randomHex jti⟩) := by
  have parts := splitToken_createToken written made
  simp only [signedClaims, parts, ne_eq, not_true, if_false, decode_encode, read, readClaims_payload]

theorem revokeToken_self {jti : Bytes} (named : jti ≠ []) (revoked : Revoked) (exp : Int64) :
    revokeToken revoked jti exp jti = some exp := by
  rw [revokeToken, if_neg named, Function.update_self]

theorem revokeToken_of_ne {jti other : Bytes} (different : other ≠ jti) (revoked : Revoked)
    (exp : Int64) : revokeToken revoked jti exp other = revoked other := by
  unfold revokeToken
  split
  next => rfl
  next => exact Function.update_of_ne different _ _

theorem prune_eq_some {revoked : Revoked} {now exp : Int64} {jti : Bytes} :
    prune revoked now jti = some exp ↔ revoked jti = some exp ∧ pruned now exp = false := by
  rw [prune, Option.filter_eq_some_iff, Bool.not_eq_true']

theorem isRevoked_snd (revoked : Revoked) (jti : Bytes) (now : Int64) :
    (isRevoked revoked jti now).2 = revoked ∨ (isRevoked revoked jti now).2 = prune revoked now := by
  unfold isRevoked
  split
  · exact .inl rfl
  · exact .inr rfl

theorem checkRevocation_snd (revoked : Revoked) (claims : JwtClaims) (now : Int64) :
    (checkRevocation revoked claims now).2 = revoked ∨
      (checkRevocation revoked claims now).2 = prune revoked now := by
  unfold checkRevocation
  split
  · exact isRevoked_snd revoked claims.jti now
  · exact .inl rfl

/-- A token passes the last check if it has no id or nothing unpruned is filed under it. -/
theorem checkRevocation_fst {revoked : Revoked} {claims : JwtClaims} {now : Int64} :
    (checkRevocation revoked claims now).1 = true ↔
      claims.jti = [] ∨ ∀ exp, revoked claims.jti = some exp → pruned now exp = true := by
  by_cases named : claims.jti = []
  · simp [checkRevocation, named]
  · rw [checkRevocation, if_pos named, isRevoked, if_neg named]
    simp only [named, false_or, Bool.not_eq_true', Option.isSome_eq_false_iff,
      Option.isNone_iff_eq_none]
    constructor
    · intro gone exp filed
      by_contra kept
      have there := prune_eq_some.mpr ⟨filed, Bool.eq_false_iff.mpr kept⟩
      rw [gone] at there
      simp at there
    · intro all
      rw [Option.eq_none_iff_forall_ne_some]
      intro exp there
      obtain ⟨filed, kept⟩ := prune_eq_some.mp there
      rw [all exp filed] at kept
      exact Bool.noConfusion kept

/-- `verify_token` returns true exactly for a signed token that has not expired and passes the
revocation check. -/
theorem verifyToken_eq_some {jwt : Jwt} {revoked : Revoked} {token : Bytes}
    {expiryClock revocationClock : Int64} {claims : JwtClaims} :
    (verifyToken jwt revoked token expiryClock revocationClock).1 = .returned (some claims) ↔
      signedClaims jwt token = .returned (some claims) ∧ ¬claims.exp ≤ expiryClock ∧
        (checkRevocation revoked claims revocationClock).1 = true := by
  unfold verifyToken
  cases signedClaims jwt token with
  | threw => simp
  | returned found =>
    cases found with
    | none => simp
    | some read =>
      simp only [Outcome.returned.injEq, Option.some.injEq]
      by_cases expired : read.exp ≤ expiryClock
      · rw [if_pos expired]
        simp only [Outcome.returned.injEq, reduceCtorEq, false_iff]
        rintro ⟨rfl, alive, -⟩
        exact alive expired
      · rw [if_neg expired]
        cases accepted : (checkRevocation revoked read revocationClock).1 with
        | true =>
          simp only [if_true, Option.some.injEq, Outcome.returned.injEq]
          constructor
          · rintro rfl
            exact ⟨rfl, expired, accepted⟩
          · exact fun same => same.1
        | false =>
          simp only [Bool.false_eq_true, if_false, Outcome.returned.injEq, reduceCtorEq, false_iff]
          rintro ⟨rfl, -, passed⟩
          rw [accepted] at passed
          exact Bool.noConfusion passed

end LogMonitor.AuthManager
