import LogMonitor.TokenRevocation

/-!
What `verify_token` accepts: the tokens of `create_token` with the claims they
were made of, and of any other string only what is signed, readable, not expired
and not revoked.
-/

namespace LogMonitor.AuthManager
open Library Library.ByteString TokenRevocation

theorem splitToken_some {token header body signature : Bytes}
    (split : splitToken token = some (header, body, signature)) :
    token = header ++ text "." ++ body ++ text "." ++ signature ∧ 46 ∉ header ∧ 46 ∉ body := by
  have dot : text "." = [46] := rfl
  simp only [splitToken, Option.bind_eq_bind, Option.bind_eq_some_iff, Option.pure_def,
    Option.some.injEq, Prod.mk.injEq] at split
  obtain ⟨p1, first, p2, second, rfl, rfl, rfl⟩ := split
  rw [dot] at first second ⊢
  obtain ⟨-, outer, noDot⟩ := find_single_some first
  obtain ⟨-, inner, noDot'⟩ := find_single_some second
  rw [List.drop_zero, Nat.sub_zero] at outer noDot
  rw [Nat.sub_sub]
  refine ⟨?_, noDot, noDot'⟩
  calc token = token.take p1 ++ 46 :: token.drop (p1 + 1) := outer
    _ = token.take p1 ++
          46 :: ((token.drop (p1 + 1)).take (p2 - (p1 + 1)) ++ 46 :: token.drop (p2 + 1)) := by
        rw [← inner]
    _ = token.take p1 ++ [46] ++ (token.drop (p1 + 1)).take (p2 - (p1 + 1)) ++ [46] ++
          token.drop (p2 + 1) := by
        simp only [List.append_assoc, List.cons_append, List.nil_append]

/-- What the signed claims of a token were read from. -/
theorem signedClaims_some {jwt : Jwt} {token : Bytes} {claims : JwtClaims}
    (signed : signedClaims jwt token = .returned (some claims)) :
    ∃ header body signature json, token = header ++ text "." ++ body ++ text "." ++ signature ∧
      46 ∉ header ∧ 46 ∉ body ∧
      signature = base64urlEncode (jwt.hmacSha256 (header ++ text "." ++ body)) ∧
      jwt.parse (base64urlDecode body) = some json ∧ readClaims json = .ok claims := by
  unfold signedClaims at signed
  split at signed
  next => simp at signed
  next header body signature split =>
    by_cases same : base64urlEncode (jwt.hmacSha256 (header ++ text "." ++ body)) = signature
    · rw [if_neg (not_not.mpr same)] at signed
      split at signed
      next => simp at signed
      next json parsed =>
        split at signed
        next found read =>
          obtain ⟨shape, noDot, noDot'⟩ := splitToken_some split
          obtain rfl := Option.some.inj (Outcome.returned.inj signed)
          exact ⟨header, body, signature, json, shape, noDot, noDot', same.symm, parsed, read⟩
        next => simp at signed
    · rw [if_pos same] at signed
      simp at signed

theorem checkRevocation_isRevoked (revoked : Revoked) (claims : JwtClaims) (now : Int64) :
    (checkRevocation revoked claims now).1 = true ↔
      claims.jti = [] ∨ (isRevoked revoked claims.jti now).1 = false := by
  by_cases named : claims.jti = []
  · simp [checkRevocation, named]
  · simp [checkRevocation, named]

/-- A token of `create_token` is accepted with its claims at every time before its expiry while its
id is not revoked, if the JSON reader undoes what the writer wrote; and whatever is accepted has
the three parts, the signature, a payload that is read and not expired, and no revoked id. -/
theorem token_round_trip (jwt : Jwt) :
    (∀ (dump : Json → Option Bytes) (userId email json : Bytes) (now : Int64) (jti : Vector UInt8 16),
      dump (payload ⟨userId, email, now, now + tokenExpirySeconds, randomHex jti⟩) = some json →
      jwt.parse json =
        some (payload ⟨userId, email, now, now + tokenExpirySeconds, randomHex jti⟩) →
      ∃ token, createToken jwt dump userId email now (some jti) = .returned token ∧
        ∀ revoked expiryClock revocationClock, expiryClock < now + tokenExpirySeconds →
          (isRevoked revoked (randomHex jti) revocationClock).1 = false →
          (verifyToken jwt revoked token expiryClock revocationClock).1 =
            .returned (some ⟨userId, email, now, now + tokenExpirySeconds, randomHex jti⟩)) ∧
    ∀ revoked token expiryClock revocationClock claims,
      (verifyToken jwt revoked token expiryClock revocationClock).1 = .returned (some claims) →
      ∃ header body signature json, token = header ++ text "." ++ body ++ text "." ++ signature ∧
        46 ∉ header ∧ 46 ∉ body ∧
        signature = base64urlEncode (jwt.hmacSha256 (header ++ text "." ++ body)) ∧
        jwt.parse (base64urlDecode body) = some json ∧ readClaims json = .ok claims ∧
        expiryClock < claims.exp ∧
        (claims.jti = [] ∨ (isRevoked revoked claims.jti revocationClock).1 = false) := by
  constructor
  · intro dump userId email json now jti written read
    obtain ⟨token, made⟩ : ∃ token,
        createToken jwt dump userId email now (some jti) = .returned token := by
      simp only [createToken, written, Outcome.returned.injEq, exists_eq']
    refine ⟨token, made, ?_⟩
    intro revoked expiryClock revocationClock alive free
    rw [verifyToken_eq_some, checkRevocation_isRevoked, Int64.not_le]
    exact ⟨signedClaims_createToken written read made, alive, .inr free⟩
  · intro revoked token expiryClock revocationClock claims accepted
    rw [verifyToken_eq_some, checkRevocation_isRevoked, Int64.not_le] at accepted
    obtain ⟨signed, alive, free⟩ := accepted
    obtain ⟨header, body, signature, json, shape, noDot, noDot', same, parsed, read⟩ :=
      signedClaims_some signed
    exact ⟨header, body, signature, json, shape, noDot, noDot', same, parsed, read, alive, free⟩

/-- The user's token is accepted while it lasts. -/
theorem token_round_trip_user :
    ∃ token, createToken userJwt (fun _ => some userPayload) userClaims.sub userClaims.email
        userClaims.iat (some userDraw) = .returned token ∧
      (verifyToken userJwt (fun _ => none) token 1700000001 1700000001).1 =
        .returned (some userClaims) := by
  obtain ⟨token, made, accepted⟩ := (token_round_trip userJwt).1
    (fun _ => some userPayload) userClaims.sub userClaims.email userPayload userClaims.iat userDraw
    rfl rfl
  exact ⟨token, made, accepted (fun _ => none) 1700000001 1700000001 (by decide) rfl⟩

end LogMonitor.AuthManager
