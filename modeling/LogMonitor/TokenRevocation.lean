import LogMonitor.Library.Transition
import LogMonitor.Token

/-!
Calls of `verify_token`, `is_revoked` and `revoke_token` from any threads. A
verification reads the clock once for the expiry and once more, under the lock,
for the pruning that comes before the lookup of the token's id. A revoked token
passes when the clock goes past the filed expiry between the two.
-/

namespace LogMonitor.TokenRevocation
open Library Library.ByteString Library.Transition AuthManager

structure Revocation where
  jti : Bytes
  exp : Int64
deriving DecidableEq

/-- Where a verification is that has not returned, with the revocations made before it began. -/
inductive Call where
  | started (token : Bytes) (before : List Revocation)
  | unexpired (token : Bytes) (before : List Revocation) (claims : JwtClaims) (expiryClock : Int64)

/-- A verification that has returned, with what it read of the clock and the revocations made
before it began and before its last reading. -/
structure Verdict where
  token : Bytes
  before : List Revocation
  expiryClock : Int64
  revocations : List Revocation
  revocationClock : Int64
  result : Outcome (Option JwtClaims)

structure State where
  clock : Int64
  revoked : Revoked
  calls : Nat → Option Call
  /-- Every call of `revoke_token` so far, the latest first. -/
  revocations : List Revocation
  verdicts : List Verdict

def initial (clock : Int64) : State where
  clock := clock
  revoked := fun _ => none
  calls := fun _ => none
  revocations := []
  verdicts := []

def State.finish (s : State) (thread : Nat) (token : Bytes) (before : List Revocation)
    (expiryClock : Int64) (result : Outcome (Option JwtClaims)) : State :=
  { s with
    calls := Function.update s.calls thread none
    verdicts := s.verdicts ++ [⟨token, before, expiryClock, s.revocations, s.clock, result⟩] }

/-- `verify_token` up to and with the first reading of the clock. -/
def State.checkExpiry (jwt : Jwt) (s : State) (thread : Nat) (token : Bytes)
    (before : List Revocation) : State :=
  match signedClaims jwt token with
  | .threw => s.finish thread token before s.clock .threw
  | .returned none => s.finish thread token before s.clock (.returned none)
  | .returned (some claims) =>
    if claims.exp ≤ s.clock then s.finish thread token before s.clock (.returned none)
    else { s with
      calls := Function.update s.calls thread (some (.unexpired token before claims s.clock)) }

/-- The rest of `verify_token`. -/
def State.checkRevoked (s : State) (thread : Nat) (token : Bytes) (before : List Revocation)
    (claims : JwtClaims) (expiryClock : Int64) : State :=
  let (accepted, revoked) := checkRevocation s.revoked claims s.clock
  { s with revoked := revoked }.finish thread token before expiryClock
    (.returned (if accepted then some claims else none))

inductive Label where
  | tick (now : Int64)
  | revoke (jti : Bytes) (exp : Int64)
  | query (jti : Bytes)
  | start (thread : Nat) (token : Bytes)
  | expiry (thread : Nat)
  | revocation (thread : Nat)

inductive Step (jwt : Jwt) : State → Label → State → Prop
  | tick {s : State} {now : Int64} (later : s.clock ≤ now) :
      Step jwt s (.tick now) { s with clock := now }
  | revoke (s : State) (jti : Bytes) (exp : Int64) :
      Step jwt s (.revoke jti exp) { s with
        revoked := revokeToken s.revoked jti exp
        revocations := ⟨jti, exp⟩ :: s.revocations }
  | query (s : State) (jti : Bytes) :
      Step jwt s (.query jti) { s with revoked := (isRevoked s.revoked jti s.clock).2 }
  | start {s : State} {thread : Nat} (token : Bytes) (idle : s.calls thread = none) :
      Step jwt s (.start thread token) { s with
        calls := Function.update s.calls thread (some (.started token s.revocations)) }
  | expiry {s : State} {thread : Nat} {token : Bytes} {before : List Revocation}
      (here : s.calls thread = some (.started token before)) :
      Step jwt s (.expiry thread) (s.checkExpiry jwt thread token before)
  | revocation {s : State} {thread : Nat} {token : Bytes} {before : List Revocation}
      {claims : JwtClaims} {expiryClock : Int64}
      (here : s.calls thread = some (.unexpired token before claims expiryClock)) :
      Step jwt s (.revocation thread) (s.checkRevoked thread token before claims expiryClock)

/-- The expiry given by the last revocation of a token. -/
def latest (jti : Bytes) (revocations : List Revocation) : Option Int64 :=
  (revocations.find? fun revocation => revocation.jti = jti).map Revocation.exp

/-- One of the calls revoked the token, with its own expiry or with none. -/
def RevokedBy (claims : JwtClaims) (revocations : List Revocation) : Prop :=
  ∃ revocation ∈ revocations,
    revocation.jti = claims.jti ∧ (revocation.exp = claims.exp ∨ revocation.exp = 0)

/-- No verification of a token that was revoked before it began has accepted the token. -/
def NeverAccepted (jwt : Jwt) (s : State) : Prop :=
  ∀ verdict ∈ s.verdicts, ∀ claims, signedClaims jwt verdict.token = .returned (some claims) →
    RevokedBy claims verdict.before → ∀ accepted, verdict.result ≠ .returned (some accepted)

/-- The clock readings of a verification let the token through: it had not expired at the
first, and it has no id or what was filed under the id is pruned at the second. -/
def Verdict.SlipsThrough (verdict : Verdict) (claims : JwtClaims) : Prop :=
  ¬claims.exp ≤ verdict.expiryClock ∧ (claims.jti = [] ∨
    ∃ exp, latest claims.jti verdict.revocations = some exp ∧
      pruned verdict.revocationClock exp = true)

/-- No verification of a token that was revoked before it began read the clock so late. -/
def ReadInTime (jwt : Jwt) (s : State) : Prop :=
  ∀ verdict ∈ s.verdicts, ∀ claims, signedClaims jwt verdict.token = .returned (some claims) →
    RevokedBy claims verdict.before → ¬verdict.SlipsThrough claims

theorem latest_cons (revocation : Revocation) (jti : Bytes) (revocations : List Revocation) :
    latest jti (revocation :: revocations) =
      if revocation.jti = jti then some revocation.exp else latest jti revocations := by
  by_cases same : revocation.jti = jti
  · simp [latest, same]
  · simp [latest, same]

theorem RevokedBy.latest {claims : JwtClaims} {before revocations : List Revocation}
    (revoked : RevokedBy claims before) (earlier : before <:+ revocations) :
    ∃ exp, latest claims.jti revocations = some exp := by
  obtain ⟨revocation, made, named, -⟩ := revoked
  have found : (revocations.find? fun revocation => revocation.jti = claims.jti).isSome := by
    rw [List.find?_isSome]
    exact ⟨revocation, earlier.subset made, decide_eq_true named⟩
  obtain ⟨last, found⟩ := Option.isSome_iff_exists.mp found
  exact ⟨last.exp, by rw [TokenRevocation.latest, found, Option.map_some]⟩

theorem pruned_mono {now later exp : Int64} (le : now ≤ later) (gone : pruned now exp = true) :
    pruned later exp = true := by
  rw [pruned, Bool.and_eq_true, decide_eq_true_eq, decide_eq_true_eq] at gone ⊢
  exact ⟨gone.1, Int64.lt_of_lt_of_le gone.2 le⟩

/-- The table holds what the last revocation of each token gave, but for what the clock lets
`is_revoked` prune. -/
structure Files (revoked : Revoked) (revocations : List Revocation) (clock : Int64) : Prop where
  filed : ∀ jti exp, jti ≠ [] → revoked jti = some exp → latest jti revocations = some exp
  gone : ∀ jti exp, jti ≠ [] → revoked jti = none → latest jti revocations = some exp →
    pruned clock exp = true

theorem Files.tick {revoked : Revoked} {revocations : List Revocation} {clock now : Int64}
    (holds : Files revoked revocations clock) (later : clock ≤ now) :
    Files revoked revocations now where
  filed := holds.filed
  gone jti exp named missing last := pruned_mono later (holds.gone jti exp named missing last)

theorem Files.prune {revoked : Revoked} {revocations : List Revocation} {clock : Int64}
    (holds : Files revoked revocations clock) :
    Files (prune revoked clock) revocations clock where
  filed jti exp named kept := holds.filed jti exp named (prune_eq_some.mp kept).1
  gone jti exp named missing last := by
    cases before : revoked jti with
    | none => exact holds.gone jti exp named before last
    | some old =>
      obtain rfl : old = exp := Option.some.inj ((holds.filed jti old named before).symm.trans last)
      by_contra kept
      have there := prune_eq_some.mpr ⟨before, Bool.eq_false_iff.mpr kept⟩
      rw [missing] at there
      simp at there

theorem Files.revoke {revoked : Revoked} {revocations : List Revocation} {clock : Int64}
    (holds : Files revoked revocations clock) (jti : Bytes) (exp : Int64) :
    Files (revokeToken revoked jti exp) (⟨jti, exp⟩ :: revocations) clock where
  filed other old named there := by
    rw [latest_cons]
    by_cases same : jti = other
    · subst same
      rw [revokeToken_self named] at there
      rw [if_pos rfl]
      exact there
    · rw [revokeToken_of_ne (Ne.symm same)] at there
      rw [if_neg same]
      exact holds.filed other old named there
  gone other old named missing last := by
    rw [latest_cons] at last
    by_cases same : jti = other
    · subst same
      rw [revokeToken_self named] at missing
      simp at missing
    · rw [revokeToken_of_ne (Ne.symm same)] at missing
      rw [if_neg same] at last
      exact holds.gone other old named missing last

theorem Files.passes {revoked : Revoked} {revocations : List Revocation} {clock : Int64}
    (holds : Files revoked revocations clock) (claims : JwtClaims) :
    (checkRevocation revoked claims clock).1 = true ↔ claims.jti = [] ∨
      ∀ exp, latest claims.jti revocations = some exp → pruned clock exp = true := by
  rw [checkRevocation_fst]
  by_cases named : claims.jti = []
  · simp only [named, true_or]
  · simp only [named, false_or]
    constructor
    · intro all exp last
      cases there : revoked claims.jti with
      | none => exact holds.gone claims.jti exp named there last
      | some old =>
        obtain rfl : old = exp :=
          Option.some.inj ((holds.filed claims.jti old named there).symm.trans last)
        exact all old there
    · intro all exp there
      exact all exp (holds.filed claims.jti exp named there)

/-- A call in progress remembers only revocations that were made, and it has come past the
expiry check with the claims of its token. -/
def Call.Sound (jwt : Jwt) (revocations : List Revocation) : Call → Prop
  | .started _ before => before <:+ revocations
  | .unexpired token before claims expiryClock =>
    before <:+ revocations ∧ signedClaims jwt token = .returned (some claims) ∧
      ¬claims.exp ≤ expiryClock

/-- A verdict is what its two readings of the clock and the revocations made until the second
say. -/
structure Verdict.Sound (jwt : Jwt) (verdict : Verdict) : Prop where
  earlier : verdict.before <:+ verdict.revocations
  accepts : ∀ claims, verdict.result = .returned (some claims) ↔
    signedClaims jwt verdict.token = .returned (some claims) ∧ ¬claims.exp ≤ verdict.expiryClock ∧
      (claims.jti = [] ∨ ∀ exp, latest claims.jti verdict.revocations = some exp →
        pruned verdict.revocationClock exp = true)

structure Invariant (jwt : Jwt) (s : State) : Prop where
  files : Files s.revoked s.revocations s.clock
  calls : ∀ thread call, s.calls thread = some call → call.Sound jwt s.revocations
  verdicts : ∀ verdict ∈ s.verdicts, verdict.Sound jwt

theorem invariant_initial (jwt : Jwt) (clock : Int64) : Invariant jwt (initial clock) where
  files := ⟨nofun, nofun⟩
  calls := nofun
  verdicts := nofun

theorem Call.Sound.revoke {jwt : Jwt} {revocations : List Revocation} {call : Call}
    (sound : call.Sound jwt revocations) (revocation : Revocation) :
    call.Sound jwt (revocation :: revocations) := by
  have more := List.suffix_cons revocation revocations
  cases call with
  | started token before => exact List.IsSuffix.trans sound more
  | unexpired token before claims expiryClock =>
    exact ⟨sound.1.trans more, sound.2⟩

theorem Invariant.calls_update {jwt : Jwt} {s : State} (holds : Invariant jwt s) (thread : Nat)
    (next : Option Call) (sound : ∀ call, next = some call → call.Sound jwt s.revocations) :
    ∀ other call, Function.update s.calls thread next other = some call →
      call.Sound jwt s.revocations := by
  intro other call there
  by_cases same : other = thread
  · subst same
    rw [Function.update_self] at there
    exact sound call there
  · rw [Function.update_of_ne same] at there
    exact holds.calls other call there

theorem Invariant.finish {jwt : Jwt} {s : State} (holds : Invariant jwt s) {thread : Nat}
    {token : Bytes} {before : List Revocation} {expiryClock : Int64}
    {result : Outcome (Option JwtClaims)}
    (sound : Verdict.Sound jwt ⟨token, before, expiryClock, s.revocations, s.clock, result⟩) :
    Invariant jwt (s.finish thread token before expiryClock result) where
  files := holds.files
  calls := holds.calls_update thread none nofun
  verdicts := by
    intro verdict listed
    rcases List.mem_append.mp listed with old | new
    · exact holds.verdicts verdict old
    · rw [List.mem_singleton.mp new]
      exact sound

theorem Invariant.checkExpiry {jwt : Jwt} {s : State} (holds : Invariant jwt s) {thread : Nat}
    {token : Bytes} {before : List Revocation} (earlier : before <:+ s.revocations) :
    Invariant jwt (s.checkExpiry jwt thread token before) := by
  unfold State.checkExpiry
  split
  next threw =>
    apply holds.finish
    exact ⟨earlier, fun claims => by simp [threw]⟩
  next refused =>
    apply holds.finish
    exact ⟨earlier, fun claims => by simp [refused]⟩
  next claims signed =>
    split
    next expired =>
      apply holds.finish
      refine ⟨earlier, fun other => ?_⟩
      simp only [Outcome.returned.injEq, reduceCtorEq, false_iff]
      rintro ⟨same, alive, -⟩
      rw [signed, Outcome.returned.injEq, Option.some.injEq] at same
      subst same
      exact alive expired
    next alive =>
      refine ⟨holds.files, holds.calls_update thread _ ?_, holds.verdicts⟩
      intro call same
      rw [← Option.some.inj same]
      exact ⟨earlier, signed, alive⟩

theorem Invariant.checkRevoked {jwt : Jwt} {s : State} (holds : Invariant jwt s) {thread : Nat}
    {token : Bytes} {before : List Revocation} {claims : JwtClaims} {expiryClock : Int64}
    (sound : (Call.unexpired token before claims expiryClock).Sound jwt s.revocations) :
    Invariant jwt (s.checkRevoked thread token before claims expiryClock) := by
  obtain ⟨earlier, signed, alive⟩ := sound
  have files : Files (checkRevocation s.revoked claims s.clock).2 s.revocations s.clock := by
    rcases checkRevocation_snd s.revoked claims s.clock with same | less
    · rw [same]
      exact holds.files
    · rw [less]
      exact holds.files.prune
  have kept : Invariant jwt { s with revoked := (checkRevocation s.revoked claims s.clock).2 } :=
    ⟨files, holds.calls, holds.verdicts⟩
  have passes := holds.files.passes claims
  have sound : Verdict.Sound jwt ⟨token, before, expiryClock, s.revocations, s.clock, .returned
      (if (checkRevocation s.revoked claims s.clock).1 then some claims else none)⟩ := by
    refine ⟨earlier, fun other => ?_⟩
    by_cases accepted : (checkRevocation s.revoked claims s.clock).1 = true
    · rw [if_pos accepted, signed, Outcome.returned.injEq]
      constructor
      · intro same
        rw [← Option.some.inj same]
        exact ⟨rfl, alive, passes.mp accepted⟩
      · exact fun same => same.1
    · rw [if_neg accepted]
      simp only [Outcome.returned.injEq, reduceCtorEq, false_iff]
      rintro ⟨same, -, passed⟩
      rw [signed, Outcome.returned.injEq, Option.some.injEq] at same
      subst same
      exact accepted (passes.mpr passed)
  exact kept.finish sound

theorem invariant_step {jwt : Jwt} {s next : State} {label : Label} (holds : Invariant jwt s)
    (step : Step jwt s label next) : Invariant jwt next := by
  cases step with
  | tick later => exact ⟨holds.files.tick later, holds.calls, holds.verdicts⟩
  | revoke jti exp =>
    refine ⟨holds.files.revoke jti exp, ?_, holds.verdicts⟩
    intro thread call there
    exact (holds.calls thread call there).revoke ⟨jti, exp⟩
  | query jti =>
    refine ⟨?_, holds.calls, holds.verdicts⟩
    rcases isRevoked_snd s.revoked jti s.clock with same | less
    · rw [same]
      exact holds.files
    · rw [less]
      exact holds.files.prune
  | start token idle =>
    refine ⟨holds.files, holds.calls_update _ _ ?_, holds.verdicts⟩
    intro call same
    rw [← Option.some.inj same]
    exact List.suffix_refl s.revocations
  | expiry here => exact holds.checkExpiry (holds.calls _ _ here)
  | revocation here => exact holds.checkRevoked (holds.calls _ _ here)

theorem run_invariant {jwt : Jwt} {clock : Int64} {labels : List Label} {s : State}
    (run : Run (Step jwt) (initial clock) labels s) : Invariant jwt s := by
  refine run.invariant (fun _ s => Invariant jwt s) (invariant_initial jwt clock) ?_
  exact fun _ _ _ _ _ holds step => invariant_step holds step

/-- A verification of a token that was revoked before it began accepts exactly when its two
readings of the clock let the token through. -/
theorem Verdict.Sound.accepts_revoked {jwt : Jwt} {verdict : Verdict} (sound : verdict.Sound jwt)
    {claims : JwtClaims} (signed : signedClaims jwt verdict.token = .returned (some claims))
    (revoked : RevokedBy claims verdict.before) :
    (∃ accepted, verdict.result = .returned (some accepted)) ↔ verdict.SlipsThrough claims := by
  obtain ⟨last, found⟩ := revoked.latest sound.earlier
  constructor
  · rintro ⟨accepted, result⟩
    obtain ⟨same, alive, passed⟩ := (sound.accepts accepted).mp result
    rw [signed, Outcome.returned.injEq, Option.some.injEq] at same
    subst same
    exact ⟨alive, passed.imp_right fun all => ⟨last, found, all last found⟩⟩
  · rintro ⟨alive, passed⟩
    refine ⟨claims, (sound.accepts claims).mpr ⟨signed, alive, passed.imp_right ?_⟩⟩
    rintro ⟨exp, filed, gone⟩ other filed'
    rw [← Option.some.inj (filed.symm.trans filed')]
    exact gone

/-- In every run, no token is accepted by a verification that began after its revocation, if
and only if none of these verifications read the clock too late. -/
theorem neverAccepted_iff {jwt : Jwt} {clock : Int64} {labels : List Label} {s : State}
    (run : Run (Step jwt) (initial clock) labels s) : NeverAccepted jwt s ↔ ReadInTime jwt s := by
  have sound := (run_invariant run).verdicts
  constructor
  · intro never verdict listed claims signed revoked slips
    obtain ⟨accepted, result⟩ :=
      ((sound verdict listed).accepts_revoked signed revoked).mpr slips
    exact never verdict listed claims signed revoked accepted result
  · intro timely verdict listed claims signed revoked accepted result
    apply timely verdict listed claims signed revoked
    exact ((sound verdict listed).accepts_revoked signed revoked).mp ⟨accepted, result⟩

/-- A token revoked twice while nobody verifies it. -/
theorem neverAccepted_iff_unverified :
    let first : State := { initial 5 with
      revoked := revokeToken (initial 5).revoked (text "t1") 9
      revocations := [⟨text "t1", 9⟩] }
    let second : State := { first with
      revoked := revokeToken first.revoked (text "t1") 0
      revocations := [⟨text "t1", 0⟩, ⟨text "t1", 9⟩] }
    NeverAccepted ⟨fun _ => [], fun _ => none⟩ second ↔
      ReadInTime ⟨fun _ => [], fun _ => none⟩ second :=
  neverAccepted_iff ((Run.single (.revoke (initial 5) (text "t1") 9)).snoc (.revoke _ (text "t1") 0))

/-- Every token that has an id slips through once its expiry falls between the two readings. -/
theorem slips_run {jwt : Jwt} {token : Bytes} {claims : JwtClaims} {clock now : Int64}
    (signed : signedClaims jwt token = .returned (some claims)) (named : claims.jti ≠ [])
    (alive : ¬claims.exp ≤ clock) (later : clock ≤ now) (past : pruned now claims.exp = true) :
    ∃ labels s, Run (Step jwt) (initial clock) labels s ∧ ¬NeverAccepted jwt s := by
  let revoked := revokeToken (initial clock).revoked claims.jti claims.exp
  let made : List Revocation := [⟨claims.jti, claims.exp⟩]
  let started : State := ⟨clock, revoked, Function.update (fun _ => none) 0
    (some (.started token made)), made, []⟩
  let unexpired : State := { started with
    calls := Function.update started.calls 0 (some (.unexpired token made claims clock)) }
  let ticked : State := { unexpired with clock := now }
  have start : Run (Step jwt) (initial clock) [.revoke claims.jti claims.exp, .start 0 token] started :=
    (Run.single (.revoke _ claims.jti claims.exp)).snoc (.start token rfl)
  have check : started.checkExpiry jwt 0 token made = unexpired := by
    simp only [State.checkExpiry, signed]
    exact if_neg alive
  have expiry : Step jwt started (.expiry 0) unexpired := by
    rw [← check]
    exact .expiry rfl
  have tick : Step jwt unexpired (.tick now) ticked := .tick later
  have revocation : Step jwt ticked (.revocation 0) (ticked.checkRevoked 0 token made claims clock) :=
    .revocation rfl
  refine ⟨_, _, ((start.snoc expiry).snoc tick).snoc revocation, ?_⟩
  have passes : (checkRevocation revoked claims now).1 = true := by
    rw [checkRevocation_fst]
    right
    intro exp filed
    rw [← Option.some.inj ((revokeToken_self named _ _).symm.trans filed)]
    exact past
  have revokedBy : RevokedBy claims made := ⟨_, List.mem_singleton_self _, rfl, .inl rfl⟩
  intro never
  refine never _ (List.mem_singleton_self _) claims signed revokedBy claims ?_
  change Outcome.returned (if (checkRevocation revoked claims now).1 then some claims else none) = _
  rw [if_pos passes]

def userDraw : Vector UInt8 16 :=
  #v[0x00, 0x11, 0x22, 0x33, 0x44, 0x55, 0x66, 0x77, 0x88, 0x99, 0xaa, 0xbb, 0xcc, 0xdd, 0xee, 0xff]

def userClaims : JwtClaims where
  sub := text "u3"
  email := text "u3@test.com"
  iat := 1700000000
  exp := 1700000000 + tokenExpirySeconds
  jti := randomHex userDraw

def userPayload : Bytes := text ("\x7b\"email\":\"u3@test.com\",\"exp\":1700086400," ++
  "\"iat\":1700000000,\"jti\":\"00112233445566778899aabbccddeeff\",\"sub\":\"u3\"\x7d")

/-- The hash of the user's token under the secret `test-secret-key-revoke!!`, and the reader on
its payload. -/
def userJwt : Jwt where
  hmacSha256 _ :=
    [0xc1, 0x4e, 0x8d, 0xbd, 0x66, 0x5e, 0x1c, 0xa4, 0xf2, 0x54, 0xcf, 0x6a, 0xf8, 0x6d, 0x2c, 0x94,
      0xa2, 0x57, 0xa5, 0x5c, 0xc0, 0x03, 0xb2, 0x34, 0xf3, 0x1e, 0x31, 0xcb, 0xab, 0x42, 0x5d, 0x59]
  parse _ := some (payload userClaims)

/-- A user's token is revoked with its own expiry, one second before it; a verification begins
at once, and the clock moves on by two seconds between its readings. -/
theorem revoked_accepted : ∃ jwt clock labels s,
    Run (Step jwt) (initial clock) labels s ∧ ¬NeverAccepted jwt s := by
  obtain ⟨token, made⟩ : ∃ token, createToken userJwt (fun _ => some userPayload) userClaims.sub
      userClaims.email userClaims.iat (some userDraw) = .returned token := ⟨_, rfl⟩
  have signed : signedClaims userJwt token = .returned (some userClaims) :=
    signedClaims_createToken rfl rfl made
  obtain ⟨labels, s, run, accepted⟩ := @slips_run userJwt token userClaims 1700086399 1700086401
    signed (randomHex_ne_nil userDraw) (by decide) (by decide) (by decide)
  exact ⟨userJwt, 1700086399, labels, s, run, accepted⟩

end LogMonitor.TokenRevocation
