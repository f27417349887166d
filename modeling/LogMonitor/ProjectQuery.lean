import LogMonitor.ProjectAccess
import LogMonitor.QueryAnswers
import LogMonitor.TenantResponses

/-!
A query of a project that names no app. The handler asks the store for the app
with the empty name, where the page that sends it means all of them.
-/

namespace LogMonitor

namespace Tsdb
open Library Library.ByteString

def Look.matching (look : Look) (level : Bytes) (lastNSeconds : Int) : List TsdbEntry :=
  look.tsdb.data.entries.flatMap fun entry =>
    entry.2.filter (matchesQuery (windowStart look.now lastNSeconds) level)

/-- Apart from the app with the empty name, no app has an entry that a query is about. -/
def Look.OnlyUnnamed (look : Look) (level : Bytes) (lastNSeconds : Int) : Prop :=
  ∀ app, app ≠ [] → ∀ e ∈ look.tsdb.vector app,
    ¬matchesQuery (windowStart look.now lastNSeconds) level e

theorem Look.perm_matching_iff (look : Look) (level : Bytes) (lastNSeconds : Int) :
    (look.tsdb.getLogs look.now [] level lastNSeconds).Perm (look.matching level lastNSeconds) ↔
      look.OnlyUnnamed level lastNSeconds := by
  let kept (vec : List TsdbEntry) : List TsdbEntry :=
    vec.filter (matchesQuery (windowStart look.now lastNSeconds) level)
  have found : look.tsdb.getLogs look.now [] level lastNSeconds =
      ((look.tsdb.data.lookup []).map kept).getD [] := by
    rw [getLogs_eq]
    cases look.tsdb.data.lookup [] <;> rfl
  rw [found]
  refine (Table.perm_lookup_iff look.tsdb.data [] kept).trans ?_
  constructor
  · intro none app named e inside
    unfold Store.vector at inside
    cases present : look.tsdb.data.lookup app with
    | none => simp [present] at inside
    | some vec =>
      rw [present] at inside
      exact List.filter_eq_nil_iff.mp (none app vec named present) e inside
  · intro none app vec named present
    apply List.filter_eq_nil_iff.mpr
    intro e inside
    apply none app named e
    unfold Store.vector
    rwa [present]

end Tsdb

namespace ProjectRoutes
open Library Library.ByteString AuthManager ProjectStore Tsdb

/-- An owner's query of a project, without an app, to a server with a tenant manager. -/
structure AsksForAll (cfg : Config) (request : Request) (claims : JwtClaims) (id : Bytes)
    (s : State) : Prop where
  route : request.route = .project id (.read .query)
  named : id ≠ []
  app : request.app = none
  carries : Carries cfg request claims
  unrevoked : s.revoked claims.jti = none
  stores : cfg.hasProjectStore = true ∧ cfg.hasTenantMgr = true
  own : ∃ p, findById s.tenantMgr.projectStore id = some p ∧ p.ownerId = claims.sub

/-- The inputs of a query's steps. The token has not expired at the first of them, and the fifth is
the look at the store. -/
structure QueryInputs (claims : JwtClaims) where
  first : Input
  second : Input
  third : Input
  fourth : Input
  look : Input
  last : Input
  alive : ¬claims.exp ≤ first.nowSec

def QueryInputs.toList {claims : JwtClaims} (inputs : QueryInputs claims) : List Input :=
  [inputs.first, inputs.second, inputs.third, inputs.fourth, inputs.look, inputs.last]

theorem entryJson_injective : Function.Injective entryJson := by
  intro first second same
  simp only [entryJson, Json.object.injEq, List.cons.injEq, Prod.mk.injEq, Json.string.injEq,
    Json.integer.injEq, true_and, and_true] at same
  obtain ⟨app, level, message, time⟩ := same
  obtain ⟨appName, level', message', timestampNs⟩ := first
  simp only at app level message time
  subst app level message
  rw [Int64.toInt_inj.mp time]

def Response.Lists (response : Response) (parse : Bytes → Option Json) (entries : List TsdbEntry) :
    Prop :=
  response.status = 200 ∧
    ∃ found : List TsdbEntry,
      parse response.body = some (.array (found.map entryJson)) ∧ found.Perm entries

theorem verifyOwnership_own {cfg : Config} (configured : cfg.hasProjectStore = true)
    {projectStore : ProjectStore.State} {id : Bytes} {claims : JwtClaims} {p : Project}
    (found : findById projectStore id = some p) (own : p.ownerId = claims.sub) :
    verifyOwnership cfg projectStore id claims = none := by
  simp [verifyOwnership, configured, found, own]

theorem serve_query {cfg : Config} {request : Request} {claims : JwtClaims} {id : Bytes} {s : State}
    (asks : AsksForAll cfg request claims id s) (inputs : QueryInputs claims) :
    serve cfg request inputs.toList s =
      some (sendJson cfg 200 (Look.queryToJson ⟨s.contents cfg.persisted id, inputs.look.nowNs⟩ []
        (request.level.getD []) request.lastSec)) := by
  obtain ⟨p, found, own⟩ := asks.own
  rw [QueryInputs.toList, serve_authenticated asks.carries inputs.alive asks.unrevoked]
  let checked : State := (finishAuth cfg s claims inputs.second.nowSec).1
  let opened : State := (openTsdb cfg checked id .query).1
  let look : Look := ⟨s.contents cfg.persisted id, inputs.look.nowNs⟩
  have third : handler cfg request (checked, .authenticated claims) inputs.third =
      .inl (checked, .owned claims id (.read .query)) := by
    have passed : verifyOwnership cfg checked.tenantMgr.projectStore id claims = none :=
      verifyOwnership_own asks.stores.1 found own
    simp only [handler, advance, asks.route, passed]
  have fourth : handler cfg request (checked, .owned claims id (.read .query)) inputs.fourth =
      .inl (opened, .looking id .query []) := by
    simp [handler, advance, operate, openTsdb, opened, TenantManager.getTsdb, asks.stores.2,
      asks.named]
  have fifth : handler cfg request (opened, .looking id .query []) inputs.look =
      .inl (opened, .looking id .query [look]) := by
    have contents : (opened.tenantMgr.tsdbMap id).getD (cfg.persisted id) =
        s.contents cfg.persisted id :=
      (openTsdb_keeps cfg checked id .query).contents id
    simp [handler, advance, Read.needed, contents, look]
  have sixth : handler cfg request (opened, .looking id .query [look]) inputs.last =
      .inr (Read.query.respond cfg request [look]) := by
    simp [handler, advance, Read.needed]
  simp only [Machine.answer, checked, third, fourth, fifth, sixth]
  simp [Read.respond, asks.app, look]

theorem sendJson_lists_iff {cfg : Config} {parse : Bytes → Option Json}
    (form : Json.TextForm cfg.dump parse) (listed entries : List TsdbEntry) :
    (sendJson cfg 200 (.array (listed.map entryJson))).Lists parse entries ↔
      (∀ e ∈ listed, e.Readable) ∧ listed.Perm entries := by
  rw [← entries_writable, ← form.strict]
  constructor
  · rintro ⟨ok, found, read, same⟩
    have dumped := sendJson_ok cfg rfl ok
    have listing := form.lossless _ _ (entries_tabular listed) dumped
    rw [read, Option.some.injEq, Json.array.injEq] at listing
    obtain rfl := List.map_injective_iff.mpr entryJson_injective listing
    exact ⟨by rw [dumped]; rfl, same⟩
  · rintro ⟨dumps, same⟩
    obtain ⟨bytes, dumped⟩ := Option.isSome_iff_exists.mp dumps
    unfold sendJson
    rw [dumped]
    exact ⟨rfl, listed, form.lossless _ _ (entries_tabular listed) dumped, same⟩

/-- A query that names no app is answered with what it is about in all apps if and only if only
the app with the empty name has any of it, and that is UTF-8. -/
theorem query_lists_iff {cfg : Config} {parse : Bytes → Option Json}
    (form : Json.TextForm cfg.dump parse) {request : Request} {claims : JwtClaims} {id : Bytes}
    {s : State} (asks : AsksForAll cfg request claims id s) (inputs : QueryInputs claims) :
    let look : Look := ⟨s.contents cfg.persisted id, inputs.look.nowNs⟩
    let level := request.level.getD []
    (∃ response, serve cfg request inputs.toList s = some response ∧
      response.Lists parse (look.matching level request.lastSec)) ↔
      look.OnlyUnnamed level request.lastSec ∧ look.Readable [] level request.lastSec := by
  intro look level
  have answered := serve_query asks inputs
  have lists := sendJson_lists_iff form (look.tsdb.getLogs look.now [] level request.lastSec)
    (look.matching level request.lastSec)
  rw [look.perm_matching_iff, look.readable_iff, and_comm] at lists
  rw [← lists]
  constructor
  · rintro ⟨response, served, covers⟩
    obtain rfl := Option.some.inj (answered.symm.trans served)
    exact covers
  · intro covers
    exact ⟨_, answered, covers⟩

section Samples
open TokenRevocation

def logServer (dump : Json → Option Bytes) : Config := { userServer with dump := dump }

def loggedOnce (e : TsdbEntry) : State :=
  { userState with tenantMgr := ⟨userProjects, fun _ => some (Store.empty.insert e)⟩ }

def queryRequest : Request := userRequest (.project (text "p3") (.read .query))

theorem queryRequest_asks (dump : Json → Option Bytes) (e : TsdbEntry) :
    AsksForAll (logServer dump) queryRequest userClaims (text "p3") (loggedOnce e) where
  route := rfl
  named := by decide
  app := rfl
  carries := ⟨userJwt, userToken, rfl, rfl, userToken_signed⟩
  unrevoked := rfl
  stores := ⟨rfl, rfl⟩
  own := ⟨⟨text "p3", text "web", text "u3", text "k3", 0⟩, rfl, rfl⟩

def queryInputs : QueryInputs userClaims :=
  ⟨userInput, userInput, userInput, userInput, userInput, userInput, userClaims_alive⟩

def unnamedEntry : TsdbEntry := ⟨[], text "INFO", text "hello", 1700000000000000000⟩

def unnamedText : Bytes :=
  text "[\x7b\"app\":\"\",\"level\":\"INFO\",\"message\":\"hello\"," ++
    text "\"timestamp_ns\":1700000000000000000\x7d]"

theorem query_lists_iff_unnamed : ∃ dump parse, Json.TextForm dump parse ∧
    dump (.array [entryJson unnamedEntry]) = some unnamedText ∧
    ∃ response,
      serve (logServer dump) queryRequest queryInputs.toList (loggedOnce unnamedEntry) =
        some response ∧
      response.Lists parse ((Look.mk (Store.empty.insert unnamedEntry) 1700000000000000000).matching
        [] 3600) := by
  have readable : unnamedEntry.Readable := ⟨by decide, by decide, by decide⟩
  have writable : (Json.array [entryJson unnamedEntry]).Writable :=
    (entries_writable [unnamedEntry]).mpr fun e listed => List.mem_singleton.mp listed ▸ readable
  obtain ⟨dump, parse, form, written⟩ := Json.TextForm.exists_writing writable unnamedText
  refine ⟨dump, parse, form, written, ?_⟩
  apply (query_lists_iff form (queryRequest_asks dump unnamedEntry) queryInputs).mpr
  constructor
  · intro app named e inside
    change e ∈ (Store.empty.insert unnamedEntry).vector app at inside
    have other : app ≠ unnamedEntry.appName := named
    rw [insert_vector, if_neg other] at inside
    exact absurd inside List.not_mem_nil
  · have empty : Store.empty.Readable := nofun
    exact fun e inside _ => empty.insert readable [] e inside

def webEntry : TsdbEntry := ⟨text "web", text "ERROR", text "down", 1700000000000000000⟩

/-- An entry of an app is not in the answer for all apps. -/
theorem webEntry_unlisted : (∃ dump parse, Json.TextForm dump parse) ∧
    ∀ dump parse, Json.TextForm dump parse → ∀ response,
      serve (logServer dump) queryRequest queryInputs.toList (loggedOnce webEntry) =
        some response →
      ¬response.Lists parse
        ((Look.mk (Store.empty.insert webEntry) 1700000000000000000).matching [] 3600) := by
  obtain ⟨dump, parse, form, -⟩ := Json.TextForm.exists_writing (Json.writable_integer 0) []
  refine ⟨⟨dump, parse, form⟩, fun dump parse form response served lists => ?_⟩
  have answered := serve_query (queryRequest_asks dump webEntry) queryInputs
  obtain rfl := Option.some.inj (answered.symm.trans served)
  have all := ((sendJson_lists_iff form _ _).mp lists).2
  have only := (Look.perm_matching_iff _ _ _).mp all
  have inside : webEntry ∈ (Store.empty.insert webEntry).vector (text "web") := by
    have own : text "web" = webEntry.appName := rfl
    rw [insert_vector, if_pos own]
    exact List.mem_singleton_self _
  have recent : matchesQuery (windowStart 1700000000000000000 3600) [] webEntry := by decide
  exact only (text "web") (by decide) webEntry inside recent

end Samples

end ProjectRoutes

end LogMonitor
