import LogMonitor.Library.Json
import LogMonitor.Tsdb

/-!
The answers of the time-series store as JSON and as Prometheus text. A helper
takes the lock of the store anew for each of its queries, so what it answers is
put together from several looks at a store that may change in between.
-/

namespace LogMonitor.Tsdb
open Library Library.ByteString

/-- What a query finds: the store under its lock, and the clock. -/
structure Look where
  tsdb : Store
  now : Int

def entryJson (e : TsdbEntry) : Json := .object [
  (text "app", .string e.appName),
  (text "level", .string e.level),
  (text "message", .string e.message),
  (text "timestamp_ns", .integer e.timestampNs.toInt)]

def Look.queryToJson (look : Look) (app level : Bytes) (lastNSeconds : Int) : Json :=
  .array ((look.tsdb.getLogs look.now app level lastNSeconds).map entryJson)

def levels : List Bytes := [text "INFO", text "WARN", text "ERROR", text "CRITICAL"]

/-- The keys of the map of counts, in the order of `std::map`. -/
def Look.countedLevels (look : Look) (app : Bytes) (lastNSeconds : Int) : List Bytes :=
  let stored := (look.tsdb.getLogs look.now app [] lastNSeconds).map TsdbEntry.level
  (levels ++ stored).eraseDups.mergeSort fun a b => decide (a ≤ b)

def Look.statsToJson (look : Look) (app : Bytes) (lastNSeconds : Int) : Json :=
  let counts := look.tsdb.getCountsByLevel look.now app lastNSeconds
  .object [
    (text "app", .string app),
    (text "last_seconds", .integer lastNSeconds),
    (text "counts", .object ((look.countedLevels app lastNSeconds).map fun level =>
      (level, .integer ((counts level).getD 0))))]

/-- The window of the two helpers that take no argument, in seconds. -/
def defaultWindow : Int := 3600

/-- `apps_to_json`: a look for the list of apps and two for each app. -/
def appsToJson (look : Nat → Look) : Json :=
  .array ((look 0).tsdb.getApps.mapIdx fun i app => .object [
    (text "app", .string app),
    (text "last_seen_ns", .integer ((look (2 * i + 1)).tsdb.getLastSeen app).toInt),
    (text "total", .integer ((look (2 * i + 2)).tsdb.getCount (look (2 * i + 2)).now app []
      defaultWindow))])

def metricsHeader : Bytes :=
  text "# HELP log_count Total log entries ingested\n" ++ text "# TYPE log_count counter\n"

def metricsLine (app level : Bytes) (count : Nat) : Bytes :=
  text "log_count\x7bapp=\"" ++ app ++ text "\",level=\"" ++ level ++ text "\"\x7d " ++
    text (toString count) ++ text "\n"

/-- `metrics_to_prometheus`: a look for the list of apps and one for each app and level. -/
def metricsToPrometheus (look : Nat → Look) : Bytes :=
  metricsHeader ++ ((look 0).tsdb.getApps.mapIdx fun i app =>
    (levels.mapIdx fun j level =>
      let at_level := look (4 * i + j + 1)
      metricsLine app level (at_level.tsdb.getCount at_level.now app level defaultWindow)).flatten).flatten

end LogMonitor.Tsdb
