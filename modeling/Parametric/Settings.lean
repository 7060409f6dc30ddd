import Parametric.Json.Reader
import Parametric.Json.Record

/-!
# Settings

The limits of the engines. Every setting has a default, so a settings document names only what it
changes; settings that the engines cannot run with are refused.
-/

namespace Parametric

/-- Limits on evaluation. Times are in milliseconds. -/
structure EvaluationSettings where
  /-- Deepest nesting that evaluation enters. -/
  maxDepth : Nat := 50
  /-- Time that one evaluation may take. -/
  timeout : Nat := 5000
  /-- Life of a cached result. -/
  resultLife : Nat := 1000
  /-- Life of a cached answer about a container. -/
  queryLife : Nat := 5000
  /-- Entries that each cache holds. -/
  cacheCapacity : Nat := 1024
  /-- Errors that a formula remembers. -/
  maxErrors : Nat := 8
  /-- Children that a question about a container may visit. -/
  maxVisited : Nat := 10000
deriving DecidableEq, Repr

/-- Limits on the propagation of changes. -/
structure PropagationSettings where
  /-- Requests that one drain serves. -/
  maxServed : Nat := 10000
  /-- Recalculate the bounds of a container once a drain rather than at every change in it. -/
  coalesceBounds : Bool := true
deriving DecidableEq, Repr

/-- All settings. -/
structure Settings where
  evaluation : EvaluationSettings := {}
  propagation : PropagationSettings := {}
deriving DecidableEq, Repr

/-- A setting that the engines cannot run with. -/
inductive SettingsFault
  | noDepth
  | noTime
  | noService
deriving DecidableEq, Repr

def SettingsFault.message : SettingsFault → String
  | noDepth => "Invalid configuration: expression.max_recursion_depth must be at least 1"
  | noTime => "Invalid configuration: expression.evaluation_timeout_ms must be positive"
  | noService => "Invalid configuration: propagation.max_requests_per_drain must be at least 1"

/-- Why settings could not be taken from a file. -/
inductive SettingsError
  /-- The file could not be read. -/
  | unreadable
  /-- The text is no document of settings. -/
  | malformed
  | invalid (fault : SettingsFault)
deriving DecidableEq, Repr

/-- The greatest number of 32 bits. -/
def word32 : Nat := 0xFFFFFFFF

/-- The greatest number of 64 bits. -/
def word64 : Nat := 0xFFFFFFFFFFFFFFFF

/-- Evaluation settings from a document; those that it does not name are as in `d`. -/
def EvaluationSettings.ofJson? (d : EvaluationSettings) (j : Json) : Option EvaluationSettings := do
  let r ← Json.Record.ofJson? ["max_recursion_depth", "evaluation_timeout_ms", "eval_cache_ttl_ms",
    "derived_cache_ttl_ms", "cache_capacity", "max_error_history", "max_query_objects"] j
  return {
    maxDepth := ← r.withDefault? "max_recursion_depth" d.maxDepth (Json.natUpTo? word32)
    timeout := ← r.withDefault? "evaluation_timeout_ms" d.timeout (Json.natUpTo? word64)
    resultLife := ← r.withDefault? "eval_cache_ttl_ms" d.resultLife (Json.natUpTo? word64)
    queryLife := ← r.withDefault? "derived_cache_ttl_ms" d.queryLife (Json.natUpTo? word64)
    cacheCapacity := ← r.withDefault? "cache_capacity" d.cacheCapacity (Json.natUpTo? word64)
    maxErrors := ← r.withDefault? "max_error_history" d.maxErrors (Json.natUpTo? word64)
    maxVisited := ← r.withDefault? "max_query_objects" d.maxVisited (Json.natUpTo? word64) }

/-- Propagation settings from a document; those that it does not name are as in `d`. -/
def PropagationSettings.ofJson? (d : PropagationSettings) (j : Json) :
    Option PropagationSettings := do
  let r ← Json.Record.ofJson? ["max_requests_per_drain", "coalesce_bounds"] j
  return {
    maxServed := ← r.withDefault? "max_requests_per_drain" d.maxServed (Json.natUpTo? word64)
    coalesceBounds := ← r.withDefault? "coalesce_bounds" d.coalesceBounds Json.bool? }

namespace Settings

/-- Settings from a document; those that it does not name are as in `d`. -/
def ofJson? (d : Settings) (j : Json) : Option Settings := do
  let r ← Json.Record.ofJson? ["expression", "propagation"] j
  return {
    evaluation :=
      ← r.withDefault? "expression" d.evaluation (EvaluationSettings.ofJson? d.evaluation)
    propagation :=
      ← r.withDefault? "propagation" d.propagation (PropagationSettings.ofJson? d.propagation) }

/-- The first setting that the engines cannot run with. -/
def fault? (s : Settings) : Option SettingsFault :=
  if s.evaluation.maxDepth = 0 then some .noDepth
  else if s.evaluation.timeout = 0 then some .noTime
  else if s.propagation.maxServed = 0 then some .noService
  else none

def ofText (text : String) : Except SettingsError Settings :=
  match (Json.read? text).bind (ofJson? {}) with
  | none => .error .malformed
  | some s =>
    match s.fault? with
    | some f => .error (.invalid f)
    | none => .ok s

/-- Settings from the contents of a file, if it could be read. -/
def ofFile : Option String → Except SettingsError Settings
  | none => .error .unreadable
  | some text => ofText text

end Settings

end Parametric
