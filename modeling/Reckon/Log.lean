import Reckon.Session

/-!
# The log

Log entries have a level and name the part of the program they come from. Those below the level
asked for are not shown.
-/

namespace Reckon

/-- How much an entry matters, or how much is to be shown. -/
inductive LogLevel where
  | everything
  | debug
  | info
  | warning
  | error
  | critical
deriving DecidableEq, Repr

namespace LogLevel

/-- The number that orders levels. -/
def rank : LogLevel → Nat
  | everything => 0
  | debug => 10
  | info => 20
  | warning => 30
  | error => 40
  | critical => 50

/-- The name of a level. -/
def name : LogLevel → String
  | everything => "NOTSET"
  | debug => "DEBUG"
  | info => "INFO"
  | warning => "WARNING"
  | error => "ERROR"
  | critical => "CRITICAL"

/-- Entries of level `entry` are among those shown at the level. -/
def shows (shown entry : LogLevel) : Bool := shown.rank ≤ entry.rank

/-- The limits of a session whose log is shown at the level. -/
def limits (shown : LogLevel) : Session.Limits := .usual (shown.shows debug)

/-- The level with a name or one of the two other names in use. -/
def ofName? (name : String) : Option LogLevel :=
  if name = "NOTSET" then some everything
  else if name = "DEBUG" then some debug
  else if name = "INFO" then some info
  else if name = "WARNING" || name = "WARN" then some warning
  else if name = "ERROR" then some error
  else if name = "CRITICAL" || name = "FATAL" then some critical
  else none

end LogLevel

/-- An entry of the log. -/
structure LogEntry where
  level : LogLevel
  origin : String
  message : String

namespace LogEntry

/-- The entry as a line. -/
def line (entry : LogEntry) : String :=
  entry.level.name ++ " " ++ entry.origin ++ ": " ++ entry.message ++ "\n"

/-- The lines of the entries that are shown at a level. -/
def render (shown : LogLevel) (entries : List LogEntry) : String :=
  String.join ((entries.filter fun entry => shown.shows entry.level).map line)

/-- The texts of some things between brackets. -/
def listText (items : List String) : String := "[" ++ String.intercalate ", " items ++ "]"

/-- The entry for a completed stage of a run. `depth` bounds the levels of the expressions in it. -/
def ofEvent? (depth : Nat) : Session.Event → Option LogEntry
  | .lexed tokens => some {
    level := .debug
    origin := "ember.reader.lexer"
    message := "lexed " ++ tokens.length.repr ++ " tokens: "
      ++ listText (tokens.map (·.lexeme.debug)) }
  | .parsed statements =>
    (statements.mapM (Expr.debug? depth)).map fun texts => {
      level := .debug
      origin := "ember.reader.parser"
      message := "parsed " ++ statements.length.repr ++ " statement(s): " ++ listText texts }
  | .evaluated scope => some {
    level := .debug
    origin := "ember.interpreter"
    message := "env after eval: " ++ scope.render }

/-- The entries for the stages of a run that was watched, or nothing if it was not. -/
def ofEvents (limits : Session.Limits) (events : List Session.Event) : List LogEntry :=
  match limits.showing with
  | none => []
  | some depth => events.filterMap (ofEvent? depth)

theorem isSome_mapM_debug? {depth : Nat} {statements : List Expr}
    (h : ∀ e ∈ statements, (e.debug? depth).isSome) :
    (statements.mapM (Expr.debug? depth)).isSome := by
  induction statements with
  | nil => rfl
  | cons e rest ih =>
    obtain ⟨he, hrest⟩ := List.forall_mem_cons.mp h
    obtain ⟨text, htext⟩ := Option.isSome_iff_exists.mp he
    obtain ⟨texts, htexts⟩ := Option.isSome_iff_exists.mp (ih hrest)
    simp [List.mapM_cons, htext, htexts]

/-- Whatever stages a watched run completes, they can be shown. -/
theorem isSome_ofEvent?_of_mem_events {limits : Session.Limits} {depth : Nat}
    (h : limits.showing = some depth) {source : String} {scope : Scope} :
    ∀ event ∈ (Session.run limits source scope).events, (ofEvent? depth event).isSome := by
  unfold Session.run
  split
  · simp
  split
  · simp [ofEvent?]
  split
  next statements _ hshown =>
    have htexts : (statements.mapM (Expr.debug? depth)).isSome := by
      refine isSome_mapM_debug? fun e he => ?_
      have hshows := List.all_eq_true.mp hshown e he
      simpa [Session.Limits.shows, h] using hshows
    split
    · simp [ofEvent?, htexts]
    · simp [ofEvent?, htexts]
  · simp [ofEvent?]

/-- So the log leaves none of them out. -/
theorem length_ofEvents {limits : Session.Limits} (h : limits.showing.isSome) (source : String)
    (scope : Scope) :
    (ofEvents limits (Session.run limits source scope).events).length =
      (Session.run limits source scope).events.length := by
  obtain ⟨depth, hdepth⟩ := Option.isSome_iff_exists.mp h
  rw [ofEvents, hdepth]
  exact List.filterMap_length_eq_length.mpr (isSome_ofEvent?_of_mem_events hdepth)

end LogEntry

end Reckon
