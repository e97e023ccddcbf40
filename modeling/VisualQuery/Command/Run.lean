import VisualQuery.Command.Arguments
import VisualQuery.Document.Query
import VisualQuery.Settings.Loading
import VisualQuery.Statement.JsonText

/-!
What the command does: it loads the settings, reads a document, and prints its statement or its
catalog. Files are read through any source, so that a run is an ordinary value.
-/

namespace VisualQuery.Command

structure Outcome where
  code : Nat
  output : String
  errors : String
deriving DecidableEq, Repr

namespace Outcome

def success (output : String) : Outcome := ⟨0, output, ""⟩

/-- A failed run says why on one line. -/
def failure (message : String) : Outcome := ⟨1, "", message ++ "\n"⟩

/-- A usage error; its help text is not part of the outcome. -/
def usage : Outcome := ⟨2, "", ""⟩

/-- Puts lines in front of the errors. -/
def warned (warnings : List String) (o : Outcome) : Outcome :=
  { o with errors := String.join (warnings.map (· ++ "\n")) ++ o.errors }

end Outcome

def version : String := "querycanvas 0.1.0"

/-- The warnings about placed tables that the statement leaves out. -/
def warnings? (canvas : Canvas) : Option (List String) :=
  (canvas.unrelated.filterMap fun i => (canvas.placement i).toOption).mapM fun p => do
    let table ← canvas.catalog.fullName? p.table
    pure s!"Warning: table '{table}' (#{p.place}) has no relationships and is left out of FROM"

def columnLine (d : ColumnDescription) : String :=
  "    " ++ d.name ++ (if d.isPrimaryKey then " (pk)" else "")

def tableLines (d : TableDescription) : List String := ("  " ++ d.1) :: d.2.map columnLine

def schemaLines (d : SchemaDescription) : List String := d.1 :: d.2.flatMap tableLines

def printed (format : Format) (layout : Layout) (clauses : Clauses) : String :=
  match format with
  | .sql => clauses.sql layout ++ "\n"
  | .json => clauses.json ++ "\n"

def compileQuery? (format : Format) (layout : Layout) (q : Query) : Option Outcome := do
  match ← q.compile? with
  | .ok clauses => pure (.success (printed format layout clauses))
  | .error e => pure (.failure ("Compilation failed: " ++ e.message))

/-- Compiles a document: the warnings come before the statement. -/
def compileDocument? (settings : Settings) (format : Format) (totals pretty : Bool)
    (d : Document) : Option Outcome :=
  match d.ownCatalog with
  | .error e => some (.failure ("Error: " ++ e.message))
  | .ok catalog => do
    match ← d.load? catalog settings.defaults with
    | .error e => pure (.failure ("Error: " ++ e.message))
    | .ok q =>
      let layout := { settings.layout with pretty := pretty || settings.layout.pretty }
      let warnings ← warnings? q.canvas
      let outcome ← compileQuery? format layout { q with totals := totals || q.totals }
      pure (outcome.warned warnings)

/-- Lists the catalog of a document, of which nothing else is looked at. -/
def listCatalog (d : Document) : Outcome :=
  match d.ownCatalog with
  | .error e => .failure ("Error: " ++ e.message)
  | .ok catalog => .success (String.join ((catalog.described.flatMap schemaLines).map (· ++ "\n")))

variable {m : Type → Type} [Monad m]

def withDocument (read : FileSource m) (file : String) (go : Document → Option Outcome) :
    m (Option Outcome) := do
  match ← read file with
  | .error e => pure (some (.failure s!"Error reading file '{file}': {e.message}"))
  | .ok text =>
    match Document.ofText text with
    | .error fault =>
      pure (some (.failure ("Error: " ++ (DocumentError.unreadable fault).message)))
    | .ok d => pure (go d)

def withSettings (read : FileSource m) (environment config : Option String)
    (go : Settings → m (Option Outcome)) : m (Option Outcome) := do
  match ← Settings.load read (config.or environment) with
  | .error e => pure (some (.failure ("Error loading config: " ++ e.message)))
  | .ok settings => go settings

/-- Runs the command. There is no outcome if a look-up by number finds nothing. -/
def run (read : FileSource m) (environment : Option String) (arguments : List String) :
    m (Option Outcome) :=
  match Request.ofArguments none arguments with
  | none => pure (some .usage)
  | some .version => pure (some (.success (version ++ "\n")))
  | some (.compile config file format totals pretty) =>
    withSettings read environment config fun settings =>
      withDocument read file (compileDocument? settings format totals pretty)
  | some (.catalog config file) =>
    withSettings read environment config fun _ =>
      withDocument read file fun d => some (listCatalog d)

end VisualQuery.Command
