import VisualQuery.Files.Source
import VisualQuery.Settings.Reading

/-!
Loading settings. A file that is named has to be there; if none is named, a file of the working
directory is used if there is one, and the standard settings if not.
-/

namespace VisualQuery

inductive SettingsError where
  | fileNotFound (path : String)
  | unreadable (path : String) (cause : FileError)
  /-- The file is no sound document, or holds a number out of range. -/
  | unsound (path : String)
  /-- The document does not fit. -/
  | unfit (path : String) (fault : SettingsFault)
deriving DecidableEq, Repr

/-- The wording of an error. What is wrong inside a file is not said here. -/
def SettingsError.message : SettingsError → String
  | .fileNotFound path => "Config file not found: " ++ path
  | .unreadable path cause => s!"Cannot read {path}: {cause.message}"
  | .unsound path => "Invalid settings in " ++ path
  | .unfit path _ => "Invalid settings in " ++ path

namespace Settings

def environmentVariable : String := "QUERYCANVAS_CONFIG"

def localFile : String := "querycanvas.toml"

/-- The settings in the text of a file. A number that is out of range does no harm where nothing
asks for it, but is to blame as soon as anything does not fit. -/
def ofText (path text : String) : Except SettingsError Settings :=
  match Toml.document? text with
  | none => .error (.unsound path)
  | some members =>
    match ofMembers members with
    | .ok s => .ok s
    | .error fault =>
      if Toml.allMembers Toml.Scalar.isCommon members then .error (.unfit path fault)
      else .error (.unsound path)

def ofReading (path : String) : Except FileError String → Except SettingsError Settings
  | .ok text => ofText path text
  | .error .notFound => .error (.fileNotFound path)
  | .error cause => .error (.unreadable path cause)

def fromFile {m : Type → Type} [Monad m] (read : FileSource m) (path : String) :
    m (Except SettingsError Settings) := do
  pure (ofReading path (← read path))

def load {m : Type → Type} [Monad m] (read : FileSource m) (named : Option String) :
    m (Except SettingsError Settings) :=
  match named with
  | some path => fromFile read path
  | none => do
    match ← read localFile with
    | .ok text => pure (ofText localFile text)
    | .error cause =>
      pure (if cause.isAbsence then .ok standard else ofReading localFile (.error cause))

end Settings

end VisualQuery
