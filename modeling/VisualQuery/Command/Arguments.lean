/-!
The arguments of the command. Options may stand before or behind operands; the settings file may
be named before the subcommand and behind it, where the latter counts. Whatever breaks the rules
is a usage error, and they are not told apart.
-/

namespace VisualQuery.Command

inductive Format where
  | sql
  | json
deriving DecidableEq, Repr

/-- The format of a name; capitals count. -/
def Format.ofName : String → Option Format
  | "sql" => some .sql
  | "json" => some .json
  | _ => none

inductive Subcommand where
  | compile
  | catalog
deriving DecidableEq, Repr

def Subcommand.ofName : String → Option Subcommand
  | "compile" => some .compile
  | "catalog" => some .catalog
  | _ => none

/-- The options, under whichever of their names. -/
inductive Flag where
  | config
  | format
  | totals
  | pretty
  | version
deriving DecidableEq, Repr

def Flag.ofLong : List Char → Option Flag
  | ['c', 'o', 'n', 'f', 'i', 'g'] => some .config
  | ['f', 'o', 'r', 'm', 'a', 't'] => some .format
  | ['t', 'o', 't', 'a', 'l', 's'] => some .totals
  | ['p', 'r', 'e', 't', 't', 'y'] => some .pretty
  | ['v', 'e', 'r', 's', 'i', 'o', 'n'] => some .version
  | _ => none

def Flag.ofShort : Char → Option Flag
  | 'c' => some .config
  | 'f' => some .format
  | 'V' => some .version
  | _ => none

def Flag.takesValue : Flag → Bool
  | .config | .format => true
  | .totals | .pretty | .version => false

def Subcommand.knows : Subcommand → Flag → Bool
  | _, .config => true
  | .compile, .format | .compile, .totals | .compile, .pretty => true
  | _, _ => false

inductive Argument where
  | operand (s : String)
  /-- An option, with the value attached to it if there is one. -/
  | option (flag : Flag) (attached : Option String)
  /-- Two dashes: everything behind them is an operand. -/
  | separator
  | unknown
deriving DecidableEq, Repr

/-- An option that is written as a word, with or without a value behind an equals sign. -/
def Argument.ofLong (s : List Char) : Argument :=
  match Flag.ofLong (s.takeWhile (· ≠ '=')) with
  | none => .unknown
  | some flag =>
    match s.dropWhile (· ≠ '=') with
    | [] => .option flag none
    | _ :: value => .option flag (some (String.ofList value))

/-- An option that is written as a letter, with or without a value right behind it. The version
is answered as soon as its letter is met. -/
def Argument.ofShort (letter : Char) (rest : List Char) : Argument :=
  match Flag.ofShort letter with
  | none => .unknown
  | some .version => .option .version none
  | some flag =>
    match rest with
    | [] => .option flag none
    | '=' :: value => .option flag (some (String.ofList value))
    | value => .option flag (some (String.ofList value))

/-- The form of an argument; a single dash is an operand. -/
def Argument.classify (s : String) : Argument :=
  match s.toList with
  | ['-', '-'] => .separator
  | '-' :: '-' :: name => ofLong name
  | '-' :: letter :: rest => ofShort letter rest
  | _ => .operand s

def isValue (s : String) : Bool :=
  match s.toList with
  | [] => false
  | ['-'] => true
  | '-' :: _ => false
  | _ => true

structure Given where
  config : Option String
  format : Option Format
  totals : Bool
  pretty : Bool
  file : Option String
deriving DecidableEq, Repr

namespace Given

def nothing : Given := ⟨none, none, false, false, none⟩

def setFile (g : Given) (s : String) : Option Given :=
  if g.file.isNone && s ≠ "" then some { g with file := some s } else none

/-- Takes the value of an option, which may be given once. -/
def setValue (g : Given) (flag : Flag) (value : String) : Option Given :=
  match flag with
  | .config =>
    if g.config.isNone && value ≠ "" then some { g with config := some value } else none
  | .format =>
    if g.format.isNone then do some { g with format := some (← Format.ofName value) } else none
  | .totals | .pretty | .version => none

/-- Takes an option without a value, which may be given once. -/
def raise (g : Given) (flag : Flag) : Option Given :=
  match flag with
  | .totals => if g.totals then none else some { g with totals := true }
  | .pretty => if g.pretty then none else some { g with pretty := true }
  | .config | .format | .version => none

end Given

def readGiven (sub : Subcommand) (g : Given) (operandsOnly : Bool) : List String → Option Given
  | [] => some g
  | arg :: rest =>
    match if operandsOnly then .operand arg else Argument.classify arg with
    | .operand s => do readGiven sub (← g.setFile s) operandsOnly rest
    | .separator => readGiven sub g true rest
    | .unknown => none
    | .option flag attached =>
      if !sub.knows flag then none
      else if flag.takesValue then
        match attached, rest with
        | some value, rest => do readGiven sub (← g.setValue flag value) false rest
        | none, value :: rest =>
          if isValue value then do readGiven sub (← g.setValue flag value) false rest else none
        | none, [] => none
      else match attached with
        | some _ => none
        | none => do readGiven sub (← g.raise flag) false rest

inductive Request where
  | version
  | compile (config : Option String) (file : String) (format : Format) (totals pretty : Bool)
  | catalog (config : Option String) (file : String)
deriving DecidableEq, Repr

def Request.ofGiven (sub : Subcommand) (outer : Option String) (g : Given) : Option Request := do
  let config := g.config.or outer
  let file ← g.file
  match sub with
  | .compile => some (.compile config file (g.format.getD .sql) g.totals g.pretty)
  | .catalog => some (.catalog config file)

/-- Reads all arguments; none is a usage error. -/
def Request.ofArguments (config : Option String) : List String → Option Request
  | [] => none
  | arg :: rest =>
    match Argument.classify arg with
    | .operand name => do
      let sub ← Subcommand.ofName name
      ofGiven sub config (← readGiven sub .nothing false rest)
    | .option .version none => some .version
    | .option .config (some value) =>
      if config.isNone && value ≠ "" then ofArguments (some value) rest else none
    | .option .config none =>
      match rest with
      | value :: rest =>
        if config.isNone && isValue value then ofArguments (some value) rest else none
      | [] => none
    | _ => none

end VisualQuery.Command
