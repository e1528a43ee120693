import ScriptBundler.Settings.Load

/-!
# The command line

A run reads its arguments, loads the settings, puts those of the arguments over them, and writes
the bundle to a file or prints it.  Arguments that make no sense end the run before anything is
loaded.
-/

namespace ScriptBundler

open Files

/-- The options of the command line. -/
inductive Flag where
  | entry
  | output
  | stdout
  | exports
  | format
  | config
  | verbose
deriving Repr, DecidableEq

namespace Flag

/-- The option with a long name. -/
def ofLong? : String → Option Flag
  | "entry" => some entry
  | "output" => some output
  | "stdout" => some stdout
  | "exports" => some exports
  | "format" => some format
  | "config" => some config
  | "verbose" => some verbose
  | _ => none

/-- The option with a letter. -/
def ofLetter? : Char → Option Flag
  | 'e' => some entry
  | 'o' => some output
  | 'c' => some config
  | 'v' => some verbose
  | _ => none

/-- Whether an option has a value. -/
def hasValue : Flag → Bool
  | stdout | verbose => false
  | entry | output | exports | format | config => true

end Flag

/-- What the arguments ask for. -/
structure Arguments where
  /-- The settings that the arguments set. -/
  layer : Settings.Layer
  /-- Whether the bundle is printed, wherever else it should go. -/
  stdout : Bool
  config : Option Path
  verbosity : Nat
deriving Repr, DecidableEq

namespace Arguments

/-- No arguments. -/
def none : Arguments :=
  ⟨.empty, false, .none, 0⟩

/-- Sets a value that may be set only once. -/
def setOnce {α : Type} (old new : Option α) : Option (Option α) :=
  match old, new with
  | .none, some value => some (some value)
  | _, _ => .none

/-- The path that a value is; it is not empty. -/
def pathValue (value : String) : Option Path :=
  if value.isEmpty then .none else some ⟨value⟩

/-- An option without a value. -/
def raise (arguments : Arguments) (flag : Flag) : Option Arguments :=
  match flag with
  | .stdout => if arguments.stdout then .none else some { arguments with stdout := true }
  | .verbose => some { arguments with verbosity := arguments.verbosity + 1 }
  | _ => .none

/-- An option with a value.  None of them may be repeated. -/
def give (arguments : Arguments) (flag : Flag) (value : String) : Option Arguments :=
  let layer := arguments.layer
  match flag with
  | .entry => do
    let entry ← setOnce layer.entry (pathValue value)
    pure { arguments with layer := { layer with entry } }
  | .output => do
    let output ← setOnce layer.output (pathValue value)
    pure { arguments with layer := { layer with output } }
  | .exports => do
    let mode := Settings.choice? ExportMode.all ExportMode.text value
    let exports ← setOnce layer.exports mode
    pure { arguments with layer := { layer with exports } }
  | .format => do
    let format ← setOnce layer.format
      (Settings.choice? OutputFormat.all OutputFormat.text value)
    pure { arguments with layer := { layer with format } }
  | .config => do
    let config ← setOnce arguments.config (pathValue value)
    pure { arguments with config }
  | .stdout | .verbose => .none

/-- The arguments after a cluster of letters, and the option that still needs a value.  What
follows the letter of an option with a value is that value, after an equals sign if there is one. -/
def readLetters (arguments : Arguments) : List Char → Option (Arguments × Option Flag)
  | [] => some (arguments, .none)
  | letter :: rest => do
    let flag ← Flag.ofLetter? letter
    if flag.hasValue then
      match rest with
      | [] => pure (arguments, some flag)
      | '=' :: value => pure (← arguments.give flag (String.ofList value), .none)
      | value => pure (← arguments.give flag (String.ofList value), .none)
    else (← arguments.raise flag).readLetters rest

/-- The arguments after an option with a long name, and the option that still needs a value. -/
def readLong (arguments : Arguments) (text : List Char) : Option (Arguments × Option Flag) := do
  let flag ← Flag.ofLong? (String.ofList (text.takeWhile (· != '=')))
  match text.dropWhile (· != '=') with
  | [] =>
    if flag.hasValue then pure (arguments, some flag)
    else pure (← arguments.raise flag, .none)
  | _ :: value =>
    if flag.hasValue then pure (← arguments.give flag (String.ofList value), .none) else .none

/-- Reads the words of a command line.  `waiting` is the option that needs the next word as its
value; a word that looks like an option is no value. -/
def readWords (arguments : Arguments) (waiting : Option Flag) : List String → Option Arguments
  | [] => if waiting.isSome then .none else some arguments
  | word :: rest =>
    match word.toList, waiting with
    | ['-', '-'], .none => if rest.isEmpty then some arguments else .none
    | '-' :: '-' :: text, .none => do
      let (next, waiting) ← arguments.readLong text
      next.readWords waiting rest
    | '-' :: letter :: text, .none => do
      let (next, waiting) ← arguments.readLetters (letter :: text)
      next.readWords waiting rest
    | '-' :: _ :: _, some _ => .none
    | _, some flag => do
      let next ← arguments.give flag word
      next.readWords .none rest
    | _, .none => .none

/-- The arguments in the words of a command line, if they make sense. -/
def read (words : List String) : Option Arguments := do
  let arguments ← Arguments.none.readWords .none words
  if arguments.stdout && arguments.layer.output.isSome then .none else some arguments

/-- Settings with those of the arguments over them.  Printing takes the place of a file. -/
def applyTo (arguments : Arguments) (settings : Settings) : Settings :=
  let settings := settings.apply arguments.layer
  if arguments.stdout then { settings with output := .none } else settings

/-- How important entries must be to be shown. -/
def shownRank (arguments : Arguments) : Nat :=
  min (arguments.verbosity + 1) Log.Level.trace.rank

end Arguments

namespace CommandLine

/-- What a run leaves behind. -/
structure Result where
  exitCode : Nat
  printed : List Char
  /-- What is reported; nothing is known of it if the arguments make no sense. -/
  reported : Option String
  fault : Option Fault
  disk : Disk

/-- Builds a bundle as the settings say.  The result is the text to print, and the disk
afterwards. -/
def bundle (disk : Disk) (settings : Settings) : Reporting (List Char × Disk) := do
  Reporting.report [⟨.debug, .program, s!"Running with {settings.description}"⟩]
  match settings.entry with
  | none => throw .noEntry
  | some entry =>
    let bundle ← Bundle.build disk entry
    match settings.output with
    | some destination =>
      let disk ← bundle.write disk destination settings.exports
      pure ([], disk)
    | none =>
      let code ← bundle.generate settings.exports
      pure (code ++ ['\n'], disk)

/-- Does what the arguments ask for. -/
def perform (disk : Disk) (environment : Environment) (arguments : Arguments) :
    Reporting (List Char × Disk) := do
  let settings ← Settings.load disk environment arguments.config
  bundle disk (arguments.applyTo settings)

/-- Runs the program. -/
def run (disk : Disk) (environment : Environment) (words : List String) : Result :=
  match Arguments.read words with
  | none => { exitCode := 2, printed := [], reported := none, fault := none, disk }
  | some arguments =>
    let rank := arguments.shownRank
    match EStateM.run (perform disk environment arguments) [] with
    | .ok (printed, disk) log =>
      { exitCode := 0, printed, reported := some (Log.render rank log), fault := none, disk }
    | .error fault log =>
      let entries := log ++ [⟨.error, .program, fault.report⟩]
      { exitCode := 1, printed := [], reported := some (Log.render rank entries)
        fault := some fault, disk }

end CommandLine

end ScriptBundler
