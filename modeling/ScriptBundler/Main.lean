import ScriptBundler.CommandLine

/-!
# The program

The outermost layer: it reads files and the environment, and writes what a run leaves behind.

Which files a run needs is known only while it runs.  A run starts with the settings files that
there are; when it ends for want of a file, that file is looked up, and the run is done again.
-/

namespace ScriptBundler
namespace Program

open Files

/-- The names of the variables that a run looks at. -/
def variableNames : List String :=
  ["HOME", "XDG_CONFIG_HOME", "ESROLL_EXPORTS", "ESROLL_FORMAT"]

/-- The environment of the program. -/
def environment : IO Environment := do
  let entries ← variableNames.mapM fun name => do
    pure ((← IO.getEnv name).map fun value => (name, value))
  pure (entries.filterMap id)

/-- What some bytes are. -/
def contentOf (bytes : ByteArray) : Content :=
  match String.fromUTF8? bytes with
  | some text => .text text.toList
  | none => .binary

/-- Looks up a file.  The disk stays as it is if there is none. -/
def lookUp (disk : Disk) (path : Path) : IO Disk :=
  try
    let bytes ← IO.FS.readBinFile path.text
    pure (disk.learn path (contentOf bytes))
  catch _ => pure disk

/-- Does a run, and looks up what it needs. -/
partial def attempt (disk : Disk) (environment : Environment) (words : List String)
    (asked : List Path) : IO (Disk × CommandLine.Result) := do
  let result := CommandLine.run disk environment words
  match result.fault.bind Fault.missingFile? with
  | none => pure (disk, result)
  | some path =>
    if asked.contains path then pure (disk, result)
    else attempt (← lookUp disk path) environment words (path :: asked)

/-- Writes a file of the disk. -/
def store (file : Place × Content) : IO Unit := do
  match file.2 with
  | .binary => pure ()
  | .text chars =>
    IO.FS.createDirAll ("/" ++ "/".intercalate file.1.dropLast)
    IO.FS.writeFile ("/" ++ "/".intercalate file.1) (String.ofList chars)

/-- Runs the program with the words of its command line. -/
def run (words : List String) : IO UInt32 := do
  let environment ← environment
  let directory : Path := ⟨(← IO.getEnv "PWD").getD "/"⟩
  let empty : Disk :=
    { workingDirectory := (directory.components.drop 1).map Component.text
      files := [], directories := [] }
  let disk ← (Settings.optionalFiles empty environment).foldlM lookUp empty
  let (before, result) ← attempt disk environment words []
  (result.disk.newFiles before).forM store
  (← IO.getStderr).putStr (result.reported.getD "The arguments make no sense\n")
  (← IO.getStdout).putStr (String.ofList result.printed)
  pure (UInt32.ofNat result.exitCode)

end Program
end ScriptBundler

/-- Runs the program. -/
def main (words : List String) : IO UInt32 :=
  ScriptBundler.Program.run words
