import ScriptBundler.Text.Bytes
import ScriptBundler.Text.HiddenCharacters

/-!
# The log

What a build reports about its steps.  The parts of the program collect entries; how many of them
are shown depends on how talkative the user wants it to be.
-/

namespace ScriptBundler
namespace Log

/-- How important an entry is. -/
inductive Level where
  | error
  | info
  | debug
  | trace
deriving Repr, DecidableEq

/-- The position of a level, the most important one first. -/
def Level.rank : Level → Nat
  | error => 0
  | info => 2
  | debug => 3
  | trace => 4

/-- The level as entries show it, in five columns. -/
def Level.label : Level → String
  | error => "ERROR"
  | info => "INFO "
  | debug => "DEBUG"
  | trace => "TRACE"

/-- The part of the program that reports. -/
inductive Topic where
  | program
  | settings
  | bundle
  | graph
  | resolver
  | module
  | analysis
  | expansion
  | naming
  | assembly
  | wrapper
deriving Repr, DecidableEq

/-- The name under which a part reports. -/
def Topic.label : Topic → String
  | program => "esroll"
  | settings => "esroll::config"
  | bundle => "esroll::bundle"
  | graph => "esroll::graph"
  | resolver => "esroll::resolver"
  | module => "esroll::module"
  | analysis => "esroll::analyzer"
  | expansion => "esroll::expand"
  | naming => "esroll::deconflict"
  | assembly => "esroll::generate"
  | wrapper => "esroll::finalisers::cjs"

/-- One report. -/
structure Entry where
  level : Level
  topic : Topic
  message : String
deriving Repr, DecidableEq

/-- A message with its lines after the first one indented. -/
def indented (message : String) : String :=
  String.ofList (message.toList.flatMap fun c => if c == '\n' then "\n    ".toList else [c])

/-- A report as a line of text. -/
def Entry.line (entry : Entry) : String :=
  s!"[{entry.level.label} {entry.topic.label}] {indented entry.message}\n"

/-- The reports up to a rank as lines of text. -/
def render (rank : Nat) (entries : List Entry) : String :=
  String.join ((entries.filter fun entry => entry.level.rank ≤ rank).map Entry.line)

/-- What a text between quotes is. -/
inductive Quoting where
  | names
  | paths
deriving Repr, DecidableEq

/-- A character between quotes.  Only paths have their apostrophes escaped. -/
def quoteChar (quoting : Quoting) (c : Char) : List Char :=
  match c with
  | '\x22' => ['\\', '\x22']
  | '\\' => ['\\', '\\']
  | '\n' => ['\\', 'n']
  | '\r' => ['\\', 'r']
  | '\t' => ['\\', 't']
  | '\x00' => ['\\', '0']
  | '\x27' => if quoting = .paths then ['\\', '\x27'] else ['\x27']
  | c =>
    if Text.isShown c then [c] else ['\\', 'u', '{'] ++ Nat.toDigits 16 c.toNat ++ ['}']

/-- A text between quotes. -/
def quoteAs (quoting : Quoting) (text : String) : String :=
  String.ofList (['\x22'] ++ text.toList.flatMap (quoteChar quoting) ++ ['\x22'])

/-- A name between quotes. -/
def quote (text : String) : String :=
  quoteAs .names text

/-- A path between quotes. -/
def quotePath (text : String) : String :=
  quoteAs .paths text

/-- A set of names in braces. -/
def braced (names : List String) : String :=
  "\x7b" ++ ", ".intercalate (names.map quote) ++ "\x7d"

/-- A list of names in brackets. -/
def bracketed (names : List String) : String :=
  "[" ++ ", ".intercalate (names.map quote) ++ "]"

end Log
end ScriptBundler
