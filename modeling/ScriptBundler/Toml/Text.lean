import ScriptBundler.Toml.Value

/-!
# Texts, keys and comments of TOML documents

Scanners for the smallest parts of a document.  Each of them reads from the start of a text and
gives what it has read and the rest.  A text in quotes is read with a bound on the number of steps,
each of which takes at least one character.
-/

namespace ScriptBundler
namespace Toml

/-- Spaces and tabs. -/
def isSpace (c : Char) : Bool :=
  c == ' ' || c == '\t'

/-- Characters that may stand nowhere as they are. -/
def isControl (c : Char) : Bool :=
  (c.toNat < 32 && c != '\t') || c.toNat == 127

/-- The text after spaces and tabs. -/
def skipSpaces (text : List Char) : List Char :=
  text.dropWhile isSpace

/-- The text after the end of a line. -/
def newline? : List Char → Option (List Char)
  | '\n' :: rest => some rest
  | '\r' :: '\n' :: rest => some rest
  | _ => none

/-- The text from the end of the line on, after the rest of a comment. -/
def skipComment : List Char → Option (List Char)
  | [] => some []
  | '\n' :: rest => some ('\n' :: rest)
  | '\r' :: '\n' :: rest => some ('\r' :: '\n' :: rest)
  | c :: rest => if isControl c then none else skipComment rest

/-- The text after the end of a line on which nothing but a comment may follow. -/
def finishLine (text : List Char) : Option (List Char) :=
  match skipSpaces text with
  | [] => some []
  | '#' :: rest => do
    match ← skipComment rest with
    | [] => pure []
    | rest => newline? rest
  | rest => newline? rest

/-- The text after spaces, line ends and comments. -/
def skipLines : Nat → List Char → Option (List Char)
  | 0, _ => none
  | fuel + 1, text =>
    match skipSpaces text with
    | '#' :: rest => do
      let rest ← skipComment rest
      skipLines fuel rest
    | rest =>
      match newline? rest with
      | some rest => skipLines fuel rest
      | none => some rest

/-- The value of hexadecimal digits. -/
def hexNumber : List Char → Nat → Option Nat
  | [], value => some value
  | c :: rest, value =>
    if c.isDigit then hexNumber rest (value * 16 + (c.toNat - 48))
    else if 'a' ≤ c && c ≤ 'f' then hexNumber rest (value * 16 + (c.toNat - 87))
    else if 'A' ≤ c && c ≤ 'F' then hexNumber rest (value * 16 + (c.toNat - 55))
    else none

/-- The character that some hexadecimal digits stand for. -/
def readCode (digits : Nat) (text : List Char) : Option (Char × List Char) :=
  let code := text.take digits
  if code.length < digits then none
  else
    match hexNumber code 0 with
    | none => none
    | some value =>
      if value < 0xD800 || (0xDFFF < value && value < 0x110000) then
        some (Char.ofNat value, text.drop digits)
      else none

/-- The character that the text after a backslash stands for. -/
def readEscape : List Char → Option (Char × List Char)
  | 'b' :: rest => some ('\x08', rest)
  | 't' :: rest => some ('\t', rest)
  | 'n' :: rest => some ('\n', rest)
  | 'f' :: rest => some ('\x0c', rest)
  | 'r' :: rest => some ('\r', rest)
  | '\x22' :: rest => some ('\x22', rest)
  | '\\' :: rest => some ('\\', rest)
  | 'u' :: rest => readCode 4 rest
  | 'U' :: rest => readCode 8 rest
  | _ => none

/-- Puts characters in front of what has been read. -/
def after (chars : List Char) (scanned : Option (List Char × List Char)) :
    Option (List Char × List Char) :=
  scanned.map fun (read, rest) => (chars ++ read, rest)

/-- A text on one line in which backslashes are escapes, after its first quote. -/
def readBasic : Nat → List Char → Option (List Char × List Char)
  | 0, _ => none
  | fuel + 1, text =>
    match text with
    | [] => none
    | '\x22' :: rest => some ([], rest)
    | '\\' :: rest => do
      let (c, rest) ← readEscape rest
      after [c] (readBasic fuel rest)
    | c :: rest => if isControl c then none else after [c] (readBasic fuel rest)

/-- A text on one line that is taken as it is, after its first quote. -/
def readLiteral : List Char → Option (List Char × List Char)
  | [] => none
  | '\x27' :: rest => some ([], rest)
  | c :: rest => if isControl c then none else after [c] (readLiteral rest)

/-- The end of a text in three quotes.  Up to two quotes before it belong to the text. -/
def closing? (quote : Char) (text : List Char) : Option (List Char × List Char) :=
  let count := (text.takeWhile (· == quote)).length
  if count < 3 then none
  else
    let kept := min (count - 3) 2
    some (List.replicate kept quote, text.drop (kept + 3))

/-- The text after the blanks and line ends that follow a backslash at the end of a line. -/
def joinedLine? (text : List Char) : Option (List Char) :=
  match newline? (skipSpaces text) with
  | some rest => some (rest.dropWhile fun c => isSpace c || c == '\n' || c == '\r')
  | none => none

/-- A text on several lines in which backslashes are escapes, after its first three quotes. -/
def readLongBasic : Nat → List Char → Option (List Char × List Char)
  | 0, _ => none
  | fuel + 1, text =>
    match closing? '\x22' text with
    | some finished => some finished
    | none =>
      match newline? text with
      | some rest => after ['\n'] (readLongBasic fuel rest)
      | none =>
        match text with
        | [] => none
        | '\\' :: rest =>
          match joinedLine? rest with
          | some rest => readLongBasic fuel rest
          | none => do
            let (c, rest) ← readEscape rest
            after [c] (readLongBasic fuel rest)
        | c :: rest => if isControl c then none else after [c] (readLongBasic fuel rest)

/-- A text on several lines that is taken as it is, after its first three quotes. -/
def readLongLiteral : Nat → List Char → Option (List Char × List Char)
  | 0, _ => none
  | fuel + 1, text =>
    match closing? '\x27' text with
    | some finished => some finished
    | none =>
      match newline? text with
      | some rest => after ['\n'] (readLongLiteral fuel rest)
      | none =>
        match text with
        | [] => none
        | c :: rest => if isControl c then none else after [c] (readLongLiteral fuel rest)

/-- Drops a line end right after three quotes. -/
def dropFirstNewline (text : List Char) : List Char :=
  (newline? text).getD text

/-- What has been read, as text. -/
def asText (scanned : Option (List Char × List Char)) : Option (String × List Char) :=
  scanned.map fun (read, rest) => (String.ofList read, rest)

/-- A text in quotes on one line. -/
def readShort : List Char → Option (String × List Char)
  | '\x22' :: rest => asText (readBasic (rest.length + 1) rest)
  | '\x27' :: rest => asText (readLiteral rest)
  | _ => none

/-- A text in quotes of any kind. -/
def readText : List Char → Option (String × List Char)
  | '\x22' :: '\x22' :: '\x22' :: rest =>
    asText (readLongBasic (rest.length + 1) (dropFirstNewline rest))
  | '\x27' :: '\x27' :: '\x27' :: rest =>
    asText (readLongLiteral (rest.length + 1) (dropFirstNewline rest))
  | text => readShort text

/-- Characters of a key without quotes. -/
def isKeyChar (c : Char) : Bool :=
  c.isAlphanum || c == '_' || c == '-'

/-- One name of a key. -/
def readName (text : List Char) : Option (String × List Char) :=
  match text.takeWhile isKeyChar with
  | [] => readShort text
  | name => some (String.ofList name, text.dropWhile isKeyChar)

/-- A key: names with dots between them, and spaces around each of them. -/
def readKey : Nat → List Char → Option (KeyPath × List Char)
  | 0, _ => none
  | fuel + 1, text => do
    let (name, rest) ← readName (skipSpaces text)
    match skipSpaces rest with
    | '.' :: rest => do
      let (others, rest) ← readKey fuel rest
      pure (name :: others, rest)
    | rest => pure ([name], rest)

end Toml
end ScriptBundler
