import ScriptBundler.Script.Tree

/-!
# Tokens

The tokens of a script and the scanner that reads one of them.  A scanner works on a `Cursor`,
the text from some byte offset on, so that it can never look behind it.

Whether a `/` divides or opens a regular expression, and where a template continues after `}`,
is decided by the parser: it calls `scanRegExp` and `scanTemplate` at such a place.  A malformed
token is itself a token, `invalid`, so that the parser reports it when it gets there.
-/

namespace ScriptBundler
namespace Script

open Text

/-- The text that is still to be read, and the byte offset it starts at. -/
structure Cursor where
  rest : List Char
  offset : Nat

/-- A token. -/
inductive Token where
  /-- An identifier or keyword, and whether it is written with an escape. -/
  | word (name : String) (escaped : Bool)
  | punctuator (text : String)
  | number
  /-- A string literal and its value. -/
  | quoted (value : String)
  /-- Text that is no token, with the offset of its fault. -/
  | invalid (offset : Nat)
  | finish
deriving Repr, DecidableEq, Inhabited

/-- A token at its place: its extent, the text from its first character on, the text after it,
and what stands between it and the token before. -/
structure Lexeme where
  token : Token
  span : Span
  /-- Whether a line ends between this token and the one before; true for the first token. -/
  afterNewline : Bool
  start : List Char
  rest : List Char
  /-- Comments skipped before the token, in source order. -/
  comments : List Comment
  /-- The offset of the first comment in the style of markup, which a module may not contain. -/
  legacyComment : Option Nat

/-- The value of a hexadecimal digit. -/
def hexValue (c : Char) : Option Nat :=
  if '0' ≤ c && c ≤ '9' then some (c.toNat - '0'.toNat)
  else if 'a' ≤ c && c ≤ 'f' then some (c.toNat - 'a'.toNat + 10)
  else if 'A' ≤ c && c ≤ 'F' then some (c.toNat - 'A'.toNat + 10)
  else none

/-- The value of a digit in a base up to 16. -/
def digitValue (base : Nat) (c : Char) : Option Nat :=
  match hexValue c with
  | some value => if value < base then some value else none
  | none => none

/-- The value of four hexadecimal digits. -/
def hexValue4 (a b c d : Char) : Option Nat := do
  let a ← hexValue a
  let b ← hexValue b
  let c ← hexValue c
  let d ← hexValue d
  pure (((a * 16 + b) * 16 + c) * 16 + d)

/-! ## Gaps -/

/-- What the scanner of gaps is inside of. -/
inductive Gap where
  | between
  | line (start : Nat) (legacy : Bool)
  | block (start : Nat)

/-- What a scanned gap holds, the comments in reverse order. -/
structure Skipped where
  cursor : Cursor
  newline : Bool
  comments : List Comment
  legacyComment : Option Nat
  /-- The start of a block comment that is never closed. -/
  unclosed : Option Nat

/-- Skips white space and comments. -/
def skipGap (gap : Gap) (text : List Char) (offset : Nat) (newline : Bool)
    (comments : List Comment) (legacy : Option Nat) : Skipped :=
  match gap, text with
  | .between, '/' :: '/' :: rest =>
    skipGap (.line offset false) rest (offset + 2) newline comments legacy
  | .between, '/' :: '*' :: rest =>
    skipGap (.block offset) rest (offset + 2) newline comments legacy
  | .between, '<' :: '!' :: '-' :: '-' :: rest =>
    skipGap (.line offset true) rest (offset + 4) newline comments (legacy.or (some offset))
  | .between, '-' :: '-' :: '>' :: rest =>
    if newline then
      skipGap (.line offset true) rest (offset + 3) newline comments (legacy.or (some offset))
    else ⟨⟨'-' :: '-' :: '>' :: rest, offset⟩, newline, comments, legacy, none⟩
  | .between, c :: rest =>
    if isGap c then
      skipGap .between rest (offset + c.utf8Size) (newline || isLineEnd c) comments legacy
    else ⟨⟨c :: rest, offset⟩, newline, comments, legacy, none⟩
  | .line start markup, c :: rest =>
    if isLineEnd c then
      skipGap .between rest (offset + c.utf8Size) true
        (if markup then comments else ⟨false, ⟨start, offset⟩⟩ :: comments) legacy
    else skipGap (.line start markup) rest (offset + c.utf8Size) newline comments legacy
  | .block start, '*' :: '/' :: rest =>
    skipGap .between rest (offset + 2) newline (⟨true, ⟨start, offset + 2⟩⟩ :: comments) legacy
  | .block start, c :: rest =>
    skipGap (.block start) rest (offset + c.utf8Size) (newline || isLineEnd c) comments legacy
  | .between, [] => ⟨⟨[], offset⟩, newline, comments, legacy, none⟩
  | .line start markup, [] =>
    ⟨⟨[], offset⟩, newline,
      if markup then comments else ⟨false, ⟨start, offset⟩⟩ :: comments, legacy, none⟩
  | .block start, [] => ⟨⟨[], offset⟩, newline, comments, legacy, some start⟩

/-! ## Words -/

/-- A character that an escape denotes, if it may stand in a word at this place. -/
def wordChar (code : Nat) (first : Bool) : Option Char :=
  let c := Char.ofNat code
  if (if first then isIdentifierStart c else isIdentifierPart c) then some c else none

/-- Reads an identifier or keyword.  `braces` holds the value so far of an escape in braces,
with the offset of that escape; `read` holds the characters so far in reverse order. -/
def scanWord (text : List Char) (offset : Nat) (braces : Option (Nat × Nat)) (read : List Char)
    (escaped : Bool) : Token × Cursor :=
  match text with
  | [] =>
    match braces with
    | some (_, start) => (.invalid start, ⟨[], offset⟩)
    | none => (.word (String.ofList read.reverse) escaped, ⟨[], offset⟩)
  | c :: rest =>
    match braces with
    | some (value, start) =>
      if c == '}' then
        match wordChar value read.isEmpty with
        | some c => scanWord rest (offset + 1) none (c :: read) true
        | none => (.invalid start, ⟨rest, offset + 1⟩)
      else
        match hexValue c with
        | some digit => scanWord rest (offset + 1) (some (value * 16 + digit, start)) read true
        | none => (.invalid start, ⟨rest, offset + 1⟩)
    | none =>
      if c == '\\' then
        match rest with
        | 'u' :: '{' :: rest => scanWord rest (offset + 3) (some (0, offset)) read true
        | 'u' :: h1 :: h2 :: h3 :: h4 :: rest =>
          match (hexValue4 h1 h2 h3 h4).bind (wordChar · read.isEmpty) with
          | some c => scanWord rest (offset + 6) none (c :: read) true
          | none => (.invalid offset, ⟨rest, offset + 6⟩)
        | rest => (.invalid offset, ⟨rest, offset + 1⟩)
      else if isIdentifierPart c then
        scanWord rest (offset + c.utf8Size) none (c :: read) escaped
      else (.word (String.ofList read.reverse) escaped, ⟨c :: rest, offset⟩)

/-! ## Strings -/

/-- The character that a one-letter escape denotes. -/
def simpleEscape (c : Char) : Char :=
  match c with
  | 'n' => '\n'
  | 't' => '\t'
  | 'r' => '\r'
  | 'b' => '\x08'
  | 'f' => '\x0c'
  | 'v' => '\x0b'
  | c => c

/-- The characters that an escaped code point stands for; a surrogate keeps its spelling. -/
def escapedCode (code : Nat) (spelling : List Char) : List Char :=
  if code.isValidChar then [Char.ofNat code] else '\\' :: 'u' :: spelling

/-- Reads a string literal after its opening quote.  `braces` holds the value so far of an escape
in braces, with the offset of that escape; `read` holds the value so far in reverse order. -/
def scanString (quote : Char) (opening : Nat) (text : List Char) (offset : Nat)
    (braces : Option (Nat × Nat)) (read : List Char) : Token × Cursor :=
  match text with
  | [] => (.invalid opening, ⟨[], offset⟩)
  | c :: rest =>
    match braces with
    | some (value, start) =>
      if c == '}' then
        if value ≤ 0x10FFFF && start + 3 < offset then
          scanString quote opening rest (offset + 1) none
            ((escapedCode value ('{' :: (Nat.toDigits 16 value ++ ['}']))).reverse ++ read)
        else (.invalid start, ⟨rest, offset + 1⟩)
      else
        match hexValue c with
        | some digit =>
          scanString quote opening rest (offset + 1) (some (value * 16 + digit, start)) read
        | none => (.invalid start, ⟨rest, offset + 1⟩)
    | none =>
      if c == quote then (.quoted (String.ofList read.reverse), ⟨rest, offset + 1⟩)
      else if c == '\n' || c == '\r' then (.invalid opening, ⟨rest, offset + 1⟩)
      else if c == '\\' then
        match rest with
        | '\r' :: '\n' :: rest => scanString quote opening rest (offset + 3) none read
        | 'u' :: '{' :: rest => scanString quote opening rest (offset + 3) (some (0, offset)) read
        | 'u' :: h1 :: h2 :: h3 :: h4 :: rest =>
          match hexValue4 h1 h2 h3 h4 with
          | some code =>
            scanString quote opening rest (offset + 6) none
              ((escapedCode code [h1, h2, h3, h4]).reverse ++ read)
          | none => (.invalid offset, ⟨rest, offset + 6⟩)
        | 'x' :: h1 :: h2 :: rest =>
          match hexValue h1, hexValue h2 with
          | some a, some b =>
            scanString quote opening rest (offset + 4) none (Char.ofNat (a * 16 + b) :: read)
          | _, _ => (.invalid offset, ⟨rest, offset + 4⟩)
        | e :: rest =>
          if e == 'u' || e == 'x' then (.invalid offset, ⟨rest, offset + 2⟩)
          else if isLineEnd e then
            scanString quote opening rest (offset + 1 + e.utf8Size) none read
          else if '1' ≤ e && e ≤ '7' then (.invalid offset, ⟨rest, offset + 2⟩)
          else if e == '0' then
            match rest with
            | d :: _ =>
              if '0' ≤ d && d ≤ '7' then (.invalid offset, ⟨rest, offset + 2⟩)
              else scanString quote opening rest (offset + 2) none ('\x00' :: read)
            | [] => (.invalid opening, ⟨[], offset + 2⟩)
          else scanString quote opening rest (offset + 1 + e.utf8Size) none (simpleEscape e :: read)
        | [] => (.invalid opening, ⟨[], offset + 1⟩)
      else scanString quote opening rest (offset + c.utf8Size) none (c :: read)

/-! ## Templates -/

/-- Whether the text is `{`, some hexadecimal digits that denote a code point, and `}`. -/
def bracedCode (text : List Char) (value : Nat) (digits : Nat) : Bool :=
  match text with
  | [] => false
  | c :: rest =>
    if c == '}' then 0 < digits && value ≤ 0x10FFFF
    else
      match hexValue c with
      | some digit => bracedCode rest (value * 16 + digit) (digits + 1)
      | none => false

/-- Whether the text after a backslash is an escape that a template may contain. -/
def validEscape (text : List Char) : Bool :=
  match text with
  | 'u' :: '{' :: rest => bracedCode rest 0 0
  | 'u' :: h1 :: h2 :: h3 :: h4 :: _ => (hexValue4 h1 h2 h3 h4).isSome
  | 'x' :: h1 :: h2 :: _ => (hexValue h1).isSome && (hexValue h2).isSome
  | '0' :: d :: _ => !('0' ≤ d && d ≤ '7')
  | e :: _ => !(e == 'u' || e == 'x' || ('1' ≤ e && e ≤ '7'))
  | [] => false

/-- One stretch of template text. -/
structure TemplateChunk where
  /-- Whether the template ends here; otherwise a substitution follows. -/
  last : Bool
  /-- The offset of the first escape that only a tagged template may contain. -/
  badEscape : Option Nat
  cursor : Cursor

/-- Reads template text up to the closing quote or the next substitution. -/
def scanTemplate (text : List Char) (offset : Nat) (bad : Option Nat) : Option TemplateChunk :=
  match text with
  | [] => none
  | c :: rest =>
    if c == '\x60' then some ⟨true, bad, ⟨rest, offset + 1⟩⟩
    else if c == '\\' then
      match rest with
      | e :: rest' =>
        scanTemplate rest' (offset + 1 + e.utf8Size)
          (if validEscape rest then bad else bad.or (some offset))
      | [] => none
    else if c == '$' then
      match rest with
      | '{' :: rest => some ⟨false, bad, ⟨rest, offset + 2⟩⟩
      | rest => scanTemplate rest (offset + 1) bad
    else scanTemplate rest (offset + c.utf8Size) bad

/-! ## Regular expressions -/

/-- Reads the body of a regular expression after its opening slash. -/
def scanRegExpBody (text : List Char) (offset : Nat) (inClass : Bool) : Option Cursor :=
  match text with
  | [] => none
  | c :: rest =>
    if isLineEnd c then none
    else if c == '\\' then
      match rest with
      | e :: rest =>
        if isLineEnd e then none else scanRegExpBody rest (offset + 1 + e.utf8Size) inClass
      | [] => none
    else if c == '/' && !inClass then some ⟨rest, offset + 1⟩
    else scanRegExpBody rest (offset + c.utf8Size)
      (if c == '[' then true else if c == ']' then false else inClass)

/-- The flags that a regular expression may have, each at most once. -/
def validFlags (flags : List Char) : Bool :=
  flags.all (fun c => "dgimsuvy".toList.contains c) && flags.eraseDups.length == flags.length

/-- Reads a regular expression after its opening slash; the flag says whether its flags are
valid. -/
def scanRegExp (text : List Char) (offset : Nat) : Option (Bool × Cursor) := do
  let body ← scanRegExpBody text offset false
  let flags := body.rest.takeWhile isIdentifierPart
  let rest := body.rest.dropWhile isIdentifierPart
  pure (validFlags flags, ⟨rest, body.offset + byteLength flags⟩)

/-! ## Numbers -/

/-- Reads digits of a base with single separators between them.  `none` if a separator stands
elsewhere; `after` says that the character before was a digit. -/
def scanDigits (base : Nat) (text : List Char) (count : Nat) (after : Bool) :
    Option (Nat × List Char) :=
  match text with
  | [] => some (count, [])
  | c :: rest =>
    if c == '_' then
      match rest with
      | d :: _ =>
        if after && (digitValue base d).isSome then scanDigits base rest (count + 1) false else none
      | [] => none
    else if (digitValue base c).isSome then scanDigits base rest (count + 1) true
    else some (count, c :: rest)

/-- The end of a number: it may not run into a word. -/
def finishNumber (text : List Char) (offset : Nat) : Token × Cursor :=
  match text with
  | c :: _ =>
    if isIdentifierStart c then (.invalid offset, ⟨text, offset⟩) else (.number, ⟨text, offset⟩)
  | [] => (.number, ⟨[], offset⟩)

/-- Reads the exponent of a decimal number, if there is one. -/
def scanExponent (opening : Nat) (text : List Char) (offset : Nat) : Token × Cursor :=
  let digits (rest : List Char) (offset : Nat) : Token × Cursor :=
    match scanDigits 10 rest 0 false with
    | some (0, rest) => (.invalid opening, ⟨rest, offset⟩)
    | some (count, rest) => finishNumber rest (offset + count)
    | none => (.invalid opening, ⟨rest, offset⟩)
  match text with
  | e :: sign :: rest =>
    if e == 'e' || e == 'E' then
      if sign == '+' || sign == '-' then digits rest (offset + 2)
      else digits (sign :: rest) (offset + 1)
    else finishNumber text offset
  | ['e'] | ['E'] => (.invalid opening, ⟨[], offset + 1⟩)
  | text => finishNumber text offset

/-- Reads the digits after a decimal point, and the exponent. -/
def scanFraction (opening : Nat) (text : List Char) (offset : Nat) : Token × Cursor :=
  match scanDigits 10 text 0 false with
  | some (count, rest) => scanExponent opening rest (offset + count)
  | none => (.invalid opening, ⟨text, offset⟩)

/-- Reads an integer in a base other than ten, after its marker. -/
def scanInteger (base : Nat) (opening : Nat) (text : List Char) (offset : Nat) :
    Token × Cursor :=
  match scanDigits base text 0 false with
  | some (0, rest) => (.invalid opening, ⟨rest, offset⟩)
  | some (count, 'n' :: rest) => finishNumber rest (offset + count + 1)
  | some (count, rest) => finishNumber rest (offset + count)
  | none => (.invalid opening, ⟨text, offset⟩)

/-- Reads a number.  A leading zero before another digit is refused, as in all strict code. -/
def scanNumber (text : List Char) (offset : Nat) : Token × Cursor :=
  match text with
  | '0' :: marker :: rest =>
    if marker == 'x' || marker == 'X' then scanInteger 16 offset rest (offset + 2)
    else if marker == 'o' || marker == 'O' then scanInteger 8 offset rest (offset + 2)
    else if marker == 'b' || marker == 'B' then scanInteger 2 offset rest (offset + 2)
    else if marker.isDigit || marker == '_' then (.invalid offset, ⟨marker :: rest, offset + 1⟩)
    else if marker == 'n' then finishNumber rest (offset + 2)
    else if marker == '.' then scanFraction offset rest (offset + 2)
    else scanExponent offset (marker :: rest) (offset + 1)
  | '.' :: rest => scanFraction offset rest (offset + 1)
  | text =>
    match scanDigits 10 text 0 false with
    | some (count, 'n' :: rest) => finishNumber rest (offset + count + 1)
    | some (count, '.' :: rest) => scanFraction offset rest (offset + count + 1)
    | some (count, rest) => scanExponent offset rest (offset + count)
    | none => (.invalid offset, ⟨text, offset⟩)

/-! ## Tokens -/

/-- The punctuators, longer ones before their beginnings. -/
def punctuators : List (List Char) :=
  [">>>=", "...", "===", "!==", "**=", "<<=", ">>=", ">>>", "&&=", "||=", "??=",
   "=>", "==", "!=", "<=", ">=", "&&", "||", "??", "?.", "++", "--", "+=", "-=", "*=", "/=",
   "%=", "&=", "|=", "^=", "<<", ">>", "**", "\x7b", "\x7d", "(", ")", "[", "]", ";", ",", "<",
   ">", "+", "-", "*", "/", "%", "&", "|", "^", "!", "~", "?", ":", "=", ".", "@", "#",
   "\x60"].map String.toList

/-- Reads a punctuator: the longest that the text starts with.  `?.` before a digit is the `?`
of a conditional. -/
def scanPunctuator (text : List Char) (offset : Nat) : Token × Cursor :=
  match punctuators.find? (·.isPrefixOf text) with
  | some found =>
    match found, text with
    | ['?', '.'], _ :: _ :: d :: rest =>
      if d.isDigit then (.punctuator "?", ⟨'.' :: d :: rest, offset + 1⟩)
      else (.punctuator "?.", ⟨d :: rest, offset + 2⟩)
    | found, text =>
      (.punctuator (String.ofList found), ⟨text.drop found.length, offset + found.length⟩)
  | none => (.invalid offset, ⟨text.tail, offset⟩)

/-- Reads a token at its first character. -/
def scanToken (text : List Char) (offset : Nat) : Token × Cursor :=
  match text with
  | [] => (.finish, ⟨[], offset⟩)
  | c :: rest =>
    if isIdentifierStart c || c == '\\' then scanWord text offset none [] false
    else if c.isDigit then scanNumber text offset
    else if c == '\x22' || c == '\x27' then scanString c offset rest (offset + 1) none []
    else
      match text with
      | '.' :: d :: _ => if d.isDigit then scanNumber text offset else scanPunctuator text offset
      | text => scanPunctuator text offset

/-- The words that never name anything in a module. -/
def reservedWords : List String :=
  ["await", "break", "case", "catch", "class", "const", "continue", "debugger", "default",
   "delete", "do", "else", "enum", "export", "extends", "false", "finally", "for", "function",
   "if", "implements", "import", "in", "instanceof", "interface", "let", "new", "null", "package",
   "private", "protected", "public", "return", "super", "switch", "this", "throw", "true", "try",
   "typeof", "var", "void", "while", "with", "yield"]

/-- Whether a word is reserved in a module. -/
def isReserved (name : String) : Bool :=
  reservedWords.contains name

/-- Reads the next token after a cursor.  `first` says that nothing stands before it. -/
def nextLexeme (cursor : Cursor) (first : Bool) : Lexeme :=
  let gap := skipGap .between cursor.rest cursor.offset first [] none
  let start := gap.cursor
  let (token, finish) :=
    match gap.unclosed with
    | some opening => (Token.invalid opening, start)
    | none =>
      match scanToken start.rest start.offset with
      | (.word name true, finish) =>
        (if isReserved name then .invalid start.offset else .word name true, finish)
      | scanned => scanned
  { token
    span := ⟨start.offset, finish.offset⟩
    afterNewline := gap.newline
    start := start.rest
    rest := finish.rest
    comments := gap.comments.reverse
    legacyComment := gap.legacyComment }

/-- The cursor at the start of a source, behind a first line that starts with `#!`. -/
def Cursor.ofSource (source : List Char) : Cursor :=
  match source with
  | '#' :: '!' :: rest =>
    let line := rest.takeWhile fun c => !isLineEnd c
    ⟨rest.dropWhile fun c => !isLineEnd c, 2 + byteLength line⟩
  | source => ⟨source, 0⟩

end Script
end ScriptBundler
