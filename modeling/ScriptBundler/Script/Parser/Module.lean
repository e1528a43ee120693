import ScriptBundler.Script.Parser.Statement

/-!
# Modules

Import and export declarations, which stand only at the top level, and the parser of a whole
module.
-/

namespace ScriptBundler
namespace Script
namespace Parser

/-- Reads a module specifier and the end of the declaration. -/
def sourceText : Parser String := do
  requireToken
  match ← token with
  | .quoted value =>
    advance
    expectSemicolon
    pure value
  | _ => unexpected

/-- Reads a name of an import or export list. -/
def moduleName : Parser ModuleName := do
  requireToken
  match ← token with
  | .quoted value =>
    advance
    pure (.quoted value)
  | _ =>
    let id ← identifierName
    pure (.ident id)

/-- Reads a name of an import list. -/
def importName : Parser ImportSpecifier := do
  let start ← here
  let name ← moduleName
  if ← eatWord "as" then
    let id ← bindingIdentifier
    pure (.named (some name) id)
  else
    match name with
    | .ident id => if isReserved id.name then refuse start else pure (.named none id)
    | .quoted _ => refuse start

/-- Reads what an import declaration binds, after a default import with its comma. -/
def importNames : Parser (List ImportSpecifier) := do
  if ← eat "*" then
    expectWord "as"
    let id ← bindingIdentifier
    pure [.everything id]
  else if ← eat "\x7b" then
    let (names, _) ← commaList "\x7d" importName
    pure names
  else pure []

/-- Reads an import declaration. -/
def importDeclaration : Parser ItemForm := do
  advance
  requireToken
  match ← token with
  | .quoted value =>
    advance
    expectSemicolon
    pure (.importDecl [] value)
  | _ =>
    let byDefault ←
      match ← token with
      | .word _ _ =>
        let id ← bindingIdentifier
        pure [ImportSpecifier.byDefault id]
      | _ => pure []
    let more ← if byDefault.isEmpty then pure true else eat ","
    let names ← if more then importNames else pure []
    expectWord "from"
    let source ← sourceText
    pure (.importDecl (byDefault ++ names) source)

/-- Reads a name of an export list. -/
def exportName : Parser ExportSpecifier := do
  let name ← moduleName
  if ← eatWord "as" then
    let exported ← moduleName
    pure (.named name (some exported))
  else pure (.named name none)

/-- The words that cannot be exported from the module itself. -/
def unexportable : List String :=
  ["break", "case", "catch", "class", "const", "continue", "debugger", "default", "delete", "do",
   "else", "enum", "export", "extends", "false", "finally", "for", "function", "if", "import",
   "in", "instanceof", "new", "null", "package", "return", "super", "switch", "this", "throw",
   "true", "try", "typeof", "var", "void", "while", "with"]

/-- Notes a fault for a name that an export list without a source cannot name. -/
def checkOwnExport (start : Nat) (specifier : ExportSpecifier) : Parser Unit :=
  match specifier with
  | .named (.ident id) _ =>
    if unexportable.contains id.name then complain id.span.start else pure ()
  | .named (.quoted _) _ => complain start
  | .everything _ => pure ()

/-- Reads an export list, and its source if one is written. -/
def exportList : Parser ItemForm := do
  let (names, _) ← do
    expect "\x7b"
    commaList "\x7d" do
      let start ← here
      let name ← exportName
      pure (start, name)
  if ← eatWord "from" then
    let source ← sourceText
    pure (.exportList (names.map (·.2)) (some source))
  else
    names.forM fun name => checkOwnExport name.1 name.2
    discard (eat ";")
    pure (.exportList (names.map (·.2)) none)

/-- Reads `export *` after the star. -/
def exportEverything : Parser ItemForm := do
  if ← eatWord "as" then
    let name ← moduleName
    expectWord "from"
    let source ← sourceText
    pure (.exportList [.everything name] (some source))
  else
    expectWord "from"
    let source ← sourceText
    pure (.exportAll source)

/-- Whether an async function starts at the current token. -/
def atAsyncFunction : Parser Bool := do
  if ← isWord "async" then
    let next ← peek
    pure (next.token == .word "function" false && !next.afterNewline)
  else pure false

/-- Reads what a default export exports. -/
def exportDefault (g : Grammar) : Parser ItemForm := do
  let start ← here
  if ← isWord "class" then
    advance
    let name ← optionalName
    let (heritage, members) ← classRest g
    pure (.exportDefaultClass name heritage members (← spanFrom start))
  else
    let isAsync ← atAsyncFunction
    if isAsync then advance
    if isAsync || (← isWord "function") then
      let (name, body) ← functionHead g start isAsync optionalName
      pure (.exportDefaultFunction name body)
    else
      let value ← g.value
      expectSemicolon
      pure (.exportDefaultExpr value)

/-- Reads an export declaration. -/
def exportDeclaration (g : Grammar) : Parser ItemForm := do
  advance
  requireToken
  let start ← here
  if ← eat "*" then exportEverything
  else if ← eatWord "default" then exportDefault g
  else if ← isWord "class" then return .exportDecl (← classDeclaration g)
  else if ← isWord "function" then return .exportDecl (← functionDeclaration g start false)
  else if ← atAsyncFunction then
    advance
    return .exportDecl (← functionDeclaration g start true)
  else
    match ← token with
    | .word "var" _ => return .exportDecl (← variableDeclaration g .varKind false)
    | .word "let" _ => return .exportDecl (← variableDeclaration g .letKind false)
    | .word "const" _ => return .exportDecl (← variableDeclaration g .constKind false)
    | _ => exportList

/-- Reads a top-level statement. -/
def moduleItem (g : Grammar) : Parser Item := do
  let start ← here
  let form ←
    if ← isWord "import" then
      match (← peek).token with
      | .punctuator "(" | .punctuator "." =>
        let body ← g.statement true
        pure (.statement body)
      | _ => importDeclaration
    else if ← isWord "export" then exportDeclaration g
    else
      let body ← g.statement true
      pure (.statement body)
  settlePending start
  pure ⟨form, ← spanFrom start⟩

/-- Reads a module to its end. -/
def module (g : Grammar) : Parser (List Item) :=
  repeatUntil atEnd (moduleItem g)

end Parser

/-- The place of a syntax error. -/
structure SyntaxError where
  offset : Nat
deriving Repr, DecidableEq

/-- Parses a module.  A fault that stopped the parser wins over one that it noted, and of those
the first.  No code nests deeper than its source is long, and no list is longer. -/
def parse (source : List Char) : Except SyntaxError Tree :=
  let budget := source.length + 2
  let grammar := Parser.grammarOfDepth (4 * budget)
  match Parser.module grammar (.top budget) (.ofSource source) with
  | .error offset => .error ⟨offset⟩
  | .ok (items, state) =>
    match state.fault with
    | some offset => .error ⟨offset⟩
    | none => .ok ⟨items, state.comments.reverse⟩

end Script
end ScriptBundler
