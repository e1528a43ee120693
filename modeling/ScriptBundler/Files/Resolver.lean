import ScriptBundler.Files.Path
import ScriptBundler.Log

/-!
# Module specifiers

A specifier that starts with a dot names a file relative to the directory of the module that
imports it; the file always ends in `.js`.  An absolute specifier is a path as it stands.  Every
other specifier names an external module.

A resolver remembers its answers by directory and specifier, so that each of them is reported to
the log once.
-/

namespace ScriptBundler
namespace Files

/-- What a specifier names. -/
inductive Resolution where
  | file (path : Path)
  | external
deriving Repr, DecidableEq

/-- The text with `.js` at its end exactly once. -/
def withExtension (specifier : String) : String :=
  let text := specifier.toList
  if [ '.', 'j', 's' ].isSuffixOf text then specifier else specifier ++ ".js"

/-- What a specifier names, seen from a directory. -/
def resolveFrom (directory : List Component) (specifier : String) : Resolution :=
  match specifier.toList.head? with
  | some '/' => .file ⟨specifier⟩
  | some '.' =>
    .file (.ofComponents (foldDots (directory ++ componentsOf (withExtension specifier).toList)))
  | _ => .external

/-- The directory that a module's relative specifiers start from. -/
def directoryOf (importer : Path) : List Component :=
  importer.parent?.getD []

/-- The resolution as the log shows it. -/
def Resolution.show : Resolution → String
  | file path => "Local(" ++ Log.quotePath path.text ++ ")"
  | external => "External"

/-- The answers that a resolver has given. -/
structure Resolver where
  answers : List ((List Component × String) × Resolution)
deriving Repr

/-- A resolver that has given no answer. -/
def Resolver.empty : Resolver :=
  ⟨[]⟩

/-- Resolves a specifier as a module imports it. -/
def Resolver.resolve (resolver : Resolver) (specifier : String) (importer : Path) :
    Resolver × Resolution × List Log.Entry :=
  let key := (directoryOf importer, specifier)
  match resolver.answers.lookup key with
  | some answer => (resolver, answer, [])
  | none =>
    let answer := resolveFrom key.1 specifier
    let notice :=
      if answer = .external then
        [⟨.debug, .resolver, s!"Treating '{specifier}' as an external module"⟩]
      else []
    let entry := ⟨.trace, .resolver,
      s!"Resolved '{specifier}' from {importer.text} to {answer.show}"⟩
    (⟨resolver.answers ++ [(key, answer)]⟩, answer, notice ++ [entry])

end Files
end ScriptBundler
