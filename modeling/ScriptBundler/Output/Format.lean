/-!
# Output formats

The kinds of modules that a bundle can be.
-/

namespace ScriptBundler

/-- The kind of module that a bundle is. -/
inductive OutputFormat where
  | commonJs
deriving Repr, DecidableEq

namespace OutputFormat

/-- The format as it is written by users. -/
def text : OutputFormat → String
  | commonJs => "cjs"

/-- All formats. -/
def all : List OutputFormat :=
  [commonJs]

end OutputFormat

end ScriptBundler
