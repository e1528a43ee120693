import ScriptBundler.Text.CharacterClass

/-!
# Names made from other text

A module without a name of its own is called after its specifier or its file.  Such a name keeps
letters, digits, `_` and `$`; every other character becomes `_`, and so does a missing first
letter.
-/

namespace ScriptBundler
namespace Text

/-- Characters that a made-up name keeps. -/
def isNameChar (c : Char) : Bool :=
  isAlphanumeric c || c == '_' || c == '$'

/-- A name made from some text. -/
def madeName (text : String) : String :=
  let kept := text.toList.map fun c => if isNameChar c then c else '_'
  match kept with
  | [] => "_"
  | first :: _ => if first.isDigit then String.ofList ('_' :: kept) else String.ofList kept

end Text
end ScriptBundler
