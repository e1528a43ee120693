import ScriptBundler.Text.CharacterRanges

/-!
# Character classes

The classes of characters that script text, trimming and made-up names are read by: white
space, line ends, letters and digits, and the characters an identifier may start with or
contain.
-/

namespace ScriptBundler
namespace Text

/-- Characters with the property `White_Space`: the ones that trimming strips. -/
def isBlank (c : Char) : Bool :=
  let code := c.toNat
  (9 ≤ code && code ≤ 13) || code == 32 || code == 0x85 || code == 0xA0 || code == 0x1680 ||
    (0x2000 ≤ code && code ≤ 0x200A) || code == 0x2028 || code == 0x2029 || code == 0x202F ||
    code == 0x205F || code == 0x3000

/-- Characters that end a line of a script. -/
def isLineEnd (c : Char) : Bool :=
  let code := c.toNat
  code == 10 || code == 13 || code == 0x2028 || code == 0x2029

/-- Characters that may stand between two tokens: white space and the byte order mark. -/
def isGap (c : Char) : Bool :=
  isBlank c || c.toNat == 0xFEFF

/-- Characters an identifier may start with. -/
def isIdentifierStart (c : Char) : Bool :=
  let code := c.toNat
  if code < 128 then c.isAlpha || c == '$' || c == '_' else inRanges identifierStart code

/-- Characters an identifier may contain. -/
def isIdentifierPart (c : Char) : Bool :=
  let code := c.toNat
  if code < 128 then c.isAlphanum || c == '$' || c == '_'
  else code == 0x200C || code == 0x200D || inRanges identifierStart code ||
    inRanges identifierExtra code

/-- Letters and digits of any script. -/
def isAlphanumeric (c : Char) : Bool :=
  if c.toNat < 128 then c.isAlphanum else inRanges alphanumeric c.toNat

theorem isGap_of_isBlank {c : Char} (h : isBlank c = true) : isGap c = true := by
  simp [isGap, h]

theorem isIdentifierPart_of_isIdentifierStart {c : Char} (h : isIdentifierStart c = true) :
    isIdentifierPart c = true := by
  simp only [isIdentifierStart, isIdentifierPart] at h ⊢
  split at h <;> rename_i small <;> simp only [small, if_true, if_false] at h ⊢
  · simp only [Bool.or_eq_true] at h ⊢
    rcases h with (h | h) | h <;> simp [h, Char.isAlphanum]
  · simp [h]

end Text
end ScriptBundler
