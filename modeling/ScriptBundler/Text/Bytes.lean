import ScriptBundler.Text.CharacterClass

/-!
# Byte offsets into text

Every position in a source is a 0-based offset in bytes of its UTF-8 encoding.  This file
measures and cuts a list of characters by such offsets and turns an offset into a line and a
column.  A cut at a character boundary loses nothing: the two parts put together are the text,
and they have the lengths asked for.
-/

namespace ScriptBundler
namespace Text

/-- The number of bytes of the UTF-8 encoding. -/
def byteLength : List Char → Nat
  | [] => 0
  | c :: rest => c.utf8Size + byteLength rest

/-- The text without its first `count` bytes. -/
def dropBytes : List Char → Nat → List Char
  | [], _ => []
  | c :: rest, count => if count = 0 then c :: rest else dropBytes rest (count - c.utf8Size)

/-- The first `count` bytes of the text. -/
def takeBytes : List Char → Nat → List Char
  | [], _ => []
  | c :: rest, count => if count = 0 then [] else c :: takeBytes rest (count - c.utf8Size)

/-- The bytes from `start` up to `stop`. -/
def slice (text : List Char) (start stop : Nat) : List Char :=
  takeBytes (dropBytes text start) (stop - start)

/-- The text without white space at its two ends. -/
def trim (text : List Char) : List Char :=
  ((text.dropWhile isBlank).reverse.dropWhile isBlank).reverse

/-- How often the character that ends a line occurs. -/
def newlines (text : List Char) : Nat :=
  text.count '\n'

/-- A line and a column, both counted from 1, the column in bytes. -/
structure Position where
  line : Nat
  column : Nat
deriving Repr, DecidableEq

/-- The line and column of an offset.  Only `\n` ends a line here. -/
def position (text : List Char) (offset : Nat) : Position :=
  let before := takeBytes text offset
  { line := newlines before + 1
    column := byteLength ((before.reverse.takeWhile (· ≠ '\n'))) + 1 }

@[simp] theorem byteLength_nil : byteLength [] = 0 := rfl

@[simp] theorem byteLength_cons (c : Char) (rest : List Char) :
    byteLength (c :: rest) = c.utf8Size + byteLength rest := rfl

theorem byteLength_append (left right : List Char) :
    byteLength (left ++ right) = byteLength left + byteLength right := by
  induction left with
  | nil => simp
  | cons c rest ih => simp [ih, Nat.add_assoc]

theorem byteLength_pos (c : Char) (rest : List Char) : 0 < byteLength (c :: rest) :=
  Nat.add_pos_left c.utf8Size_pos _

@[simp] theorem dropBytes_zero (text : List Char) : dropBytes text 0 = text := by
  cases text <;> simp [dropBytes]

@[simp] theorem takeBytes_zero (text : List Char) : takeBytes text 0 = [] := by
  cases text <;> simp [takeBytes]

theorem dropBytes_append (left right : List Char) :
    dropBytes (left ++ right) (byteLength left) = right := by
  induction left with
  | nil => simp
  | cons c rest ih =>
    have positive := c.utf8Size_pos
    have nonzero : ¬ (c.utf8Size + byteLength rest = 0) := by omega
    rw [List.cons_append, byteLength_cons, dropBytes, if_neg nonzero, Nat.add_sub_cancel_left, ih]

theorem takeBytes_append (left right : List Char) :
    takeBytes (left ++ right) (byteLength left) = left := by
  induction left with
  | nil => simp
  | cons c rest ih =>
    have positive := c.utf8Size_pos
    have nonzero : ¬ (c.utf8Size + byteLength rest = 0) := by omega
    rw [List.cons_append, byteLength_cons, takeBytes, if_neg nonzero, Nat.add_sub_cancel_left, ih]

theorem takeBytes_append_dropBytes (text : List Char) (count : Nat) :
    takeBytes text count ++ dropBytes text count = text := by
  induction text generalizing count with
  | nil => rfl
  | cons c rest ih => by_cases h : count = 0 <;> simp [takeBytes, dropBytes, h, ih]

/-- The middle part of a text, cut out by the offsets of its two ends. -/
theorem slice_append (left middle right : List Char) :
    slice (left ++ middle ++ right) (byteLength left) (byteLength left + byteLength middle) =
      middle := by
  rw [slice, List.append_assoc, dropBytes_append, Nat.add_sub_cancel_left, takeBytes_append]

end Text
end ScriptBundler
