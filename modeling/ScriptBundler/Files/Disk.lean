import ScriptBundler.Files.Path

/-!
# The disk

The files that a build can read and the directories around them.  A place on the disk is a list of
names from the root.  A path leads to a place step by step from the working directory, or from the
root; every step needs the directory it starts from, so that a path through a missing directory
leads nowhere, whatever follows.
-/

namespace ScriptBundler
namespace Files

/-- A directory or file, by the names that lead to it from the root. -/
abbrev Place := List String

/-- What a file holds. -/
inductive Content where
  | text (chars : List Char)
  /-- Bytes that are not text. -/
  | binary
deriving Repr, DecidableEq

/-- Why the disk refuses to do something. -/
inductive DiskFault where
  | notFound
  | isDirectory
  | notDirectory
  | occupied
  | notText
deriving Repr, DecidableEq

/-- The reason in words. -/
def DiskFault.message : DiskFault → String
  | notFound => "No such file or directory (os error 2)"
  | isDirectory => "Is a directory (os error 21)"
  | notDirectory => "Not a directory (os error 20)"
  | occupied => "File exists (os error 17)"
  | notText => "stream did not contain valid UTF-8"

/-- Files and directories. -/
structure Disk where
  /-- The working directory. -/
  workingDirectory : Place
  files : List (Place × Content)
  /-- Directories besides those that lead to a file or to the working directory. -/
  directories : List Place
deriving Repr, DecidableEq

namespace Disk

/-- What the file at a place holds. -/
def content? (disk : Disk) (place : Place) : Option Content :=
  disk.files.lookup place

/-- Whether there is a directory at a place. -/
def hasDirectory (disk : Disk) (place : Place) : Bool :=
  place.isPrefixOf disk.workingDirectory
    || disk.files.any (fun file => place.isPrefixOf file.1 && place != file.1)
    || disk.directories.any (place.isPrefixOf ·)

/-- The place after one step from a directory. -/
def step (disk : Disk) (place : Place) (piece : List Char) : Except DiskFault Place :=
  if (disk.content? place).isSome then .error .notDirectory
  else if !disk.hasDirectory place then .error .notFound
  else
    match piece with
    | [] | ['.'] => .ok place
    | ['.', '.'] => .ok place.dropLast
    | name => .ok (place ++ [String.ofList name])

/-- The place after some steps. -/
def follow (disk : Disk) (place : Place) : List (List Char) → Except DiskFault Place
  | [] => .ok place
  | piece :: rest =>
    match disk.step place piece with
    | .ok next => disk.follow next rest
    | .error fault => .error fault

/-- The place that the steps of a text start from, and the steps. -/
def route (disk : Disk) (text : List Char) : Place × List (List Char) :=
  match text with
  | '/' :: rest => ([], pieces rest)
  | text => (disk.workingDirectory, pieces text)

/-- The place that a path leads to, whether or not there is something. -/
def locate (disk : Disk) (path : Path) : Except DiskFault Place :=
  match path.text.toList with
  | [] => .error .notFound
  | text =>
    let (start, steps) := disk.route text
    disk.follow start steps

/-- The text of a file. -/
def read (disk : Disk) (path : Path) : Except DiskFault (List Char) :=
  match disk.locate path with
  | .error fault => .error fault
  | .ok place =>
    match disk.content? place with
    | some (.text chars) => .ok chars
    | some .binary => .error .notText
    | none => .error (if disk.hasDirectory place then .isDirectory else .notFound)

/-- Whether a path leads to a file. -/
def hasFile (disk : Disk) (path : Path) : Bool :=
  match disk.locate path with
  | .ok place => (disk.content? place).isSome
  | .error _ => false

/-- Whether a path leads to a directory. -/
def leadsToDirectory (disk : Disk) (path : Path) : Bool :=
  match disk.locate path with
  | .ok place => disk.hasDirectory place && (disk.content? place).isNone
  | .error _ => false

/-- The disk with a file at a place, in place of one that was there. -/
def put (disk : Disk) (place : Place) (content : Content) : Disk :=
  { disk with files := disk.files.filter (·.1 != place) ++ [(place, content)] }

/-- The places that some steps lead to, one after the other. -/
def passed (place : Place) : List (List Char) → List Place
  | [] => [place]
  | piece :: rest =>
    let next :=
      match pieceComponent piece with
      | none | some .root | some .current => place
      | some .parent => place.dropLast
      | some (.name name) => place ++ [name]
    place :: passed next rest

/-- The disk with a file that a path is known to lead to, and the directories on the way. -/
def learn (disk : Disk) (path : Path) (content : Content) : Disk :=
  let (start, steps) := disk.route path.text.toList
  match (passed start steps).reverse with
  | [] => disk
  | place :: before => ({ disk with directories := disk.directories ++ before }).put place content

/-- The files of a disk that another disk does not hold in this form. -/
def newFiles (disk before : Disk) : List (Place × Content) :=
  disk.files.filter fun file => !before.files.contains file

/-- Writes a text to a file.  The directory of the file has to exist, and a path that ends in a
slash means a directory. -/
def write (disk : Disk) (path : Path) (chars : List Char) : Except DiskFault Disk :=
  let (start, steps) := disk.route path.text.toList
  match steps.reverse.dropWhile (·.isEmpty) with
  | [] => .error (if path.text.isEmpty then .notFound else .isDirectory)
  | last :: before =>
    match disk.follow start before.reverse with
    | .error fault => .error fault
    | .ok directory =>
      match disk.step directory last with
      | .error fault => .error fault
      | .ok place =>
        let isOpen := steps.getLast? == some []
        if isOpen || (disk.hasDirectory place && (disk.content? place).isNone) then
          .error .isDirectory
        else .ok (disk.put place (.text chars))

/-- Makes one directory. -/
def makeDirectory (disk : Disk) (path : Path) : Except DiskFault Disk :=
  match disk.locate path with
  | .error fault => .error fault
  | .ok place =>
    if (disk.content? place).isSome || disk.hasDirectory place then .error .occupied
    else .ok { disk with directories := disk.directories ++ [place] }

/-- Makes a directory, given by its components in reverse, and the directories on the way to it
that are missing. -/
def makeDirectories (disk : Disk) : List Component → Except DiskFault Disk
  | [] => .ok disk
  | last :: before =>
    let path := Path.ofComponents (last :: before).reverse
    let attempt (disk : Disk) : Except DiskFault Disk :=
      match disk.makeDirectory path with
      | .ok disk => .ok disk
      | .error fault => if disk.leadsToDirectory path then .ok disk else .error fault
    match disk.makeDirectory path with
    | .error .notFound =>
      match disk.makeDirectories before with
      | .ok disk => attempt disk
      | .error fault => .error fault
    | _ => attempt disk

end Disk

end Files
end ScriptBundler
