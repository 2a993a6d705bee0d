import Ecma119.Text.Charset

/-!
# File identifiers, display names and paths

An identifier is recorded as `NAME.EXT;VERSION`. What is shown of it has no version and, on a plain
volume, no capital letters.

On interchange level 1, directory names have one to eight d-characters, file names eight of them, a dot
and three. The checks of both kinds of path go over the path once and count the characters since the last
separator.
-/

namespace Ecma119.Name

/-- The identifier without its version: the part from the last semicolon on, if only digits follow
it. A dot that then ends the name goes too, unless it is the whole name. -/
def stripVersionChars (name : List Char) : List Char :=
  let base :=
    match cutLast? ';' name with
    | some (before, version) => if version.all Char.isDigit then before else name
    | none => name
  match cutLast? '.' base with
  | some (stem, []) => if stem.isEmpty then base else stem
  | _ => base

/-- The identifier without its version, and without a dot that then is at its end. -/
def stripVersion (name : String) : String := String.ofList (stripVersionChars name.toList)

/-- The character that is shown for one of an identifier: a dot for a semicolon, and a small letter
unless the case is kept. -/
def displayChar (keepCase : Bool) (c : Char) : Char :=
  if c = ';' then '.' else if keepCase then c else c.toLower

/-- The name under which an identifier is shown: without its version, and in small letters unless the
case is kept. -/
def display (keepCase : Bool) (name : String) : String :=
  String.ofList ((stripVersionChars name.toList).map (displayChar keepCase))

/-- Whether two names are the same but for the case of ASCII letters. -/
def sameIgnoringCase (a b : String) : Bool :=
  a.toList.map Char.toLower = b.toList.map Char.toLower

/-- The identifier of a version of a file, behind the path of its directory. -/
def versioned (directory file : String) (version : UInt16) : String :=
  let parent := dropTrailing (· == '/') directory.toList
  let path := if parent.isEmpty then file else String.ofList parent ++ "/" ++ file
  path ++ ";" ++ toString version.toNat

def extension? (name : String) : Option String :=
  (cutLast? '.' name.toList).map fun (_, ext) => String.ofList ext

/-! ## Paths of interchange level 1 -/

def maxPathLength : Nat := 255

/-- Bytes of a path that are kept for a semicolon and a version of up to five digits. -/
def versionReserve : Nat := 6

/-- Checks the rest of a directory path after `run` characters of a component. -/
def directoryTailValid : (run : Nat) → List Char → Bool
  | run, [] => run ≠ 0
  | run, c :: rest =>
    if isDCharacter c.toNat then run < 8 && directoryTailValid (run + 1) rest
    else c = '/' && run ≠ 0 && directoryTailValid 0 rest

/-- Whether the characters are those of a directory path, their number apart. -/
def directoryCharsValid (path : List Char) : Bool :=
  match path with
  | [] => false
  | c :: _ => c ≠ '/' && c ≠ '.' && directoryTailValid 0 path

def directoryValid (path : String) : Bool :=
  path.utf8ByteSize ≤ maxPathLength && directoryCharsValid path.toList

/-- Checks the rest of a file name after `run` characters since its start or its dot. -/
def fileTailValid : (dotSeen : Bool) → (run : Nat) → List Char → Bool
  | dotSeen, _, [] => dotSeen
  | dotSeen, run, c :: rest =>
    if isDCharacter c.toNat then
      run < (if dotSeen then 3 else 8) && fileTailValid dotSeen (run + 1) rest
    else c = '.' && !dotSeen && run ≠ 0 && fileTailValid true 0 rest

/-- Whether the path is that of a file, with room left for a version. -/
def pathValid (path : String) : Bool :=
  match cutLast? '/' path.toList with
  | some (directory, file) =>
    directoryValid (String.ofList directory) && path.utf8ByteSize ≤ maxPathLength - versionReserve &&
      fileTailValid false 0 file
  | none => path.utf8ByteSize ≤ maxPathLength - versionReserve && fileTailValid false 0 path.toList

end Ecma119.Name
