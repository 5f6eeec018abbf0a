import RequestRouting.Error
import RequestRouting.Files.Path
import RequestRouting.Config.Units
import RequestRouting.Http.Date
import RequestRouting.Text.Utf8

/-!
# File trees

The files below a working directory, by location: the list of the names that lead to it. A path is
followed name by name, and every name but the last must be that of a folder, so a path that ends in
a slash only leads to folders.
-/

namespace RequestRouting

/-- A point in time, in nanoseconds since the beginning of 1970. -/
abbrev Time := Nat

namespace Time

/-- The number of nanoseconds of a second. -/
def second : Nat := 1000000000

/-- The number of nanoseconds of a millisecond. -/
def millisecond : Nat := 1000000

/-- Whether less than the given time span went by since a point in time. -/
def isWithin (since : Time) (span : Duration) (now : Time) : Bool := now - since < span * millisecond

/-- A point in time as it's written in header fields. -/
def text (t : Time) : String := (Date.ofSeconds (t / second)).text

end Time

/-- The names that lead to a file or folder. -/
abbrev Location := List String

/-- What is at a location. -/
inductive FileTree.Entry where
  | file (content : ByteArray) (modified : Time)
  | folder

/-- Entries are compared by their content, byte by byte, and the time they were modified at. -/
instance : DecidableEq FileTree.Entry
  | .file a t, .file b u =>
    decidable_of_decidable_of_iff (p := a.data = b.data ∧ t = u) (by simp [ByteArray.ext_iff])
  | .folder, .folder => isTrue rfl
  | .file _ _, .folder => isFalse (by simp)
  | .folder, .file _ _ => isFalse (by simp)

/-- The files and folders below the working directory. -/
structure FileTree where
  entries : List (Location × FileTree.Entry) := []

namespace FileTree

/-- What is at a location. The working directory itself is a folder. -/
def at? (t : FileTree) (location : Location) : Option Entry :=
  if location.isEmpty then some .folder
  else (t.entries.find? (·.1 = location)).map (·.2)

/-- Whether there is a folder at a location. -/
def hasFolder (t : FileTree) (location : Location) : Bool :=
  match t.at? location with
  | some .folder => true
  | _ => false

/-- Follows the parts of a path from a location on. -/
def follow (t : FileTree) (location : Location) : List String → Option Location
  | [] => some location
  | part :: rest =>
    if !t.hasFolder location then none
    else if part.isEmpty || part = "." then t.follow location rest
    else if part = ".." then t.follow location.dropLast rest
    else t.follow (location ++ [part]) rest

/-- The location a path leads to, if everything before its last part exists. Nothing is known of
what lies outside of the working directory. -/
def locate (t : FileTree) (path : String) : Option Location :=
  if path.isEmpty || Path.isAbsolute path || !Path.isUsable path then none
  else t.follow [] (Text.pieces '/' path)

/-- What a path leads to. -/
def find? (t : FileTree) (path : String) : Option Entry := (t.locate path).bind t.at?

/-- Whether a path leads to something. -/
def exists? (t : FileTree) (path : String) : Bool := (t.find? path).isSome

/-- Whether a path leads to a folder. -/
def isFolder (t : FileTree) (path : String) : Bool :=
  match t.find? path with
  | some .folder => true
  | _ => false

/-- Whether a path leads to a file. -/
def isFile (t : FileTree) (path : String) : Bool :=
  match t.find? path with
  | some (.file _ _) => true
  | _ => false

/-- The content of a file. -/
def content? (t : FileTree) (path : String) : Option ByteArray :=
  match t.find? path with
  | some (.file content _) => some content
  | _ => none

/-- The modification time of a file. -/
def modified? (t : FileTree) (path : String) : Option Time :=
  match t.find? path with
  | some (.file _ modified) => some modified
  | _ => none

/-- Why parts lead to nothing from a location on. A name that is too long only matters in a folder
that exists. -/
def lack (t : FileTree) (location : Location) : List String → FileError
  | [] => .notFound
  | part :: rest =>
    match t.at? location with
    | some .folder =>
      if part.isEmpty || part = "." then t.lack location rest
      else if part = ".." then t.lack location.dropLast rest
      else if !Path.isUsableName part then .invalidFilename
      else t.lack (location ++ [part]) rest
    | some (.file _ _) => .notADirectory
    | none => .notFound

/-- The error for a path that leads to nothing. -/
def absence (t : FileTree) (path : String) : FileError :=
  if Path.hasZero path then .zeroCharacter
  else if !Path.isUsable path then .invalidFilename
  else t.lack [] (Text.pieces '/' path)

/-- Reads a file. -/
def read (t : FileTree) (path : String) : Except FileError ByteArray :=
  match t.find? path with
  | some (.file content _) => .ok content
  | some .folder => .error .isADirectory
  | none => .error (t.absence path)

/-- Reads a file as text. -/
def readText (t : FileTree) (path : String) : Except FileError String := do
  match Text.Utf8.decode? (← t.read path).data.toList with
  | some text => .ok (.ofList text)
  | none => .error (.invalidData "stream did not contain valid UTF-8")

/-- The names in a folder, with what they stand for, in no particular order. -/
def children (t : FileTree) (location : Location) : List (String × Entry) :=
  t.entries.filterMap fun (l, entry) =>
    match l.getLast? with
    | some name => if l.dropLast = location then some (name, entry) else none
    | none => none

/-- The names in the folder a path leads to. -/
def list? (t : FileTree) (path : String) : Option (List (String × Entry)) :=
  match t.locate path with
  | some location => if t.hasFolder location then some (t.children location) else none
  | none => none

/-- Puts an entry at a location. -/
def put (t : FileTree) (location : Location) (entry : Entry) : FileTree :=
  ⟨t.entries.filter (·.1 ≠ location) ++ [(location, entry)]⟩

/-- Makes sure there is a folder at a location, unless a file is in its place. -/
def ensureFolder (t : FileTree) (location : Location) : Option FileTree :=
  match t.at? location with
  | some .folder => some t
  | some (.file _ _) => none
  | none => some (t.put location .folder)

/-- Follows a path from a location on, creating the folders that are missing. -/
def makeFolders (t : FileTree) (location : Location) :
    List Path.Component → Option (FileTree × Location)
  | [] => some (t, location)
  | .root :: _ => none
  | .current :: rest => t.makeFolders location rest
  | .parent :: rest => t.makeFolders location.dropLast rest
  | .normal name :: rest => do
    guard (Path.isUsableName name)
    let t ← t.ensureFolder (location ++ [name])
    t.makeFolders (location ++ [name]) rest

/-- Creates a folder, and the folders on the way to it. -/
def makeFolder (t : FileTree) (path : String) : Option FileTree :=
  (t.makeFolders [] (Path.components path)).map (·.1)

/-- Writes a file in a folder that exists. Fails if there is a folder in the place of the file, or if
the path doesn't end in a name or isn't relative. -/
def write (t : FileTree) (path : String) (content : ByteArray) (modified : Time) :
    Option FileTree := do
  let parts := Text.pieces '/' path
  let name ← parts.getLast?
  guard (!Path.isAbsolute path && Path.isUsable path && Path.isUsableName name)
  guard (!name.isEmpty && name ≠ "." && name ≠ "..")
  let folder ← t.follow [] parts.dropLast
  guard (t.hasFolder folder && !t.hasFolder (folder ++ [name]))
  some (t.put (folder ++ [name]) (.file content modified))

/-- Writes a file, creating the folders on the way to it, which stay if the file can't be written. -/
def create (t : FileTree) (path : String) (content : ByteArray) (modified : Time) : FileTree :=
  match t.makeFolder (Path.parent path) with
  | some t => (t.write path content modified).getD t
  | none => t

/-- Removes a file, or a folder with everything in it. -/
def remove (t : FileTree) (path : String) : FileTree :=
  match t.locate path with
  | some location => ⟨t.entries.filter fun (l, _) => !location.isPrefixOf l⟩
  | none => t

end FileTree

end RequestRouting
