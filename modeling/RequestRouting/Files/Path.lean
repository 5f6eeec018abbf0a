import RequestRouting.Text.Cut

/-!
# Paths

A path is a text whose parts are separated by slashes. Empty parts and parts that are a single dot
don't count, except for a dot at the beginning, so different texts can be the same path.
-/

namespace RequestRouting

namespace Path

/-- A component of a path. -/
inductive Component where
  | root
  | current
  | parent
  | normal (name : String)
  deriving DecidableEq, Repr

/-- The component a part of a path stands for, given whether it's the first one. -/
def Component.ofPart? (isFirst : Bool) (part : String) : Option Component :=
  if part.isEmpty then none
  else if part = "." then if isFirst then some .current else none
  else if part = ".." then some .parent
  else some (.normal part)

/-- The component of the first part and those of all others. -/
def relative : List String → List Component
  | [] => []
  | part :: rest =>
    (Component.ofPart? true part).toList ++ rest.filterMap (Component.ofPart? false)

/-- The components of a path. -/
def components (path : String) : List Component :=
  match Text.dropLead? "/" path with
  | some rest => .root :: (Text.pieces '/' rest).filterMap (Component.ofPart? false)
  | none => relative (Text.pieces '/' path)

/-- Whether a path starts at the root of the file system. -/
def isAbsolute (path : String) : Bool := Text.startsWith "/" path

/-- Whether there is a character in a path that no path can hold. -/
def hasZero (path : String) : Bool := path.toList.contains '\x00'

/-- Whether files can be looked up by a path: it must not hold the character zero, and must be
shorter than 4096 bytes. -/
def isUsable (path : String) : Bool := !hasZero path && path.utf8ByteSize < 4096

/-- Whether a name can be that of a file, which may have 255 bytes at most. -/
def isUsableName (name : String) : Bool := !hasZero name && name.utf8ByteSize ≤ 255

/-- The path followed by another one, which replaces it if it's absolute. -/
def join (path other : String) : String :=
  if isAbsolute other then other
  else if path.isEmpty || Text.endsWith "/" path then path ++ other
  else path ++ "/" ++ other

/-- The name of the last component. -/
def fileName? (path : String) : Option String :=
  match (components path).getLast? with
  | some (.normal name) => some name
  | _ => none

/-- Removes parts that don't count from the end, up to the first part. -/
def trimParts (parts : List String) : List String :=
  match parts with
  | [] => []
  | first :: rest =>
    first :: (rest.reverse.dropWhile fun part => part.isEmpty || part = ".").reverse

/-- The text of a relative path before its last component. -/
def parent (path : String) : String :=
  Text.join "/" (trimParts (trimParts (Text.pieces '/' path)).dropLast)

/-- The part of a file name after its last dot, unless that's its first character. -/
def extensionOf? (name : String) : Option String :=
  match Text.cutLast? '.' name with
  | some (before, after) => if before.isEmpty then none else some after
  | none => none

/-- The extension of the last component. -/
def extension? (path : String) : Option String := (fileName? path).bind extensionOf?

end Path

end RequestRouting
