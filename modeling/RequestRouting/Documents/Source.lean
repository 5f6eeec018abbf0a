import RequestRouting.Files.Tree

/-!
# Documents

A source maps names, which are usually request paths, to documents below a root directory. A name
stands for a file of that name with any extension, or else for the default document in the
directory of that name, and files with the default extension are preferred over all others. A token
may be required in front of the extension. Lookups may be reused for a time span.
-/

namespace RequestRouting

/-- A document. -/
structure Document where
  name : String
  path : String
  /-- The extension, which says how the document is executed. -/
  extension : String
  modified : Option Time

/-- A source of documents. -/
structure DocumentSource where
  root : String
  /-- The token in front of the extension. -/
  token : Option String := none
  /-- The name of the document for directories. -/
  defaultName : String := "default"
  defaultExtension : String := "js"
  /-- How long lookups may be reused. -/
  validity : Duration := 0

namespace DocumentSource

/-- The text in front of the extension in the name of a file. -/
def lead (s : DocumentSource) (base : String) : String :=
  match s.token with
  | some token => base ++ "." ++ token ++ "."
  | none => base ++ "."

/-- The extension of a file that has the given lead, unless there's another dot in it. -/
def extensionAfter? (lead file : String) : Option String :=
  (Text.dropLead? lead file).filter fun ext => !ext.isEmpty && !ext.contains '.'

/-- The files in a directory that have the given lead, with their extensions, in the order of their
names. -/
def candidates (t : FileTree) (directory lead : String) : List (String × String) :=
  let found := ((t.list? directory).getD []).filterMap fun (file, _) =>
    (extensionAfter? lead file).bind fun ext =>
      if t.isFile (Path.join directory file) then some (file, ext) else none
  found.mergeSort fun a b => decide (a.1 ≤ b.1)

/-- The path and extension of the file with the given base name in a directory. -/
def findIn? (s : DocumentSource) (t : FileTree) (directory base : String) :
    Option (String × String) :=
  let lead := s.lead base
  let preferred := Path.join directory (lead ++ s.defaultExtension)
  if t.isFile preferred then some (preferred, s.defaultExtension)
  else (candidates t directory lead).head?.map fun (file, ext) => (Path.join directory file, ext)

/-- The directories to look into, with the base name to look for: the name as that of a file, and as
that of a directory. -/
def places (s : DocumentSource) (name : String) : List (String × String) :=
  ((Path.fileName? name).map fun base => (Path.join s.root (Path.parent name), base)).toList ++
    [(Path.join s.root name, s.defaultName)]

/-- The document with the given name, which must not lead out of the root. -/
def lookup (s : DocumentSource) (t : FileTree) (name : String) : Option Document :=
  let isName : Path.Component → Bool
    | .normal _ => true
    | _ => false
  if !(Path.components name).all isName then none
  else ((s.places name).findSome? fun (directory, base) => s.findIn? t directory base).map
    fun (path, extension) => { name, path, extension, modified := t.modified? path }

end DocumentSource

/-- Lookups that may be reused, each with the time it was made, and the number of lookups made. -/
structure DocumentSource.Cache where
  entries : Keyed String (Option Document × Time) := {}
  inserts : Nat := 0

namespace DocumentSource

/-- The number of lookups after which those that expired are forgotten. -/
def sweepInterval : Nat := 256

namespace Cache

/-- The outcome of a lookup that may still be reused. -/
def get? (c : Cache) (validity : Duration) (now : Time) (name : String) :
    Option (Option Document) :=
  match c.entries.get? name with
  | some (document, since) => if Time.isWithin since validity now then some document else none
  | none => none

/-- Forgets all lookups that expired. -/
def sweep (c : Cache) (validity : Duration) (now : Time) : Cache :=
  { c with entries := ⟨c.entries.entries.filter fun (_, _, since) =>
      Time.isWithin since validity now⟩ }

/-- Keeps the outcome of a lookup. -/
def put (c : Cache) (validity : Duration) (now : Time) (name : String) (d : Option Document) :
    Cache :=
  let c := { entries := c.entries.insert name (d, now), inserts := c.inserts + 1 }
  if c.inserts % sweepInterval = 0 then c.sweep validity now else c

end Cache

/-- Finds the document with the given name, slashes around it being left out, and yields the lookups
that may be reused afterwards. -/
def find (s : DocumentSource) (t : FileTree) (now : Time) (c : Cache) (name : String) :
    Option Document × Cache :=
  let name := Text.trim (· = '/') name
  if s.validity = 0 then (s.lookup t name, c)
  else match c.get? s.validity now name with
    | some document => (document, c)
    | none =>
      let document := s.lookup t name
      (document, c.put s.validity now name document)

end DocumentSource

end RequestRouting
