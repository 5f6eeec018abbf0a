import RequestRouting.Config.Descriptor
import RequestRouting.Documents.Executor

/-!
# Assets

An artifact is generated from sources by naming conventions. Where sources are joined, `all.js` is
made from all scripts of a directory, `all.min.js` is its minified form, and `name.min.js` the
minified form of `name.js`, and the same for style sheets. Where sources are compiled, `name.css` is
made from the source `name.less` in the dialect, and `name.min.css` is its minified form.

Artifacts are stored below the first of several roots, while sources are looked up in all of them,
the first root that has a source being the one that counts.
-/

namespace RequestRouting

namespace Pipeline

/-- The extension of sources. -/
def source : Pipeline → String
  | scripts => "js"
  | styles => "css"
  | less => "less"
  | zuss => "zuss"

/-- The extension of artifacts. -/
def artifact : Pipeline → String
  | scripts => "js"
  | styles | less | zuss => "css"

/-- Whether sources are compiled, and not just joined. -/
def isCompiled : Pipeline → Bool
  | scripts | styles => false
  | less | zuss => true

end Pipeline

/-- The generation of artifacts. -/
structure Assets where
  roots : List String
  pipeline : Pipeline
  compiler : Option Compiler := none
  minifier : Option Minifier := none
  /-- How long an artifact isn't checked again. -/
  validity : Duration := 0

/-- An artifact with its sources. -/
structure Assets.Plan where
  /-- The names that lead from the root to the artifact. -/
  name : List String
  artifact : String
  sources : List String
  minify : Bool

namespace Assets

/-- The names a path consists of, unless there's anything else in it. -/
def names? (path : String) : Option (List String) :=
  (Path.components path).mapM fun
    | .normal name => some name
    | _ => none

/-- The source with the given name in the first root that has it. -/
def find (a : Assets) (t : FileTree) (folder name : String) : List String :=
  ((a.roots.map fun root => Path.join (Path.join root folder) name).find? t.isFile).toList

/-- Whether a file is a source, and no artifact. -/
def isSource (extension file : String) : Bool :=
  Text.endsWith ("." ++ extension) file && !Text.startsWith "all." file &&
    !Text.contains ".min." file

/-- The sources in the folder of one root. -/
def sourcesIn (t : FileTree) (folder extension : String) : List (String × String) :=
  ((t.list? folder).getD []).filterMap fun (file, entry) =>
    match entry with
    | .file _ _ => if isSource extension file then some (file, Path.join folder file) else none
    | .folder => none

/-- All sources with the given extension in a folder, in the order of their names. -/
def unified (a : Assets) (t : FileTree) (folder extension : String) : List String :=
  let sources := a.roots.flatMap fun root => sourcesIn t (Path.join root folder) extension
  let chosen : Keyed String String := sources.foldl (fun m (file, path) => m.insertIfAbsent file path) {}
  chosen.entries.map (·.2)

/-- The sources of an artifact, given its name without extension and marker of minified artifacts. -/
def sources (a : Assets) (t : FileTree) (folder base extension : String) (minify : Bool) :
    List String :=
  if extension ≠ a.pipeline.artifact then []
  else if !a.pipeline.isCompiled && base = "all" then a.unified t folder a.pipeline.source
  else if a.pipeline.isCompiled || minify then a.find t folder (base ++ "." ++ a.pipeline.source)
  else []

/-- The artifact a path asks for, if there is one that has sources. -/
def plan? (a : Assets) (t : FileTree) (path : String) : Option Plan := do
  let relative := Text.trimLead (· = '/') path
  let name ← names? relative
  let file ← name.getLast?
  let (stem, extension) ← Text.cutLast? '.' file
  let (base, minify) := match Text.dropTail? ".min" stem with
    | some base => (base, true)
    | none => (stem, false)
  guard (!minify || a.minifier.isSome)
  let sources := a.sources t (Path.parent relative) base extension minify
  let root ← a.roots.head?
  guard !sources.isEmpty
  some { name, artifact := Path.join root relative, sources, minify }

/-- Whether a source is newer than the artifact, or the artifact is missing. -/
def isStale (t : FileTree) (plan : Plan) : Bool :=
  match t.modified? plan.artifact with
  | none => true
  | some artifact => plan.sources.any fun source =>
    match t.modified? source with
    | some modified => artifact < modified
    | none => true

/-- Adds a text to others, with a line feed at its end. -/
def append (content text : String) : String :=
  let content := content ++ text
  if Text.endsWith "\n" content then content else content ++ "\n"

/-- The content of an artifact, unless a source can't be read or compiled. -/
def content? (a : Assets) (t : FileTree) (plan : Plan) : Option String := do
  let content ← plan.sources.foldlM (fun content source => do
    let text ← (t.readText source).toOption
    let text ← match a.compiler with
      | some compile => compile text
      | none => some text
    some (append content text)) ""
  match plan.minify, a.minifier with
  | true, some minify => some (minify content)
  | _, _ => some content

/-- The files after generating an artifact. If it can't be written, there may be a new folder for
it nevertheless. -/
def generate (a : Assets) (t : FileTree) (now : Time) (plan : Plan) : FileTree :=
  match a.content? t plan with
  | some content => t.create plan.artifact content.toUTF8 now
  | none => t

/-- The times artifacts were checked at, by their names. -/
abbrev Checks := Keyed String Time

/-- The files after a request for a path, and the times artifacts were checked at. -/
def refresh (a : Assets) (t : FileTree) (now : Time) (checks : Checks) (path : String) :
    FileTree × Checks :=
  match a.plan? t path with
  | none => (t, checks)
  | some plan =>
    let key := Text.join "/" plan.name
    let isChecked := match checks.get? key with
      | some since => Time.isWithin since a.validity now
      | none => false
    if isChecked then (t, checks)
    else (if isStale t plan then a.generate t now plan else t, checks.insert key now)

end Assets

end RequestRouting
