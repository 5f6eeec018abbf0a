import RequestRouting.Assets.Minify
import RequestRouting.Documents.Source
import RequestRouting.Http.Message

/-!
# Collaborators

Executing documents, compiling style sheets and minifying assets is left to collaborators, which are
registered by file extension or name. Requests can be left to registered resources as well.

Collaborators may have a state of their own. All that is known of it is how often they were called
before, so that is what their answers depend on.
-/

namespace RequestRouting

/-- What a document is executed for. -/
inductive Purpose where
  /-- To handle a request. -/
  | manual
  /-- To render a response. -/
  | template
  /-- To run before and after another handler. -/
  | filter
  deriving DecidableEq, Repr

/-- The execution of a document. -/
structure Invocation where
  document : Document
  purpose : Purpose
  /-- The directories with libraries. -/
  libraries : List String
  /-- The directories with templates to include. -/
  includes : List String
  language : String

/-- What a filter decides before the next handler. -/
inductive Flow where
  /-- To go on with a request. -/
  | continue (req : Request)
  /-- To stop with a response. -/
  | stop (res : Response)

/-- How often an executor handled a request, and how often it stopped one. -/
structure Executor.Tally where
  handled : Nat := 0
  stopped : Nat := 0

/-- Executes documents. -/
structure Executor where
  /-- The place of its tally. -/
  place : Nat
  handle : Executor.Tally → Invocation → Request → Response
  before : Executor.Tally → Invocation → Request → Flow
  after : Invocation → Response → Response

/-- Handles requests. -/
structure Resource where
  /-- The place of the number of its calls. -/
  place : Nat
  answer : Nat → Request → Response

/-- Compiles style sheets, if they're well-formed. -/
abbrev Compiler := String → Option String

/-- Minifies assets. -/
abbrev Minifier := String → String

/-- Registered collaborators. -/
structure Registry where
  executors : Keyed String Executor := {}
  compilers : Keyed String Compiler := {}
  minifiers : Keyed String Minifier := {}
  resources : Keyed String Resource := {}

namespace Registry

/-- Registers an executor for documents with the given extension. -/
def addExecutor (r : Registry) (extension : String) (executor : Executor) : Registry :=
  { r with executors := r.executors.insert (Text.lower extension) executor }

/-- Registers a compiler. -/
def addCompiler (r : Registry) (name : String) (compiler : Compiler) : Registry :=
  { r with compilers := r.compilers.insert name compiler }

/-- Registers a minifier for assets with the given extension. -/
def addMinifier (r : Registry) (extension : String) (minifier : Minifier) : Registry :=
  { r with minifiers := r.minifiers.insert (Text.lower extension) minifier }

/-- Registers a resource. -/
def addResource (r : Registry) (name : String) (resource : Resource) : Registry :=
  { r with resources := r.resources.insert name resource }

/-- The executor for documents with the given extension. -/
def executor? (r : Registry) (extension : String) : Option Executor :=
  r.executors.get? (Text.lower extension)

/-- The compiler with the given name. -/
def compiler? (r : Registry) (name : String) : Option Compiler := r.compilers.get? name

/-- The minifier for assets with the given extension, which for scripts and style sheets needs not
be registered. -/
def minifier? (r : Registry) (extension : String) : Option Minifier :=
  r.minifiers.get? (Text.lower extension) <|>
    (Minify.ofExtension? (Text.lower extension)).map Minify.apply

/-- The resource with the given name. -/
def resource? (r : Registry) (name : String) : Option Resource := r.resources.get? name

end Registry

end RequestRouting
