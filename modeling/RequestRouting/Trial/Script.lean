import RequestRouting.Documents.Executor

/-!
# Scripted collaborators

Scripts stand in for resources, executors, compilers and minifiers where a configuration is tried
out. They either answer in a fixed way, or describe what they were given.
-/

namespace RequestRouting

/-- What a collaborator answers. -/
inductive Script where
  /-- A description of the request. -/
  | echo
  | fixed (res : Response)
  /-- One script after another, the last one for all further calls. -/
  | steps (first : Script) (rest : List Script)

namespace Script

/-- An attribute in the description of a request, on a line of its own. -/
def attributeLine (key value : String) : String :=
  key ++ "=" ++ Text.replace "\n" "|" value ++ "\n"

/-- The description of a request. -/
def describe (req : Request) : String :=
  let query := match req.uri.query with
    | some query => "?" ++ query
    | none => ""
  req.method.name ++ " " ++ req.uri.path ++ query ++ " ref=" ++ req.reference ++ "\n" ++
    String.join (req.attributes.entries.map fun (key, value) => attributeLine key value) ++
    if req.body.isEmpty then "" else "body " ++ toString req.body.size ++ " bytes\n"

mutual

/-- What a script answers after the given number of calls. -/
def answer : Script → Nat → Request → Response
  | echo, _, req => .ofText (describe req)
  | fixed res, _, _ => res
  | steps first _, 0, req => first.answer 0 req
  | steps first rest, n + 1, req =>
    match rest with
    | [] => first.answer (n + 1) req
    | _ :: _ => answerRest rest n req
  termination_by structural s => s

/-- What the last scripts answer, given the number of calls since the first of them was reached. -/
def answerRest : List Script → Nat → Request → Response
  | [], _, _ => .ofStatus .notFound
  | [last], n, req => last.answer n req
  | s :: _ :: _, 0, req => s.answer 0 req
  | _ :: next :: rest, n + 1, req => answerRest (next :: rest) n req
  termination_by structural l => l

end

/-- The purpose of an invocation by name. -/
def purposeName : Purpose → String
  | .manual => "manual"
  | .template => "template"
  | .filter => "filter"

/-- Whether a part of a path counts. -/
def isPart (part : String) : Bool := !part.isEmpty && part ≠ "."

/-- A path relative to a directory it's below of. -/
def relative (root path : String) : String :=
  match Text.dropLead? root path with
  | some rest =>
    let parts := (Text.pieces '/' rest).dropWhile (!isPart ·)
    Text.join "/" (parts.reverse.dropWhile (!isPart ·)).reverse
  | none => path

/-- The description of an invocation, with paths relative to a directory. -/
def describeInvocation (root : String) (invocation : Invocation) : String :=
  let paths (l : List String) : String := Text.join "," (l.map (relative root))
  purposeName invocation.purpose ++ " " ++ invocation.document.name ++ " " ++
    relative root invocation.document.path ++ " ext=" ++ invocation.document.extension ++
    " libraries=" ++ paths invocation.libraries ++ " includes=" ++ paths invocation.includes ++
    " language=" ++ invocation.language

/-- What an executor does before the next handler. -/
structure Before where
  /-- Whether a description of the invocation becomes an attribute. -/
  describes : Bool := false
  /-- An attribute without which the request is stopped. -/
  requires : Option String := none
  /-- What a request is stopped with. -/
  stop : Script := .echo
  /-- Attributes set on a request that goes on. -/
  sets : List (String × String) := []

/-- What an executor does after the next handler. -/
structure After where
  headers : List (Header × String) := []
  status : Option Status := none
  /-- Text added to the body. -/
  append : String := ""

/-- An executor that answers by scripts. -/
structure Execution where
  /-- What it answers requests with, which is a description unless given. -/
  handle : Option Script := none
  before : Before := {}
  after : After := {}

namespace Execution

/-- Runs an executor before the next handler. -/
def runBefore (e : Execution) (root : String) (stopped : Nat) (invocation : Invocation)
    (req : Request) : Flow :=
  let req := if e.before.describes then
      req.set "filter" (describeInvocation root invocation) else req
  let isStopped := match e.before.requires with
    | some key => !req.attributes.contains key
    | none => false
  if isStopped then .stop (e.before.stop.answer stopped req)
  else .continue (req.setAll e.before.sets)

/-- Runs an executor after the next handler. -/
def runAfter (e : Execution) (res : Response) : Response :=
  { status := e.after.status.getD res.status
    headers := res.headers.insertMany e.after.headers
    body := res.body ++ e.after.append.toUTF8 }

/-- Runs an executor. -/
def run (e : Execution) (root : String) (handled : Nat) (invocation : Invocation) (req : Request) :
    Response :=
  match e.handle with
  | some script => script.answer handled req
  | none => .ofText (describeInvocation root invocation ++ "\n" ++ describe req)

/-- The executor whose tally is at the given place. -/
def executor (e : Execution) (root : String) (place : Nat) : Executor where
  place
  handle tally := e.run root tally.handled
  before tally := e.runBefore root tally.stopped
  after _ := e.runAfter

end Execution

/-- What a compiler or minifier makes of a source. -/
inductive Transform where
  /-- All occurrences of a text replaced by another one. -/
  | replace (old new : String)
  | upper
  /-- Nothing, as it fails. -/
  | fail

/-- The source as it's transformed, unless that fails. -/
def Transform.run? (source : String) : Transform → Option String
  | replace old new => some (Text.replace old new source)
  | upper => some (Text.upper source)
  | fail => none

end Script

end RequestRouting
