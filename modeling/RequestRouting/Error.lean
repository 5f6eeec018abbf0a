import RequestRouting.Json.Decode
import RequestRouting.Route.Matcher

/-!
# Errors

All errors are raised while a configuration is read or an application is assembled. Failures while a
request is handled are turned into responses instead.
-/

namespace RequestRouting

/-- An error of the file system. -/
inductive FileError where
  | notFound
  | isADirectory
  | notADirectory
  | invalidFilename
  /-- A path that holds the character zero. -/
  | zeroCharacter
  | invalidInput (message : String)
  | invalidData (message : String)
  deriving DecidableEq, Repr

/-- An error of an application's configuration. -/
inductive Error where
  | unknownType (name : String)
  | malformed (text : String)
  | singleton (name : String)
  | manualRequired (application : String)
  | unknownResource (name : String)
  | unknownHost (name : String)
  | unknownApplication (name : String)
  | status (code : Nat)
  | cycle (uri : String)
  | compiler (name : String)
  | unsupported (option : String)
  /-- An error at the route with the given URI. -/
  | route (uri : String) (source : Error)
  /-- A value of the wrong shape. -/
  | json (problem : Json.Problem Error)
  | file (error : FileError)
  | matcher (error : MatcherError)
  /-- A handler that can't be created. -/
  | handler (error : MatcherError)
  /-- An invalid entry of a table of dispatchers. -/
  | dispatcher (name : String) (text : String)

namespace FileError

/-- The wording of an error, for those that have their own. -/
def message? : FileError → Option String
  | invalidInput message | invalidData message => some message
  | zeroCharacter => some "file name contained an unexpected NUL byte"
  | _ => none

/-- The name of the kind of an error. -/
def kind : FileError → String
  | notFound => "NotFound"
  | isADirectory => "IsADirectory"
  | notADirectory => "NotADirectory"
  | invalidFilename => "InvalidFilename"
  | zeroCharacter | invalidInput _ => "InvalidInput"
  | invalidData _ => "InvalidData"

end FileError

/-- Splits a message from the position in a text it ends with, as in `at line 3 column 4`, yielding
the number of the line, too. -/
def splitPosition? (message : String) : Option (String × Nat) := do
  let dropNumber? (s : List Char) : Option (List Char) :=
    let rest := Text.Chars.trimTail Char.isDigit s
    if rest.length < s.length then some rest else none
  let s ← dropNumber? message.toList
  let s ← Text.Chars.dropTail? " column ".toList s
  let line := s.drop (Text.Chars.trimTail Char.isDigit s).length
  let s ← dropNumber? s
  let s ← Text.Chars.dropTail? " at line ".toList s
  some (.ofList s, line.foldl (fun n c => n * 10 + (c.toNat - '0'.toNat)) 0)

/-- A message without the position it ends with. -/
def withoutPosition (message : String) : String := ((splitPosition? message).map (·.1)).getD message

/-- A message as it's shown within others. The line zero stands for no position. -/
def nestedMessage (message : String) : String :=
  match splitPosition? message with
  | some (message, 0) => message
  | _ => message

namespace Error

mutual

/-- The wording of an error. -/
def message : Error → String
  | unknownType name => "unknown node type: " ++ name
  | malformed text => "malformed descriptor: " ++ text
  | singleton name => "conflicting configuration for singleton node: " ++ name
  | manualRequired application => "dispatch requires a manual resource in application: " ++ application
  | unknownResource name => "unknown resource: " ++ name
  | unknownHost name => "unknown virtual host: " ++ name
  | unknownApplication name => "unknown application: " ++ name
  | status code => "unknown status code: " ++ toString code
  | cycle uri => "cyclic configuration at: " ++ uri
  | compiler name => "no compiler registered for: " ++ name
  | unsupported option => "unsupported option: " ++ option
  | route uri source => uri ++ ": " ++ source.message
  | json problem => problemMessage problem
  | file error => error.message?.getD error.kind
  | matcher error => error.message
  | handler error => error.message
  | dispatcher name text => name ++ ": invalid dispatcher: " ++ text
  termination_by structural e => e

/-- The wording of a problem with a value. -/
def problemMessage : Json.Problem Error → String
  | .flaw flaw => flaw.message
  | .inside key problem => nestedMessage (key ++ ": " ++ problemMessage problem)
  | .other cause => nestedMessage cause.message
  termination_by structural p => p

end

/-- The name of the kind of an error. -/
def kind : Error → String
  | unknownType _ => "UnknownType"
  | malformed _ => "Malformed"
  | singleton _ => "Singleton"
  | manualRequired _ => "ManualRequired"
  | unknownResource _ => "UnknownResource"
  | unknownHost _ => "UnknownHost"
  | unknownApplication _ => "UnknownApplication"
  | status _ => "Status"
  | cycle _ => "Cycle"
  | compiler _ => "Compiler"
  | unsupported _ => "Unsupported"
  | route _ _ => "Route"
  | json _ | dispatcher _ _ => "Json"
  | file _ => "Io"
  | matcher _ => "Matcher"
  | handler _ => "Handler"

end Error

end RequestRouting
