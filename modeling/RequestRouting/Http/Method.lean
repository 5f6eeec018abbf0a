import RequestRouting.Text.Cut

/-!
# Request methods
-/

namespace RequestRouting

/-- A request method. -/
inductive Method where
  | get
  | head
  | post
  | put
  | delete
  | options
  | patch
  deriving DecidableEq, Repr

namespace Method

/-- All methods. -/
def all : List Method := [get, head, post, put, delete, options, patch]

/-- The name of a method. -/
def name : Method → String
  | get => "GET"
  | head => "HEAD"
  | post => "POST"
  | put => "PUT"
  | delete => "DELETE"
  | options => "OPTIONS"
  | patch => "PATCH"

/-- The method with the given name in any letter case. -/
def ofName? (name : String) : Option Method := all.find? fun method => method.name = Text.upper name

/-- Whether the method only reads. -/
def isSafe : Method → Bool
  | get | head | options => true
  | _ => false

end Method

end RequestRouting
