import RequestRouting.Text.Cut

/-!
# Shorthand descriptors

Common descriptors are written as strings, told apart by their first character.
-/

namespace RequestRouting

/-- A shorthand descriptor. -/
inductive Shorthand where
  /-- `hidden` or `!`: the route is hidden. -/
  | hidden
  /-- `!404`: a fixed status. -/
  | status (code : Nat)
  /-- `/uri/`: a capture, which hides its target if an exclamation mark follows. -/
  | capture (uri : String) (hide : Bool)
  /-- `>uri`: a redirection. -/
  | redirect (uri : String)
  /-- `@id` or `@dispatcher:id`: a dispatch. -/
  | dispatch (dispatcher : Option String) (id : String)
  /-- `$name`: a registered resource. -/
  | resource (name : String)
  /-- Anything else: a node type without configuration. -/
  | type (name : String)
  deriving DecidableEq, Repr

namespace Shorthand

/-- The number written by decimal digits with an optional plus sign, if it's below the bound. -/
def number? (bound : Nat) (s : List Char) : Option Nat :=
  let digits := match s with
    | '+' :: rest => rest
    | rest => rest
  if digits.isEmpty || !digits.all Char.isDigit then none
  else
    let n := digits.foldl (fun n c => n * 10 + (c.toNat - 0x30)) 0
    if n < bound then some n else none

/-- Reads a dispatch after its mark. -/
def dispatch? (rest : List Char) : Option Shorthand :=
  match Text.Chars.cut? ':' rest with
  | some (dispatcher, id) =>
    if dispatcher.isEmpty || id.isEmpty then none
    else some (.dispatch (some (.ofList dispatcher)) (.ofList id))
  | none => if rest.isEmpty then none else some (.dispatch none (.ofList rest))

/-- Reads a shorthand, unless it's empty or its mark isn't followed by what it needs. -/
def parse? (text : String) : Option Shorthand :=
  match text.toList with
  | [] => none
  | '!' :: rest => if rest.isEmpty then some .hidden else (number? 65536 rest).map .status
  | '/' :: _ =>
    match Text.dropTail? "!" text with
    | some uri => some (.capture uri true)
    | none => some (.capture text false)
  | '>' :: rest => if rest.isEmpty then none else some (.redirect (.ofList rest))
  | '@' :: rest => dispatch? rest
  | '$' :: rest => if rest.isEmpty then none else some (.resource (.ofList rest))
  | _ => if text = "hidden" then some .hidden else some (.type text)

end Shorthand

end RequestRouting
