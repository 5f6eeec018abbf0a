import RequestRouting.Config.Dispatchers
import RequestRouting.Route.Basic

/-!
# Dispatch tables

A dispatch table holds the targets of all dispatchers of an application: those that are configured,
in their order, and after them those that were referenced without being configured. The URI a target
is captured to is only known once the application is built, and is set for those referenced until
then.
-/

namespace RequestRouting

/-- A dispatch target. -/
structure DispatchTarget where
  name : String
  /-- The library document that implements the dispatcher. -/
  dispatcher : String
  /-- The library URI where identifiers are looked up. -/
  resources : String
  /-- The URI requests are captured to. -/
  uri : Option String := none
  deriving DecidableEq, Repr

/-- A target with the extra values of its dispatcher, and whether it's referenced. -/
structure DispatchTable.Entry where
  target : DispatchTarget
  extra : Keyed String Json := {}
  referenced : Bool := false

/-- A dispatch table. -/
structure DispatchTable where
  default : Option String := none
  entries : List DispatchTable.Entry := []

namespace DispatchTarget

/-- The target of a dispatcher. -/
def ofDispatcher (name : String) (d : Dispatcher) : DispatchTarget where
  name
  dispatcher := d.document.getD ("/dispatchers/" ++ name ++ "/")
  resources := d.resources.getD "/resources/"

/-- The URI a target is captured to, below the internal URI of the manual resource. -/
def captureUri (internal : String) (target : DispatchTarget) : String :=
  clean (internal ++ target.dispatcher)

end DispatchTarget

namespace DispatchTable

/-- The dispatcher that is the default unless another one is configured. -/
def javascript : String := "javascript"

/-- The table of configured dispatchers. -/
def ofDispatchers (d : Dispatchers) : DispatchTable where
  default := d.default
  entries := d.entries.entries.map fun (name, dispatcher) =>
    { target := .ofDispatcher name dispatcher, extra := dispatcher.extra }

/-- The name of the default dispatcher. -/
def defaultName (t : DispatchTable) : String := t.default.getD javascript

/-- Marks the first entry with the given name as referenced, adding one if there is none. -/
def mark (name : String) : List Entry → List Entry
  | [] => [{ target := .ofDispatcher name {}, referenced := true }]
  | entry :: rest =>
    if entry.target.name = name then { entry with referenced := true } :: rest
    else entry :: mark name rest

/-- The target with the given name. -/
def get? (t : DispatchTable) (name : String) : Option DispatchTarget :=
  (t.entries.find? (·.target.name = name)).map (·.target)

/-- The table after a reference to a dispatcher, or to the default one. -/
def reference (t : DispatchTable) (name : Option String) : DispatchTable :=
  { t with entries := mark (name.getD t.defaultName) t.entries }

/-- The targets, in order. -/
def targets (t : DispatchTable) : List DispatchTarget := t.entries.map (·.target)

/-- The targets that are referenced, in order. -/
def referenced (t : DispatchTable) : List DispatchTarget :=
  (t.entries.filter (·.referenced)).map (·.target)

/-- The name of the global an extra value of a dispatcher becomes. -/
def globalName (dispatcher key : String) : String := "dispatcher." ++ dispatcher ++ "." ++ key

/-- The extra values of all dispatchers. -/
def globals (t : DispatchTable) : Keyed String Json :=
  .ofList (t.entries.flatMap fun entry =>
    entry.extra.entries.map fun (key, value) => (globalName entry.target.name key, value))

/-- Sets the URI of all referenced targets that have none, below the internal URI of the manual
resource. -/
def bind (t : DispatchTable) (internal : String) : DispatchTable :=
  { t with entries := t.entries.map fun entry =>
      if entry.referenced && entry.target.uri.isNone then
        { entry with target.uri := some (entry.target.captureUri internal) }
      else entry }

end DispatchTable

end RequestRouting
