import RequestRouting.Json.Number
import RequestRouting.Keyed
import RequestRouting.Ordered

/-!
# Decoding JSON values

A decoder turns a JSON value into a value of the domain, or tells what is wrong with it. Objects are
read member by member in their order, so the first problem in that order is reported, and fields
that are missing are reported after all members were read.

The type `ε` is that of problems particular to a domain.
-/

namespace RequestRouting

namespace Json

/-- What was found in place of something else. -/
inductive Found where
  | null
  | bool (value : Bool)
  | int (value : Int)
  | float (value : Float)
  | str (value : String)
  | sequence
  | map

/-- What kind of value was found. -/
def found : Json → Found
  | null => .null
  | bool b => .bool b
  | int i => .int i
  | float x => .float x
  | str s => .str s
  | arr _ => .sequence
  | obj _ => .map

def Found.text : Found → String
  | null => "null"
  | bool b => "boolean `" ++ (if b then "true" else "false") ++ "`"
  | int i => "integer `" ++ toString i ++ "`"
  | float x => "floating point `" ++ floatText x ++ "`"
  | str s => "string " ++ Text.quote s
  | sequence => "sequence"
  | map => "map"

/-- What is wrong with a value in itself. -/
inductive Flaw where
  | invalidType (found : Found) (expected : String)
  | invalidValue (found : Found) (expected : String)
  | invalidLength (length : Nat) (expected : String)
  | unknownField (name : String) (known : List String)
  | unknownVariant (name : String) (known : List String)
  | missingField (name : String)
  | duplicateField (name : String)
  /-- A key that must be a number, but isn't. -/
  | textualKey
  /-- A key that starts like a number, but isn't one that can be read. -/
  | numericKey (flaw : NumberFlaw)
  /-- A text that isn't JSON. -/
  | malformedText

/-- A name as it's shown in messages. -/
def ticked (name : String) : String := "`" ++ name ++ "`"

/-- The names that would have been accepted. -/
def oneOf : List String → String
  | [] => ""
  | [a] => "expected " ++ ticked a
  | [a, b] => "expected " ++ ticked a ++ " or " ++ ticked b
  | names => "expected one of " ++ Text.join ", " (names.map ticked)

/-- The wording of a flaw. -/
def Flaw.message : Flaw → String
  | invalidType found expected => "invalid type: " ++ found.text ++ ", expected " ++ expected
  | invalidValue found expected => "invalid value: " ++ found.text ++ ", expected " ++ expected
  | invalidLength n expected => "invalid length " ++ toString n ++ ", expected " ++ expected
  | unknownField name known =>
    "unknown field " ++ ticked name ++ ", " ++
      if known.isEmpty then "there are no fields" else oneOf known
  | unknownVariant name known => "unknown variant " ++ ticked name ++ ", " ++ oneOf known
  | missingField name => "missing field " ++ ticked name
  | duplicateField name => "duplicate field " ++ ticked name
  | textualKey => "invalid value: expected key to be a number in quotes"
  | numericKey .malformed => "invalid number"
  | numericKey .truncated => "EOF while parsing a value"
  | numericKey .outOfRange => "number out of range"
  | malformedText => "malformed text"

/-- A flaw of a value or of a value inside of it, or a problem particular to the domain. -/
inductive Problem (ε : Type) where
  | flaw (flaw : Flaw)
  /-- A problem with the value of a key. -/
  | inside (key : String) (problem : Problem ε)
  | other (cause : ε)

/-- A way to read JSON values as values of a type. -/
abbrev Decoder (ε α : Type) := Json → Except (Problem ε) α

namespace Decoder

variable {ε α σ : Type}

/-- Refuses a value of the wrong kind. -/
def mismatch (expected : String) : Decoder ε α := fun v => .error (.flaw (.invalidType v.found expected))

/-- Reads a string. -/
def string : Decoder ε String
  | .str s => .ok s
  | v => mismatch "a string" v

/-- Reads a path. -/
def path : Decoder ε String
  | .str s => .ok s
  | v => mismatch "path string" v

/-- Reads a truth value. -/
def boolean : Decoder ε Bool
  | .bool b => .ok b
  | v => mismatch "a boolean" v

/-- Reads a number of 16 bits. -/
def word : Decoder ε Nat
  | .int i =>
    if 0 ≤ i && i < 65536 then .ok i.toNat else .error (.flaw (.invalidValue (.int i) "u16"))
  | v => mismatch "u16" v

/-- Reads a value that may be left out by writing null. -/
def optional (decoder : Decoder ε α) : Decoder ε (Option α)
  | .null => .ok none
  | v => (decoder v).map some

/-- Reads all items of an array. -/
def list (decoder : Decoder ε α) : Decoder ε (List α)
  | .arr items => items.mapM decoder
  | v => mismatch "a sequence" v

/-- Reads the members of an object into a map in key order. -/
def keyed (decoder : Decoder ε α) : Decoder ε (Keyed String α)
  | .obj members =>
    members.foldlM (fun m (k, v) => do return m.insert k (← decoder v)) {}
  | v => mismatch "a map" v

/-- Reads the members of an object into a map in order of declaration. Problems with a value carry
its key. -/
def ordered (decoder : Decoder ε α) : Decoder ε (Ordered α)
  | .obj members =>
    members.foldlM (fun m (k, v) => do
      return m.insert k (← (decoder v).mapError (Problem.inside k))) {}
  | v => mismatch "a map" v

/-- Reads a key that is a number. -/
def numericKey (key : String) : Except (Problem ε) Nat :=
  let notNumeric := .error (.flaw .textualKey)
  match key.toList with
  | [] => notNumeric
  | c :: cs =>
    if c.isDigit || c = '-' then
      match readNumber (c :: cs) with
      | .error flaw => .error (.flaw (.numericKey flaw))
      | .ok (v, rest) => do
        let n ← word v
        if rest.isEmpty then .ok n else notNumeric
    else notNumeric

/-- Reads the members of an object whose keys are numbers. -/
def numbered (decoder : Decoder ε α) : Decoder ε (Keyed Nat α)
  | .obj members =>
    members.foldlM (fun m (k, v) => do
      let n ← numericKey k
      return m.insert n (← decoder v)) {}
  | v => mismatch "a map" v

/-- Reads one of several names. A name may also be given as the only key of an object, with null as
its value. -/
def choice (names : List (String × α)) : Decoder ε α
  | .str s => find s
  | .obj [(k, v)] => do
    let x ← find k
    match v with
    | .null => .ok x
    | v => mismatch "unit" v
  | .obj _ => .error (.flaw (.invalidValue .map "map with a single key"))
  | v => mismatch "string or map" v
where
  /-- The value with the given name. -/
  find (name : String) : Except (Problem ε) α :=
    match names.find? (·.1 = name) with
    | some (_, x) => .ok x
    | none => .error (.flaw (.unknownVariant name (names.map (·.1))))

/-- A field of a record, with other names it's known by, and how its value changes the record. -/
structure Field (ε σ : Type) where
  name : String
  aliases : List String := []
  read : Json → σ → Except (Problem ε) σ
  required : Bool := false

/-- A field whose value is stored in the record. -/
def field (name : String) (decoder : Decoder ε α) (store : α → σ → σ) : Field ε σ where
  name
  read v s := (decoder v).map (store · s)

/-- A field that must be given. -/
def requiredField (name : String) (decoder : Decoder ε α) (store : α → σ → σ) : Field ε σ :=
  { field name decoder store with required := true }

/-- Reads the members of a record, given the fields that were read before. -/
def members (fields : List (Field ε σ)) :
    List String → List (String × Json) → σ → Except (Problem ε) σ
  | seen, [], s =>
    match fields.find? fun f => f.required && !seen.contains f.name with
    | some f => .error (.flaw (.missingField f.name))
    | none => .ok s
  | seen, (k, v) :: rest, s =>
    match fields.find? fun f => f.name = k || f.aliases.contains k with
    | none => .error (.flaw (.unknownField k (fields.flatMap fun f => f.name :: f.aliases)))
    | some f =>
      if seen.contains f.name then .error (.flaw (.duplicateField f.name))
      else do members fields (f.name :: seen) rest (← f.read v s)

/-- Reads the items of an array into the fields of a record in order, leaving the last ones as they
are if there are fewer items. -/
def items : List (Field ε σ) → List Json → σ → Except (Problem ε) (σ × List Json)
  | [], rest, s => .ok (s, rest)
  | _, [], s => .ok (s, [])
  | f :: fields, v :: rest, s => do items fields rest (← f.read v s)

/-- Reads a record from an object or an array, starting from the given defaults. -/
def record (name : String) (fields : List (Field ε σ)) (start : σ) : Decoder ε σ
  | .obj ms => members fields [] ms start
  | .arr vs => do
    let (s, rest) ← items fields vs start
    if rest.isEmpty then .ok s
    else .error (.flaw (.invalidLength vs.length "fewer elements in array"))
  | v => mismatch ("struct " ++ name) v

end Decoder

mutual

/-- The value with repeated keys of objects resolved: a key keeps its first place, and its last
value. -/
def resolveKeys : Json → Json
  | .arr items => .arr (resolveItems items)
  | .obj members => .obj (Ordered.ofList (resolveMembers members)).entries
  | v => v
  termination_by structural v => v

/-- The items of an array with repeated keys resolved. -/
def resolveItems : List Json → List Json
  | [] => []
  | v :: rest => v.resolveKeys :: resolveItems rest
  termination_by structural l => l

/-- The members of an object with repeated keys of their values resolved. -/
def resolveMembers : List (String × Json) → List (String × Json)
  | [] => []
  | (k, v) :: rest => (k, v.resolveKeys) :: resolveMembers rest
  termination_by structural l => l

end

mutual

/-- How deep arrays and objects are nested. -/
def depth : Json → Nat
  | .arr items => depthOfItems items + 1
  | .obj members => depthOfMembers members + 1
  | _ => 0
  termination_by structural v => v

/-- How deep the items of an array are nested. -/
def depthOfItems : List Json → Nat
  | [] => 0
  | v :: rest => max v.depth (depthOfItems rest)
  termination_by structural l => l

/-- How deep the members of an object are nested. -/
def depthOfMembers : List (String × Json) → Nat
  | [] => 0
  | (_, v) :: rest => max v.depth (depthOfMembers rest)
  termination_by structural l => l

end

end Json

end RequestRouting
