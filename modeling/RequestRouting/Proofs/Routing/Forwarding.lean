import RequestRouting.Proofs.Http.Template
import RequestRouting.Proofs.Keyed
import RequestRouting.Proofs.Serving

/-!
# Forwarding requests

Captures, the redirections that are made internally among them, and dispatches all forward requests
in the same way: values are attached, the path of the target is looked up in the history, and unless
it's in there, it's added to it and the request jumps to the target.
-/

namespace RequestRouting

open Keyed (get?_insert_of_ne get?_insertIfAbsent_of_ne get?_insertMany_of_not_mem get?_erase_of_ne)

namespace Request

/-- Whether the history of a request is what it was before. -/
def KeepsHistory (before after : Request) : Prop :=
  after.attributes.get? Attribute.history = before.attributes.get? Attribute.history

variable {a b c : Request}

theorem KeepsHistory.refl (req : Request) : KeepsHistory req req := rfl

theorem KeepsHistory.trans (h : KeepsHistory a b) (h' : KeepsHistory b c) : KeepsHistory a c :=
  Eq.trans h' h

theorem KeepsHistory.history_eq (h : KeepsHistory a b) : b.history = a.history :=
  congrArg (Option.getD · "") h

theorem keepsHistory_set (req : Request) {key : String} (h : Attribute.history ≠ key)
    (value : String) : KeepsHistory req (req.set key value) := get?_insert_of_ne _ h value

theorem keepsHistory_setAll (req : Request) {values : List (String × String)}
    (h : Attribute.history ∉ values.map (·.1)) : KeepsHistory req (req.setAll values) :=
  get?_insertMany_of_not_mem _ h

/-- The request as it's captured to a URI that isn't refused. -/
def capturedTo (req : Request) (uri : String) (record : Bool) : Request :=
  let req := if record then
      { req with attributes := req.attributes.insertIfAbsent Attribute.captured req.reference }
    else req
  let uri := Uri.parse uri
  let req := req.set Attribute.history (extendHistory req.history uri.path)
  let req := req.set Attribute.base ((req.attributes.get? Attribute.root).getD "")
  { req with uri := Uri.ofParts uri.path (uri.query <|> req.uri.query) }

/-- Recording the reference of a request leaves its history alone. -/
theorem keepsHistory_record (req : Request) (record : Bool) : KeepsHistory req (if record then
    { req with attributes := req.attributes.insertIfAbsent Attribute.captured req.reference }
    else req) := by
  have hn : Attribute.history ≠ Attribute.captured := by decide
  cases record with
  | false => exact .refl req
  | true => exact get?_insertIfAbsent_of_ne _ hn _

/-- A request is captured unless the path is a line of its history. -/
theorem captured?_eq (req : Request) (uri : String) (record : Bool) :
    req.captured? uri record =
      if (Uri.parse uri).path ∈ Text.lines req.history then none
      else some (req.capturedTo uri record) := by
  have hh := (req.keepsHistory_record record).history_eq
  unfold captured? capturedTo
  generalize (if record then
    { req with attributes := req.attributes.insertIfAbsent Attribute.captured req.reference }
    else req) = recorded at hh ⊢
  simp only [inHistory, List.contains_iff_mem, hh]

@[simp] theorem uri_capturedTo (req : Request) (uri : String) (record : Bool) :
    (req.capturedTo uri record).uri =
      Uri.ofParts (Uri.parse uri).path ((Uri.parse uri).query <|> req.uri.query) := by
  cases record <;> rfl

@[simp] theorem headers_capturedTo (req : Request) (uri : String) (record : Bool) :
    (req.capturedTo uri record).headers = req.headers := by
  cases record <;> rfl

/-- A captured request doesn't come from outside. -/
theorem isInternal_capturedTo (req : Request) (uri : String) (record : Bool) :
    (req.capturedTo uri record).isInternal = true := by
  have hn : Attribute.history ≠ Attribute.base := by decide
  simp [capturedTo, isInternal, Keyed.contains, set, get?_insert_of_ne _ hn]

/-- The path a request is captured to is put at the end of its history. -/
@[simp] theorem history_capturedTo (req : Request) (uri : String) (record : Bool) :
    (req.capturedTo uri record).history = extendHistory req.history (Uri.parse uri).path := by
  have hn : Attribute.history ≠ Attribute.base := by decide
  have hh := (req.keepsHistory_record record).history_eq
  unfold capturedTo
  generalize (if record then
    { req with attributes := req.attributes.insertIfAbsent Attribute.captured req.reference }
    else req) = recorded at hh ⊢
  simp only [history, set, get?_insert_of_ne _ hn, Keyed.get?_insert_self, Option.getD_some]
  exact congrArg (extendHistory · _) hh

/-- A captured request carries all other values along. -/
theorem get?_capturedTo (req : Request) (uri : String) (record : Bool) {key : String}
    (hh : key ≠ Attribute.history) (hb : key ≠ Attribute.base) (hc : key ≠ Attribute.captured) :
    (req.capturedTo uri record).attributes.get? key = req.attributes.get? key := by
  cases record with
  | false => simp [capturedTo, set, get?_insert_of_ne _ hh, get?_insert_of_ne _ hb]
  | true =>
    simp [capturedTo, set, get?_insert_of_ne _ hh, get?_insert_of_ne _ hb,
      get?_insertIfAbsent_of_ne _ hc]

end Request

open Request

/-- Whatever forwards requests, in the application with the given slot: a capture, or a dispatch
whose URI is known. -/
inductive Forwarder where
  | capture (c : Capture) (application : Nat)
  | dispatch (d : Dispatch) (uri : String) (table application : Nat)

/-- The path that a capture without variables leads to. -/
def Capture.path (c : Capture) : String := (Uri.parse c.uri.text).path

namespace Forwarder

/-- The handler that forwards requests. -/
def handler : Forwarder → Handler
  | capture c application => .capture c application
  | dispatch d _ table application => .dispatch d table application

/-- Where requests are forwarded to. -/
def target : Forwarder → World.Target
  | capture c application =>
    match c.application with
    | some name => .application name
    | none => .slot application
  | dispatch _ _ _ application => .slot application

/-- The values attached to requests by configuration. -/
def locals : Forwarder → List (String × String)
  | capture c _ => c.locals
  | dispatch d _ _ _ => d.locals

/-- The URI a request is forwarded to. -/
def uri (req : Request) : Forwarder → String
  | capture c _ => c.uri.expand req
  | dispatch _ uri _ _ => uri

/-- The path a request is forwarded to. -/
def path (f : Forwarder) (req : Request) : String := (Uri.parse (f.uri req)).path

/-- The request as it's forwarded, unless that is refused. -/
def forward? (req : Request) : Forwarder → Option Request
  | capture c _ => c.forward? req
  | dispatch d uri _ _ => d.forward? uri req

/-- Whether references are recorded. -/
def record : Forwarder → Bool
  | capture c _ => c.record
  | dispatch _ _ _ _ => true

/-- The request with the values that are attached to it. -/
def prepared (req : Request) : Forwarder → Request
  | capture c _ =>
    let req := req.setAll c.locals
    if c.application.isSome then { req with attributes := req.attributes.erase Attribute.root }
    else req
  | dispatch d _ _ _ =>
    (((req.set Attribute.dispatchId (d.id.expand req)).set Attribute.dispatcher d.dispatcher).set
      Attribute.resources d.resources).setAll d.locals

/-- Whether there is what requests are forwarded to: the other application, or the URI of the
dispatcher. -/
def IsReady (w : World) : Forwarder → Prop
  | capture c application =>
    c.application.isSome → (w.handler? (capture c application).target).isSome
  | dispatch d uri table _ =>
    ((w.tables.getD table {}).get? d.dispatcher).bind (·.uri) = some uri

theorem path_capture {c : Capture} (h : c.uri.hasVariables = false) (application : Nat)
    (req : Request) : (capture c application).path req = c.path := by
  rw [path, uri, Template.expand_eq_text h, Capture.path]

/-- A capture to a text without braces leads to its path. -/
theorem path_of_not_mem {c : Capture} {uri : String} (hc : c.uri = .parse uri)
    (h : '\x7b' ∉ uri.toList) (application : Nat) (req : Request) :
    (capture c application).path req = (Uri.parse uri).path := by
  obtain ⟨hvariables, htext⟩ := Template.parse_of_not_mem h
  rw [path_capture (by rw [hc, hvariables]), Capture.path, hc, htext]

variable (f : Forwarder) (req : Request)

theorem forward?_eq_captured? :
    f.forward? req = (f.prepared req).captured? (f.uri req) f.record := by
  cases f <;> rfl

@[simp] theorem headers_prepared : (f.prepared req).headers = req.headers := by
  cases f with
  | capture c application =>
    rw [prepared]
    split <;> rfl
  | dispatch d uri table application => rfl

/-- Attaching values leaves the history alone, unless one of them is the history. -/
theorem keepsHistory_prepared (hl : Attribute.history ∉ f.locals.map (·.1)) :
    KeepsHistory req (f.prepared req) := by
  cases f with
  | capture c application =>
    have hs : KeepsHistory req (req.setAll c.locals) := req.keepsHistory_setAll hl
    have hn : Attribute.history ≠ Attribute.root := by decide
    simp only [prepared]
    by_cases ha : c.application.isSome = true
    · rw [if_pos ha]
      exact hs.trans (get?_erase_of_ne _ hn)
    · rw [if_neg ha]
      exact hs
  | dispatch d uri table application =>
    refine .trans ?_ (keepsHistory_setAll _ hl)
    refine .trans ?_ (keepsHistory_set _ (by decide) _)
    exact .trans (keepsHistory_set _ (by decide) _) (keepsHistory_set _ (by decide) _)

/-- A request is forwarded unless the path is a line of its history. -/
theorem forward?_eq (hl : Attribute.history ∉ f.locals.map (·.1)) :
    f.forward? req =
      if f.path req ∈ Text.lines req.history then none
      else some ((f.prepared req).capturedTo (f.uri req) f.record) := by
  have hh := (f.keepsHistory_prepared req hl).history_eq
  rw [forward?_eq_captured?, captured?_eq, hh, path]

/-- A request that's forwarded jumps to the target, and one that isn't is answered with 500. -/
theorem run_handler (jump : Jump) {w : World} (hr : f.IsReady w) :
    f.handler.run jump req w =
      match f.forward? req with
      | some req' => jump f.target req' w
      | none => some (.ofStatus .internalServerError, w) := by
  cases f with
  | capture c application =>
    rw [handler, Handler.run, Capture.serve]
    cases hc : c.application with
    | none =>
      simp only [target, forward?, hc, Serving.bind_apply, Serving.get_apply, Option.bind_some,
        Option.isSome_none, Bool.false_and, Bool.false_eq_true, if_false]
      cases c.forward? req <;> rfl
    | some name =>
      have hn : (w.handler? (.application name)).isNone = false := by
        have h : (w.handler? (capture c application).target).isSome = true := hr (by rw [hc]; rfl)
        rw [target, hc] at h
        simpa using h
      simp only [target, forward?, hc, Serving.bind_apply, Serving.get_apply, Option.bind_some,
        hn, Bool.and_false, Bool.false_eq_true, if_false]
      cases c.forward? req <;> rfl
  | dispatch d uri table application =>
    have hr : ((w.tables.getD table {}).get? d.dispatcher).bind (·.uri) = some uri := hr
    rw [handler, Handler.run, Dispatch.serve]
    simp only [Serving.bind_apply, Serving.get_apply, Option.bind_some, hr, forward?, target]
    cases d.forward? uri req <;> rfl

end Forwarder

end RequestRouting
