import Mathlib.Data.List.Induction
import RequestRouting.Assembly.Resolve
import RequestRouting.Proofs.Route.Canonical

/-!
# What is checked where

Descriptors are resolved in the order in which they're declared, each one before those inside of it,
and what may be wrong with one of them is checked when its turn comes: the key of a route can't be
read, a code stands for no status, a resource is configured differently a second time. The checks
are listed here in their order, each one with its position, which is the list of the keys that lead
to it. A check depends on what was registered before, and on nothing else that is resolved.
-/

namespace RequestRouting

/-- Something that is checked while descriptors are resolved. -/
inductive Check where
  /-- The key of an entry is a route. -/
  | key (text : String)
  /-- The route of an entry with a handler can be matched. -/
  | matcher (text : String)
  /-- A node can be created, apart from what's inside of it. -/
  | node (n : Node)
  | prebuilt (name : String)

/-- A check with the keys of the router entries around it, from the outside to the inside. -/
structure CheckSite where
  position : List String
  check : Check

/-- The same check inside of another router entry. -/
def CheckSite.below (key : String) (site : CheckSite) : CheckSite :=
  { site with position := key :: site.position }

/-- The check that a descriptor can be attached, unless it's hidden. -/
def Descriptor.attachSites (key : String) : Descriptor → List CheckSite
  | .hidden => []
  | _ => [⟨[], .matcher key⟩]

mutual

/-- The checks of a descriptor. -/
def Descriptor.sites : Descriptor → List CheckSite
  | .hidden => []
  | .chain nodes => sitesAll nodes
  | .node n => ⟨[], .node n⟩ :: n.inner
  | .prebuilt name => [⟨[], .prebuilt name⟩]
  termination_by structural d => d

/-- The checks of several descriptors. -/
def sitesAll : List Descriptor → List CheckSite
  | [] => []
  | d :: rest => d.sites ++ sitesAll rest
  termination_by structural l => l

/-- The checks of the entries of a router. -/
def sitesOf : List (String × Descriptor) → List CheckSite
  | [] => []
  | (key, d) :: rest =>
    (⟨[], .key key⟩ :: d.sites ++ d.attachSites key).map (CheckSite.below key) ++ sitesOf rest
  termination_by structural l => l

/-- The checks of a route table. -/
def sitesOrdered : Ordered Descriptor → List CheckSite
  | ⟨entries⟩ => sitesOf entries
  termination_by structural routes => routes

/-- The checks of what's inside of a node. -/
def Node.inner : Node → List CheckSite
  | .static _ => []
  | .manual _ => []
  | .templates _ => []
  | .dispatch _ => []
  | .capture _ => []
  | .redirect _ => []
  | .addSlash => []
  | .router ⟨routes, _, _⟩ => sitesOrdered routes
  | .chain ⟨nodes, _⟩ => sitesAll nodes
  | .filter ⟨_, next⟩ => next.sites
  | .injector ⟨_, next⟩ => next.sites
  | .cacheControl ⟨_, _, next⟩ => next.sites
  | .cors ⟨_, _, _, _, next⟩ => next.sites
  | .basicAuth ⟨_, _, next⟩ => next.sites
  | .status _ => []
  | .resource _ => []
  | .assets _ ⟨_, next, _⟩ => next.sites
  termination_by structural n => n

end

/-- What was registered so far: the first configurations of the two resources, and the dispatchers
with those that are referred to. -/
structure Registered where
  manual : Option ManualNode
  templates : Option TemplatesNode
  dispatch : DispatchTable

/-- What is registered in a context. -/
def Context.registered (c : Context) : Registered where
  manual := c.manual.map (·.config)
  templates := c.templates.map (·.config)
  dispatch := c.dispatch

/-- Checks the configuration of a node, and registers it. -/
def Node.check (registry : Registry) (r : Registered) : Node → Except Error Registered
  | .manual node =>
    match r.manual with
    | none => .ok { r with manual := some node }
    | some first =>
      if node = {} || Assembly.sameManual node first then .ok r else .error (.singleton "manual")
  | .templates node =>
    match r.templates with
    | none => .ok { r with templates := some node }
    | some first =>
      if node = {} || Assembly.sameTemplates node first then .ok r
      else .error (.singleton "templates")
  | .dispatch node => .ok { r with dispatch := r.dispatch.reference node.dispatcher }
  | .router node =>
    if node.routingMode = .custom then .error (.unsupported "custom routing mode") else .ok r
  | .status node =>
    if (Status.ofCode? node.code).isSome then .ok r else .error (.status node.code)
  | .resource node =>
    if (registry.resource? node.name).isSome then .ok r else .error (.unknownResource node.name)
  | .assets pipeline _ =>
    if pipeline.isCompiled && (registry.compiler? pipeline.source).isNone then
      .error (.compiler pipeline.source)
    else .ok r
  | _ => .ok r

/-- Performs a check, and registers what is to be registered. -/
def Check.run (registry : Registry) (r : Registered) : Check → Except Error Registered
  | .key text =>
    match Route.parse (clean text) with
    | .ok _ => .ok r
    | .error e => .error (.matcher (.route e))
  | .matcher text =>
    match (Route.parse (clean text)).toOption.map Route.matcher with
    | some (.error e) => .error (.matcher e)
    | _ => .ok r
  | .node n => n.check registry r
  | .prebuilt _ => .ok r

theorem Check.run_node (registry : Registry) (r : Registered) (n : Node) :
    (node n).run registry r = n.check registry r := rfl

/-- Performs checks in order up to the first one that fails, which is given with its error. -/
def passAll (registry : Registry) :
    Registered → List CheckSite → Except (CheckSite × Error) Registered
  | r, [] => .ok r
  | r, site :: rest =>
    match site.check.run registry r with
    | .ok r => passAll registry r rest
    | .error e => .error (site, e)

/-- Whether a check is that of a node of the catalogue, or of an entry. -/
def Check.isCatalogue : Check → Bool
  | .prebuilt _ => false
  | _ => true

/-- Whether checks are those of descriptors without prebuilt nodes. -/
abbrev AllCatalogue (sites : List CheckSite) : Prop := ∀ site ∈ sites, site.check.isCatalogue = true

theorem allCatalogue_append {sites more : List CheckSite} :
    AllCatalogue (sites ++ more) ↔ AllCatalogue sites ∧ AllCatalogue more :=
  List.forall_mem_append

theorem allCatalogue_below {key : String} {sites : List CheckSite} :
    AllCatalogue (sites.map (CheckSite.below key)) ↔ AllCatalogue sites := List.forall_mem_map

theorem AllCatalogue.tail {site : CheckSite} {sites : List CheckSite}
    (h : AllCatalogue (site :: sites)) : AllCatalogue sites := (List.forall_mem_cons.mp h).2

/-- Whether an error is one that carries the URI of a route. -/
def Error.isRoute : Error → Bool
  | .route _ _ => true
  | _ => false

variable {registry : Registry} {r r' : Registered}

/-- No check fails with an error that carries the URI of a route. -/
theorem Check.isRoute_of_run {check : Check} {e : Error} (h : check.run registry r = .error e) :
    e.isRoute = false := by
  cases check with
  | key text =>
    unfold run at h
    dsimp only at h
    split at h <;> cases h
    rfl
  | matcher text =>
    unfold run at h
    dsimp only at h
    split at h <;> cases h
    rfl
  | prebuilt name => cases h
  | node n =>
    rw [run_node] at h
    unfold Node.check at h
    repeat' split at h
    all_goals cases h
    all_goals rfl

theorem passAll_append (r : Registered) (sites more : List CheckSite) :
    passAll registry r (sites ++ more) =
      (passAll registry r sites).bind fun r => passAll registry r more := by
  induction sites generalizing r with
  | nil => rfl
  | cons site rest ih =>
    rw [List.cons_append, passAll, passAll]
    cases site.check.run registry r with
    | ok r => exact ih r
    | error e => rfl

/-- Checks inside of an entry are those of what's inside. -/
theorem passAll_below (key : String) (r : Registered) (sites : List CheckSite) :
    passAll registry r (sites.map (CheckSite.below key)) =
      (passAll registry r sites).mapError fun (site, e) => (site.below key, e) := by
  induction sites generalizing r with
  | nil => rfl
  | cons site rest ih =>
    rw [List.map_cons, passAll, passAll]
    change (match site.check.run registry r with
      | .ok r => passAll registry r (rest.map (CheckSite.below key))
      | .error e => .error (site.below key, e)) = _
    cases site.check.run registry r with
    | ok r => exact ih r
    | error e => rfl

/-- The first check that fails is one that fails after all before it passed. -/
theorem passAll_eq_error_iff {sites : List CheckSite} {site : CheckSite} {e : Error} :
    passAll registry r sites = .error (site, e) ↔
      ∃ before after r', sites = before ++ site :: after ∧
      passAll registry r before = .ok r' ∧ site.check.run registry r' = .error e := by
  induction sites generalizing r with
  | nil => simp [passAll]
  | cons first rest ih =>
    rw [passAll]
    constructor
    · intro h
      cases hfirst : first.check.run registry r with
      | ok r₁ =>
        rw [hfirst] at h
        obtain ⟨before, after, r', rfl, hbefore, hsite⟩ := ih.mp h
        exact ⟨first :: before, after, r', rfl, by rw [passAll, hfirst]; exact hbefore, hsite⟩
      | error e' =>
        rw [hfirst] at h
        obtain ⟨rfl, rfl⟩ := Prod.mk.inj (Except.error.inj h)
        exact ⟨[], rest, r, rfl, rfl, hfirst⟩
    · rintro ⟨before, after, r', hsites, hbefore, hsite⟩
      cases before with
      | nil =>
        obtain ⟨rfl, rfl⟩ := List.cons.inj hsites
        obtain rfl : r = r' := Except.ok.inj hbefore
        rw [hsite]
      | cons site' before =>
        obtain ⟨rfl, rfl⟩ := List.cons.inj hsites
        rw [passAll] at hbefore
        cases hfirst : first.check.run registry r with
        | ok r₁ =>
          rw [hfirst] at hbefore
          exact ih.mpr ⟨before, after, r', rfl, hbefore, hsite⟩
        | error e' =>
          rw [hfirst] at hbefore
          cases hbefore

/-- Every check of a route table has the position of an entry. -/
theorem position_ne_nil {entries : List (String × Descriptor)} {site : CheckSite}
    (h : site ∈ sitesOf entries) : site.position ≠ [] := by
  induction entries with
  | nil => cases h
  | cons entry rest ih =>
    obtain ⟨key, d⟩ := entry
    rw [sitesOf] at h
    rcases List.mem_append.mp h with h | h
    · obtain ⟨inner, -, rfl⟩ := List.mem_map.mp h
      exact List.cons_ne_nil _ _
    · exact ih h

/-! The URI of a position. -/

section Uri

/-- A key as a path, with a slash in front of it, which cleaning ensures for every key. -/
def rooted (key : String) : String := if Text.startsWith "/" key then key else "/" ++ key

/-- The URI at a position: its keys one behind another, without the stars at the ends of all but the
last one. -/
def uriAt (position : List String) : String :=
  clean (String.join (position.dropLast.map fun key => Text.trimTail (· = '*') (rooted key)) ++
    (position.getLast?.map rooted).getD "")

theorem slash_mem_rooted (key : String) : '/' ∈ (rooted key).toList := by
  unfold rooted
  split
  · rename_i h
    obtain ⟨rest, rfl⟩ := Text.startsWith_iff.mp h
    simp
  · simp

theorem clean_append_rooted (uri key : String) :
    clean (uri ++ "/" ++ clean key) = clean (uri ++ rooted key) := by
  rw [clean_append_slash_clean]
  unfold rooted
  split
  · rename_i h
    exact clean_append_slash h uri
  · rw [String.append_assoc]

theorem uriAt_concat (position : List String) (key : String) :
    uriAt (position ++ [key]) =
      clean (String.join (position.map fun key => Text.trimTail (· = '*') (rooted key)) ++
        rooted key) := by
  rw [uriAt, List.dropLast_concat, List.getLast?_concat]
  rfl

/-- The URI of an entry is that of its position. -/
theorem below_uriAt (position : List String) (key : String) :
    Assembly.below (uriAt position) (clean key) = uriAt (position ++ [key]) := by
  rw [uriAt_concat, Assembly.below]
  induction position using List.reverseRecOn with
  | nil =>
    have hroot : uriAt [] = clean "" := by decide
    rw [hroot, trimTail_clean (by decide), Text.trimTail_empty, String.append_assoc,
      clean_clean_append, ← String.append_assoc, clean_append_rooted, List.map_nil]
    rfl
  | append_singleton position last _ =>
    have htrim (lead : String) : Text.trimTail (· = '*') (lead ++ rooted last) =
        lead ++ Text.trimTail (· = '*') (rooted last) := by
      refine String.ext ?_
      rw [Text.trimTail, String.toList_ofList, String.toList_append, String.toList_append,
        Text.Chars.trimTail_append_of_mem (slash_mem_rooted last) (by decide), Text.trimTail,
        String.toList_ofList]
    have hjoin (l : List String) (text : String) :
        String.join (l ++ [text]) = String.join l ++ text := List.foldl_append
    rw [uriAt_concat, trimTail_clean (by decide), htrim, String.append_assoc, clean_clean_append,
      ← String.append_assoc, clean_append_rooted, List.map_append, List.map_singleton, hjoin]

end Uri

end RequestRouting
