import Mathlib.Data.List.Nodup
import RequestRouting.Proofs.Route.Expansion
import RequestRouting.Proofs.Routing.Stack

/-!
# Expanding what was matched

A route and a template read the same text. The route takes the values of its variables from a path,
and its router writes them to the request as attributes, where the template finds them again. So the
template expands to the path, unless a value is written over, or a name means something else to the
template.
-/

namespace RequestRouting

namespace Pattern

variable {ts : List Token}

/-- The tokens that were filled expand to what they were filled with. -/
theorem Fills.expand {path : List Char} {values : List (String × String)} {value : String → String}
    (h : Fills ts path values) (hc : ∀ t ∈ ts, t.isCatchAll = false)
    (hv : ∀ x ∈ values, value x.1 = x.2) : ts.flatMap (Token.expand value) = path := by
  induction h with
  | nil => rfl
  | char c _ ih =>
    rw [List.flatMap_cons, ih (fun t ht => hc t (List.mem_cons_of_mem _ ht)) hv]
    rfl
  | name name text _ _ _ _ ih =>
    have hfirst : value (.ofList name) = .ofList text := hv _ List.mem_cons_self
    rw [List.flatMap_cons, ih (fun t ht => hc t (List.mem_cons_of_mem _ ht))
      fun x hx => hv x (List.mem_cons_of_mem _ hx), Token.expand, hfirst, String.toList_ofList]
  | catchAll _ _ _ => exact absurd (hc _ List.mem_cons_self) (by simp [Token.isCatchAll])

/-- The name in braces, a star in front of it included. -/
def Token.name? : Token → Option String
  | .char _ => none
  | .name n => some (.ofList n)

end Pattern

namespace Route

open Pattern (Reads Token)

variable {r : Route} {s : List Char} {ts : List Token}

/-- The names between braces are those of the tokens. -/
theorem paired_of_reads (h : Reads s ts) (hb : balanced .outside s = true) :
    Paired s (ts.filterMap Token.name?) := by
  induction h with
  | nil => exact .nil
  | @name s name rest ts hr _ ih =>
    have hclose := Text.Chars.not_mem_of_cut?_eq_some (Pattern.cut?_of_readFullName hr)
    obtain rfl := Pattern.eq_of_readFullName hr
    have hopened : balanced .opened (name ++ '\x7d' :: rest) = true := by simpa [balanced] using hb
    obtain ⟨hn, hopen, hrest⟩ := (balanced_opened_iff hclose).mp hopened
    exact .named hn hopen hclose (ih hrest)
  | char ho hc _ ih => exact .literal ho hc (ih (by simpa [balanced, ho, hc] using hb))

theorem variableNames_of_reads (h : Reads r.path.toList ts) (ht : IsTemplate r.path) :
    r.variableNames = ts.filterMap Token.name? :=
  (variableNames_eq r).trans (paired_of_reads h (balanced_iff.mpr ht.paired)).names_eq

/-- Without catch-alls, the names are the keys that values are found for. -/
theorem keys_eq_names (hc : ∀ t ∈ ts, t.isCatchAll = false) :
    ts.filterMap Token.key? = ts.filterMap Token.name? := by
  refine List.filterMap_congr fun t ht => ?_
  cases t with
  | char c => rfl
  | name n => exact Token.key?_name (hc _ ht)

theorem not_isCatchAll_of_names (hn : ∀ name ∈ ts.filterMap Token.name?,
    Text.startsWith "*" name = false) : ∀ t ∈ ts, t.isCatchAll = false := by
  intro t ht
  cases t with
  | char c => rfl
  | name n =>
    refine Pattern.not_isCatchAll_iff.mpr fun rest he => ?_
    have hstar := hn (.ofList n) (List.mem_filterMap.mpr ⟨_, ht, rfl⟩)
    subst he
    simp [Text.startsWith, Text.Chars.dropLead?] at hstar

end Route

namespace Template

variable {req : Request} {values : List (String × String)}

/-- Templates find the values that were written to a request, if each name was written once. -/
theorem value_setAll (hd : (values.map (·.1)).Nodup) {x : String × String} (hx : x ∈ values)
    (hn : x.1 ∉ ["ri", "rp", "rq", "rh"]) : value (req.setAll values) x.1 = x.2 := by
  have hmem : x.1 ∈ values.map (·.1) := List.mem_map_of_mem hx
  obtain ⟨v, hv, hget⟩ := req.attributes.exists_get?_insertMany hmem
  have hsame : (x.1, v) = x := List.inj_on_of_nodup_map hd hv hx rfl
  simp only [List.mem_cons, List.not_mem_nil, or_false, not_or] at hn
  obtain ⟨hri, hrp, hrq, hrh⟩ := hn
  rw [value, if_neg hri, if_neg hrp, if_neg hrq, if_neg hrh, Request.setAll, hget]
  exact congrArg Prod.snd hsame

end Template

namespace Router

variable {template : String} {r : Route} {m : RouteMatcher} {req : Request}

/-- What the handler of an exact route sees expands to the path that the route matched. -/
theorem exists_enter_exact (hr : Route.ofPath template .exact = .ok r) (hm : r.matcher = .ok m)
    (hd : r.variableNames.Nodup)
    (hn : ∀ name ∈ r.variableNames,
      Text.startsWith "*" name = false ∧ name ∉ ["ri", "rp", "rq", "rh"])
    (hp : m.accepts req.uri.path = true) :
    ∃ seen, enter ⟨r, m⟩ req = some seen ∧
      (Template.parse template).expand seen = req.uri.path := by
  obtain ⟨htemplate, rfl⟩ := Route.ofPath_eq_ok_iff.mp hr
  obtain ⟨values, hv⟩ := Option.isSome_iff_exists.mp hp
  obtain ⟨ts, ht, hfills⟩ := Route.resolve?_exact hm rfl
  have hf := (hfills _ _).mp hv
  have hnames := Route.variableNames_of_reads ht htemplate
  rw [hnames] at hd hn
  have hc := Route.not_isCatchAll_of_names fun name hname => (hn name hname).1
  have hkeys : values.map (·.1) = ts.filterMap Pattern.Token.name? := by
    rw [hf.keys, Route.keys_eq_names hc]
  have hvalues : ∀ x ∈ values, Template.value (req.setAll values) x.1 = x.2 := fun x hx =>
    Template.value_setAll (hkeys ▸ hd) hx (hn x.1 (hkeys ▸ List.mem_map_of_mem hx)).2
  refine ⟨req.setAll values, by rw [enter, hv]; rfl, ?_⟩
  rw [Template.expand, Template.parse, ht.expand_split, hf.expand hc hvalues, String.ofList_toList]

/-- Expanding is the inverse of matching: the template of an exact route, expanded against the
request that a router hands to the handler of the route, yields the path that was matched. The names
of the variables are distinct, have no stars in front, and mean attributes to the template. -/
theorem expand_of_handed (hr : Route.ofPath template .exact = .ok r) (hm : r.matcher = .ok m)
    (hd : r.variableNames.Nodup)
    (hn : ∀ name ∈ r.variableNames,
      Text.startsWith "*" name = false ∧ name ∉ ["ri", "rp", "rq", "rh"])
    (hp : m.accepts req.uri.path = true) :
    ∃ seen, (Template.parse template).expand seen = req.uri.path ∧
      (∀ (router : Router) (handlers : List (Request → Serving Response)) (w : World)
        (s : Selection) (next : Request → Serving Response),
        router.select? req w = some s → router.entries[s.place]? = some ⟨r, m⟩ →
        handlers[s.place]? = some next →
        router.serve handlers req w = next seen (router.advance (some s) w)) ∧
      ∃ router, ({} : Router).attach r = .ok router ∧
        ∀ (next : Request → Serving Response) (w : World),
          router.serve [next] req w = next seen w := by
  obtain ⟨seen, henter, hexpand⟩ := exists_enter_exact hr hm hd hn hp
  have hserve (router : Router) (handlers : List (Request → Serving Response)) (w : World)
      (s : Selection) (next : Request → Serving Response) (hs : router.select? req w = some s)
      (he : router.entries[s.place]? = some ⟨r, m⟩) (hh : handlers[s.place]? = some next) :
      router.serve handlers req w = next seen (router.advance (some s) w) := by
    obtain ⟨e, he', henter'⟩ := getElem?_of_route? hs
    obtain rfl := Option.some.inj (he.symm.trans he')
    obtain rfl := Option.some.inj (henter.symm.trans henter')
    rw [serve_apply, hs]
    dsimp only
    rw [hh]
    rfl
  refine ⟨seen, hexpand, hserve, { entries := [⟨r, m⟩] }, by rw [attach, hm]; rfl, fun next w => ?_⟩
  have hmatching : ({ entries := [⟨r, m⟩] } : Router).matching req.uri.path = [(⟨r, m⟩, 0)] := by
    simp [matching, hp]
  have hs : ({ entries := [⟨r, m⟩] } : Router).select? req w = some ⟨0, seen, false⟩ :=
    route?_of_matching (by simp [isHidden]) hmatching henter _ _
  exact hserve _ _ w _ next hs rfl rfl

/-- A request for a page, with a value for one of the variables that is written over. -/
def pageRequest : Request where
  uri := ⟨"/en/about.html", none⟩
  attributes := ⟨[("name", "index")]⟩

theorem expand_of_handed_page : ∃ seen router,
    ({} : Router).attach ⟨"/\x7blang\x7d/\x7bname\x7d.html", .exact⟩ = .ok router ∧
    (∀ (next : Request → Serving Response) (w : World),
      router.serve [next] pageRequest w = next seen w) ∧
    (Template.parse "/\x7blang\x7d/\x7bname\x7d.html").expand pageRequest = "//index.html" ∧
    (Template.parse "/\x7blang\x7d/\x7bname\x7d.html").expand seen = "/en/about.html" := by
  have hr : Route.ofPath "/\x7blang\x7d/\x7bname\x7d.html" .exact =
      .ok ⟨"/\x7blang\x7d/\x7bname\x7d.html", .exact⟩ := by decide +kernel
  have hm : (⟨"/\x7blang\x7d/\x7bname\x7d.html", .exact⟩ : Route).matcher =
      .ok ⟨[[.char '/', .param "lang".toList [], .char '/',
        .param "name".toList (".html".toList.map .char)]]⟩ := by decide +kernel
  have hp : RouteMatcher.accepts ⟨[[.char '/', .param "lang".toList [], .char '/',
      .param "name".toList (".html".toList.map .char)]]⟩ pageRequest.uri.path = true := by
    decide +kernel
  obtain ⟨seen, hexpand, -, router, hattach, hserve⟩ :=
    expand_of_handed hr hm (by decide +kernel) (by decide +kernel) hp
  exact ⟨seen, router, hattach, hserve, by decide +kernel, hexpand⟩

end Router

end RequestRouting
