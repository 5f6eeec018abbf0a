import Mathlib.Data.List.Forall2
import RequestRouting.Proofs.Route.Reading
import RequestRouting.Proofs.Route.Tokens
import RequestRouting.Route.Matcher

/-!
# What routes match

An exact route matches what fills its path. A prefix route matches what fills its path together with
anything behind it, but if its path ends in a variable, only a slash can follow.
-/

namespace RequestRouting

namespace Pattern

theorem read_eq_ok {text : String} {ps : List Piece} :
    read text = .ok ps ↔
      ∃ ts, Reads text.toList ts ∧ check (pieces ts) = .ok () ∧ ps = pieces ts := by
  unfold read
  cases ht : tokens text.toList with
  | none =>
    simp only [reduceCtorEq, false_iff, not_exists, not_and]
    intro ts h
    rw [h.tokens] at ht
    cases ht
  | some ts =>
    cases hc : check (pieces ts) with
    | error e =>
      simp only [bind, Except.bind, hc, reduceCtorEq, false_iff, not_exists, not_and]
      intro us hu hk
      rw [hu.tokens] at ht
      cases ht
      rw [hc] at hk
      cases hk
    | ok _ =>
      simp only [bind, Except.bind, hc, Except.ok.injEq]
      constructor
      · rintro rfl
        exact ⟨ts, reads_of_tokens ht, hc, rfl⟩
      · rintro ⟨us, hu, -, rfl⟩
        rw [hu.tokens] at ht
        cases ht
        rfl

theorem forall₂_of_mapM {α β ε : Type} {f : α → Except ε β} {l : List α} {ys : List β}
    (h : l.mapM f = .ok ys) : List.Forall₂ (fun x y => f x = .ok y) l ys := by
  induction l generalizing ys with
  | nil =>
    obtain rfl : [] = ys := Except.ok.inj h
    exact .nil
  | cons x l ih =>
    rw [List.mapM_cons] at h
    cases hx : f x with
    | error e => simp [hx, bind, Except.bind] at h
    | ok y =>
      cases hl : l.mapM f with
      | error e => simp [hx, hl, bind, Except.bind] at h
      | ok zs =>
        obtain rfl : y :: zs = ys := by simpa [hx, hl, bind, Except.bind, pure, Except.pure] using h
        exact .cons hx (ih hl)

theorem Reads.unique {s : List Char} {ts us : List Token} (h : Reads s ts) (h' : Reads s us) :
    ts = us := Option.some.inj (h.tokens.symm.trans h'.tokens)

end Pattern

open Pattern

theorem RouteMatcher.accepts_iff {m : RouteMatcher} {path : String} :
    m.accepts path = true ↔
      ∃ form ∈ m.forms, ∃ values, Pattern.resolve? form path.toList = some values := by
  rw [accepts, resolve?, List.isSome_findSome?, List.any_eq_true]
  simp only [Option.isSome_iff_exists]

namespace Route

/-- The attributes the variables of a route are written to. -/
def keys (r : Route) : List String :=
  ((Pattern.tokens r.path.toList).getD []).filterMap Pattern.Token.key?

theorem keys_of_reads {r : Route} {ts : List Token} (h : Reads r.path.toList ts) :
    r.keys = ts.filterMap Token.key? := by
  rw [keys, h.tokens, Option.getD_some]

/-- Whether a route matches a path. A route that has no matcher matches none. -/
def Covers (r : Route) (path : String) : Prop := ∃ m, r.matcher = .ok m ∧ m.accepts path = true

theorem covers_iff {r : Route} {m : RouteMatcher} (hm : r.matcher = .ok m) {path : String} :
    r.Covers path ↔ m.accepts path = true := by
  constructor
  · rintro ⟨m', hm', h⟩
    rw [hm] at hm'
    rwa [Except.ok.inj hm']
  · exact fun h => ⟨m, hm, h⟩

/-- What follows the prefix matched by a prefix route, and the value for it. If the prefix is
bounded, a slash separates it from what follows. -/
inductive Tail : Bool → List Char → List (String × String) → Prop where
  | nothing (bounded : Bool) : Tail bounded [] []
  | slash : Tail true ['/'] []
  | rest (text : List Char) (h : text ≠ []) : Tail false text [(remainder, .ofList text)]
  | below (text : List Char) (h : text ≠ []) : Tail true ('/' :: text) [(remainder, .ofList text)]

/-- Whether the path of a prefix route ends in a variable. -/
def isBounded (r : Route) : Bool := Text.endsWith "\x7d" r.path

theorem reads_catchAll : Reads catchAll.toList [.name ('*' :: remainder.toList)] :=
  .name (by decide) .nil

/-- Values of other variables don't count for the remainder. -/
theorem remainder?_append {values : List (String × String)} (h : remainder ∉ values.map (·.1))
    (values' : List (String × String)) :
    remainder? (values ++ values') = remainder? values' := by
  have hn : values.find? (·.1 = remainder) = none := by
    rw [List.find?_eq_none]
    intro x hx
    simpa using fun he : x.1 = remainder => h (List.mem_map.mpr ⟨x, hx, he⟩)
  simp [remainder?, List.find?_append, hn]

variable {r : Route} {m : RouteMatcher}

/-- The pieces of a matcher are those of the patterns of its route. -/
theorem forall₂_forms (hm : r.matcher = .ok m) :
    List.Forall₂ (fun text form => Pattern.read text = .ok form) r.patterns m.forms := by
  unfold matcher at hm
  cases hread : Pattern.read r.path with
  | error e => simp [hread, bind, Except.bind, Except.mapError] at hm
  | ok ps =>
    simp only [hread, bind, Except.bind] at hm
    split at hm
    · cases hm
    · cases hf : r.patterns.mapM Pattern.read with
      | error e => simp [hf, Except.mapError] at hm
      | ok forms =>
        simp only [hf, Except.mapError, pure, Except.pure, Except.ok.injEq] at hm
        subst hm
        exact forall₂_of_mapM hf

/-- The pieces of the matcher of an exact route. -/
theorem forms_exact (hm : r.matcher = .ok m) (hr : r.matching = .exact) :
    ∃ ts, Reads r.path.toList ts ∧ check (pieces ts) = .ok () ∧ m.forms = [pieces ts] := by
  have h := forall₂_forms hm
  simp only [patterns, hr] at h
  generalize m.forms = forms at h ⊢
  cases h with
  | cons h hn =>
    cases hn
    obtain ⟨ts, ht, hc, rfl⟩ := read_eq_ok.mp h
    exact ⟨ts, ht, hc, rfl⟩

/-- The pieces of the matcher of a prefix route, with those for what follows a bounded prefix. -/
theorem forms_bounded (hm : r.matcher = .ok m) (hr : r.matching = .startsWith)
    (hb : r.isBounded = true) :
    ∃ ts, Reads r.path.toList ts ∧ check (pieces ts) = .ok () ∧
      check (pieces (ts ++ [.char '/'])) = .ok () ∧
      check (pieces (ts ++ [.char '/'] ++ [.name ('*' :: remainder.toList)])) = .ok () ∧
      m.forms = [pieces ts, pieces (ts ++ [.char '/']),
        pieces (ts ++ [.char '/'] ++ [.name ('*' :: remainder.toList)])] := by
  have h := forall₂_forms hm
  have hb' : Text.endsWith "\x7d" r.path = true := hb
  simp only [patterns, hr, hb', if_true] at h
  generalize m.forms = forms at h ⊢
  cases h with
  | cons h₁ h =>
    cases h with
    | cons h₂ h =>
      cases h with
      | cons h₃ h =>
        cases h
        obtain ⟨ts, ht, hc, rfl⟩ := read_eq_ok.mp h₁
        obtain ⟨us, hu, hc₂, rfl⟩ := read_eq_ok.mp h₂
        obtain ⟨vs, hv, hc₃, rfl⟩ := read_eq_ok.mp h₃
        have hs : Reads (r.path ++ "/").toList (ts ++ [.char '/']) := by
          rw [String.toList_append]
          exact ht.append (.char (by decide) (by decide) .nil)
        have hk : Reads (r.path ++ "/" ++ catchAll).toList
            (ts ++ [.char '/'] ++ [.name ('*' :: remainder.toList)]) := by
          rw [String.toList_append]
          exact hs.append reads_catchAll
        rw [hu.unique hs] at hc₂ ⊢
        rw [hv.unique hk] at hc₃ ⊢
        exact ⟨ts, ht, hc, hc₂, hc₃, rfl⟩

/-- The pieces of the matcher of a prefix route, with those for what follows any other prefix. -/
theorem forms_unbounded (hm : r.matcher = .ok m) (hr : r.matching = .startsWith)
    (hb : r.isBounded = false) :
    ∃ ts, Reads r.path.toList ts ∧ check (pieces ts) = .ok () ∧
      check (pieces (ts ++ [.name ('*' :: remainder.toList)])) = .ok () ∧
      m.forms = [pieces ts, pieces (ts ++ [.name ('*' :: remainder.toList)])] := by
  have h := forall₂_forms hm
  have hb' : Text.endsWith "\x7d" r.path = false := hb
  simp only [patterns, hr, hb', Bool.false_eq_true, if_false] at h
  generalize m.forms = forms at h ⊢
  cases h with
  | cons h₁ h =>
    cases h with
    | cons h₂ h =>
      cases h
      obtain ⟨ts, ht, hc, rfl⟩ := read_eq_ok.mp h₁
      obtain ⟨us, hu, hc₂, rfl⟩ := read_eq_ok.mp h₂
      have hk : Reads (r.path ++ catchAll).toList (ts ++ [.name ('*' :: remainder.toList)]) := by
        rw [String.toList_append]
        exact ht.append reads_catchAll
      rw [hu.unique hk] at hc₂ ⊢
      exact ⟨ts, ht, hc, hc₂, rfl⟩

/-- The paths an exact route matches, with the values of its variables. -/
theorem resolve?_exact (hm : r.matcher = .ok m) (hr : r.matching = .exact) :
    ∃ ts, Reads r.path.toList ts ∧ ∀ path values,
      m.resolve? path = some values ↔ Fills ts path.toList values := by
  obtain ⟨ts, ht, hc, hf⟩ := forms_exact hm hr
  refine ⟨ts, ht, fun path values => ?_⟩
  rw [← resolve?_eq_some_iff hc, RouteMatcher.resolve?, hf]
  simp

/-- The paths an exact route covers. -/
theorem covers_exact (hm : r.matcher = .ok m) (hr : r.matching = .exact) :
    ∃ ts, Reads r.path.toList ts ∧ check (pieces ts) = .ok () ∧ ∀ path,
      r.Covers path ↔ ∃ values, Fills ts path.toList values := by
  obtain ⟨ts, ht, hc, hf⟩ := forms_exact hm hr
  refine ⟨ts, ht, hc, fun path => ?_⟩
  rw [covers_iff hm, RouteMatcher.accepts_iff, hf]
  simp only [List.mem_singleton, exists_eq_left, resolve?_eq_some_iff hc]

/-- An exact route without variables covers its own path only. -/
theorem covers_iff_eq (hm : r.matcher = .ok m) (hr : r.matching = .exact) (hk : r.keys = [])
    {path : String} : r.Covers path ↔ path = r.path := by
  obtain ⟨ts, ht, -, hcovers⟩ := covers_exact hm hr
  rw [keys_of_reads ht] at hk
  obtain ⟨hall, hpath⟩ := ht.characters hk
  have hfills (values : List (String × String)) :
      Fills ts path.toList values ↔ path.toList = r.path.toList ∧ values = [] := by
    rw [← List.append_nil ts, fills_characters_append hall]
    simp [hpath]
  simp only [hcovers, hfills, exists_eq_right, String.toList_inj]

/-- A prefix route has its path, and the tails it allows, for patterns. -/
theorem fills_prefix (hm : r.matcher = .ok m) (hr : r.matching = .startsWith) :
    ∃ ts, Reads r.path.toList ts ∧ (∀ t ∈ ts, t.isCatchAll = false) ∧
      ∀ path values, (∃ form ∈ m.forms, Pattern.resolve? form path = some values) ↔
        ∃ lead tail us vs, path = lead ++ tail ∧ values = us ++ vs ∧ Fills ts lead us ∧
          Tail r.isBounded tail vs := by
  cases hb : r.isBounded with
  | false =>
    obtain ⟨ts, ht, hc, hc', hf⟩ := forms_unbounded hm hr hb
    have hts : ∀ t ∈ ts, t.isCatchAll = false := by
      simpa using isCatchAll_of_mem_dropLast hc'
    refine ⟨ts, ht, hts, fun path values => ?_⟩
    simp only [hf, List.mem_cons, List.not_mem_nil, or_false, exists_eq_or_imp, exists_eq_left,
      resolve?_eq_some_iff hc, resolve?_eq_some_iff hc', fills_append_iff hts,
      fills_catchAll_iff, String.ofList_toList]
    constructor
    · rintro (h | ⟨p, q, u, _, rfl, rfl, h, hq, rfl⟩)
      · exact ⟨path, [], values, [], by simp, by simp, h, .nothing false⟩
      · exact ⟨p, q, u, _, rfl, rfl, h, .rest q hq⟩
    · rintro ⟨lead, tail, us, vs, rfl, rfl, h, ht⟩
      cases ht with
      | nothing => left; simpa using h
      | rest _ hq => exact Or.inr ⟨lead, tail, us, _, rfl, rfl, h, hq, rfl⟩
  | true =>
    obtain ⟨ts, ht, hc, hc₂, hc₃, hf⟩ := forms_bounded hm hr hb
    have hts : ∀ t ∈ ts, t.isCatchAll = false := by
      simpa using isCatchAll_of_mem_dropLast hc₂
    have hts' : ∀ t ∈ ts ++ [.char '/'], t.isCatchAll = false := by
      simpa using isCatchAll_of_mem_dropLast hc₃
    refine ⟨ts, ht, hts, fun path values => ?_⟩
    simp only [hf, List.mem_cons, List.not_mem_nil, or_false, exists_eq_or_imp, exists_eq_left,
      resolve?_eq_some_iff hc, resolve?_eq_some_iff hc₂, resolve?_eq_some_iff hc₃,
      fills_append_iff hts', fills_append_iff hts, fills_char_iff, fills_nil_iff,
      fills_catchAll_iff, String.ofList_toList]
    constructor
    · rintro (h | ⟨p, _, u, _, rfl, rfl, h, _, rfl, rfl, rfl⟩ |
        ⟨_, q, _, _, rfl, rfl, ⟨p, _, u, _, rfl, rfl, h, _, rfl, rfl, rfl⟩, hq, rfl⟩)
      · exact ⟨path, [], values, [], by simp, by simp, h, .nothing true⟩
      · exact ⟨p, ['/'], u, [], rfl, rfl, h, .slash⟩
      · exact ⟨p, '/' :: q, u, _, by simp, by simp, h, .below q hq⟩
    · rintro ⟨lead, tail, us, vs, rfl, rfl, h, ht⟩
      cases ht with
      | nothing => left; simpa using h
      | slash => exact Or.inr (Or.inl ⟨lead, ['/'], us, [], rfl, rfl, h, [], rfl, rfl, rfl⟩)
      | below text hq =>
        refine Or.inr (Or.inr ⟨lead ++ ['/'], text, us, _, by simp, rfl, ?_, hq, rfl⟩)
        exact ⟨lead, ['/'], us, [], rfl, by simp, h, [], rfl, rfl, rfl⟩

/-- The paths a prefix route matches. -/
theorem accepts_prefix (hm : r.matcher = .ok m) (hr : r.matching = .startsWith) :
    ∃ ts, Reads r.path.toList ts ∧ ∀ path, m.accepts path = true ↔
      ∃ lead tail us vs, path.toList = lead ++ tail ∧ Fills ts lead us ∧
        Tail r.isBounded tail vs := by
  obtain ⟨ts, ht, -, hf⟩ := fills_prefix hm hr
  refine ⟨ts, ht, fun path => ?_⟩
  rw [RouteMatcher.accepts_iff]
  constructor
  · rintro ⟨form, hform, values, h⟩
    obtain ⟨lead, tail, us, vs, hp, -, hl, hv⟩ := (hf _ _).mp ⟨form, hform, h⟩
    exact ⟨lead, tail, us, vs, hp, hl, hv⟩
  · rintro ⟨lead, tail, us, vs, hp, hl, hv⟩
    obtain ⟨form, hform, h⟩ := (hf _ _).mpr ⟨lead, tail, us, vs, hp, rfl, hl, hv⟩
    exact ⟨form, hform, _, h⟩

/-- The values a prefix route yields: those of its variables, and that of what follows. -/
theorem resolve?_prefix (hm : r.matcher = .ok m) (hr : r.matching = .startsWith) :
    ∃ ts, Reads r.path.toList ts ∧ (∀ t ∈ ts, t.isCatchAll = false) ∧ ∀ path values,
      m.resolve? path = some values → ∃ lead tail us vs, path.toList = lead ++ tail ∧
        values = us ++ vs ∧ Fills ts lead us ∧ Tail r.isBounded tail vs := by
  obtain ⟨ts, ht, hts, hf⟩ := fills_prefix hm hr
  refine ⟨ts, ht, hts, fun path values h => (hf _ _).mp ?_⟩
  obtain ⟨form, hform, h⟩ := List.exists_of_findSome?_eq_some h
  exact ⟨form, hform, h⟩

end Route

end RequestRouting
