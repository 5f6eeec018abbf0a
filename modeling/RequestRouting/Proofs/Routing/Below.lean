import RequestRouting.Proofs.Keyed
import RequestRouting.Proofs.Route.Collapse
import RequestRouting.Proofs.Route.Prefix
import RequestRouting.Routing.Router

/-!
# Paths below a prefix

What a handler sees of a request is its path, or for a prefix route what is left of it below the
prefix. Where a cleaned URI without variables is the prefix, and a slash separates it from a name
that was put behind it, the cleaned name is left.
-/

namespace RequestRouting

namespace Route

open Pattern (Reads)

variable {r : Route} {m : RouteMatcher}

/-- A route without braces has no variables. -/
theorem keys_eq_nil (ho : '\x7b' ∉ r.path.toList) (hc : '\x7d' ∉ r.path.toList) : r.keys = [] := by
  have hread (s : List Char) (ho : '\x7b' ∉ s) (hc : '\x7d' ∉ s) : Reads s (s.map .char) := by
    induction s with
    | nil => exact .nil
    | cons c s ih =>
      rw [List.mem_cons, not_or] at ho hc
      exact .char (Ne.symm ho.1) (Ne.symm hc.1) (ih ho.2 hc.2)
  rw [keys_of_reads (hread _ ho hc), List.filterMap_map]
  exact List.filterMap_eq_nil_iff.mpr fun _ _ => rfl

/-- A prefix route without variables matches whatever follows its path, which is the remainder. -/
theorem resolve?_append (hm : r.matcher = .ok m) (hr : r.matching = .startsWith) (hk : r.keys = [])
    (rest : String) : ∃ values, m.resolve? (r.path ++ rest) = some values ∧
      (remainder? values).getD "" = rest := by
  exact ⟨_, (resolve?_iff_of_keys hm hr hk).mpr ⟨rest, rfl, rfl⟩, getD_remainder? rest⟩

end Route

/-- The names of the variables of a pattern. -/
def Pattern.pieceNames (pieces : List Piece) : List String :=
  pieces.filterMap fun
    | .char _ => none
    | .param name _ | .catchAll name _ => some (.ofList name)

/-- The attributes that the variables of a route are written to. -/
def Router.Entry.names (e : Entry) : List String := e.matcher.forms.flatMap Pattern.pieceNames

namespace Pattern

/-- The values of a pattern are those of its variables. -/
theorem mem_names_of_resolve? {form : List Piece} {path : List Char}
    {values : List (String × String)} (h : resolve? form path = some values) :
    ∀ name ∈ values.map (·.1), name ∈ pieceNames form := by
  induction form generalizing path values with
  | nil =>
    rw [resolve?] at h
    split at h
    · obtain rfl := Option.some.inj h
      simp
    · cases h
  | cons piece rest ih =>
    cases piece with
    | char c =>
      cases path with
      | nil => cases h
      | cons d path =>
        simp only [resolve?] at h
        split at h
        · exact ih h
        · cases h
    | param name ending =>
      simp only [resolve?] at h
      split at h
      · obtain ⟨vs, hvs, rfl⟩ := Option.map_eq_some_iff.mp h
        intro key hkey
        rcases List.mem_cons.mp hkey with rfl | hkey
        · exact List.mem_cons_self
        · exact List.mem_cons_of_mem _ (ih hvs key hkey)
      · cases h
    | catchAll name after =>
      simp only [resolve?] at h
      split at h
      · cases h
      · obtain rfl := Option.some.inj h
        intro key hkey
        obtain rfl := List.mem_singleton.mp hkey
        exact List.mem_cons_self

/-- The names in the pieces of a pattern are those of its tokens. -/
theorem mem_keys_of_mem_names {key : String} (ts : List Token) (h : key ∈ pieceNames (pieces ts)) :
    key ∈ ts.filterMap Token.key? := by
  induction ts using pieces.induct with
  | case1 =>
    rw [pieces] at h
    cases h
  | case2 c rest ih =>
    rw [pieces] at h
    exact ih h
  | case3 name rest =>
    rw [pieces] at h
    obtain rfl := List.mem_singleton.mp h
    exact List.mem_cons_self
  | case4 name rest hn ih =>
    have hc : (Token.name name).isCatchAll = false := not_isCatchAll_iff.mpr hn
    rw [pieces] at h
    · rw [List.filterMap_cons, Token.key?_name hc]
      rcases List.mem_cons.mp h with rfl | h
      · exact List.mem_cons_self
      · exact List.mem_cons_of_mem _
          (((List.dropWhile_sublist _).filterMap _).subset (ih h))
    · exact hn

end Pattern

/-- Besides its own variables a route writes to the remainder only. -/
theorem Router.Entry.mem_keys_of_mem_names {e : Entry} (hm : e.route.matcher = .ok e.matcher)
    {key : String} (h : key ∈ e.names) : key ∈ e.route.keys ∨ key = Route.remainder := by
  obtain ⟨form, hform, hkey⟩ := List.mem_flatMap.mp h
  have hforms : ∃ ts us, Pattern.Reads e.route.path.toList ts ∧ form = Pattern.pieces (ts ++ us) ∧
      ∀ key ∈ us.filterMap Pattern.Token.key?, key = Route.remainder := by
    cases hr : e.route.matching with
    | exact =>
      obtain ⟨ts, ht, -, hf⟩ := Route.forms_exact hm hr
      rw [hf, List.mem_singleton] at hform
      exact ⟨ts, [], ht, by rw [List.append_nil, hform], by simp⟩
    | startsWith =>
      cases hb : e.route.isBounded with
      | false =>
        obtain ⟨ts, ht, -, -, hf⟩ := Route.forms_unbounded hm hr hb
        rw [hf, List.mem_cons, List.mem_singleton] at hform
        rcases hform with rfl | rfl
        · exact ⟨ts, [], ht, by rw [List.append_nil], by simp⟩
        · exact ⟨ts, _, ht, rfl, by simp [Pattern.Token.key?]⟩
      | true =>
        obtain ⟨ts, ht, -, -, -, hf⟩ := Route.forms_bounded hm hr hb
        rw [hf, List.mem_cons, List.mem_cons, List.mem_singleton] at hform
        rcases hform with rfl | rfl | rfl
        · exact ⟨ts, [], ht, by rw [List.append_nil], by simp⟩
        · exact ⟨ts, _, ht, rfl, by simp [Pattern.Token.key?]⟩
        · exact ⟨ts, _, ht, by rw [List.append_assoc], by simp [Pattern.Token.key?]⟩
  obtain ⟨ts, us, ht, rfl, hus⟩ := hforms
  have hkeys := Pattern.mem_keys_of_mem_names _ hkey
  rw [List.filterMap_append, List.mem_append, ← Route.keys_of_reads ht] at hkeys
  exact hkeys.imp_right (hus key)

namespace Router

/-- What is left of a path in which a prefix stands before the remainder, unless the prefix ends
within a segment. -/
def below (path remainder : String) : String :=
  match Text.dropTail? remainder path with
  | none => path
  | some lead =>
    let rest := if Text.endsWith "/" lead then "/" ++ remainder else remainder
    if rest.isEmpty || Text.startsWith "/" rest then rest else path

/-- On the way down only the path of a request and its base change. -/
theorem exists_descend (req : Request) (remainder : String) : ∃ attributes : Attributes,
    descend req remainder =
      { req with uri.path := below req.uri.path remainder, attributes } ∧
    ∀ key, key ≠ Attribute.base → attributes.get? key = req.attributes.get? key := by
  have hset (lead base path : String) : ∃ attributes : Attributes,
      { (if lead.isEmpty then req else req.set Attribute.base base) with uri.path := path } =
        { req with uri.path := path, attributes } ∧
      ∀ key, key ≠ Attribute.base → attributes.get? key = req.attributes.get? key := by
    split
    · exact ⟨req.attributes, rfl, fun _ _ => rfl⟩
    · exact ⟨_, rfl, fun key hk => Keyed.get?_insert_of_ne _ hk base⟩
  cases hd : Text.dropTail? remainder req.uri.path with
  | none =>
    simp only [descend, below, hd]
    exact ⟨req.attributes, rfl, fun _ _ => rfl⟩
  | some lead =>
    have he : Text.endsWith "/" lead = (Text.dropTail? "/" lead).isSome := by
      rw [Text.dropTail?, Option.isSome_map, Text.endsWith]
    cases ht : Text.dropTail? "/" lead with
    | none =>
      rw [ht] at he
      simp only [descend, below, hd, ht, he, Option.isSome_none, Bool.false_eq_true, if_false]
      split
      · exact hset _ _ _
      · exact ⟨req.attributes, rfl, fun _ _ => rfl⟩
    | some lead' =>
      rw [ht] at he
      simp only [descend, below, hd, ht, he, Option.isSome_some, if_true]
      split
      · exact hset _ _ _
      · exact ⟨req.attributes, rfl, fun _ _ => rfl⟩

/-- The path that the handler of an entry sees. -/
def Entry.path? (e : Entry) (path : String) : Option String :=
  (e.matcher.resolve? path).map fun values =>
    if e.route.isPrefixRoute then below path ((Route.remainder? values).getD "") else path

variable {e : Entry} {req seen : Request}

/-- The handler of an entry sees its path, and the variables of the route. -/
theorem exists_of_enter (h : enter e req = some seen) :
    e.path? req.uri.path = some seen.uri.path ∧ ∃ attributes : Attributes,
      seen = { req with uri.path := seen.uri.path, attributes } ∧
        ∀ key, key ≠ Attribute.base → key ∉ e.names →
          attributes.get? key = req.attributes.get? key := by
  obtain ⟨values, hv, rfl⟩ := Option.map_eq_some_iff.mp h
  have hkeep (key : String) (hk : key ∉ e.names) :
      (req.setAll values).attributes.get? key = req.attributes.get? key := by
    obtain ⟨form, hform, hvalues⟩ := List.exists_of_findSome?_eq_some hv
    refine Keyed.get?_insertMany_of_not_mem _ fun hm => ?_
    exact hk (List.mem_flatMap.mpr ⟨form, hform, Pattern.mem_names_of_resolve? hvalues _ hm⟩)
  rw [Entry.path?, hv]
  dsimp only [Option.map_some]
  split
  · obtain ⟨attributes, hd, ha⟩ :=
      exists_descend (req.setAll values) ((Route.remainder? values).getD "")
    rw [hd]
    exact ⟨rfl, attributes, rfl, fun key hb hk => (ha key hb).trans (hkeep key hk)⟩
  · exact ⟨rfl, _, rfl, fun key _ hk => hkeep key hk⟩

/-- A request for a path that an entry matches is handed to its handler. -/
theorem exists_enter {path : String} (h : e.path? req.uri.path = some path) :
    ∃ seen, enter e req = some seen ∧ seen.uri.path = path := by
  obtain ⟨values, hv, -⟩ := Option.map_eq_some_iff.mp h
  have he : (enter e req).isSome = true := by rw [enter, hv]; rfl
  obtain ⟨seen, hseen⟩ := Option.isSome_iff_exists.mp he
  exact ⟨seen, hseen, Option.some.inj ((exists_of_enter hseen).1.symm.trans h)⟩

/-- A request for what was put behind a cleaned URI without variables is handed down with the
cleaned name for its path, if a slash stands between them. -/
theorem Entry.path?_clean {uri name : String} (hr : e.route = ⟨clean uri, .startsWith⟩)
    (hm : e.route.matcher = .ok e.matcher) (hk : e.route.keys = [])
    (hs : Text.endsWith "/" (clean uri) = true ∨ Text.startsWith "/" name = true) :
    e.path? (clean (clean uri ++ name)) = some (clean name) := by
  obtain ⟨rest, hrest⟩ : ∃ rest : String,
      rest.toList = collapse (Text.endsWith "/" (clean uri)) name.toList :=
    ⟨.ofList _, String.toList_ofList⟩
  have hsplit : clean (clean uri ++ name) = clean uri ++ rest :=
    String.ext (by simp [toList_clean_append, hrest])
  have hstart (text : String) : Text.startsWith "/" ("/" ++ text) = true :=
    Text.startsWith_iff.mpr ⟨text, rfl⟩
  obtain ⟨values, hv, hremainder⟩ := Route.resolve?_append hm (by rw [hr]) hk rest
  have hprefix : e.route.isPrefixRoute = true := by rw [hr]; rfl
  have hdrop : Text.dropTail? rest (clean uri ++ rest) = some (clean uri) :=
    Text.dropTail?_eq_some.mpr rfl
  rw [hr] at hv
  rw [Entry.path?, hsplit, hv, Option.map_some, if_pos hprefix, hremainder]
  simp only [below, hdrop]
  cases he : Text.endsWith "/" (clean uri) with
  | true =>
    rw [he] at hrest
    rw [if_pos rfl, hstart, Bool.or_true, if_pos rfl]
    exact congrArg some (String.ext (by simp [toList_clean, hrest]))
  | false =>
    have hname : Text.startsWith "/" name = true := hs.resolve_left (by simp [he])
    rw [he, ← toList_clean_of_slash hname] at hrest
    obtain rfl := String.ext hrest
    simp [startsWith_clean name]

end Router

end RequestRouting
