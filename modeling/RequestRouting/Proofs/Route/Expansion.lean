import RequestRouting.Http.Template
import RequestRouting.Proofs.Http.Uri
import RequestRouting.Proofs.Route.Matcher

/-!
# Patterns and templates

A text is read as a pattern, which matches paths, and as a template, which expands to one. The
pattern matches what the template expands to exactly if every value fits into a segment: it isn't
empty, and holds no slash.
-/

namespace RequestRouting

namespace Pattern

/-- The text a token expands to, given the values of the variables. -/
def Token.expand (value : String → String) : Token → List Char
  | .char c => [c]
  | .name n => (value (.ofList n)).toList

theorem expand_push (req : Request) (c : Char) (parts : List Template.Part) :
    (Template.push c parts).flatMap (Template.Part.expand req) =
      c :: parts.flatMap (Template.Part.expand req) := by
  cases parts with
  | nil => rfl
  | cons part parts => cases part <;> rfl

/-- A template expands to what the tokens of its pattern expand to. -/
theorem Reads.expand_split {s : List Char} {ts : List Token} (h : Reads s ts) (req : Request) :
    (Template.split s).flatMap (Template.Part.expand req) =
      ts.flatMap (Token.expand (Template.value req)) := by
  induction h with
  | nil => rw [Template.split]; rfl
  | @name s name rest ts hr _ ih =>
    have hc := cut?_of_readFullName hr
    rw [Template.split, if_pos rfl]
    split
    · rename_i name' rest' hc'
      obtain ⟨rfl, rfl⟩ : name = name' ∧ rest = rest' := by simpa [hc] using hc'
      rw [List.flatMap_cons, List.flatMap_cons, ih]
      rfl
    · rename_i hc'
      rw [hc] at hc'
      cases hc'
  | char ho _ _ ih =>
    rw [Template.split, if_neg ho, expand_push, ih]
    rfl

variable {ts : List Token} {value : String → String}

/-- Whether a value fits into a segment of a path. -/
def FitsSegment (text : String) : Prop := text ≠ "" ∧ '/' ∉ text.toList

theorem fills_expand (hc : ∀ t ∈ ts, t.isCatchAll = false)
    (h : ∀ n, Token.name n ∈ ts → FitsSegment (value (.ofList n))) :
    ∃ values, Fills ts (ts.flatMap (Token.expand value)) values := by
  induction ts with
  | nil => exact ⟨[], .nil⟩
  | cons t ts ih =>
    obtain ⟨values, hf⟩ := ih (fun t ht => hc t (List.mem_cons_of_mem _ ht))
      fun n hn => h n (List.mem_cons_of_mem _ hn)
    rw [List.flatMap_cons]
    cases t with
    | char c => exact ⟨values, .char c hf⟩
    | name n =>
      obtain ⟨hne, hs⟩ := h n List.mem_cons_self
      refine ⟨_, .name n _ (hc _ List.mem_cons_self) ?_ hs hf⟩
      exact fun he => hne (String.toList_eq_nil_iff.mp he)

/-- A path that fills tokens has as many slashes as they have. -/
theorem Fills.count_slash {path : List Char} {values : List (String × String)}
    (h : Fills ts path values) (hc : ∀ t ∈ ts, t.isCatchAll = false) :
    path.count '/' = ts.count (.char '/') := by
  induction h with
  | nil => rfl
  | char c _ ih =>
    rw [List.count_cons, List.count_cons, ih fun t ht => hc t (List.mem_cons_of_mem _ ht)]
    simp
  | name name text _ _ hs _ ih =>
    rw [List.count_append, List.count_cons, ih fun t ht => hc t (List.mem_cons_of_mem _ ht),
      List.count_eq_zero_of_not_mem hs]
    simp
  | catchAll _ _ _ => exact absurd (hc _ List.mem_cons_self) (by simp [Token.isCatchAll])

/-- What tokens expand to has more slashes than they have if a value has any. -/
theorem count_slash_expand (ts : List Token) (value : String → String) :
    ts.count (.char '/') ≤ (ts.flatMap (Token.expand value)).count '/' ∧
      ((ts.flatMap (Token.expand value)).count '/' = ts.count (.char '/') →
        ∀ n, Token.name n ∈ ts → '/' ∉ (value (.ofList n)).toList) := by
  induction ts with
  | nil => simp
  | cons t ts ih =>
    obtain ⟨hle, hn⟩ := ih
    rw [List.flatMap_cons, List.count_append]
    cases t with
    | char c =>
      have he : List.count '/' (Token.expand value (.char c)) =
          if (Token.char c == .char '/') then 1 else 0 := by
        simp [Token.expand, List.count_cons]
      rw [he, List.count_cons]
      refine ⟨by omega, fun h n hm => hn (by omega) n ?_⟩
      simpa using hm
    | name name =>
      rw [List.count_cons]
      simp only [beq_iff_eq, reduceCtorEq, if_false]
      refine ⟨by omega, fun h n hm => ?_⟩
      have h0 : List.count '/' (Token.expand value (.name name)) = 0 := by omega
      rcases List.mem_cons.mp hm with he | hm
      · obtain rfl := Token.name.inj he
        exact List.count_eq_zero.mp h0
      · exact hn (by omega) n hm

theorem flatMap_expand_of_isChar (value : String → String) (h : ts.all Token.isChar = true) :
    ts.flatMap (Token.expand value) = characters ts := by
  induction ts with
  | nil => rfl
  | cons t ts ih =>
    simp only [List.all_cons, Bool.and_eq_true] at h
    cases t with
    | char c => rw [List.flatMap_cons, ih h.2]; rfl
    | name n => cases h.1

/-- What stands behind the segment of a variable expands to nothing, or to a slash first. -/
theorem takeWhile_expand_dropWhile (ts : List Token) (value : String → String) :
    ((ts.dropWhile (· ≠ .char '/')).flatMap (Token.expand value)).takeWhile (· ≠ '/') = [] := by
  have hd := List.head?_dropWhile_not (fun t => decide (t ≠ Token.char '/')) ts
  cases he : ts.dropWhile (· ≠ .char '/') with
  | nil => rfl
  | cons t rest =>
    rw [he] at hd
    obtain rfl : t = .char '/' := by simpa using hd
    rfl

/-- If what a name and the tokens behind it expand to fills them, and the value of the name has no
slash, the value isn't empty, and what the tokens behind the segment expand to fills these. -/
theorem fills_expand_name {name : List Char} {rest : List Token}
    (hc : (Token.name name).isCatchAll = false)
    (hall : (rest.takeWhile (· ≠ .char '/')).all Token.isChar = true)
    (hs : '/' ∉ (value (.ofList name)).toList) {values : List (String × String)}
    (hf : Fills (.name name :: rest)
      ((Token.name name :: rest).flatMap (Token.expand value)) values) :
    value (.ofList name) ≠ "" ∧ ∃ vs, Fills (rest.dropWhile (· ≠ .char '/'))
      ((rest.dropWhile (· ≠ .char '/')).flatMap (Token.expand value)) vs := by
  have hsplit := List.takeWhile_append_dropWhile (p := (· ≠ Token.char '/')) (l := rest)
  have hpath : rest.flatMap (Token.expand value) =
      characters (rest.takeWhile (· ≠ .char '/')) ++
        (rest.dropWhile (· ≠ .char '/')).flatMap (Token.expand value) := by
    rw [← flatMap_expand_of_isChar value hall, ← List.flatMap_append, hsplit]
  obtain ⟨text, rest', vs, hne, htext, heq, -, hf'⟩ := (fills_name_iff hc hall).mp hf
  rw [List.flatMap_cons, hpath, ← List.append_assoc] at heq
  -- Both sides of the equation have the same first segment.
  have hleft := takeWhile_append_of_not_mem (slash_not_mem_segment hs rest)
    (takeWhile_expand_dropWhile rest value)
  have hright := takeWhile_append_of_not_mem (slash_not_mem_segment htext rest)
    (takeWhile_of_fills_dropWhile hf')
  have hvalue : (value (.ofList name)).toList = text := by
    refine List.append_cancel_right (hleft.1.symm.trans (Eq.trans ?_ hright.1))
    exact congrArg (List.takeWhile _) heq
  have hrest : (rest.dropWhile (· ≠ .char '/')).flatMap (Token.expand value) = rest' :=
    hleft.2.symm.trans ((congrArg (List.dropWhile _) heq).trans hright.2)
  refine ⟨fun hempty => ?_, vs, hrest ▸ hf'⟩
  rw [hempty] at hvalue
  exact hne hvalue.symm

/-- If what tokens expand to fills them, the values without slashes aren't empty. -/
theorem ne_empty_of_fills_expand (hk : check (pieces ts) = .ok ())
    (hc : ∀ t ∈ ts, t.isCatchAll = false)
    (hs : ∀ n, Token.name n ∈ ts → '/' ∉ (value (.ofList n)).toList)
    {values : List (String × String)} (hf : Fills ts (ts.flatMap (Token.expand value)) values) :
    ∀ n, Token.name n ∈ ts → value (.ofList n) ≠ "" := by
  induction ts using pieces.induct generalizing values with
  | case1 => simp
  | case2 c rest ih =>
    rw [pieces] at hk
    rw [List.flatMap_cons] at hf
    obtain ⟨p, hp, hf⟩ := fills_char_iff.mp hf
    obtain rfl : rest.flatMap (Token.expand value) = p := by simpa [Token.expand] using hp
    intro n hn
    rcases List.mem_cons.mp hn with hn | hn
    · cases hn
    · exact ih hk (fun t ht => hc t (List.mem_cons_of_mem _ ht))
        (fun n hn => hs n (List.mem_cons_of_mem _ hn)) hf n hn
  | case3 name rest => exact absurd (hc _ List.mem_cons_self) (by simp [Token.isCatchAll])
  | case4 name rest hn ih =>
    rw [pieces.eq_4 _ _ hn] at hk
    simp only [check] at hk
    split at hk
    · rename_i hall
      obtain ⟨hne, vs, hf'⟩ :=
        fills_expand_name (hc _ List.mem_cons_self) hall (hs name List.mem_cons_self) hf
      have hdrop : ∀ t ∈ rest.dropWhile (· ≠ .char '/'), t ∈ rest :=
        (List.dropWhile_sublist _).subset
      intro n hmem
      rcases List.mem_cons.mp hmem with he | hmem
      · rwa [Token.name.inj he]
      · have hlater : Token.name n ∈ rest.dropWhile (· ≠ .char '/') := by
          rw [← List.takeWhile_append_dropWhile (p := (· ≠ Token.char '/')) (l := rest)] at hmem
          rcases List.mem_append.mp hmem with hmem | hmem
          · exact absurd (List.all_eq_true.mp hall _ hmem) (by simp [Token.isChar])
          · exact hmem
        exact ih hk (fun t ht => hc t (List.mem_cons_of_mem _ (hdrop t ht)))
          (fun n hn => hs n (List.mem_cons_of_mem _ (hdrop _ hn))) hf' n hlater
    · cases hk

/-- Tokens are filled by what they expand to exactly if every value fits into a segment. -/
theorem exists_fills_expand_iff (hk : check (pieces ts) = .ok ())
    (hc : ∀ t ∈ ts, t.isCatchAll = false) :
    (∃ values, Fills ts (ts.flatMap (Token.expand value)) values) ↔
      ∀ n, Token.name n ∈ ts → FitsSegment (value (.ofList n)) := by
  constructor
  · rintro ⟨values, hf⟩
    have hs := (count_slash_expand ts value).2 (hf.count_slash hc)
    exact fun n hn => ⟨ne_empty_of_fills_expand hk hc hs hf n hn, hs n hn⟩
  · exact fills_expand hc

end Pattern

open Pattern

namespace Route

variable {r : Route} {uri : String}

/-- The variables of a route without catch-alls. -/
theorem mem_keys_iff {ts : List Token} (h : Reads r.path.toList ts)
    (hc : ∀ t ∈ ts, t.isCatchAll = false) {key : String} :
    key ∈ r.keys ↔ ∃ n, Token.name n ∈ ts ∧ String.ofList n = key := by
  rw [keys_of_reads h, List.mem_filterMap]
  constructor
  · rintro ⟨t, ht, hk⟩
    cases t with
    | char c => cases hk
    | name n =>
      rw [Token.key?_name (hc _ ht)] at hk
      exact ⟨n, ht, Option.some.inj hk⟩
  · rintro ⟨n, hn, rfl⟩
    exact ⟨.name n, hn, Token.key?_name (hc _ hn)⟩

/-- A route without stars is exact. -/
theorem eq_of_parse_of_not_mem (hs : '*' ∉ uri.toList) (h : Route.parse uri = .ok r) :
    r = ⟨uri, .exact⟩ := by
  obtain ⟨path, matching⟩ := r
  have ht := text_of_parse h
  cases matching with
  | exact => rw [← ht, text]
  | startsWith =>
    rw [← ht, text, String.toList_append] at hs
    exact absurd (List.mem_append_right _ (by decide)) hs

/-- A URI read as a route covers the path it expands to, unless a value doesn't fit into a segment.
The URI and the values of its variables have no stars, queries, or escapes. -/
theorem covers_expand_iff {m : RouteMatcher} (h : Route.parse uri = .ok r) (hm : r.matcher = .ok m)
    (req : Request) (hs : '*' ∉ uri.toList)
    (hq : '?' ∉ ((Template.parse uri).expand req).toList)
    (hp : '%' ∉ ((Template.parse uri).expand req).toList) :
    r.Covers (Uri.parse ((Template.parse uri).expand req)).path ↔
      ∀ key ∈ r.keys, FitsSegment (Template.value req key) := by
  obtain rfl := eq_of_parse_of_not_mem hs h
  obtain ⟨ts, ht, hk, hcovers⟩ := covers_exact hm rfl
  have hc := ht.not_isCatchAll hs
  have hexpand : ((Template.parse uri).expand req).toList =
      ts.flatMap (Token.expand (Template.value req)) := by
    rw [Template.expand, Template.parse, String.toList_ofList]
    exact ht.expand_split req
  rw [hcovers, Uri.path_parse hq hp, hexpand, exists_fills_expand_iff hk hc]
  simp only [mem_keys_iff ht hc, forall_exists_index, and_imp]
  constructor
  · rintro hn key n hmem rfl
    exact hn n hmem
  · exact fun hkeys n hmem => hkeys _ n hmem rfl

end Route

end RequestRouting
