import RequestRouting.Proofs.Route.Found
import RequestRouting.Proofs.Route.Matchable
import RequestRouting.Proofs.Text.Utf8
import RequestRouting.Route.Table

/-!
# Routes that a table refuses

The patterns of a route are added to a table one after another, up to the first that is refused.
What a table finds isn't different for a conflict of this one. The patterns before it are kept,
though, so the table finds the route that it refused, unless the first pattern is the refused one.
-/

namespace RequestRouting

namespace Pattern

variable {s : List Char} {ts us : List Token} {ss : List Symbol}

/-! ## The symbols of patterns -/

/-- A character that a token is filled with. -/
def Token.sample : Token → Char
  | .char c => c
  | .name _ => '\x7b'

theorem symbols_append : symbols (ts ++ us) = symbols ts ++ symbols us := List.flatMap_append

theorem symbolsOf_name (name : List Char) :
    ∃ s, symbolsOf (.name name) = [s] ∧ s.isWild = true ∧
      ∀ n, s = .catchAll n → ∃ rest, name = '*' :: rest := by
  unfold symbolsOf
  split
  · cases ‹_›
  · rename_i n he
    cases he
    exact ⟨_, rfl, rfl, fun _ _ => ⟨n, rfl⟩⟩
  · exact ⟨_, rfl, rfl, fun _ h => by cases h⟩

/-- What symbols are filled with is what the tokens are filled with. -/
theorem sample_symbols (ts : List Token) :
    sample (symbols ts) = Text.Utf8.encode (ts.map Token.sample) := by
  induction ts with
  | nil => rfl
  | cons t ts ih =>
    rw [symbols, List.flatMap_cons, sample_append, ← symbols, ih, List.map_cons, Text.Utf8.encode,
      Text.Utf8.encode, List.flatMap_cons]
    congr 1
    cases t with
    | char c => exact sample_bytes _
    | name name =>
      obtain ⟨s, hs, hw, -⟩ := symbolsOf_name name
      rw [hs, sample_cons, Symbol.sample_eq_brace hw]
      rfl

/-- No brace is written in a pattern. -/
theorem Reads.brace_not_mem (h : Reads s ts) : .byte brace ∉ symbols ts := by
  induction h with
  | nil => exact List.not_mem_nil
  | @name s name rest ts _ _ ih =>
    obtain ⟨w, hw, hwild, -⟩ := symbolsOf_name name
    rw [symbols, List.flatMap_cons, hw, List.singleton_append, List.mem_cons, not_or]
    refine ⟨?_, ih⟩
    rintro rfl
    cases hwild
  | @char c s ts ho _ _ ih =>
    rw [symbols, List.flatMap_cons, List.mem_append, not_or]
    refine ⟨fun hm => ho ?_, ih⟩
    obtain ⟨b, hb, he⟩ := List.mem_map.mp hm
    cases he
    exact Text.Utf8.eq_of_mem_encodeChar (by decide) hb

/-! ## The form of patterns -/

theorem isSpread_nil : IsSpread [] := by
  intro s rest hm
  cases List.suffix_nil.mp hm

theorem isSpread_cons {s : Symbol} : IsSpread (s :: ss) ↔
    (s.isWild = true → (segment ss).any Symbol.isWild = false ∧
      ∀ name, s = .catchAll name → ss = []) ∧ IsSpread ss := by
  constructor
  · exact fun h => ⟨h s ss List.suffix_rfl, h.of_suffix (List.suffix_cons s ss)⟩
  · rintro ⟨hs, hrest⟩ t more hm
    rcases List.suffix_cons_iff.mp hm with he | hm
    · obtain ⟨rfl, rfl⟩ := List.cons.inj he
      exact hs
    · exact hrest t more hm

theorem isSpread_bytes_append (lead : List UInt8) (h : IsSpread ss) :
    IsSpread (lead.map .byte ++ ss) := by
  induction lead with
  | nil => exact h
  | cons b lead ih => exact isSpread_cons.mpr ⟨nofun, ih⟩

theorem segment_cons (s : Symbol) (ss : List Symbol) :
    segment (s :: ss) = if s = .byte slash then [s] else s :: segment ss := by
  split <;> simp [segment, through, *]

/-- No text is taken in a segment that bytes lead to the end of. -/
theorem segment_bytes_append (lead : List UInt8) (h : ss = [] ∨ ∃ more, ss = .byte slash :: more) :
    (segment (lead.map .byte ++ ss)).any Symbol.isWild = false := by
  induction lead with
  | nil =>
    obtain rfl | ⟨more, rfl⟩ := h
    · rfl
    · rw [List.map_nil, List.nil_append, segment_cons, if_pos rfl]
      rfl
  | cons b lead ih =>
    rw [List.map_cons, List.cons_append, segment_cons]
    split
    · rfl
    · exact ih

theorem exists_symbols_eq (h : ts.all Token.isChar = true) :
    ∃ lead : List UInt8, symbols ts = lead.map .byte := by
  induction ts with
  | nil => exact ⟨[], rfl⟩
  | cons t ts ih =>
    rw [List.all_cons, Bool.and_eq_true] at h
    obtain ⟨lead, hl⟩ := ih h.2
    cases t with
    | name name => cases h.1
    | char c =>
      refine ⟨String.utf8EncodeChar c ++ lead, ?_⟩
      rw [symbols, List.flatMap_cons, ← symbols, hl, List.map_append]
      rfl

/-- The symbols of a pattern that is allowed aren't refused for their form. -/
theorem isSpread_symbols (h : check (pieces ts) = .ok ()) : IsSpread (symbols ts) := by
  induction ts using pieces.induct with
  | case1 => exact isSpread_nil
  | case2 c rest ih =>
    rw [pieces, check] at h
    exact isSpread_bytes_append _ (ih h)
  | case3 name rest =>
    rw [pieces, check] at h
    split at h
    · rename_i he
      rw [List.isEmpty_iff.mp he]
      exact isSpread_cons.mpr ⟨fun _ => ⟨rfl, fun _ _ => rfl⟩, isSpread_nil⟩
    · cases h
  | case4 name rest hn ih =>
    rw [pieces.eq_4 _ _ hn, check] at h
    split at h
    · rename_i hall
      obtain ⟨w, hw, -, hcatch⟩ := symbolsOf_name name
      obtain ⟨lead, hlead⟩ := exists_symbols_eq hall
      have hrest : symbols rest =
          lead.map .byte ++ symbols (rest.dropWhile (· ≠ .char '/')) := by
        rw [← hlead, ← symbols_append, List.takeWhile_append_dropWhile]
      rw [symbols, List.flatMap_cons, hw, ← symbols, hrest, List.singleton_append, isSpread_cons]
      refine ⟨fun _ => ⟨segment_bytes_append lead ?_, fun n he => ?_⟩,
        isSpread_bytes_append lead (ih h)⟩
      · -- The segment ends where the pattern does, or with a slash.
        have hd := List.head?_dropWhile_not (fun t => decide (t ≠ Token.char '/')) rest
        cases he : rest.dropWhile (· ≠ .char '/') with
        | nil => exact Or.inl rfl
        | cons t more =>
          rw [he] at hd
          obtain rfl : t = .char '/' := by simpa using hd
          exact Or.inr ⟨symbols more, rfl⟩
      · obtain ⟨n, hname⟩ := hcatch n he
        exact absurd hname (hn n)
    · cases h

end Pattern

theorem RouteTree.find?_withWeight {α : Type} (weight : Nat) (tree : RouteTree α)
    (path : List UInt8) : (tree.withWeight weight).find? path = tree.find? path := by
  cases tree
  rfl

namespace RouteTable

open Pattern (Reads Refusal sample symbols)
open RouteTree (Grown IsLeaf)

variable {α : Type} {t t' u : RouteTable α} {route : Route} {value : α} {text : String}
  {texts : List String} {adds : List (Route × α)} {e : PatternError}

/-! ## Adding a pattern -/

/-- A pattern is added to the tree of a table unless a name in it is malformed. The tree of a table
without patterns is grown from it. -/
theorem insert_cases (t : RouteTable α) (value : α) (text : String) :
    ((∀ ts, ¬Reads text.toList ts) ∧ t.insert value text = (t, .error .unnamedParameter)) ∨
    ∃ ts tree result, Reads text.toList ts ∧ t.insert value text = (⟨tree⟩, result) ∧
      ((∃ bare weight, Grown ⟨value, Pattern.names ts⟩ (symbols ts) bare result ∧
        tree = bare.withWeight weight) ∨
      t.tree.insert [] ⟨value, Pattern.names ts⟩ (symbols ts) = (tree, result)) := by
  rw [insert]
  split
  · rename_i hn
    refine Or.inl ⟨fun ts ht => ?_, rfl⟩
    rw [ht.tokens] at hn
    cases hn
  · rename_i ts ht
    refine Or.inr ⟨ts, ?_⟩
    simp only
    split
    · exact ⟨_, _, Pattern.reads_of_tokens ht, rfl, Or.inl ⟨_, _, RouteTree.grown_grow .., rfl⟩⟩
    · exact ⟨_, _, Pattern.reads_of_tokens ht, rfl, Or.inr rfl⟩

theorem isSound_insert (h : t.tree.IsSound) (value : α) (text : String) :
    (t.insert value text).1.tree.IsSound := by
  obtain ⟨-, hi⟩ | ⟨ts, tree, result, ht, hi, ⟨bare, weight, hg, rfl⟩ | hins⟩ :=
    t.insert_cases value text
  · rwa [hi]
  · rw [hi]
    exact (hg.isSound ht.brace_not_mem).withWeight
  · have hs := RouteTree.isSound_insert [] ⟨value, Pattern.names ts⟩ h ht.brace_not_mem
    rw [hins] at hs
    rwa [hi]

/-- A pattern is refused for the form of a name, which leaves the table as it is, or for its own
form, or for a conflict, which makes no difference to what is found. -/
theorem refusal_insert (h : t.tree.IsSound) (hi : t.insert value text = (t', .error e)) :
    ((∀ ts, ¬Reads text.toList ts) ∧ e = .unnamedParameter ∧ t' = t) ∨
    ∃ ts, Reads text.toList ts ∧
      Refusal (symbols ts) (∀ path, t'.find? path = t.find? path) e := by
  obtain ⟨hn, hc⟩ | ⟨ts, tree, result, ht, hc, hadded⟩ := t.insert_cases value text
  · obtain ⟨rfl, hr⟩ := Prod.mk.inj (hc.symm.trans hi)
    exact Or.inl ⟨hn, (Except.error.inj hr).symm, rfl⟩
  · obtain ⟨rfl, rfl⟩ := Prod.mk.inj (hc.symm.trans hi)
    refine Or.inr ⟨ts, ht, ?_⟩
    obtain ⟨bare, weight, hg, -⟩ | hins := hadded
    · exact hg.refusal
    · refine (RouteTree.refusal_insert _ _ h hins).imp fun hsame path => ?_
      simp only [find?, hsame]

/-- A pattern that was added is found. -/
theorem exists_find?_insert (h : t.tree.IsSound) (hi : t.insert value text = (t', .ok ())) :
    ∃ path, (t'.find? path).map (·.value) = some value := by
  obtain ⟨-, hc⟩ | ⟨ts, tree, result, ht, hc, hadded⟩ := t.insert_cases value text
  · cases hc.symm.trans hi
  · obtain ⟨rfl, rfl⟩ := Prod.mk.inj (hc.symm.trans hi)
    have hleaf : IsLeaf ⟨value, Pattern.names ts⟩ (tree.find? (sample (symbols ts))) := by
      obtain ⟨bare, weight, hg, rfl⟩ | hins := hadded
      · rw [RouteTree.find?_withWeight]
        exact hg.isLeaf
      · exact RouteTree.isLeaf_insert _ _ h hins
    obtain ⟨found, hf, hl⟩ := Option.map_eq_some_iff.mp hleaf
    refine ⟨.ofList (ts.map Pattern.Token.sample), ?_⟩
    rw [find?, String.toList_ofList, ← Pattern.sample_symbols, hf]
    exact congrArg (some ·.value) hl

/-! ## Adding a route -/

theorem isSound_insertAll (value : α) (texts : List String) (h : t.tree.IsSound) :
    (t.insertAll value texts).1.tree.IsSound := by
  induction texts generalizing t with
  | nil => exact h
  | cons text texts ih =>
    have hs := isSound_insert h value text
    rw [insertAll]
    split
    · rename_i u hi
      rw [hi] at hs
      exact ih hs
    · rename_i u e hi
      rwa [hi] at hs

/-- All patterns before the one that is refused were added. -/
theorem exists_of_insertAll_error (h : t.insertAll value texts = (t', .error e)) :
    ∃ kept text rest u, texts = kept ++ text :: rest ∧ t.insertAll value kept = (u, .ok ()) ∧
      u.insert value text = (t', .error e) := by
  induction texts generalizing t with
  | nil => cases h
  | cons text texts ih =>
    rw [insertAll] at h
    split at h
    · rename_i u hi
      obtain ⟨kept, next, rest, v, rfl, hk, hn⟩ := ih h
      exact ⟨text :: kept, next, rest, v, rfl, by rw [insertAll, hi]; exact hk, hn⟩
    · rename_i u e' hi
      exact ⟨[], text, texts, t, rfl, rfl, hi.trans h⟩

theorem exists_find?_insertAll (hs : t.tree.IsSound) (hne : texts ≠ [])
    (h : t.insertAll value texts = (u, .ok ())) :
    ∃ path, (u.find? path).map (·.value) = some value := by
  induction texts generalizing t with
  | nil => exact absurd rfl hne
  | cons text texts ih =>
    rw [insertAll] at h
    split at h
    · rename_i v hi
      by_cases hn : texts = []
      · subst hn
        obtain ⟨rfl, -⟩ := Prod.mk.inj h
        exact exists_find?_insert hs hi
      · have hv := isSound_insert hs value text
        rw [hi] at hv
        exact ih hv hn h
    · cases h

/-- The table that routes were added to one after another, be they refused or not. -/
def build (adds : List (Route × α)) : RouteTable α :=
  adds.foldl (fun t a => (t.add a.1 a.2).1) {}

theorem isSound_build (adds : List (Route × α)) : (build adds).tree.IsSound := by
  have hstart : ({} : RouteTable α).tree.IsSound :=
    RouteTree.isSound_node List.not_mem_nil trivial
  unfold build
  generalize ({} : RouteTable α) = t at hstart
  induction adds generalizing t with
  | nil => exact hstart
  | cons a adds ih => exact ih _ (isSound_insertAll a.2 a.1.patterns hstart)

/-- An exact route has a single pattern. -/
theorem add_exact (t : RouteTable α) (path : String) (value : α) :
    t.add ⟨path, .exact⟩ value = t.insert value path := by
  change t.insertAll value [path] = _
  rw [insertAll]
  split
  · exact Eq.symm ‹_›
  · exact Eq.symm ‹_›

theorem exists_patterns_eq (route : Route) : ∃ more, route.patterns = route.path :: more := by
  unfold Route.patterns
  split
  · exact ⟨[], rfl⟩
  · split
    · exact ⟨_, rfl⟩
    · exact ⟨_, rfl⟩

/-- The patterns of a route that can be matched aren't refused for their form. -/
theorem exists_reads_of_mem_patterns (hm : route.IsMatchable) (ht : text ∈ route.patterns) :
    ∃ ts, Reads text.toList ts ∧ Pattern.IsSpread (symbols ts) := by
  obtain ⟨us, hu, hs⟩ := hm
  obtain ⟨form, hread⟩ := Route.exists_read_of_mem_patterns hu hs text ht
  obtain ⟨ts, ht, hc, -⟩ := Pattern.read_eq_ok.mp hread
  exact ⟨ts, ht, Pattern.isSpread_symbols hc⟩

theorem conflict_of_isMatchable (hm : route.IsMatchable) (ht : text ∈ route.patterns)
    (hs : t.tree.IsSound) (hi : t.insert value text = (t', .error e)) :
    ∃ other, e = .conflict other := by
  obtain ⟨us, hu, hspread⟩ := exists_reads_of_mem_patterns hm ht
  obtain ⟨hn, -, -⟩ | ⟨ts, hts, hr⟩ := refusal_insert hs hi
  · exact absurd hu (hn us)
  · obtain rfl := hts.unique hu
    cases hr with
    | conflict other _ => exact ⟨other, rfl⟩
    | several h => exact absurd hspread h
    | misplaced h => exact absurd hspread h

/-- Unless a pattern is refused for its form, it makes no difference to what is found. -/
theorem find?_eq_of_insert_error (hs : t.tree.IsSound) (hi : t.insert value text = (t', .error e))
    (hseveral : e ≠ .severalParameters) (hmisplaced : e ≠ .misplacedCatchAll) (path : String) :
    t'.find? path = t.find? path := by
  obtain ⟨-, -, rfl⟩ | ⟨ts, -, hr⟩ := refusal_insert hs hi
  · rfl
  · cases hr with
    | conflict other h => exact h path
    | several => exact absurd rfl hseveral
    | misplaced => exact absurd rfl hmisplaced

/-- A route that can be matched is refused for a conflict only. Unless it's refused for the form of
a pattern, a table that refuses a route finds what it finds with those patterns of the route that
stand before the refused one. So if the table refuses the exact route with the same path, too, what
it finds isn't different, and else some path is found to lead to the route that it refused. -/
theorem add_refused (h : (build adds).add route value = (t', .error e)) :
    (route.IsMatchable → ∃ other, e = .conflict other) ∧
    (e ≠ .severalParameters → e ≠ .misplacedCatchAll →
      (∃ kept text rest u, route.patterns = kept ++ text :: rest ∧
        (build adds).insertAll value kept = (u, .ok ()) ∧ (u.insert value text).2 = .error e ∧
        ∀ path, t'.find? path = u.find? path) ∧
      (((build adds).add ⟨route.path, .exact⟩ value).2 ≠ .ok () →
        ∀ path, t'.find? path = (build adds).find? path) ∧
      (((build adds).add ⟨route.path, .exact⟩ value).2 = .ok () →
        ∃ path, (t'.find? path).map (·.value) = some value)) := by
  have hs := isSound_build adds
  obtain ⟨kept, text, rest, u, hp, hk, hi⟩ := exists_of_insertAll_error h
  have hu := isSound_insertAll value kept hs
  rw [hk] at hu
  refine ⟨fun hm => conflict_of_isMatchable hm (by simp [hp]) hu hi, fun hseveral hmisplaced => ?_⟩
  have hsame := find?_eq_of_insert_error hu hi hseveral hmisplaced
  obtain ⟨more, hmore⟩ := exists_patterns_eq route
  rw [add_exact]
  refine ⟨⟨kept, text, rest, u, hp, hk, by rw [hi], hsame⟩, fun hrefused => ?_, fun hadded => ?_⟩
  · -- Nothing was kept, as the path is the first pattern.
    cases kept with
    | nil =>
      obtain ⟨rfl, -⟩ := Prod.mk.inj hk
      exact hsame
    | cons first kept =>
      obtain ⟨rfl, -⟩ := List.cons.inj (hmore.symm.trans hp)
      rw [insertAll] at hk
      split at hk
      · rename_i hadded
        exact absurd (by rw [hadded]) hrefused
      · cases hk
  · cases kept with
    | nil =>
      obtain ⟨rfl, -⟩ := List.cons.inj (hmore.symm.trans hp)
      obtain ⟨rfl, -⟩ := Prod.mk.inj hk
      rw [hi] at hadded
      cases hadded
    | cons first kept =>
      obtain ⟨path, hpath⟩ := exists_find?_insertAll hs (List.cons_ne_nil first kept) hk
      exact ⟨path, by rw [hsame, hpath]⟩

/-- A prefix route is refused where a variable was added behind its path, and its path is kept. With
another variable at the end of its path, it's refused without a trace. -/
theorem add_refused_album :
    (∃ t' e, (build [((⟨"/a/\x7bid\x7d", .exact⟩ : Route), 0)]).add ⟨"/a/", .startsWith⟩ 1 =
      (t', .error e) ∧ (∃ other, e = .conflict other) ∧
      ∃ path, (t'.find? path).map (·.value) = some 1) ∧
    ∃ t' e, (build [((⟨"/a/\x7bid\x7d", .exact⟩ : Route), 0)]).add
      ⟨"/a/\x7bname\x7d", .startsWith⟩ 1 = (t', .error e) ∧ (∃ other, e = .conflict other) ∧
      ∀ path, t'.find? path = (build [((⟨"/a/\x7bid\x7d", .exact⟩ : Route), 0)]).find? path := by
  have hprefix : ((build [((⟨"/a/\x7bid\x7d", .exact⟩ : Route), 0)]).add ⟨"/a/", .startsWith⟩ 1).2 =
      .error (.conflict "/a/\x7bid\x7d") := by decide +kernel
  have hvariable : ((build [((⟨"/a/\x7bid\x7d", .exact⟩ : Route), 0)]).add
      ⟨"/a/\x7bname\x7d", .startsWith⟩ 1).2 = .error (.conflict "/a/\x7bid\x7d") := by
    decide +kernel
  obtain ⟨hconflict, hkept⟩ := add_refused (Prod.ext rfl hprefix)
  obtain ⟨hconflict', hkept'⟩ := add_refused (Prod.ext rfl hvariable)
  obtain ⟨-, -, hfound⟩ := hkept nofun nofun
  obtain ⟨-, hsame, -⟩ := hkept' nofun nofun
  refine ⟨⟨_, _, Prod.ext rfl hprefix, hconflict (by decide +kernel), hfound (by decide +kernel)⟩,
    _, _, Prod.ext rfl hvariable, hconflict' (by decide +kernel), hsame (by decide +kernel)⟩

/-- A route that is refused may be found. An exact route isn't, but if it's refused for its form, what
is left of it may hide what was found before. -/
theorem not_add_atomic :
    (¬∀ (adds : List (Route × Nat)) (route : Route) (value : Nat) (t' : RouteTable Nat)
      (e : PatternError), (build adds).add route value = (t', .error e) →
      ∀ path, t'.find? path = (build adds).find? path) ∧
    ¬∀ (adds : List (Route × Nat)) (path : String) (value : Nat) (t' : RouteTable Nat)
      (e : PatternError), (build adds).add ⟨path, .exact⟩ value = (t', .error e) →
      ∀ path, t'.find? path = (build adds).find? path := by
  constructor
  · intro h
    have hprefix : ((build [((⟨"/a/\x7bid\x7d", .exact⟩ : Route), 0)]).add
        ⟨"/a/", .startsWith⟩ 1).2 = .error (.conflict "/a/\x7bid\x7d") := by decide +kernel
    have hsame := congrArg Option.isSome (h _ _ _ _ _ (Prod.ext rfl hprefix) "/a/")
    revert hsame
    decide +kernel
  · intro h
    have hform : ((build [((⟨"/\x7bx\x7d/\x7b*y\x7d", .exact⟩ : Route), 0)]).add
        ⟨"/\x7bx\x7d.b/\x7bp\x7d\x7bq\x7d", .exact⟩ 1).2 = .error .severalParameters := by
      decide +kernel
    have hsame := congrArg Option.isSome (h _ _ _ _ _ (Prod.ext rfl hform) "/u.b/z")
    revert hsame
    decide +kernel

end RouteTable

end RequestRouting
