import RequestRouting.Route.Pattern

/-!
# What patterns match

A path fills the tokens of a pattern if it's made of the characters of the pattern with a text in
place of every name. Matching finds exactly these texts: the text of a name isn't empty and holds no
slash, but for that of a catch-all, which is everything that is left.
-/

namespace RequestRouting.Pattern

/-- Whether a token takes everything that is left of a path. -/
def Token.isCatchAll : Token → Bool
  | .name ('*' :: _) => true
  | _ => false

/-- The variable a token gives a value to. -/
def Token.key? : Token → Option String
  | .char _ => none
  | .name ('*' :: n) => some (.ofList n)
  | .name n => some (.ofList n)

/-- A path is made of tokens with a text in place of every name, which are the values. -/
inductive Fills : List Token → List Char → List (String × String) → Prop where
  | nil : Fills [] [] []
  | char {tokens : List Token} {path : List Char} {values : List (String × String)} (c : Char)
      (h : Fills tokens path values) : Fills (.char c :: tokens) (c :: path) values
  | name {tokens : List Token} {path : List Char} {values : List (String × String)}
      (name text : List Char) (hn : (Token.name name).isCatchAll = false) (ht : text ≠ [])
      (hs : '/' ∉ text) (h : Fills tokens path values) :
      Fills (.name name :: tokens) (text ++ path) ((.ofList name, .ofList text) :: values)
  | catchAll (name text : List Char) (ht : text ≠ []) :
      Fills [.name ('*' :: name)] text [(.ofList name, .ofList text)]

variable {tokens more : List Token} {path : List Char} {values : List (String × String)}

theorem not_isCatchAll_iff {name : List Char} :
    (Token.name name).isCatchAll = false ↔ ∀ n, name ≠ '*' :: n := by
  constructor
  · rintro h n rfl
    simp [Token.isCatchAll] at h
  · intro h
    unfold Token.isCatchAll
    split
    · rename_i he
      exact absurd (Token.name.inj he) (h _)
    · rfl

theorem Token.key?_name {name : List Char} (h : (Token.name name).isCatchAll = false) :
    Token.key? (.name name) = some (.ofList name) := by
  unfold Token.key?
  split
  · cases ‹_›
  · rename_i he
    exact absurd (Token.name.inj he) (not_isCatchAll_iff.mp h _)
  · rename_i he
    rw [Token.name.inj he]

/-- The values are those of the variables, in order. -/
theorem Fills.keys (h : Fills tokens path values) :
    values.map (·.1) = tokens.filterMap Token.key? := by
  induction h with
  | nil => rfl
  | char c _ ih => exact ih
  | name name text hn _ _ _ ih => simp [Token.key?_name hn, ih]
  | catchAll name text _ => rfl

/-- Tokens one after another are filled by texts one after another. -/
theorem Fills.append (h : Fills tokens path values) (hc : ∀ t ∈ tokens, t.isCatchAll = false)
    {path' : List Char} {values' : List (String × String)} (h' : Fills more path' values') :
    Fills (tokens ++ more) (path ++ path') (values ++ values') := by
  induction h with
  | nil => exact h'
  | char c _ ih => exact .char c (ih fun t ht => hc t (List.mem_cons_of_mem _ ht))
  | name name text hn ht hs _ ih =>
    rw [List.append_assoc]
    exact .name name text hn ht hs (ih fun t ht => hc t (List.mem_cons_of_mem _ ht))
  | catchAll name text _ => exact absurd (hc _ List.mem_cons_self) (by simp [Token.isCatchAll])

theorem fills_append_iff (hc : ∀ t ∈ tokens, t.isCatchAll = false) :
    Fills (tokens ++ more) path values ↔ ∃ p q u v, path = p ++ q ∧ values = u ++ v ∧
      Fills tokens p u ∧ Fills more q v := by
  constructor
  · intro h
    induction tokens generalizing path values with
    | nil => exact ⟨[], path, [], values, rfl, rfl, .nil, h⟩
    | cons t tokens ih =>
      have hc' : ∀ t ∈ tokens, t.isCatchAll = false := fun t ht => hc t (List.mem_cons_of_mem _ ht)
      have ht := hc t List.mem_cons_self
      rw [List.cons_append] at h
      generalize hm : tokens ++ more = r at h
      cases h with
      | char c h =>
        obtain ⟨p, q, u, v, rfl, rfl, hp, hq⟩ := ih hc' (hm ▸ h)
        exact ⟨c :: p, q, u, v, rfl, rfl, .char c hp, hq⟩
      | name name text hn hne hs h =>
        obtain ⟨p, q, u, v, rfl, rfl, hp, hq⟩ := ih hc' (hm ▸ h)
        exact ⟨text ++ p, q, _ :: u, v, by simp, rfl, .name name text hn hne hs hp, hq⟩
      | catchAll name text hne => simp [Token.isCatchAll] at ht
  · rintro ⟨p, q, u, v, rfl, rfl, hp, hq⟩
    exact hp.append hc hq

@[simp] theorem fills_nil_iff : Fills [] path values ↔ path = [] ∧ values = [] := by
  constructor
  · rintro ⟨⟩; exact ⟨rfl, rfl⟩
  · rintro ⟨rfl, rfl⟩; exact .nil

theorem fills_char_iff {c : Char} :
    Fills (.char c :: tokens) path values ↔ ∃ p, path = c :: p ∧ Fills tokens p values := by
  constructor
  · rintro ⟨⟩; exact ⟨_, rfl, ‹_›⟩
  · rintro ⟨p, rfl, h⟩; exact .char c h

theorem fills_catchAll_iff {name : List Char} :
    Fills [.name ('*' :: name)] path values ↔
      path ≠ [] ∧ values = [(.ofList name, .ofList path)] := by
  constructor
  · intro h
    cases h with
    | name _ _ hn => simp [Token.isCatchAll] at hn
    | catchAll _ _ hne => exact ⟨hne, rfl⟩
  · rintro ⟨hne, rfl⟩
    exact .catchAll name path hne

/-- Characters stand for themselves. -/
theorem fills_characters_append {ending : List Token} (h : ending.all Token.isChar = true) :
    Fills (ending ++ more) path values ↔
      ∃ p, path = characters ending ++ p ∧ Fills more p values := by
  induction ending generalizing path with
  | nil => simp [characters]
  | cons t ending ih =>
    simp only [List.all_cons, Bool.and_eq_true] at h
    cases t with
    | name name => simp [Token.isChar] at h
    | char c =>
      simp only [List.cons_append, fills_char_iff, ih h.2, characters, List.filterMap_cons]
      constructor
      · rintro ⟨_, rfl, p, rfl, hp⟩; exact ⟨p, rfl, hp⟩
      · rintro ⟨p, rfl, hp⟩; exact ⟨_, rfl, p, rfl, hp⟩

theorem fits_iff {ending : List Token} {segment : List Char} :
    fits ending segment = true ↔ ∃ text, text ≠ [] ∧ segment = text ++ characters ending := by
  simp only [fits, Bool.and_eq_true, decide_eq_true_eq]
  constructor
  · rintro ⟨hl, hd⟩
    refine ⟨segment.take (segment.length - (characters ending).length), ?_, ?_⟩
    · intro he
      have := congrArg List.length he
      simp only [List.length_take, List.length_nil] at this
      omega
    · have hsplit :=
        List.take_append_drop (segment.length - (characters ending).length) segment
      rw [hd] at hsplit
      exact hsplit.symm
  · rintro ⟨text, hne, rfl⟩
    have := List.length_pos_iff.mpr hne
    simp only [List.length_append, Nat.add_sub_cancel, List.drop_left, and_true]
    omega

/-- The text after a parameter up to the end of its segment holds no slash. -/
theorem slash_not_mem_ending (tokens : List Token) :
    '/' ∉ characters (tokens.takeWhile (· ≠ .char '/')) := by
  induction tokens with
  | nil => simp [characters]
  | cons t tokens ih =>
    by_cases h : t = .char '/'
    · simp [h, characters]
    · cases t with
      | name name => simpa [characters] using ih
      | char c =>
        have hc : '/' ≠ c := fun e => h (by rw [e])
        simpa [h, characters, hc] using ih

/-- A text without slashes for a parameter yields a segment without slashes. -/
theorem slash_not_mem_segment {text : List Char} (hs : '/' ∉ text) (tokens : List Token) :
    '/' ∉ text ++ characters (tokens.takeWhile (· ≠ .char '/')) := by
  rw [List.mem_append, not_or]
  exact ⟨hs, slash_not_mem_ending tokens⟩

/-- After the segment of a parameter nothing or a slash follows. -/
theorem takeWhile_of_fills_dropWhile
    (h : Fills (tokens.dropWhile (· ≠ .char '/')) path values) :
    path.takeWhile (· ≠ '/') = [] := by
  have hd := List.head?_dropWhile_not (fun t => decide (t ≠ Token.char '/')) tokens
  cases he : tokens.dropWhile (· ≠ .char '/') with
  | nil =>
    rw [he] at h
    rw [(fills_nil_iff.mp h).1]; rfl
  | cons t rest =>
    rw [he] at h hd
    obtain rfl : t = .char '/' := by simpa using hd
    obtain ⟨p, rfl, _⟩ := fills_char_iff.mp h
    simp

theorem takeWhile_append_of_not_mem {text rest : List Char} (hs : '/' ∉ text)
    (hr : rest.takeWhile (· ≠ '/') = []) :
    (text ++ rest).takeWhile (· ≠ '/') = text ∧ (text ++ rest).dropWhile (· ≠ '/') = rest := by
  have ha : ∀ c ∈ text, decide (c ≠ '/') = true := by
    intro c hc
    simpa using fun e : c = '/' => hs (e ▸ hc)
  have hd : rest.dropWhile (· ≠ '/') = rest := by
    have := List.takeWhile_append_dropWhile (p := (· ≠ '/')) (l := rest)
    rwa [hr] at this
  constructor
  · rw [List.takeWhile_append_of_pos ha, hr, List.append_nil]
  · rw [List.dropWhile_append_of_pos ha, hd]

/-- A parameter is followed by the characters that end its segment. -/
theorem fills_name_iff {name : List Char} (hc : (Token.name name).isCatchAll = false)
    (hall : (tokens.takeWhile (· ≠ .char '/')).all Token.isChar = true) :
    Fills (.name name :: tokens) path values ↔ ∃ text rest vs, text ≠ [] ∧ '/' ∉ text ∧
      path = text ++ characters (tokens.takeWhile (· ≠ .char '/')) ++ rest ∧
      values = (.ofList name, .ofList text) :: vs ∧
      Fills (tokens.dropWhile (· ≠ .char '/')) rest vs := by
  have hsplit {p : List Char} {vs : List (String × String)} : Fills tokens p vs ↔
      ∃ q, p = characters (tokens.takeWhile (· ≠ .char '/')) ++ q ∧
        Fills (tokens.dropWhile (· ≠ .char '/')) q vs := by
    rw [← fills_characters_append hall, List.takeWhile_append_dropWhile]
  constructor
  · intro h
    cases h with
    | name _ text _ hne hs h =>
      obtain ⟨rest, rfl, hr⟩ := hsplit.mp h
      exact ⟨text, rest, _, hne, hs, by simp, rfl, hr⟩
    | catchAll n _ _ => simp [Token.isCatchAll] at hc
  · rintro ⟨text, rest, vs, hne, hs, rfl, rfl, hr⟩
    rw [List.append_assoc]
    exact .name name text hc hne hs (hsplit.mpr ⟨rest, rfl, hr⟩)

/-- Matching finds the values that make the path out of the pattern. -/
theorem resolve?_eq_some_iff (h : check (pieces tokens) = .ok ()) :
    resolve? (pieces tokens) path = some values ↔ Fills tokens path values := by
  induction tokens using pieces.induct generalizing path values with
  | case1 => cases path <;> simp [pieces, resolve?, eq_comm]
  | case2 c rest ih =>
    rw [pieces] at h ⊢
    rw [fills_char_iff]
    cases path with
    | nil => simp [resolve?]
    | cons d path =>
      by_cases he : c = d
      · subst d; simp [resolve?, ih h]
      · simp [resolve?, he, Ne.symm he]
  | case3 name rest =>
    rw [pieces] at h ⊢
    simp only [check] at h
    split at h
    · rename_i he
      obtain rfl : rest = [] := by simpa using he
      rw [fills_catchAll_iff]
      cases path <;> simp [resolve?, eq_comm]
    · cases h
  | case4 name rest hn ih =>
    have hc : (Token.name name).isCatchAll = false := not_isCatchAll_iff.mpr fun n e => hn n e
    rw [pieces.eq_4 _ _ hn] at h ⊢
    simp only [check] at h
    split at h
    · rename_i hall
      rw [fills_name_iff hc hall]
      simp only [resolve?]
      constructor
      · intro hr
        split at hr
        · rename_i hf
          obtain ⟨text, hne, hseg⟩ := fits_iff.mp hf
          obtain ⟨vs, hvs, rfl⟩ := Option.map_eq_some_iff.mp hr
          refine ⟨text, _, vs, hne, ?_, ?_, ?_, (ih h).mp hvs⟩
          · intro hm
            have hall := List.all_takeWhile (l := path) (p := (· ≠ '/'))
            rw [hseg, List.all_append, Bool.and_eq_true] at hall
            exact absurd (List.all_eq_true.mp hall.1 _ hm) (by simp)
          · rw [← hseg, List.takeWhile_append_dropWhile]
          · rw [hseg, List.length_append, Nat.add_sub_cancel, List.take_left]
        · cases hr
      · rintro ⟨text, rest', vs, hne, hs, rfl, rfl, hf⟩
        obtain ⟨ht, hd⟩ := takeWhile_append_of_not_mem (slash_not_mem_segment hs rest)
          (takeWhile_of_fills_dropWhile hf)
        rw [ht, hd, if_pos (fits_iff.mpr ⟨text, hne, rfl⟩), (ih h).mpr hf, Option.map_some,
          List.length_append, Nat.add_sub_cancel, List.take_left]
    · cases h

end RequestRouting.Pattern
