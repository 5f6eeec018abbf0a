import Mathlib.Data.Option.Basic
import RequestRouting.Proofs.Serving.Following
import RequestRouting.Proofs.Text.Base64
import RequestRouting.Proofs.Text.Letters
import RequestRouting.Proofs.Text.Utf8

/-!
# Who is let in

A name and a password are given by the encoded form of both with a colon between them. There's one
way to write them but for blanks and the case of letters, so what a request gives is known exactly,
and the next handler is run for the users of the table and for nobody else.
-/

namespace RequestRouting

namespace BasicAuth

open Text

/-- The encoded form of a name and a password: the Base64 form of their UTF-8 bytes, with a colon
between them. -/
def encoded (user password : String) : List Char :=
  Base64.encode (Utf8.encode (user.toList ++ ':' :: password.toList))

/-- Whether a text is the word in front of the encoded form, in any letter case. -/
def IsScheme (scheme : List Char) : Prop := scheme.map Char.toLower = "basic".toList

/-- Whether a value of the header field gives a name and a password: the word, a space, and the
encoded form, with further blanks behind the space and around all of it. -/
def Gives (value user password : String) : Prop :=
  ':' ∉ user.toList ∧ ∃ lead scheme gap tail : List Char, IsScheme scheme ∧
    (∀ c ∈ lead ++ gap ++ tail, isBlank c = true) ∧
    value.toList = lead ++ (scheme ++ ' ' :: (gap ++ encoded user password)) ++ tail

variable {value user password : String} {scheme : List Char}

theorem IsScheme.isBlank_eq_false (h : IsScheme scheme) {c : Char} (hc : c ∈ scheme) :
    isBlank c = false := by
  have hletter : c.toLower ∈ "basic".toList := h ▸ List.mem_map_of_mem hc
  have hall : ("basic".toList.all fun c => !isBlank c) = true := by decide
  by_contra hblank
  rw [Bool.not_eq_false] at hblank
  rw [toLower_of_isBlank hblank] at hletter
  simpa [hblank] using List.all_eq_true.mp hall c hletter

theorem isScheme_iff : sameLetters (.ofList scheme) "basic" = true ↔ IsScheme scheme :=
  sameLetters_word (by decide)

theorem isBlank_of_mem_encoded {c : Char} (h : c ∈ encoded user password) : isBlank c = false :=
  Base64.isBlank_of_mem_encode h

theorem encoded_ne_nil (user password : String) : encoded user password ≠ [] := by
  intro he
  have hbytes := Base64.decode?_encode (Utf8.encode (user.toList ++ ':' :: password.toList))
  rw [← encoded, he] at hbytes
  have htext := Utf8.decode?_encode (user.toList ++ ':' :: password.toList)
  rw [← Option.some.inj hbytes, Utf8.decode?] at htext
  simp at htext

/-- The steps by which a value is read, on lists of characters. -/
theorem given?_eq_some_iff : given? value = some (user, password) ↔ ∃ scheme rest bytes text,
    Chars.cut? ' ' (Chars.trim isBlank value.toList) = some (scheme, rest) ∧ IsScheme scheme ∧
    Base64.decode? (Chars.trim isBlank rest) = some bytes ∧ Utf8.decode? bytes = some text ∧
    Chars.cut? ':' text = some (user.toList, password.toList) := by
  simp only [given?, cut?, trim, Option.bind_eq_bind, Option.bind_eq_some_iff,
    Option.map_eq_some_iff, Option.guard_eq_some', exists_const, String.toList_ofList]
  constructor
  · rintro ⟨_, ⟨⟨scheme, rest⟩, hcut, rfl⟩, hscheme, bytes, hbytes, text, htext,
      ⟨before, after⟩, huser, hpair⟩
    obtain ⟨rfl, rfl⟩ := Prod.mk.inj hpair
    rw [String.toList_ofList] at hbytes
    exact ⟨scheme, rest, bytes, text, hcut, isScheme_iff.mp hscheme, hbytes, htext,
      by simpa using huser⟩
  · rintro ⟨scheme, rest, bytes, text, hcut, hscheme, hbytes, htext, huser⟩
    refine ⟨_, ⟨_, hcut, rfl⟩, isScheme_iff.mpr hscheme, bytes, ?_, text, htext, _, huser, ?_⟩
    · rwa [String.toList_ofList]
    · rw [String.ofList_toList, String.ofList_toList]

/-- Only the blanks around a value are trimmed, as what is between them starts with the word and ends
with the encoded form. -/
theorem trim_value (h : IsScheme scheme) (gap : List Char) (user password : String) :
    Chars.trim isBlank (scheme ++ ' ' :: (gap ++ encoded user password)) =
      scheme ++ ' ' :: (gap ++ encoded user password) := by
  apply Chars.trim_eq_self
  · intro c hc
    cases scheme with
    | nil => cases h
    | cons first rest =>
      obtain rfl : first = c := by simpa using hc
      exact h.isBlank_eq_false List.mem_cons_self
  · intro c hc
    rw [List.append_cons, ← List.append_assoc,
      List.getLast?_append_of_ne_nil _ (encoded_ne_nil user password)] at hc
    exact isBlank_of_mem_encoded (List.mem_of_getLast? hc)

theorem given?_of_gives (h : Gives value user password) : given? value = some (user, password) := by
  obtain ⟨huser, lead, scheme, gap, tail, hscheme, hblank, hvalue⟩ := h
  simp only [List.mem_append, or_imp, forall_and] at hblank
  obtain ⟨⟨hlead, hgap⟩, htail⟩ := hblank
  have hspace : ' ' ∉ scheme := fun hc => absurd (hscheme.isBlank_eq_false hc) (by decide)
  have hrest : Chars.trim isBlank (gap ++ encoded user password) = encoded user password := by
    have h := Chars.trim_append_append (s := encoded user password) hgap (List.forall_mem_nil _)
    rwa [List.append_nil, Chars.trim_eq_self_of_forall fun _ => isBlank_of_mem_encoded] at h
  refine given?_eq_some_iff.mpr ⟨scheme, gap ++ encoded user password, _, _, ?_, hscheme, ?_,
    Utf8.decode?_encode _, Chars.cut?_append huser password.toList⟩
  · rw [hvalue, Chars.trim_append_append hlead htail, trim_value hscheme,
      Chars.cut?_append hspace]
  · rw [hrest, encoded, Base64.decode?_encode]

theorem gives_of_given? (h : given? value = some (user, password)) : Gives value user password := by
  obtain ⟨scheme, rest, bytes, text, hcut, hscheme, hbytes, htext, huser⟩ :=
    given?_eq_some_iff.mp h
  obtain ⟨lead, tail, hvalue, hlead, htail⟩ := Chars.exists_trim isBlank value.toList
  obtain ⟨gap, more, hrest, hgap, hmore⟩ := Chars.exists_trim isBlank rest
  obtain rfl := Utf8.encode_of_decode? htext
  obtain rfl := Chars.eq_of_cut? huser
  refine ⟨Chars.not_mem_of_cut?_eq_some huser, lead, scheme, gap, more ++ tail, hscheme, ?_, ?_⟩
  · simp only [List.mem_append, or_imp, forall_and]
    exact ⟨⟨hlead, hgap⟩, hmore, htail⟩
  · rw [encoded, Base64.encode_of_decode? hbytes]
    rw [Chars.eq_of_cut? hcut, hrest] at hvalue
    simpa using hvalue

theorem given?_iff : given? value = some (user, password) ↔ Gives value user password :=
  ⟨gives_of_given?, given?_of_gives⟩

example : Gives "  BASIC  YWxpY2U6YTpi" "alice" "a:b" :=
  ⟨by decide, [' ', ' '], "BASIC".toList, [' '], [], by unfold IsScheme; decide,
    List.all_eq_true.mp (by decide), by decide⟩

/-- Whether a request gives the name of a user with the password that is in the table. -/
def Admits (a : BasicAuth) (req : Request) (user : String) : Prop :=
  ∃ value password, req.headers.get? .authorization = some value ∧ Gives value user password ∧
    a.credentials.get? user = some password

theorem user?_eq_some_iff {a : BasicAuth} {req : Request} :
    a.user? req = some user ↔ a.Admits req user := by
  simp only [user?, Option.bind_eq_bind, Option.bind_eq_some_iff, Prod.exists, given?_iff,
    exists_const, Option.guard_eq_some', Option.some.injEq]
  constructor
  · rintro ⟨value, hvalue, name, password, hgives, _, hexpected, rfl, rfl⟩
    exact ⟨value, _, hvalue, hgives, hexpected⟩
  · rintro ⟨value, password, hvalue, hgives, hexpected⟩
    exact ⟨value, hvalue, user, password, hgives, password, hexpected, rfl, rfl⟩

end BasicAuth

/-- Whether a request is another one with the name of a user attached, and alike in all else. -/
structure Request.IsNamed (req : Request) (user : String) (seen : Request) : Prop where
  user : seen.attributes.get? Attribute.user = some user
  attributes : ∀ key, key ≠ Attribute.user → seen.attributes.get? key = req.attributes.get? key
  method : seen.method = req.method
  uri : seen.uri = req.uri
  headers : seen.headers = req.headers
  body : seen.body = req.body

theorem Request.isNamed_set (req : Request) (user : String) :
    req.IsNamed user (req.set Attribute.user user) where
  user := Keyed.get?_insert_self _ _ _
  attributes _ h := Keyed.get?_insert_of_ne _ h _
  method := rfl
  uri := rfl
  headers := rfl
  body := rfl

namespace Handler

/-- Whether a stack of layers answers a request by itself, whatever the handler below. -/
def Answers (stack : Handler → Handler) (req : Request) (res : Response) : Prop :=
  ∀ next jump w, (stack next).run jump req w = some (res, w)

variable {stack : Handler → Handler} {req seen seen' : Request} {res : Response}

/-- The handler below tells requests apart, so it's handed one of them only. -/
theorem HandsOn.unique (h : HandsOn stack req seen) (h' : HandsOn stack req seen') :
    seen' = seen := by
  have hrun := (h (.slot 0) (fun _ req w => if req = seen then some ({}, w) else none) {}).symm.trans
    (h' (.slot 0) _ {})
  by_contra hne
  simp [run, hne] at hrun

theorem HandsOn.not_answers (h : HandsOn stack req seen) : ¬Answers stack req res := by
  intro ha
  have hrun := (h (.slot 0) (fun _ _ _ => none) {}).symm.trans (ha (.slot 0) _ {})
  cases hrun

end Handler

namespace BasicAuth

variable {a : BasicAuth} {req : Request} {user : String}

theorem handsOn_of_admits (h : a.Admits req user) :
    Handler.HandsOn (.layer (.basicAuth a)) req (req.set Attribute.user user) := by
  intro next jump w
  rw [Handler.run, Middleware.serve, authenticate, user?_eq_some_iff.mpr h]

theorem answers_of_not_admits (h : ¬∃ user, a.Admits req user) :
    Handler.Answers (.layer (.basicAuth a)) req a.challenge := by
  have hnone : a.user? req = none :=
    Option.eq_none_iff_forall_ne_some.mpr fun user hu => h ⟨user, user?_eq_some_iff.mp hu⟩
  intro next jump w
  rw [Handler.run, Middleware.serve, authenticate, hnone]
  rfl

/-- The next handler gets a request exactly if that gives the name and the password of a user of the
table, and then it gets the name of that user, whatever name was there before. Otherwise the answer
is the challenge for the realm, whatever the table, the next handler and the request. -/
theorem handsOn_iff_admits (a : BasicAuth) (req : Request) :
    (∀ seen, Handler.HandsOn (.layer (.basicAuth a)) req seen ↔
      ∃ user, a.Admits req user ∧ seen = req.set Attribute.user user) ∧
    (∀ user, req.IsNamed user (req.set Attribute.user user)) ∧
    (Handler.Answers (.layer (.basicAuth a)) req
      ((Response.ofStatus .unauthorized).header .wwwAuthenticate
        ("Basic realm=\"" ++ a.realm ++ "\"")) ↔ ¬∃ user, a.Admits req user) := by
  refine ⟨fun seen => ⟨fun h => ?_, ?_⟩, req.isNamed_set, ⟨?_, answers_of_not_admits⟩⟩
  · by_cases hadmits : ∃ user, a.Admits req user
    · obtain ⟨user, hu⟩ := hadmits
      exact ⟨user, hu, (handsOn_of_admits hu).unique h⟩
    · exact absurd (answers_of_not_admits hadmits) h.not_answers
  · rintro ⟨user, hu, rfl⟩
    exact handsOn_of_admits hu
  · rintro h ⟨user, hu⟩
    exact (handsOn_of_admits hu).not_answers h

end BasicAuth

end RequestRouting
