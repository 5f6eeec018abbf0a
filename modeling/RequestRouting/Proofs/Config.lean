import RequestRouting.Config.Basic
import RequestRouting.Proofs.Ordered

/-!
# What configurations are like

A record is read field by field, so whatever none of its fields breaks is true of every record that's
read. The virtual hosts of a configuration are the keys of an object, so each of them occurs once.
-/

namespace RequestRouting

namespace Json.Decoder

variable {ε α σ : Type} {v : Json} {s s' : σ}

/-- Whether a field doesn't break a property of a record. -/
def Field.Keeps (P : σ → Prop) (f : Field ε σ) : Prop :=
  ∀ v s s', f.read v s = .ok s' → P s → P s'

theorem keeps_field {P : σ → Prop} {name : String} {decoder : Decoder ε α} {store : α → σ → σ}
    (h : ∀ v x, decoder v = .ok x → ∀ s, P s → P (store x s)) :
    (field name decoder store).Keeps P := by
  intro v s s' hr hs
  have hm : (decoder v).map (store · s) = .ok s' := hr
  cases hv : decoder v with
  | error e =>
    rw [hv] at hm
    cases hm
  | ok x =>
    rw [hv] at hm
    obtain rfl := Except.ok.inj hm
    exact h v x hv s hs

variable {P : σ → Prop} {fields : List (Field ε σ)}

theorem members_keep (hf : ∀ f ∈ fields, f.Keeps P) {seen : List String}
    {ms : List (String × Json)} (h : members fields seen ms s = .ok s') (hs : P s) : P s' := by
  induction ms generalizing seen s with
  | nil =>
    rw [members] at h
    split at h
    · cases h
    · obtain rfl := Except.ok.inj h
      exact hs
  | cons member rest ih =>
    rw [members] at h
    split at h
    · cases h
    · rename_i f hfind
      split at h
      · cases h
      · cases hr : f.read member.2 s with
        | error e =>
          rw [hr] at h
          cases h
        | ok s₁ =>
          rw [hr] at h
          exact ih h (hf f (List.mem_of_find?_eq_some hfind) member.2 s s₁ hr hs)

theorem items_keep (hf : ∀ f ∈ fields, f.Keeps P) {vs rest : List Json}
    (h : items fields vs s = .ok (s', rest)) (hs : P s) : P s' := by
  induction fields generalizing vs s with
  | nil =>
    rw [items] at h
    obtain ⟨rfl, -⟩ := Prod.mk.inj (Except.ok.inj h)
    exact hs
  | cons f fields ih =>
    obtain ⟨hfirst, hfields⟩ := List.forall_mem_cons.mp hf
    cases vs with
    | nil =>
      obtain ⟨rfl, -⟩ := Prod.mk.inj (Except.ok.inj h)
      exact hs
    | cons v vs =>
      rw [items] at h
      cases hr : f.read v s with
      | error e =>
        rw [hr] at h
        cases h
      | ok s₁ =>
        rw [hr] at h
        exact ih hfields h (hfirst v s s₁ hr hs)

/-- Whatever is true of the defaults of a record, and none of its fields breaks, is true of every
record that's read. -/
theorem record_keeps {name : String} (hf : ∀ f ∈ fields, f.Keeps P) (hs : P s)
    (h : record name fields s v = .ok s') : P s' := by
  cases v with
  | obj ms => exact members_keep hf h hs
  | arr vs =>
    rw [record] at h
    cases hi : items fields vs s with
    | error e =>
      rw [hi] at h
      cases h
    | ok p =>
      rw [hi] at h
      obtain ⟨s₁, rest⟩ := p
      have hrest : (if rest.isEmpty then .ok s₁
          else .error (.flaw (.invalidLength vs.length "fewer elements in array")) :
          Except (Problem ε) σ) = .ok s' := h
      split at hrest
      · obtain rfl := Except.ok.inj hrest
        exact items_keep hf hi hs
      · cases hrest
  | null | bool _ | int _ | float _ | str _ => cases h

end Json.Decoder

namespace Config

open Json.Decoder

/-- No virtual host occurs twice in a configuration that's read. -/
theorem nodup_hosts {v : Json} {config : Config} (h : ofJson v = .ok config) :
    config.hosts.keys.Nodup := by
  have hd : decoder v = .ok config := by
    unfold ofJson at h
    cases hv : decoder v with
    | error e =>
      rw [hv] at h
      cases h
    | ok c =>
      rw [hv] at h
      exact congrArg _ (Except.ok.inj h)
  have hstart : (({} : Config).hosts.keys).Nodup := List.nodup_nil
  refine record_keeps (P := fun c : Config => c.hosts.keys.Nodup) ?_ hstart hd
  simp only [List.forall_mem_cons]
  refine ⟨?_, ?_, ?_, ?_, ?_, ?_, nofun⟩
  · exact keeps_field fun _ _ _ _ hs => hs
  · exact keeps_field fun v x hx _ _ => nodup_ordered hx
  all_goals exact keeps_field fun _ _ _ _ hs => hs

end Config

end RequestRouting
