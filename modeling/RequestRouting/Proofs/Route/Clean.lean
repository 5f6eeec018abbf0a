import Mathlib.Data.List.Chain
import RequestRouting.Proofs.Route.Tokens
import RequestRouting.Route.Basic

/-!
# Texts without doubled slashes

Cleaning leaves no slash behind another one, and what fills a pattern without doubled slashes has
none either, as the text of a name isn't empty.
-/

namespace RequestRouting

/-- No separator stands right behind another one. -/
def Spaced {α : Type} (separator : α) (l : List α) : Prop :=
  l.IsChain fun a b => ¬(a = separator ∧ b = separator)

namespace Spaced

variable {α : Type} {separator a : α} {l m : List α}

theorem nil : Spaced separator [] := List.isChain_nil

theorem cons_iff : Spaced separator (a :: l) ↔
    (a = separator → l.head? ≠ some separator) ∧ Spaced separator l := by
  rw [Spaced, List.isChain_cons]
  refine and_congr_left fun _ => ⟨fun h ha hl => h _ hl ⟨ha, rfl⟩, fun h b hb hs => ?_⟩
  exact h hs.1 (hs.2 ▸ hb)

theorem left (h : Spaced separator (l ++ m)) : Spaced separator l := (List.isChain_append.mp h).1

theorem right (h : Spaced separator (l ++ m)) : Spaced separator m :=
  (List.isChain_append.mp h).2.1

/-- What stands before a separator doesn't end in one. -/
theorem getLast?_ne (h : Spaced separator (l ++ separator :: m)) : l.getLast? ≠ some separator :=
  fun he => (List.isChain_append.mp h).2.2 separator he separator rfl ⟨rfl, rfl⟩

theorem append_of_not_mem (hl : separator ∉ l) (hm : Spaced separator m) :
    Spaced separator (l ++ m) := by
  induction l with
  | nil => exact hm
  | cons a l ih =>
    rw [List.mem_cons, not_or] at hl
    exact cons_iff.mpr ⟨fun ha => absurd ha.symm hl.1, ih hl.2⟩

end Spaced

theorem spaced_collapse (slash : Bool) (s : List Char) :
    Spaced '/' (collapse slash s) ∧ (slash = true → (collapse slash s).head? ≠ some '/') := by
  induction s generalizing slash with
  | nil => exact ⟨Spaced.nil, fun _ => by simp [collapse]⟩
  | cons c s ih =>
    rw [collapse]
    split
    · split
      · exact ⟨(ih true).1, fun _ => (ih true).2 rfl⟩
      · rename_i hs
        exact ⟨Spaced.cons_iff.mpr ⟨fun _ => (ih true).2 rfl, (ih true).1⟩, fun h => absurd h hs⟩
    · rename_i hc
      exact ⟨Spaced.cons_iff.mpr ⟨fun h => absurd h hc, (ih false).1⟩, fun _ => by simpa using hc⟩

theorem spaced_clean (uri : String) : Spaced '/' (clean uri).toList := by
  rw [clean, String.toList_ofList]
  exact Spaced.cons_iff.mpr ⟨fun _ => (spaced_collapse true _).2 rfl, (spaced_collapse true _).1⟩

namespace Pattern

theorem Reads.head? {s : List Char} {ts : List Token} (h : Reads s ts)
    (hh : ts.head? = some (.char '/')) : s.head? = some '/' := by
  cases h with
  | nil => cases hh
  | name _ _ => cases hh
  | char _ _ _ =>
    cases hh
    rfl

/-- The tokens of a text without doubled slashes hold none either. -/
theorem Reads.spaced {s : List Char} {ts : List Token} (h : Reads s ts) (hs : Spaced '/' s) :
    Spaced (.char '/') ts := by
  induction h with
  | nil => exact Spaced.nil
  | name hr _ ih =>
    obtain rfl := eq_of_readFullName hr
    have hrest := Spaced.right (l := [_]) (Spaced.cons_iff.mp hs).2.right
    exact Spaced.cons_iff.mpr ⟨by simp, ih hrest⟩
  | char _ _ h ih =>
    obtain ⟨hc, hs⟩ := Spaced.cons_iff.mp hs
    refine Spaced.cons_iff.mpr ⟨fun he hh => ?_, ih hs⟩
    exact hc (Token.char.inj he) (h.head? hh)

theorem Fills.head? {ts : List Token} {path : List Char} {values : List (String × String)}
    (h : Fills ts path values) (hc : ∀ t ∈ ts, t.isCatchAll = false)
    (hh : path.head? = some '/') : ts.head? = some (.char '/') := by
  cases h with
  | nil => cases hh
  | char c _ =>
    obtain rfl : c = '/' := Option.some.inj hh
    rfl
  | name name text _ ht hs _ =>
    obtain ⟨c, text, rfl⟩ := List.exists_cons_of_ne_nil ht
    obtain rfl : c = '/' := Option.some.inj hh
    exact absurd List.mem_cons_self hs
  | catchAll _ _ _ => exact absurd (hc _ List.mem_cons_self) (by simp [Token.isCatchAll])

/-- What fills a pattern without doubled slashes and catch-alls has no doubled slashes. -/
theorem Fills.spaced {ts : List Token} {path : List Char} {values : List (String × String)}
    (h : Fills ts path values) (hc : ∀ t ∈ ts, t.isCatchAll = false)
    (hs : Spaced (.char '/') ts) : Spaced '/' path := by
  induction h with
  | nil => exact Spaced.nil
  | char c h ih =>
    obtain ⟨hd, hs⟩ := Spaced.cons_iff.mp hs
    have hc' := fun t ht => hc t (List.mem_cons_of_mem _ ht)
    refine Spaced.cons_iff.mpr ⟨fun he hh => ?_, ih hc' hs⟩
    exact hd (by rw [he]) (h.head? hc' hh)
  | name _ _ _ _ ht _ ih =>
    exact Spaced.append_of_not_mem ht
      (ih (fun t ht => hc t (List.mem_cons_of_mem _ ht)) (Spaced.cons_iff.mp hs).2)
  | catchAll _ _ _ => exact absurd (hc _ List.mem_cons_self) (by simp [Token.isCatchAll])

end Pattern

end RequestRouting
