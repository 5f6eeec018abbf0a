import RequestRouting.Text.Blank

/-!
# Cutting and trimming text

The operations are defined on lists of characters in the namespace `Chars`, where they recurse on
the list, and lifted to strings. A cut keeps every character but the mark it is made at.
-/

namespace RequestRouting.Text

namespace Chars

/-- What stands before and after the first occurrence of the mark. -/
def cut? (mark : Char) : List Char → Option (List Char × List Char)
  | [] => none
  | c :: rest =>
    if c = mark then some ([], rest)
    else (cut? mark rest).map fun (before, after) => (c :: before, after)

/-- What stands before and after the last occurrence of the mark. -/
def cutLast? (mark : Char) (s : List Char) : Option (List Char × List Char) :=
  (cut? mark s.reverse).map fun (after, before) => (before.reverse, after.reverse)

/-- The pieces between the marks, one more than there are marks. -/
def pieces (mark : Char) : List Char → List (List Char)
  | [] => [[]]
  | c :: rest =>
    if c = mark then [] :: pieces mark rest
    else match pieces mark rest with
      | [] => [[c]]
      | piece :: more => (c :: piece) :: more

/-- The rest of the text after the given lead. -/
def dropLead? : List Char → List Char → Option (List Char)
  | [], s => some s
  | _ :: _, [] => none
  | l :: lead, c :: s => if l = c then dropLead? lead s else none

/-- The text before the given tail. -/
def dropTail? (tail s : List Char) : Option (List Char) :=
  (dropLead? tail.reverse s.reverse).map List.reverse

/-- Removes the longest tail of characters satisfying `p`. -/
def trimTail (p : Char → Bool) (s : List Char) : List Char :=
  (s.reverse.dropWhile p).reverse

/-- Removes the longest lead and the longest tail of characters satisfying `p`. -/
def trim (p : Char → Bool) (s : List Char) : List Char :=
  trimTail p (s.dropWhile p)

/-- Whether the needle occurs in the text. -/
def contains (needle : List Char) : List Char → Bool
  | [] => needle.isEmpty
  | c :: s => (dropLead? needle (c :: s)).isSome || contains needle s

theorem length_of_dropLead? {lead s rest : List Char} (h : dropLead? lead s = some rest) :
    s.length = lead.length + rest.length := by
  induction lead generalizing s with
  | nil => simp_all [dropLead?]
  | cons l lead ih =>
    cases s with
    | nil => simp [dropLead?] at h
    | cons c s =>
      simp only [dropLead?] at h
      split at h
      · simp [ih h]; omega
      · simp at h

/-- Replaces the occurrences of the text `o :: old` from left to right, not looking at what was
inserted. -/
def replaceAll (o : Char) (old new : List Char) : List Char → List Char
  | [] => []
  | c :: s =>
    match _h : dropLead? (o :: old) (c :: s) with
    | some rest => new ++ replaceAll o old new rest
    | none => c :: replaceAll o old new s
  termination_by s => s.length
  decreasing_by
    · have := length_of_dropLead? ‹_›
      simp only [List.length_cons] at this ⊢
      omega
    · simp

/-- Replaces all occurrences of the old text. An empty old text occurs before and after every
character. -/
def replace (old new s : List Char) : List Char :=
  match old with
  | [] => new ++ s.flatMap (· :: new)
  | o :: old => replaceAll o old new s

/-- The lines of the text, without the line feed, or the carriage return and line feed, that ends
them. Text after the last line feed is a line unless it's empty. -/
def lines (s : List Char) : List (List Char) :=
  let ended := pieces '\n' s
  let last := ended.getLast?.getD []
  (ended.dropLast.map fun line => (dropTail? ['\r'] line).getD line) ++
    (if last.isEmpty then [] else [last])

end Chars

/-- What stands before and after the first occurrence of the mark. -/
def cut? (mark : Char) (s : String) : Option (String × String) :=
  (Chars.cut? mark s.toList).map fun (before, after) => (.ofList before, .ofList after)

/-- What stands before and after the last occurrence of the mark. -/
def cutLast? (mark : Char) (s : String) : Option (String × String) :=
  (Chars.cutLast? mark s.toList).map fun (before, after) => (.ofList before, .ofList after)

/-- The pieces between the marks, one more than there are marks. -/
def pieces (mark : Char) (s : String) : List String :=
  (Chars.pieces mark s.toList).map String.ofList

/-- The rest of the text after the given lead. -/
def dropLead? (lead s : String) : Option String :=
  (Chars.dropLead? lead.toList s.toList).map String.ofList

/-- The text before the given tail. -/
def dropTail? (tail s : String) : Option String :=
  (Chars.dropTail? tail.toList s.toList).map String.ofList

/-- Whether the text starts with the given lead. -/
def startsWith (lead s : String) : Bool := (Chars.dropLead? lead.toList s.toList).isSome

/-- Whether the text ends with the given tail. -/
def endsWith (tail s : String) : Bool := (Chars.dropTail? tail.toList s.toList).isSome

/-- Removes the longest lead of characters satisfying `p`. -/
def trimLead (p : Char → Bool) (s : String) : String := .ofList (s.toList.dropWhile p)

/-- Removes the longest tail of characters satisfying `p`. -/
def trimTail (p : Char → Bool) (s : String) : String := .ofList (Chars.trimTail p s.toList)

/-- Removes the longest lead and the longest tail of characters satisfying `p`. -/
def trim (p : Char → Bool) (s : String) : String := .ofList (Chars.trim p s.toList)

/-- Whether the needle occurs in the text. -/
def contains (needle s : String) : Bool := Chars.contains needle.toList s.toList

/-- Replaces all occurrences of the old text, from left to right. -/
def replace (old new s : String) : String :=
  .ofList (Chars.replace old.toList new.toList s.toList)

/-- The lines of the text, without their line ends. -/
def lines (s : String) : List String := (Chars.lines s.toList).map String.ofList

/-- ASCII letters in lower case, everything else as it is. -/
def lower (s : String) : String := .ofList (s.toList.map Char.toLower)

/-- ASCII letters in upper case, everything else as it is. -/
def upper (s : String) : String := .ofList (s.toList.map Char.toUpper)

/-- Whether two texts are equal up to the case of ASCII letters. -/
def sameLetters (s t : String) : Bool := lower s == lower t

/-- The texts one after another, separated by the given one. -/
def join (separator : String) (texts : List String) : String := separator.intercalate texts

end RequestRouting.Text
