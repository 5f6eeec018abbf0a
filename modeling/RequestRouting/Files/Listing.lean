import RequestRouting.Files.Tree

/-!
# Listings

The listing of a folder is a page with a link to every entry, in the order of their names. Folders
are marked by a slash at the end of their name.
-/

namespace RequestRouting

namespace FileTree

/-- The name of an entry as it's listed. -/
def Entry.label (name : String) : Entry → String
  | .folder => name ++ "/"
  | .file _ _ => name

/-- The names of the entries in a folder in order, folders marked by a slash. -/
def labels (entries : List (String × Entry)) : List String :=
  (entries.map fun (name, entry) => entry.label name).mergeSort fun a b => decide (a ≤ b)

end FileTree

namespace Listing

/-- Escapes a character that has a meaning in a page. -/
def escape (c : Char) : String :=
  if c = '&' then "&amp;"
  else if c = '<' then "&lt;"
  else if c = '>' then "&gt;"
  else if c = '\x22' then "&quot;"
  else c.toString

/-- A text as it's written into a page. -/
def escaped (text : String) : String := String.join (text.toList.map escape)

/-- The link to an entry. -/
def link (reference label : String) : String :=
  "<li><a href=\"" ++ escaped reference ++ escaped label ++ "\">" ++ escaped label ++ "</a></li>\n"

/-- The page listing the given entries of the folder with the given reference. -/
def page (reference : String) (labels : List String) : String :=
  let title := escaped reference
  "<!DOCTYPE html>\n<html><head><title>" ++ title ++ "</title></head><body><h1>" ++ title ++
    "</h1><ul>\n" ++ String.join (labels.map (link reference)) ++ "</ul></body></html>\n"

end Listing

end RequestRouting
