import RequestRouting.Middleware.StaticFiles
import RequestRouting.Serving.Run

/-!
# What static files answer

What a path leads to depends on the files only: a folder that's asked for without its slash, a file,
a folder that's listed, or nothing. The rest of the request only decides on how that is answered.
Only what leads to nothing is left to the next handler.
-/

namespace RequestRouting.StaticFiles

/-- What a path leads to. -/
inductive Found where
  /-- A folder that's asked for without a slash at the end. -/
  | bare
  | file (path : String) (content : ByteArray) (modified : Time)
  /-- A folder that's listed. -/
  | listing (entries : List (String × FileTree.Entry))
  | nothing

variable (s : StaticFiles) (t : FileTree) (now : Time) (req : Request) (path : String)

/-- What a file path leads to. -/
def foundAt (path : String) : Found :=
  match t.find? path with
  | some (.file content modified) => .file path content modified
  | _ => .nothing

/-- What a path leads to that is that of a folder. -/
def foundIn (folder : String) : Found :=
  if !Text.endsWith "/" path then .bare
  else if t.isFile (Path.join folder s.index) then foundAt t (Path.join folder s.index)
  else if s.listing then (t.list? folder).elim .nothing .listing
  else .nothing

/-- What the path of a request leads to. An index file stands for its folder. -/
def found : Found :=
  match s.resolve? path with
  | none => .nothing
  | some full => if t.isFolder full then s.foundIn t path full else foundAt t full

/-- The response with the content of a file. -/
def fileResponse (path : String) (content : ByteArray) (modified : Time) : Response :=
  let res := ((Response.header {} .contentType (s.types.forPath path)).header .contentLength
    (toString content.size)).header .lastModified (Time.text modified)
  let res := if s.negotiate then res else res.header .contentType MediaType.octetStream
  { res.header .date (Time.text now) with body := content }

/-- The response to a client that has a copy. -/
def unmodified : Response := Response.header { status := .notModified } .contentLength "0"

/-- The response that adds the slash. -/
def slashed : Response :=
  .redirect .found (Uri.ofParts (req.reference ++ "/") req.uri.query).text

/-- The response with a listing. -/
def listed (entries : List (String × FileTree.Entry)) : Response :=
  let body := (Listing.page req.reference (FileTree.labels entries)).toUTF8
  { (Response.header {} .contentType "text/html; charset=utf-8").header .contentLength
      (toString body.size) with body }

/-- The response to a request whose path leads to something. -/
def respond : Found → Option Response
  | .bare => some (slashed req)
  | .file path content modified =>
    let res := s.fileResponse now path content modified
    some (if isFresh req (some modified) then unmodified
      else if req.method = .head then { res with body := .empty } else res)
  | .listing entries => some (listed req entries)
  | .nothing => none

variable {s t now req path}

theorem found_file {full : String} {content : ByteArray} {modified : Time}
    (hr : s.resolve? path = some full) (hf : t.find? full = some (.file content modified)) :
    s.found t path = .file full content modified := by
  have hn : t.isFolder full = false := by simp only [FileTree.isFolder, hf]
  simp only [found, hr, hn, Bool.false_eq_true, if_false, foundAt, hf]

theorem found_listing {full : String} {entries : List (String × FileTree.Entry)}
    (hr : s.resolve? path = some full) (hf : t.isFolder full = true)
    (he : Text.endsWith "/" path = true) (hi : t.isFile (Path.join full s.index) = false)
    (hs : s.listing = true) (hl : t.list? full = some entries) :
    s.found t path = .listing entries := by
  simp only [found, hr, hf, foundIn, he, hi, hs, hl, if_true, Bool.not_true, Bool.false_eq_true,
    if_false, Option.elim]

theorem ofFile_of_find? {content : ByteArray} {modified : Time}
    (h : t.find? path = some (.file content modified)) (types : MediaTypes) :
    Response.ofFile t path types = .ok (Response.header
      { (Response.header {} .contentType (types.forPath path)).header .contentLength
        (toString content.size) with body := content } .lastModified (Time.text modified)) := by
  have hread : t.read path = .ok content := by simp only [FileTree.read, h]
  have hmodified : t.modified? path = some modified := by simp only [FileTree.modified?, h]
  simp only [Response.ofFile, hread, hmodified, bind, Except.bind]
  rfl

theorem ofFile_of_not_file (h : ∀ content modified, t.find? path ≠ some (.file content modified))
    (types : MediaTypes) : ∃ e, Response.ofFile t path types = .error e := by
  unfold Response.ofFile FileTree.read
  cases hf : t.find? path with
  | none => exact ⟨_, rfl⟩
  | some entry =>
    cases entry with
    | folder => exact ⟨_, rfl⟩
    | file content modified => exact absurd hf (h content modified)

theorem serve?_eq (path : String) :
    s.serve? t now req path = s.respond now req (foundAt t path) := by
  by_cases h : ∃ content modified, t.find? path = some (.file content modified)
  · obtain ⟨content, modified, h⟩ := h
    have hmodified : t.modified? path = some modified := by simp only [FileTree.modified?, h]
    simp only [serve?, ofFile_of_find? h, hmodified, foundAt, h, respond, fileResponse]
    cases s.negotiate <;> cases isFresh req (some modified) <;> rfl
  · have hn : ∀ content modified, t.find? path ≠ some (.file content modified) :=
      fun content modified hf => h ⟨content, modified, hf⟩
    obtain ⟨e, he⟩ := ofFile_of_not_file hn s.types
    have hf : foundAt t path = .nothing := by
      unfold foundAt
      split
      · exact absurd ‹_› (hn _ _)
      · rfl
    simp only [serve?, he, hf, respond]

theorem serveFolder?_eq (folder : String) :
    s.serveFolder? t now req folder = s.respond now req (s.foundIn t req.uri.path folder) := by
  unfold serveFolder? foundIn
  cases Text.endsWith "/" req.uri.path with
  | false => rfl
  | true =>
    simp only [Bool.not_true, Bool.false_eq_true, if_false]
    split
    · exact serve?_eq _
    · split
      · cases t.list? folder <;> rfl
      · rfl

/-- The response to a request that reads. -/
theorem answer?_eq (h : req.method = .get ∨ req.method = .head) :
    s.answer? t now req = s.respond now req (s.found t req.uri.path) := by
  have hm : (decide (req.method ≠ .get) && decide (req.method ≠ .head)) = false := by
    rcases h with h | h <;> rw [h] <;> rfl
  simp only [answer?, found, hm, Bool.false_eq_true, if_false]
  cases s.resolve? req.uri.path with
  | none => rfl
  | some full =>
    dsimp only
    split
    · exact serveFolder?_eq full
    · exact serve?_eq full

end RequestRouting.StaticFiles
