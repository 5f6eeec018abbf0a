import Mathlib.Data.List.Rotate
import RequestRouting.Proofs.Routing.Best
import RequestRouting.Proofs.Routing.Gate

/-!
# Rotation

A router that selects in rotation counts a turn for each request that several of its routes match,
and for no other request. So while all the requests that make it count are for the same path, the
counted turns number these requests, and any of them that follow each other, as many as there are
matching routes, go around all of these routes once.
-/

namespace RequestRouting.Router

/-- The places of the entries that match a path, in the order of their declaration. -/
def places (r : Router) (path : String) : List Nat := (r.matching path).map (·.2)

/-- Whether a request is turned away at the gate, as it comes from outside and its path is hidden. -/
def turnsAway (r : Router) (req : Request) : Bool := !req.isInternal && r.isHidden req.uri.path

/-- Whether a request is for a path, and isn't turned away. -/
def isAskedFor (r : Router) (path : String) (req : Request) : Bool :=
  req.uri.path = path && !r.turnsAway req

/-- What is selected in a run for the requests that a path is asked for by. -/
def askedFor (r : Router) (path : String) (run : List (Request × Option Selection)) :
    List (Request × Option Selection) :=
  run.filter fun x => r.isAskedFor path x.1

variable {r : Router} {path : String} {req : Request} {w : World} {turn : Nat}

@[simp] theorem length_places (r : Router) (path : String) :
    (r.places path).length = (r.matching path).length := by simp [places]

theorem nodup_places (r : Router) (path : String) : (r.places path).Nodup := by
  have h := r.pairwise_matching path
  rw [places]
  exact (List.pairwise_map.mpr h).imp Nat.ne_of_lt

/-- An entry that matches a path is entered by a request for it. -/
theorem exists_enter_of_mem {x : Entry × Nat} (h : x ∈ r.matching path) (hp : req.uri.path = path) :
    ∃ seen, enter x.1 req = some seen := by
  obtain ⟨values, hv⟩ := Option.isSome_iff_exists.mp (List.mem_filter.mp h).2
  rw [enter, hp, hv]
  exact ⟨_, rfl⟩

/-- If several entries match, the one whose turn it is gets selected, and the turn counts. -/
theorem exists_select?_next (hm : r.mode = .next) (hk : 2 ≤ (r.matching path).length)
    (ht : r.isAskedFor path req = true) (hw : w.turns[r.place]? = some turn) :
    ∃ s, r.select? req w = some s ∧ s.isTurn = true ∧
      (r.places path)[turn % (r.places path).length]? = some s.place := by
  simp only [isAskedFor, turnsAway, Bool.and_eq_true, decide_eq_true_eq, Bool.not_eq_true'] at ht
  obtain ⟨rfl, hopen⟩ := ht
  have hturn : w.turns.getD r.place 0 = turn := by simp [Array.getD_eq_getD_getElem?, hw]
  cases hmatch : r.matching req.uri.path with
  | nil => simp [hmatch] at hk
  | cons first rest =>
    have hrest : rest ≠ [] := by
      rintro rfl
      simp [hmatch] at hk
    have hlt : turn % (first :: rest).length < (first :: rest).length :=
      Nat.mod_lt _ (Nat.succ_pos _)
    have hsel : select r.mode turn w.draw.1 first rest =
        (first :: rest)[turn % (first :: rest).length] := by
      simp only [select, hm, List.getElem?_eq_getElem hlt, Option.getD_some]
    have hmem : select r.mode turn w.draw.1 first rest ∈ r.matching req.uri.path := by
      rw [hmatch]
      exact select_mem _ _ _ _ _
    obtain ⟨seen, hseen⟩ := exists_enter_of_mem hmem rfl
    refine ⟨⟨(select r.mode turn w.draw.1 first rest).2, seen, true⟩, ?_, rfl, ?_⟩
    · rw [select?, route?, hopen, hmatch, hturn]
      dsimp only
      rw [hseen]
      simp [hm, hrest]
    · rw [length_places, places, hmatch, List.getElem?_map, List.getElem?_eq_getElem hlt, hsel]
      rfl

/-- No other request counts as a turn: if it's turned away, nothing is selected, and if at most one
entry matches, there's nothing to choose. -/
theorem any_isTurn_select?_eq_false
    (h : r.turnsAway req = true ∨ (r.matching req.uri.path).length ≤ 1) :
    (r.select? req w).any (·.isTurn) = false := by
  rw [select?, route?]
  split
  · rfl
  · rename_i hopen
    have hone : (r.matching req.uri.path).length ≤ 1 := h.resolve_left hopen
    cases hmatch : r.matching req.uri.path with
    | nil => rfl
    | cons first rest =>
      obtain rfl : rest = [] := by simpa [hmatch] using hone
      dsimp only
      cases enter (select r.mode (w.turns.getD r.place 0) w.draw.1 first []).1 req <;> simp

/-- Of the requests in a run, those for a path are routed to the places of its entries in turn, if
there are several, and no other request counts. -/
theorem map_place_of_run (hm : r.mode = .next) (hk : 2 ≤ (r.matching path).length)
    (hw : w.turns[r.place]? = some turn) {run : List (Request × Option Selection)}
    (hr : Run r.step r.place w run)
    (ho : ∀ x ∈ run, r.isAskedFor path x.1 = true ∨ r.turnsAway x.1 = true ∨
      (r.matching x.1.uri.path).length ≤ 1) :
    ((r.askedFor path run).map fun x => x.2.map (·.place)) =
      (List.range' turn (r.askedFor path run).length).map fun turn =>
        (r.places path)[turn % (r.places path).length]? := by
  -- The turn of the run ahead is what's counted so far.
  induction hr generalizing turn with
  | nil => rfl
  | @cons w w' req rest hturns _ ih =>
    obtain ⟨hreq, hrest⟩ := List.forall_mem_cons.mp ho
    have hcount := hturns.trans (r.getElem?_turns_advance (r.select? req w) w)
    by_cases ht : r.isAskedFor path req = true
    · obtain ⟨s, hs, hturn, hplace⟩ := exists_select?_next hm hk ht hw
      have hnext : w'.turns[r.place]? = some (turn + 1) := by
        rw [hcount, hs, hw]
        simp [hturn]
      have hcons : r.askedFor path ((req, (r.step req w).1) :: rest) =
          (req, some s) :: r.askedFor path rest := by simp [askedFor, step, ht, hs]
      rw [hcons, List.map_cons, ih hnext hrest, List.length_cons, List.range'_succ, List.map_cons,
        hplace, Option.map_some]
    · have hsame : w'.turns[r.place]? = some turn := by
        rw [hcount, any_isTurn_select?_eq_false (hreq.resolve_left ht), hw]
        rfl
      have hcons : r.askedFor path ((req, (r.step req w).1) :: rest) = r.askedFor path rest := by
        simp [askedFor, ht]
      rw [hcons, ih hsame hrest]

/-- Going around a list once, from anywhere, is the list in rotation. -/
theorem map_range'_eq_rotate {α : Type} {l : List α} (n : Nat) :
    ((List.range' n l.length).map fun i => l[i % l.length]?) = (l.rotate n).map some := by
  apply List.ext_getElem?
  intro i
  by_cases hi : i < l.length
  · have hlt : (n + i) % l.length < l.length := Nat.mod_lt _ (Nat.zero_lt_of_lt hi)
    simp [hi, hlt, Nat.add_comm i n]
  · simp [hi]

/-- Rotation is fair. While the requests for a path that several entries match are interleaved only
with requests that are turned away, or that at most one entry matches, any of them that follow each
other, as many as there are matching entries, are routed to each of these entries once, going around
them in the order of their declaration. It starts wherever the turns that are counted lead to. -/
theorem next_goes_around (hm : r.mode = .next) (hk : 2 ≤ (r.matching path).length)
    (hw : w.turns[r.place]? = some turn) {run : List (Request × Option Selection)}
    (hr : Run r.step r.place w run)
    (ho : ∀ x ∈ run, r.isAskedFor path x.1 = true ∨ r.turnsAway x.1 = true ∨
      (r.matching x.1.uri.path).length ≤ 1)
    {before block after : List (Request × Option Selection)}
    (hs : r.askedFor path run = before ++ block ++ after)
    (hl : block.length = (r.matching path).length) :
    (block.map fun x => x.2.map (·.place)) =
        ((r.places path).rotate (turn + before.length)).map some ∧
      (∀ place ∈ r.places path, (block.countP fun x => x.2.map (·.place) = some place) = 1) ∧
      (r.places path).Pairwise (· < ·) ∧
      ∀ handlers req w, r.serve handlers req w = hand handlers (r.step req w) := by
  have hall := map_place_of_run hm hk hw hr ho
  have hrange : List.range' turn (before ++ block ++ after).length =
      List.range' turn before.length ++ List.range' (turn + before.length) block.length ++
        List.range' (turn + (before ++ block).length) after.length := by
    simp [List.range'_append_1, Nat.add_assoc]
  rw [hs, hrange, List.map_append, List.map_append, List.map_append, List.map_append] at hall
  have hblock := List.append_inj_right (List.append_inj_left hall (by simp)) (by simp)
  rw [hl, ← length_places, map_range'_eq_rotate] at hblock
  refine ⟨hblock, fun place hp => ?_, List.pairwise_map.mpr (r.pairwise_matching path),
    fun handlers req w => r.serve_eq_hand handlers req w⟩
  have hcount : (block.map fun x => x.2.map (·.place)).count (some place) = 1 := by
    have hnodup : ((r.places path).rotate (turn + before.length)).Nodup :=
      List.nodup_rotate.mpr (r.nodup_places path)
    rw [hblock]
    exact List.count_eq_one_of_mem (hnodup.map fun _ _ => Option.some.inj)
      (List.mem_map_of_mem (List.mem_rotate.mpr hp))
  rw [List.count, List.countP_map] at hcount
  rw [← hcount]
  exact List.countP_congr fun x _ => by simp

/-- Requests for a shop with a second route for hats: one that is hidden, one that only a prefix
matches, and some for the hat, one of which was captured. -/
def hatRequests : List Request :=
  [{ uri := ⟨"/shop/hat/", none⟩ }, { uri := ⟨"/shop/admin/", none⟩ },
    { uri := ⟨"/shop/hat/", none⟩ }, { uri := ⟨"/shop/hat/red", none⟩ },
    { uri := ⟨"/shop/hat/", none⟩, attributes := ⟨[(Attribute.history, "/shop/hat/")]⟩ },
    { uri := ⟨"/shop/hat/", none⟩ }]

/-- A shop with a second route for hats, which selects in rotation. -/
def hatShop : Router := make .next 0 (shopChanges ++ [.attach ⟨"/shop/hat/", .exact⟩])

/-- What is selected for the requests, after seven turns were counted. -/
def hatRun : List (Request × Option Selection) :=
  trace hatShop.step hatRequests { turns := #[7] }

/-- The last three requests for the hat are routed to each of its three routes. -/
theorem next_goes_around_hatShop :
    hatShop.mode = .next ∧ (hatShop.matching "/shop/hat/").length = 3 ∧
    Run hatShop.step hatShop.place { turns := #[7] } hatRun ∧
    (hatShop.askedFor "/shop/hat/" hatRun).length = 4 ∧
    ((hatShop.askedFor "/shop/hat/" hatRun).drop 1).map (fun x => x.2.map (·.place)) =
      [some 2, some 0, some 1] := by
  have hmode : hatShop.mode = .next := mode_make _ _ _
  have hk : (hatShop.matching "/shop/hat/").length = 3 := by decide +kernel
  have hw : ({ turns := #[7] } : World).turns[hatShop.place]? = some 7 := by decide +kernel
  have hr : Run hatShop.step hatShop.place { turns := #[7] } hatRun := run_trace _ _ _ _
  have hlen : (hatShop.askedFor "/shop/hat/" hatRun).length = 4 := by decide +kernel
  have hreqs : ∀ req ∈ hatRequests, hatShop.isAskedFor "/shop/hat/" req = true ∨
      hatShop.turnsAway req = true ∨ (hatShop.matching req.uri.path).length ≤ 1 := by decide +kernel
  have ho : ∀ x ∈ hatRun, hatShop.isAskedFor "/shop/hat/" x.1 = true ∨
      hatShop.turnsAway x.1 = true ∨ (hatShop.matching x.1.uri.path).length ≤ 1 := by
    intro x hx
    apply hreqs
    rw [← map_trace hatShop.step hatRequests { turns := #[7] }]
    exact List.mem_map_of_mem hx
  have hs : hatShop.askedFor "/shop/hat/" hatRun =
      (hatShop.askedFor "/shop/hat/" hatRun).take 1 ++
        (hatShop.askedFor "/shop/hat/" hatRun).drop 1 ++ [] := by
    rw [List.append_nil, List.take_append_drop]
  obtain ⟨hblock, -⟩ := next_goes_around hmode (by omega) hw hr ho hs (by simp [hlen, hk])
  refine ⟨hmode, hk, hr, hlen, hblock.trans ?_⟩
  have hplaces : hatShop.places "/shop/hat/" = [0, 1, 2] := by decide +kernel
  simp [hplaces, hlen]

end RequestRouting.Router
