import RequestRouting.Proofs.Assembly.Atomicity
import RequestRouting.Proofs.Routing.Mount

/-!
# Which application is served at a mount point

A virtual host keeps all of its mounts for good, the longest ones first, and those of the same length
in the order of their age. A request below the mount point of an application that has just been
assembled, which no longer mount has to do with, comes to that application unless there was a mount
at the same point before: the oldest of these goes on to be served, whatever application is
registered by the name of the one behind it since then.
-/

namespace RequestRouting

namespace Mount

/-- Whether a mount has to do with a request, which is for a path below the mount point, or for the
mount point without its slash. -/
def Concerns (m : Mount) (req : Request) : Prop :=
  Text.startsWith m.point req.uri.path = true ∨ m.bare ≠ "" ∧ req.uri.path = m.bare

variable {m m' : Mount} {req : Request}

/-- A mount point is a clean path that ends with a slash. -/
theorem point_of_ofPath {path : String} {handler : Handler} (h : ofPath path handler = .ok m) :
    m.point = if Text.endsWith "/" (clean path) then clean path else clean path ++ "/" := by
  obtain ⟨base, -, hm⟩ := exists_of_bind_ok h
  obtain rfl := Except.ok.inj hm
  rfl

/-- A mount point that another one begins with is the same if both are of the same length. -/
theorem point_eq_of_append {rest : String} (hl : m'.length = m.length)
    (h : m'.point = m.point ++ rest) : m'.point = m.point := by
  have hsize : rest.utf8ByteSize = 0 := by
    rw [length, length, h, String.utf8ByteSize_append] at hl
    exact Nat.add_eq_left.mp hl
  rw [h, String.utf8ByteSize_eq_zero_iff.mp hsize, String.append_empty]

/-- A mount of the same length as one that a path is below of has to do with it only if it's at the
same point. -/
theorem point_eq_of_concerns (hl : m'.length = m.length)
    (hs : Text.startsWith m.point req.uri.path = true) (hc : m'.Concerns req) :
    m'.point = m.point := by
  obtain ⟨rest, hrest⟩ := Text.startsWith_iff.mp hs
  obtain hs' | ⟨-, hbare⟩ := hc
  · obtain ⟨rest', hrest'⟩ := Text.startsWith_iff.mp hs'
    have happend := congrArg String.toList (hrest'.symm.trans hrest)
    rw [String.toList_append, String.toList_append] at happend
    obtain ⟨more, h, -⟩ | ⟨more, h, -⟩ := List.append_eq_append_iff.mp happend
    · have hm : m.point = m'.point ++ .ofList more := String.ext (by simp [h])
      exact (point_eq_of_append hl.symm hm).symm
    · have hm : m'.point = m.point ++ .ofList more := String.ext (by simp [h])
      exact point_eq_of_append hl hm
  · -- the slash that's missing would make it longer
    obtain ⟨tail, htail, -⟩ := Text.exists_trimTail (· = '/') m'.point
    have hm : m'.point = m.point ++ (rest ++ tail) := by
      rw [← String.append_assoc, ← hrest, hbare]
      exact htail
    exact point_eq_of_append hl hm

end Mount

namespace VirtualHost

variable {h : VirtualHost} {mount : Mount} {req : Request}

theorem decide_cons_of_startsWith (m : Mount) (rest : List Mount)
    (hs : Text.startsWith m.point req.uri.path = true) :
    decide req (m :: rest) = .handle m.handler := by
  rw [decide, if_pos hs]

theorem decide_cons_of_not_concerns {m : Mount} (rest : List Mount) (hc : ¬m.Concerns req) :
    decide req (m :: rest) = decide req rest := by
  obtain ⟨hs, hb⟩ := not_or.mp hc
  rw [decide, if_neg hs, if_neg]
  simpa using hb

/-- Whether the mounts of a virtual host are in the order of their length. -/
def IsOrdered (h : VirtualHost) : Prop := h.mounts.Pairwise fun a b => b.length ≤ a.length

theorem mounts_add_cons (a mount : Mount) (rest : List Mount) : (add ⟨a :: rest⟩ mount).mounts =
    if mount.length ≤ a.length then a :: (add ⟨rest⟩ mount).mounts else mount :: a :: rest := by
  unfold add
  by_cases hl : mount.length ≤ a.length <;> simp [hl]

theorem IsOrdered.add (ho : h.IsOrdered) (mount : Mount) : (h.add mount).IsOrdered := by
  obtain ⟨mounts⟩ := h
  induction mounts with
  | nil => exact List.pairwise_singleton _ _
  | cons a rest ih =>
    obtain ⟨ha, hrest⟩ := List.pairwise_cons.mp ho
    rw [IsOrdered, mounts_add_cons]
    split
    · rename_i hl
      refine List.pairwise_cons.mpr ⟨fun m hm => ?_, ih hrest⟩
      obtain rfl | hm := mem_add hm
      · exact hl
      · exact ha m hm
    · rename_i hl
      have hlt : a.length < mount.length := Nat.lt_of_not_le hl
      refine List.pairwise_cons.mpr ⟨?_, ho⟩
      exact List.forall_mem_cons.mpr ⟨Nat.le_of_lt hlt, fun m hm =>
        Nat.le_trans (ha m hm) (Nat.le_of_lt hlt)⟩

theorem mem_add_of_mem {m : Mount} (hm : m ∈ h.mounts) : m ∈ (h.add mount).mounts := by
  obtain ⟨before, after, hmounts, hadded⟩ := h.gains_add mount
  rw [hmounts] at hm
  rw [hadded]
  exact List.mem_append.mpr ((List.mem_append.mp hm).imp_right (List.mem_cons_of_mem _))

/-- A request below a mount point that is added, which no longer mount has to do with, comes to the
first mount at that point. -/
theorem decide_add (ho : h.IsOrdered) (hs : Text.startsWith mount.point req.uri.path = true)
    (hl : ∀ m ∈ h.mounts, mount.length < m.length → ¬m.Concerns req) :
    decide req (h.add mount).mounts =
      .handle ((h.mounts.find? (·.point = mount.point)).getD mount).handler := by
  obtain ⟨mounts⟩ := h
  induction mounts with
  | nil => exact decide_cons_of_startsWith mount [] hs
  | cons a rest ih =>
    obtain ⟨ha, hrest⟩ := List.pairwise_cons.mp ho
    obtain ⟨hla, hlrest⟩ := List.forall_mem_cons.mp hl
    rw [mounts_add_cons]
    by_cases hp : a.point = mount.point
    · have hle : mount.length ≤ a.length := by rw [Mount.length, Mount.length, hp]
      rw [if_pos hle, decide_cons_of_startsWith _ _ (by rw [hp]; exact hs)]
      simp [hp]
    · rw [List.find?_cons_of_neg (by simpa using hp)]
      split
      · rename_i hle
        have hc : ¬a.Concerns req := by
          obtain heq | hlt := Nat.eq_or_lt_of_le hle
          · exact mt (Mount.point_eq_of_concerns heq.symm hs) hp
          · exact hla hlt
        rw [decide_cons_of_not_concerns _ hc]
        exact ih hrest hlrest
      · rename_i hle
        -- all mounts from here on are shorter, so none of them is at the same point
        have hn : rest.find? (·.point = mount.point) = none := by
          refine List.find?_eq_none.mpr fun m hm hpoint => hle ?_
          have hlength : m.length = mount.length := by
            rw [Mount.length, of_decide_eq_true hpoint, Mount.length]
          exact hlength ▸ ha m hm
        rw [decide_cons_of_startsWith _ _ hs, hn, Option.getD_none]

end VirtualHost

namespace Component

variable {c c' : Component} {w w' : World}

/-- Whether something holds of all virtual hosts of a component. -/
def AllHosts (P : VirtualHost → Prop) (hosts : Keyed String VirtualHost) : Prop :=
  ∀ entry ∈ hosts.entries, P entry.2

section AllHosts

variable {P : VirtualHost → Prop}

theorem AllHosts.insert {hosts : Keyed String VirtualHost} (ha : AllHosts P hosts) (name : String)
    {h : VirtualHost} (hh : P h) : AllHosts P (hosts.insert name h) := by
  intro entry he
  obtain rfl | he := Keyed.mem_place he
  · exact hh
  · exact ha entry he

theorem AllHosts.addMount (ha : AllHosts P c.hosts) (hadd : ∀ h mount, P h → P (h.add mount))
    (name : String) (mount : Mount) : AllHosts P (c.addMount name mount).hosts := by
  unfold Component.addMount
  split
  · rename_i h hh
    exact ha.insert name (hadd h mount (ha _ (Keyed.mem_of_find? hh)))
  · exact ha

theorem AllHosts.register (ha : AllHosts P c.hosts) (hadd : ∀ h mount, P h → P (h.add mount))
    (app : Application) (mounts : List (String × Mount)) :
    AllHosts P (c.register app mounts).hosts := by
  change AllHosts P (mounts.foldl (fun c p => c.addMount p.1 p.2) c).hosts
  induction mounts generalizing c with
  | nil => exact ha
  | cons first rest ih => exact ih (ha.addMount hadd first.1 first.2)

theorem AllHosts.attach (ha : AllHosts P c.hosts) (hadd : ∀ h mount, P h → P (h.add mount))
    {host path : String} {handler : Handler} (h : c.attach host path handler = .ok c') :
    AllHosts P c'.hosts := by
  unfold Component.attach at h
  split at h
  · cases h
  · rename_i virtual hh
    unfold VirtualHost.attach at h
    cases hm : Mount.ofPath path handler with
    | error e =>
      rw [hm] at h
      cases h
    | ok mount =>
      rw [hm] at h
      obtain rfl := Except.ok.inj h
      exact ha.insert host (hadd virtual mount (ha _ (Keyed.mem_of_find? hh)))

/-- What holds of a virtual host without mounts, and goes on to hold when one is added, holds of all
virtual hosts of a component. -/
theorem IsBuilt.allHosts (hempty : P {}) (hadd : ∀ h mount, P h → P (h.add mount))
    (hb : c.IsBuilt w) : AllHosts P c.hosts := by
  induction hb with
  | empty _ _ =>
    have hnone : AllHosts P {} := fun _ he => absurd he List.not_mem_nil
    exact (hnone.insert defaultHost hempty).insert internalHost hempty
  | addHost _ name ih =>
    unfold Component.addHost Keyed.insertIfAbsent
    split
    · exact ih
    · exact ih.insert name hempty
  | attach _ _ hc ih => exact ih.attach hadd hc
  | assemble _ hc ih =>
    obtain ⟨app, t, ms, -, -, rfl, -⟩ := exists_of_assemble hc
    exact ih.register hadd app ms
  | change _ _ ih => exact ih

end AllHosts

/-- However a component was built, the mounts of its virtual hosts are in the order of their
length. -/
theorem IsBuilt.isOrdered (hb : c.IsBuilt w) {name : String} {h : VirtualHost}
    (hh : c.host? name = some h) : h.IsOrdered :=
  hb.allHosts List.Pairwise.nil (fun _ mount ho => ho.add mount) _ (Keyed.mem_of_find? hh)

/-- An application that is assembled is registered by its name, and mounted on each of its virtual
hosts. -/
theorem mounted_of_assemble {name root : String} {config : Config} {registry : Registry}
    (hd : config.hosts.keys.Nodup)
    (ha : c.assemble w name root config registry = .ok (c', w')) :
    ∃ app, (Assembly.application config (start w name root config registry)).1 = .ok app ∧
      c'.application name = .ok app ∧ w'.applications.get? name = some app.handler ∧
      ∀ point ∈ mountPoints name config, ∃ h mount, c.host? point.1 = some h ∧
        Mount.ofPath point.2 app.handler = .ok mount ∧ c'.host? point.1 = some (h.add mount) := by
  have hstart : Assembly.State.IsApart w name (start w name root config registry) :=
    Assembly.isApart_create name root config.settings registry config.dispatchers w
  rw [assemble_eq] at ha
  split at ha
  · cases ha
  · rename_i app t hgives
    obtain rfl := Assembly.name_of_gives hgives hstart
    obtain ⟨ms, hplan, ha⟩ := exists_of_bind_ok ha
    obtain ⟨rfl, rfl⟩ := Prod.mk.inj (Except.ok.inj ha)
    refine ⟨app, by rw [hgives], ?_, Keyed.get?_insert_self _ _ _, fun point hp => ?_⟩
    · rw [application, applications_register, Keyed.get?_insert_self]
    · exact host?_register (nodup_mountPoints hd app.name) hplan hp

/-- Below each of its mount points, and where no longer mount has to do with the request, an
application that has just been assembled is the one that is served, unless there was a mount at the
same point before. If so, the oldest one is served, even if it's that of an application of the same
name, which isn't the one that is registered by that name any more. -/
theorem serve_assembled {name root : String} {config : Config} {registry : Registry}
    (hb : c.IsBuilt w) (hd : config.hosts.keys.Nodup)
    (ha : c.assemble w name root config registry = .ok (c', w')) :
    ∃ app, (Assembly.application config (start w name root config registry)).1 = .ok app ∧
      c'.application name = .ok app ∧ w'.applications.get? name = some app.handler ∧
      ∀ point ∈ mountPoints name config, ∃ h h' mount, c.host? point.1 = some h ∧
        c'.host? point.1 = some h' ∧ Mount.ofPath point.2 app.handler = .ok mount ∧
        ∀ req : Request, Text.startsWith mount.point req.uri.path = true →
          (∀ m ∈ h'.mounts, mount.length < m.length → ¬m.Concerns req) → ∀ fuel,
            c'.serve fuel point.1 req =
              match h.mounts.find? (·.point = mount.point) with
              | none => app.serve fuel (BasePath.apply ⟨mount.bare⟩ req)
              | some older => World.answer fuel older.handler req := by
  obtain ⟨app, hgives, happ, hregistered, hmounted⟩ := mounted_of_assemble hd ha
  refine ⟨app, hgives, happ, hregistered, fun point hp => ?_⟩
  obtain ⟨h, mount, hh, hm, hh'⟩ := hmounted point hp
  refine ⟨h, h.add mount, mount, hh, hh', hm, fun req hs hl fuel => ?_⟩
  have hdecide := VirtualHost.decide_add (hb.isOrdered hh) hs fun m hmem =>
    hl m (VirtualHost.mem_add_of_mem hmem)
  rw [serve, hh']
  dsimp only
  rw [VirtualHost.serve, hdecide]
  cases h.mounts.find? (·.point = mount.point) with
  | none =>
    rw [Option.getD_none, (Mount.ofPath_eq_ok hm).2]
    rfl
  | some older => rfl

theorem mem_points {name : String} {h : VirtualHost} {points : List String} {m : Mount}
    (hh : c.host? name = some h)
    (hp : (c.host? name).map (·.mounts.map (·.point)) = some points) (hm : m ∈ h.mounts) :
    m.point ∈ points := by
  rw [hh] at hp
  obtain rfl := Option.some.inj hp
  exact List.mem_map_of_mem hm

/-- An application on the default virtual host that answers with a status. -/
def statusConfig (base : String) (code : Nat) : Config where
  hosts := ⟨[(defaultHost, base)]⟩
  routes := ⟨[("/1/", .node (.status { code }))]⟩

/-- A request below a mount point that is assembled behind a longer one. -/
theorem serve_assembled_nested : ∃ c w c' w' app, IsBuilt c w ∧
    c.assemble w "outer" "." (statusConfig "/a/" 202) {} = .ok (c', w') ∧
    c'.application "outer" = .ok app ∧
    ∀ fuel, c'.serve fuel defaultHost { uri := ⟨"/a/1/", none⟩ } =
      app.serve fuel (BasePath.apply ⟨"/a"⟩ { uri := ⟨"/a/1/", none⟩ }) := by
  obtain ⟨⟨c, w⟩, hc, ⟨c', w'⟩, hc', hold, hnew⟩ :
      ∃ p ∈ (Component.empty.assemble {} "inner" "." (statusConfig "/a/b" 201) {}).toOption,
        ∃ q ∈ (p.1.assemble p.2 "outer" "." (statusConfig "/a/" 202) {}).toOption,
          (p.1.host? defaultHost).map (·.mounts.map (·.point)) = some ["/a/b/"] ∧
          (q.1.host? defaultHost).map (·.mounts.map (·.point)) = some ["/a/b/", "/a/"] := by
    decide +kernel
  have hb : c.IsBuilt w := .assemble (.empty rfl rfl) (Assembly.eq_ok_of_toOption hc)
  have ha : c.assemble w "outer" "." (statusConfig "/a/" 202) {} = .ok (c', w') :=
    Assembly.eq_ok_of_toOption hc'
  obtain ⟨app, -, happ, -, hserve⟩ := serve_assembled hb (by decide) ha
  obtain ⟨h, h', mount, hh, hh', hm, hserve⟩ := hserve (defaultHost, "/a/") List.mem_cons_self
  have hpoint : mount.point = "/a/" := (Mount.point_of_ofPath hm).trans (by decide +kernel)
  have hbare : mount.bare = "/a" := by
    rw [Mount.bare, hpoint]
    decide +kernel
  have hfirst : h.mounts.find? (·.point = mount.point) = none := by
    refine List.find?_eq_none.mpr fun m hm => ?_
    rw [List.mem_singleton.mp (mem_points hh hold hm), hpoint]
    decide
  refine ⟨c, w, c', w', app, hb, ha, happ, fun fuel => ?_⟩
  have hanswer := hserve { uri := ⟨"/a/1/", none⟩ } (by rw [hpoint]; decide +kernel) ?_ fuel
  · rw [hfirst, hbare] at hanswer
    exact hanswer
  · intro m hm hlonger
    obtain hp | hp : m.point = "/a/b/" ∨ m.point = "/a/" := by
      simpa using mem_points hh' hnew hm
    · rw [Mount.Concerns, Mount.bare, hp]
      decide +kernel
    · rw [Mount.length, Mount.length, hp, hpoint] at hlonger
      exact absurd hlonger (Nat.lt_irrefl _)

/-- Of two applications that are assembled by the same name one after the other, the first one goes
on to be served. -/
theorem not_serves_assembled : ¬∀ (c c' : Component) (w w' : World) (name root : String)
    (config : Config) (registry : Registry), c.IsBuilt w → config.hosts.keys.Nodup →
    c.assemble w name root config registry = .ok (c', w') →
    ∀ app, c'.application name = .ok app → ∀ point ∈ mountPoints name config,
    ∀ mount, Mount.ofPath point.2 app.handler = .ok mount →
    ∀ req : Request, Text.startsWith mount.point req.uri.path = true →
    (∀ h, c'.host? point.1 = some h → ∀ m ∈ h.mounts, mount.length < m.length →
      ¬m.Concerns req) →
    ∀ fuel, c'.serve fuel point.1 req w' =
      app.serve fuel (BasePath.apply ⟨mount.bare⟩ req) w' := by
  intro hclaim
  obtain ⟨⟨c, w⟩, hc, ⟨c', w'⟩, hc', app, happ, mount, hm, hpoint, hpoints, hserved, hassembled⟩ :
      ∃ p ∈ (Component.empty.assemble {} "app" "." (statusConfig "/app/" 201) {}).toOption,
        ∃ q ∈ (p.1.assemble p.2 "app" "." (statusConfig "/app/" 202) {}).toOption,
        ∃ app ∈ (q.1.application "app").toOption,
        ∃ mount ∈ (Mount.ofPath "/app/" app.handler).toOption, mount.point = "/app/" ∧
          (q.1.host? defaultHost).map (·.mounts.map (·.point)) = some ["/app/", "/app/"] ∧
          (q.1.serve 4 defaultHost { uri := ⟨"/app/1/", none⟩ } q.2).map (·.1.status) =
            some .created ∧
          (app.serve 4 (BasePath.apply ⟨mount.bare⟩ { uri := ⟨"/app/1/", none⟩ }) q.2).map
            (·.1.status) = some .accepted := by
    decide +kernel
  have hb : c.IsBuilt w := .assemble (.empty rfl rfl) (Assembly.eq_ok_of_toOption hc)
  have heq := hclaim c c' w w' "app" "." (statusConfig "/app/" 202) {} hb (by decide)
    (Assembly.eq_ok_of_toOption hc') app (Assembly.eq_ok_of_toOption happ) (defaultHost, "/app/")
    List.mem_cons_self mount (Assembly.eq_ok_of_toOption hm) { uri := ⟨"/app/1/", none⟩ }
    (by rw [hpoint]; decide +kernel) ?_ 4
  · dsimp only at hserved
    rw [heq, hassembled] at hserved
    cases hserved
  · intro h hh m hmem hlonger
    have hp : m.point = "/app/" := by simpa using mem_points hh hpoints hmem
    rw [Mount.length, Mount.length, hp, hpoint] at hlonger
    exact absurd hlonger (Nat.lt_irrefl _)

end Component

end RequestRouting
