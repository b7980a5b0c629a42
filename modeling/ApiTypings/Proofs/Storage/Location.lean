import ApiTypings.Proofs.Text.Pieces
import ApiTypings.Storage.Location

/-!
Locations in standard form.

A location in standard form spells out the names that lead to it from the root: none of them is
empty, contains a slash or stands for a step that stays or goes back. So taking it apart gives
these names back, and something written behind it only makes the last name longer.
-/

namespace ApiTypings.Location

/-! ### Components -/

/-- A component that is the name of something in a directory. -/
structure IsName (part : String) : Prop where
  full : part ≠ ""
  single : '/' ∉ part.toList
  moves : part ≠ "."
  down : part ≠ ".."

theorem parts_append (front back : String) :
    parts (front ++ "/" ++ back) = parts front ++ parts back := by
  rw [parts, Text.pieces_append rfl, List.filter_append, parts, parts]

theorem parts_of_isName {name : String} (h : IsName name) : parts name = [name] := by
  simp [parts, Text.pieces_of_not_mem h.single, h.full]

theorem parts_join {names : List String} (h : ∀ name ∈ names, IsName name) :
    parts (Text.join "/" names) = names := by
  induction names with
  | nil => rfl
  | cons name rest ih =>
      have hname := parts_of_isName (h name List.mem_cons_self)
      by_cases hrest : rest = []
      · subst hrest
        rw [Text.join, String.intercalate_singleton, hname]
      · have hparts := ih fun s hs => h s (List.mem_cons_of_mem _ hs)
        rw [Text.join_cons hrest, parts_append, hname, hparts, List.singleton_append]

theorem isName_descend {above : List String} {part : String}
    (habove : ∀ name ∈ above, IsName name) (hfull : part ≠ "") (hsingle : '/' ∉ part.toList) :
    ∀ name ∈ descend above part, IsName name := by
  unfold descend
  split
  · exact habove
  · split
    · exact fun name hname => habove name (List.dropLast_subset _ hname)
    · next hmoves hdown =>
      intro name hname
      rcases List.mem_append.1 hname with hname | hname
      · exact habove name hname
      · rw [List.mem_singleton.1 hname]
        exact ⟨hfull, hsingle, hmoves, hdown⟩

/-- The components from the root to a location are names. -/
theorem isName_fold (location : String) : ∀ name ∈ fold location, IsName name := by
  have hparts : ∀ part ∈ parts location, part ≠ "" ∧ '/' ∉ part.toList := by
    intro part hpart
    obtain ⟨hpiece, hfull⟩ := List.mem_filter.1 hpart
    exact ⟨of_decide_eq_true hfull, Text.not_mem_of_mem_pieces hpiece⟩
  refine List.foldlRecOn (motive := fun names => ∀ name ∈ names, IsName name) (parts location)
    descend (List.forall_mem_nil _) fun above habove part hpart => ?_
  exact isName_descend habove (hparts part hpart).1 (hparts part hpart).2

/-- Names lead down one by one. -/
theorem foldl_descend {names : List String} (h : ∀ name ∈ names, IsName name)
    (above : List String) : names.foldl descend above = above ++ names := by
  induction names generalizing above with
  | nil => simp
  | cons name rest ih =>
      have hname := h name List.mem_cons_self
      have hstep : descend above name = above ++ [name] := by
        rw [descend, if_neg hname.moves, if_neg hname.down]
      rw [List.foldl_cons, hstep, ih fun s hs => h s (List.mem_cons_of_mem _ hs)]
      simp

/-! ### The standard form -/

/-- A location in standard form and the names on the way to it. -/
structure Spells (location : String) (names : List String) : Prop where
  plain : ∀ name ∈ names, IsName name
  rooted : location = "/" ++ Text.join "/" names ∨ location = "//" ++ Text.join "/" names

theorem root_eq_or (location : String) : root location = "/" ∨ root location = "//" := by
  unfold root
  split <;> simp

theorem spells_absolute (s : Surroundings) (location : String) :
    Spells (absolute s location) (fold (join s.directory location)) where
  plain := isName_fold _
  rooted := by
    simp only [absolute]
    rcases root_eq_or (join s.directory location) with h | h
    · exact .inl (by rw [h])
    · exact .inr (by rw [h])

namespace Spells

variable {location : String} {names : List String}

theorem parts_eq (h : Spells location names) : parts location = names := by
  have hone : ∀ back, parts ("/" ++ back) = parts back := fun back =>
    parts_append "" back
  rcases h.rooted with rfl | rfl
  · rw [hone, parts_join h.plain]
  · have htwo : "//" ++ Text.join "/" names = "/" ++ ("/" ++ Text.join "/" names) := by
      rw [← String.append_assoc]
      rfl
    rw [htwo, hone, hone, parts_join h.plain]

theorem fold_eq (h : Spells location names) : fold location = names := by
  rw [fold, h.parts_eq, foldl_descend h.plain, List.nil_append]

theorem isAbsolute (h : Spells location names) : isAbsolute location = true := by
  rcases h.rooted with rfl | rfl <;> simp [Location.isAbsolute]

theorem ne_empty (h : Spells location names) : location ≠ "" := by
  rintro rfl
  exact absurd h.isAbsolute (by decide)

/-- What is written behind a location makes its last name longer; behind the root it is a name of
its own. -/
theorem append (h : Spells location names) {suffix : String}
    (hlast : IsName (names.getLastD "" ++ suffix)) :
    Spells (location ++ suffix) (names.dropLast ++ [names.getLastD "" ++ suffix]) where
  plain name hname := by
    rcases List.mem_append.1 hname with hname | hname
    · exact h.plain name (List.dropLast_subset _ hname)
    · exact List.mem_singleton.1 hname ▸ hlast
  rooted := by
    have hjoin : Text.join "/" names ++ suffix =
        Text.join "/" (names.dropLast ++ [names.getLastD "" ++ suffix]) := by
      rcases List.eq_nil_or_concat names with rfl | ⟨front, last, rfl⟩
      · simp [Text.join]
      · simp [Text.join_concat_append]
    rcases h.rooted with rfl | rfl
    · exact .inl (by rw [String.append_assoc, hjoin])
    · exact .inr (by rw [String.append_assoc, hjoin])

end Spells

/-- A location that a user gave resolves to one in standard form. -/
theorem spells_of_resolve {s : Surroundings} {given fallback location : String}
    (h : resolve s given fallback = .ok location) : Spells location (fold location) := by
  have hspells := spells_absolute s (expandVariables s (expandHome s (choose given fallback)))
  rw [← normalize, ← resolve_eq_ok h] at hspells
  rwa [hspells.fold_eq]

/-! ### Characters -/

variable {c : Char} {s : Surroundings} {location : String}

theorem mem_join {directory : String} (h : c ∈ (join directory location).toList)
    (hslash : c ≠ '/') : c ∈ directory.toList ∨ c ∈ location.toList := by
  unfold join at h
  split at h
  · exact .inr h
  · split at h <;> simpa [hslash] using h

/-- The names that lead to a location are components of it. -/
theorem fold_subset (location : String) : fold location ⊆ parts location := by
  refine List.foldlRecOn (motive := fun names => names ⊆ parts location) (parts location)
    descend (List.nil_subset _) fun above habove part hpart => ?_
  unfold descend
  split
  · exact habove
  · split
    · exact fun name hname => habove (List.dropLast_subset _ hname)
    · exact List.append_subset.2 ⟨habove, List.cons_subset.2 ⟨hpart, List.nil_subset _⟩⟩

theorem mem_of_mem_fold {name : String} (hname : name ∈ fold location) (h : c ∈ name.toList) :
    c ∈ location.toList :=
  Text.mem_of_mem_pieces (List.mem_filter.1 (fold_subset location hname)).1 h

/-- A standard form has no characters but slashes and those of the location and the working
directory. -/
theorem mem_absolute (h : c ∈ (absolute s location).toList) (hslash : c ≠ '/') :
    c ∈ s.directory.toList ∨ c ∈ location.toList := by
  have hnames : c ∈ (Text.join "/" (fold (join s.directory location))).toList := by
    rcases (spells_absolute s location).rooted with hroot | hroot <;>
    · rw [hroot, String.toList_append, List.mem_append] at h
      exact h.resolve_left fun hlead => hslash (by simpa using hlead)
  rcases Text.mem_join hnames with hjoint | ⟨name, hname, hc⟩
  · exact absurd (by simpa using hjoint) hslash
  · exact mem_join (mem_of_mem_fold hname hc) hslash

end ApiTypings.Location
