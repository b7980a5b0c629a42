import ApiTypings.Proofs.Storage.Change
import Mathlib.Data.List.Basic

/-!
Locations that lead to the same place as their standard forms.

A location and its standard form need not lead to the same place: home directories and variables
are expanded in the one and not in the other, a step back undoes a name that may lead nowhere, and a
slash or a dot at the end asks for a directory. A location that has nothing of this kind is followed
just as its standard form, provided that one can get to the working directory from the root.
-/

namespace ApiTypings

namespace Disk

variable {d : Disk} {here p : Place} {directory : String}

/-- Names are followed one after another. -/
theorem follow_append {front : List String} (h : d.follow here front = .ok p) (back : List String) :
    d.follow here (front ++ back) = d.follow p back := by
  fun_induction Disk.follow d here front with
  | case1 here => rw [List.nil_append, Except.ok.inj h]
  | case2 => cases h
  | case3 => cases h
  | case4 here rest hhere ih => simpa [Disk.follow, hhere] using ih h
  | case5 here rest hhere _ ih => simpa [Disk.follow, hhere] using ih h
  | case6 => cases h
  | case7 here part rest hhere hmoves hdown hshort ih =>
    simpa [Disk.follow, hhere, hmoves, hdown, hshort] using ih h

/-- A component that stays makes no difference if another one follows. -/
theorem follow_stay (here : Place) (part : String) (rest : List String) :
    d.follow here ("." :: part :: rest) = d.follow here (part :: rest) := by
  cases hhere : d.look here with
  | none => simp [follow, hhere]
  | some entry => cases entry <;> simp [follow, hhere]

theorem follow_filter {parts : List String} (h : parts.getLast? ≠ some ".") (here : Place) :
    d.follow here (parts.filter (· ≠ ".")) = d.follow here parts := by
  induction parts generalizing here with
  | nil => rfl
  | cons part rest ih =>
    cases rest with
    | nil =>
      have hmoves : part ≠ "." := by simpa using h
      simp [hmoves]
    | cons next more =>
      have hrest := ih (by simpa using h)
      by_cases hmoves : part = "."
      · subst hmoves
        rw [follow_stay, ← hrest]
        simp
      · have hkept : (part :: next :: more).filter (· ≠ ".") =
            part :: (next :: more).filter (· ≠ ".") :=
          List.filter_cons_of_pos (by simpa using hmoves)
        rw [hkept, follow, follow]
        split
        · rfl
        · rfl
        · simp only [hrest]

theorem isFile_congr {a b : String} (hlocate : d.locate directory a = d.locate directory b)
    (hasks : asksDirectory a = asksDirectory b) : d.isFile directory a = d.isFile directory b := by
  simp only [isFile, lookAt, hlocate, hasks]

end Disk

namespace Location

variable {s : Surroundings} {d : Disk} {directory location : String} {names : List String}

/-! ### Components of a standard form -/

theorem foldl_descend_forward {parts : List String} (h : ".." ∉ parts) (above : List String) :
    parts.foldl descend above = above ++ parts.filter (· ≠ ".") := by
  induction parts generalizing above with
  | nil => simp
  | cons part rest ih =>
    rw [List.mem_cons, not_or] at h
    rw [List.foldl_cons, ih h.2, descend]
    by_cases hmoves : part = "."
    · simp [hmoves]
    · simp [hmoves, Ne.symm h.1]

theorem parts_slash (directory : String) : parts (directory ++ "/") = parts directory := by
  have hempty : parts "" = [] := rfl
  have happend := parts_append directory ""
  rwa [String.append_empty, hempty, List.append_nil] at happend

theorem parts_join_relative (h : isAbsolute location = false) (directory : String) :
    parts (join directory location) = parts directory ++ parts location := by
  rw [join, if_neg (by simp [h])]
  split
  next hend =>
    rcases hend with rfl | hslash
    · rw [String.empty_append]
      rfl
    · obtain ⟨front, hfront⟩ := List.getLast?_eq_some_iff.1 hslash
      have hdirectory : directory = String.ofList front ++ "/" := by
        refine String.toList_injective ?_
        rw [hfront, String.toList_append, String.toList_ofList]
        rfl
      rw [hdirectory, parts_append, parts_slash]
  next => exact parts_append directory location

/-- The components of a standard form, if the location never goes back. -/
theorem fold_join_absolute (h : isAbsolute location = true) (hforward : ".." ∉ parts location)
    (directory : String) :
    fold (join directory location) = (parts location).filter (· ≠ ".") := by
  rw [join, if_pos h, fold, foldl_descend_forward hforward, List.nil_append]

theorem fold_join_relative (h : isAbsolute location = false) (hforward : ".." ∉ parts location)
    (directory : String) :
    fold (join directory location) = fold directory ++ (parts location).filter (· ≠ ".") := by
  rw [fold, parts_join_relative h, List.foldl_append, foldl_descend_forward hforward, fold]

theorem Spells.ends_in_last {front : List String} {last : String}
    (h : Spells location (front ++ [last])) : ∃ lead, location = lead ++ last := by
  have hjoin : ∃ lead, Text.join "/" (front ++ [last]) = lead ++ last := by
    by_cases hfront : front = []
    · subst hfront
      refine ⟨"", ?_⟩
      rw [List.nil_append, Text.join, String.intercalate_singleton, String.empty_append]
    · exact ⟨_, Text.join_concat hfront last⟩
  obtain ⟨lead, hlead⟩ := hjoin
  rcases h.rooted with rfl | rfl
  · exact ⟨"/" ++ lead, by rw [hlead, String.append_assoc]⟩
  · exact ⟨"//" ++ lead, by rw [hlead, String.append_assoc]⟩

/-- A standard form that leads to a name does not end in a slash. -/
theorem Spells.asksDirectory (h : Spells location names) (hne : names ≠ []) :
    Disk.asksDirectory location = false := by
  obtain ⟨front, last, rfl⟩ := (List.eq_nil_or_concat' names).resolve_left hne
  have hlast : IsName last := h.plain last (by simp)
  obtain ⟨lead, rfl⟩ := h.ends_in_last
  obtain ⟨cs, c, hchars⟩ := (List.eq_nil_or_concat' last.toList).resolve_left
    fun hnil => hlast.full (String.toList_injective hnil)
  have hslash : c ≠ '/' := by
    rintro rfl
    exact hlast.single (by simp [hchars])
  simp [Disk.asksDirectory, hchars, hslash]

/-! ### Locations that are spelled out -/

/-- A location that the file system can be asked about at all. -/
structure Usable (location : String) : Prop where
  characters : '\x00' ∉ location.toList
  length : location.utf8ByteSize ≤ Disk.longestLocation

/-- A location that expansion leaves alone, that never goes back and that ends in a name. If it is
relative, one can get to the working directory from the root of the disk. -/
structure SpelledOut (s : Surroundings) (d : Disk) (location : String) : Prop where
  expanded : expandVariables s (expandHome s location) = location
  forward : ".." ∉ parts location
  name : Storing.endsInName location = true
  bare : Disk.asksDirectory location = false
  usable : Usable location
  usableForm : Usable (absolute s location)
  directory : isAbsolute location = false → d.follow [] (fold s.directory) = .ok (fold s.directory)

namespace SpelledOut

theorem exists_last (h : SpelledOut s d location) :
    ∃ front last, parts location = front ++ [last] ∧ last ≠ "." := by
  have hname := h.name
  rcases List.eq_nil_or_concat' (parts location) with hnil | ⟨front, last, hparts⟩
  · rw [Storing.endsInName, hnil] at hname
    exact absurd hname Bool.false_ne_true
  · refine ⟨front, last, hparts, ?_⟩
    rintro rfl
    rw [Storing.endsInName, hparts, List.getLast?_concat] at hname
    exact Bool.false_ne_true hname

theorem ne_empty (h : SpelledOut s d location) : location ≠ "" := by
  rintro rfl
  obtain ⟨front, last, hparts, -⟩ := h.exists_last
  exact List.append_ne_nil_of_right_ne_nil front (List.cons_ne_nil _ _) hparts.symm

theorem last_ne (h : SpelledOut s d location) : (parts location).getLast? ≠ some "." := by
  obtain ⟨front, last, hparts, hmoves⟩ := h.exists_last
  rw [hparts, List.getLast?_concat]
  exact fun hlast => hmoves (Option.some.inj hlast)

/-- The standard form leads to the name that the location ends in. -/
theorem fold_ne_nil (h : SpelledOut s d location) : fold (join s.directory location) ≠ [] := by
  obtain ⟨front, last, hparts, hmoves⟩ := h.exists_last
  have hlast : last ∈ (parts location).filter (· ≠ ".") :=
    List.mem_filter.2 ⟨by rw [hparts]; exact List.mem_concat_self, decide_eq_true hmoves⟩
  cases habsolute : isAbsolute location with
  | true =>
    rw [fold_join_absolute habsolute h.forward]
    exact List.ne_nil_of_mem hlast
  | false =>
    rw [fold_join_relative habsolute h.forward]
    exact List.append_ne_nil_of_right_ne_nil _ (List.ne_nil_of_mem hlast)

theorem normalize_eq (h : SpelledOut s d location) (htrim : Text.trim location = location) :
    normalize s location location = absolute s location := by
  have hchoose : choose location location = location := by
    rw [choose, htrim]
    exact ite_self location
  rw [normalize, hchoose, h.expanded]

end SpelledOut

end Location

namespace Disk

variable {d : Disk} {s : Surroundings} {location : String}

theorem locate_eq_follow (h : Location.Usable location) (hne : location ≠ "") (directory : String) :
    d.locate directory location =
      d.follow (if Location.isAbsolute location then [] else Location.fold directory)
        (Location.parts location) := by
  rw [locate, if_neg hne, if_neg h.characters, if_neg (Nat.not_lt.2 h.length)]
  split <;> rfl

/-- A location that is spelled out leads where its standard form leads. -/
theorem locate_absolute (h : Location.SpelledOut s d location) :
    d.locate s.directory (Location.absolute s location) = d.locate s.directory location := by
  have hspells := Location.spells_absolute s location
  rw [locate_eq_follow h.usableForm hspells.ne_empty, locate_eq_follow h.usable h.ne_empty,
    if_pos hspells.isAbsolute, hspells.parts_eq]
  cases habsolute : Location.isAbsolute location with
  | true =>
    rw [Location.fold_join_absolute habsolute h.forward, follow_filter h.last_ne, if_pos rfl]
  | false =>
    rw [Location.fold_join_relative habsolute h.forward, follow_append (h.directory habsolute),
      follow_filter h.last_ne, if_neg Bool.false_ne_true]

/-- There is a file at a location that is spelled out if and only if there is one at its standard
form. -/
theorem isFile_normalize (h : Location.SpelledOut s d location)
    (htrim : Text.trim location = location) :
    d.isFile s.directory (Location.normalize s location location) =
      d.isFile s.directory location := by
  have hspells := Location.spells_absolute s location
  rw [h.normalize_eq htrim]
  refine isFile_congr (locate_absolute h) ?_
  rw [hspells.asksDirectory h.fold_ne_nil, h.bare]

end Disk

end ApiTypings
