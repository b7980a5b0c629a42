import ApiTypings.Proofs.Document.Place
import ApiTypings.Proofs.Namespace.Mention

/-!
The frame of a list of members.

A merge of members changes nothing in a list but the first member of each name, and what is new
comes last. The frame of a list keeps all of it apart from those members, of which only the names
are left. A list is therefore known from its frame and from what stands in the place of each name,
and a merge is known from what it adds to the frame and what it makes of each place.
-/

namespace ApiTypings.Document

/-- A list of members in which only the name is left of each first member of a name; `seen` are the
names that have occurred before. -/
def frameFrom (seen : List NameKey) : List Json → List (Json ⊕ NameKey)
  | [] => []
  | v :: rest =>
    match keyOf? v with
    | none => .inl v :: frameFrom seen rest
    | some key =>
      if key ∈ seen then .inl v :: frameFrom seen rest
      else .inr key :: frameFrom (key :: seen) rest

def frame (members : List Json) : List (Json ⊕ NameKey) := frameFrom [] members

/-- What stands in a list where its frame has a name or another value. -/
def Fills (members : List Json) : Json ⊕ NameKey → Json → Prop
  | .inl w, v => v = w
  | .inr key, v => memberAt? key members = some v

theorem fills_frameFrom (seen : List NameKey) (members : List Json) :
    List.Forall₂ (fun slot v => Fills members slot v ∧ ∀ key ∈ seen, slot ≠ .inr key)
      (frameFrom seen members) members := by
  induction members generalizing seen with
  | nil => exact .nil
  | cons v rest ih =>
      have hrest {seen' : List NameKey} (hsub : ∀ key ∈ seen, key ∈ seen')
          (hv : ∀ key, keyOf? v = some key → key ∈ seen') :
          List.Forall₂ (fun slot w => Fills (v :: rest) slot w ∧ ∀ key ∈ seen, slot ≠ .inr key)
            (frameFrom seen' rest) rest := by
        refine (ih seen').imp fun slot w ⟨hfills, hslot⟩ =>
          ⟨?_, fun key h => hslot key (hsub key h)⟩
        cases slot with
        | inl x => exact hfills
        | inr key =>
            have hne : keyOf? v ≠ some key := fun h => hslot key (hv key h) rfl
            rw [Fills, memberAt?_cons, if_neg hne]
            exact hfills
      rw [frameFrom]
      cases hkey : keyOf? v with
      | none => exact .cons ⟨rfl, by simp⟩ (hrest (fun _ h => h) (by simp [hkey]))
      | some key =>
          dsimp only
          split
          next hseen =>
            exact .cons ⟨rfl, by simp⟩ (hrest (fun _ h => h) (by simp [hkey, hseen]))
          next hseen =>
            refine .cons ⟨?_, ?_⟩ (hrest (fun _ => List.mem_cons_of_mem key) (by simp [hkey]))
            · rw [Fills, memberAt?_cons, if_pos hkey]
            · rintro other hother heq
              obtain rfl := Sum.inr.inj heq
              exact hseen hother

/-- A list is what fills its frame. -/
theorem fills_frame (members : List Json) :
    List.Forall₂ (Fills members) (frame members) members :=
  (fills_frameFrom [] members).imp fun _ _ h => h.1

/-- A list is determined by its frame and its members. -/
theorem eq_of_frame {members others : List Json} (hframe : frame members = frame others)
    (hmembers : ∀ key, memberAt? key members = memberAt? key others) : members = others := by
  have hfills : Fills members = Fills others := by
    funext slot v
    cases slot with
    | inl w => rfl
    | inr key => rw [Fills, Fills, hmembers]
  have hunique : Relator.RightUnique (Fills members) := by
    rintro (w | key) v v' h h'
    · exact h.trans h'.symm
    · exact Option.some.inj (h.symm.trans h')
  have hone := fills_frame members
  have hother := fills_frame others
  rw [← hframe, ← hfills] at hother
  exact List.right_unique_forall₂' hunique hone hother

/-! ### What a merge adds to the frame -/

theorem frameFrom_placeMember {merge : Fields → Merged Fields} {key : NameKey}
    {members : List Json} {doc : Fields}
    (hmerge : merge (fieldsOf (memberAt? key members)) = ⟨doc, none⟩)
    (hkey : memberKey? doc = some key) (seen : List NameKey) (hseen : key ∉ seen) :
    frameFrom seen (placeMember merge key members).value =
      frameFrom seen members ++ if (memberAt? key members).isSome then [] else [.inr key] := by
  fun_induction placeMember merge key members generalizing seen with
  | case1 r =>
      have hr : r = ⟨doc, none⟩ := hmerge
      simp [hr, frameFrom, keyOf?, hkey, hseen, memberAt?]
  | case2 fields rest hfields r =>
      have hr : r = ⟨doc, none⟩ := by
        simpa [memberAt?_cons, keyOf?, hfields, fieldsOf] using hmerge
      simp [hr, frameFrom, keyOf?, hkey, hfields, hseen, memberAt?_cons]
  | case3 fields rest hfields r ih =>
      have hat : memberAt? key (.obj fields :: rest) = memberAt? key rest := by
        simp [memberAt?_cons, keyOf?, hfields]
      rw [hat] at hmerge ⊢
      simp only [frameFrom]
      split
      · rw [ih hmerge seen hseen, List.cons_append]
      next other hother =>
        split
        · rw [ih hmerge seen hseen, List.cons_append]
        · have hne : key ≠ other := fun h => hfields (h ▸ hother)
          rw [ih hmerge _ (by simp [hne, hseen]), List.cons_append]
  | case4 v rest hv r ih =>
      have hnone := keyOf?_eq_none hv
      have hat : memberAt? key (v :: rest) = memberAt? key rest := by
        simp [memberAt?_cons, hnone]
      rw [hat] at hmerge ⊢
      simp only [frameFrom, hnone]
      rw [ih hmerge seen hseen, List.cons_append]

theorem exists_of_mergeMembers_singleton {v : Json} {members result : List Json}
    (hmember : isMember v = true) (hkeys : v.WellKeyed)
    (h : mergeMembers [v] members = ⟨result, none⟩) :
    ∃ key, keyOf? v = some key ∧
      frame result =
        frame members ++ if (memberAt? key members).isSome then [] else [.inr key] := by
  cases v with
  | obj fields =>
      rw [mergeMembers] at h
      cases hkey : memberKey? fields with
      | none => simp [hkey] at h
      | some key =>
          refine ⟨key, hkey, ?_⟩
          have hfault := placeMember_fault_eq (fun target => mergeFields fields target) key members
          rw [hkey] at h
          dsimp only at h
          rw [hfault] at h
          rcases hmerge : mergeFields fields (fieldsOf (memberAt? key members)) with
            ⟨doc, _ | fault⟩
          · rw [hmerge] at h
            have hnamed := memberKey?_of_merged hkeys.1 hkey hmerge
            obtain rfl := congrArg Merged.value h
            exact frameFrom_placeMember hmerge hnamed [] List.not_mem_nil
          · rw [hmerge] at h
            cases h
  | _ => simp [isMember] at hmember

/-- Merging members adds their names to the frame, but for those that are there, each name once and
in the order in which they come. -/
theorem frame_mergeMembers {items members result : List Json} (hlist : items.all isMember = true)
    (hkeys : ∀ v ∈ items, v.WellKeyed) (h : mergeMembers items members = ⟨result, none⟩) :
    frame result = frame members ++
      ((items.filterMap keyOf?).eraseDups.filter
        fun key => (memberAt? key members).isNone).map .inr := by
  induction items using List.reverseRecOn generalizing result with
  | nil =>
      obtain rfl := congrArg Merged.value h
      simp [mergeMembers]
  | append_singleton items v ih =>
      rw [List.all_append, Bool.and_eq_true] at hlist
      have hitems : ∀ v ∈ items, v.WellKeyed := fun w hw => hkeys w (by simp [hw])
      rcases hmid : mergeMembers items members with ⟨mid, _ | fault⟩
      · rw [mergeMembers_append_eq hmid] at h
        obtain ⟨key, hkey, hframe⟩ := exists_of_mergeMembers_singleton (by simpa using hlist.2)
          (hkeys v (by simp)) h
        have hat := isSome_memberAt? hlist.1 hitems hmid key
        rw [hframe, ih hlist.1 hitems hmid, List.filterMap_append, List.filterMap_cons, hkey,
          List.filterMap_nil, eraseDups_concat]
        by_cases hnamed : key ∈ items.filterMap keyOf?
        · rw [if_pos (hat.2 (.inr hnamed)), if_pos hnamed, List.append_nil]
        · rw [if_neg hnamed, List.filter_append, List.map_append, List.append_assoc]
          by_cases hthere : (memberAt? key members).isSome
          · rw [if_pos (hat.2 (.inl hthere))]
            simp [Option.isSome_iff_ne_none.1 hthere]
          · rw [if_neg (hat.not.2 (not_or.2 ⟨hthere, hnamed⟩))]
            simp [Option.not_isSome_iff_eq_none.1 hthere]
      · rw [mergeMembers_append, hmid] at h
        cases h

theorem frame_of_mergeMembers {items members : List Json} (hlist : items.all isMember = true)
    (hkeys : ∀ v ∈ items, v.WellKeyed) (h : mergeMembers items [] = ⟨members, none⟩) :
    frame members = (items.filterMap keyOf?).eraseDups.map .inr := by
  rw [frame_mergeMembers hlist hkeys h]
  simp [frame, frameFrom, memberAt?]

end ApiTypings.Document
