import ApiTypings.Api.Reading
import ApiTypings.Proofs.Document.Depth
import ApiTypings.Proofs.Namespace.Refinement
import ApiTypings.Proofs.Text.Pieces
import Mathlib.Data.List.Infix

/-!
Names that tell nodes apart.

The record of a node has the name that its last record states, or else the dotted name of its path,
and a name leads to a path. In general this need not be the path of the node: segments may be empty
or the root's name may stand inside of a name. With proper names it is, and so no two nodes have
records of the same name.
-/

namespace ApiTypings

/-! ### Plain paths -/

namespace Path

variable {rootName name : String} {p q : Path}

/-- A path that its dotted name leads back to: no segment is empty or contains a dot, and the
root's name does not occur on it. -/
structure Plain (rootName : String) (p : Path) : Prop where
  segments : ∀ s ∈ p, s ≠ "" ∧ '.' ∉ s.toList
  root : ¬Text.pieces '.' rootName <:+: p

/-- A dotted name without empty segments in which the root's name occurs at most as a leading
segment before others. -/
structure ProperName (rootName name : String) : Prop where
  segments : ∀ s ∈ Text.pieces '.' name, s ≠ ""
  root : ¬Text.pieces '.' rootName <:+: ofName rootName name

instance : Decidable (ProperName rootName name) :=
  decidable_of_iff ((∀ s ∈ Text.pieces '.' name, s ≠ "") ∧
      ¬Text.pieces '.' rootName <:+: ofName rootName name)
    ⟨fun h => ⟨h.1, h.2⟩, fun h => ⟨h.segments, h.root⟩⟩

theorem ofName_suffix (rootName name : String) :
    ofName rootName name <:+ Text.pieces '.' name := by
  unfold ofName
  split
  next first second rest hpieces =>
    split
    · exact hpieces ▸ List.suffix_cons first (second :: rest)
    · exact hpieces ▸ List.suffix_rfl
  · exact List.suffix_rfl

theorem ProperName.plain (h : ProperName rootName name) :
    (ofName rootName name).Plain rootName where
  segments s hs := by
    have hpiece := (ofName_suffix rootName name).subset hs
    exact ⟨h.segments s hpiece, Text.not_mem_of_mem_pieces hpiece⟩
  root := h.root

theorem Plain.of_isPrefix (h : p.Plain rootName) (hq : q <+: p) : q.Plain rootName where
  segments s hs := h.segments s (hq.subset hs)
  root hroot := h.root (hroot.trans hq.isInfix)

theorem plain_nil : Path.Plain rootName [] where
  segments := by simp
  root hroot := by simp [Text.pieces] at hroot

/-- The dotted name of a plain path leads back to it. -/
theorem ofRecord_fullName (h : p.Plain rootName) :
    ofRecord rootName (p.fullName rootName) = p := by
  by_cases hnil : p = []
  · subst hnil
    have hname : fullName rootName [] = rootName := rfl
    rw [hname, ofRecord, if_pos rfl]
  · have hdots : ∀ s ∈ p, '.' ∉ s.toList := fun s hs => (h.segments s hs).2
    have hpieces : Text.pieces '.' (Text.join "." p) = p := Text.pieces_join rfl hnil hdots
    have hname : p.fullName rootName = Text.join "." p :=
      if_neg (Text.join_ne_empty rfl hnil (fun s hs => (h.segments s hs).1) hdots)
    have hroot : Text.join "." p ≠ rootName := by
      rintro rfl
      exact h.root ⟨[], [], by simp [hpieces]⟩
    rw [hname, ofRecord, if_neg hroot, ofName, hpieces]
    split
    next first second rest =>
      -- A leading root name would be the whole of the root's pieces, since it has no dot.
      refine if_neg fun hfirst => h.root ?_
      have hsingle : Text.pieces '.' (Text.join "." [first]) = [first] :=
        Text.pieces_join rfl (by simp) (by simpa using hdots first (by simp))
      rw [show Text.join "." [first] = rootName from hfirst] at hsingle
      exact hsingle ▸ (List.prefix_append [first] (second :: rest)).isInfix
    · rfl

end Path

/-! ### The names of documents -/

namespace Document

/-- A merge that succeeds leaves the name that the merged document states. -/
theorem get?_name_mergeFields {name : String} {api target : Fields}
    (hname : ∀ v, ("name", v) ∈ api → v = .str name)
    (hsome : target.get? "name" = some (.str name) ∨ ∃ v, ("name", v) ∈ api)
    (hok : (mergeFields api target).fault = none) :
    (mergeFields api target).value.get? "name" = some (.str name) := by
  induction api generalizing target with
  | nil => simpa [mergeFields] using hsome
  | cons entry rest ih =>
      obtain ⟨key, v⟩ := entry
      have hrest : ∀ v, ("name", v) ∈ rest → v = .str name :=
        fun v hv => hname v (List.mem_cons_of_mem _ hv)
      by_cases hkey : key = "name"
      · subst hkey
        obtain rfl := hname v List.mem_cons_self
        have hmerge : mergeFields (("name", .str name) :: rest) target =
            mergeFields rest (target.set "name" (.str name)) := rfl
        rw [hmerge] at hok ⊢
        exact ih hrest (.inl (by simp [Fields.get?_set])) hok
      · have hsome' : target.get? "name" = some (.str name) ∨ ∃ v, ("name", v) ∈ rest := by
          simpa [Ne.symm hkey] using hsome
        rw [mergeFields] at hok ⊢
        split at hok
        next hskip =>
          rw [if_pos hskip]
          exact ih hrest hsome' hok
        next hskip =>
          rw [if_neg hskip]
          generalize mergeValue v (target.get? key) = r at hok ⊢
          obtain ⟨value, fault⟩ := r
          cases fault with
          | some fault => simp at hok
          | none =>
              refine ih hrest ?_ hok
              cases value with
              | none => exact hsome'
              | some w => simpa [store, Fields.get?_set, hkey] using hsome'

end Document

end ApiTypings
