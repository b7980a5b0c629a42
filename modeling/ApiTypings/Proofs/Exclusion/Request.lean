import ApiTypings.Proofs.Exclusion.Closure

/-!
Requests, one after another.

Nodes may be resolved one by one, by their positions, or all at once, again and again, and any
request may fail. After any sequence of requests the tree is the one it was, but for nodes without
documents and for what the requests were to find out, and that is what the documents prescribe.
-/

namespace ApiTypings.Exclusion

/-- A request to resolve the node at a position, or all nodes. -/
inductive Request where
  | node (position : Int)
  | all
  deriving DecidableEq, Repr

/-- The tree that a request leaves behind, whether or not it succeeds. -/
def perform (t : Tree) : Request → Tree
  | .node position => (resolveAt t position).tree
  | .all => (resolveAll t).tree

/-- The tree after one request after another. -/
def performAll (t : Tree) (requests : List Request) : Tree := requests.foldl perform t

/-- A tree that another one may be after some requests: it has grown to it, each settled node holds
the record and the exclusions that the documents prescribe, and the node that it extends is settled
too. Record and exclusions come together, so a node that is not settled has neither. -/
structure Consistent (t u : Tree) : Prop where
  grows : t.GrowsTo u
  prescribed : ∀ n ∈ u.nodes, ∀ r, n.resolution = some r → u.Prescribes n.path r
  ready : ∀ n ∈ u.nodes, ∀ r, n.resolution = some r → ∀ q, u.Extends n.path q →
    ∃ m ∈ u.nodes, m.path = q ∧ m.resolution.isSome

variable {t u : Tree}

theorem atPosition_mem {position : Int} {n : Node} (h : t.atPosition position = .ok n) :
    n ∈ t.nodes := by
  rw [Tree.atPosition] at h
  generalize (if position < 0 then position + (t.size : Int) else position) = index at h
  split at h
  · simp at h
  · cases hm : t.nodes[index.toNat]? with
    | none => simp [hm] at h
    | some m =>
        obtain rfl : m = n := by simpa [hm] using h
        exact List.mem_of_getElem? hm

theorem tree_resolveAt {position : Int} {n : Node} (h : t.atPosition position = .ok n) :
    (resolveAt t position).tree = (resolve t n.path).tree := by
  simp only [resolveAt, h]
  split <;> rfl

/-- A request keeps the tree in order. -/
theorem perform_spec (h : t.Memo) (request : Request) :
    (perform t request).Memo ∧ t.GrowsTo (perform t request) := by
  cases request with
  | all => exact ⟨(sound_resolveAll h).memo, (sound_resolveAll h).grows⟩
  | node position =>
      rw [perform]
      cases hn : t.atPosition position with
      | error fault =>
          simp only [resolveAt, hn]
          exact ⟨h, .refl t⟩
      | ok n =>
          obtain ⟨hsound, -⟩ := resolve_spec h (Tree.mem_paths.2 ⟨n, atPosition_mem hn, rfl⟩)
          exact tree_resolveAt hn ▸ ⟨hsound.memo, hsound.grows⟩

theorem performAll_spec (h : t.Memo) (requests : List Request) :
    (performAll t requests).Memo ∧ t.GrowsTo (performAll t requests) := by
  induction requests generalizing t with
  | nil => exact ⟨h, .refl t⟩
  | cons request rest ih =>
      obtain ⟨hmemo, hgrows⟩ := perform_spec h request
      obtain ⟨hmemo', hgrows'⟩ := ih hmemo
      exact ⟨hmemo', hgrows.trans hmemo.proper hgrows'⟩

theorem consistent_of_memo (hgrows : t.GrowsTo u) (hu : u.Memo) : Consistent t u := by
  refine ⟨hgrows, ?_, ?_⟩
  · intro n hn r hr
    rw [← Tree.nodeAt_path hu.proper.nodup hn] at hr
    exact (hu.settled n.path r hr).prescribes
  · intro n hn r hr q hq
    rw [← Tree.nodeAt_path hu.proper.nodup hn] at hr
    obtain ⟨above, habove⟩ := hu.ready n.path q r hr hq
    exact ⟨u.nodeAt q, Tree.nodeAt_mem_nodes (Tree.path_mem_of_resolution habove),
      Tree.path_nodeAt u q, by rw [habove]; rfl⟩

end ApiTypings.Exclusion
