import ApiTypings.Proofs.TypeText.Depth

/-!
Lists of arguments and their parts.

Arguments that are joined come back when the list is cut, whatever brackets they hold and in
whatever order these are closed, as long as none of them is left open and no comma stands outside.
No text loses anything when it is cut, even if its brackets do not match: up to blanks, the
arguments with commas in between are the text.
-/

namespace ApiTypings

namespace Text

/-- A text without its blank characters. -/
def squeeze (cs : List Char) : List Char := cs.filter (!isBlank ·)

@[simp] theorem squeeze_append (a b : List Char) : squeeze (a ++ b) = squeeze a ++ squeeze b :=
  List.filter_append ..

theorem squeeze_of_blank {cs : List Char} (h : ∀ c ∈ cs, isBlank c = true) : squeeze cs = [] := by
  refine List.filter_eq_nil_iff.2 fun c hc => ?_
  rw [h c hc]
  exact Bool.false_ne_true

theorem squeeze_trimStartChars (cs : List Char) : squeeze (trimStartChars cs) = squeeze cs := by
  have hblank : squeeze (cs.takeWhile isBlank) = [] :=
    squeeze_of_blank (List.all_eq_true.1 List.all_takeWhile)
  have hwhole := congrArg squeeze (List.takeWhile_append_dropWhile (p := isBlank) (l := cs))
  rwa [squeeze_append, hblank, List.nil_append] at hwhole

theorem squeeze_reverse (cs : List Char) : squeeze cs.reverse = (squeeze cs).reverse :=
  List.filter_reverse ..

/-- Only blanks are trimmed. -/
@[simp] theorem squeeze_trimChars (cs : List Char) : squeeze (trimChars cs) = squeeze cs := by
  have hend : squeeze (trimEndChars (trimStartChars cs)) = squeeze (trimStartChars cs) := by
    rw [trimEndChars, squeeze_reverse, ← trimStartChars, squeeze_trimStartChars, squeeze_reverse,
      List.reverse_reverse]
  rw [trimChars, hend, squeeze_trimStartChars]

end Text

namespace TypeText

open Text

/-- How pieces are joined at commas alone. -/
def joinAtCommas (pieces : List (List Char)) : List Char := [','].intercalate pieces

theorem joinAtCommas_concat (front : List (List Char)) (last : List Char) :
    joinAtCommas (front ++ [last]) = front.flatMap (· ++ [',']) ++ last := by
  induction front with
  | nil => exact List.intercalate_singleton
  | cons piece rest ih =>
      rw [joinAtCommas] at ih
      rw [List.cons_append, joinAtCommas, List.intercalate_cons_of_ne_nil (by simp), ih,
        List.flatMap_cons, List.append_assoc _ _ last]

namespace ArgumentScan

/-- What a scan has taken in, trimmed where it was cut. -/
def taken (s : ArgumentScan) : List Char :=
  s.done.reverse.flatMap (· ++ [',']) ++ s.current.reverse

/-- A scan takes in each character. -/
theorem squeeze_taken_step (s : ArgumentScan) (c : Char) :
    squeeze (s.step c).taken = squeeze (s.taken ++ [c]) := by
  unfold step
  dsimp only
  split
  next hcut =>
    obtain ⟨rfl, -⟩ := hcut
    simp [taken]
  next => simp [taken]

theorem squeeze_taken_foldl (cs : List Char) (s : ArgumentScan) :
    squeeze (cs.foldl step s).taken = squeeze (s.taken ++ cs) := by
  induction cs generalizing s with
  | nil => rw [List.foldl_nil, List.append_nil]
  | cons c rest ih =>
      rw [List.foldl_cons, ih, squeeze_append, squeeze_taken_step, ← squeeze_append,
        List.append_assoc, List.singleton_append]

/-- What a scan has taken in is in its pieces. A scan without pieces has taken in only blanks. -/
theorem squeeze_finish (s : ArgumentScan) :
    squeeze (joinAtCommas s.finish) = squeeze s.taken := by
  unfold finish
  dsimp only
  split
  next hnone =>
    obtain ⟨htail, hdone⟩ := Bool.and_eq_true_iff.1 hnone
    have hcurrent : squeeze s.current.reverse = [] := by
      rw [← squeeze_trimChars, List.isEmpty_iff.1 htail]
      rfl
    rw [taken, List.isEmpty_iff.1 hdone, squeeze_append, hcurrent]
    rfl
  next =>
    rw [List.reverse_cons, joinAtCommas_concat, taken, squeeze_append, squeeze_append,
      squeeze_trimChars]

end ArgumentScan

/-- Cutting a list of arguments undoes joining them, and of any text it loses only blanks. -/
theorem splitArguments_inverts_join :
    (∀ args : List (List Char), args ≠ [[]] → (∀ a ∈ args, IsPiece a) →
      splitArguments (joinArguments args) = args) ∧
    ∀ text : List Char, squeeze (joinAtCommas (splitArguments text)) = squeeze text := by
  refine ⟨fun args hfull hargs => splitArguments_join hargs hfull, fun text => ?_⟩
  rw [splitArguments, ArgumentScan.squeeze_finish, ArgumentScan.squeeze_taken_foldl]
  rfl

/-- Arguments that close brackets before they open them, and an empty one. -/
def entangledArguments : List (List Char) :=
  ["A>|<B".toList, ") , (".toList, [], "Map<K, (L, M>)".toList]

theorem splitArguments_inverts_join_entangledArguments :
    entangledArguments ≠ [[]] ∧ (∀ a ∈ entangledArguments, IsPiece a) ∧
      splitArguments "A>|<B, ) , (, , Map<K, (L, M>)".toList = entangledArguments ∧
      squeeze (joinAtCommas (splitArguments " A<, B>> ,C,\t".toList)) = "A<,B>>,C,".toList := by
  have hpieces : ∀ a ∈ entangledArguments, IsPiece a := by decide
  refine ⟨by decide, hpieces, splitArguments_inverts_join.1 _ (by decide) hpieces, ?_⟩
  rw [splitArguments_inverts_join.2]
  decide

end TypeText

end ApiTypings
