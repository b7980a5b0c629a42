import ApiTypings.Settings.Check

/-!
Strict and lenient checks of settings agree.

The two checks differ in how they take a switch that is given by a number or a word: the lenient
one converts it and says so, the strict one refuses it. Hence they do not find the same things, but
they find something on the same values, and where they find nothing they take the same settings.
This is kept by running one check after the other: as long as nothing was found, what follows is
given the same values by both.
-/

namespace ApiTypings.Settings

namespace Checked

variable {α β : Type}

/-- Two checks that find something on the same values, and take the same value if they find
nothing. -/
def Agrees (x y : Checked α) : Prop :=
  (x.findings = [] ↔ y.findings = []) ∧ (y.findings = [] → x.value = y.value)

theorem Agrees.refl (x : Checked α) : x.Agrees x := ⟨Iff.rfl, fun _ => rfl⟩

/-- Nothing is asked of what follows on a finding, since it is followed by different values. -/
theorem Agrees.bind {x y : Checked α} {f g : α → Checked β} (hxy : x.Agrees y)
    (hfg : ∀ a, (f a).Agrees (g a)) : (x >>= f).Agrees (y >>= g) := by
  obtain ⟨hfindings, hvalue⟩ := hxy
  by_cases hy : y.findings = []
  · have hx : x.findings = [] := hfindings.2 hy
    obtain ⟨hrest, hresult⟩ := hfg y.value
    simp only [Agrees, findings_bind, value_bind, hx, hy, hvalue hy, List.nil_append]
    exact ⟨hrest, hresult⟩
  · have hx : x.findings ≠ [] := fun h => hy (hfindings.1 h)
    simp [Agrees, hx, hy]

theorem Agrees.eq_silent_iff {x y : Checked α} (h : x.Agrees y) (a : α) :
    x = ⟨a, []⟩ ↔ y = ⟨a, []⟩ := by
  obtain ⟨xValue, xFindings⟩ := x
  obtain ⟨yValue, yFindings⟩ := y
  obtain ⟨hfindings, hvalue⟩ := h
  simp only [mk.injEq]
  constructor
  · rintro ⟨rfl, hx⟩
    exact ⟨(hvalue (hfindings.1 hx)).symm, hfindings.1 hx⟩
  · rintro ⟨rfl, hy⟩
    exact ⟨hvalue hy, hfindings.2 hy⟩

/-- A check of which each finding refuses a value. -/
def Refuses (x : Checked α) : Prop := ∀ finding ∈ x.findings, finding.remedy?.isSome

theorem Refuses.pure (a : α) : (Pure.pure a : Checked α).Refuses := by simp [Refuses]

theorem Refuses.despite {finding : Finding} (h : finding.remedy?.isSome) (a : α) :
    (Checked.despite finding a).Refuses := by simpa [Refuses] using h

theorem Refuses.bind {x : Checked α} {f : α → Checked β} (hx : x.Refuses)
    (hf : (f x.value).Refuses) : (x >>= f).Refuses := by
  intro finding h
  rw [findings_bind, List.mem_append] at h
  exact h.elim (hx finding) (hf finding)

end Checked

open Checked

/-! ### Single fields -/

/-- A value of another kind gives a finding in both checks: in a lenient one either that it was
converted or that it was refused. -/
theorem agrees_checkSwitch (field : String) (standard : Bool) (v : Json) :
    (checkSwitch .strict field standard v).Agrees (checkSwitch .lenient field standard v) := by
  cases v with
  | null | bool => exact .refl _
  | _ =>
    simp only [Agrees, checkSwitch]
    split <;> simp

theorem refuses_checkText (field : String) (mayBeEmpty : Bool) (standard : String) (v : Json) :
    (checkText field mayBeEmpty standard v).Refuses := by
  cases v with
  | null | str => exact .pure _
  | _ => exact .despite rfl _

theorem refuses_checkSwitch (field : String) (standard : Bool) (v : Json) :
    (checkSwitch .strict field standard v).Refuses := by
  cases v with
  | null | bool => exact .pure _
  | _ => exact .despite rfl _

theorem refuses_checkFormat (name : String) : (checkFormat name).Refuses := by
  unfold checkFormat
  split
  · exact .pure _
  · exact .despite rfl _

theorem refuses_checkRoot (standard name : String) : (checkRoot standard name).Refuses := by
  unfold checkRoot
  split
  · exact .despite rfl _
  · exact .pure _

/-! ### Whole settings -/

theorem agrees_checkFields (standard : Settings) (given : Fields) :
    (checkFields .strict standard given).Agrees (checkFields .lenient standard given) := by
  unfold checkFields
  iterate 5 refine (Agrees.refl _).bind fun _ => ?_
  iterate 2 refine (agrees_checkSwitch _ _ _).bind fun _ => ?_
  exact .refl _

theorem agrees_check (standard : Settings) (given : Json) :
    (check .strict standard given).Agrees (check .lenient standard given) := by
  cases given with
  | obj given => exact agrees_checkFields standard given
  | _ => exact .refl _

/-- A strict check converts nothing, so all it can find is a value that it refuses. -/
theorem refuses_check (standard : Settings) (given : Json) :
    (check .strict standard given).Refuses := by
  cases given with
  | obj given =>
    simp only [check, checkFields]
    iterate 5 refine (refuses_checkText _ _ _ _).bind ?_
    iterate 2 refine (refuses_checkSwitch _ _ _).bind ?_
    exact (refuses_checkFormat _).bind ((refuses_checkRoot _ _).bind (.pure _))
  | _ => exact .despite rfl _

/-! ### The two checks -/

theorem checkStrict_eq_ok {directory : String} {given : Json} {s : Settings} :
    checkStrict directory given = .ok s ↔
      check .strict (Settings.standard directory) given = ⟨s, []⟩ := by
  unfold checkStrict
  obtain ⟨value, findings⟩ := check .strict (Settings.standard directory) given
  cases findings <;> simp

theorem checkStrict_eq_error {directory : String} {given : Json} {finding : Finding} :
    checkStrict directory given = .error finding ↔
      (check .strict (Settings.standard directory) given).findings.head? = some finding := by
  unfold checkStrict
  obtain ⟨value, findings⟩ := check .strict (Settings.standard directory) given
  cases findings <;> simp

theorem checkLenient_eq_silent {directory : String} {given : Json} {s : Settings} :
    checkLenient directory given = (s, []) ↔
      check .lenient (Settings.standard directory) given = ⟨s, []⟩ := by
  unfold checkLenient
  obtain ⟨value, findings⟩ := check .lenient (Settings.standard directory) given
  simp

/-- A strict check ends with a refusal exactly where a lenient one warns of something, and settings
that one of them takes without a finding are taken so by the other. -/
theorem checkStrict_agrees_checkLenient (directory : String) (given : Json) :
    ((∃ finding, checkStrict directory given = .error finding ∧ finding.remedy?.isSome) ↔
        (checkLenient directory given).2 ≠ []) ∧
      ∀ s, checkStrict directory given = .ok s ↔ checkLenient directory given = (s, []) := by
  have hagree := agrees_check (Settings.standard directory) given
  constructor
  · have hwarned : (checkLenient directory given).2 ≠ [] ↔
        (check .strict (Settings.standard directory) given).findings ≠ [] := by
      simp [checkLenient, hagree.1]
    rw [hwarned, ← List.isSome_head?, Option.isSome_iff_exists]
    refine exists_congr fun finding => ?_
    rw [checkStrict_eq_error]
    refine and_iff_left_of_imp fun hfirst => ?_
    exact refuses_check _ _ finding (List.mem_of_mem_head? hfirst)
  · intro s
    rw [checkStrict_eq_ok, checkLenient_eq_silent]
    exact hagree.eq_silent_iff s

end ApiTypings.Settings
