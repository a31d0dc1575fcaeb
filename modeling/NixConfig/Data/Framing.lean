/-
# Framed values

A value is framed by its length: a separator, the numeral of the length, a separator, and
the value itself, which may contain anything. Frames one after the other can be taken apart
again, because a numeral contains no separator and says how far the value goes.
-/

import Mathlib.Data.List.Basic

namespace NixConfig.Data

variable {α : Type*} (separator : α) (numeral : Nat → List α)

/-- A value after its length. -/
def frame (value : List α) : List α := separator :: numeral value.length ++ separator :: value

/-- Values one after the other. -/
def frames (values : List (List α)) : List α := values.flatMap (frame separator numeral)

variable {separator numeral}

/-- What comes before the first separator is determined. -/
theorem append_separator_inj {left right rest rest' : List α} (hleft : separator ∉ left)
    (hright : separator ∉ right)
    (heq : left ++ separator :: rest = right ++ separator :: rest') :
    left = right ∧ rest = rest' := by
  induction left generalizing right with
  | nil =>
    cases right with
    | nil => exact ⟨rfl, (List.cons.inj heq).2⟩
    | cons head right =>
      cases heq
      exact absurd List.mem_cons_self hright
  | cons head left ih =>
    cases right with
    | nil =>
      cases heq
      exact absurd List.mem_cons_self hleft
    | cons head' right =>
      obtain ⟨rfl, htail⟩ := List.cons.inj heq
      obtain ⟨rfl, hrest⟩ := ih (fun hmem => hleft (List.mem_cons_of_mem _ hmem))
        (fun hmem => hright (List.mem_cons_of_mem _ hmem)) htail
      exact ⟨rfl, hrest⟩

section Numerals

variable (hfree : ∀ n, separator ∉ numeral n) (hinj : Function.Injective numeral)
include hfree hinj

theorem frame_append_inj {value value' rest rest' : List α}
    (heq : frame separator numeral value ++ rest = frame separator numeral value' ++ rest') :
    value = value' ∧ rest = rest' := by
  simp only [frame, List.cons_append, List.append_assoc, List.cons.injEq, true_and] at heq
  obtain ⟨hnumeral, htail⟩ := append_separator_inj (hfree _) (hfree _) heq
  exact List.append_inj htail (hinj hnumeral)

theorem frames_injective : Function.Injective (frames separator numeral) := by
  intro values values' heq
  induction values generalizing values' with
  | nil =>
    cases values' with
    | nil => rfl
    | cons value values' => simp [frames, frame] at heq
  | cons value values ih =>
    cases values' with
    | nil => simp [frames, frame] at heq
    | cons value' values' =>
      obtain ⟨rfl, hrest⟩ := frame_append_inj hfree hinj heq
      rw [ih hrest]

/-- A text without separators, followed by frames, determines both. -/
theorem append_frames_inj {kind kind' : List α} {values values' : List (List α)}
    (hkind : separator ∉ kind) (hkind' : separator ∉ kind')
    (heq : kind ++ frames separator numeral values = kind' ++ frames separator numeral values') :
    kind = kind' ∧ values = values' := by
  have hsame : kind = kind' := by
    cases values with
    | nil =>
      cases values' with
      | nil => simpa [frames] using heq
      | cons value' values' =>
        -- The separator of the first frame would be in the other text.
        simp only [frames, List.flatMap_nil, List.append_nil] at heq
        exact absurd (heq ▸ by simp [frame]) hkind
    | cons value values =>
      cases values' with
      | nil =>
        simp only [frames, List.flatMap_nil, List.append_nil] at heq
        exact absurd (heq ▸ by simp [frame]) hkind'
      | cons value' values' => exact (append_separator_inj hkind hkind' heq).1
  subst hsame
  exact ⟨rfl, frames_injective hfree hinj (List.append_cancel_left heq)⟩

end Numerals

end NixConfig.Data
