/-
# Choosing under floors

Items carry labels, and each label has a count and a floor. Items are chosen
one after the other, each unless the count of one of its labels is at or below
the floor of that label; a chosen item takes one from each of its counts.
However the items share their labels, no count falls below its floor, or below
itself if it was there already.
-/

import Mathlib.Data.List.Count
import Mathlib.Tactic.Linarith

namespace NixConfig.Data.Quota

variable {α κ : Type*} [DecidableEq κ] (labels : α → List κ) (floor : κ → Int)

/-- The counts once an item is taken. -/
def take (counts : κ → Int) (item : α) (label : κ) : Int :=
  counts label - if label ∈ labels item then 1 else 0

/-- Choose from left to right. -/
def choose (counts : κ → Int) : List α → List α
  | [] => []
  | item :: rest =>
    if ∃ label ∈ labels item, counts label ≤ floor label then choose counts rest
    else item :: choose (take labels counts item) rest

variable {labels floor}

theorem choose_sublist (counts : κ → Int) (items : List α) :
    (choose labels floor counts items).Sublist items := by
  induction items generalizing counts with
  | nil => exact List.Sublist.refl _
  | cons item rest ih =>
    rw [choose]
    split
    · exact (ih counts).cons item
    · exact (ih _).cons_cons item

/-- What the chosen items leave of a count is at least the smaller of its floor
and what it was. -/
theorem min_le_sub_countP (counts : κ → Int) (items : List α) (label : κ) :
    min (floor label) (counts label) ≤ counts label -
      ((choose labels floor counts items).countP fun item => label ∈ labels item : Nat) := by
  induction items generalizing counts with
  | nil => simp [choose]
  | cons item rest ih =>
    rw [choose]
    split_ifs with habove
    · exact ih counts
    · have hrest := ih (take labels counts item)
      rw [take] at hrest
      by_cases hlabel : label ∈ labels item
      · -- The count was above the floor, so the rest starts at the floor or above.
        have hfloor : floor label < counts label :=
          lt_of_not_ge fun hle => habove ⟨label, hlabel, hle⟩
        rw [if_pos hlabel, min_eq_left (by omega)] at hrest
        rw [List.countP_cons_of_pos (by simpa using hlabel), min_eq_left hfloor.le]
        push_cast
        omega
      · rw [if_neg hlabel, sub_zero] at hrest
        rwa [List.countP_cons_of_neg (by simpa using hlabel)]

end NixConfig.Data.Quota
