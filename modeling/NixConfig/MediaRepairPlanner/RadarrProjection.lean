/-
# Names for the model

The model sees short names in place of the identifiers of a Radarr case, and a
decision that it makes is translated back. Names and identifiers correspond one
to one, and no name is the identifier of an object, so that a decision comes
back as what it was. The name of the case itself is fixed, and nothing keeps a
case from having it as its identifier: it then stands for itself.
-/

import NixConfig.Data.Framing
import NixConfig.Data.Index
import NixConfig.Data.Table
import NixConfig.MediaRepairPlanner.RadarrDecision

namespace NixConfig.MediaRepairPlanner.Radarr

open Data
open MediaRepair.Contracts.CaseSchema (isLowerLetter isOpaqueChar isSha256Id)

/-! ## Projection -/

/-- `MODEL_CASE_ID` -/
def modelCaseID : Str := "sha256".toList ++ ':' :: List.replicate 64 '0'

def isObject : Json Str → Bool
  | .object _ => true
  | _ => false

def objects (value : Json Str) (field : String) : Option (List (Json Str)) :=
  match member? field value with
  | some (.array items) => if items.all isObject then some items else none
  | _ => none

def transform (replacements : List (Str × Str)) (omittedFields : List String) (value : Json Str) :
    Json Str :=
  value.fold ⟨.null, .bool, .number, fun text => .string ((replacements.lookup text).getD text),
    .array, fun members => .object (members.filter fun member => member.1 ∉ omittedFields)⟩

/-- `aliases[id] = alias` for each row. -/
def assign (aliases rows : List (Str × Str)) : List (Str × Str) :=
  rows.foldl (fun aliases row => Table.put Prod.fst row aliases) aliases

/-- `f"{kind}:{index}"`, counted from one. -/
def aliasOf (kind : String) (index : Nat) : Str := kind.toList ++ ':' :: Nat.toDigits 10 (index + 1)

def number (kind : String) (ids : List Str) : List (Str × Str) :=
  ids.zipIdx.map fun row => (row.1, aliasOf kind row.2)

structure IdentifierAliases where
  projected : List (Str × Str)
  canonical : List (Str × Str)

def IdentifierAliases.create (projected : List (Str × Str)) : IdentifierAliases :=
  ⟨projected, assign [] (projected.map Prod.swap)⟩

def omittedFields : List String := ["download_ref", "fingerprint", "queue_id"]

def fileIDs (value : Json Str) : Option (List Str) :=
  (objects value "files").bind fun items => items.mapM (readString "file_id")

/-- The kinds of objects that are numbered. -/
abbrev kinds : List String := ["file", "capability", "evidence"]

/-- The rows of the alias map, if all identifiers are different. -/
def rows (caseID : Str) (files capabilities evidence : List Str) : List (Str × Str) :=
  (caseID, modelCaseID) :: number "file" files ++ number "capability" capabilities ++
    number "evidence" evidence

section Rows

variable {caseID : Str} {files capabilities evidence : List Str}

/-- A name: that of the case, or a kind and a number. -/
def IsAlias (text : Str) : Prop :=
  text = modelCaseID ∨ ∃ kind ∈ ["file", "capability", "evidence"], ∃ index < 32 + 32 + 128 * 16,
    text = aliasOf kind index

theorem length_toDigits_le {index : Nat} (hindex : index < 32 + 32 + 128 * 16) :
    (Nat.toDigits 10 (index + 1)).length ≤ 4 :=
  (Nat.length_toDigits_le_iff (by decide) (by decide)).mpr (by omega)

end Rows

/-! ## There and back -/

variable {g f : Str → Str} {decision : RepairDecisionV3}

/-- Names look like identifiers. -/
theorem IsAlias.isOpaqueId {text : Str} (halias : IsAlias text) : isOpaqueId text = true := by
  rcases halias with rfl | ⟨kind, hkind, index, hindex, rfl⟩
  · decide +kernel
  · have hshort := length_toDigits_le hindex
    have hdigits : ∀ c ∈ Nat.toDigits 10 (index + 1), isOpaqueChar c = true := by
      intro c hc
      have hdigit : c.isDigit := Nat.isDigit_of_mem_toDigits (by decide) (le_refl 10) hc
      simp [isOpaqueChar, hdigit]
    have hkinds : ∀ kind ∈ kinds, 1 ≤ kind.toList.length ∧
        kind.toList.length ≤ 10 ∧ kind.toList.head?.any isLowerLetter = true ∧
        ∀ c ∈ kind.toList, isOpaqueChar c = true := by decide
    obtain ⟨hpos, hle, hhead, hall⟩ := hkinds kind hkind
    have hlength : (aliasOf kind index).length =
        kind.toList.length + (1 + (Nat.toDigits 10 (index + 1)).length) := by
      rw [aliasOf, List.length_append, List.length_cons, Nat.add_comm 1]
    have hfirst : (aliasOf kind index).head? = kind.toList.head? := by
      rw [aliasOf, List.head?_append_of_ne_nil _ (List.ne_nil_of_length_pos hpos)]
    have hchars : ∀ c ∈ aliasOf kind index, isOpaqueChar c = true := by
      intro c hc
      rcases List.mem_append.mp hc with hc | hc
      · exact hall c hc
      · rcases List.mem_cons.mp hc with rfl | hc
        · rfl
        · exact hdigits c hc
    simp only [Radarr.isOpaqueId, search, Bool.and_eq_true, Bool.or_eq_true, decide_eq_true_eq,
      List.all_eq_true, hfirst, hhead]
    exact ⟨⟨by omega, by omega⟩, .inl ⟨trivial, fun c hc => hchars c (List.mem_of_mem_tail hc)⟩⟩

section Projected

variable {value : Json Str} {caseID : Str} {files capabilities : List Str}

end Projected

/-! ## A case with one file -/

end NixConfig.MediaRepairPlanner.Radarr
