/-
# JSON Schema, as far as contracts need it

A schema is the predicate it stands for, and the keywords of JSON Schema
(draft 2020-12) are functions between predicates, so a schema file reads off
as a definition and `$ref` is the use of a name.

A schema confines strings to a class of characters when no document it accepts
has a string with a character outside. Each keyword comes with the rule that
carries confinement from its parts.
-/

import NixConfig.Data.Json

namespace NixConfig.Data

/-- A decision about documents; strings are read as characters. -/
abbrev Schema := Json (List Char) → Bool

namespace Schema

/-! ## Keywords -/

/-- `"type": "null"`. -/
def null : Schema
  | .null => true
  | _ => false

/-- `"type": "boolean"`. -/
def boolean : Schema
  | .bool _ => true
  | _ => false

/-- `"type": "integer"` with an optional `minimum` and `maximum`. -/
def integer (minimum maximum : Option Int) : Schema
  | .number value => minimum.all (· ≤ value) && maximum.all (value ≤ ·)
  | _ => false

/-- `"type": "string"` with a condition on its characters. -/
def string (pattern : List Char → Bool) : Schema
  | .string value => pattern value
  | _ => false

/-- `"enum"` of strings; `"const"` is the case of one. -/
def enum (values : List String) : Schema := string fun cs => values.any (·.toList = cs)

/-- `"type": "array"` with `items`, `minItems` and an optional `maxItems`. -/
def array (items : Schema) (minItems : Nat) (maxItems : Option Nat) : Schema
  | .array values => values.all items && minItems ≤ values.length && maxItems.all (values.length ≤ ·)
  | _ => false

/-- `"uniqueItems": true`, for arrays of strings. -/
def uniqueItems : Schema
  | .array values => decide (values.flatMap Json.strings).Nodup
  | _ => true

/-- One entry of `properties`, and whether `required` lists it. -/
structure Property where
  name : String
  required : Bool
  schema : Schema

/-- `"type": "object"` with its properties and `"additionalProperties": false`. -/
def object (properties : List Property) : Schema
  | .object members =>
    (members.all fun member =>
      properties.any fun property => property.name == member.1 && property.schema member.2) &&
    properties.all fun property =>
      !property.required || members.any fun member => member.1 == property.name
  | _ => false

/-- `properties` with one entry, where nothing else is said about the object. -/
def property (name : String) (schema : Schema) : Schema
  | .object members => members.all fun member => member.1 != name || schema member.2
  | _ => true

/-- `required` with one entry. -/
def has (name : String) : Schema
  | .object members => members.any fun member => member.1 == name
  | _ => true

/-- `oneOf`. -/
def oneOf (options : List Schema) : Schema := fun json =>
  (options.filter fun option => option json).length == 1

/-- A value of the schema, or null. -/
def nullable (schema : Schema) : Schema := oneOf [schema, null]

/-- `allOf`. -/
def allOf (parts : List Schema) : Schema := fun json => parts.all fun part => part json

/-- `if` and `then`. -/
def ifThen (condition consequence : Schema) : Schema := fun json =>
  !condition json || consequence json

variable {properties : List Property} {members : List (String × Json (List Char))}

/-- An object is accepted when every member is accepted by the property of its
name and no required property is missing. -/
theorem object_eq_true (hmembers : members.Forall fun member => ∃ property,
      properties.find? (fun property => property.name == member.1) = some property ∧
        property.schema member.2 = true) (hrequired : (properties.all fun property =>
      !property.required || members.any fun member => member.1 == property.name) = true) :
    object properties (.object members) = true := by
  simp only [object, Bool.and_eq_true, hrequired, and_true, List.all_eq_true, List.any_eq_true]
  intro member hmember
  obtain ⟨property, hfind, hschema⟩ := List.forall_iff_forall_mem.mp hmembers member hmember
  have hname := List.find?_some hfind
  exact ⟨property, List.mem_of_find?_eq_some hfind, hname, hschema⟩

/-- A member of an accepted object is accepted by a property of its name. -/
theorem property_of_object (hobject : object properties (.object members) = true)
    {member : String × Json (List Char)} (hmember : member ∈ members) :
    ∃ property ∈ properties, property.name = member.1 ∧ property.schema member.2 = true := by
  rw [object, Bool.and_eq_true, List.all_eq_true] at hobject
  obtain ⟨property, hproperty, haccepts⟩ := List.any_eq_true.mp (hobject.1 _ hmember)
  rw [Bool.and_eq_true, beq_iff_eq] at haccepts
  exact ⟨property, hproperty, haccepts⟩

theorem items_of_array {items : Schema} {minItems : Nat} {maxItems : Option Nat}
    {values : List (Json (List Char))} (harray : array items minItems maxItems (.array values) = true) :
    ∀ value ∈ values, items value = true := by
  rw [array, Bool.and_eq_true, Bool.and_eq_true, List.all_eq_true] at harray
  exact harray.1.1

theorem exists_of_oneOf {options : List Schema} {json : Json (List Char)}
    (honeOf : oneOf options json = true) : ∃ option ∈ options, option json = true := by
  rw [oneOf, beq_iff_eq] at honeOf
  obtain ⟨option, hmem⟩ := List.exists_mem_of_length_pos (honeOf ▸ Nat.one_pos)
  exact ⟨option, List.mem_filter.mp hmem⟩

/-! ## The format `date-time` -/

/-- The number some decimal digits write. -/
def digits (cs : List Char) : Option Nat :=
  if cs.all Char.isDigit && !cs.isEmpty then
    some (cs.foldl (fun n c => 10 * n + (c.toNat - 0x30)) 0)
  else none

/-- The days of a month in the Gregorian calendar. -/
def daysIn (year month : Nat) : Nat :=
  if month = 2 then
    if year % 4 = 0 ∧ (year % 100 ≠ 0 ∨ year % 400 = 0) then 29 else 28
  else if month ∈ [4, 6, 9, 11] then 30
  else 31

/-- The minutes to add to reach UTC from the zone at the end of a time. -/
def zone : List Char → Option Int
  | ['Z'] | ['z'] => some 0
  | [sign, h, h', ':', m, m'] =>
    match digits [h, h'], digits [m, m'] with
    | some hours, some minutes =>
      if hours ≤ 23 ∧ minutes ≤ 59 then
        if sign = '+' then some (-(60 * hours + minutes))
        else if sign = '-' then some (60 * hours + minutes)
        else none
      else none
    | _, _ => none
  | _ => none

/-- What is left of a time after its fraction of a second. -/
def afterFraction : List Char → Option (List Char)
  | '.' :: rest => if (digits (rest.takeWhile Char.isDigit)).isSome then
      some (rest.dropWhile Char.isDigit) else none
  | rest => some rest

/-- The characters a `date-time` can have. -/
def isDateTimeChar (c : Char) : Bool := c.isDigit || c ∈ "-:.+TtZz".toList

/-- RFC 3339 `date-time`. A sixtieth second is the last one of a day in UTC. -/
def isDateTime (cs : List Char) : Bool :=
  cs.all isDateTimeChar &&
  ([4, 7, 13, 16].map (cs[·]?) == [some '-', some '-', some ':', some ':']) &&
  (cs[10]? == some 'T' || cs[10]? == some 't') &&
  match digits (cs.take 4), digits ((cs.drop 5).take 2), digits ((cs.drop 8).take 2),
    digits ((cs.drop 11).take 2), digits ((cs.drop 14).take 2), digits ((cs.drop 17).take 2),
    (afterFraction (cs.drop 19)).bind zone with
  | some year, some month, some day, some hour, some minute, some second, some offset =>
    1 ≤ month && month ≤ 12 && 1 ≤ day && day ≤ daysIn year month &&
      hour ≤ 23 && minute ≤ 59 && second ≤ 60 &&
      (second < 60 || (60 * (hour : Int) + minute + offset) % 1440 == 23 * 60 + 59)
  | _, _, _, _, _, _, _ => false

/-- `"type": "string"` with `"format": "date-time"`. -/
def dateTime : Schema := string isDateTime

/-! ## Confinement -/

/-- Every string of an accepted document has only characters of `P`. -/
def Confines (P : Char → Prop) (schema : Schema) : Prop :=
  ∀ json, schema json = true → ∀ cs ∈ json.strings, ∀ c ∈ cs, P c

namespace Confines

variable {P : Char → Prop}

theorem null : Confines P null := by
  intro json haccept
  cases json with
  | null => simp
  | _ => cases haccept

theorem boolean : Confines P boolean := by
  intro json haccept
  cases json with
  | bool value => simp
  | _ => cases haccept

theorem integer {minimum maximum : Option Int} : Confines P (integer minimum maximum) := by
  intro json haccept
  cases json with
  | number value => simp
  | _ => cases haccept

theorem string {pattern : List Char → Bool}
    (hpattern : ∀ cs, pattern cs = true → ∀ c ∈ cs, P c) : Confines P (string pattern) := by
  intro json haccept
  cases json with
  | string value => simpa using hpattern value haccept
  | _ => cases haccept

theorem enum {values : List String} (hvalues : ∀ value ∈ values, ∀ c ∈ value.toList, P c) :
    Confines P (enum values) := by
  refine string fun cs hcs => ?_
  obtain ⟨value, hvalue, heq⟩ := List.any_eq_true.mp hcs
  rw [← of_decide_eq_true heq]
  exact hvalues value hvalue

theorem dateTime (hP : ∀ c, isDateTimeChar c → P c) : Confines P dateTime := by
  refine string fun cs hcs c hc => hP c ?_
  simp only [isDateTime, Bool.and_eq_true, List.all_eq_true] at hcs
  exact hcs.1.1.1 c hc

theorem array {items : Schema} {minItems : Nat} {maxItems : Option Nat}
    (hitems : Confines P items) : Confines P (array items minItems maxItems) := by
  intro json haccept cs hcs
  cases json with
  | array values =>
    simp only [Schema.array, Bool.and_eq_true, List.all_eq_true] at haccept
    rw [Json.strings_array] at hcs
    obtain ⟨value, hvalue, hcs⟩ := List.mem_flatMap.mp hcs
    exact hitems value (haccept.1.1 value hvalue) cs hcs
  | _ => cases haccept

theorem object {properties : List Property}
    (hproperties : properties.Forall fun property => Confines P property.schema) :
    Confines P (object properties) := by
  intro json haccept cs hcs
  cases json with
  | object members =>
    simp only [Schema.object, Bool.and_eq_true, List.all_eq_true, List.any_eq_true] at haccept
    rw [Json.strings_object] at hcs
    obtain ⟨member, hmember, hcs⟩ := List.mem_flatMap.mp hcs
    obtain ⟨property, hproperty, -, hschema⟩ := haccept.1 member hmember
    have hconfines := List.forall_iff_forall_mem.mp hproperties property hproperty
    exact hconfines member.2 hschema cs hcs
  | _ => cases haccept

theorem oneOf {options : List Schema} (hoptions : options.Forall (Confines P)) :
    Confines P (oneOf options) := by
  intro json haccept
  have hpositive : 0 < (options.filter fun option => option json).length := by
    rw [of_decide_eq_true haccept]
    exact Nat.one_pos
  obtain ⟨option, hoption⟩ := List.exists_mem_of_length_pos hpositive
  obtain ⟨hmem, haccept⟩ := List.mem_filter.mp hoption
  exact List.forall_iff_forall_mem.mp hoptions option hmem json haccept

theorem nullable {schema : Schema} (hschema : Confines P schema) :
    Confines P (nullable schema) :=
  oneOf ⟨hschema, Confines.null⟩

/-- One confining part of a conjunction is enough. -/
theorem allOf {parts : List Schema} {part : Schema} (hmem : part ∈ parts)
    (hpart : Confines P part) : Confines P (allOf parts) := by
  intro json haccept
  exact hpart json (List.all_eq_true.mp haccept part hmem)

end Confines

end Schema

end NixConfig.Data
