/-
# What the planner can see of local values

The case builder searches the marshalled request, not the strings the planner
reads in it, so a local value is found only where marshalling leaves it intact.
A value that occurs in its own escaped form is found in every text that contains
it, and a value with a control character is in no text the schema accepts. The
search comes before the case is named, so the case identifier, a digest, is not
searched: it is the one string that can show such a value.
-/

import NixConfig.MediaRepair.CaseBuilder.Assemble

namespace NixConfig.MediaRepair.CaseBuilder

open Data Semantics
open Contracts

/-! ## What a finished assembly has passed -/

/-- The strings the planner reads in the encoded request. -/
def Assembly.visible (assembly : Assembly) : List (List Char) :=
  (assembly.request.json.map chars).strings

/-- The planner sees a path. -/
def Assembly.ShowsPath (assembly : Assembly) (path : Text) : Prop :=
  ∃ shown ∈ assembly.visible, path <:+: utf8 shown

/-- The planner sees an identifier, in upper or lower case. -/
def Assembly.ShowsIdentifier (assembly : Assembly) (identifier : Text) : Prop :=
  ∃ shown ∈ assembly.visible, identifier.map asciiLower <:+: (utf8 shown).map asciiLower

variable {libraries : Libraries} {request : RepairCaseV3} {observation : Observation}
  {assembly : Assembly} {cs shown : List Char} {identifier : Text}

/-- A request that was not rejected contains no local value as it is encoded. -/
theorem rejectLocalValues_eq_ok
    (hpassed : rejectLocalValues libraries request observation = .ok ()) :
    (∀ path ∈ localPaths observation, path ≠ [] → ¬ path <:+: utf8 request.json.encode) ∧
      ∀ identifier ∈ downloadIdentifiers observation, identifier ≠ [] →
        ¬ toLower libraries.unicode identifier <:+:
          toLower libraries.unicode (utf8 request.json.encode) := by
  unfold rejectLocalValues at hpassed
  split at hpassed
  · cases hpassed
  rename_i encoded hmarshal
  obtain ⟨-, ⟨⟩⟩ := Option.ite_none_right_eq_some.mp hmarshal
  simpa [fail, ite_error_eq_ok, contains] using hpassed

/-- An assembly names a request that was searched, by a digest, and is valid. -/
theorem assemble_eq_ok (hassemble : assemble libraries observation = .ok assembly) :
    ∃ request digest, rejectLocalValues libraries request observation = .ok () ∧
      assembly.request = { request with caseID := sha256Text digest } ∧
      CaseSchema.repairCase (assembly.request.json.map chars) := by
  simp only [assemble, finish, bind_eq_ok, mapError_eq_ok] at hassemble
  obtain ⟨⟨request, bindings⟩, -, ⟨⟩, hpassed, caseID, -, encoded, hencode, ⟨⟩⟩ := hassemble
  obtain ⟨⟨digest, hdigest⟩, -, hvalid⟩ := encodeCase_eq_ok hencode
  obtain rfl : caseID = sha256Text digest := hdigest
  exact ⟨request, digest, hpassed, rfl, hvalid⟩

/-- Naming a request adds one string to it. -/
theorem mem_strings_of_named {caseID text : Text}
    (hmem : text ∈ ({ request with caseID := caseID } : RepairCaseV3).json.strings) :
    text = caseID ∨ text ∈ request.json.strings := by
  unfold RepairCaseV3.json at hmem ⊢
  rw [Json.strings_object] at hmem ⊢
  obtain ⟨member, hmember, htext⟩ := List.mem_flatMap.mp hmem
  rcases List.mem_cons.mp hmember with hfirst | hmember
  · exact .inr (List.mem_flatMap.mpr ⟨member, List.mem_cons.mpr (.inl hfirst), htext⟩)
  rcases List.mem_cons.mp hmember with rfl | hlater
  · exact .inl (List.mem_singleton.mp htext)
  · exact .inr (List.mem_flatMap.mpr
      ⟨member, List.mem_cons_of_mem _ (List.mem_cons_of_mem _ hlater), htext⟩)

/-! ## Values that the search can find -/

/-- Text that occurs in its own escaped form. -/
def Survives (value : Text) : Prop :=
  ∃ cs, value = utf8 cs ∧ replacement ∉ cs ∧ cs <:+: cs.flatMap escapeChar

/-- Text that is no part of a text of characters, in either case. -/
def Unreadable (value : Text) : Prop :=
  ∀ cs, ¬ value.map asciiLower <:+: (utf8 cs).map asciiLower

/-- Text with a control character. -/
def Unprintable (value : Text) : Prop := ∃ byte ∈ value, isControl byte

/-- Text that is in the escaped form of every string that shows it. -/
def Kept (value : Text) : Prop :=
  ∀ text, value <:+: utf8 (chars text) → value <:+: utf8 (escape text)

/-- The same in either case, as `strings.ToLower` compares texts. -/
def KeptLower (unicode : Unicode) (value : Text) : Prop :=
  ∀ text, value.map asciiLower <:+: (utf8 (chars text)).map asciiLower →
    toLower unicode value <:+: toLower unicode (utf8 (escape text))

/-- What survives its own escaping is found wherever a string shows it, up to
any way of equating characters that the search equates too. -/
theorem infix_escape_of_survives {equate reduce : Char → Char}
    (hescape : ∀ c d, equate c = equate d → (escapeChar c).map reduce = (escapeChar d).map reduce)
    (hproper : ∀ c ∈ cs, equate c ≠ equate replacement) (hsurvives : cs <:+: cs.flatMap escapeChar)
    {text : Text} (hwithin : utf8 (cs.map equate) <:+: utf8 ((chars text).map equate)) :
    utf8 (cs.map reduce) <:+: utf8 ((escape text).map reduce) := by
  have hshown : cs.map equate <:+: (chars text).map equate := infix_of_infix_utf8 hwithin
  have hescaped : (cs.flatMap escapeChar).map reduce <:+: (escape text).map reduce :=
    escapeChars_infix_escape hescape hproper hshown
  exact utf8_infix_utf8 ((hsurvives.map reduce).trans hescaped)

/-- Characters that ASCII lowering equates are escaped to texts that
`strings.ToLower` equates. -/
theorem map_lower_escapeChar (unicode : Unicode) (c d : Char) (hlower : c.toLower = d.toLower) :
    (escapeChar c).map unicode.lower = (escapeChar d).map unicode.lower := by
  rcases eq_or_isAlpha_of_toLower_eq hlower with rfl | ⟨hc, hd⟩
  · rfl
  · rw [escapeChar_of_isAlpha hc, escapeChar_of_isAlpha hd, List.map_singleton,
      List.map_singleton, unicode.lower_ascii c (toNat_lt_of_isAlpha hc),
      unicode.lower_ascii d (toNat_lt_of_isAlpha hd), hlower]

theorem kept_of_survives {value : Text} (hsurvives : Survives value) : Kept value := by
  obtain ⟨cs, rfl, hproper, hsurvives⟩ := hsurvives
  intro text hwithin
  have hescape : ∀ c d, id c = id d → (escapeChar c).map id = (escapeChar d).map id := by
    rintro c d rfl
    rfl
  have hordinary : ∀ c ∈ cs, id c ≠ id replacement := fun c hc => ne_of_mem_of_not_mem hc hproper
  rw [← List.map_id cs, ← List.map_id (chars text)] at hwithin
  simpa only [List.map_id] using infix_escape_of_survives hescape hordinary hsurvives hwithin

theorem keptLower_of_survives (unicode : Unicode) {value : Text} (hsurvives : Survives value) :
    KeptLower unicode value := by
  obtain ⟨cs, rfl, hproper, hsurvives⟩ := hsurvives
  intro text hwithin
  rw [map_asciiLower_utf8, map_asciiLower_utf8] at hwithin
  have hordinary : ∀ c ∈ cs, c.toLower ≠ replacement.toLower := by
    intro c hc hlower
    rcases eq_or_isAlpha_of_toLower_eq hlower with rfl | ⟨-, hletter⟩
    · exact hproper hc
    · exact absurd hletter (by decide)
  rw [toLower, toLower, chars_utf8, chars_utf8]
  exact infix_escape_of_survives (map_lower_escapeChar unicode) hordinary hsurvives hwithin

/-- Both hold of text that no string can show. -/
theorem kept_of_unreadable (unicode : Unicode) {value : Text} (hunreadable : Unreadable value) :
    Kept value ∧ KeptLower unicode value :=
  ⟨fun text hwithin => absurd (hwithin.map asciiLower) (hunreadable (chars text)),
    fun text hwithin => absurd hwithin (hunreadable (chars text))⟩

/-- No string of printable characters shows a text with a control character. -/
theorem not_unprintable_of_isPrintable (hprintable : ∀ c ∈ cs, CaseSchema.isPrintable c)
    {value : Text} (hwithin : value.map asciiLower <:+: (utf8 cs).map asciiLower) :
    ¬ Unprintable value := by
  rintro ⟨byte, hbyte, hcontrol⟩
  have hshown : byte ∈ (utf8 cs).map asciiLower := by
    have hself := (asciiLower_eq_iff hcontrol).mpr rfl
    exact hwithin.subset (List.mem_map.mpr ⟨byte, hbyte, hself⟩)
  obtain ⟨other, hother, hlowered⟩ := List.mem_map.mp hshown
  obtain rfl := (asciiLower_eq_iff hcontrol).mp hlowered
  have hnumber : other.toNat < 0x20 ∨ other.toNat = 0x7F := by
    simpa only [isControl, Bool.or_eq_true, decide_eq_true_eq, beq_iff_eq,
      UInt8.lt_iff_toNat_lt, ← UInt8.toNat_inj, UInt8.reduceToNat] using hcontrol
  have hascii : other < 0x80 := by
    simp only [UInt8.lt_iff_toNat_lt, UInt8.reduceToNat]
    omega
  obtain ⟨c, hc, hsame⟩ := exists_mem_of_mem_utf8 hother hascii
  have hnot := hprintable c hc
  simp only [CaseSchema.isPrintable, Bool.and_eq_true, decide_eq_true_eq, bne_iff_ne] at hnot
  omega

/-! ## Kept values stay local -/

variable {path : Text} (hassemble : assemble libraries observation = .ok assembly)
include hassemble

/-- A visible string is the case identifier, or a printable string of a request that was
searched. -/
theorem visible_cases (hshown : shown ∈ assembly.visible) :
    utf8 shown = assembly.request.caseID ∨
      (∀ c ∈ shown, CaseSchema.isPrintable c) ∧ ∃ request text,
        rejectLocalValues libraries request observation = .ok () ∧
        text ∈ request.json.strings ∧ shown = chars text := by
  obtain ⟨request, digest, hpassed, hnamed, hvalid⟩ := assemble_eq_ok hassemble
  have hprintable := CaseSchema.printable_repairCase _ hvalid shown hshown
  rw [Assembly.visible, Json.strings_map, hnamed] at hshown
  obtain ⟨text, htext, rfl⟩ := List.mem_map.mp hshown
  rcases mem_strings_of_named htext with rfl | hrequest
  · left
    rw [hnamed, sha256Text_eq_utf8, chars_utf8]
  · exact .inr ⟨hprintable, request, text, hpassed, hrequest, rfl⟩

theorem exists_visible_caseID : ∃ shown ∈ assembly.visible, utf8 shown = assembly.request.caseID := by
  obtain ⟨request, digest, -, hnamed, -⟩ := assemble_eq_ok hassemble
  have hmem : sha256Text digest ∈ assembly.request.json.strings := by
    rw [hnamed]
    simp [RepairCaseV3.json]
  refine ⟨chars (sha256Text digest), ?_, ?_⟩
  · rw [Assembly.visible, Json.strings_map]
    exact List.mem_map_of_mem hmem
  · rw [hnamed, sha256Text_eq_utf8, chars_utf8]

/-- Only the case identifier can show a path that is kept or has a control character. -/
theorem showsPath_iff (hpath : path ∈ localPaths observation) (hne : path ≠ [])
    (hguarded : Kept path ∨ Unprintable path) :
    assembly.ShowsPath path ↔ path <:+: assembly.request.caseID := by
  constructor
  · rintro ⟨shown, hshown, hwithin⟩
    rcases visible_cases hassemble hshown with hcase |
      ⟨hprintable, request, text, hpassed, htext, rfl⟩
    · rwa [hcase] at hwithin
    have hkept := hguarded.resolve_right
      (not_unprintable_of_isPrintable hprintable (hwithin.map asciiLower))
    have hencoded := utf8_infix_utf8 (Json.escape_infix_encode htext)
    exact absurd ((hkept text hwithin).trans hencoded)
      ((rejectLocalValues_eq_ok hpassed).1 _ hpath hne)
  · intro hwithin
    obtain ⟨shown, hshown, hcase⟩ := exists_visible_caseID hassemble
    exact ⟨shown, hshown, hcase ▸ hwithin⟩

/-- Likewise for an identifier, in either case. -/
theorem showsIdentifier_iff
    (hidentifier : identifier ∈ downloadIdentifiers observation) (hne : identifier ≠ [])
    (hguarded : KeptLower libraries.unicode identifier ∨ Unprintable identifier) :
    assembly.ShowsIdentifier identifier ↔
      identifier.map asciiLower <:+: assembly.request.caseID.map asciiLower := by
  constructor
  · rintro ⟨shown, hshown, hwithin⟩
    rcases visible_cases hassemble hshown with hcase |
      ⟨hprintable, request, text, hpassed, htext, rfl⟩
    · rwa [hcase] at hwithin
    have hkept := hguarded.resolve_right (not_unprintable_of_isPrintable hprintable hwithin)
    refine absurd ((hkept text hwithin).trans ?_)
      ((rejectLocalValues_eq_ok hpassed).2 _ hidentifier hne)
    rw [toLower, toLower, chars_utf8, chars_utf8]
    exact utf8_infix_utf8 ((Json.escape_infix_encode htext).map libraries.unicode.lower)
  · intro hwithin
    obtain ⟨shown, hshown, hcase⟩ := exists_visible_caseID hassemble
    exact ⟨shown, hshown, hcase ▸ hwithin⟩

end NixConfig.MediaRepair.CaseBuilder
