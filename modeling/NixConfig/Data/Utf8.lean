/-
# Byte strings and UTF-8

A text is a byte string that may or may not be UTF-8. Reading it rune by rune
gives the characters of its well-formed pieces and one error for every byte
that belongs to none.

What carries the arguments about searching is that UTF-8 synchronises itself:
the first byte of a character is never one of its later bytes, so one encoded
list of characters lies inside another only where the characters do.
-/

import Mathlib.Data.List.Infix

namespace NixConfig.Data

/-- A byte string. -/
abbrev Text := List UInt8

instance : LawfulBEq Text := inferInstance

/-- What holds of the bytes of a text is decided on the text. There are few bytes, and
they could be searched instead. -/
instance (priority := high) decidableForallByte {p : UInt8 → Prop} [DecidablePred p]
    (text : Text) : Decidable (∀ byte ∈ text, p byte) := List.decidableBAll p text

/-- The same for characters. -/
instance (priority := high) decidableForallChar {p : Char → Prop} [DecidablePred p]
    (cs : List Char) : Decidable (∀ c ∈ cs, p c) := List.decidableBAll p cs

/-- The UTF-8 encoding of some characters. -/
def utf8 (cs : List Char) : Text := cs.flatMap String.utf8EncodeChar

@[simp] theorem utf8_nil : utf8 [] = [] := rfl

@[simp] theorem utf8_cons (c : Char) (cs : List Char) :
    utf8 (c :: cs) = String.utf8EncodeChar c ++ utf8 cs := rfl

@[simp] theorem utf8_append (cs ds : List Char) : utf8 (cs ++ ds) = utf8 cs ++ utf8 ds :=
  List.flatMap_append

variable {cs ds : List Char} {c d : Char} {rest after : Text} {byte : UInt8}

theorem utf8_infix_utf8 (hwithin : cs <:+: ds) : utf8 cs <:+: utf8 ds := by
  obtain ⟨before, after, rfl⟩ := hwithin
  exact ⟨utf8 before, utf8 after, by simp⟩

/-! ## Reading runes -/

/-- The character a text starts with, if its first bytes encode one. -/
def decodeRune (text : Text) : Option Char := (text.take 4).toByteArray.utf8DecodeChar? 0

/-- The runes of a text after skipping some bytes: a character, or an error
for one byte that starts none. -/
def runesFrom : Nat → Text → List (Option Char)
  | _, [] => []
  | skip + 1, _ :: rest => runesFrom skip rest
  | 0, byte :: rest =>
    match decodeRune (byte :: rest) with
    | some c => some c :: runesFrom (c.utf8Size - 1) rest
    | none => none :: runesFrom 0 rest

/-- The runes of a text, as ranging over it yields them. -/
def runes (text : Text) : List (Option Char) := runesFrom 0 text

/-- The replacement character, read in place of every ill-formed byte. -/
def replacement : Char := Char.ofNat 0xFFFD

/-- The characters of a text, with ill-formed bytes replaced. -/
def chars (text : Text) : List Char := (runes text).map (·.getD replacement)

theorem runesFrom_append (skipped rest : Text) :
    runesFrom skipped.length (skipped ++ rest) = runesFrom 0 rest := by
  induction skipped with
  | nil => rfl
  | cons byte skipped ih => exact ih

theorem decodeRune_append (c : Char) (rest : Text) :
    decodeRune (String.utf8EncodeChar c ++ rest) = some c := by
  have hlength : (String.utf8EncodeChar c).length ≤ 4 := by
    rw [String.length_utf8EncodeChar]
    exact Char.utf8Size_le_four c
  rw [decodeRune, List.take_append, List.take_of_length_le hlength, List.toByteArray_append]
  exact ByteArray.utf8DecodeChar?_utf8EncodeChar_append

theorem runes_append (c : Char) (rest : Text) :
    runes (String.utf8EncodeChar c ++ rest) = some c :: runes rest := by
  have hdecode := decodeRune_append c rest
  have hlength := String.length_utf8EncodeChar c
  rcases hbytes : String.utf8EncodeChar c with _ | ⟨byte, more⟩
  · exact absurd hbytes String.utf8EncodeChar_ne_nil
  · rw [hbytes, List.cons_append] at hdecode
    rw [hbytes, List.length_cons] at hlength
    have hskip : c.utf8Size - 1 = more.length := by omega
    rw [runes, List.cons_append, runesFrom, hdecode]
    simp only [hskip, runesFrom_append, runes]

/-- Reading back what was encoded. -/
@[simp] theorem runes_utf8 (cs : List Char) : runes (utf8 cs) = cs.map some := by
  induction cs with
  | nil => rfl
  | cons c cs ih => rw [utf8_cons, runes_append, ih, List.map_cons]

@[simp] theorem chars_utf8 (cs : List Char) : chars (utf8 cs) = cs := by
  rw [chars, runes_utf8, List.map_map]
  exact List.map_id cs

theorem prefix_of_decodeRune {text : Text} (hdecode : decodeRune text = some c) :
    String.utf8EncodeChar c <+: text := by
  have hbytes := congrArg (fun data => data.data.toList)
    (String.toByteArray_utf8EncodeChar_of_utf8DecodeChar?_eq_some hdecode)
  simp only [List.data_toByteArray, ByteArray.data_extract, Array.toList_extract] at hbytes
  rw [hbytes, List.extract_eq_take_drop, List.drop_zero]
  exact (List.take_prefix _ _).trans (List.take_prefix _ _)

/-- A text with the replacement character for every ill-formed byte. -/
def validUtf8 (text : Text) : Text := utf8 (chars text)

@[simp] theorem validUtf8_utf8 (cs : List Char) : validUtf8 (utf8 cs) = utf8 cs := by
  rw [validUtf8, chars_utf8]

/-- A text without ill-formed bytes is the encoding of its characters. -/
theorem validUtf8_of_runes {text : Text} (hmem : none ∉ runes text) : validUtf8 text = text := by
  induction hlength : text.length using Nat.strong_induction_on generalizing text with
  | _ length ih =>
    rcases text with _ | ⟨byte, rest⟩
    · rfl
    · cases hdecode : decodeRune (byte :: rest) with
      | none =>
        -- The first byte is read as an error.
        rw [runes, runesFrom, hdecode] at hmem
        simp at hmem
      | some c =>
        obtain ⟨after, hafter⟩ := prefix_of_decodeRune hdecode
        rw [← hafter] at hmem hlength ⊢
        rw [runes_append, List.mem_cons, not_or] at hmem
        have hshort : after.length < length := by
          rw [← hlength, List.length_append]
          have hpos := List.length_pos_iff.mpr (@String.utf8EncodeChar_ne_nil c)
          omega
        have hrest : validUtf8 after = after := ih _ hshort hmem.2 rfl
        rw [validUtf8, chars, runes_append, List.map_cons, utf8_cons]
        exact congrArg _ hrest

/-- A text that is read without a replacement character is well-formed. -/
theorem validUtf8_of_not_mem {text : Text} (hmem : replacement ∉ chars text) :
    validUtf8 text = text :=
  validUtf8_of_runes fun hnone => hmem (List.mem_map.mpr ⟨none, hnone, rfl⟩)

/-- A text that is read as some characters is their encoding. -/
theorem eq_utf8_of_runes {text : Text} (hrunes : runes text = cs.map some) :
    text = utf8 cs := by
  have hvalid : none ∉ runes text := by simp [hrunes]
  have hchars : chars text = cs := by
    rw [chars, hrunes, List.map_map]
    exact List.map_id cs
  rw [← validUtf8_of_runes hvalid, validUtf8, hchars]

/-- A well-formed text is determined by its runes. -/
theorem eq_of_runes_eq {text text' : Text} (hmem : none ∉ runes text)
    (hrunes : runes text = runes text') : text = text' := by
  have hvalid : validUtf8 text' = text' := validUtf8_of_runes (hrunes ▸ hmem)
  rw [← validUtf8_of_runes hmem, ← hvalid, validUtf8, validUtf8, chars, chars, hrunes]

/-! ## Searching -/

theorem utf8EncodeChar_append_inj {rest' : Text}
    (hbytes : String.utf8EncodeChar c ++ rest = String.utf8EncodeChar d ++ rest') :
    c = d ∧ rest = rest' := by
  have hdecode := decodeRune_append c rest
  rw [hbytes, decodeRune_append] at hdecode
  cases hdecode
  exact ⟨rfl, List.append_cancel_left hbytes⟩

theorem prefix_of_utf8_append (hbytes : utf8 cs ++ after = utf8 ds) : cs <+: ds := by
  induction cs generalizing ds with
  | nil => exact List.nil_prefix
  | cons c cs ih =>
    cases ds with
    | nil => simp [String.utf8EncodeChar_ne_nil] at hbytes
    | cons d ds =>
      rw [utf8_cons, utf8_cons, List.append_assoc] at hbytes
      obtain ⟨rfl, hrest⟩ := utf8EncodeChar_append_inj hbytes
      exact List.prefix_cons_inj c |>.mpr (ih hrest)

/-- Inside the encoding of one character no other character can begin. -/
theorem not_utf8EncodeChar_inside {before : Text} (hbefore : before ≠ [])
    (hshort : before.length < (String.utf8EncodeChar d).length)
    (hbytes : before ++ (String.utf8EncodeChar c ++ after) = String.utf8EncodeChar d ++ rest) :
    False := by
  have hpos : 0 < (String.utf8EncodeChar c).length := by
    rw [List.length_pos_iff]
    exact String.utf8EncodeChar_ne_nil
  -- The same byte is the first of `c` and a later one of `d`.
  have hbyte : (String.utf8EncodeChar d)[before.length] = (String.utf8EncodeChar c)[0] := by
    have hget := congrArg (·[before.length]?) hbytes
    simpa [List.getElem?_append_left hshort, List.getElem?_append_right,
      List.getElem?_append_left hpos, List.getElem?_eq_getElem hshort,
      List.getElem?_eq_getElem hpos] using hget.symm
  have hfirst : (String.utf8EncodeChar d)[before.length].IsUTF8FirstByte := by
    rw [hbyte]
    exact UInt8.isUTF8FirstByte_getElem_utf8EncodeChar.mpr rfl
  have hzero := UInt8.isUTF8FirstByte_getElem_utf8EncodeChar.mp hfirst
  exact hbefore (List.length_eq_zero_iff.mp hzero)

/-- Characters whose encoding lies inside another encoding lie inside the
other characters. -/
theorem infix_of_infix_utf8 (hwithin : utf8 cs <:+: utf8 ds) : cs <:+: ds := by
  rcases cs with _ | ⟨c, cs⟩
  · exact List.nil_infix
  obtain ⟨before, after, hbytes⟩ := hwithin
  induction ds generalizing before with
  | nil => simp [String.utf8EncodeChar_ne_nil] at hbytes
  | cons d ds ih =>
    rcases before with _ | ⟨byte, before⟩
    · exact (prefix_of_utf8_append hbytes).isInfix
    rw [utf8_cons d, List.append_assoc, List.append_eq_append_iff] at hbytes
    -- The match begins inside the first character, or after it.
    rcases hbytes with ⟨inside, hinside, hrest⟩ | ⟨skipped, hskipped, hrest⟩
    · rcases inside with _ | ⟨first, inside⟩
      · exact List.infix_cons (ih [] hrest)
      · have hshort : (byte :: before).length < (String.utf8EncodeChar d).length := by
          rw [hinside]
          simp
        have hbytes : (byte :: before) ++ (String.utf8EncodeChar c ++ (utf8 cs ++ after)) =
            String.utf8EncodeChar d ++ utf8 ds := by
          rw [hinside, List.append_assoc, ← hrest, utf8_cons, List.append_assoc]
        exact (not_utf8EncodeChar_inside (List.cons_ne_nil _ _) hshort hbytes).elim
    · exact List.infix_cons (ih skipped (by rw [List.append_assoc]; exact hrest.symm))

/-! ## ASCII -/

/-- A character is one byte below `0x80`, or bytes from `0x80` on. -/
theorem utf8EncodeChar_cases (c : Char) :
    c.toNat < 0x80 ∧ String.utf8EncodeChar c = [UInt8.ofNat c.toNat] ∨
      0x80 ≤ c.toNat ∧ ∀ byte ∈ String.utf8EncodeChar c, 0x80 ≤ byte := by
  by_cases hascii : c.toNat ≤ 127
  · exact .inl ⟨by omega, if_pos hascii⟩
  refine .inr ⟨by omega, ?_⟩
  have hval : ¬ c.val.toNat ≤ 127 := hascii
  have hlarge : ∀ n : Nat, 128 ≤ n → n < 256 → (0x80 : UInt8) ≤ UInt8.ofNat n := by
    intro n hle hlt
    rw [UInt8.le_iff_toNat_le, UInt8.toNat_ofNat']
    simp only [UInt8.reduceToNat]
    omega
  intro byte hmem
  simp only [String.utf8EncodeChar, if_neg hval] at hmem
  -- The lead byte and the later bytes all have the top bit set.
  split at hmem
  · simp only [List.mem_cons, List.not_mem_nil, or_false] at hmem
    rcases hmem with rfl | rfl <;> exact hlarge _ (by omega) (by omega)
  split at hmem
  · simp only [List.mem_cons, List.not_mem_nil, or_false] at hmem
    rcases hmem with rfl | rfl | rfl <;> exact hlarge _ (by omega) (by omega)
  · simp only [List.mem_cons, List.not_mem_nil, or_false] at hmem
    rcases hmem with rfl | rfl | rfl | rfl <;> exact hlarge _ (by omega) (by omega)

/-- A byte below `0x80` of an encoding is the character with that number. -/
theorem exists_mem_of_mem_utf8 (hmem : byte ∈ utf8 cs) (hascii : byte < 0x80) :
    ∃ c ∈ cs, c.toNat = byte.toNat := by
  obtain ⟨c, hc, hbyte⟩ := List.mem_flatMap.mp hmem
  rcases utf8EncodeChar_cases c with ⟨hsmall, hsingle⟩ | ⟨-, hlarge⟩
  · rw [hsingle, List.mem_singleton] at hbyte
    refine ⟨c, hc, ?_⟩
    rw [hbyte, UInt8.toNat_ofNat']
    omega
  · exact absurd (hlarge byte hbyte) (UInt8.not_le.mpr hascii)

theorem length_utf8_of_ascii (hascii : ∀ c ∈ cs, c.toNat < 0x80) :
    (utf8 cs).length = cs.length := by
  induction cs with
  | nil => rfl
  | cons c cs ih =>
    rw [List.forall_mem_cons] at hascii
    rcases utf8EncodeChar_cases c with ⟨-, hsingle⟩ | ⟨hlarge, -⟩
    · rw [utf8_cons, hsingle, List.length_append, ih hascii.2, List.length_cons, List.length_cons,
        List.length_nil]
      omega
    · exact absurd hascii.1 hlarge.not_gt

/-- ASCII capitals in lower case, byte by byte. -/
def asciiLower (byte : UInt8) : UInt8 :=
  if 0x41 ≤ byte ∧ byte ≤ 0x5A then byte + 0x20 else byte

theorem asciiLower_of_le (hlarge : 0x80 ≤ byte) : asciiLower byte = byte := by
  refine if_neg fun hcapital => ?_
  exact absurd (UInt8.le_trans hlarge hcapital.2) (by decide)

/-- A control character. -/
def isControl (byte : UInt8) : Bool := byte < 0x20 || byte == 0x7F

/-- Lowering neither moves nor makes a control character. -/
theorem asciiLower_eq_iff {control : UInt8} (hcontrol : isControl control) :
    asciiLower byte = control ↔ byte = control := by
  simp only [isControl, Bool.or_eq_true, decide_eq_true_eq, beq_iff_eq, UInt8.lt_iff_toNat_lt,
    ← UInt8.toNat_inj, UInt8.reduceToNat] at hcontrol
  unfold asciiLower
  split_ifs with hcapital
  · simp only [UInt8.le_iff_toNat_le, UInt8.reduceToNat] at hcapital
    simp only [← UInt8.toNat_inj, UInt8.toNat_add, UInt8.reduceToNat]
    omega
  · rfl

theorem toNat_lt_of_isAlpha (hletter : c.isAlpha) : c.toNat < 0x80 := by
  delta Char.isAlpha Char.isUpper Char.isLower at hletter
  simp only [Bool.or_eq_true, Bool.and_eq_true, decide_eq_true_eq] at hletter
  have hmost : c.val.toNat ≤ 122 := by
    rcases hletter with hupper | hlower
    · exact (UInt32.le_iff_toNat_le.mp hupper.2).trans (by decide)
    · exact UInt32.le_iff_toNat_le.mp hlower.2
  exact Nat.lt_of_le_of_lt hmost (by decide)

theorem toLower_of_le (hlarge : 0x80 ≤ c.toNat) : c.toLower = c := by
  refine dif_neg fun hcapital => ?_
  have hle : c.val.toNat ≤ 90 := UInt32.le_iff_toNat_le.mp hcapital.2
  have hlarge : 0x80 ≤ c.val.toNat := hlarge
  omega

/-- Characters with the same lower case are equal, or letters. -/
theorem eq_or_isAlpha_of_toLower_eq (hlower : c.toLower = d.toLower) :
    c = d ∨ c.isAlpha ∧ d.isAlpha := by
  have hcases : ∀ e : Char, e.toLower = e ∨ e.isAlpha ∧ e.toLower.isAlpha := by
    intro e
    have hall : ∀ n < 0x80, (Char.ofNat n).toLower = Char.ofNat n ∨
        (Char.ofNat n).isAlpha ∧ (Char.ofNat n).toLower.isAlpha := by decide
    rcases Nat.lt_or_ge e.toNat 0x80 with hsmall | hlarge
    · simpa only [Char.ofNat_toNat] using hall e.toNat hsmall
    · exact .inl (toLower_of_le hlarge)
  rcases hcases c with hc | ⟨hc, hc'⟩ <;> rcases hcases d with hd | ⟨hd, hd'⟩
  · rw [hc, hd] at hlower
    exact .inl hlower
  · rw [hc] at hlower
    exact .inr ⟨hlower ▸ hd', hd⟩
  · rw [hd] at hlower
    exact .inr ⟨hc, hlower ▸ hc'⟩
  · exact .inr ⟨hc, hd⟩

theorem map_asciiLower_utf8EncodeChar (c : Char) :
    (String.utf8EncodeChar c).map asciiLower = String.utf8EncodeChar c.toLower := by
  rcases utf8EncodeChar_cases c with ⟨hsmall, -⟩ | ⟨hlarge, hbytes⟩
  · have hall : ∀ n < 0x80, (String.utf8EncodeChar (Char.ofNat n)).map asciiLower =
        String.utf8EncodeChar (Char.ofNat n).toLower := by decide
    simpa only [Char.ofNat_toNat] using hall c.toNat hsmall
  · rw [toLower_of_le hlarge]
    conv_rhs => rw [← List.map_id (String.utf8EncodeChar c)]
    exact List.map_congr_left fun byte hmem => asciiLower_of_le (hbytes byte hmem)

/-- Lowering the bytes of an encoding lowers its characters. -/
theorem map_asciiLower_utf8 (cs : List Char) :
    (utf8 cs).map asciiLower = utf8 (cs.map Char.toLower) := by
  induction cs with
  | nil => rfl
  | cons c cs ih => simp [map_asciiLower_utf8EncodeChar, ih]

end NixConfig.Data
