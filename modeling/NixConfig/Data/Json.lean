/-
# JSON documents and their encoding

Documents over a type of strings, folded by one recursion, and the encoding
that `encoding/json` writes with HTML escaping on: a string is read rune by
rune, an ill-formed byte becomes the escape of the replacement character, and
quotes, backslashes, control characters, `<`, `>`, `&` and the two Unicode line
separators are escaped.

Two facts decide what a search of the encoded document can find. The escaped
form of every string of the document lies in the encoding, and no `<`, `>` or
`&` does.
-/

import Mathlib.Data.Nat.Digits.Defs
import NixConfig.Data.Utf8

namespace NixConfig.Data

/-- A JSON document whose strings are values of `σ`. Numbers are integers. -/
inductive Json (σ : Type)
  | null
  | bool (value : Bool)
  | number (value : Int)
  | string (value : σ)
  | array (items : List (Json σ))
  | object (members : List (String × Json σ))

/-- What a fold over documents does at each kind of node. -/
structure Algebra (σ α : Type) where
  null : α
  bool : Bool → α
  number : Int → α
  string : σ → α
  array : List α → α
  object : List (String × α) → α

namespace Json

variable {σ τ α : Type}

mutual

/-- Apply an algebra to a document. -/
def fold (algebra : Algebra σ α) : Json σ → α
  | .null => algebra.null
  | .bool value => algebra.bool value
  | .number value => algebra.number value
  | .string value => algebra.string value
  | .array items => algebra.array (foldItems algebra items)
  | .object members => algebra.object (foldMembers algebra members)

/-- Apply an algebra to every item of an array. -/
def foldItems (algebra : Algebra σ α) : List (Json σ) → List α
  | [] => []
  | item :: rest => fold algebra item :: foldItems algebra rest

/-- Apply an algebra to every member of an object. -/
def foldMembers (algebra : Algebra σ α) : List (String × Json σ) → List (String × α)
  | [] => []
  | (name, value) :: rest => (name, fold algebra value) :: foldMembers algebra rest

end

theorem foldItems_eq_map (algebra : Algebra σ α) (items : List (Json σ)) :
    foldItems algebra items = items.map (fold algebra) := by
  induction items with
  | nil => rfl
  | cons item rest ih => rw [foldItems, ih, List.map_cons]

theorem foldMembers_eq_map (algebra : Algebra σ α) (members : List (String × Json σ)) :
    foldMembers algebra members =
      members.map fun member => (member.1, fold algebra member.2) := by
  induction members with
  | nil => rfl
  | cons member rest ih => rw [foldMembers, ih, List.map_cons]

/-- Induction over documents, with the parts of a container given by membership. -/
@[elab_as_elim]
theorem induction {motive : Json σ → Prop} (null : motive .null)
    (bool : ∀ value, motive (.bool value)) (number : ∀ value, motive (.number value))
    (string : ∀ value, motive (.string value))
    (array : ∀ items, (∀ item ∈ items, motive item) → motive (.array items))
    (object : ∀ members : List (String × Json σ), (∀ member ∈ members, motive member.2) →
      motive (.object members)) (json : Json σ) : motive json :=
  @Json.rec σ motive (fun items => ∀ item ∈ items, motive item)
    (fun members => ∀ member ∈ members, motive member.2) (fun member => motive member.2)
    null bool number string array object
    (by simp) (fun _ _ hitem hrest => List.forall_mem_cons.mpr ⟨hitem, hrest⟩)
    (by simp) (fun _ _ hmember hrest => List.forall_mem_cons.mpr ⟨hmember, hrest⟩)
    (fun _ _ hvalue => hvalue) json

/-! ## The strings of a document -/

/-- Every string value of a document; the names of members are not values. -/
def strings (json : Json σ) : List σ :=
  json.fold ⟨[], fun _ => [], fun _ => [], fun value => [value], List.flatten,
    fun members => (members.map Prod.snd).flatten⟩

@[simp] theorem strings_null : (null : Json σ).strings = [] := rfl

@[simp] theorem strings_bool (value : Bool) : (bool value : Json σ).strings = [] := rfl

@[simp] theorem strings_number (value : Int) : (number value : Json σ).strings = [] := rfl

@[simp] theorem strings_string (value : σ) : (string value).strings = [value] := rfl

@[simp] theorem strings_array (items : List (Json σ)) :
    (array items).strings = items.flatMap strings := by
  rw [strings, fold, foldItems_eq_map]
  rfl

@[simp] theorem strings_object (members : List (String × Json σ)) :
    (object members).strings = members.flatMap fun member => member.2.strings := by
  simp only [strings, fold, foldMembers_eq_map, List.map_map]
  rfl

/-- Replace every string of a document. -/
def map (f : σ → τ) (json : Json σ) : Json τ :=
  json.fold ⟨.null, .bool, .number, fun value => .string (f value), .array, .object⟩

theorem strings_map (f : σ → τ) (json : Json σ) : (json.map f).strings = json.strings.map f := by
  induction json using Json.induction with
  | null => rfl
  | bool value => rfl
  | number value => rfl
  | string value => rfl
  | array items ih =>
    rw [map, fold, foldItems_eq_map, strings_array, strings_array, List.flatMap_map,
      List.map_flatMap]
    exact List.flatMap_congr ih
  | object members ih =>
    rw [map, fold, foldMembers_eq_map, strings_object, strings_object, List.flatMap_map,
      List.map_flatMap]
    exact List.flatMap_congr ih

end Json

/-! ## Escaping -/

/-- The double quote. -/
def quote : Char := Char.ofNat 0x22

/-- The backslash. -/
def backslash : Char := Char.ofNat 0x5C

/-- The digit of a number below sixteen, in lower case. -/
def hexDigit (n : Nat) : Char := Char.ofNat (if n < 10 then 0x30 + n else 0x57 + n)

/-- What `encoding/json` writes for one character. -/
def escapeChar (c : Char) : List Char :=
  if c = quote ∨ c = backslash then [backslash, c]
  else if c = Char.ofNat 0x08 then [backslash, 'b']
  else if c = Char.ofNat 0x0C then [backslash, 'f']
  else if c = Char.ofNat 0x0A then [backslash, 'n']
  else if c = Char.ofNat 0x0D then [backslash, 'r']
  else if c = Char.ofNat 0x09 then [backslash, 't']
  else if c.toNat < 0x20 ∨ c = '<' ∨ c = '>' ∨ c = '&' then
    [backslash, 'u', '0', '0', hexDigit (c.toNat / 16), hexDigit (c.toNat % 16)]
  else if c = Char.ofNat 0x2028 ∨ c = Char.ofNat 0x2029 then
    [backslash, 'u', '2', '0', '2', hexDigit (c.toNat % 16)]
  else [c]

/-- What `encoding/json` writes for one rune. -/
def escapeRune : Option Char → List Char
  | some c => escapeChar c
  | none => backslash :: "ufffd".toList

/-- The characters between the quotes of an encoded string. -/
def escape (text : Text) : List Char := (runes text).flatMap escapeRune

theorem escape_utf8 (cs : List Char) : escape (utf8 cs) = cs.flatMap escapeChar := by
  induction cs with
  | nil => rfl
  | cons c cs ih =>
    rw [escape, utf8_cons, runes_append, List.flatMap_cons, List.flatMap_cons, ← ih]
    rfl

/-- The characters that escape sequences are made of. -/
def escapeAlphabet : List Char := quote :: backslash :: "bfnrtu0123456789abcdef".toList

variable {c : Char} {equate reduce : Char → Char} {cs : List Char} {pieces : List (List Char)}

/-- Beyond ASCII only the two line separators are escaped. -/
theorem escapeChar_of_le (hlarge : 0x80 ≤ c.toNat) (hline : c ≠ Char.ofNat 0x2028)
    (hparagraph : c ≠ Char.ofNat 0x2029) : escapeChar c = [c] := by
  have hne : ∀ n < 0x80, c ≠ Char.ofNat n := by
    rintro n hn rfl
    have hall : ∀ n < 0x80, (Char.ofNat n).toNat < 0x80 := by decide
    exact absurd hlarge (Nat.not_le.mpr (hall n hn))
  have hcontrol : ¬ c.toNat < 0x20 := by omega
  simp [escapeChar, quote, backslash, hne, hcontrol, hline, hparagraph]

/-- A character is written as it is, or as an escape sequence. -/
theorem escapeChar_cases (c : Char) :
    escapeChar c = [c] ∨ ∀ d ∈ escapeChar c, d ∈ escapeAlphabet := by
  rcases Nat.lt_or_ge c.toNat 0x80 with hsmall | hlarge
  · have hall : ∀ n < 0x80, escapeChar (Char.ofNat n) = [Char.ofNat n] ∨
        ∀ d ∈ escapeChar (Char.ofNat n), d ∈ escapeAlphabet := by decide +kernel
    simpa only [Char.ofNat_toNat] using hall c.toNat hsmall
  by_cases hline : c = Char.ofNat 0x2028
  · subst hline
    exact .inr (by decide)
  by_cases hparagraph : c = Char.ofNat 0x2029
  · subst hparagraph
    exact .inr (by decide)
  · exact .inl (escapeChar_of_le hlarge hline hparagraph)

/-- A character that no escape sequence has is read in every text whose escaped
form has it. -/
theorem mem_chars_of_mem_escape (hplain : c ∉ escapeAlphabet) {text : Text} (hc : c ∈ escape text) :
    c ∈ chars text := by
  obtain ⟨rune, hrune, hc⟩ := List.mem_flatMap.mp hc
  rcases rune with _ | d
  · have hall : ∀ c ∈ escapeRune none, c ∈ escapeAlphabet := by decide
    exact absurd (hall c hc) hplain
  · rcases escapeChar_cases d with hself | hescape
    · rw [escapeRune, hself, List.mem_singleton] at hc
      exact List.mem_map.mpr ⟨some d, hrune, hc.symm⟩
    · exact absurd (hescape c hc) hplain

theorem escapeChar_of_isAlpha (hletter : c.isAlpha) : escapeChar c = [c] := by
  rcases Nat.lt_or_ge c.toNat 0x80 with hsmall | hlarge
  · have hall : ∀ n < 0x80, (Char.ofNat n).isAlpha → escapeChar (Char.ofNat n) = [Char.ofNat n] := by
      decide
    have hescape := hall c.toNat hsmall
    rw [Char.ofNat_toNat] at hescape
    exact hescape hletter
  · refine escapeChar_of_le hlarge ?_ ?_ <;> rintro rfl <;> exact absurd hletter (by decide)

/-- Runes that agree with characters up to `equate` are escaped alike up to
`reduce`, when the characters themselves are and none is read for an ill-formed
byte. -/
theorem map_escapeRune_of_map_eq
    (hescape : ∀ c d, equate c = equate d → (escapeChar c).map reduce = (escapeChar d).map reduce)
    {window : List (Option Char)} (hproper : ∀ c ∈ cs, equate c ≠ equate replacement)
    (hwindow : window.map (fun rune => equate (rune.getD replacement)) = cs.map equate) :
    (window.flatMap escapeRune).map reduce = (cs.flatMap escapeChar).map reduce := by
  induction window generalizing cs with
  | nil =>
    obtain rfl : cs = [] := by simpa using hwindow.symm
    rfl
  | cons rune window ih =>
    rcases cs with _ | ⟨c, cs⟩
    · cases hwindow
    obtain ⟨hrune, hrest⟩ := List.cons.inj hwindow
    obtain ⟨hc, hcs⟩ := List.forall_mem_cons.mp hproper
    rcases rune with _ | d
    · exact absurd hrune.symm hc
    · simp only [List.flatMap_cons, List.map_append, escapeRune, hescape d c hrune, ih hcs hrest]

/-- Where a text reads as some characters up to `equate`, its escaped form
contains theirs up to `reduce`. -/
theorem escapeChars_infix_escape
    (hescape : ∀ c d, equate c = equate d → (escapeChar c).map reduce = (escapeChar d).map reduce)
    {text : Text} (hproper : ∀ c ∈ cs, equate c ≠ equate replacement)
    (hwithin : cs.map equate <:+: (chars text).map equate) :
    (cs.flatMap escapeChar).map reduce <:+: (escape text).map reduce := by
  obtain ⟨before, after, hchars⟩ := hwithin
  rw [chars, List.map_map] at hchars
  obtain ⟨front, back, hsplit, hfront, -⟩ := List.map_eq_append_iff.mp hchars.symm
  obtain ⟨start, window, rfl, -, hwindow⟩ := List.map_eq_append_iff.mp hfront
  have hsame := map_escapeRune_of_map_eq hescape hproper hwindow
  refine ⟨(start.flatMap escapeRune).map reduce, (back.flatMap escapeRune).map reduce, ?_⟩
  rw [escape, hsplit, ← hsame]
  simp only [List.flatMap_append, List.map_append]

/-! ## Encoding -/

/-- A decimal numeral. -/
def decimal (n : Int) : List Char :=
  if n < 0 then '-' :: Nat.toDigits 10 n.natAbs else Nat.toDigits 10 n.natAbs

theorem mem_decimal {n : Int} (hc : c ∈ decimal n) : c = '-' ∨ c.isDigit := by
  have hdigits : c ∈ Nat.toDigits 10 n.natAbs → c.isDigit :=
    Nat.isDigit_of_mem_toDigits (by decide) (le_refl 10)
  unfold decimal at hc
  split at hc
  · exact (List.mem_cons.mp hc).imp_right hdigits
  · exact .inr (hdigits hc)

/-- A quoted string of escaped characters. -/
def quoted (cs : List Char) : List Char := quote :: cs ++ [quote]

/-- Pieces with commas between them. -/
def commaSeparated : List (List Char) → List Char
  | [] => []
  | piece :: rest => piece ++ rest.flatMap (',' :: ·)

theorem infix_commaSeparated {piece : List Char} (hmem : piece ∈ pieces) :
    piece <:+: commaSeparated pieces := by
  rcases pieces with _ | ⟨first, rest⟩
  · exact absurd hmem List.not_mem_nil
  rcases List.mem_cons.mp hmem with rfl | hrest
  · exact List.infix_append_left
  · obtain ⟨before, after, rfl⟩ := List.append_of_mem hrest
    refine ⟨first ++ before.flatMap (',' :: ·) ++ [','], after.flatMap (',' :: ·), ?_⟩
    simp [commaSeparated]

theorem mem_commaSeparated (hmem : c ∈ commaSeparated pieces) :
    c = ',' ∨ ∃ piece ∈ pieces, c ∈ piece := by
  rcases pieces with _ | ⟨first, rest⟩
  · exact absurd hmem List.not_mem_nil
  rcases List.mem_append.mp hmem with hfirst | hrest
  · exact .inr ⟨first, List.mem_cons_self, hfirst⟩
  · obtain ⟨piece, hpiece, hc⟩ := List.mem_flatMap.mp hrest
    rcases List.mem_cons.mp hc with rfl | hc
    · exact .inl rfl
    · exact .inr ⟨piece, List.mem_cons_of_mem _ hpiece, hc⟩

namespace Json

/-- One member of an encoded object: its name, then its encoded value. -/
def encodeMember (member : String × List Char) : List Char :=
  quoted (member.1.toList.flatMap escapeChar) ++ ':' :: member.2

/-- The characters `json.Marshal` writes for a document. -/
def encode (json : Json Text) : List Char :=
  json.fold ⟨"null".toList, fun value => (if value then "true" else "false").toList, decimal,
    fun value => quoted (escape value),
    fun items => '[' :: commaSeparated items ++ [']'],
    fun members => Char.ofNat 0x7B :: commaSeparated (members.map encodeMember) ++
      [Char.ofNat 0x7D]⟩

theorem encode_array (items : List (Json Text)) :
    (array items).encode = '[' :: commaSeparated (items.map encode) ++ [']'] := by
  rw [encode, fold, foldItems_eq_map]
  rfl

theorem encode_object (members : List (String × Json Text)) :
    (object members).encode = Char.ofNat 0x7B :: commaSeparated (members.map fun member =>
      encodeMember (member.1, member.2.encode)) ++ [Char.ofNat 0x7D] := by
  simp only [encode, fold, foldMembers_eq_map, List.map_map]
  rfl

/-- The escaped form of every string of a document lies in its encoding. -/
theorem escape_infix_encode {json : Json Text} {text : Text} (hmem : text ∈ json.strings) :
    escape text <:+: json.encode := by
  induction json using Json.induction with
  | null => exact absurd hmem List.not_mem_nil
  | bool value => exact absurd hmem List.not_mem_nil
  | number value => exact absurd hmem List.not_mem_nil
  | string value =>
    obtain rfl := List.mem_singleton.mp hmem
    exact ⟨[quote], [quote], rfl⟩
  | array items ih =>
    rw [strings_array] at hmem
    obtain ⟨item, hitem, htext⟩ := List.mem_flatMap.mp hmem
    rw [encode_array]
    have hpiece : item.encode <:+: commaSeparated (items.map encode) :=
      infix_commaSeparated (List.mem_map_of_mem hitem)
    exact ((ih item hitem htext).trans hpiece).trans ⟨['['], [']'], rfl⟩
  | object members ih =>
    rw [strings_object] at hmem
    obtain ⟨member, hmember, htext⟩ := List.mem_flatMap.mp hmem
    have hvalue : escape text <:+: ':' :: member.2.encode :=
      (ih member hmember htext).trans (List.suffix_cons _ _).isInfix
    have hmemberText : escape text <:+: encodeMember (member.1, member.2.encode) :=
      hvalue.trans List.infix_append_right
    have hpiece : encodeMember (member.1, member.2.encode) <:+: commaSeparated (members.map
        fun member => encodeMember (member.1, member.2.encode)) :=
      infix_commaSeparated (List.mem_map_of_mem hmember)
    rw [encode_object]
    exact (hmemberText.trans hpiece).trans ⟨[_], [_], rfl⟩

/-- The characters of an encoding that come neither from strings nor from numbers. -/
def syntaxAlphabet : List Char :=
  quote :: Char.ofNat 0x7B :: Char.ofNat 0x7D :: "nulltruefalse-[],:".toList

/-- A property of the syntax, of the digits and of everything a rune is
escaped to is a property of every character of an encoding. -/
theorem forall_mem_encode {P : Char → Prop} (hsyntactic : ∀ c ∈ syntaxAlphabet, P c)
    (hdigit : ∀ c : Char, c.isDigit → P c) (hescape : ∀ rune, ∀ c ∈ escapeRune rune, P c)
    (json : Json Text) : ∀ c ∈ json.encode, P c := by
  have hquoted : ∀ cs : List Char, (∀ c ∈ cs, P c) → ∀ c ∈ quoted cs, P c := by
    intro cs hcs c hc
    simp only [quoted, List.cons_append, List.mem_cons, List.mem_append, List.not_mem_nil,
      or_false] at hc
    rcases hc with rfl | hc | rfl
    · exact hsyntactic _ (by decide)
    · exact hcs c hc
    · exact hsyntactic _ (by decide)
  have hseparated : ∀ first last pieces, P first → P last → (∀ piece ∈ pieces, ∀ c ∈ piece, P c) →
      ∀ c ∈ first :: commaSeparated pieces ++ [last], P c := by
    intro first last pieces hfirst hlast hpieces c hc
    simp only [List.cons_append, List.mem_cons, List.mem_append, List.not_mem_nil, or_false] at hc
    rcases hc with rfl | hc | rfl
    · exact hfirst
    · rcases mem_commaSeparated hc with rfl | ⟨piece, hpiece, hc⟩
      · exact hsyntactic _ (by decide)
      · exact hpieces piece hpiece c hc
    · exact hlast
  induction json using Json.induction with
  | null =>
    have hall : ∀ c ∈ (null : Json Text).encode, c ∈ syntaxAlphabet := by decide
    exact fun c hc => hsyntactic c (hall c hc)
  | bool value =>
    have hall : ∀ value, ∀ c ∈ (bool value : Json Text).encode, c ∈ syntaxAlphabet := by decide
    exact fun c hc => hsyntactic c (hall value c hc)
  | number value =>
    intro c hc
    rcases mem_decimal hc with rfl | hc
    · exact hsyntactic _ (by decide)
    · exact hdigit c hc
  | string value =>
    refine hquoted _ fun c hc => ?_
    obtain ⟨rune, -, hc⟩ := List.mem_flatMap.mp hc
    exact hescape rune c hc
  | array items ih =>
    rw [encode_array]
    refine hseparated _ _ _ (hsyntactic _ (by decide)) (hsyntactic _ (by decide)) ?_
    simpa only [List.forall_mem_map] using ih
  | object members ih =>
    rw [encode_object]
    refine hseparated _ _ _ (hsyntactic _ (by decide)) (hsyntactic _ (by decide)) ?_
    simp only [List.forall_mem_map]
    intro member hmember c hc
    rcases List.mem_append.mp hc with hname | hvalue
    · refine hquoted _ (fun c hc => ?_) c hname
      obtain ⟨d, -, hc⟩ := List.mem_flatMap.mp hc
      exact hescape (some d) c hc
    · rcases List.mem_cons.mp hvalue with rfl | hvalue
      · exact hsyntactic _ (by decide)
      · exact ih member hmember c hvalue

/-- The three characters that HTML escaping keeps out of an encoding. -/
def markup : List Char := ['<', '>', '&']

/-- No encoding contains `<`, `>` or `&`. -/
theorem not_mem_markup_of_mem_encode {json : Json Text} {c : Char} (hc : c ∈ json.encode) :
    c ∉ markup := by
  refine forall_mem_encode (P := fun c => c ∉ markup) (by decide) ?_ ?_ json c hc
  · intro c hdigit hmarkup
    have hall : ∀ c ∈ markup, ¬ c.isDigit := by decide
    exact hall c hmarkup hdigit
  · have halphabet : ∀ c ∈ escapeAlphabet, c ∉ markup := by decide
    intro rune c hc
    rcases rune with _ | d
    · revert c
      decide
    rcases escapeChar_cases d with hself | hescape
    · -- Written as it is: but the three are not.
      intro hmarkup
      rw [escapeRune, hself, List.mem_singleton] at hc
      subst hc
      have hall : ∀ c ∈ markup, escapeChar c ≠ [c] := by decide
      exact hall c hmarkup hself
    · exact halphabet c (hescape c hc)

end Json

end NixConfig.Data
