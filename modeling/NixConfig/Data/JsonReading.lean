/-
# Reading an encoding back

An encoded document determines the document, as far as its strings determine their runes:
ill-formed bytes are all written alike. The argument reads two equal encodings from the left.
A document is told from what follows it by its first character and by the bracket, comma or
end that comes next, which no number continues with.
-/

import Mathlib.Data.List.Nodup
import NixConfig.Data.Strings

namespace NixConfig.Data

/-! ## Strings -/

/-- The runes that are not written as they are. -/
def escapedRunes : List (Option Char) :=
  none :: (List.range 0x20 ++ [0x22, 0x26, 0x3C, 0x3E, 0x5C, 0x2028, 0x2029]).map
    fun n => some (Char.ofNat n)

/-- A rune is written as one character, or as an escape sequence of a length that its second
character tells. -/
theorem escapeRune_cases (rune : Option Char) :
    (∃ c, rune = some c ∧ c ≠ backslash ∧ c ≠ quote ∧ escapeRune rune = [c]) ∨
      (rune ∈ escapedRunes ∧ ∃ c rest, escapeRune rune = backslash :: c :: rest ∧
        rest.length = if c = 'u' then 4 else 0) := by
  by_cases hmem : rune ∈ escapedRunes
  · have hall : ∀ rune ∈ escapedRunes, (escapeRune rune).head? = some backslash ∧
        (escapeRune rune).length =
          if (escapeRune rune)[1]? = some 'u' then 6 else 2 := by decide +kernel
    obtain ⟨hhead, hlength⟩ := hall rune hmem
    refine .inr ⟨hmem, ?_⟩
    match hrune : escapeRune rune with
    | [] => simp [hrune] at hhead
    | [first] => simp [hrune] at hlength
    | first :: second :: rest =>
      rw [hrune] at hhead hlength
      obtain rfl : first = backslash := by simpa using hhead
      refine ⟨second, rest, rfl, ?_⟩
      by_cases hsecond : second = 'u' <;> simp_all
  · obtain ⟨c, rfl⟩ : ∃ c, rune = some c := by
      cases rune with
      | none => exact absurd (by simp [escapedRunes]) hmem
      | some c => exact ⟨c, rfl⟩
    refine .inl ⟨c, rfl, ?_⟩
    rcases Nat.lt_or_ge c.toNat 0x80 with hsmall | hlarge
    · have hall : ∀ n < 0x80, some (Char.ofNat n) ∉ escapedRunes → Char.ofNat n ≠ backslash ∧
          Char.ofNat n ≠ quote ∧ escapeRune (some (Char.ofNat n)) = [Char.ofNat n] := by
        decide +kernel
      have hplain := hall c.toNat hsmall
      rw [Char.ofNat_toNat] at hplain
      exact hplain hmem
    · have hascii : backslash.toNat < 0x80 ∧ quote.toNat < 0x80 := by decide
      refine ⟨?_, ?_, escapeChar_of_le hlarge ?_ ?_⟩
      · rintro rfl
        omega
      · rintro rfl
        omega
      · rintro rfl
        exact hmem (by decide)
      · rintro rfl
        exact hmem (by decide)

theorem escapeRune_injective : Function.Injective escapeRune := by
  have hnodup : (escapedRunes.map escapeRune).Nodup := by decide +kernel
  intro rune rune' heq
  rcases escapeRune_cases rune with ⟨c, rfl, hc, -, hplain⟩ | ⟨hmem, c, rest, hescape, -⟩
  · rcases escapeRune_cases rune' with ⟨d, rfl, -, -, hplain'⟩ | ⟨-, d, rest, hescape', -⟩
    · rw [hplain, hplain'] at heq
      rw [(List.cons.inj heq).1]
    · rw [hplain, hescape'] at heq
      exact absurd (List.cons.inj heq).1 hc
  · rcases escapeRune_cases rune' with ⟨d, rfl, hd, -, hplain'⟩ | ⟨hmem', -⟩
    · rw [hescape, hplain'] at heq
      exact absurd (List.cons.inj heq).1.symm hd
    · exact List.inj_on_of_nodup_map hnodup hmem hmem' heq

/-- What a rune is written as is told from what follows it. -/
theorem escapeRune_append_inj {rune rune' : Option Char} {rest rest' : List Char}
    (heq : escapeRune rune ++ rest = escapeRune rune' ++ rest') :
    rune = rune' ∧ rest = rest' := by
  -- Both have the same length, which their first two characters tell.
  have hlength : (escapeRune rune).length = (escapeRune rune').length := by
    rcases escapeRune_cases rune with ⟨c, -, hc, -, hplain⟩ | ⟨-, c, more, hescape, hmore⟩
    · rcases escapeRune_cases rune' with ⟨d, -, -, -, hplain'⟩ | ⟨-, d, more', hescape', -⟩
      · rw [hplain, hplain']
        rfl
      · rw [hplain, hescape'] at heq
        exact absurd (List.cons.inj heq).1 hc
    · rcases escapeRune_cases rune' with ⟨d, -, hd, -, hplain'⟩ | ⟨-, d, more', hescape', hmore'⟩
      · rw [hescape, hplain'] at heq
        exact absurd (List.cons.inj heq).1.symm hd
      · rw [hescape, hescape'] at heq
        obtain ⟨-, heq⟩ := List.cons.inj heq
        obtain ⟨rfl, -⟩ := List.cons.inj heq
        rw [hescape, hescape', List.length_cons, List.length_cons, List.length_cons,
          List.length_cons, hmore, hmore']
  obtain ⟨hsame, hrest⟩ := List.append_inj heq hlength
  exact ⟨escapeRune_injective hsame, hrest⟩

theorem head_escapeRune (rune : Option Char) :
    ∃ c rest, escapeRune rune = c :: rest ∧ c ≠ quote := by
  rcases escapeRune_cases rune with ⟨c, -, -, hquote, hplain⟩ | ⟨-, c, rest, hescape, -⟩
  · exact ⟨c, [], hplain, hquote⟩
  · exact ⟨backslash, c :: rest, hescape, by decide⟩

/-- Runes between quotes are told from what follows the closing quote. -/
theorem quoted_append_inj {content content' : List (Option Char)} {rest rest' : List Char}
    (heq : quoted (content.flatMap escapeRune) ++ rest =
      quoted (content'.flatMap escapeRune) ++ rest') : content = content' ∧ rest = rest' := by
  simp only [quoted, List.cons_append, List.append_assoc, List.nil_append, List.cons.injEq,
    true_and] at heq
  induction content generalizing content' with
  | nil =>
    cases content' with
    | nil => exact ⟨rfl, (List.cons.inj heq).2⟩
    | cons rune' content' =>
      obtain ⟨c, more, hrune, hquote⟩ := head_escapeRune rune'
      rw [List.flatMap_nil, List.flatMap_cons, hrune] at heq
      exact absurd (List.cons.inj heq).1.symm hquote
  | cons rune content ih =>
    cases content' with
    | nil =>
      obtain ⟨c, more, hrune, hquote⟩ := head_escapeRune rune
      rw [List.flatMap_nil, List.flatMap_cons, hrune] at heq
      exact absurd (List.cons.inj heq).1 hquote
    | cons rune' content' =>
      rw [List.flatMap_cons, List.flatMap_cons, List.append_assoc, List.append_assoc] at heq
      obtain ⟨rfl, htail⟩ := escapeRune_append_inj heq
      obtain ⟨rfl, hrest⟩ := ih htail
      exact ⟨rfl, hrest⟩

/-! ## Sequences -/

/-- The characters that end a document inside another one. -/
def closing : List Char := [',', ']', Char.ofNat 0x7D]

/-- What can follow a document. -/
def Ends (rest : List Char) : Prop := ∀ c ∈ rest.head?, c ∈ closing

section Sequence

variable {β γ : Type*} {write : β → List Char} {key : β → γ} {close : Char}

variable {items items' : List β} {rest rest' : List Char}

theorem ends_tail (hclose : close ∈ closing) :
    Ends ((items.map write).flatMap (',' :: ·) ++ close :: rest) := by
  cases items with
  | nil => simpa [Ends] using hclose
  | cons item items => simp [Ends, closing]

variable (hclose : close ∈ closing) (hcomma : close ≠ ',')
  (hitems : ∀ item ∈ items, ∀ item' rest rest', Ends rest → Ends rest' →
    write item ++ rest = write item' ++ rest' → key item = key item' ∧ rest = rest')
include hclose hcomma hitems

/-- Items after commas, up to a closing bracket. -/
theorem tail_append_inj
    (heq : (items.map write).flatMap (',' :: ·) ++ close :: rest =
      (items'.map write).flatMap (',' :: ·) ++ close :: rest') :
    items.map key = items'.map key ∧ rest = rest' := by
  induction items generalizing items' with
  | nil =>
    cases items' with
    | nil => exact ⟨rfl, (List.cons.inj heq).2⟩
    | cons item' items' => exact absurd (List.cons.inj heq).1 hcomma
  | cons item items ih =>
    cases items' with
    | nil => exact absurd (List.cons.inj heq).1.symm hcomma
    | cons item' items' =>
      obtain ⟨hitem, hitems⟩ := List.forall_mem_cons.mp hitems
      simp only [List.map_cons, List.flatMap_cons, List.cons_append, List.append_assoc,
        List.cons.injEq, true_and] at heq
      obtain ⟨hkey, htail⟩ := hitem item' _ _ (ends_tail hclose) (ends_tail hclose) heq
      obtain ⟨hkeys, hrest⟩ := ih hitems htail
      exact ⟨by rw [List.map_cons, List.map_cons, hkey, hkeys], hrest⟩

/-- Items with commas between them, up to a closing bracket that no item starts with. -/
theorem commaSeparated_append_inj
    (hstarts : ∀ item, ∃ c more, write item = c :: more ∧ c ∉ closing)
    (heq : commaSeparated (items.map write) ++ close :: rest =
      commaSeparated (items'.map write) ++ close :: rest') :
    items.map key = items'.map key ∧ rest = rest' := by
  have hnot (item : β) (more more' : List Char) : close :: more ≠ write item ++ more' := by
    intro heq
    obtain ⟨c, tail, hwrite, hstart⟩ := hstarts item
    rw [hwrite, List.cons_append] at heq
    exact hstart ((List.cons.inj heq).1 ▸ hclose)
  cases items with
  | nil =>
    cases items' with
    | nil => exact ⟨rfl, (List.cons.inj heq).2⟩
    | cons item' items' =>
      simp only [List.map_nil, List.map_cons, commaSeparated, List.nil_append,
        List.append_assoc] at heq
      exact absurd heq (hnot item' _ _)
  | cons item items =>
    cases items' with
    | nil =>
      simp only [List.map_nil, List.map_cons, commaSeparated, List.nil_append,
        List.append_assoc] at heq
      exact absurd heq.symm (hnot item _ _)
    | cons item' items' =>
      refine tail_append_inj hclose hcomma hitems ?_
      exact congrArg (',' :: ·) heq

end Sequence

/-! ## Documents -/

namespace Json

variable {σ τ : Type} {json' : Json Text} {rest rest' : List Char}

@[simp] theorem map_array (f : σ → τ) (items : List (Json σ)) :
    (array items).map f = array (items.map (map f)) := by
  rw [map, fold, foldItems_eq_map]
  rfl

@[simp] theorem map_object (f : σ → τ) (members : List (String × Json σ)) :
    (object members).map f = object (members.map fun member => (member.1, member.2.map f)) := by
  rw [map, fold, foldMembers_eq_map]
  rfl

/-- The kinds of documents. -/
inductive Kind | null | bool | number | string | array | object
  deriving DecidableEq

def kind {σ : Type} : Json σ → Kind
  | .null => .null
  | .bool _ => .bool
  | .number _ => .number
  | .string _ => .string
  | .array _ => .array
  | .object _ => .object

/-- The kind of document that starts with a character. -/
def kindOf (c : Char) : Option Kind :=
  if c = 'n' then some .null
  else if c = 't' ∨ c = 'f' then some .bool
  else if c = '-' ∨ c.isDigit then some .number
  else if c = quote then some .string
  else if c = '[' then some .array
  else if c = Char.ofNat 0x7B then some .object
  else none

theorem kindOf_of_isDigit {c : Char} (hdigit : c.isDigit) : kindOf c = some .number := by
  have hne (d : Char) (hd : ¬ d.isDigit) : c ≠ d := by
    rintro rfl
    exact hd hdigit
  simp [kindOf, hne 'n' (by decide), hne 't' (by decide), hne 'f' (by decide), hdigit]

theorem decimal_ne_nil (n : Int) : decimal n ≠ [] := by
  unfold decimal
  split
  · exact List.cons_ne_nil _ _
  · exact Nat.toDigits_ne_nil

/-- The first character of an encoding tells the kind of the document. -/
theorem exists_encode_eq_cons (json : Json Text) :
    ∃ c rest, json.encode = c :: rest ∧ kindOf c = some json.kind := by
  cases json with
  | null => exact ⟨'n', _, rfl, rfl⟩
  | bool value => cases value with
    | true => exact ⟨'t', _, rfl, rfl⟩
    | false => exact ⟨'f', _, rfl, rfl⟩
  | number value =>
    obtain ⟨c, rest, hdecimal⟩ := List.exists_cons_of_ne_nil (decimal_ne_nil value)
    refine ⟨c, rest, hdecimal, ?_⟩
    have hmem : c ∈ decimal value := by simp [hdecimal]
    rcases mem_decimal hmem with rfl | hdigit
    · rfl
    · exact kindOf_of_isDigit hdigit
  | string value => exact ⟨quote, _, rfl, rfl⟩
  | array items => exact ⟨'[', _, encode_array items, rfl⟩
  | object members => exact ⟨Char.ofNat 0x7B, _, encode_object members, rfl⟩

theorem kind_eq {json : Json Text} (heq : json.encode ++ rest = json'.encode ++ rest') :
    json.kind = json'.kind := by
  obtain ⟨c, more, hencode, hkind⟩ := exists_encode_eq_cons json
  obtain ⟨c', more', hencode', hkind'⟩ := exists_encode_eq_cons json'
  rw [hencode, hencode'] at heq
  rw [(List.cons.inj heq).1, hkind'] at hkind
  exact (Option.some.inj hkind).symm

/-- No document starts with a closing character. -/
theorem encode_starts (json : Json Text) : ∃ c more, json.encode = c :: more ∧ c ∉ closing := by
  obtain ⟨c, more, hencode, hkind⟩ := exists_encode_eq_cons json
  have hnone : ∀ c ∈ closing, kindOf c = none := by decide
  refine ⟨c, more, hencode, fun hmem => ?_⟩
  exact Option.some_ne_none _ (hkind.symm.trans (hnone c hmem))

/-- A number goes up to the first character that is neither sign nor digit. -/
theorem decimal_append_inj {n n' : Int} (hends : Ends rest) (hends' : Ends rest')
    (heq : decimal n ++ rest = decimal n' ++ rest') :
    n = n' ∧ rest = rest' := by
  have htake (n : Int) (rest : List Char) (hends : Ends rest) :
      (decimal n ++ rest).takeWhile (fun c => c = '-' || c.isDigit) = decimal n := by
    have hall : ∀ c ∈ decimal n, (c = '-' || c.isDigit : Bool) = true := by
      intro c hc
      simpa using mem_decimal hc
    rw [List.takeWhile_append_of_pos hall]
    cases rest with
    | nil => simp
    | cons c rest =>
      have hclosing : ∀ c ∈ closing, (c = '-' || c.isDigit : Bool) = false := by decide
      rw [List.takeWhile_cons_of_neg, List.append_nil]
      rw [hclosing c (hends c rfl)]
      exact Bool.false_ne_true
  have hsame : decimal n = decimal n' := by
    rw [← htake n rest hends, heq, htake n' rest' hends']
  rw [hsame] at heq
  exact ⟨decimal_injective hsame, List.append_cancel_left heq⟩

/-- A member is told from what follows it, if its value is. -/
theorem encodeMember_append_inj {name name' : String} {value value' : List Char}
    (heq : encodeMember (name, value) ++ rest = encodeMember (name', value') ++ rest') :
    name = name' ∧ value ++ rest = value' ++ rest' := by
  have hescape (cs : List Char) : cs.flatMap escapeChar = (cs.map some).flatMap escapeRune := by
    rw [List.flatMap_map]
    rfl
  rw [encodeMember, encodeMember, List.append_assoc, List.append_assoc, hescape, hescape] at heq
  obtain ⟨hnames, hvalues⟩ := quoted_append_inj heq
  have hname : name.toList = name'.toList :=
    List.map_injective_iff.mpr (Option.some_injective _) hnames
  exact ⟨String.toList_inj.mp hname, (List.cons.inj hvalues).2⟩

/-- A document is told from what follows it. -/
theorem encode_append_inj {json : Json Text} (hends : Ends rest) (hends' : Ends rest')
    (heq : json.encode ++ rest = json'.encode ++ rest') :
    json.map runes = json'.map runes ∧ rest = rest' := by
  have hkind := kind_eq heq
  induction json using Json.induction generalizing json' rest rest' with
  | null =>
    cases json' with
    | null => exact ⟨rfl, List.append_cancel_left heq⟩
    | _ => cases hkind
  | bool value =>
    cases json' with
    | bool value' =>
      cases value <;> cases value'
      · exact ⟨rfl, List.append_cancel_left heq⟩
      · exact absurd (List.cons.inj heq).1 (by decide)
      · exact absurd (List.cons.inj heq).1 (by decide)
      · exact ⟨rfl, List.append_cancel_left heq⟩
    | _ => cases hkind
  | number value =>
    cases json' with
    | number value' =>
      obtain ⟨rfl, hrest⟩ := decimal_append_inj hends hends' heq
      exact ⟨rfl, hrest⟩
    | _ => cases hkind
  | string value =>
    cases json' with
    | string value' =>
      obtain ⟨hrunes, hrest⟩ := quoted_append_inj heq
      exact ⟨congrArg string hrunes, hrest⟩
    | _ => cases hkind
  | array items ih =>
    cases json' with
    | array items' =>
      rw [encode_array, encode_array] at heq
      simp only [List.cons_append, List.append_assoc, List.nil_append, List.cons.injEq,
        true_and] at heq
      obtain ⟨hitems, hrest⟩ := commaSeparated_append_inj (by decide) (by decide)
        (fun item hmem item' rest rest' hends hends' heq =>
          ih item hmem hends hends' heq (kind_eq heq)) encode_starts heq
      exact ⟨by rw [map_array, map_array, hitems], hrest⟩
    | _ => cases hkind
  | object members ih =>
    cases json' with
    | object members' =>
      rw [encode_object, encode_object] at heq
      simp only [List.cons_append, List.append_assoc, List.nil_append, List.cons.injEq,
        true_and] at heq
      have hstarts (member : String × Json Text) : ∃ c more,
          encodeMember (member.1, member.2.encode) = c :: more ∧ c ∉ closing :=
        ⟨quote, _, rfl, by decide⟩
      have hmembers : ∀ member ∈ members, ∀ (member' : String × Json Text) rest rest',
          Ends rest → Ends rest' → encodeMember (member.1, member.2.encode) ++ rest =
            encodeMember (member'.1, member'.2.encode) ++ rest' →
          (member.1, member.2.map runes) = (member'.1, member'.2.map runes) ∧ rest = rest' := by
        intro member hmem member' rest rest' hends hends' heq
        obtain ⟨hname, hvalue⟩ := encodeMember_append_inj heq
        obtain ⟨hmap, hrest⟩ := ih member hmem hends hends' hvalue (kind_eq hvalue)
        exact ⟨by rw [hname, hmap], hrest⟩
      obtain ⟨hmaps, hrest⟩ :=
        commaSeparated_append_inj (by decide) (by decide) hmembers hstarts heq
      exact ⟨by rw [map_object, map_object, hmaps], hrest⟩
    | _ => cases hkind

/-- Lists are equal when their images are, item by item. -/
theorem eq_of_map_eq {α β : Type*} {f : α → β} {items items' : List α}
    (hitems : ∀ item ∈ items, ∀ item' ∈ items', f item = f item' → item = item')
    (heq : items.map f = items'.map f) : items = items' := by
  induction items generalizing items' with
  | nil => exact (List.map_eq_nil_iff.mp heq.symm).symm
  | cons item items ih =>
    cases items' with
    | nil => cases heq
    | cons item' items' =>
      obtain ⟨hhead, htail⟩ := List.cons.inj heq
      rw [hitems item List.mem_cons_self item' List.mem_cons_self hhead,
        ih (fun item hmem item' hmem' =>
          hitems item (List.mem_cons_of_mem _ hmem) item' (List.mem_cons_of_mem _ hmem')) htail]

/-- Well-formed strings are determined by their runes, and so are documents of them. -/
theorem eq_of_map_runes_eq {json : Json Text} (hstrings : ∀ text ∈ json.strings, none ∉ runes text)
    (heq : json.map runes = json'.map runes) : json = json' := by
  induction json using Json.induction generalizing json' with
  | null =>
    cases json' with
    | null => rfl
    | _ => simp [map, fold] at heq
  | bool value =>
    cases json' with
    | bool value' => exact congrArg bool (Json.bool.inj heq)
    | _ => simp [map, fold] at heq
  | number value =>
    cases json' with
    | number value' => exact congrArg number (Json.number.inj heq)
    | _ => simp [map, fold] at heq
  | string value =>
    cases json' with
    | string value' =>
      exact congrArg string (eq_of_runes_eq (hstrings value (by simp)) (Json.string.inj heq))
    | _ => simp [map, fold] at heq
  | array items ih =>
    cases json' with
    | array items' =>
      rw [map_array, map_array, Json.array.injEq] at heq
      refine congrArg array (eq_of_map_eq (fun item hmem item' _ hitem => ?_) heq)
      refine ih item hmem (fun text htext => hstrings text ?_) hitem
      exact strings_array items ▸ List.mem_flatMap.mpr ⟨item, hmem, htext⟩
    | _ => simp [map, fold] at heq
  | object members ih =>
    cases json' with
    | object members' =>
      rw [map_object, map_object, Json.object.injEq] at heq
      refine congrArg object (eq_of_map_eq (fun member hmem member' _ hmember => ?_) heq)
      obtain ⟨hname, hvalue⟩ := Prod.mk.inj hmember
      refine Prod.ext hname (ih member hmem (fun text htext => hstrings text ?_) hvalue)
      exact strings_object members ▸ List.mem_flatMap.mpr ⟨member, hmem, htext⟩
    | _ => simp [map, fold] at heq

/-- An encoding determines the runes of the strings, and all else. -/
theorem map_runes_eq_of_encode_eq {json : Json Text} (heq : json.encode = json'.encode) :
    json.map runes = json'.map runes := by
  have hends : Ends [] := nofun
  exact (encode_append_inj hends hends (by rw [List.append_nil, List.append_nil, heq])).1

/-- An encoding of well-formed strings determines the document. -/
theorem eq_of_encode_eq {json : Json Text} (hstrings : ∀ text ∈ json.strings, none ∉ runes text)
    (heq : json.encode = json'.encode) :
    json = json' :=
  eq_of_map_runes_eq hstrings (map_runes_eq_of_encode_eq heq)

end Json

end NixConfig.Data
