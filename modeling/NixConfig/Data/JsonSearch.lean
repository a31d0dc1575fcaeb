/-
# Searching an encoded document

A search for characters that begin with one no syntax has, and go on without a
quote, matches an encoded document only within the quotes of a string or of a
member's name: the match cannot begin outside of quotes and cannot leave them.
-/

import NixConfig.Data.Json

namespace NixConfig.Data

section Excludes

variable {first : Char} {rest : List Char}

/-- Code in which the search finds nothing, and no match that begins in it can
go on after its end: a quote comes first. -/
structure Excludes (first : Char) (rest code : List Char) : Prop where
  closed : ∀ {after}, first :: after <:+ code → quote ∈ after
  absent : ¬ first :: rest <:+: code

theorem excludes_of_not_mem {code : List Char} (hnot : first ∉ code) :
    Excludes first rest code where
  closed hafter := absurd (hafter.subset List.mem_cons_self) hnot
  absent hwithin := hnot (hwithin.subset List.mem_cons_self)

/-- A match begins only where its first character is. -/
theorem infix_of_infix_append {left right : List Char} (hnot : first ∉ left)
    (hwithin : first :: rest <:+: left ++ right) : first :: rest <:+: right := by
  rcases List.infix_append_iff.mp hwithin with hwithin | hwithin | ⟨front, back, hcut, hfront, hback⟩
  · exact absurd (hwithin.subset List.mem_cons_self) hnot
  · exact hwithin
  · rcases front with _ | ⟨c, front⟩
    · obtain rfl : first :: rest = back := hcut
      exact hback.isInfix
    · cases hcut
      exact absurd (hfront.subset List.mem_cons_self) hnot

theorem Excludes.append (hquote : quote ∉ rest) {left right : List Char}
    (hleft : Excludes first rest left) (hright : Excludes first rest right) :
    Excludes first rest (left ++ right) where
  closed := by
    rintro after ⟨before, hcode⟩
    rcases List.append_eq_append_iff.mp hcode with ⟨middle, hmiddle, hrest⟩ | ⟨middle, -, hrest⟩
    · rcases middle with _ | ⟨c, middle⟩
      · exact hright.closed ⟨[], hrest⟩
      · cases hrest
        exact List.mem_append_left _ (hleft.closed ⟨before, hmiddle.symm⟩)
    · exact hright.closed ⟨middle, hrest.symm⟩
  absent := by
    intro hwithin
    rcases List.infix_append_iff.mp hwithin with hwithin | hwithin | ⟨front, back, hcut, hfront, hback⟩
    · exact hleft.absent hwithin
    · exact hright.absent hwithin
    · rcases front with _ | ⟨c, front⟩
      · obtain rfl : first :: rest = back := hcut
        exact hright.absent hback.isInfix
      · -- A match that begins on the left meets a quote before it gets to the right.
        cases hcut
        exact hquote (List.mem_append_left _ (hleft.closed hfront))

theorem excludes_quoted (hfirst : first ≠ quote) (hquote : quote ∉ rest) {cs : List Char}
    (habsent : ¬ first :: rest <:+: cs) : Excludes first rest (quoted cs) where
  closed := by
    intro after hafter
    rcases List.suffix_concat_iff.mp hafter with hnil | ⟨front, hfront, -⟩
    · cases hnil
    rcases front with _ | ⟨c, front⟩
    · exact absurd (List.cons.inj hfront).1 hfirst
    · rw [(List.cons.inj hfront).2]
      exact List.mem_append_right _ List.mem_cons_self
  absent := by
    intro hwithin
    rcases List.infix_concat_iff.mp hwithin with hsuffix | hwithin
    · rcases List.suffix_concat_iff.mp hsuffix with hnil | ⟨front, hfront, -⟩
      · cases hnil
      have hmem : quote ∈ first :: rest := hfront ▸ List.mem_append_right _ List.mem_cons_self
      rcases List.mem_cons.mp hmem with hsame | hmem
      · exact hfirst hsame.symm
      · exact hquote hmem
    · rcases List.infix_cons_iff.mp hwithin with hstart | hwithin
      · exact hfirst (List.cons_prefix_cons.mp hstart).1
      · exact habsent hwithin

theorem excludes_commaSeparated (hfirst : first ≠ ',') (hquote : quote ∉ rest)
    {pieces : List (List Char)} (hpieces : ∀ piece ∈ pieces, Excludes first rest piece) :
    Excludes first rest (commaSeparated pieces) := by
  rcases pieces with _ | ⟨piece, pieces⟩
  · exact excludes_of_not_mem List.not_mem_nil
  rw [List.forall_mem_cons] at hpieces
  refine hpieces.1.append hquote ?_
  have hcomma : Excludes first rest [','] :=
    excludes_of_not_mem (List.mem_singleton.not.mpr hfirst)
  replace hpieces := hpieces.2
  induction pieces with
  | nil => exact excludes_of_not_mem List.not_mem_nil
  | cons piece pieces ih =>
    rw [List.forall_mem_cons] at hpieces
    exact (hcomma.append hquote hpieces.1).append hquote (ih hpieces.2)

end Excludes

namespace Json

variable {σ : Type}

/-- The names of a document's members. -/
def names (json : Json σ) : List String :=
  json.fold ⟨[], fun _ => [], fun _ => [], fun _ => [], List.flatten,
    fun members => members.flatMap fun member => member.1 :: member.2⟩

theorem names_array (items : List (Json σ)) : (array items).names = items.flatMap names := by
  rw [names, fold, foldItems_eq_map]
  rfl

theorem names_object (members : List (String × Json σ)) :
    (object members).names = members.flatMap fun member => member.1 :: member.2.names := by
  simp only [names, fold, foldMembers_eq_map, List.flatMap_map]

/-- What is in no escaped name and in no escaped string is not in the encoding,
provided it begins with a character that no syntax has and has no quote. -/
theorem not_infix_encode {first : Char} {rest : List Char} (hsyntactic : first ∉ syntaxAlphabet)
    (hdigit : ¬ first.isDigit) (hquote : quote ∉ rest) {json : Json Text}
    (hnames : ∀ name ∈ json.names, ¬ first :: rest <:+: name.toList.flatMap escapeChar)
    (hstrings : ∀ text ∈ json.strings, ¬ first :: rest <:+: escape text) :
    ¬ first :: rest <:+: json.encode := by
  -- What is searched starts with none of the characters that JSON puts around strings, and ends
  -- before any quote, so an occurrence lies inside one string.
  have hsign : ∀ c ∈ syntaxAlphabet, first ≠ c := fun c hc =>
    (ne_of_mem_of_not_mem hc hsyntactic).symm
  have hsingle (c : Char) (hc : c ∈ syntaxAlphabet) : Excludes first rest [c] :=
    excludes_of_not_mem (List.mem_singleton.not.mpr (hsign c hc))
  have hfirst := hsign quote (by decide)
  have hcomma := hsign ',' (by decide)
  -- stronger than absence, for the parts of an encoding: no match begins in one and ends in the next
  suffices hexcludes : Excludes first rest json.encode from hexcludes.absent
  induction json using Json.induction with
  | null =>
    have hall : ∀ c ∈ (null : Json Text).encode, c ∈ syntaxAlphabet := by decide
    exact excludes_of_not_mem fun hmem => hsyntactic (hall _ hmem)
  | bool value =>
    have hall : ∀ value, ∀ c ∈ (bool value : Json Text).encode, c ∈ syntaxAlphabet := by decide
    exact excludes_of_not_mem fun hmem => hsyntactic (hall _ _ hmem)
  | number value =>
    refine excludes_of_not_mem fun hmem => ?_
    rcases mem_decimal hmem with hminus | hmem
    · exact hsign '-' (by decide) hminus
    · exact hdigit hmem
  | string value => exact excludes_quoted hfirst hquote (hstrings value (List.mem_singleton.mpr rfl))
  | array items ih =>
    rw [names_array] at hnames
    rw [strings_array] at hstrings
    rw [encode_array]
    refine ((hsingle '[' (by decide)).append hquote ?_).append hquote (hsingle ']' (by decide))
    refine excludes_commaSeparated hcomma hquote (List.forall_mem_map.mpr fun item hitem => ?_)
    exact ih item hitem (fun name hname => hnames name (List.mem_flatMap.mpr ⟨item, hitem, hname⟩))
      fun text htext => hstrings text (List.mem_flatMap.mpr ⟨item, hitem, htext⟩)
  | object members ih =>
    rw [names_object] at hnames
    rw [strings_object] at hstrings
    rw [encode_object]
    refine ((hsingle _ (by decide)).append hquote ?_).append hquote (hsingle _ (by decide))
    refine excludes_commaSeparated hcomma hquote (List.forall_mem_map.mpr fun member hmember => ?_)
    have hname := hnames member.1 (List.mem_flatMap.mpr ⟨member, hmember, List.mem_cons_self⟩)
    refine (excludes_quoted hfirst hquote hname).append hquote
      ((hsingle ':' (by decide)).append hquote ?_)
    exact ih member hmember
      (fun name hname => hnames name
        (List.mem_flatMap.mpr ⟨member, hmember, List.mem_cons_of_mem _ hname⟩))
      fun text htext => hstrings text (List.mem_flatMap.mpr ⟨member, hmember, htext⟩)

end Json

end NixConfig.Data
