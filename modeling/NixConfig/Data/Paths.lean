/-
# Absolute paths

A clean absolute path is a slash and plain elements with slashes between them.
Taking the base or the directory of such a path takes its last element, and
joining plain elements onto a directory keeps them at the end, whatever the
directory is made of.
-/

import Mathlib.Data.List.TakeWhile
import NixConfig.Data.Strings

namespace NixConfig.Data

/-- `filepath.Dir` -/
def pathDir (path : Text) : Text := pathClean (path.reverse.dropWhile (· != slash)).reverse

/-- Some elements below the root. -/
def rooted (elements : List Text) : Text := slash :: [slash].intercalate elements

@[simp] theorem isAbs_rooted (elements : List Text) : isAbs (rooted elements) = true := rfl

/-! ## Splitting and cleaning -/

theorem splitOn_append_slash (first rest : Text) :
    (first ++ slash :: rest).splitOn slash = first.splitOn slash ++ rest.splitOn slash := by
  induction first with
  | nil =>
    rw [List.nil_append, List.splitOn, List.splitOnP_cons_eq_if_modifyHead]
    rfl
  | cons byte first ih =>
    have hne : first.splitOn slash ≠ [] := List.splitOnP_ne_nil _ _
    obtain ⟨element, others, hsplit⟩ := List.exists_cons_of_ne_nil hne
    rw [hsplit] at ih
    rw [List.cons_append]
    simp only [List.splitOn, List.splitOnP_cons_eq_if_modifyHead] at ih hsplit ⊢
    rw [ih, hsplit]
    split <;> rfl

/-- What holds of the elements that are kept. -/
theorem forall_foldl_keepElement {rooted : Bool} {P : Text → Prop} {path kept : List Text}
    (hplain : ∀ element ∈ path, element ≠ [] → element ≠ [dot] → element ≠ dotDot → P element)
    (hup : rooted = false → P dotDot) (hkept : ∀ element ∈ kept, P element) :
    ∀ element ∈ path.foldl (keepElement rooted) kept, P element := by
  induction path generalizing kept with
  | nil => exact hkept
  | cons element rest ih =>
    rw [List.forall_mem_cons] at hplain
    rw [List.foldl_cons]
    refine ih hplain.2 ?_
    unfold keepElement
    split
    · exact hkept
    · rename_i hsome
      rw [not_or] at hsome
      split
      · -- An element goes up one level, or stays where there is none to go up to.
        cases kept with
        | nil =>
          cases rooted with
          | true => simp
          | false => simpa using hup rfl
        | cons last before =>
          rw [List.forall_mem_cons] at hkept
          dsimp only
          split
          · rename_i hlast
            exact List.forall_mem_cons.mpr ⟨hlast ▸ hkept.1, List.forall_mem_cons.mpr hkept⟩
          · exact hkept.2
      · rename_i hother
        exact List.forall_mem_cons.mpr ⟨hplain.1 hsome.1 hsome.2 hother, hkept⟩

theorem pathClean_of_isAbs {path : Text} (habs : isAbs path = true) :
    pathClean path = rooted ((path.splitOn slash).foldl (keepElement true) []).reverse := by
  rw [pathClean, habs]
  rfl

/-- The elements of a clean absolute path are plain. -/
theorem plainElement_of_foldl {path : Text} :
    ∀ element ∈ (path.splitOn slash).foldl (keepElement true) [], PlainElement element := by
  refine forall_foldl_keepElement ?_ (fun hfalse => by cases hfalse) (by simp)
  intro element hmem hempty hdot hdotDot
  exact ⟨hempty, hdot, hdotDot, (mem_splitOn hmem).1⟩

theorem isAbs_pathClean (path : Text) : isAbs (pathClean path) = isAbs path := by
  cases habs : isAbs path with
  | true =>
    rw [pathClean_of_isAbs habs]
    rfl
  | false =>
    have hkept : ∀ element ∈ (path.splitOn slash).foldl (keepElement false) [],
        element ≠ [] ∧ slash ∉ element := by
      refine forall_foldl_keepElement ?_ (fun _ => by decide) (by simp)
      intro element hmem hempty _ _
      exact ⟨hempty, (mem_splitOn hmem).1⟩
    rw [pathClean, habs]
    cases hbody : ((path.splitOn slash).foldl (keepElement false) []).reverse with
    | nil => rfl
    | cons first rest =>
      obtain ⟨hempty, hslash⟩ := hkept first (List.mem_reverse.mp (hbody ▸ List.mem_cons_self))
      obtain ⟨byte, more, rfl⟩ := List.exists_cons_of_ne_nil hempty
      have hbyte : byte ≠ slash := fun heq => hslash (heq ▸ List.mem_cons_self)
      cases rest with
      | nil => simp [isAbs, hbyte]
      | cons next rest => simp [isAbs, List.intercalate_cons_cons, hbyte]

variable {elements front last : List Text} {element root : Text}

theorem pathClean_rooted (hplain : ∀ element ∈ elements, PlainElement element) :
    pathClean (rooted elements) = rooted elements := by
  have hsplit : (rooted elements).splitOn slash =
      [] :: ([slash].intercalate elements).splitOn slash := splitOn_append_slash [] _
  rw [pathClean_of_isAbs (isAbs_rooted _), hsplit, List.foldl_cons]
  cases elements with
  | nil => rfl
  | cons element rest =>
    rw [splitOn_join (List.cons_ne_nil _ _) hplain]
    change rooted ((element :: rest).foldl (keepElement true) []).reverse = _
    rw [foldl_keepElement [] hplain, List.append_nil, List.reverse_reverse]

/-- A slash at the end goes. -/
theorem pathClean_append_slash {path : Text} (habs : isAbs path = true) :
    pathClean (path ++ [slash]) = pathClean path := by
  have happended : isAbs (path ++ [slash]) = true := by
    cases path with
    | nil => cases habs
    | cons byte rest => exact habs
  rw [pathClean_of_isAbs happended, pathClean_of_isAbs habs, splitOn_append_slash,
    List.foldl_append]
  rfl

/-! ## The last element -/

theorem rooted_concat (elements : List Text) (element : Text) :
    rooted (elements ++ [element]) =
      (if elements = [] then [] else rooted elements) ++ slash :: element := by
  induction elements with
  | nil => simp [rooted]
  | cons first rest ih =>
    cases rest with
    | nil => simp [rooted, List.intercalate_cons_cons]
    | cons next rest =>
      simp only [rooted, List.cons_append, List.intercalate_cons_cons, List.append_assoc] at ih ⊢
      simpa using ih

theorem bne_slash_of_mem_reverse (hplain : PlainElement element) :
    ∀ byte ∈ element.reverse, (byte != slash) = true := by
  intro byte hmem
  rw [List.mem_reverse] at hmem
  exact bne_iff_ne.mpr fun heq => hplain.slash_not_mem (heq ▸ hmem)

theorem pathBase_append {before : Text} (hbefore : before = [] ∨ before.getLast? = some slash)
    (hplain : PlainElement element) : pathBase (before ++ element) = element := by
  have hreverse := bne_slash_of_mem_reverse hplain
  obtain ⟨byte, more, hbytes⟩ :=
    List.exists_cons_of_ne_nil (List.reverse_ne_nil_iff.mpr hplain.ne_nil)
  have hbyte : (byte == slash) = false := by
    have hne := hreverse byte (hbytes ▸ List.mem_cons_self)
    simpa using hne
  rw [pathBase, if_neg (by simp [hplain.ne_nil]), List.reverse_append, hbytes, List.cons_append,
    List.dropWhile_cons_of_neg (by simp [hbyte])]
  change (List.takeWhile _ (byte :: more ++ _)).reverse = _
  rw [← hbytes, List.takeWhile_append_of_pos hreverse]
  rcases hbefore with rfl | hlast
  · simp
  · obtain ⟨front, rfl⟩ := List.getLast?_eq_some_iff.mp hlast
    simp

theorem pathBase_append_slash (before : Text) (hplain : PlainElement element) :
    pathBase (before ++ slash :: element) = element := by
  rw [List.append_cons]
  exact pathBase_append (.inr (by simp)) hplain

theorem pathBase_rooted (hplain : PlainElement element) :
    pathBase (rooted (elements ++ [element])) = element := by
  rw [rooted_concat]
  exact pathBase_append_slash _ hplain

theorem pathBase_of_plainElement (hplain : PlainElement element) : pathBase element = element :=
  pathBase_append (.inl rfl) hplain

theorem pathDir_rooted (hplain : PlainElement element)
    (helements : ∀ element ∈ elements, PlainElement element) :
    pathDir (rooted (elements ++ [element])) = rooted elements := by
  have hreverse := bne_slash_of_mem_reverse hplain
  rw [rooted_concat, pathDir, List.reverse_append, List.reverse_cons, List.append_assoc,
    List.dropWhile_append_of_pos hreverse]
  simp only [List.singleton_append, bne_self_eq_false, Bool.false_eq_true, not_false_eq_true,
    List.dropWhile_cons_of_neg, List.reverse_cons, List.reverse_reverse]
  split_ifs with hnone
  · rw [hnone]
    decide
  · rw [pathClean_append_slash (isAbs_rooted _), pathClean_rooted helements]

/-! ## Joining -/

theorem join_append (hfront : front ≠ []) (hlast : last ≠ []) :
    [slash].intercalate (front ++ last) =
      [slash].intercalate front ++ slash :: [slash].intercalate last := by
  induction front with
  | nil => exact absurd rfl hfront
  | cons element rest ih =>
    cases rest with
    | nil =>
      obtain ⟨next, others, rfl⟩ := List.exists_cons_of_ne_nil hlast
      simp [List.intercalate_cons_cons]
    | cons next rest =>
      have hrest := ih (List.cons_ne_nil _ _)
      rw [List.cons_append] at hrest
      rw [List.cons_append, List.cons_append, List.intercalate_cons_cons, hrest,
        List.intercalate_cons_cons]
      simp

theorem join_ne_nil (hlast : last ≠ []) (hplain : ∀ element ∈ last, PlainElement element) :
    [slash].intercalate last ≠ [] := by
  obtain ⟨byte, hhead, -⟩ := head?_join hlast hplain
  intro hempty
  rw [hempty] at hhead
  cases hhead

theorem exists_rooted_of_pathClean {before : Text} (hlast : last ≠ [])
    (hplain : ∀ element ∈ last, PlainElement element)
    (habs : isAbs (pathClean (before ++ slash :: [slash].intercalate last)) = true) :
    ∃ elements, (∀ element ∈ elements, PlainElement element) ∧
      pathClean (before ++ slash :: [slash].intercalate last) = rooted (elements ++ last) := by
  rw [isAbs_pathClean] at habs
  refine ⟨((before.splitOn slash).foldl (keepElement true) []).reverse, ?_, ?_⟩
  · intro element hmem
    exact plainElement_of_foldl element (List.mem_reverse.mp hmem)
  · rw [pathClean_of_isAbs habs, splitOn_append_slash, List.foldl_append,
      splitOn_join hlast hplain, foldl_keepElement _ hplain, List.reverse_append,
      List.reverse_reverse]

/-- Plain elements at the end of what is joined are the last elements of the path. -/
theorem exists_rooted_of_pathJoin (hlast : last ≠ [])
    (hplain : ∀ element ∈ last, PlainElement element)
    (habs : isAbs (pathJoin root ([slash].intercalate (front ++ last))) = true) :
    ∃ elements, (∀ element ∈ elements, PlainElement element) ∧
      pathJoin root ([slash].intercalate (front ++ last)) = rooted (elements ++ last) := by
  have hne := join_ne_nil hlast hplain
  obtain ⟨before, hjoin⟩ : ∃ before, pathJoin root ([slash].intercalate (front ++ last)) =
      pathClean (before ++ slash :: [slash].intercalate last) := by
    by_cases hroot : root = []
    · by_cases hfront : front = []
      · -- Elements alone are no absolute path.
        subst hroot hfront
        obtain ⟨byte, hhead, hbyte⟩ := head?_join hlast hplain
        have hjoin : pathJoin [] ([slash].intercalate ([] ++ last)) =
            pathClean ([slash].intercalate last) := by
          simp [pathJoin, hne]
        rw [hjoin, isAbs_pathClean, isAbs, hhead] at habs
        exact absurd (by simpa using habs) hbyte
      · refine ⟨[slash].intercalate front, ?_⟩
        simp [join_append hfront hlast, pathJoin, hroot]
    · by_cases hfront : front = []
      · refine ⟨root, ?_⟩
        simp [pathJoin, hroot, hfront, hne, List.intercalate_cons_cons]
      · refine ⟨root ++ slash :: [slash].intercalate front, ?_⟩
        simp [join_append hfront hlast, pathJoin, hroot, List.intercalate_cons_cons]
  rw [hjoin] at habs ⊢
  exact exists_rooted_of_pathClean hlast hplain habs

/-! ## Paths below a directory -/

/-- `utf8.ValidString` -/
def isUtf8 (text : Text) : Bool := (runes text).all Option.isSome

theorem isUtf8_iff {text : Text} : isUtf8 text = true ↔ ∃ cs, text = utf8 cs := by
  constructor
  · intro hvalid
    have hmem : none ∉ runes text := by
      intro hnone
      exact absurd (List.all_eq_true.mp hvalid none hnone) (by simp)
    exact ⟨chars text, (validUtf8_of_runes hmem).symm⟩
  · rintro ⟨cs, rfl⟩
    simp [isUtf8]

/-- `fs.ValidPath` -/
def validPath (path : Text) : Bool :=
  isUtf8 path && (path == [dot] || (path.splitOn slash).all fun element =>
    element != [] && element != [dot] && element != dotDot)

theorem plainElement_of_validPath {path : Text} (hvalid : validPath path = true)
    (hdot : path ≠ [dot]) : ∀ element ∈ path.splitOn slash, PlainElement element := by
  simp only [validPath, Bool.and_eq_true, Bool.or_eq_true, beq_iff_eq, hdot, false_or,
    List.all_eq_true, bne_iff_ne] at hvalid
  intro element hmem
  obtain ⟨⟨hempty, hself⟩, hup⟩ := hvalid.2 element hmem
  exact ⟨hempty, hself, hup, (mem_splitOn hmem).1⟩

theorem validPath_join (hne : elements ≠ []) (hplain : ∀ element ∈ elements, PlainElement element)
    (hutf8 : isUtf8 ([slash].intercalate elements) = true) :
    validPath ([slash].intercalate elements) = true := by
  simp only [validPath, hutf8, splitOn_join hne hplain, Bool.true_and, Bool.or_eq_true]
  refine .inr (List.all_eq_true.mpr fun element hmem => ?_)
  obtain ⟨hempty, hself, hup, -⟩ := hplain element hmem
  simp [hempty, hself, hup]

/-- The elements that cleaning an absolute path keeps. -/
def cleanElements (path : Text) : List Text :=
  ((path.splitOn slash).foldl (keepElement true) []).reverse

theorem plainElement_cleanElements {path : Text} :
    ∀ element ∈ cleanElements path, PlainElement element := fun element hmem =>
  plainElement_of_foldl element (List.mem_reverse.mp hmem)

/-- Leave out the elements that two paths start with. -/
def stripCommon : List Text → List Text → List Text × List Text
  | first :: base, second :: target =>
    if first = second then stripCommon base target else (first :: base, second :: target)
  | base, target => (base, target)

theorem exists_common (base target : List Text) :
    ∃ common, base = common ++ (stripCommon base target).1 ∧
      target = common ++ (stripCommon base target).2 := by
  fun_induction stripCommon base target with
  | case1 base first target ih =>
    obtain ⟨common, hbase, htarget⟩ := ih
    refine ⟨first :: common, ?_, ?_⟩
    · rw [List.cons_append, ← hbase]
    · rw [List.cons_append, ← htarget]
  | case2 => exact ⟨[], rfl, rfl⟩
  | case3 => exact ⟨[], rfl, rfl⟩

/-- `filepath.Rel`, for an absolute target: up to where the two paths part, and down from
there. -/
def pathRel (base target : Text) : Option Text :=
  if pathClean target = pathClean base then some [dot]
  else if !isAbs base then none
  else
    let (up, down) := stripCommon (cleanElements base) (cleanElements target)
    some ([slash].intercalate (up.map (fun _ => dotDot) ++ down))

theorem pathJoin_of_isAbs (habs : isAbs root = true) (hne : elements ≠ [])
    (hplain : ∀ element ∈ elements, PlainElement element) :
    pathJoin root ([slash].intercalate elements) = rooted (cleanElements root ++ elements) := by
  obtain ⟨byte, rest, rfl⟩ : ∃ byte rest, root = byte :: rest := by
    cases root with
    | nil => cases habs
    | cons byte rest => exact ⟨byte, rest, rfl⟩
  have hjoin : pathJoin (byte :: rest) ([slash].intercalate elements) =
      pathClean ((byte :: rest) ++ slash :: [slash].intercalate elements) := by
    simp [pathJoin, join_ne_nil hne hplain, List.intercalate_cons_cons]
  have happended : isAbs ((byte :: rest) ++ slash :: [slash].intercalate elements) = true := habs
  rw [hjoin, pathClean_of_isAbs happended, splitOn_append_slash, List.foldl_append,
    splitOn_join hne hplain, foldl_keepElement _ hplain, List.reverse_append, List.reverse_reverse]
  rfl

theorem rooted_inj {others : List Text} (hne : elements ≠ []) (hothers : others ≠ [])
    (hplain : ∀ element ∈ elements, PlainElement element)
    (hplain' : ∀ element ∈ others, PlainElement element) (hsame : rooted elements = rooted others) :
    elements = others := by
  have hjoin := congrArg (List.splitOn slash) (List.cons.inj hsame).2
  rwa [splitOn_join hne hplain, splitOn_join hothers hplain'] at hjoin

/-- Below one directory, two paths name one file only if they are the same. -/
theorem pathJoin_inj {path other : Text} (habs : isAbs root = true)
    (hpath : ∀ element ∈ path.splitOn slash, PlainElement element)
    (hother : ∀ element ∈ other.splitOn slash, PlainElement element)
    (hsame : pathJoin root path = pathJoin root other) : path = other := by
  have hne (text : Text) : text.splitOn slash ≠ [] := List.splitOnP_ne_nil _ _
  have hjoined (text : Text) : [slash].intercalate (text.splitOn slash) = text :=
    List.intercalate_splitOn slash
  have hplain {text : Text} (helements : ∀ element ∈ text.splitOn slash, PlainElement element) :
      ∀ element ∈ cleanElements root ++ text.splitOn slash, PlainElement element := by
    intro element hmem
    rcases List.mem_append.mp hmem with hmem | hmem
    · exact plainElement_cleanElements element hmem
    · exact helements element hmem
  rw [← hjoined path, ← hjoined other, pathJoin_of_isAbs habs (hne _) hpath,
    pathJoin_of_isAbs habs (hne _) hother] at hsame
  have helements := rooted_inj (by simp [hne]) (by simp [hne]) (hplain hpath) (hplain hother) hsame
  rw [← hjoined path, ← hjoined other, List.append_cancel_left helements]

/-- A relative path that does not lead up leads back to its target. -/
theorem pathJoin_of_pathRel {base target relative : Text} (habs : isAbs target = true)
    (hclean : pathClean target = target) (hrel : pathRel base target = some relative)
    (hdot : relative ≠ [dot]) (hup : relative ≠ dotDot) (habove : ¬ dotDot ++ [slash] <+: relative) :
    isAbs base = true ∧ target = pathJoin base relative := by
  unfold pathRel at hrel
  split at hrel
  · exact absurd (Option.some.inj hrel).symm hdot
  rename_i hother
  split_ifs at hrel with hbase
  have hbase : isAbs base = true := by simpa using hbase
  obtain ⟨common, hcommon, htarget⟩ := exists_common (cleanElements base) (cleanElements target)
  cases hstrip : stripCommon (cleanElements base) (cleanElements target) with
  | mk up down =>
    rw [hstrip] at hrel hcommon htarget
    dsimp only at hrel hcommon htarget
    cases hrel
    cases up with
    | cons first rest =>
      -- The way starts with a step up.
      cases hrest : rest.map (fun _ => dotDot) ++ down with
      | nil =>
        refine absurd ?_ hup
        rw [List.map_cons, List.cons_append, hrest]
        rfl
      | cons next others =>
        refine absurd ⟨[slash].intercalate (next :: others), ?_⟩ habove
        rw [List.map_cons, List.cons_append, hrest, List.intercalate_cons_cons]
    | nil =>
      rw [List.append_nil] at hcommon
      have hne : down ≠ [] := by
        rintro rfl
        rw [List.append_nil, ← hcommon] at htarget
        refine hother ?_
        rw [pathClean_of_isAbs habs, pathClean_of_isAbs hbase]
        exact congrArg rooted htarget
      have hplain : ∀ element ∈ down, PlainElement element := by
        intro element hmem
        have hlisted : element ∈ cleanElements target := by
          rw [htarget]
          exact List.mem_append_right _ hmem
        exact plainElement_cleanElements element hlisted
      refine ⟨hbase, ?_⟩
      rw [List.map_nil, List.nil_append, pathJoin_of_isAbs hbase hne hplain, hcommon, ← htarget]
      exact hclean.symm.trans (pathClean_of_isAbs habs)

end NixConfig.Data
