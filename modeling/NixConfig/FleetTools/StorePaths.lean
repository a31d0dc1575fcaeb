/-
# Store paths in compared files

Files are compared after every store path in them has been replaced by a marker. The text is
scanned for the store directory; behind it a path has 32 lowercase letters and digits, a dash,
which may be escaped, and a name up to a delimiter.

The scan goes on behind the directory when no path follows, so a path whose slash ends another
directory is passed over. A name is taken to go on up to the delimiter, also over characters
that no name has. Where neither is the case, no path is left and nothing else is replaced.
-/

import Mathlib.Data.List.Infix
import Mathlib.Data.List.TakeWhile

namespace NixConfig.FleetTools

/-! ## The scan -/

def storePrefix : List Char := ['/', 'n', 'i', 'x', '/', 's', 't', 'o', 'r', 'e', '/']

def marker : List Char := storePrefix ++ ['<', 'p', 'a', 't', 'h', '>']

def isHash (c : Char) : Bool := c.isLower || c.isDigit

def endsName (c : Char) : Bool := c ∈ ['/', ' ', '\t', '\r', '\n', '\'', '"', '<', '>']

/-- A dash, or an escaped one. -/
def dashLength : List Char → Option Nat
  | '-' :: _ => some 1
  | '\\' :: '-' :: _ => some 2
  | _ => none

/-- The end of the path at the start of a text that starts with the store directory. -/
def storePathEnd (candidate : List Char) : Option Nat :=
  let hashEnd := storePrefix.length + 32
  let hash := (candidate.drop storePrefix.length).take 32
  let rest := candidate.drop hashEnd
  if candidate.length ≤ hashEnd || !hash.all isHash then none
  else (dashLength rest).bind fun dash =>
    let name := (rest.drop dash).takeWhile (!endsName ·)
    if name.isEmpty then none else some (hashEnd + dash + name.length)

/-- The text is copied up to the store directory. What has been replaced or copied is then
skipped. -/
def scan : Nat → List Char → List Char
  | _, [] => []
  | skip + 1, _ :: rest => scan skip rest
  | 0, c :: rest =>
    if storePrefix.isPrefixOf (c :: rest) then
      match storePathEnd (c :: rest) with
      | some last => marker ++ scan (last - 1) rest
      | none => storePrefix ++ scan (storePrefix.length - 1) rest
    else c :: scan 0 rest

def normalizeStorePaths (value : List Char) : List Char := scan 0 value

/-! ## What is found -/

/-- What the scan takes for a path: a hash, a dash and a name without delimiters. -/
structure Scanned (hash dash name : List Char) : Prop where
  length : hash.length = 32
  hash : ∀ c ∈ hash, isHash c
  dash : dash = ['-'] ∨ dash = ['\\', '-']
  ne_nil : name ≠ []
  name : ∀ c ∈ name, endsName c = false

variable {text after hash dash name rest : List Char} {c : Char}

theorem storePathEnd_eq_some {last : Nat} :
    storePathEnd (storePrefix ++ after) = some last ↔
      (32 < after.length ∧ ∀ c ∈ after.take 32, isHash c) ∧ ∃ dash,
        dashLength (after.drop 32) = some dash ∧
        ((after.drop 32).drop dash).takeWhile (!endsName ·) ≠ [] ∧
        storePrefix.length + 32 + dash +
          (((after.drop 32).drop dash).takeWhile (!endsName ·)).length = last := by
  simp [storePathEnd, Option.bind_eq_some_iff]

theorem exists_dash {count : Nat} (hdash : dashLength text = some count) :
    ∃ dash rest, text = dash ++ rest ∧ (dash = ['-'] ∨ dash = ['\\', '-']) ∧
      dash.length = count := by
  unfold dashLength at hdash
  split at hdash
  · exact ⟨['-'], _, rfl, .inl rfl, Option.some.inj hdash⟩
  · exact ⟨['\\', '-'], _, rfl, .inr rfl, Option.some.inj hdash⟩
  · cases hdash

theorem exists_scanned {last : Nat} (hend : storePathEnd (storePrefix ++ after) = some last) :
    ∃ hash dash name rest, Scanned hash dash name ∧
      after = hash ++ (dash ++ (name ++ rest)) ∧
      last = (storePrefix ++ hash ++ dash ++ name).length := by
  obtain ⟨⟨hlong, hhash⟩, count, hdash, hname, rfl⟩ := storePathEnd_eq_some.mp hend
  obtain ⟨dash, tail, htail, hform, rfl⟩ := exists_dash hdash
  rw [htail, List.drop_left] at hname ⊢
  have hlength : (after.take 32).length = 32 := by
    simp
    omega
  refine ⟨after.take 32, dash, _, tail.dropWhile (!endsName ·),
    ⟨hlength, hhash, hform, hname, fun c hc => ?_⟩, ?_, ?_⟩
  · simpa using List.mem_takeWhile_imp hc
  · rw [List.takeWhile_append_dropWhile, ← htail, List.take_append_drop]
  · simp only [List.length_append, hlength]

theorem storePathEnd_ne_none (hlength : hash.length = 32) (hhash : ∀ c ∈ hash, isHash c)
    (hdash : dash = ['-'] ∨ dash = ['\\', '-']) (hc : endsName c = false) :
    storePathEnd (storePrefix ++ (hash ++ (dash ++ c :: rest))) ≠ none := by
  rw [Option.ne_none_iff_exists']
  refine ⟨_, storePathEnd_eq_some.mpr ⟨⟨?_, ?_⟩, dash.length, ?_, ?_, rfl⟩⟩
  · simp only [List.length_append, List.length_cons, hlength]
    omega
  · simpa [← hlength] using hhash
  · rw [← hlength, List.drop_left]
    rcases hdash with rfl | rfl <;> rfl
  · simp [← hlength, hc]

theorem scan_eq (skip : Nat) (text : List Char) :
    scan skip text = normalizeStorePaths (text.drop skip) := by
  induction text generalizing skip with
  | nil => simp [normalizeStorePaths, scan]
  | cons c rest ih =>
    cases skip with
    | zero => rfl
    | succ skip => simpa [scan] using ih skip

theorem normalize_cons (hstarts : ¬ storePrefix <+: c :: rest) :
    normalizeStorePaths (c :: rest) = c :: normalizeStorePaths rest := by
  rw [normalizeStorePaths, scan, if_neg (List.isPrefixOf_iff_prefix.not.mpr hstarts)]
  rfl

theorem normalize_append (after : List Char) : normalizeStorePaths (storePrefix ++ after) =
    match storePathEnd (storePrefix ++ after) with
    | some last => marker ++ normalizeStorePaths ((storePrefix.tail ++ after).drop (last - 1))
    | none => storePrefix ++ normalizeStorePaths after := by
  change scan 0 ('/' :: (storePrefix.tail ++ after)) = _
  have hstarts : storePrefix.isPrefixOf ('/' :: (storePrefix.tail ++ after)) :=
    List.isPrefixOf_iff_prefix.mpr (List.prefix_append storePrefix after)
  rw [scan, if_pos hstarts]
  simp only [scan_eq]
  rfl

theorem normalize_of_none (hnone : storePathEnd (storePrefix ++ after) = none) :
    normalizeStorePaths (storePrefix ++ after) = storePrefix ++ normalizeStorePaths after := by
  rw [normalize_append, hnone]

/-- The scan from a position: at the end, at a path, at the store directory without a path, or
at another character. -/
theorem normalize_induction {motive : List Char → List Char → Prop} (nil : motive [] [])
    (path : ∀ hash dash name rest, Scanned hash dash name →
      motive rest (normalizeStorePaths rest) →
      motive (storePrefix ++ (hash ++ (dash ++ (name ++ rest))))
        (marker ++ normalizeStorePaths rest))
    (skip : ∀ after, storePathEnd (storePrefix ++ after) = none →
      motive after (normalizeStorePaths after) →
      motive (storePrefix ++ after) (storePrefix ++ normalizeStorePaths after))
    (keep : ∀ c rest, ¬ storePrefix <+: c :: rest → motive rest (normalizeStorePaths rest) →
      motive (c :: rest) (c :: normalizeStorePaths rest)) (text : List Char) :
    motive text (normalizeStorePaths text) := by
  -- every branch goes on with a shorter text, but not with the tail
  induction hlength : text.length using Nat.strong_induction_on generalizing text with
  | _ length ih =>
    subst hlength
    by_cases hstarts : storePrefix <+: text
    · obtain ⟨after, rfl⟩ := hstarts
      cases hend : storePathEnd (storePrefix ++ after) with
      | none =>
        rw [normalize_of_none hend]
        exact skip after hend (ih _ (by simp [storePrefix]; omega) after rfl)
      | some last =>
        obtain ⟨hash, dash, name, rest, hscanned, rfl, rfl⟩ := exists_scanned hend
        have hrest : (storePrefix.tail ++ (hash ++ (dash ++ (name ++ rest)))).drop
            ((storePrefix ++ hash ++ dash ++ name).length - 1) = rest := by
          rw [← List.append_assoc, ← List.append_assoc, ← List.append_assoc]
          exact List.drop_left' (by simp [storePrefix])
        simp only [normalize_append, hend, hrest]
        exact path hash dash name rest hscanned (ih _ (by simp [storePrefix]; omega) rest rfl)
    · cases text with
      | nil => exact nil
      | cons c rest =>
        rw [normalize_cons hstarts]
        exact keep c rest hstarts (ih _ (by simp) rest rfl)

/-! ## What is kept -/

/-- What stands at the start of the output stands at the start of the text, unless it has the
store directory in it. -/
theorem prefix_of_normalize (text : List Char) : ∀ {part}, ¬ storePrefix <:+: part →
    part <+: normalizeStorePaths text → part <+: text := by
  have hdirectory : ∀ {part output tail : List Char}, ¬ storePrefix <:+: part →
      part <+: storePrefix ++ output → part <+: storePrefix ++ tail := by
    intro part output tail hpart hstarts
    rcases List.prefix_or_prefix_of_prefix hstarts (List.prefix_append ..) with h | h
    · exact h.trans (List.prefix_append ..)
    · exact absurd h.isInfix hpart
  induction text using normalize_induction with
  | nil => exact fun _ hstarts => hstarts
  | path hash dash name rest =>
    intro part hpart hstarts
    rw [marker, List.append_assoc] at hstarts
    exact hdirectory hpart hstarts
  | skip after => exact hdirectory
  | keep c rest hnot ih =>
    intro part hpart hstarts
    cases part with
    | nil => exact List.nil_prefix
    | cons d part =>
      rw [List.cons_prefix_cons] at hstarts ⊢
      exact ⟨hstarts.1, ih (mt List.infix_cons hpart) hstarts.2⟩

/-- No other character yields the store directory. -/
theorem prefix_of_cons (hstarts : storePrefix <+: c :: normalizeStorePaths rest) :
    storePrefix <+: c :: rest := by
  rw [storePrefix, List.cons_prefix_cons] at hstarts ⊢
  exact ⟨hstarts.1, prefix_of_normalize rest (by decide) hstarts.2⟩

/-- A directory without a path has none in the output. -/
theorem storePathEnd_normalize (hnone : storePathEnd (storePrefix ++ after) = none) :
    storePathEnd (storePrefix ++ normalizeStorePaths after) = none := by
  by_contra hsome
  obtain ⟨last, hend⟩ := Option.ne_none_iff_exists'.mp hsome
  obtain ⟨hash, dash, name, rest, hscanned, hafter, -⟩ := exists_scanned hend
  obtain ⟨c, name, rfl⟩ := List.exists_cons_of_ne_nil hscanned.ne_nil
  have hc : endsName c = false := hscanned.name c List.mem_cons_self
  have hslash : '/' ∉ hash ++ (dash ++ [c]) := by
    have hhash : '/' ∉ hash := fun hmem => absurd (hscanned.hash _ hmem) (by decide)
    have hne : '/' ≠ c := by
      rintro rfl
      cases hc
    rcases hscanned.dash with rfl | rfl <;> simp [hhash, hne]
  have hpart : hash ++ (dash ++ [c]) <+: normalizeStorePaths after :=
    ⟨name ++ rest, by simp [hafter]⟩
  have hnot : ¬ storePrefix <:+: hash ++ (dash ++ [c]) :=
    fun hfound => hslash (hfound.subset List.mem_cons_self)
  obtain ⟨tail, htail⟩ := prefix_of_normalize after hnot hpart
  rw [← htail, List.append_assoc, List.append_assoc] at hnone
  exact storePathEnd_ne_none hscanned.length hscanned.hash hscanned.dash hc hnone

theorem normalize_normalize (text : List Char) :
    normalizeStorePaths (normalizeStorePaths text) = normalizeStorePaths text := by
  induction text using normalize_induction with
  | nil => rfl
  | path hash dash name rest _ ih =>
    have hnone : storePathEnd (storePrefix ++ (['<', 'p', 'a', 't', 'h', '>'] ++
        normalizeStorePaths rest)) = none := by
      rw [Option.eq_none_iff_forall_ne_some]
      intro last hend
      have hbracket := (storePathEnd_eq_some.mp hend).1.2 '<' (by simp)
      exact absurd hbracket (by decide)
    rw [marker, List.append_assoc, normalize_of_none hnone]
    simp [normalize_cons, storePrefix, List.cons_prefix_cons, ih]
  | skip after hnone ih => rw [normalize_of_none (storePathEnd_normalize hnone), ih]
  | keep c rest hstarts ih => rw [normalize_cons (mt prefix_of_cons hstarts), ih]

/-! ## Store paths -/

def isNameChar (c : Char) : Bool := c.isAlphanum || c ∈ ['+', '-', '.', '_', '?', '=']

def StorePath (path : List Char) : Prop :=
  ∃ hash name, path = storePrefix ++ (hash ++ '-' :: name) ∧ hash.length = 32 ∧
    (∀ c ∈ hash, isHash c) ∧ name ≠ [] ∧ ∀ c ∈ name, isNameChar c

/-- Texts that are the same but for parts that a relation allows to differ. -/
inductive Differs (parts : List Char → List Char → Prop) : List Char → List Char → Prop
  | nil : Differs parts [] []
  | keep {text other : List Char} (c : Char) : Differs parts text other →
    Differs parts (c :: text) (c :: other)
  | part {part part' text other : List Char} : Differs parts text other → parts part part' →
    Differs parts (part ++ text) (part' ++ other)

/-- The second text has the marker for some store paths of the first. -/
def Abstracts : List Char → List Char → Prop :=
  Differs fun part part' => StorePath part ∧ part' = marker

/-- Two texts that are the same but for store paths. -/
def Alike : List Char → List Char → Prop :=
  Differs fun part part' => StorePath part ∧ StorePath part'

/-- Two texts that are the same but for parts that are store paths or the marker. -/
def Resembles : List Char → List Char → Prop :=
  Differs fun part part' =>
    (StorePath part ∨ part = marker) ∧ (StorePath part' ∨ part' = marker)

/-- The store directory is not followed by itself with a shared slash, and what follows it with
a hash and a dash, which is not escaped, is a name up to a delimiter. -/
structure Proper (text : List Char) : Prop where
  apart : ¬ storePrefix ++ storePrefix.tail <:+: text
  name : ∀ hash dash name rest, Scanned hash dash name →
    storePrefix ++ (hash ++ (dash ++ (name ++ rest))) <:+ text →
    dash = ['-'] ∧ ∀ c ∈ name, isNameChar c

variable {path other : List Char}

theorem suffix_path : rest <:+ storePrefix ++ (hash ++ (dash ++ (name ++ rest))) :=
  ⟨storePrefix ++ (hash ++ (dash ++ name)), by simp⟩

theorem Proper.suffix (hproper : Proper text) (hsuffix : rest <:+ text) : Proper rest where
  apart hfound := hproper.apart (hfound.trans hsuffix.isInfix)
  name hash dash name tail hscanned htail :=
    hproper.name hash dash name tail hscanned (htail.trans hsuffix)

theorem Proper.storePath (hproper : Proper (storePrefix ++ (hash ++ (dash ++ (name ++ rest)))))
    (hscanned : Scanned hash dash name) :
    StorePath (storePrefix ++ (hash ++ (dash ++ name))) := by
  obtain ⟨rfl, hname⟩ := hproper.name hash dash name rest hscanned List.suffix_rfl
  exact ⟨hash, name, rfl, hscanned.length, hscanned.hash, hscanned.ne_nil, hname⟩

theorem Differs.append_left {parts : List Char → List Char → Prop} (kept : List Char)
    (hdiffers : Differs parts text other) : Differs parts (kept ++ text) (kept ++ other) := by
  induction kept with
  | nil => exact hdiffers
  | cons c kept ih => exact ih.keep c

theorem abstracts_normalize (hproper : Proper text) : Abstracts text (normalizeStorePaths text) := by
  induction text using normalize_induction with
  | nil => exact .nil
  | path hash dash name rest hscanned ih =>
    have hrest := ih (hproper.suffix suffix_path)
    simpa only [Abstracts, List.append_assoc] using
      Differs.part hrest ⟨hproper.storePath hscanned, rfl⟩
  | skip after _ ih => exact (ih (hproper.suffix (List.suffix_append ..))).append_left _
  | keep c rest _ ih => exact (ih (hproper.suffix (List.suffix_cons ..))).keep c

theorem endsName_of_isNameChar (hname : isNameChar c) : endsName c = false := by
  by_contra hends
  simp only [endsName, Bool.not_eq_false, decide_eq_true_eq, List.mem_cons, List.not_mem_nil,
    or_false] at hends
  rcases hends with rfl | rfl | rfl | rfl | rfl | rfl | rfl | rfl | rfl <;> cases hname

theorem not_infix_normalize (hproper : Proper text) (hpath : StorePath path) :
    ¬ path <:+: normalizeStorePaths text := by
  obtain ⟨hash, name, rfl, hlength, hhash, hne, hname⟩ := hpath
  obtain ⟨first, name, rfl⟩ := List.exists_cons_of_ne_nil hne
  -- In front of an output the path starts with the directory, at its last slash, or later.
  have hcases : ∀ {output : List Char},
      storePrefix ++ (hash ++ '-' :: first :: name) <:+: storePrefix ++ output →
      hash ++ '-' :: first :: name <+: output ∨ storePrefix.tail <+: output ∨
        storePrefix ++ (hash ++ '-' :: first :: name) <:+: output := by
    intro output hfound
    simp [storePrefix, List.infix_cons_iff, List.cons_prefix_cons] at hfound ⊢
    exact hfound.imp_right (Or.imp_left ((List.prefix_append storePrefix.tail _).trans ·))
  induction text using normalize_induction with
  | nil => simp [storePrefix]
  | path _ _ _ rest _ ih =>
    intro hfound
    rw [marker, List.append_assoc] at hfound
    rcases hcases hfound with hhead | hslash | hlater
    · obtain ⟨h, hash, rfl⟩ :=
        List.exists_cons_of_ne_nil (List.ne_nil_of_length_eq_add_one hlength)
      obtain rfl : h = '<' := (List.cons_prefix_cons.mp hhead).1
      exact absurd (hhash '<' List.mem_cons_self) (by decide)
    · simp [storePrefix, List.cons_prefix_cons] at hslash
    · refine ih (hproper.suffix suffix_path) ?_
      simpa [storePrefix, List.infix_cons_iff, List.cons_prefix_cons] using hlater
  | skip after hnone ih =>
    intro hfound
    rcases hcases hfound with ⟨tail, htail⟩ | hslash | hlater
    · have hfirst := endsName_of_isNameChar (hname first List.mem_cons_self)
      have hnone' := storePathEnd_normalize hnone
      rw [← htail, List.append_assoc] at hnone'
      exact storePathEnd_ne_none hlength hhash (.inl rfl) hfirst hnone'
    · obtain ⟨tail, rfl⟩ := prefix_of_normalize after (by decide) hslash
      exact hproper.apart ⟨[], tail, by simp⟩
    · exact ih (hproper.suffix (List.suffix_append ..)) hlater
  | keep c rest hstarts ih =>
    rw [List.infix_cons_iff]
    rintro (hhead | htail)
    · exact hstarts (prefix_of_cons ((List.prefix_append ..).trans hhead))
    · exact ih (hproper.suffix (List.suffix_cons ..)) htail

/-- The marker may also stand in the text itself. -/
theorem marker_found {output : List Char}
    (heq : normalizeStorePaths after = ['<', 'p', 'a', 't', 'h', '>'] ++ output) :
    ∃ tail, storePrefix ++ after = marker ++ tail ∧ normalizeStorePaths tail = output := by
  obtain ⟨tail, rfl⟩ := prefix_of_normalize after (by decide) ⟨output, heq.symm⟩
  refine ⟨tail, by simp [marker], ?_⟩
  simpa [normalize_cons, storePrefix, List.cons_prefix_cons] using heq

theorem resembles_of_normalize_eq (hproper : Proper text) (hother : Proper other)
    (heq : normalizeStorePaths text = normalizeStorePaths other) : Resembles text other := by
  obtain ⟨bound, hbound⟩ : ∃ bound, text.length < bound := ⟨_, Nat.lt_succ_self _⟩
  -- On the length: a marker of the text itself is passed in two steps of the scan.
  induction bound generalizing text other with
  | zero => exact absurd hbound (Nat.not_lt_zero _)
  | succ bound ih =>
    induction text using normalize_induction with
    | nil =>
      induction other using normalize_induction with
      | nil => exact .nil
      | path => simp [marker, storePrefix] at heq
      | skip => simp [storePrefix] at heq
      | keep => simp at heq
    | path hash dash name rest hscanned =>
      have hshort : rest.length < bound := by
        simp [storePrefix] at hbound
        omega
      have hpath := hproper.storePath hscanned
      have hproper := hproper.suffix suffix_path
      induction other using normalize_induction with
      | nil => simp [marker, storePrefix] at heq
      | path hash' dash' name' rest' hscanned' =>
        have hrest := ih hproper (hother.suffix suffix_path) (List.append_cancel_left heq) hshort
        simpa only [Resembles, List.append_assoc] using
          Differs.part hrest ⟨.inl hpath, .inl (hother.storePath hscanned')⟩
      | skip after =>
        rw [marker, List.append_assoc] at heq
        obtain ⟨tail, htail, hrest⟩ := marker_found (List.append_cancel_left heq).symm
        rw [htail] at hother ⊢
        have hrest := ih hproper (hother.suffix (List.suffix_append ..)) hrest.symm hshort
        simpa only [Resembles, List.append_assoc] using
          Differs.part hrest ⟨.inl hpath, .inr rfl⟩
      | keep c rest' hstarts =>
        exact absurd (prefix_of_cons ⟨_, by rw [← heq, marker, List.append_assoc]⟩) hstarts
    | skip after hnone =>
      have hshort : after.length < bound := by
        simp [storePrefix] at hbound
        omega
      induction other using normalize_induction with
      | nil => simp [storePrefix] at heq
      | path hash' dash' name' rest' hscanned' =>
        rw [marker, List.append_assoc] at heq
        obtain ⟨tail, htail, hrest⟩ := marker_found (List.append_cancel_left heq)
        rw [htail] at hproper ⊢
        have hlength := congrArg List.length htail
        simp [storePrefix, marker] at hlength
        have hrest := ih (hproper.suffix (List.suffix_append ..)) (hother.suffix suffix_path)
          hrest (by omega)
        simpa only [Resembles, List.append_assoc] using
          Differs.part hrest ⟨.inr rfl, .inl (hother.storePath hscanned')⟩
      | skip after' =>
        exact (ih (hproper.suffix (List.suffix_append ..)) (hother.suffix (List.suffix_append ..))
          (List.append_cancel_left heq) hshort).append_left _
      | keep c rest' hstarts => exact absurd (prefix_of_cons ⟨_, heq⟩) hstarts
    | keep c rest hstarts =>
      induction other using normalize_induction with
      | nil => simp at heq
      | path => exact absurd (prefix_of_cons ⟨_, by rw [heq, marker, List.append_assoc]⟩) hstarts
      | skip => exact absurd (prefix_of_cons ⟨_, heq.symm⟩) hstarts
      | keep c' rest' =>
        obtain ⟨rfl, hrest⟩ := List.cons.inj heq
        exact (ih (hproper.suffix (List.suffix_cons ..)) (hother.suffix (List.suffix_cons ..))
          hrest (Nat.lt_of_succ_lt_succ hbound)).keep c

theorem Resembles.alike (hresembles : Resembles text other) (htext : ¬ marker <:+: text)
    (hother : ¬ marker <:+: other) : Alike text other := by
  have hrest : ∀ {part text : List Char}, ¬ marker <:+: part ++ text →
      part ≠ marker ∧ ¬ marker <:+: text := by
    refine fun hnot => ⟨?_, fun hfound => hnot (hfound.trans (List.suffix_append ..).isInfix)⟩
    rintro rfl
    exact hnot (List.prefix_append ..).isInfix
  induction hresembles with
  | nil => exact .nil
  | keep c _ ih => exact (ih (mt List.infix_cons htext) (mt List.infix_cons hother)).keep c
  | part _ hparts ih =>
    obtain ⟨hpart, htext⟩ := hrest htext
    obtain ⟨hpart', hother⟩ := hrest hother
    exact .part (ih htext hother) ⟨hparts.1.resolve_right hpart, hparts.2.resolve_right hpart'⟩

/-- Normalizing twice is normalizing once. Where the directory does not run into itself and the
names end at delimiters, no store path is left and nothing else is replaced; and such texts are
equal when normalized only if they are the same but for their store paths, each of which may also
be the marker that stands in a text itself. -/
theorem normalize_store_paths_faithful (text : List Char) :
    normalizeStorePaths (normalizeStorePaths text) = normalizeStorePaths text ∧
    (Proper text → (∀ path, StorePath path → ¬ path <:+: normalizeStorePaths text) ∧
      Abstracts text (normalizeStorePaths text)) ∧
    ∀ other, Proper text → Proper other → normalizeStorePaths text = normalizeStorePaths other →
      Resembles text other ∧
      (¬ marker <:+: text → ¬ marker <:+: other → Alike text other) := by
  refine ⟨normalize_normalize text,
    fun hproper => ⟨fun _ => not_infix_normalize hproper, abstracts_normalize hproper⟩,
    fun other hproper hother heq => ?_⟩
  have hresembles := resembles_of_normalize_eq hproper hother heq
  exact ⟨hresembles, hresembles.alike⟩

def sampleHash : List Char := List.replicate 32 'a'

def samplePath (name : List Char) : List Char := storePrefix ++ (sampleHash ++ ('-' :: name))

theorem proper_samplePath (hname : isNameChar c) : Proper (samplePath [c]) := by
  refine ⟨?_, fun hash dash name rest hscanned hsuffix => ?_⟩
  · simp [samplePath, sampleHash, storePrefix, List.replicate, List.infix_cons_iff,
      List.cons_prefix_cons]
  · rw [← List.mem_tails] at hsuffix
    simp [samplePath, sampleHash, storePrefix, List.replicate] at hsuffix
    have hwhole : hash ++ (dash ++ (name ++ rest)) = sampleHash ++ ['-', c] := hsuffix
    obtain ⟨-, htail⟩ := List.append_inj hwhole hscanned.length
    rcases hscanned.dash with rfl | rfl
    · refine ⟨rfl, fun d hd => ?_⟩
      have hrest : name ++ rest = [c] := (List.cons.inj htail).2
      obtain rfl : d = c := List.mem_singleton.mp (hrest ▸ List.mem_append_left rest hd)
      exact hname
    · cases htail

/-- Two paths with names of one letter. -/
theorem paths_alike : Alike (samplePath ['x']) (samplePath ['y']) := by
  have hunmarked : ∀ c, ¬ marker <:+: samplePath [c] := by
    intro c
    simp [samplePath, sampleHash, storePrefix, marker, List.replicate, List.infix_cons_iff,
      List.cons_prefix_cons]
  obtain ⟨-, -, hfaithful⟩ := normalize_store_paths_faithful (samplePath ['x'])
  obtain ⟨-, halike⟩ := hfaithful (samplePath ['y']) (proper_samplePath rfl)
    (proper_samplePath rfl) (by decide +kernel)
  exact halike (hunmarked 'x') (hunmarked 'y')

/-- A path behind the directory stays, a name takes what follows a colon with it, and an
escaped dash and the marker are taken for a path. -/
theorem store_paths_mistaken :
    normalizeStorePaths (storePrefix ++ (samplePath ['x']).tail) =
        storePrefix ++ (samplePath ['x']).tail ∧
      normalizeStorePaths (samplePath ['x', ':', 'b']) = marker ∧
      normalizeStorePaths (storePrefix ++ (sampleHash ++ ['\\', '-', 'x'])) = marker ∧
      normalizeStorePaths marker = marker := by
  decide +kernel

end NixConfig.FleetTools
