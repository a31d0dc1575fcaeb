/-
# Classifying diff reports

A report compares two systems: rows for packages, a summary of paths and of the
size, and the differences of generated configuration. The classification reads
the report line by line. A report is unchanged if it has the summaries and
nothing else; it is minor if it has a size and no line that tells of a change.

Two lines that tell of a change are overlooked. A row of a package that was added
or removed is passed over when it shows a size and no version, and the sentence
that there are no differences of configuration, wherever it stands, keeps the
differences from being looked at.
-/

import NixConfig.Data.Lines

namespace NixConfig.FleetTools

open Data

inductive Classification
  | unchanged | minor | major | error
  deriving DecidableEq, Repr

/-! ## Numbers and sizes -/

def isDigits (value : List Char) : Bool := !value.isEmpty && value.all Char.isDigit

/-- Without its sign. -/
def unsigned : List Char → List Char
  | '+' :: rest => rest
  | '-' :: rest => rest
  | value => value

def isDecimal (value : List Char) : Bool :=
  match splitOnce (unsigned value) ['.'] with
  | some (whole, fraction) => isDigits whole && isDigits fraction
  | none => isDigits (unsigned value)

def sizeUnits : List String :=
  ["byte", "bytes", "KiB", "MiB", "GiB", "TiB", "PiB", "EiB", "ZiB", "YiB"]

def isSizeUnit (value : List Char) : Bool := (sizeUnits.map String.toList).contains value

def isSize (value : List Char) : Bool :=
  match words value with
  | [amount, unit] => isDecimal amount && isSizeUnit unit
  | _ => false

def parseSizeSummary (line : List Char) : Option (List Char × List Char × List Char) := do
  let rest ← List.dropPrefix? line "SIZE: ".toList
  let rest ← stripSuffix rest [')']
  let (sizes, delta) ← rsplitOnce rest " (".toList
  let (old, new) ← splitOnce sizes " -> ".toList
  if isSize old && isSize new && isSize delta then some (old, new, delta) else none

/-! ## Rows of packages -/

/-- The status of a row and its fields. -/
def packageRow (line : List Char) : Option (List Char × List (List Char)) :=
  match List.dropPrefix? line ['['] with
  | none => none
  | some rest =>
    match splitOnce rest [']'] with
    | none => none
    | some (status, row) =>
      if status.isEmpty || !row.head?.any isSpace || (trimChars row).isEmpty then none
      else some (status, words row)

/-- A name, a signed decimal and a unit. -/
def isSizeRow : List (List Char) → Bool
  | [_, size, unit] => isDecimal size && isSizeUnit unit
  | _ => false

def isPackageChange (line : List Char) : Bool :=
  match packageRow line with
  | none => false
  | some (_, fields) => !isSizeRow fields

/-! ## Generated configuration -/

def noDifferences : List Char := "No generated config differences.".toList

def differencePrefixes : List String := ["diff -ruN ", "Only in ", "--- ", "+++ ", "@@ "]

/-- A line that begins a difference. -/
def isDifference (line : List Char) : Bool :=
  (differencePrefixes.any fun start => start.toList.isPrefixOf line) ||
    (("Files ".toList.isPrefixOf line || "Binary files ".toList.isPrefixOf line) &&
      decide (" differ".toList <:+: line))

def hasGeneratedConfigDiff (output : List Char) : Bool :=
  if noDifferences <:+: output then false else (lines output).any isDifference

/-! ## The classification -/

/-- The lines after the first one that has to be a size. -/
def unchangedFrom (first : Option (List Char)) (rest : List (List Char)) : Bool :=
  match first.bind parseSizeSummary with
  | none => false
  | some (old, new, delta) =>
    if old ≠ new ∨ delta ≠ "0 bytes".toList then false
    else
      match rest with
      | [] => true
      | line :: rest => line == noDifferences && rest.isEmpty

/-- The counts of the summary of paths. -/
def samePaths (paths : List Char) : Bool :=
  match (stripSuffix paths " (+0, -0)".toList).bind (splitOnce · " -> ".toList) with
  | none => false
  | some (old, new) => isDigits old && isDigits new && old == new

def isUnchanged (output : List Char) : Bool :=
  if output.isEmpty then true
  else
    match ((lines output).map trimChars).filter (· ≠ []) with
    | [] => false
    | first :: rest =>
      match List.dropPrefix? first "PATHS: ".toList with
      | none => unchangedFrom (some first) rest
      | some paths => samePaths paths && unchangedFrom rest.head? rest.tail

def hasSize (output : List Char) : Bool :=
  (lines output).any fun line => (parseSizeSummary line).isSome

def isSizeOnly (output : List Char) : Bool :=
  hasSize output && !(lines output).any isPackageChange && !hasGeneratedConfigDiff output

def classify (output : List Char) (exitCode : Int) : Classification :=
  if exitCode ≠ 0 then .error
  else if isUnchanged output then .unchanged
  else if isSizeOnly output then .minor
  else .major

/-! ## What a report tells -/

/-- A row of a package that was added or removed. -/
def AddsOrRemoves (line : List Char) : Prop :=
  ∃ status fields, packageRow line = some (status, fields) ∧
    (status.head? = some 'A' ∨ status.head? = some 'R')

/-- A row that shows more of a package than its size. -/
def ShowsVersion (line : List Char) : Prop :=
  ∃ status fields, packageRow line = some (status, fields) ∧ isSizeRow fields = false

/-- No line tells of a change. -/
def TellsNoChange (output : List Char) : Prop :=
  ∀ line ∈ lines output,
    ¬ AddsOrRemoves line ∧ ¬ ShowsVersion line ∧ isDifference line = false

variable {line more output : List Char} {c : Char}

theorem isPackageChange_iff :
    isPackageChange line = true ↔ ShowsVersion line := by
  unfold isPackageChange ShowsVersion
  cases hrow : packageRow line with
  | none => simp
  | some row =>
    obtain ⟨status, fields⟩ := row
    simp

/-! ## Reports that are unchanged -/

/-- What the lines of an unchanged report begin with. -/
def summaryLetters : List Char := ['P', 'S', 'N']

/-- What the lines begin with that tell of a change. -/
def changeLetters : List Char := ['[', 'd', 'O', '-', '+', '@', 'F', 'B']

theorem head?_of_dropPrefix? {rest : List Char}
    (hdrop : List.dropPrefix? line (c :: more) = some rest) : line.head? = some c := by
  obtain ⟨start, rfl, hsame⟩ := List.dropPrefix?_eq_some_iff.mp hdrop
  rw [beq_iff_eq] at hsame
  rw [hsame]
  rfl

theorem head?_of_parseSizeSummary {sizes : List Char × List Char × List Char}
    (hparse : parseSizeSummary line = some sizes) :
    line.head? = some 'S' := by
  obtain ⟨rest, hrest, -⟩ := Option.bind_eq_some_iff.mp hparse
  exact head?_of_dropPrefix? hrest

theorem head?_of_unchangedFrom {first : Option (List Char)} {rest : List (List Char)}
    (hunchanged : unchangedFrom first rest = true) :
    ∀ line ∈ first.toList ++ rest, ∃ c ∈ summaryLetters, line.head? = some c := by
  unfold unchangedFrom at hunchanged
  split at hunchanged
  · cases hunchanged
  rename_i old new delta hsize
  obtain ⟨line, rfl, hparse⟩ := Option.bind_eq_some_iff.mp hsize
  have hfirst : ∃ c ∈ summaryLetters, line.head? = some c :=
    ⟨'S', by decide, head?_of_parseSizeSummary hparse⟩
  split_ifs at hunchanged
  cases rest with
  | nil => simpa using hfirst
  | cons next rest =>
    simp only [Bool.and_eq_true, beq_iff_eq, List.isEmpty_iff] at hunchanged
    obtain ⟨rfl, rfl⟩ := hunchanged
    intro other hother
    simp only [Option.toList_some, List.singleton_append, List.mem_cons, List.not_mem_nil,
      or_false] at hother
    rcases hother with rfl | rfl
    · exact hfirst
    · exact ⟨'N', by decide, rfl⟩

/-- The lines of an unchanged report are its summaries, and blank lines. -/
theorem head?_of_isUnchanged (hunchanged : isUnchanged output = true) :
    ∀ line ∈ lines output, trimChars line = [] ∨
      ∃ c ∈ summaryLetters, (trimChars line).head? = some c := by
  intro line hline
  by_cases hblank : trimChars line = []
  · exact .inl hblank
  refine .inr ?_
  have hmem : trimChars line ∈ ((lines output).map trimChars).filter (· ≠ []) :=
    List.mem_filter.mpr ⟨List.mem_map_of_mem hline, by simpa using hblank⟩
  unfold isUnchanged at hunchanged
  split at hunchanged
  · rename_i hempty
    rw [List.isEmpty_iff.mp hempty] at hline
    cases hline
  split at hunchanged
  · cases hunchanged
  rename_i first rest hlines
  rw [hlines] at hmem
  split at hunchanged
  · exact head?_of_unchangedFrom hunchanged _ hmem
  · rename_i paths hpaths
    rw [Bool.and_eq_true] at hunchanged
    rcases List.mem_cons.mp hmem with hfirst | hrest
    · rw [hfirst]
      exact ⟨'P', by decide, head?_of_dropPrefix? hpaths⟩
    · obtain ⟨next, others, rfl⟩ := List.exists_cons_of_ne_nil (List.ne_nil_of_mem hrest)
      exact head?_of_unchangedFrom hunchanged.2 _ hrest

theorem head?_of_packageRow {row : List Char × List (List Char)}
    (hrow : packageRow line = some row) : line.head? = some '[' := by
  unfold packageRow at hrow
  split at hrow
  · cases hrow
  rename_i rest hrest
  exact head?_of_dropPrefix? hrest

theorem head?_of_isPrefixOf (hstarts : (c :: more).isPrefixOf line = true) :
    line.head? = some c := by
  obtain ⟨rest, rfl⟩ := List.isPrefixOf_iff_prefix.mp hstarts
  rfl

theorem head?_of_isDifference (hdifference : isDifference line = true) :
    ∃ c ∈ changeLetters, line.head? = some c := by
  simp only [isDifference, differencePrefixes, List.any_cons, List.any_nil, Bool.or_false,
    Bool.or_eq_true, Bool.and_eq_true] at hdifference
  rcases hdifference with (h | h | h | h | h) | ⟨h | h, -⟩
  · exact ⟨'d', by decide, head?_of_isPrefixOf h⟩
  · exact ⟨'O', by decide, head?_of_isPrefixOf h⟩
  · exact ⟨'-', by decide, head?_of_isPrefixOf h⟩
  · exact ⟨'+', by decide, head?_of_isPrefixOf h⟩
  · exact ⟨'@', by decide, head?_of_isPrefixOf h⟩
  · exact ⟨'F', by decide, head?_of_isPrefixOf h⟩
  · exact ⟨'B', by decide, head?_of_isPrefixOf h⟩

theorem tellsNoChange_of_isUnchanged (hunchanged : isUnchanged output = true) :
    TellsNoChange output := by
  have hapart : ∀ c ∈ changeLetters, isSpace c = false ∧ c ∉ summaryLetters := by decide
  -- A line that tells of a change begins with a letter that no summary begins with.
  have hsilent : ∀ line ∈ lines output, ¬ ∃ c ∈ changeLetters, line.head? = some c := by
    rintro line hline ⟨c, hc, hhead⟩
    obtain ⟨rest, rfl⟩ := List.head?_eq_some_iff.mp hhead
    obtain ⟨hspace, hother⟩ := hapart c hc
    have htrimmed := head?_trimChars rest hspace
    rcases head?_of_isUnchanged hunchanged _ hline with hblank | ⟨d, hd, hletter⟩
    · rw [hblank] at htrimmed
      cases htrimmed
    · rw [htrimmed] at hletter
      exact hother (Option.some.inj hletter ▸ hd)
  intro line hline
  refine ⟨?_, ?_, ?_⟩
  · rintro ⟨status, fields, hrow, -⟩
    exact hsilent line hline ⟨'[', by decide, head?_of_packageRow hrow⟩
  · rintro ⟨status, fields, hrow, -⟩
    exact hsilent line hline ⟨'[', by decide, head?_of_packageRow hrow⟩
  · by_contra hdifference
    exact hsilent line hline (head?_of_isDifference (by simpa using hdifference))

/-! ## What is overlooked -/

/-- A package was added or removed, and its row shows its size only. -/
def SizeOnlyAddition (output : List Char) : Prop :=
  ∃ line ∈ lines output, ∃ status fields, packageRow line = some (status, fields) ∧
    (status.head? = some 'A' ∨ status.head? = some 'R') ∧ isSizeRow fields = true

def HasDifference (output : List Char) : Prop := ∃ line ∈ lines output, isDifference line = true

theorem hasGeneratedConfigDiff_iff :
    hasGeneratedConfigDiff output = true ↔ ¬ noDifferences <:+: output ∧ HasDifference output := by
  unfold hasGeneratedConfigDiff HasDifference
  split
  · simp [*]
  · simp [*]

theorem isSizeOnly_iff :
    isSizeOnly output = true ↔ hasSize output = true ∧ (∀ line ∈ lines output, ¬ ShowsVersion line) ∧
      ¬ (¬ noDifferences <:+: output ∧ HasDifference output) := by
  rw [← hasGeneratedConfigDiff_iff]
  simp [isSizeOnly, ← isPackageChange_iff, and_assoc]

theorem unchanged_or_minor_iff :
    classify output 0 = .unchanged ∨ classify output 0 = .minor ↔
      isUnchanged output = true ∨ isSizeOnly output = true := by
  unfold classify
  split_ifs <;> simp_all

/-- A report that is classified as unchanged or minor tells of no change exactly if it has
neither kind of line that is overlooked, or if it could not be classified so anyway: it has no
size, a row shows a version, or there is a difference and the sentence stands nowhere. -/
theorem classify_faithful_iff (output : List Char) :
    (classify output 0 = .unchanged ∨ classify output 0 = .minor → TellsNoChange output) ↔
      (¬ SizeOnlyAddition output ∧ ¬ (noDifferences <:+: output ∧ HasDifference output)) ∨
      hasSize output = false ∨ (∃ line ∈ lines output, ShowsVersion line) ∨
      (¬ noDifferences <:+: output ∧ HasDifference output) := by
  rw [unchanged_or_minor_iff]
  constructor
  · intro hfaithful
    by_contra hother
    simp only [not_or, not_exists, not_and, Bool.not_eq_false] at hother
    obtain ⟨hoverlooked, hsize, hversions, hsentence⟩ := hother
    -- the report is Minor, so it tells no change; but a row or a line that was overlooked does
    have hminor : isSizeOnly output = true :=
      isSizeOnly_iff.mpr ⟨hsize, hversions, fun hdifference =>
        hsentence hdifference.1 hdifference.2⟩
    have hsilent := hfaithful (.inr hminor)
    refine hoverlooked ?_ ?_
    · rintro ⟨line, hline, status, fields, hrow, hstatus, -⟩
      exact (hsilent line hline).1 ⟨status, fields, hrow, hstatus⟩
    · rintro - ⟨line, hline, hdifference⟩
      rw [(hsilent line hline).2.2] at hdifference
      cases hdifference
  · rintro hcondition (hunchanged | hminor)
    -- an unchanged report is faithful whatever holds
    · exact tellsNoChange_of_isUnchanged hunchanged
    obtain ⟨hsize, hversions, hsentence⟩ := isSizeOnly_iff.mp hminor
    -- of a minor report only the first of the four cases is left
    obtain ⟨hadditions, hdifferences⟩ : ¬ SizeOnlyAddition output ∧
        ¬ (noDifferences <:+: output ∧ HasDifference output) := by
      rcases hcondition with hcondition | hnone | ⟨line, hline, hversion⟩ | hdifference
      · exact hcondition
      · rw [hnone] at hsize
        cases hsize
      · exact absurd hversion (hversions line hline)
      · exact absurd hdifference hsentence
    intro line hline
    refine ⟨?_, hversions line hline, ?_⟩
    · rintro ⟨status, fields, hrow, hstatus⟩
      cases hsized : isSizeRow fields with
      | true => exact hadditions ⟨line, hline, status, fields, hrow, hstatus, hsized⟩
      | false => exact hversions line hline ⟨status, fields, hrow, hsized⟩
    · by_contra hdifference
      have hhas : HasDifference output := ⟨line, hline, by simpa using hdifference⟩
      by_cases hwithin : noDifferences <:+: output
      · exact hdifferences ⟨hwithin, hhas⟩
      · exact hsentence ⟨hwithin, hhas⟩

/-- A difference whose text holds the sentence. -/
def quotedSentence : List Char :=
  ("SIZE: 1 MiB -> 1 MiB (0 bytes)\n--- old/motd\n+++ new/motd\n@@ -1 +1 @@\n" ++
    "+No generated config differences.\n").toList

/-- A package that was added, with its size. -/
def addedWithSize : List Char :=
  "[A.] example +2 MiB\nSIZE: 1 MiB -> 3 MiB (+2 MiB)\n".toList

/-- The first report hides a change of configuration, the second an added package. -/
theorem sentence_and_size_hide_changes :
    (classify quotedSentence 0 = .minor ∧ HasDifference quotedSentence) ∧
    classify addedWithSize 0 = .minor ∧ ∃ line ∈ lines addedWithSize, AddsOrRemoves line := by
  refine ⟨⟨by decide +kernel, "--- old/motd".toList, by decide +kernel, by decide +kernel⟩,
    by decide +kernel, "[A.] example +2 MiB".toList, by decide +kernel, ?_⟩
  exact ⟨"A.".toList, ["example".toList, "+2".toList, "MiB".toList], by decide +kernel,
    by decide +kernel⟩

end NixConfig.FleetTools
