/-
# Lines, words and numbers

Reports of other programs are read line by line and word by word. These are the
operations of a string library on characters: lines with either ending, words
between spaces, and the parts before and after a separator. Go's scanner reads
lines of bytes, up to a length, and its integers are 64 bits wide.
-/

import Mathlib.Data.List.DropRight
import NixConfig.Data.Int64
import NixConfig.Data.Strings

namespace NixConfig.Data

/-- A line without its ending. -/
def chompLine (line : List Char) : List Char :=
  if line.getLast? = some '\n' then
    let body := line.dropLast
    if body.getLast? = some '\r' then body.dropLast else body
  else line

/-- A text cut after each newline. -/
def splitInclusive : List Char → List (List Char)
  | [] => []
  | c :: rest =>
    if c = '\n' then [c] :: splitInclusive rest
    else
      match splitInclusive rest with
      | [] => [[c]]
      | line :: others => (c :: line) :: others

/-- `str::lines` -/
def lines (text : List Char) : List (List Char) := (splitInclusive text).map chompLine

/-- `str::trim` -/
def trimChars (text : List Char) : List Char := (text.dropWhile isSpace).rdropWhile isSpace

/-- `str::split_whitespace` -/
def words (text : List Char) : List (List Char) := (text.splitOnP isSpace).filter (· ≠ [])

/-- `str::strip_suffix` -/
def stripSuffix (text suffix : List Char) : Option (List Char) :=
  (List.dropPrefix? text.reverse suffix.reverse).map List.reverse

/-- `str::split_once` -/
def splitOnce (text separator : List Char) : Option (List Char × List Char) :=
  match List.dropPrefix? text separator with
  | some rest => some ([], rest)
  | none =>
    match text with
    | [] => none
    | c :: rest => (splitOnce rest separator).map fun (before, after) => (c :: before, after)

/-- `str::rsplit_once` -/
def rsplitOnce (text separator : List Char) : Option (List Char × List Char) :=
  (splitOnce text.reverse separator.reverse).map fun (after, before) =>
    (before.reverse, after.reverse)

theorem head?_trimChars {c : Char} (rest : List Char) (hc : isSpace c = false) :
    (trimChars (c :: rest)).head? = some c := by
  rw [trimChars, List.dropWhile_cons_of_neg (by simp [hc])]
  induction rest using List.reverseRecOn with
  | nil =>
    have hkeep : [c].rdropWhile isSpace = [c] :=
      (List.rdropWhile_concat_neg _ [] c (by simp [hc]))
    rw [hkeep]
    rfl
  | append_singleton rest last ih =>
    rw [← List.cons_append]
    by_cases hlast : isSpace last = true
    · rwa [List.rdropWhile_concat_pos _ _ _ hlast]
    · rw [List.rdropWhile_concat_neg _ _ _ hlast]
      rfl

/-! ## Scanned lines -/

/-- `bufio.MaxScanTokenSize` -/
def maxScanTokenSize : Nat := 65536

/-- `dropCR` of `bufio.ScanLines` -/
def dropCR (line : Text) : Text := if line.getLast? = some 0x0D then line.dropLast else line

/-- The lines of some data. The last one may lack its newline. -/
def rawLines (data : Text) : List Text :=
  let pieces := data.splitOn 0x0A
  if pieces.getLast? = some [] then pieces.dropLast else pieces

/-- The lines that a `bufio.Scanner` gives, and whether it stopped before a line that
does not fit its buffer. -/
def scanLines (data : Text) : List Text × Bool :=
  (((rawLines data).takeWhile (·.length < maxScanTokenSize)).map dropCR,
    (rawLines data).any (maxScanTokenSize ≤ ·.length))

/-! ## Numbers -/

/-- Digits of a numeral, if there are some and nothing else. -/
def readDigits (digits : Text) : Option Nat :=
  if digits ≠ [] ∧ digits.all fun byte => 0x30 ≤ byte && byte ≤ 0x39 then
    some (digits.foldl (fun value byte => 10 * value + (byte.toNat - 48)) 0)
  else none

/-- `strconv.Atoi` -/
def atoi (text : Text) : Option Int := do
  let value : Int ←
    match text with
    | 0x2D :: digits => (readDigits digits).map fun value => -(value : Int)
    | 0x2B :: digits => (readDigits digits).map fun value => (value : Int)
    | digits => (readDigits digits).map fun value => (value : Int)
  if IsInt64 value then some value else none

example : atoi (bytes "-75") = some (-75) ∧ atoi (bytes "9223372036854775808") = none := by
  decide +kernel

end NixConfig.Data
