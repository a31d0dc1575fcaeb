/-
# Strings, paths, numerals and timestamps

The functions of Go's standard library on byte strings that a program built on
them needs to be read with: case mapping and folding over runes, trimming,
slash-separated paths, decimal and hexadecimal numerals, and the RFC 3339 form
of a time.

Unicode's case tables are a parameter. What is assumed of them is that they
are ASCII's on ASCII, and that no other character is lowered to an ASCII sign.
-/

import NixConfig.Data.Json

namespace NixConfig.Data

/-- The bytes of a literal. -/
def bytes (literal : String) : Text := utf8 literal.toList

/-- The bytes of a decimal numeral, as `strconv` writes it. -/
def numeral (n : Int) : Text := utf8 (decimal n)

theorem utf8_injective : Function.Injective utf8 :=
  Function.LeftInverse.injective chars_utf8

/-- Strings are ordered byte by byte. -/
def byteOrder (text : Text) : List Nat := text.map UInt8.toNat

theorem byteOrder_injective : Function.Injective byteOrder :=
  List.map_injective_iff.mpr fun _ _ => UInt8.toNat_inj.mp

theorem decimal_injective : Function.Injective decimal := by
  intro m n heq
  have hdigits {k k' : Nat} (hsame : Nat.toDigits 10 k = Nat.toDigits 10 k') : k = k' := by
    rw [← @Nat.ofDigitChars_ten_toDigits k, hsame, Nat.ofDigitChars_ten_toDigits]
  -- The sign is no digit, so that both numerals have it or neither.
  have hsign {k : Nat} {cs : List Char} : Nat.toDigits 10 k ≠ '-' :: cs := by
    intro hsame
    have hmem : '-' ∈ Nat.toDigits 10 k := by simp [hsame]
    exact absurd (Nat.isDigit_of_mem_toDigits (by decide) (le_refl 10) hmem) (by decide)
  unfold decimal at heq
  split at heq <;> split at heq
  · have := hdigits (List.cons.inj heq).2
    omega
  · exact absurd heq.symm hsign
  · exact absurd heq hsign
  · have := hdigits heq
    omega

theorem numeral_injective : Function.Injective numeral :=
  utf8_injective.comp decimal_injective

theorem zero_not_mem_numeral (n : Int) : 0 ∉ numeral n := by
  intro hmem
  obtain ⟨c, hc, hzero⟩ := exists_mem_of_mem_utf8 hmem (by decide)
  have hnul : c = Char.ofNat 0 := by
    rw [← Char.ofNat_toNat c, hzero]
    rfl
  rcases mem_decimal hc with rfl | hdigit
  · exact absurd hnul (by decide)
  · rw [hnul] at hdigit
    exact absurd hdigit (by decide)

/-! ## Runes -/

/-- The case tables of package `unicode`. -/
structure Unicode where
  /-- `unicode.ToLower` -/
  lower : Char → Char
  /-- `unicode.ToUpper` -/
  upper : Char → Char
  /-- The least character that `unicode.SimpleFold` reaches. -/
  fold : Char → Char
  lower_ascii : ∀ c, c.toNat < 0x80 → lower c = c.toLower
  eq_of_lower_sign : ∀ c, (lower c).toNat < 0x80 → ¬ (lower c).isAlpha → lower c = c

/-- `strings.ToLower` -/
def toLower (unicode : Unicode) (text : Text) : Text := utf8 ((chars text).map unicode.lower)

/-- `strings.ToUpper` -/
def toUpper (unicode : Unicode) (text : Text) : Text := utf8 ((chars text).map unicode.upper)

/-- `strings.EqualFold` -/
def equalFold (unicode : Unicode) (left right : Text) : Bool :=
  (chars left).map unicode.fold = (chars right).map unicode.fold

/-- `strings.Contains` -/
def contains (text part : Text) : Bool := decide (part <:+: text)

/-- `unicode.IsSpace` -/
def isSpace (c : Char) : Bool :=
  let n := c.toNat
  (0x09 ≤ n && n ≤ 0x0D) || n == 0x20 || n == 0x85 || n == 0xA0 || n == 0x1680 ||
    (0x2000 ≤ n && n ≤ 0x200A) || n == 0x2028 || n == 0x2029 || n == 0x202F || n == 0x205F ||
    n == 0x3000

/-- Whether `strings.TrimSpace` leaves a text as it is. -/
def trimmed (text : Text) : Bool :=
  (chars text).head?.all (!isSpace ·) && (chars text).getLast?.all (!isSpace ·)

/-- The bytes that the leading spaces of some runes take. -/
def spaceBytes (rs : List (Option Char)) : Nat :=
  ((rs.takeWhile fun rune => rune.any isSpace).map fun rune => (rune.map Char.utf8Size).getD 1).sum

/-- `strings.TrimSpace` -/
def trimSpace (text : Text) : Text :=
  let rest := text.drop (spaceBytes (runes text))
  rest.take (rest.length - spaceBytes (runes rest).reverse)

/-! ## Slash-separated paths -/

def slash : UInt8 := 0x2F

def dot : UInt8 := 0x2E

/-- `path.Ext`: from the last dot of the last element on. -/
def pathExt (path : Text) : Text :=
  let last := path.reverse.takeWhile (· != slash)
  if dot ∈ last then dot :: (last.takeWhile (· != dot)).reverse else []

/-- `filepath.Base` -/
def pathBase (path : Text) : Text :=
  if path = [] then [dot]
  else
    match path.reverse.dropWhile (· == slash) with
    | [] => [slash]
    | kept => (kept.takeWhile (· != slash)).reverse

/-- `filepath.IsAbs` -/
def isAbs (path : Text) : Bool := path.head? == some slash

def dotDot : Text := [dot, dot]

/-- One element of a path that `filepath.Clean` reads, onto the reversed
elements that it keeps. -/
def keepElement (rooted : Bool) (kept : List Text) (element : Text) : List Text :=
  if element = [] ∨ element = [dot] then kept
  else if element = dotDot then
    match kept with
    | [] => if rooted then [] else [dotDot]
    | last :: before => if last = dotDot then dotDot :: kept else before
  else element :: kept

/-- `filepath.Clean` -/
def pathClean (path : Text) : Text :=
  let kept := (path.splitOn slash).foldl (keepElement (isAbs path)) []
  let body := [slash].intercalate kept.reverse
  if isAbs path then slash :: body else if body = [] then [dot] else body

/-- `filepath.Join` of two elements. -/
def pathJoin (first second : Text) : Text :=
  match [first, second].filter (· ≠ []) with
  | [] => []
  | elements => pathClean ([slash].intercalate elements)

/-- An element that `filepath.Clean` keeps wherever it stands. -/
structure PlainElement (element : Text) : Prop where
  ne_nil : element ≠ []
  ne_dot : element ≠ [dot]
  ne_dotDot : element ≠ dotDot
  slash_not_mem : slash ∉ element

variable {path : List Text} {data : Text} {c : Char}

theorem foldl_keepElement {rooted : Bool} (kept : List Text)
    (hplain : ∀ element ∈ path, PlainElement element) :
    path.foldl (keepElement rooted) kept = path.reverse ++ kept := by
  induction path generalizing kept with
  | nil => rfl
  | cons element rest ih =>
    rw [List.forall_mem_cons] at hplain
    obtain ⟨⟨hempty, hdot, hdotDot, -⟩, hrest⟩ := hplain
    have hkeep : keepElement rooted kept element = element :: kept := by
      simp [keepElement, hempty, hdot, hdotDot]
    rw [List.foldl_cons, hkeep, ih _ hrest, List.reverse_cons, List.append_assoc,
      List.singleton_append]

theorem splitOn_join (hpath : path ≠ []) (hplain : ∀ element ∈ path, PlainElement element) :
    ([slash].intercalate path).splitOn slash = path :=
  List.splitOn_intercalate slash (fun element hmem => (hplain element hmem).slash_not_mem) hpath

/-- The elements of a path are made of its other bytes. -/
theorem mem_splitOn {path element : Text} (hmem : element ∈ path.splitOn slash) :
    slash ∉ element ∧ element ⊆ path := by
  induction path generalizing element with
  | nil =>
    obtain rfl : element = [] := by simpa using hmem
    simp
  | cons byte rest ih =>
    rw [List.splitOn, List.splitOnP_cons_eq_if_modifyHead, ← List.splitOn] at hmem
    split_ifs at hmem with hbyte
    · rcases List.mem_cons.mp hmem with rfl | hmem
      · simp
      · obtain ⟨hslash, hsubset⟩ := ih hmem
        exact ⟨hslash, fun other hother => List.mem_cons_of_mem byte (hsubset hother)⟩
    · have hne : slash ≠ byte := fun heq => hbyte (by simp [heq])
      rcases hsplit : rest.splitOn slash with _ | ⟨first, others⟩
      · exact absurd hsplit (List.splitOnP_ne_nil _ _)
      · rw [hsplit] at hmem ih
        -- The byte goes to the first element of the rest.
        rcases List.mem_cons.mp hmem with rfl | hmem
        · obtain ⟨hslash, hsubset⟩ := ih List.mem_cons_self
          exact ⟨by simp [hne, hslash], List.cons_subset_cons byte hsubset⟩
        · obtain ⟨hslash, hsubset⟩ := ih (List.mem_cons_of_mem first hmem)
          exact ⟨hslash, fun other hother => List.mem_cons_of_mem byte (hsubset hother)⟩

theorem mem_join {byte : UInt8} (hmem : byte ∈ [slash].intercalate path) :
    byte = slash ∨ ∃ element ∈ path, byte ∈ element := by
  induction path with
  | nil => simp at hmem
  | cons element rest ih =>
    cases rest with
    | nil => exact .inr ⟨element, List.mem_singleton_self _, by simpa using hmem⟩
    | cons next rest =>
      rw [List.intercalate_cons_cons, List.mem_append, List.mem_append, List.mem_singleton] at hmem
      rcases hmem with (helement | hslash) | hrest
      · exact .inr ⟨element, List.mem_cons_self, helement⟩
      · exact .inl hslash
      · obtain hslash | ⟨other, hother, hbyte⟩ := ih hrest
        · exact .inl hslash
        · exact .inr ⟨other, List.mem_cons_of_mem element hother, hbyte⟩

/-- Joined plain elements start with the first byte of the first one. -/
theorem head?_join (hpath : path ≠ []) (hplain : ∀ element ∈ path, PlainElement element) :
    ∃ byte, ([slash].intercalate path).head? = some byte ∧ byte ≠ slash := by
  obtain ⟨element, rest, rfl⟩ := List.exists_cons_of_ne_nil hpath
  obtain ⟨hempty, -, -, hslash⟩ := hplain element List.mem_cons_self
  obtain ⟨byte, more, rfl⟩ := List.exists_cons_of_ne_nil hempty
  refine ⟨byte, ?_, fun hbyte => hslash (hbyte ▸ List.mem_cons_self)⟩
  cases rest with
  | nil => simp
  | cons next rest => simp [List.intercalate_cons_cons]

/-- A path of plain elements is clean. -/
theorem pathClean_join (hpath : path ≠ []) (hplain : ∀ element ∈ path, PlainElement element) :
    pathClean ([slash].intercalate path) = [slash].intercalate path := by
  obtain ⟨byte, hhead, hbyte⟩ := head?_join hpath hplain
  have hrelative : isAbs ([slash].intercalate path) = false := by
    rw [isAbs, hhead]
    simpa using hbyte
  have hne : [slash].intercalate path ≠ [] := by
    intro hempty
    rw [hempty] at hhead
    cases hhead
  rw [pathClean, hrelative, splitOn_join hpath hplain, foldl_keepElement [] hplain]
  simp [hne]

/-! ## Hexadecimal -/

/-- The digits of some bytes, two each. -/
def hexChars (data : Text) : List Char :=
  data.flatMap fun byte => [hexDigit (byte.toNat / 16), hexDigit (byte.toNat % 16)]

/-- `hex.EncodeToString` -/
def hexEncode (data : Text) : Text := utf8 (hexChars data)

theorem length_hexChars (data : Text) : (hexChars data).length = 2 * data.length := by
  induction data with
  | nil => rfl
  | cons byte data ih =>
    rw [hexChars, List.flatMap_cons, List.length_append, List.length_cons, ← hexChars, ih]
    simp only [List.length_cons, List.length_nil]
    omega

/-- A lower-case hexadecimal digit. -/
def isHexDigit (c : Char) : Bool := c.isDigit || ('a' ≤ c && c ≤ 'f')

theorem exists_of_mem_hexChars (hc : c ∈ hexChars data) :
    ∃ n < 16, c = hexDigit n := by
  obtain ⟨byte, -, hc⟩ := List.mem_flatMap.mp hc
  have hbyte : byte.toNat < 256 := byte.toNat_lt
  simp only [List.mem_cons, List.not_mem_nil, or_false] at hc
  rcases hc with rfl | rfl
  · exact ⟨_, by omega, rfl⟩
  · exact ⟨_, by omega, rfl⟩

theorem isHexDigit_of_mem_hexChars (hc : c ∈ hexChars data) :
    isHexDigit c := by
  have hall : ∀ n < 16, isHexDigit (hexDigit n) := by decide
  obtain ⟨n, hn, rfl⟩ := exists_of_mem_hexChars hc
  exact hall n hn

theorem length_hexEncode (data : Text) : (hexEncode data).length = 2 * data.length := by
  have hall : ∀ n < 16, (hexDigit n).toNat < 0x80 := by decide
  rw [hexEncode, length_utf8_of_ascii, length_hexChars]
  intro c hc
  obtain ⟨n, hn, rfl⟩ := exists_of_mem_hexChars hc
  exact hall n hn

theorem hexChars_injective : Function.Injective hexChars := by
  have hdigit : ∀ m < 16, ∀ n < 16, hexDigit m = hexDigit n → m = n := by decide
  intro data data' heq
  induction data generalizing data' with
  | nil =>
    cases data' with
    | nil => rfl
    | cons byte data' => cases heq
  | cons byte data ih =>
    cases data' with
    | nil => cases heq
    | cons byte' data' =>
      have hbyte : byte.toNat < 256 := byte.toNat_lt
      have hbyte' : byte'.toNat < 256 := byte'.toNat_lt
      simp only [hexChars, List.flatMap_cons, List.cons_append, List.nil_append,
        List.cons.injEq] at heq
      obtain ⟨hhigh, hlow, hrest⟩ := heq
      have hhigh := hdigit _ (by omega) _ (by omega) hhigh
      have hlow := hdigit _ (by omega) _ (by omega) hlow
      have hsame : byte = byte' := UInt8.toNat_inj.mp (by omega)
      rw [hsame, ih hrest]

theorem hexEncode_injective : Function.Injective hexEncode :=
  utf8_injective.comp hexChars_injective

/-- `binary.BigEndian.PutUint64` -/
def bigEndian64 (value : Nat) : Text :=
  (List.range 8).map fun position => UInt8.ofNat (value / 256 ^ (7 - position) % 256)

theorem length_bigEndian64 (value : Nat) : (bigEndian64 value).length = 8 := by
  simp [bigEndian64]

theorem bigEndian64_inj {value value' : Nat} (hvalue : value < 2 ^ 64) (hvalue' : value' < 2 ^ 64)
    (heq : bigEndian64 value = bigEndian64 value') : value = value' := by
  have hbyte (position : Nat) (hposition : position < 8) :
      value / 256 ^ (7 - position) % 256 = value' / 256 ^ (7 - position) % 256 := by
    have hsame := congrArg (·[position]?) heq
    simp only [bigEndian64, List.getElem?_map, List.getElem?_range hposition, Option.map_some,
      Option.some.injEq] at hsame
    have := congrArg UInt8.toNat hsame
    simpa [UInt8.toNat_ofNat'] using this
  have h0 := hbyte 0 (by decide)
  have h1 := hbyte 1 (by decide)
  have h2 := hbyte 2 (by decide)
  have h3 := hbyte 3 (by decide)
  have h4 := hbyte 4 (by decide)
  have h5 := hbyte 5 (by decide)
  have h6 := hbyte 6 (by decide)
  have h7 := hbyte 7 (by decide)
  norm_num at h0 h1 h2 h3 h4 h5 h6 h7
  omega

/-! ## Times -/

/-- Year, month and day of the `days`-th day after 1 January of year 1, in the
proleptic Gregorian calendar. The computation counts from 1 March of year 0, so
that a leap day is the last of its year. -/
def civil (days : Int) : Int × Nat × Nat :=
  let sinceMarch := days + 306
  let era := sinceMarch / 146097
  let dayOfEra := (sinceMarch % 146097).toNat
  let yearOfEra :=
    (dayOfEra - dayOfEra / 1460 + dayOfEra / 36524 - dayOfEra / 146096) / 365
  let dayOfYear := dayOfEra - (365 * yearOfEra + yearOfEra / 4 - yearOfEra / 100)
  let shifted := (5 * dayOfYear + 2) / 153
  let day := dayOfYear - (153 * shifted + 2) / 5 + 1
  let month := if shifted < 10 then shifted + 3 else shifted - 9
  (era * 400 + yearOfEra + (if month ≤ 2 then 1 else 0), month, day)

/-- A numeral with zeros in front. -/
def padded (width n : Nat) : List Char := (Nat.toDigits 10 n).leftpad width '0'

/-- The year of a time in nanoseconds since the first of year 1. -/
def yearOf (time : Int) : Int := (civil (time / 1000000000 / 86400)).1

/-- A time in nanoseconds since the first of year 1, in UTC, as
`time.RFC3339Nano` formats it. -/
def rfc3339 (time : Int) : List Char :=
  let seconds := time / 1000000000
  let nanoseconds := (time % 1000000000).toNat
  let secondOfDay := (seconds % 86400).toNat
  let date := civil (seconds / 86400)
  let fraction := ((padded 9 nanoseconds).reverse.dropWhile (· == '0')).reverse
  padded 4 date.1.toNat ++ '-' :: padded 2 date.2.1 ++ '-' :: padded 2 date.2.2 ++
    'T' :: padded 2 (secondOfDay / 3600) ++ ':' :: padded 2 (secondOfDay / 60 % 60) ++
    ':' :: padded 2 (secondOfDay % 60) ++
    (if fraction.isEmpty then [] else '.' :: fraction) ++ ['Z']

example : rfc3339 0 = "0001-01-01T00:00:00Z".toList := by decide +kernel

example : rfc3339 (62135596800 * 1000000000 + 951782400 * 1000000000 + 500000000) =
    "2000-02-29T00:00:00.5Z".toList := by decide +kernel

end NixConfig.Data
