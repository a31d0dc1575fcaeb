/-
# The numbers of a probe

`ffprobe` reports times as decimals and rates as fractions, both in text. A time
becomes milliseconds, rounded half away from zero; a rate becomes a fraction in
lowest terms. Both must fit in 64 bits.

What the two parsers compute is stated over the numeral trees: a parser returns
a number exactly for the text of a tree, and it is the number that the tree
denotes.
-/

import NixConfig.Data.Decimal
import NixConfig.Data.Int64
import NixConfig.Data.Rounding
import NixConfig.MediaRepair.Controller

namespace NixConfig.MediaRepair.FFProbe

open Data

/-! ## Reading numbers with `math/big` -/

def minusByte : UInt8 := 0x2D

def plusByte : UInt8 := 0x2B

/-- Whether the first byte is a sign. -/
def hasSign (value : Text) : Bool :=
  value.head? == some minusByte || value.head? == some plusByte

/-- The text after the sign. -/
def unsigned (value : Text) : Text := value.drop (if hasSign value then 1 else 0)

/-- What a sign in front of the text multiplies by. -/
def signUnit (value : Text) : ℤ := if value.head? == some minusByte then -1 else 1

/-- The state of a scan: the digits so far as one number, how many there were, and how many
of them stood before the point. -/
structure Scan where
  mantissa : Nat
  count : Nat
  point : Option Nat
  deriving DecidableEq

/-- One byte of a scan in base ten. A point is accepted once, if at all. -/
def scanByte (fracOk : Bool) (scan : Scan) (byte : UInt8) : Option Scan :=
  if 0x30 ≤ byte && byte ≤ 0x39 then
    some ⟨10 * scan.mantissa + (byte.toNat - 0x30), scan.count + 1, scan.point⟩
  else if byte == dot && fracOk && scan.point.isNone then
    some { scan with point := some scan.count }
  else none

/-- The scan of a whole text, which must have a digit. -/
def natScan (fracOk : Bool) (value : Text) : Option Scan :=
  match value.foldlM (scanByte fracOk) ⟨0, 0, none⟩ with
  | some scan => if scan.count = 0 then none else some scan
  | none => none

/-- `big.Int.SetString` in base ten. -/
def intSetString (value : Text) : Option ℤ :=
  (natScan false (unsigned value)).map fun scan => signUnit value * scan.mantissa

/-- The most digits after the point that `big.Rat.SetString` takes, unless all digits are
zero: it refuses to compute a larger power of five. -/
def maxPlaces : Nat := 1000000

/-- `big.Rat.SetString` of a text with no base, exponent or fraction bar, the only texts it is
given. -/
def ratSetString (value : Text) : Option ℚ :=
  match natScan true (unsigned value) with
  | some scan =>
    let places := scan.point.elim 0 (scan.count - ·)
    if scan.mantissa ≠ 0 ∧ maxPlaces < places then none
    else some (signUnit value * scan.mantissa / 10 ^ places)
  | none => none

/-! ## The parsers -/

/-- The loop over the runes of a decimal after its sign: whether a digit was seen, or
nothing when a rune does not belong there. -/
def decimalRunes : Bool → Bool → List (Option Char) → Option Bool
  | _, digitSeen, [] => some digitSeen
  | _, _, none :: _ => none
  | dotSeen, digitSeen, some character :: rest =>
    if character.isDigit then decimalRunes dotSeen true rest
    else if character == '.' && !dotSeen then decimalRunes true digitSeen rest
    else none

def decimalString (value : Text) : Bool :=
  if value = [] then false
  else if unsigned value = [] then false
  else match decimalRunes false false (runes (unsigned value)) with
    | some digitSeen => digitSeen && value.getLast? != some dot
    | none => false

def integerString (value : Text) : Bool :=
  if value = [] then false
  else if unsigned value = [] then false
  else (runes (unsigned value)).all fun character => character.any Char.isDigit

/-- The nearest 64-bit integer, the one farther from zero at a tie. -/
def roundRational (value : ℚ) : Option ℤ :=
  let quotient := value.num.tdiv value.den
  let remainder := value.num.tmod value.den
  let rounded :=
    if (value.den : ℤ) ≤ 2 * |remainder| then
      if value < 0 then quotient - 1 else quotient + 1
    else quotient
  if IsInt64 rounded then some rounded else none

/-- Why a number was refused: it is malformed, or too large. -/
inductive NumberError where
  | invalid (name : String) (value : Text)
  | overflowsMilliseconds (name : String) (value : Text)
  | overflowsRational (name : String) (value : Text)
  deriving DecidableEq

def notAvailable : Text := bytes "N/A"

def parseOptionalMilliseconds (name : String) (value : Option Text) (allowNegative : Bool) :
    Except NumberError (Option ℤ) :=
  match value with
  | none => .ok none
  | some value =>
    if value = notAvailable then .ok none
    else if !decimalString value then .error (.invalid name value)
    else match ratSetString value with
      | none => .error (.invalid name value)
      | some rational =>
        if !allowNegative && decide (rational < 0) then .error (.invalid name value)
        else match roundRational (rational * 1000) with
          | none => .error (.overflowsMilliseconds name value)
          | some rounded => .ok (some rounded)

def parseOptionalRational (name : String) (value : Option Text) :
    Except NumberError (Option Controller.Rational) :=
  match value with
  | none => .ok none
  | some value =>
    if value = notAvailable ∨ value = bytes "0/0" then .ok none
    else match value.splitOn slash with
      | [numerator, denominator] =>
        if !integerString numerator || !integerString denominator then
          .error (.invalid name value)
        else match intSetString numerator, intSetString denominator with
          | some numerator, some denominator =>
            if denominator = 0 then .error (.invalid name value)
            else
              let rational : ℚ := numerator / denominator
              if IsInt64 rational.num ∧ IsInt64 rational.den then
                .ok (some ⟨rational.num, rational.den⟩)
              else .error (.overflowsRational name value)
          | _, _ => .error (.invalid name value)
      | _ => .error (.invalid name value)

/-! ## Signs -/

theorem exists_sign (value : Text) :
    ∃ sign : Sign, value = utf8 sign.chars ++ unsigned value := by
  rcases value with _ | ⟨byte, rest⟩
  · exact ⟨.absent, rfl⟩
  · by_cases hminus : byte = minusByte
    · subst hminus
      exact ⟨.minus, rfl⟩
    · by_cases hplus : byte = plusByte
      · subst hplus
        exact ⟨.plus, rfl⟩
      · have hsign : hasSign (byte :: rest) = false := by simp [hasSign, hminus, hplus]
        refine ⟨.absent, ?_⟩
        rw [unsigned, hsign]
        rfl

variable {rest : Text} {dotSeen digitSeen seen allowNegative : Bool} {rs : List (Option Char)}
  {name : String} {milliseconds : ℤ} {fraction : Fraction}

/-- A text whose own first byte is no sign, behind a sign. -/
theorem unsigned_append (sign : Sign) (hrest : hasSign rest = false) :
    unsigned (utf8 sign.chars ++ rest) = rest := by
  cases sign with
  | absent =>
    change unsigned rest = rest
    rw [unsigned, hrest]
    rfl
  | plus => rfl
  | minus => rfl

theorem signUnit_append (sign : Sign) (hrest : hasSign rest = false) :
    signUnit (utf8 sign.chars ++ rest) = sign.unit := by
  cases sign with
  | absent =>
    rw [hasSign, Bool.or_eq_false_iff] at hrest
    change signUnit rest = 1
    simp [signUnit, hrest.1]
  | plus => rfl
  | minus => rfl

/-! ## Scanning digits -/

theorem scanByte_digitByte (fracOk : Bool) (scan : Scan) (digit : Fin 10) :
    scanByte fracOk scan (digitByte digit) =
      some ⟨10 * scan.mantissa + digit, scan.count + 1, scan.point⟩ := by
  have hbyte : (0x30 ≤ digitByte digit && digitByte digit ≤ 0x39) = true ∧
      (digitByte digit).toNat - 0x30 = digit := by
    revert digit
    decide
  rw [scanByte, if_pos hbyte.1, hbyte.2]

theorem foldlM_scanByte (fracOk : Bool) (scan : Scan) (digits : List (Fin 10)) :
    (digits.map digitByte).foldlM (scanByte fracOk) scan =
      some ⟨10 ^ digits.length * scan.mantissa + digitsValue digits, scan.count + digits.length,
        scan.point⟩ := by
  induction digits generalizing scan with
  | nil => simp
  | cons digit rest ih =>
    rw [List.map_cons, List.foldlM_cons, scanByte_digitByte, Option.bind_eq_bind, Option.bind_some,
      ih, digitsValue_cons, List.length_cons]
    congr 2
    · ring
    · exact Nat.add_right_comm scan.count 1 rest.length

theorem hasSign_digits {digits : List (Fin 10)} (hdigits : digits ≠ []) :
    hasSign (digits.map digitByte ++ rest) = false := by
  obtain ⟨digit, more, rfl⟩ := List.exists_cons_of_ne_nil hdigits
  have hbyte : ∀ digit, hasSign [digitByte digit] = false := by decide
  exact hbyte digit

/-! ## Numerals -/

variable {value : Text} {rational : Controller.Rational}

theorem integerString_iff :
    integerString value = true ↔ ∃ numeral : Numeral, numeral.text = value := by
  constructor
  · intro hinteger
    rw [integerString] at hinteger
    split_ifs at hinteger with _ hunsigned
    obtain ⟨digits, hrunes⟩ := all_isDigit.mp hinteger
    obtain ⟨sign, hsign⟩ := exists_sign value
    rw [eq_utf8_of_runes hrunes, ← utf8_append] at hsign
    have hdigits : digits ≠ [] := by
      rintro rfl
      exact hunsigned (eq_utf8_of_runes hrunes)
    exact ⟨⟨sign, digits, hdigits⟩, hsign.symm⟩
  · rintro ⟨⟨sign, digits, hdigits⟩, rfl⟩
    have hrest : hasSign (utf8 (digits.map digitChar)) = false := by
      rw [utf8_digits, ← List.append_nil (digits.map digitByte)]
      exact hasSign_digits hdigits
    have hunsigned := unsigned_append sign hrest
    have hne : utf8 (digits.map digitChar) ≠ [] := by simpa using hdigits
    rw [integerString, Numeral.text, utf8_append, hunsigned,
      if_neg (fun hempty => hne (List.append_eq_nil_iff.mp hempty).2), if_neg hne, runes_utf8]
    exact all_isDigit.mpr ⟨digits, rfl⟩

theorem intSetString_text (numeral : Numeral) : intSetString numeral.text = some numeral.value := by
  obtain ⟨sign, digits, hdigits⟩ := numeral
  have hrest : hasSign (digits.map digitByte) = false := by
    rw [← List.append_nil (digits.map digitByte)]
    exact hasSign_digits hdigits
  have hlength : digits.length ≠ 0 := by simpa using hdigits
  have hscan : natScan false (digits.map digitByte) =
      some ⟨digitsValue digits, digits.length, none⟩ := by
    rw [natScan, foldlM_scanByte]
    simp [hlength]
  rw [intSetString, Numeral.text, utf8_append, utf8_digits, unsigned_append sign hrest,
    signUnit_append sign hrest, hscan]
  rfl

theorem slash_not_mem_text (numeral : Numeral) : slash ∉ numeral.text := by
  have hsign : ∀ sign : Sign, slash ∉ utf8 sign.chars := by
    intro sign
    cases sign <;> decide
  have hdigit : ∀ digit, digitByte digit ≠ slash := by decide
  rw [Numeral.text, utf8_append, utf8_digits, List.mem_append, not_or]
  refine ⟨hsign _, ?_⟩
  simp [hdigit]

/-! ## Decimals -/

theorem decimalRunes_digits (digits : List (Fin 10)) (rest : List Char) :
    decimalRunes dotSeen digitSeen ((digits.map digitChar ++ rest).map some) =
      decimalRunes dotSeen (digitSeen || !digits.isEmpty) (rest.map some) := by
  induction digits generalizing digitSeen with
  | nil => simp
  | cons digit digits ih =>
    rw [List.map_cons, List.cons_append, List.map_cons, decimalRunes,
      if_pos (isDigit_digitChar digit), ih]
    simp

/-- Digits, and after a point, if there was none before, more digits. -/
theorem decimalRunes_eq_some :
    decimalRunes dotSeen digitSeen rs = some seen ↔
      ∃ (whole : List (Fin 10)) (fraction : Option (List (Fin 10))),
        (dotSeen = true → fraction = none) ∧
        rs = (whole.map digitChar ++ fraction.elim [] ('.' :: ·.map digitChar)).map some ∧
        seen = (digitSeen || !(whole ++ fraction.getD []).isEmpty) := by
  constructor
  · intro hloop
    induction rs generalizing dotSeen digitSeen with
    | nil => exact ⟨[], none, fun _ => rfl, rfl, by simpa [decimalRunes] using hloop.symm⟩
    | cons character rest ih =>
      cases character with
      | none => simp [decimalRunes] at hloop
      | some c =>
        rw [decimalRunes] at hloop
        split_ifs at hloop with hc hdot
        · obtain ⟨digit, rfl⟩ := exists_digitChar hc
          obtain ⟨whole, fraction, hdots, rfl, rfl⟩ := ih hloop
          exact ⟨digit :: whole, fraction, hdots, rfl, by simp⟩
        · obtain ⟨rfl, rfl⟩ : c = '.' ∧ dotSeen = false := by simpa using hdot
          obtain ⟨digits, fraction, hdots, rfl, rfl⟩ := ih hloop
          obtain rfl := hdots rfl
          exact ⟨[], some digits, nofun, by simp, by simp⟩
  · rintro ⟨whole, fraction, hdots, rfl, rfl⟩
    rw [decimalRunes_digits]
    cases fraction with
    | none => simp [decimalRunes]
    | some digits =>
      obtain rfl : dotSeen = false := by simpa using hdots
      change decimalRunes true _ ((digits.map digitChar).map some) = _
      rw [← List.append_nil (digits.map digitChar), decimalRunes_digits]
      cases whole <;> simp [decimalRunes]

/-- The bytes of a decimal after its sign. -/
theorem utf8_body (decimal : Decimal) :
    utf8 decimal.body = decimal.whole.map digitByte ++
      decimal.fraction.elim [] (dot :: ·.map digitByte) := by
  rw [Decimal.body, utf8_append, utf8_digits]
  cases decimal.fraction with
  | none => rfl
  | some digits =>
    change _ ++ utf8 ('.' :: digits.map digitChar) = _
    rw [utf8_cons, utf8_digits]
    rfl

theorem hasSign_body (decimal : Decimal) : hasSign (utf8 decimal.body) = false := by
  rw [utf8_body]
  by_cases hwhole : decimal.whole = []
  · -- Without digits in front there is a point.
    have hdigits := decimal.digits_ne_nil
    rw [hwhole] at hdigits ⊢
    cases hfraction : decimal.fraction with
    | none => simp [hfraction] at hdigits
    | some digits => rfl
  · exact hasSign_digits hwhole

/-- A decimal does not end in a point. -/
theorem getLast?_text (decimal : Decimal) : decimal.text.getLast? ≠ some dot := by
  have hdigit : ∀ digit, digitByte digit ≠ dot := by decide
  obtain ⟨sign, whole, fraction, hdigits⟩ := decimal
  -- The last digits are the last bytes.
  obtain ⟨before, hbefore⟩ : ∃ before,
      Decimal.text ⟨sign, whole, fraction, hdigits⟩ =
        before ++ (fraction.getD whole).map digitByte := by
    rw [Decimal.text, utf8_append, utf8_body]
    cases fraction with
    | none => exact ⟨utf8 sign.chars, by simp⟩
    | some digits =>
      refine ⟨utf8 sign.chars ++ (whole.map digitByte ++ [dot]), ?_⟩
      simp
  rw [hbefore, List.getLast?_append_of_ne_nil _ (by simpa using hdigits), List.getLast?_map]
  intro hlast
  obtain ⟨digit, -, hdot⟩ := Option.map_eq_some_iff.mp hlast
  exact hdigit digit hdot

theorem decimalString_iff :
    decimalString value = true ↔ ∃ decimal : Decimal, decimal.text = value := by
  constructor
  · intro hdecimal
    rw [decimalString] at hdecimal
    split_ifs at hdecimal
    split at hdecimal
    · rename_i seen hloop
      rw [Bool.and_eq_true] at hdecimal
      obtain ⟨hseen, hlast⟩ := hdecimal
      obtain ⟨whole, fraction, -, hrunes, rfl⟩ := decimalRunes_eq_some.mp hloop
      obtain ⟨sign, hsign⟩ := exists_sign value
      rw [eq_utf8_of_runes hrunes, ← utf8_append] at hsign
      have hdigits : fraction.getD whole ≠ [] := by
        cases fraction with
        | none => simpa using hseen
        | some digits =>
          -- With nothing behind the point the text would end in it.
          rintro (rfl : digits = [])
          have hdot : utf8 ['.'] = [dot] := by decide
          rw [hsign, ← List.append_assoc, utf8_append] at hlast
          simp [hdot] at hlast
      exact ⟨⟨sign, whole, fraction, hdigits⟩, hsign.symm⟩
    · cases hdecimal
  · rintro ⟨decimal, rfl⟩
    have hbody : utf8 decimal.body ≠ [] := by
      rw [utf8_body]
      intro hempty
      have hdigits := decimal.digits_ne_nil
      cases hfraction : decimal.fraction with
      | none => simp_all
      | some digits => simp [hfraction] at hempty
    have hseen : decimal.whole ++ decimal.fraction.getD [] ≠ [] := by
      have hdigits := decimal.digits_ne_nil
      cases hfraction : decimal.fraction with
      | none => simpa [hfraction] using hdigits
      | some digits =>
        rw [hfraction] at hdigits
        simp [show digits ≠ [] from hdigits]
    have hloop : decimalRunes false false (runes (utf8 decimal.body)) = some true :=
      decimalRunes_eq_some.mpr ⟨_, _, nofun, runes_utf8 _, by simpa using hseen⟩
    have hunsigned : unsigned decimal.text = utf8 decimal.body := by
      rw [Decimal.text, utf8_append, unsigned_append _ (hasSign_body decimal)]
    have htext : decimal.text ≠ [] := by
      intro hempty
      rw [hempty] at hunsigned
      exact hbody hunsigned.symm
    rw [decimalString, if_neg htext, hunsigned, if_neg hbody, hloop]
    simpa using getLast?_text decimal

/-- Scanning a decimal gives all of its digits as one number, and where the point stood. -/
theorem natScan_body (decimal : Decimal) :
    natScan true (utf8 decimal.body) =
      some ⟨digitsValue (decimal.whole ++ decimal.places),
        decimal.whole.length + decimal.places.length,
        decimal.fraction.map fun _ => decimal.whole.length⟩ := by
  obtain ⟨sign, whole, fraction, hdigits⟩ := decimal
  rw [natScan, utf8_body]
  cases fraction with
  | none =>
    have hlength : whole.length ≠ 0 := by simpa using hdigits
    simp [foldlM_scanByte, Decimal.places, hlength]
  | some digits =>
    have hlength : digits.length ≠ 0 := by simpa using hdigits
    have hdot : ∀ scan : Scan, scan.point = none →
        scanByte true scan dot = some { scan with point := some scan.count } := by
      intro scan hpoint
      rw [scanByte, if_neg (by decide), if_pos (by simp [hpoint])]
    simp [List.foldlM_append, foldlM_scanByte, hdot, Decimal.places, digitsValue_append, hlength]

/-- The digits after the point can be read: there are not too many, unless the number is
zero. -/
def Readable (decimal : Decimal) : Prop :=
  decimal.value = 0 ∨ decimal.places.length ≤ maxPlaces

instance (decimal : Decimal) : Decidable (Readable decimal) :=
  inferInstanceAs (Decidable (_ ∨ _))

theorem ratSetString_text (decimal : Decimal) :
    ratSetString decimal.text = if Readable decimal then some decimal.value else none := by
  have hplaces : (decimal.fraction.map fun _ => decimal.whole.length).elim 0
      (decimal.whole.length + decimal.places.length - ·) = decimal.places.length := by
    rw [Decimal.places]
    cases decimal.fraction with
    | none => rfl
    | some digits => simp
  rw [ratSetString, Decimal.text, utf8_append, unsigned_append _ (hasSign_body decimal),
    signUnit_append _ (hasSign_body decimal), natScan_body]
  simp only [hplaces]
  by_cases hreadable : Readable decimal
  · rw [if_pos hreadable, if_neg, Decimal.value_eq]
    rintro ⟨hvalue, hmany⟩
    rcases hreadable with hzero | hfew
    · exact hvalue (Decimal.value_eq_zero.mp hzero)
    · omega
  · rw [if_neg hreadable, if_pos]
    rw [Readable, not_or, not_le] at hreadable
    exact ⟨fun hzero => hreadable.1 (Decimal.value_eq_zero.mpr hzero), hreadable.2⟩

/-! ## What the parsers return -/

theorem roundRational_eq (value : ℚ) :
    roundRational value =
      if IsInt64 (roundHalfAway value) then some (roundHalfAway value) else none := by
  rw [roundHalfAway_eq_tdiv]
  rfl

theorem not_decimalString_notAvailable : decimalString notAvailable = false := by decide

/-- What becomes of a decimal. -/
theorem parseOptionalMilliseconds_text (name : String) (decimal : Decimal) (allowNegative : Bool) :
    parseOptionalMilliseconds name (some decimal.text) allowNegative =
      if Readable decimal ∧ (allowNegative = true ∨ 0 ≤ decimal.value) then
        if IsInt64 (roundHalfAway (1000 * decimal.value)) then
          .ok (some (roundHalfAway (1000 * decimal.value)))
        else .error (.overflowsMilliseconds name decimal.text)
      else .error (.invalid name decimal.text) := by
  have hdecimal : decimalString decimal.text = true := decimalString_iff.mpr ⟨decimal, rfl⟩
  have hvalue : decimal.text ≠ notAvailable := by
    intro hvalue
    rw [hvalue, not_decimalString_notAvailable] at hdecimal
    cases hdecimal
  have hsign : (!allowNegative && decide (decimal.value < 0)) = true ↔
      ¬(allowNegative = true ∨ 0 ≤ decimal.value) := by
    simp
  rw [parseOptionalMilliseconds, if_neg hvalue, hdecimal, ratSetString_text]
  by_cases hreadable : Readable decimal
  · by_cases hallowed : allowNegative = true ∨ 0 ≤ decimal.value
    · simp only [if_pos hreadable, if_pos (And.intro hreadable hallowed),
        if_neg (not_not.mpr hallowed ∘ hsign.mp), roundRational_eq, mul_comm decimal.value]
      by_cases hfits : IsInt64 (roundHalfAway (1000 * decimal.value))
      · simp [hfits]
      · simp [hfits]
    · simp [hreadable, hallowed, hsign.mpr hallowed]
  · simp [hreadable]

/-- A text that is no decimal gives no number. -/
theorem parseOptionalMilliseconds_other (hother : decimalString value = false) :
    parseOptionalMilliseconds name (some value) allowNegative =
      if value = notAvailable then .ok none else .error (.invalid name value) := by
  rw [parseOptionalMilliseconds, hother]
  rfl

/-- When a decimal is accepted, and what is returned for it. -/
theorem parseOptionalMilliseconds_text_ok {decimal : Decimal} {result : Option ℤ} :
    parseOptionalMilliseconds name (some decimal.text) allowNegative = .ok result ↔
      Readable decimal ∧ (allowNegative = true ∨ 0 ≤ decimal.value) ∧
        IsInt64 (roundHalfAway (1000 * decimal.value)) ∧
        some (roundHalfAway (1000 * decimal.value)) = result := by
  rw [parseOptionalMilliseconds_text]
  split_ifs <;> simp_all

theorem parseOptionalMilliseconds_eq_some :
    parseOptionalMilliseconds name (some value) allowNegative = .ok (some milliseconds) ↔
      ∃ decimal : Decimal, decimal.text = value ∧ Readable decimal ∧
        (allowNegative = true ∨ 0 ≤ decimal.value) ∧
        milliseconds = roundHalfAway (1000 * decimal.value) ∧ IsInt64 milliseconds := by
  constructor
  · intro hparse
    cases hdecimal : decimalString value with
    | false =>
      rw [parseOptionalMilliseconds_other hdecimal] at hparse
      split at hparse <;> cases hparse
    | true =>
      obtain ⟨decimal, rfl⟩ := decimalString_iff.mp hdecimal
      obtain ⟨hreadable, hallowed, hfits, ⟨⟩⟩ := parseOptionalMilliseconds_text_ok.mp hparse
      exact ⟨decimal, rfl, hreadable, hallowed, rfl, hfits⟩
  · rintro ⟨decimal, rfl, hreadable, hallowed, rfl, hfits⟩
    exact parseOptionalMilliseconds_text_ok.mpr ⟨hreadable, hallowed, hfits, rfl⟩

theorem parseOptionalMilliseconds_eq_none :
    parseOptionalMilliseconds name (some value) allowNegative = .ok none ↔
      value = notAvailable := by
  constructor
  · intro hparse
    cases hdecimal : decimalString value with
    | false =>
      rw [parseOptionalMilliseconds_other hdecimal] at hparse
      split at hparse
      · assumption
      · cases hparse
    | true =>
      obtain ⟨decimal, rfl⟩ := decimalString_iff.mp hdecimal
      obtain ⟨-, -, -, ⟨⟩⟩ := parseOptionalMilliseconds_text_ok.mp hparse
  · rintro rfl
    rw [parseOptionalMilliseconds_other not_decimalString_notAvailable, if_pos rfl]

/-- A text with one bar, whose two halves are numerals. -/
theorem splitOn_eq_pair {first second : Text} :
    value.splitOn slash = [first, second] ↔
      value = first ++ slash :: second ∧ slash ∉ first ∧ slash ∉ second := by
  constructor
  · intro hsplit
    have hjoin : [slash].intercalate (value.splitOn slash) = value := List.intercalate_splitOn slash
    have hmem : ∀ part ∈ [first, second], slash ∉ part := by
      intro part hpart
      exact (mem_splitOn (hsplit ▸ hpart)).1
    rw [hsplit] at hjoin
    refine ⟨?_, hmem first (by simp), hmem second (by simp)⟩
    rw [← hjoin]
    simp [List.intercalate_cons_cons]
  · rintro ⟨rfl, hfirst, hsecond⟩
    have hparts : ∀ part ∈ [first, second], slash ∉ part := by simp [hfirst, hsecond]
    have hsplit := List.splitOn_intercalate slash hparts (by simp)
    simpa [List.intercalate_cons_cons] using hsplit

theorem parseOptionalRational_eq_some :
    parseOptionalRational name (some value) = .ok (some rational) ↔
      ∃ fraction : Fraction, fraction.text = value ∧
        IsInt64 fraction.value.num ∧ IsInt64 fraction.value.den ∧
        rational = ⟨fraction.value.num, fraction.value.den⟩ := by
  constructor
  · intro hparse
    rw [parseOptionalRational] at hparse
    split at hparse
    · cases hparse
    split at hparse
    · rename_i first second hsplit
      obtain ⟨rfl, hfirst, hsecond⟩ := splitOn_eq_pair.mp hsplit
      split_ifs at hparse with hintegers
      have hintegers : integerString first = true ∧ integerString second = true := by
        simpa using hintegers
      obtain ⟨numerator, rfl⟩ := integerString_iff.mp hintegers.1
      obtain ⟨denominator, rfl⟩ := integerString_iff.mp hintegers.2
      simp only [intSetString_text] at hparse
      split at hparse
      · cases hparse
      rename_i hzero
      split at hparse
      · rename_i hfits
        cases hparse
        exact ⟨⟨numerator, denominator, hzero⟩, rfl, hfits.1, hfits.2, rfl⟩
      · cases hparse
    · cases hparse
  · rintro ⟨⟨numerator, denominator, hzero⟩, rfl, hnum, hden, rfl⟩
    have hsplit : (Fraction.text ⟨numerator, denominator, hzero⟩).splitOn slash =
        [numerator.text, denominator.text] :=
      splitOn_eq_pair.mpr ⟨rfl, slash_not_mem_text _, slash_not_mem_text _⟩
    have hnumerator : integerString numerator.text = true := integerString_iff.mpr ⟨_, rfl⟩
    have hdenominator : integerString denominator.text = true := integerString_iff.mpr ⟨_, rfl⟩
    have hvalue : ¬(Fraction.text ⟨numerator, denominator, hzero⟩ = notAvailable ∨
        Fraction.text ⟨numerator, denominator, hzero⟩ = bytes "0/0") := by
      rintro (hunavailable | hunknown)
      · -- The halves of "N/A" are no integers.
        have hhalves : notAvailable.splitOn slash = [bytes "N", bytes "A"] := by decide
        rw [hunavailable, hhalves] at hsplit
        rw [← (List.cons.inj hsplit).1] at hnumerator
        exact absurd hnumerator (by decide)
      · have hhalves : (bytes "0/0").splitOn slash = [bytes "0", bytes "0"] := by decide
        have hread : intSetString (bytes "0") = some 0 := by decide
        rw [hunknown, hhalves] at hsplit
        have hsecond := (List.cons.inj (List.cons.inj hsplit).2).1
        rw [hsecond, intSetString_text] at hread
        exact hzero (Option.some.inj hread)
    rw [parseOptionalRational, if_neg hvalue, hsplit]
    simp only [hnumerator, hdenominator, intSetString_text]
    rw [if_neg (by decide), if_neg hzero]
    exact if_pos ⟨hnum, hden⟩

/-! ## Exactness -/

/-- A text denotes one fraction. -/
theorem fraction_value_eq {fraction' : Fraction} (htext : fraction.text = fraction'.text) :
    fraction.value = fraction'.value := by
  have hsplit : ∀ fraction : Fraction,
      fraction.text.splitOn slash = [fraction.numerator.text, fraction.denominator.text] := by
    intro fraction
    exact splitOn_eq_pair.mpr ⟨rfl, slash_not_mem_text _, slash_not_mem_text _⟩
  have hread : ∀ {numeral numeral' : Numeral}, numeral.text = numeral'.text →
      numeral.value = numeral'.value := by
    intro numeral numeral' hsame
    have hvalue := intSetString_text numeral
    rw [hsame, intSetString_text] at hvalue
    exact (Option.some.inj hvalue).symm
  have hhalves := hsplit fraction
  rw [htext, hsplit fraction', List.cons.injEq, List.cons.injEq] at hhalves
  rw [Fraction.value, Fraction.value, hread hhalves.1, hread hhalves.2.1]

/-- The result is in lowest terms over a positive denominator, and it is the number that the
text denotes. -/
theorem reduced_of_parseOptionalRational
    (hparse : parseOptionalRational name (some fraction.text) = .ok (some rational)) :
    rational = ⟨fraction.value.num, fraction.value.den⟩ ∧ 0 < rational.denominator ∧
      Int.gcd rational.numerator rational.denominator = 1 := by
  obtain ⟨fraction', htext, -, -, rfl⟩ := parseOptionalRational_eq_some.mp hparse
  rw [fraction_value_eq htext]
  refine ⟨rfl, ?_, ?_⟩
  · exact Int.natCast_pos.mpr fraction.value.den_pos
  · exact fraction.value.reduced

/-- A time is accepted exactly if it is a decimal that can be read, is not negative where that
is not allowed, and fits in 64 bits as milliseconds; the result is then the number of
milliseconds, rounded half away from zero, so that later times are never given fewer. A rate
is accepted exactly if it is a fraction that fits in 64 bits in lowest terms, and two
accepted rates are given the same fraction exactly if they denote the same number. -/
theorem probe_numbers_exact :
    (∀ (name : String) (value : Text) (allowNegative : Bool) (milliseconds : ℤ),
      parseOptionalMilliseconds name (some value) allowNegative = .ok (some milliseconds) ↔
        ∃ decimal : Decimal, decimal.text = value ∧ Readable decimal ∧
          (allowNegative = true ∨ 0 ≤ decimal.value) ∧
          milliseconds = roundHalfAway (1000 * decimal.value) ∧ IsInt64 milliseconds) ∧
    (∀ (name : String) (value : Text) (allowNegative : Bool),
      parseOptionalMilliseconds name (some value) allowNegative = .ok none ↔
        value = notAvailable) ∧
    (∀ (name name' : String) (decimal decimal' : Decimal) (allowNegative allowNegative' : Bool)
        (milliseconds milliseconds' : ℤ),
      parseOptionalMilliseconds name (some decimal.text) allowNegative = .ok (some milliseconds) →
      parseOptionalMilliseconds name' (some decimal'.text) allowNegative' =
        .ok (some milliseconds') →
      decimal.value ≤ decimal'.value → milliseconds ≤ milliseconds') ∧
    (∀ (name : String) (value : Text) (rational : Controller.Rational),
      parseOptionalRational name (some value) = .ok (some rational) ↔
        ∃ fraction : Fraction, fraction.text = value ∧
          IsInt64 fraction.value.num ∧ IsInt64 fraction.value.den ∧
          rational = ⟨fraction.value.num, fraction.value.den⟩) ∧
    (∀ (name name' : String) (fraction fraction' : Fraction)
        (rational rational' : Controller.Rational),
      parseOptionalRational name (some fraction.text) = .ok (some rational) →
      parseOptionalRational name' (some fraction'.text) = .ok (some rational') →
      0 < rational.denominator ∧ Int.gcd rational.numerator rational.denominator = 1 ∧
        (rational = rational' ↔ fraction.value = fraction'.value)) := by
  refine ⟨?_, ?_, ?_, ?_, ?_⟩
  · intro name value allowNegative milliseconds
    exact parseOptionalMilliseconds_eq_some
  · intro name value allowNegative
    exact parseOptionalMilliseconds_eq_none
  · intro name name' decimal decimal' allowNegative allowNegative' milliseconds milliseconds'
      hparse hparse' hle
    -- both are the rounded values, and rounding is monotone
    obtain ⟨-, -, -, ⟨⟩⟩ := parseOptionalMilliseconds_text_ok.mp hparse
    obtain ⟨-, -, -, ⟨⟩⟩ := parseOptionalMilliseconds_text_ok.mp hparse'
    exact roundHalfAway_mono (by linarith)
  · intro name value rational
    exact parseOptionalRational_eq_some
  · intro name name' fraction fraction' rational rational' hparse hparse'
    -- a reduced fraction is determined by its value
    obtain ⟨hvalue, hpos, hcoprime⟩ := reduced_of_parseOptionalRational hparse
    obtain ⟨hvalue', -, -⟩ := reduced_of_parseOptionalRational hparse'
    refine ⟨hpos, hcoprime, ?_⟩
    constructor
    · intro hsame
      rw [hvalue, hvalue', Controller.Rational.mk.injEq] at hsame
      exact Rat.ext hsame.1 (by exact_mod_cast hsame.2)
    · intro hsame
      rw [hvalue, hvalue', hsame]

/-- A tie goes up in size, and two texts of one rate are given one fraction. -/
theorem tie_and_equal_rates :
    parseOptionalMilliseconds "start time" (some (bytes "-0.0005")) true = .ok (some (-1)) ∧
    ∃ fraction fraction' : Fraction,
      fraction.text = bytes "-1/-1000" ∧ fraction'.text = bytes "+2/2000" ∧
      parseOptionalRational "frame rate" (some fraction.text) = .ok (some ⟨1, 1000⟩) ∧
      parseOptionalRational "time base" (some fraction'.text) = .ok (some ⟨1, 1000⟩) ∧
      fraction.value = fraction'.value := by
  obtain ⟨htime, -, -, -, hrates⟩ := probe_numbers_exact
  constructor
  · exact (htime _ _ _ _).mpr ⟨⟨.minus, [0], some [0, 0, 0, 5], by decide⟩, by decide,
      .inr (by decide), .inl rfl, by decide +kernel, by decide⟩
  · refine ⟨⟨⟨.minus, [1], by decide⟩, ⟨.minus, [1, 0, 0, 0], by decide⟩, by decide⟩,
      ⟨⟨.plus, [2], by decide⟩, ⟨.absent, [2, 0, 0, 0], by decide⟩, by decide⟩, by decide,
      by decide, by decide +kernel, by decide +kernel, ?_⟩
    exact (hrates "frame rate" "time base" _ _ ⟨1, 1000⟩ ⟨1, 1000⟩ (by decide +kernel)
      (by decide +kernel)).2.2.mp rfl

/-- A small number with too many digits after the point is refused. -/
theorem refused_of_many_places (name : String) {zeros : Nat} (hmany : maxPlaces ≤ zeros) :
    ∃ decimal : Decimal, 0 ≤ decimal.value ∧ IsInt64 (roundHalfAway (1000 * decimal.value)) ∧
      parseOptionalMilliseconds name (some decimal.text) true =
        .error (.invalid name decimal.text) := by
  have hdigits : List.replicate zeros (0 : Fin 10) ++ [1] ≠ [] := by simp
  obtain ⟨decimal, hdecimal⟩ : ∃ decimal : Decimal,
      decimal = ⟨.absent, [], some (List.replicate zeros 0 ++ [1]), hdigits⟩ := ⟨_, rfl⟩
  have hplaces : decimal.places = List.replicate zeros 0 ++ [1] := by rw [hdecimal]; rfl
  have hvalue : decimal.value = digitsValue decimal.places / 10 ^ decimal.places.length := by
    rw [Decimal.value, hdecimal]
    simp [Sign.unit]
  have hnonneg : 0 ≤ decimal.value := by rw [hvalue]; positivity
  have hone : decimal.value ≤ 1 := by
    rw [hvalue]
    apply div_le_one_of_le₀ _ (by positivity)
    exact_mod_cast (digitsValue_lt decimal.places).le
  refine ⟨decimal, hnonneg, ?_, ?_⟩
  · -- Between zero and one second there are a thousand milliseconds.
    have hlow : roundHalfAway 0 ≤ roundHalfAway (1000 * decimal.value) :=
      roundHalfAway_mono (by linarith)
    have hhigh : roundHalfAway (1000 * decimal.value) ≤ roundHalfAway 1000 :=
      roundHalfAway_mono (by linarith)
    have hzero : roundHalfAway 0 = 0 := by decide +kernel
    have hthousand : roundHalfAway 1000 = 1000 := by decide +kernel
    unfold IsInt64 maxInt64
    omega
  · have hunreadable : ¬Readable decimal := by
      rintro (hzero | hfew)
      · rw [Decimal.value_eq_zero, hplaces, ← List.append_assoc, digitsValue_append] at hzero
        simp [digitsValue] at hzero
      · rw [hplaces, List.length_append, List.length_replicate, List.length_singleton] at hfew
        omega
    rw [parseOptionalMilliseconds_text, if_neg fun haccepted => hunreadable haccepted.1]

/-- Not every well-formed decimal that fits is accepted: a negative duration is refused, and so
is a time with more than a million digits after the point. -/
theorem negative_and_long_times_refused :
    (∃ decimal : Decimal, decimal.text = bytes "-1" ∧
      IsInt64 (roundHalfAway (1000 * decimal.value)) ∧
      parseOptionalMilliseconds "duration" (some decimal.text) false =
        .error (.invalid "duration" decimal.text)) ∧
    ∃ decimal : Decimal, 0 ≤ decimal.value ∧ IsInt64 (roundHalfAway (1000 * decimal.value)) ∧
      parseOptionalMilliseconds "start time" (some decimal.text) true =
        .error (.invalid "start time" decimal.text) := by
  refine ⟨⟨⟨.minus, [1], none, by decide⟩, by decide, ?_, ?_⟩, refused_of_many_places _ le_rfl⟩
  · decide +kernel
  · decide +kernel

end NixConfig.MediaRepair.FFProbe
