/-
# Cue sheets

A disc image is cut into tracks at the break points of its cue sheet. Break
points are printed in minutes, seconds and frames, 75 frames to a second; tracks
are cut with start and length in microseconds.

A third of a frame is no whole number of nanoseconds, and neither a start nor a
length is a whole number of microseconds, so what is lost in one text may not be
what is lost in the next. Starts lose 0, 333 or 666 nanoseconds, by the frame
number modulo three; the length from one start to the next makes up for it only
if the second one loses no less than the first.
-/

import Mathlib.Data.List.Chain
import Mathlib.Data.Rat.Floor
import NixConfig.Data.Lines
import NixConfig.Data.Paths
import NixConfig.Semantics.Fallible
import NixConfig.Semantics.Traced

namespace NixConfig.MediaRepair.Cuesheet

open Data Semantics

def maximumTracks : Nat := 99

/-! ## Break points -/

inductive Failure
  /-- `ErrInvalid` -/
  | invalid
  | readBreakpoints
  deriving DecidableEq

structure Breakpoint where
  minutes : Int
  seconds : Int
  frames : Int
  deriving DecidableEq

/-- The time of a break point in seconds. -/
def Breakpoint.time (point : Breakpoint) : ℚ :=
  point.minutes * 60 + point.seconds + point.frames / 75

/-- The time of a break point as `parseBreakpoints` computes it, in nanoseconds of 64
bits. -/
def Breakpoint.start (point : Breakpoint) : Int :=
  addInt64 (addInt64 (mulInt64 point.minutes 60000000000) (mulInt64 point.seconds 1000000000))
    ((mulInt64 point.frames 1000000000).tdiv 75)

def colon : UInt8 := 0x3A

/-- A line of `parseBreakpoints`. -/
def readBreakpoint (line : Text) : Except Failure Breakpoint :=
  match (trimSpace line).splitOn colon with
  | [first, rest] =>
    match rest.splitOn dot with
    | [second, third] =>
      match atoi first, atoi second, atoi third with
      | some minutes, some seconds, some frames =>
        if minutes < 0 ∨ seconds < 0 ∨ 60 ≤ seconds ∨ frames < 0 ∨ 75 ≤ frames then
          .error .invalid
        else .ok ⟨minutes, seconds, frames⟩
      | _, _, _ => .error .invalid
    | _ => .error .invalid
  | _ => .error .invalid

/-- One round of the loop of `parseBreakpoints`, from the starts so far and the last of
them. -/
def addLine (state : List Int × Int) (line : Text) : Except Failure (List Int × Int) := do
  let point ← readBreakpoint line
  if point.start ≤ state.2 ∨ maximumTracks - 1 ≤ state.1.length then throw .invalid
  return (state.1 ++ [point.start], point.start)

def parseBreakpoints (data : Text) : Except Failure (List Int) := do
  let (lines, tooLong) := scanLines data
  let state ← lines.foldlM addLine ([], 0)
  if tooLong then throw .readBreakpoints
  return state.1

/-- The break points that some data has. -/
def breakpoints (data : Text) : List Breakpoint :=
  (scanLines data).1.filterMap fun line => (readBreakpoint line).toOption

/-! ## Cutting -/

/-- `fmt.Sprintf("%06d", n)` -/
def sixDigits (n : Int) : List Char :=
  if n < 0 then '-' :: padded 5 n.natAbs else padded 6 n.natAbs

def cueTime (value : Int) : List Char :=
  let microseconds := value.tdiv 1000
  decimal (microseconds.tdiv 1000000) ++ '.' :: sixDigits (microseconds.tmod 1000000)

/-- A call of ffmpeg for one track. -/
structure Cut where
  seek : List Char
  duration : Option (List Char)
  output : Text

def Cut.arguments (cut : Cut) : List Text :=
  ["-nostdin", "-v", "error", "-n", "-i", "/proc/self/fd/3", "-map", "0:a:0", "-vn", "-sn", "-dn",
    "-map_metadata", "-1", "-map_chapters", "-1", "-ss"].map bytes ++ [utf8 cut.seek] ++
    (match cut.duration with
    | some duration => [bytes "-t", utf8 duration]
    | none => []) ++
    ["-c:a", "flac", "-compression_level", "8"].map bytes ++ [cut.output]

inductive SplitError
  /-- `ErrInvalid` -/
  | invalid
  | cancelled
  /-- `split cue track %d` -/
  | track (number : Nat)

/-- The context, which may be cancelled before a track is cut, and ffmpeg. -/
structure Outside where
  cancelled : Nat → Bool
  runFFmpeg : List Text → Bool

def trackName (index : Nat) : Text := utf8 (padded 2 (index + 1)) ++ bytes ".flac"

/-- The call for the track that starts at `start`, with `rest` the starts after it. -/
def trackCut (destination : Text) (index : Nat) (start : Int) (rest : List Int) : Cut where
  seek := cueTime start
  duration := rest.head?.map fun next => cueTime (subInt64 next start)
  output := pathJoin destination (trackName index)

/-- The loop of `Split`, from some track on. -/
def splitFrom (outside : Outside) (destination : Text) :
    Nat → List Int → Traced Cut SplitError (List Text)
  | _, [] => .quiet (.ok [])
  | index, start :: rest =>
    if outside.cancelled index then .quiet (.error .cancelled)
    else do
      let cut := trackCut destination index start rest
      Traced.call cut
        (if outside.runFFmpeg cut.arguments then .ok () else .error (.track (index + 1)))
      let others ← splitFrom outside destination (index + 1) rest
      return trackName index :: others

def split (outside : Outside) (plan : List Int) (destination : Text) :
    Traced Cut SplitError (List Text) :=
  if plan.length < 2 ∨ maximumTracks < plan.length ∨ ¬ isAbs destination then
    .quiet (.error .invalid)
  else splitFrom outside destination 0 plan

/-- The plan that `Inspect` makes of the break points. -/
def planOf (starts : List Int) : List Int := 0 :: starts

/-! ## What the texts mean -/

/-- The microseconds that a text of seconds and six places stands for. -/
def readTime (text : List Char) : Option Nat :=
  match text.splitOn '.' with
  | [whole, places] =>
    if whole ≠ [] ∧ whole.all Char.isDigit ∧ places.length = 6 ∧ places.all Char.isDigit then
      some (Nat.ofDigitChars 10 whole 0 * 1000000 + Nat.ofDigitChars 10 places 0)
    else none
  | _ => none

/-- A track ends where the next one starts. -/
def Meets (cut next : Cut) : Prop :=
  ∃ duration seek length seek', cut.duration = some duration ∧ readTime cut.seek = some seek ∧
    readTime duration = some length ∧ readTime next.seek = some seek' ∧ seek + length = seek'

/-- Whatever happens while a plan is carried out, each track ends where the next one
starts. -/
def SplitTiles (plan : List Int) : Prop :=
  ∀ outside destination, (split outside plan destination).calls.IsChain Meets

/-! ## Starts -/

/-- What a line that is read is known to hold. -/
structure Breakpoint.Valid (point : Breakpoint) : Prop where
  minutes : 0 ≤ point.minutes
  seconds : 0 ≤ point.seconds ∧ point.seconds < 60
  frames : 0 ≤ point.frames ∧ point.frames < 75

theorem valid_of_readBreakpoint {line : Text} {point : Breakpoint}
    (hread : readBreakpoint line = .ok point) : point.Valid := by
  rw [readBreakpoint] at hread
  split at hread
  · split at hread
    · split at hread
      · split_ifs at hread with hbounds
        cases hread
        push Not at hbounds
        obtain ⟨hminutes, hseconds, hseconds', hframes, hframes'⟩ := hbounds
        exact ⟨hminutes, ⟨hseconds, hseconds'⟩, ⟨hframes, hframes'⟩⟩
      · cases hread
    · cases hread
  · cases hread

/-- What `parseBreakpoints` returns: one start for each line, in order, all of them
after zero. -/
structure Parsed (data : Text) (starts : List Int) : Prop where
  starts_eq : starts = (breakpoints data).map Breakpoint.start
  valid : ∀ point ∈ breakpoints data, point.Valid
  increasing : (planOf starts).Pairwise (· < ·)
  length_le : starts.length < maximumTracks

variable {data : Text} {starts : List Int} {width n : Nat}

theorem parsed_of_parseBreakpoints (hparse : parseBreakpoints data = .ok starts) :
    Parsed data starts := by
  obtain ⟨state, hfold, hend⟩ := bind_eq_ok.mp hparse
  have hstarts : state.1 = starts := by
    split at hend
    · cases hend
    exact Except.ok.inj hend
  -- The loop keeps the starts increasing, and compares a new one with the last.
  have hloop := foldlM_invariant (fun done (state : List Int × Int) =>
    state.1 = (done.filterMap fun line => (readBreakpoint line).toOption).map Breakpoint.start ∧
    (∀ point ∈ done.filterMap fun line => (readBreakpoint line).toOption, point.Valid) ∧
    (planOf state.1).Pairwise (· < ·) ∧ (∀ start ∈ planOf state.1, start ≤ state.2) ∧
    state.1.length < maximumTracks) ?_ ?_ hfold
  · rw [hstarts] at hloop
    exact ⟨hloop.1, hloop.2.1, hloop.2.2.1, hloop.2.2.2.2⟩
  · refine ⟨rfl, by simp, List.pairwise_singleton _ _, ?_, by decide⟩
    intro start hmem
    exact (List.mem_singleton.mp hmem).le
  · rintro done state line next ⟨hmap, hvalid, hincreasing, hlast, hlength⟩ hadd
    obtain ⟨point, hread, hadd⟩ := bind_eq_ok.mp hadd
    split at hadd
    · cases hadd
    rename_i hcheck
    push Not at hcheck
    cases hadd
    have hpoints : ((done ++ [line]).filterMap fun line => (readBreakpoint line).toOption) =
        (done.filterMap fun line => (readBreakpoint line).toOption) ++ [point] := by
      rw [List.filterMap_append]
      simp [hread, Except.toOption]
    refine ⟨?_, ?_, ?_, ?_, ?_⟩
    · rw [hpoints, List.map_append, ← hmap]
      rfl
    · rw [hpoints]
      exact List.forall_mem_append.mpr
        ⟨hvalid, List.forall_mem_singleton.mpr (valid_of_readBreakpoint hread)⟩
    · change (planOf state.1 ++ [point.start]).Pairwise _
      rw [List.pairwise_append]
      refine ⟨hincreasing, List.pairwise_singleton _ _, fun start hstart last hmem => ?_⟩
      rw [List.mem_singleton.mp hmem]
      exact (hlast start hstart).trans_lt hcheck.1
    · intro start hstart
      rcases List.mem_append.mp (show start ∈ planOf state.1 ++ [point.start] from hstart)
        with hstart | hstart
      · exact (hlast start hstart).trans hcheck.1.le
      · exact (List.mem_singleton.mp hstart).le
    · rw [List.length_append, List.length_singleton]
      have hcount := hcheck.2
      unfold maximumTracks at hcount ⊢
      omega

/-! ## Exact times -/

/-- The time of a break point in nanoseconds, without wrapping. -/
def Breakpoint.nanoseconds (point : Breakpoint) : Int :=
  point.minutes * 60000000000 + point.seconds * 1000000000 + point.frames * 1000000000 / 75

theorem floor_time (point : Breakpoint) : ⌊point.time * 10 ^ 9⌋ = point.nanoseconds := by
  have hquotient : point.time * 10 ^ 9 =
      (((point.minutes * 60 + point.seconds) * 75 + point.frames) * 1000000000 : ℤ) / (75 : ℕ) := by
    rw [Breakpoint.time]
    push_cast
    ring
  rw [hquotient, Rat.floor_intCast_div_natCast, Breakpoint.nanoseconds]
  push_cast
  omega

namespace Breakpoint.Valid

variable {point : Breakpoint}

theorem nanoseconds_nonneg (hvalid : point.Valid) : 0 ≤ point.nanoseconds := by
  have hminutes := hvalid.minutes
  have hseconds := hvalid.seconds.1
  have hframes := hvalid.frames.1
  unfold Breakpoint.nanoseconds
  omega

theorem start_eq (hvalid : point.Valid) : point.start = int64 point.nanoseconds := by
  obtain ⟨hframes, hframes'⟩ := hvalid.frames
  obtain ⟨hseconds, hseconds'⟩ := hvalid.seconds
  have hsmall : mulInt64 point.frames 1000000000 = point.frames * 1000000000 :=
    int64_of_isInt64 ⟨by omega, by unfold maxInt64; omega⟩
  have hmiddle : mulInt64 point.seconds 1000000000 = point.seconds * 1000000000 :=
    int64_of_isInt64 ⟨by omega, by unfold maxInt64; omega⟩
  rw [Breakpoint.start, hsmall, hmiddle, Int.tdiv_eq_ediv_of_nonneg (by omega), addInt64, addInt64,
    mulInt64, int64_int64_add, Int.add_assoc, int64_int64_add, ← Int.add_assoc]
  rfl

/-- A start is exact if it fits. -/
theorem start_eq_nanoseconds_iff (hvalid : point.Valid) :
    point.start = point.nanoseconds ↔ point.nanoseconds ≤ maxInt64 := by
  rw [hvalid.start_eq]
  constructor
  · intro heq
    rw [← heq]
    exact (isInt64_int64 _).2
  · intro hfits
    have hnonneg := hvalid.nanoseconds_nonneg
    exact int64_of_isInt64 ⟨by omega, hfits⟩

/-- The nanoseconds that a start loses as a number of microseconds. -/
theorem nanoseconds_mod (hvalid : point.Valid) :
    point.nanoseconds % 1000 = 333 * (point.frames % 3) := by
  have hframes := hvalid.frames.1
  have hthird : point.frames % 3 = 0 ∨ point.frames % 3 = 1 ∨ point.frames % 3 = 2 := by omega
  unfold Breakpoint.nanoseconds
  rcases hthird with hthird | hthird | hthird
  · omega
  · omega
  · omega

end Breakpoint.Valid

/-! ## Texts -/

theorem ofDigitChars_replicate_zero (count : Nat) (digits : List Char) :
    Nat.ofDigitChars 10 (List.replicate count '0' ++ digits) 0 = Nat.ofDigitChars 10 digits 0 := by
  induction count with
  | zero => rfl
  | succ count ih => exact ih

theorem isDigit_of_mem_padded {c : Char} (hmem : c ∈ padded width n) :
    c.isDigit = true := by
  rcases List.mem_append.mp hmem with hmem | hmem
  · rw [(List.mem_replicate.mp hmem).2]
    rfl
  · exact Nat.isDigit_of_mem_toDigits (by decide) (le_refl 10) hmem

theorem ofDigitChars_padded (width n : Nat) : Nat.ofDigitChars 10 (padded width n) 0 = n := by
  rw [padded, List.leftpad, ofDigitChars_replicate_zero, Nat.ofDigitChars_ten_toDigits]

theorem length_padded (hwidth : 0 < width) (hn : n < 10 ^ width) :
    (padded width n).length = width := by
  have hlength := (Nat.length_toDigits_le_iff (by decide) hwidth).mpr hn
  rw [padded, List.leftpad, List.length_append, List.length_replicate]
  omega

theorem readTime_of_digits {whole places : List Char} (hne : whole ≠ [])
    (hwhole : ∀ c ∈ whole, c.isDigit = true) (hlength : places.length = 6)
    (hplaces : ∀ c ∈ places, c.isDigit = true) :
    readTime (whole ++ '.' :: places) =
      some (Nat.ofDigitChars 10 whole 0 * 1000000 + Nat.ofDigitChars 10 places 0) := by
  have hpoint : ∀ cs : List Char, (∀ c ∈ cs, c.isDigit = true) → '.' ∉ cs := by
    intro cs hdigits hmem
    exact absurd (hdigits '.' hmem) (by decide)
  have hsplit : (whole ++ '.' :: places).splitOn '.' = [whole, places] := by
    have hjoin : whole ++ '.' :: places = ['.'].intercalate [whole, places] := by
      simp [List.intercalate, List.intersperse]
    rw [hjoin]
    refine List.splitOn_intercalate '.' (fun part hpart => ?_) (by simp)
    rcases List.mem_cons.mp hpart with rfl | hpart
    · exact hpoint _ hwhole
    · rw [List.mem_singleton.mp hpart]
      exact hpoint _ hplaces
  rw [readTime, hsplit]
  exact if_pos ⟨hne, List.all_eq_true.mpr hwhole, hlength, List.all_eq_true.mpr hplaces⟩

/-- A text says a time up to the microsecond. -/
theorem readTime_cueTime {value : Int} (hvalue : 0 ≤ value) :
    readTime (cueTime value) = some (value.toNat / 1000) := by
  obtain ⟨n, rfl⟩ := Int.eq_ofNat_of_zero_le hvalue
  have htext : cueTime n = Nat.toDigits 10 (n / 1000 / 1000000) ++
      '.' :: padded 6 (n / 1000 % 1000000) := by
    have hmicroseconds : (n : Int).tdiv 1000 = ((n / 1000 : Nat) : Int) := rfl
    rw [cueTime, hmicroseconds]
    have hwhole : ((n / 1000 : Nat) : Int).tdiv 1000000 = ((n / 1000 / 1000000 : Nat) : Int) := rfl
    have hrest : ((n / 1000 : Nat) : Int).tmod 1000000 = ((n / 1000 % 1000000 : Nat) : Int) := rfl
    simp only [hwhole, hrest]
    rfl
  have hdigits : ∀ c ∈ Nat.toDigits 10 (n / 1000 / 1000000), c.isDigit = true :=
    fun c hc => Nat.isDigit_of_mem_toDigits (by decide) (le_refl 10) hc
  have hplaces : n / 1000 % 1000000 < 10 ^ 6 := Nat.mod_lt _ (by decide)
  rw [htext, readTime_of_digits Nat.toDigits_ne_nil hdigits (length_padded (by decide) hplaces)
    (fun c hc => isDigit_of_mem_padded hc), Nat.ofDigitChars_ten_toDigits, ofDigitChars_padded]
  have htoNat : (n : Int).toNat = n := Int.toNat_natCast n
  rw [htoNat]
  congr 1
  omega

/-! ## Tracks that meet -/

/-- The length of a track, cut to microseconds, reaches the next track if the start loses
no more than the next one. -/
theorem meets_trackCut {destination : Text} {index : Nat} {start next : Int} {rest rest' : List Int}
    (hstart : 0 ≤ start) (hless : start < next) (hnext : next ≤ maxInt64) :
    Meets (trackCut destination index start (next :: rest))
        (trackCut destination (index + 1) next rest') ↔ start % 1000 ≤ next % 1000 := by
  have hlength : subInt64 next start = next - start :=
    subInt64_of_nonneg (by omega) hnext hstart (by omega)
  have hread := readTime_cueTime hstart
  have hread' := readTime_cueTime (show (0 : Int) ≤ next by omega)
  have hreadLength := readTime_cueTime (show 0 ≤ next - start by omega)
  constructor
  · rintro ⟨duration, seek, length, seek', hduration, hseek, hlen, hseek', hsum⟩
    have hduration : some (cueTime (subInt64 next start)) = some duration := hduration
    rw [hlength] at hduration
    cases hduration
    have hseek : readTime (cueTime start) = some seek := hseek
    have hseek' : readTime (cueTime next) = some seek' := hseek'
    rw [hread] at hseek
    rw [hread'] at hseek'
    rw [hreadLength] at hlen
    cases hseek
    cases hseek'
    cases hlen
    omega
  · intro hmod
    refine ⟨cueTime (next - start), _, _, _, ?_, hread, hreadLength, hread', ?_⟩
    · exact congrArg (fun length => some (cueTime length)) hlength
    · omega

/-- All the calls for a plan, from some track on. -/
def cutsFrom (destination : Text) : Nat → List Int → List Cut
  | _, [] => []
  | index, start :: rest =>
    trackCut destination index start rest :: cutsFrom destination (index + 1) rest

theorem calls_splitFrom_prefix (outside : Outside) (destination : Text) (index : Nat)
    (starts : List Int) :
    (splitFrom outside destination index starts).calls <+: cutsFrom destination index starts := by
  induction starts generalizing index with
  | nil => exact List.nil_prefix
  | cons start rest ih =>
    rw [splitFrom]
    split
    · exact List.nil_prefix
    · change (Traced.bind _ _).calls <+: _
      rw [Traced.bind]
      split
      · exact List.prefix_append [_] _
      · change (_ :: (Traced.bind _ _).calls) <+: _
        rw [Traced.bind, cutsFrom, List.cons_prefix_cons]
        refine ⟨rfl, ?_⟩
        split
        · exact ih (index + 1)
        · change (_ ++ []) <+: _
          rw [List.append_nil]
          exact ih (index + 1)

/-- If nothing goes wrong, every call is made. -/
theorem calls_splitFrom {outside : Outside} (hcancelled : ∀ index, outside.cancelled index = false)
    (hruns : ∀ arguments, outside.runFFmpeg arguments = true) (destination : Text) (index : Nat)
    (starts : List Int) :
    (splitFrom outside destination index starts).calls = cutsFrom destination index starts ∧
      ∃ names, (splitFrom outside destination index starts).result = .ok names := by
  induction starts generalizing index with
  | nil => exact ⟨rfl, [], rfl⟩
  | cons start rest ih =>
    obtain ⟨hcalls, names, hnames⟩ := ih (index + 1)
    rw [splitFrom, if_neg (by simp [hcancelled])]
    simp only [hruns, if_true]
    constructor
    · rw [Traced.calls_bind_of_ok Traced.result_call, Traced.calls_bind_of_ok hnames, hcalls]
      exact congrArg (_ :: ·) (List.append_nil _)
    · refine ⟨trackName index :: names, ?_⟩
      exact Traced.result_bind_eq_ok.mpr ⟨(), Traced.result_call,
        Traced.result_bind_eq_ok.mpr ⟨names, hnames, rfl⟩⟩

/-- All the tracks of a plan meet if no start loses more than the next one. -/
theorem isChain_cutsFrom (destination : Text) (index : Nat) (hincreasing : starts.Pairwise (· < ·))
    (hrange : ∀ start ∈ starts, 0 ≤ start ∧ start ≤ maxInt64) :
    (cutsFrom destination index starts).IsChain Meets ↔
      (starts.map (· % 1000)).Pairwise (· ≤ ·) := by
  rw [← List.isChain_iff_pairwise]
  induction starts generalizing index with
  | nil => simp [cutsFrom]
  | cons start rest ih =>
    cases rest with
    | nil => simp [cutsFrom]
    | cons next rest =>
      rw [List.forall_mem_cons] at hrange
      have hnext := (hrange.2 next List.mem_cons_self).2
      have hless := (List.pairwise_cons.mp hincreasing).1 next List.mem_cons_self
      have hmeets : Meets (trackCut destination index start (next :: rest))
          (trackCut destination (index + 1) next rest) ↔ start % 1000 ≤ next % 1000 :=
        meets_trackCut hrange.1.1 hless hnext
      have hrest := ih (index + 1) (List.pairwise_cons.mp hincreasing).2 hrange.2
      rw [cutsFrom, cutsFrom, List.isChain_cons_cons, List.map_cons, List.map_cons,
        List.isChain_cons_cons]
      rw [cutsFrom] at hrest
      exact and_congr hmeets hrest

theorem splitTiles_iff (hincreasing : (planOf starts).Pairwise (· < ·))
    (hrange : ∀ start ∈ planOf starts, start ≤ maxInt64) (hlength : starts.length < maximumTracks) :
    SplitTiles (planOf starts) ↔ ((planOf starts).map (· % 1000)).Pairwise (· ≤ ·) := by
  have hnonneg : ∀ start ∈ planOf starts, 0 ≤ start := by
    intro start hmem
    rcases List.mem_cons.mp hmem with rfl | hmem
    · exact le_refl _
    · exact ((List.pairwise_cons.mp hincreasing).1 start hmem).le
  have hchain := fun destination => isChain_cutsFrom destination 0 hincreasing
    fun start hmem => ⟨hnonneg start hmem, hrange start hmem⟩
  constructor
  · intro htiles
    cases starts with
    | nil => simp [planOf]
    | cons first rest =>
      -- A run in which nothing goes wrong makes all the calls.
      have hrun := htiles ⟨fun _ => false, fun _ => true⟩ [slash]
      rw [split, if_neg, (calls_splitFrom (fun _ => rfl) (fun _ => rfl) _ _ _).1] at hrun
      · exact (hchain [slash]).mp hrun
      · rw [not_or, not_or, not_lt, not_lt, not_not]
        exact ⟨by simp [planOf], hlength, rfl⟩
  · intro hmods outside destination
    rw [split]
    split
    · exact .nil
    · obtain ⟨later, hcalls⟩ := calls_splitFrom_prefix outside destination 0 (planOf starts)
      have hall := (hchain destination).mpr hmods
      rw [← hcalls] at hall
      exact hall.left_of_append

/-- Exact starts tile the image if their frame numbers never decrease modulo three. -/
theorem Parsed.splitTiles_iff (hparsed : Parsed data starts)
    (hexact : starts = (breakpoints data).map Breakpoint.nanoseconds)
    (hfits : ∀ point ∈ breakpoints data, point.nanoseconds ≤ maxInt64) :
    SplitTiles (planOf starts) ↔
      ((breakpoints data).map fun point => point.frames % 3).Pairwise (· ≤ ·) := by
  have hrange : ∀ start ∈ planOf starts, start ≤ maxInt64 := by
    intro start hmem
    rcases List.mem_cons.mp hmem with rfl | hmem
    · decide
    · rw [hexact] at hmem
      obtain ⟨point, hpoint, rfl⟩ := List.mem_map.mp hmem
      exact hfits point hpoint
  have hmods : (planOf starts).map (· % 1000) =
      0 :: (breakpoints data).map fun point => 333 * (point.frames % 3) := by
    rw [planOf, List.map_cons, hexact, List.map_map]
    refine congrArg (0 :: ·) (List.map_congr_left fun point hpoint => ?_)
    exact (hparsed.valid point hpoint).nanoseconds_mod
  rw [Cuesheet.splitTiles_iff hparsed.increasing hrange hparsed.length_le, hmods,
    List.pairwise_cons, List.pairwise_map, List.pairwise_map]
  constructor
  · rintro ⟨-, hpairs⟩
    exact hpairs.imp fun hle => by omega
  · intro hpairs
    refine ⟨fun lost hmem => ?_, hpairs.imp fun hle => by omega⟩
    obtain ⟨point, -, rfl⟩ := List.mem_map.mp hmem
    omega

/-- Break points that are accepted give exact and increasing starts, and tracks that
tile the image, exactly if every time fits 64 bits and the frame numbers never
decrease modulo three. -/
theorem tiles_iff {data : Text} {starts : List Int} (hparse : parseBreakpoints data = .ok starts) :
    (starts = (breakpoints data).map (fun point => ⌊point.time * 10 ^ 9⌋) ∧
      (breakpoints data).Pairwise (fun first second => first.time < second.time) ∧
      SplitTiles (planOf starts)) ↔
    (∀ point ∈ breakpoints data, ⌊point.time * 10 ^ 9⌋ ≤ maxInt64) ∧
      ((breakpoints data).map fun point => point.frames % 3).Pairwise (· ≤ ·) := by
  have hparsed := parsed_of_parseBreakpoints hparse
  simp only [floor_time]
  have hexact : starts = (breakpoints data).map Breakpoint.nanoseconds ↔
      ∀ point ∈ breakpoints data, point.nanoseconds ≤ maxInt64 := by
    rw [hparsed.starts_eq, List.map_inj_left]
    exact forall₂_congr fun point hmem => (hparsed.valid point hmem).start_eq_nanoseconds_iff
  have htiling := fun hfits => hparsed.splitTiles_iff (hexact.mpr hfits) hfits
  rw [hexact]
  -- Once the starts are exact, what they lose is told by their frames.
  refine ⟨fun ⟨hfits, _, htiles⟩ => ⟨hfits, (htiling hfits).mp htiles⟩, fun ⟨hfits, hframes⟩ => ?_⟩
  refine ⟨hfits, ?_, (htiling hfits).mpr hframes⟩
  have hincreasing := (List.pairwise_cons.mp hparsed.increasing).2
  rw [hexact.mpr hfits, List.pairwise_map] at hincreasing
  refine hincreasing.imp fun {first second} hless => ?_
  rw [← floor_time, ← floor_time] at hless
  have htimes : first.time * 10 ^ 9 < second.time * 10 ^ 9 := Int.floor_mono.reflect_lt hless
  linarith

/-- A cue sheet whose tracks start at frames 3 and 7. -/
theorem tiles_of_thirds : ∃ starts, parseBreakpoints (bytes "0:00.03\n0:00.07\n") = .ok starts ∧
    SplitTiles (planOf starts) := by
  have hparse : parseBreakpoints (bytes "0:00.03\n0:00.07\n") = .ok [40000000, 93333333] := by
    decide +kernel
  have hpoints : breakpoints (bytes "0:00.03\n0:00.07\n") = [⟨0, 0, 3⟩, ⟨0, 0, 7⟩] := by
    decide +kernel
  refine ⟨_, hparse, ((tiles_iff hparse).mpr ⟨?_, ?_⟩).2.2⟩
  · rw [hpoints]
    simp only [floor_time]
    decide
  · rw [hpoints]
    decide

/-- Minutes that do not fit 64 bits are accepted as a start of 26 seconds, and tracks
at frames 2 and 3 leave a gap of a microsecond. -/
theorem wraps_and_leaves_gap :
    (parseBreakpoints (bytes "307445735:00.00\n") = .ok [26290448384] ∧
      (breakpoints (bytes "307445735:00.00\n")).map (fun point => ⌊point.time * 10 ^ 9⌋) =
        [18446744100000000000]) ∧
    parseBreakpoints (bytes "0:00.02\n0:00.03\n") = .ok [26666666, 40000000] ∧
      ¬ SplitTiles (planOf [26666666, 40000000]) := by
  have hpoints : breakpoints (bytes "307445735:00.00\n") = [⟨307445735, 0, 0⟩] := by
    decide +kernel
  refine ⟨⟨by decide +kernel, ?_⟩, by decide +kernel, ?_⟩
  · rw [hpoints]
    simp only [floor_time]
    decide
  · rw [Cuesheet.splitTiles_iff (by decide) (by decide) (by decide)]
    decide

end NixConfig.MediaRepair.Cuesheet
