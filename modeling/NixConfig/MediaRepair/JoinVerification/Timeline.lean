/-
# Packet timing of a join

A join is trusted only if its packets are those of the parts, one part after the other.
The verifier reads the packet times of every part and of the joined file and walks over
the parts with a position in every joined stream. Each part has to continue every stream
with as many packets as it has there, shifted by one offset for the stream, and to start
about where the previous part ended.

Times are exact here; a time that the prober does not report is missing.
-/

import Mathlib.Data.List.Sort
import Mathlib.Tactic.Linarith
import NixConfig.Data.Extent
import NixConfig.Data.Table
import NixConfig.Semantics.Fallible

namespace NixConfig.MediaRepair.JoinVerification

open Data Semantics

/-! ## The verifier -/

/-- The times of a packet, in seconds. -/
structure Packet where
  pts : Option ℚ
  dts : Option ℚ
  duration : Option ℚ
  deriving DecidableEq

/-- The packets of every stream of a file, by stream index. -/
def Timeline := Table (Prod.fst : Int × List Packet → Int)

namespace Timeline

/-- The packets of a stream; a stream that is not in the map has none. -/
def packets (timeline : Timeline) (stream : Int) : List Packet :=
  (timeline.find stream).elim [] Prod.snd

/-- The stream indexes in ascending order. -/
def streams (timeline : Timeline) : List Int :=
  (timeline.rows.map Prod.fst).insertionSort (· ≤ ·)

end Timeline

/-- Two milliseconds, for the rounding of timestamps in Matroska. -/
def timingTolerance : ℚ := 2 / 1000

/-- What every comparison allows on top of its tolerance. -/
def slack : ℚ := 1 / 10 ^ 9

/-- The gap or overlap of two parts that a codec frame may cause. -/
def boundaryTolerance : ℚ := 1 / 10

/-- How far a packet moved: by its presentation time if both packets have one, and
otherwise by its decode time. -/
def packetOffset (source output : Packet) : Option ℚ :=
  match source.pts, output.pts with
  | some before, some after => some (after - before)
  | _, _ => Option.map₂ (· - ·) output.dts source.dts

/-- Missing values cannot establish a mismatch. -/
def sameTime : Option ℚ → Option ℚ → Bool
  | some expected, some actual => |expected - actual| ≤ timingTolerance + slack
  | _, _ => true

/-- Why the packets of a stream were refused. -/
inductive StreamError where
  | alignment
  | timestamp (index : Nat) (source output offset : Option ℚ)
  | duration (index : Nat) (source output : Option ℚ)
  deriving DecidableEq

/-- Why a join was refused. Parts are counted from one. -/
inductive TimelineError where
  | noEvidence
  | streamCount (part : Nat)
  | missingPackets (part : Nat) (stream : Int)
  | missingTimestamps (part : Nat) (stream : Int)
  | stream (part : Nat) (stream : Int) (cause : StreamError)
  | boundary (part : Nat) (gap : ℚ)
  | extraPackets (stream : Int)
  deriving DecidableEq

/-- When a joined packet starts and ends. AVI may omit the presentation time of reordered
frames; the decode time still carries timing. Every packet that gets this far has one of
the two. -/
def Packet.interval (packet : Packet) : ℚ × ℚ :=
  let timestamp := (packet.pts.or packet.dts).getD 0
  (timestamp, packet.duration.elim timestamp (timestamp + ·))

/-- The loop over the packets of a stream, widening what the joined packets span. -/
def validatePackets (offset : Option ℚ) :
    Nat → List Packet → List Packet → Option (ℚ × ℚ) → Except StreamError (Option (ℚ × ℚ))
  | index, packet :: source, actual :: joined, seen =>
    if (packetOffset packet actual).isNone ||
        !sameTime (Option.map₂ (· + ·) packet.pts offset) actual.pts ||
        !sameTime (Option.map₂ (· + ·) packet.dts offset) actual.dts then
      .error (.timestamp index packet.pts actual.pts offset)
    -- Container duration rounding may affect a part's last packet.
    else if !source.isEmpty && !sameTime packet.duration actual.duration then
      .error (.duration index packet.duration actual.duration)
    else validatePackets offset (index + 1) source joined (widen seen actual.interval)
  | _, _, _, seen => .ok seen

/-- How far the first packet of a stream moved. -/
def firstOffset (source joined : List Packet) : Option ℚ :=
  source.head?.bind fun packet => joined.head?.bind fun actual => packetOffset packet actual

/-- AVI positions audio and video on different packet grids: a stream may start off by one
of its packets. -/
def startTolerance (source : List Packet) : ℚ :=
  (source.head?.bind Packet.duration).elim timingTolerance (max timingTolerance)

/-- Check the packets of one stream of a part against as many joined packets. -/
def validateStreamTiming (source joined : List Packet) (partOffset : ℚ) :
    Except StreamError (Option (ℚ × ℚ)) :=
  let offset := firstOffset source joined
  if offset.any fun offset => startTolerance source + slack < |offset - partOffset| then
    .error .alignment
  else validatePackets offset 0 source joined none

/-- What the verifier carries from one stream of a part to the next. -/
structure PartState where
  /-- How many packets of each joined stream the parts have accounted for. -/
  positions : Int → Nat
  /-- The offset of the part, from its first stream on. -/
  offset : Option ℚ
  /-- What the part spans in the joined file. -/
  seen : Option (ℚ × ℚ)

/-- The joined packets that stand for a stream of a part. -/
def segment (part output : Timeline) (positions : Int → Nat) (stream : Int) : List Packet :=
  ((output.packets stream).drop (positions stream)).take (part.packets stream).length

/-- The body of the loop over the streams of a part. -/
def validateStream (part output : Timeline) (number : Nat) (state : PartState) (stream : Int) :
    Except TimelineError PartState :=
  let source := part.packets stream
  let start := state.positions stream
  if source.isEmpty || (output.packets stream).length < start + source.length then
    .error (.missingPackets number stream)
  else
    let joined := segment part output state.positions stream
    match state.offset.or (firstOffset source joined) with
    | none => .error (.missingTimestamps number stream)
    | some offset => do
      let seen ← (validateStreamTiming source joined offset).mapError (.stream number stream)
      return {
        positions := Function.update state.positions stream (start + source.length)
        offset := some offset
        seen := seen.elim state.seen (widen state.seen) }

/-- Whether a part starts too far from the end of the previous one. -/
def gap (previousEnd : Option ℚ) (seen : Option (ℚ × ℚ)) : Option ℚ :=
  (Option.map₂ (fun bounds finish => bounds.1 - finish) seen previousEnd).filter
    fun gap => boundaryTolerance < |gap|

/-- The body of the loop over the parts: where the joined streams continue and where the
part ends. -/
def validatePart (output : Timeline) (number : Nat) (previousEnd : Option ℚ)
    (positions : Int → Nat) (part : Timeline) :
    Except TimelineError ((Int → Nat) × Option ℚ) :=
  if part.rows.length ≠ output.rows.length then .error (.streamCount number)
  else do
    let state ← part.streams.foldlM (validateStream part output number) ⟨positions, none, none⟩
    match gap previousEnd state.seen with
    | some gap => .error (.boundary number gap)
    | none => return (state.positions, state.seen.map Prod.snd)

/-- The loop over the parts. -/
def validateParts (output : Timeline) :
    Nat → Option ℚ → (Int → Nat) → List Timeline → Except TimelineError (Int → Nat)
  | _, _, positions, [] => .ok positions
  | number, previousEnd, positions, part :: parts => do
    let (positions, previousEnd) ← validatePart output number previousEnd positions part
    validateParts output (number + 1) previousEnd positions parts

/-- Check that a joined file has the packets of its parts. -/
def validateTimeline (parts : List Timeline) (output : Timeline) : Except TimelineError Unit :=
  if parts.isEmpty || output.rows.isEmpty then .error .noEvidence
  else do
    let positions ← validateParts output 1 none (fun _ => 0) parts
    match output.rows.find? fun row => positions row.1 ≠ row.2.length with
    | some row => .error (.extraPackets row.1)
    | none => return ()

/-! ## What a join is -/

/-- Two times agree as far as both are known. -/
def Agrees (expected actual : Option ℚ) : Prop :=
  ∀ before ∈ expected, ∀ after ∈ actual, |before - after| ≤ timingTolerance + slack

/-- A joined packet stands for a packet of a part, moved by an offset: the two share a
presentation time or a decode time, and what they share agrees. -/
structure Follows (offset : ℚ) (packet actual : Packet) : Prop where
  shared : packet.pts.isSome ∧ actual.pts.isSome ∨ packet.dts.isSome ∧ actual.dts.isSome
  pts : Agrees (packet.pts.map (· + offset)) actual.pts
  dts : Agrees (packet.dts.map (· + offset)) actual.dts

/-- The packets of a stream are carried over one by one, with one offset. -/
structure Carried (offset : ℚ) (source joined : List Packet) : Prop where
  packets : List.Forall₂ (Follows offset) source joined
  /-- Only the last packet may change its duration. -/
  durations : List.Forall₂ (fun packet actual => Agrees packet.duration actual.duration)
    source.dropLast joined.dropLast

/-- A stream of a part is carried over with an offset close to the offset of the part. -/
structure StreamJoins (partOffset offset : ℚ) (source joined : List Packet) : Prop where
  nonempty : source ≠ []
  first : firstOffset source joined = some offset
  aligned : |offset - partOffset| ≤ startTolerance source + slack
  carried : Carried offset source joined

/-- Every stream of a part is carried over. The offset of the part is that of its lowest
stream. -/
structure PartJoins (partOffset : ℚ) (part : Timeline) (segments : Int → List Packet) : Prop where
  lowest : ∀ stream ∈ part.streams.head?,
    firstOffset (part.packets stream) (segments stream) = some partOffset
  streams : ∀ stream ∈ part.streams,
    ∃ offset, StreamJoins partOffset offset (part.packets stream) (segments stream)

/-- The packets of some streams last from the first of the bounds to the second. -/
structure Spans (streams : List Int) (segments : Int → List Packet) (bounds : ℚ × ℚ) : Prop where
  start : IsLeast {time | ∃ stream ∈ streams, ∃ packet ∈ segments stream,
    packet.interval.1 = time} bounds.1
  finish : IsGreatest {time | ∃ stream ∈ streams, ∃ packet ∈ segments stream,
    packet.interval.2 = time} bounds.2

/-- The packets of the joined streams are those of the parts, one part after the other, and
each part starts where the previous one ends, up to the boundary tolerance. -/
inductive Joins (streams : List Int) :
    Option ℚ → List Timeline → (Int → List Packet) → Prop
  | done {previousEnd : Option ℚ} {packets : Int → List Packet}
      (hempty : ∀ stream ∈ streams, packets stream = []) : Joins streams previousEnd [] packets
  | part {previousEnd : Option ℚ} {packets : Int → List Packet} {part : Timeline}
      {parts : List Timeline} (segments rest : Int → List Packet) (partOffset : ℚ)
      (bounds : ℚ × ℚ)
      (hstreams : part.streams = streams)
      (hpackets : ∀ stream ∈ streams, packets stream = segments stream ++ rest stream)
      (hpart : PartJoins partOffset part segments)
      (hspans : Spans streams segments bounds)
      (hmeets : ∀ finish ∈ previousEnd, |bounds.1 - finish| ≤ boundaryTolerance)
      (hrest : Joins streams (some bounds.2) parts rest) :
      Joins streams previousEnd (part :: parts) packets

/-! ## The packets of a stream -/

theorem sameTime_iff {expected actual : Option ℚ} :
    sameTime expected actual = true ↔ Agrees expected actual := by
  cases expected <;> cases actual <;> simp [sameTime, Agrees]

variable {actual packet : Packet} {offset partOffset : ℚ} {source joined : List Packet}
  {seen : Option (ℚ × ℚ)} {segments others : Int → List Packet} {final : PartState} {bounds : ℚ × ℚ}
  {previousEnd : Option ℚ} {parts : List Timeline}

theorem isSome_packetOffset :
    (packetOffset packet actual).isSome ↔
      packet.pts.isSome ∧ actual.pts.isSome ∨ packet.dts.isSome ∧ actual.dts.isSome := by
  unfold packetOffset
  cases packet.pts <;> cases actual.pts <;> cases packet.dts <;> cases actual.dts <;> simp

theorem map₂_some {time : Option ℚ} :
    Option.map₂ (· + ·) time (some offset) = time.map (· + offset) := by
  cases time <;> rfl

/-- The check of a packet's timestamps. -/
theorem follows_iff :
    ((packetOffset packet actual).isNone ||
        !sameTime (Option.map₂ (· + ·) packet.pts (some offset)) actual.pts ||
        !sameTime (Option.map₂ (· + ·) packet.dts (some offset)) actual.dts) = false ↔
      Follows offset packet actual := by
  rw [map₂_some, map₂_some, Bool.or_eq_false_iff, Bool.or_eq_false_iff, Bool.not_eq_false',
    Bool.not_eq_false', sameTime_iff, sameTime_iff, Option.isNone_eq_false_iff,
    isSome_packetOffset]
  exact ⟨fun ⟨⟨hshared, hpts⟩, hdts⟩ => ⟨hshared, hpts, hdts⟩,
    fun ⟨hshared, hpts, hdts⟩ => ⟨⟨hshared, hpts⟩, hdts⟩⟩

theorem carried_cons (hlength : source.length = joined.length) :
    Carried offset (packet :: source) (actual :: joined) ↔
      Follows offset packet actual ∧ (source ≠ [] → Agrees packet.duration actual.duration) ∧
        Carried offset source joined := by
  cases source with
  | nil =>
    obtain rfl := List.length_eq_zero_iff.mp hlength.symm
    constructor
    · intro hcarried
      exact ⟨(List.forall₂_cons.mp hcarried.packets).1, fun hne => absurd rfl hne, .nil, .nil⟩
    · rintro ⟨hfollows, -, -⟩
      exact ⟨.cons hfollows .nil, .nil⟩
  | cons second source =>
    obtain ⟨second', joined, rfl⟩ := List.exists_cons_of_length_eq_add_one hlength.symm
    constructor
    · intro hcarried
      obtain ⟨hfollows, hpackets⟩ := List.forall₂_cons.mp hcarried.packets
      have hdurations := hcarried.durations
      rw [List.dropLast_cons_cons, List.dropLast_cons_cons, List.forall₂_cons] at hdurations
      exact ⟨hfollows, fun _ => hdurations.1, hpackets, hdurations.2⟩
    · rintro ⟨hfollows, hduration, hcarried⟩
      refine ⟨.cons hfollows hcarried.packets, ?_⟩
      rw [List.dropLast_cons_cons, List.dropLast_cons_cons]
      exact .cons (hduration (List.cons_ne_nil _ _)) hcarried.durations

/-- The loop over the packets accepts exactly the packets carried over, and returns what the
joined ones span. -/
theorem validatePackets_eq_ok {index : Nat} {result : Option (ℚ × ℚ)}
    (hlength : source.length = joined.length) :
    validatePackets (some offset) index source joined seen = .ok result ↔
      Carried offset source joined ∧ (joined.map Packet.interval).foldl widen seen = result := by
  induction source generalizing index joined seen with
  | nil =>
    obtain rfl := List.length_eq_zero_iff.mp hlength.symm
    have hcarried : Carried offset [] [] := ⟨.nil, .nil⟩
    simp [validatePackets, hcarried]
  | cons packet source ih =>
    obtain ⟨actual, joined, rfl⟩ := List.exists_cons_of_length_eq_add_one hlength.symm
    have hlength : source.length = joined.length := by simpa using hlength
    have hduration : (!source.isEmpty && !sameTime packet.duration actual.duration) = false ↔
        (source ≠ [] → Agrees packet.duration actual.duration) := by
      rw [← sameTime_iff]
      cases source <;> simp
    rw [carried_cons hlength, validatePackets, List.map_cons, List.foldl_cons]
    split
    case isTrue hrefused =>
      have hfollows : ¬ Follows offset packet actual := fun hfollows =>
        Bool.false_ne_true ((follows_iff.mpr hfollows).symm.trans hrefused)
      simp [hfollows]
    case isFalse haccepted =>
      have hfollows := follows_iff.mp (Bool.eq_false_iff.mpr haccepted)
      split
      case isTrue hrefused =>
        have hchanged := mt hduration.mpr (ne_false_of_eq_true hrefused)
        simp only [reduceCtorEq, hchanged, false_and, and_false]
      case isFalse hkept =>
        have hduration := hduration.mp (Bool.eq_false_iff.mpr hkept)
        rw [ih hlength, and_iff_right hfollows, and_iff_right hduration]

/-- Without an offset of the first packets, they share no timestamp. -/
theorem validatePackets_none (hsource : source ≠ []) (hlength : source.length = joined.length)
    (hoffset : firstOffset source joined = none) (index : Nat) (seen : Option (ℚ × ℚ)) :
    ∃ refusal, validatePackets none index source joined seen = .error refusal := by
  obtain ⟨packet, source, rfl⟩ := List.exists_cons_of_ne_nil hsource
  obtain ⟨actual, joined, rfl⟩ := List.exists_cons_of_length_eq_add_one hlength.symm
  have hpacket : packetOffset packet actual = none := hoffset
  simp [validatePackets, hpacket]

theorem validateStreamTiming_eq_ok (hsource : source ≠ [])
    (hlength : source.length = joined.length) :
    validateStreamTiming source joined partOffset = .ok seen ↔
      (∃ offset, StreamJoins partOffset offset source joined) ∧
        extent (joined.map Packet.interval) = seen := by
  rw [validateStreamTiming]
  cases hoffset : firstOffset source joined with
  | none =>
    obtain ⟨refusal, hrefusal⟩ := validatePackets_none hsource hlength hoffset 0 none
    have hnone : ¬ ∃ offset, StreamJoins partOffset offset source joined := by
      rintro ⟨offset, hjoins⟩
      exact Option.some_ne_none _ (hjoins.first.symm.trans hoffset)
    simp [hrefusal, hnone]
  | some offset =>
    have hjoins : (∃ offset, StreamJoins partOffset offset source joined) ↔
        |offset - partOffset| ≤ startTolerance source + slack ∧ Carried offset source joined := by
      constructor
      · rintro ⟨other, hjoins⟩
        cases hjoins.first.symm.trans hoffset
        exact ⟨hjoins.aligned, hjoins.carried⟩
      · rintro ⟨haligned, hcarried⟩
        exact ⟨offset, hsource, hoffset, haligned, hcarried⟩
    rw [hjoins]
    simp only [Option.any_some, decide_eq_true_eq]
    split
    case isTrue hfar => simp [not_le.mpr hfar]
    case isFalse hnear => rw [validatePackets_eq_ok hlength, and_iff_right (not_lt.mp hnear), extent]

/-! ## The streams of a part -/

variable {part output : Timeline} {number : Nat} {positions : Int → Nat} {stream : Int}

theorem StreamJoins.length_eq (hjoins : StreamJoins partOffset offset source joined) :
    source.length = joined.length :=
  hjoins.carried.packets.length_eq

theorem length_segment : (segment part output positions stream).length = (part.packets stream).length ↔
    part.packets stream = [] ∨
      positions stream + (part.packets stream).length ≤ (output.packets stream).length := by
  rw [segment, List.length_take, List.length_drop, ← List.length_eq_zero_iff]
  omega

theorem segment_update {other : Int} {position : Nat} (hne : other ≠ stream) :
    segment part output (Function.update positions stream position) other =
      segment part output positions other := by
  rw [segment, Function.update_of_ne hne, segment]

/-- A step over a stream accepts what is carried over, and takes the offset of the part from
the first stream it sees. -/
theorem validateStream_eq_ok {state next : PartState} :
    validateStream part output number state stream = .ok next ↔
      ∃ partOffset,
        state.offset.or (firstOffset (part.packets stream)
          (segment part output state.positions stream)) = some partOffset ∧
        (∃ offset, StreamJoins partOffset offset (part.packets stream)
          (segment part output state.positions stream)) ∧
        next = {
          positions := Function.update state.positions stream
            (state.positions stream + (part.packets stream).length)
          offset := some partOffset
          seen := ((segment part output state.positions stream).map Packet.interval).foldl widen
            state.seen } := by
  rw [validateStream]
  simp only
  split
  case isTrue hmissing =>
    refine ⟨nofun, ?_⟩
    rintro ⟨partOffset, -, ⟨offset, hjoins⟩, -⟩
    have hwithin := (length_segment.mp hjoins.length_eq.symm).resolve_left hjoins.nonempty
    simp only [Bool.or_eq_true, List.isEmpty_iff, hjoins.nonempty, decide_eq_true_eq,
      false_or] at hmissing
    omega
  case isFalse hpresent =>
    simp only [Bool.or_eq_true, List.isEmpty_iff, decide_eq_true_eq, not_or, not_lt] at hpresent
    have hlength := (length_segment.mpr (.inr hpresent.2)).symm
    cases state.offset.or (firstOffset (part.packets stream)
        (segment part output state.positions stream)) with
    | none => simp
    | some partOffset =>
      simp only [bind_eq_ok, mapError_eq_ok, validateStreamTiming_eq_ok hpresent.1 hlength,
        Option.some.injEq, exists_eq_left', foldl_widen]
      constructor
      · rintro ⟨seen, ⟨hjoins, rfl⟩, hnext⟩
        exact ⟨hjoins, (Except.ok.inj hnext).symm⟩
      · rintro ⟨hjoins, rfl⟩
        exact ⟨_, ⟨hjoins, rfl⟩, rfl⟩

/-- The positions after some streams of a part. -/
def advance (part : Timeline) (positions : Int → Nat) (streams : List Int) : Int → Nat :=
  fun stream =>
    if stream ∈ streams then positions stream + (part.packets stream).length
    else positions stream

theorem advance_update {streams : List Int} (hfresh : stream ∉ streams) :
    advance part (Function.update positions stream
        (positions stream + (part.packets stream).length)) streams =
      advance part positions (stream :: streams) := by
  funext other
  by_cases hother : other = stream
  · subst hother
    simp [advance, hfresh]
  · simp [advance, hother]

/-- What the packets of some streams of a part span in the joined file, in order. -/
def intervals (segments : Int → List Packet) (streams : List Int) : List (ℚ × ℚ) :=
  streams.flatMap fun stream => (segments stream).map Packet.interval

theorem intervals_congr {streams : List Int}
    (hsame : ∀ stream ∈ streams, segments stream = others stream) :
    intervals segments streams = intervals others streams := by
  rw [intervals, intervals, List.flatMap_congr fun stream hmem => by rw [hsame stream hmem]]

/-- The loop over the streams once the part has an offset. -/
theorem validateStreams_eq_ok {streams : List Int} (hnodup : streams.Nodup) :
    streams.foldlM (validateStream part output number) ⟨positions, some partOffset, seen⟩ =
        .ok final ↔
      (∀ stream ∈ streams, ∃ offset, StreamJoins partOffset offset (part.packets stream)
        (segment part output positions stream)) ∧
      final = {
        positions := advance part positions streams
        offset := some partOffset
        seen := (intervals (segment part output positions) streams).foldl widen seen } := by
  induction streams generalizing positions seen with
  | nil =>
    have hadvance : advance part positions [] = positions := by
      funext other
      simp [advance]
    simp only [List.foldlM_nil, List.not_mem_nil, false_implies, implies_true, true_and, hadvance,
      intervals, List.flatMap_nil, List.foldl_nil]
    exact ⟨fun h => (Except.ok.inj h).symm, fun h => h ▸ rfl⟩
  | cons stream streams ih =>
    obtain ⟨hfresh, hnodup⟩ := List.nodup_cons.mp hnodup
    -- The step over the first stream leaves the segments of the others where they were.
    have hsame : ∀ other ∈ streams,
        segment part output (Function.update positions stream
          (positions stream + (part.packets stream).length)) other =
        segment part output positions other := fun other hmem =>
      segment_update (ne_of_mem_of_not_mem hmem hfresh)
    simp only [List.foldlM_cons, bind_eq_ok, validateStream_eq_ok, Option.some_or,
      Option.some.injEq, exists_eq_left', List.forall_mem_cons]
    constructor
    · rintro ⟨next, ⟨hjoins, rfl⟩, hrest⟩
      obtain ⟨hothers, hfinal⟩ := (ih hnodup).mp hrest
      refine ⟨⟨hjoins, fun other hmem => hsame other hmem ▸ hothers other hmem⟩, ?_⟩
      rw [hfinal, advance_update hfresh, intervals_congr hsame, intervals, intervals,
        List.flatMap_cons, List.foldl_append]
    · rintro ⟨⟨hjoins, hothers⟩, hfinal⟩
      refine ⟨_, ⟨hjoins, rfl⟩, (ih hnodup).mpr ⟨fun other hmem => ?_, ?_⟩⟩
      · exact (hsame other hmem).symm ▸ hothers other hmem
      · rw [hfinal, advance_update hfresh, intervals_congr hsame, intervals, intervals,
          List.flatMap_cons, List.foldl_append]

/-- The first stream gives the part its offset. -/
theorem validateStreams_offset {streams : List Int} :
    (stream :: streams).foldlM (validateStream part output number) ⟨positions, none, seen⟩ =
        .ok final ↔
      ∃ partOffset, firstOffset (part.packets stream) (segment part output positions stream) =
          some partOffset ∧
        (stream :: streams).foldlM (validateStream part output number)
          ⟨positions, some partOffset, seen⟩ = .ok final := by
  simp only [List.foldlM_cons, bind_eq_ok, validateStream_eq_ok, Option.none_or, Option.some_or,
    Option.some.injEq, exists_eq_left']
  constructor
  · rintro ⟨next, ⟨partOffset, hfirst, hstep⟩, hrest⟩
    exact ⟨partOffset, hfirst, next, hstep, hrest⟩
  · rintro ⟨partOffset, hfirst, next, hstep, hrest⟩
    exact ⟨next, ⟨partOffset, hfirst, hstep⟩, hrest⟩

namespace Timeline

variable {timeline : Timeline}

theorem mem_streams : stream ∈ timeline.streams ↔ ∃ row ∈ timeline.rows, row.1 = stream := by
  rw [streams, List.mem_insertionSort, List.mem_map]

theorem nodup_streams : timeline.streams.Nodup :=
  (List.perm_insertionSort _ _).nodup_iff.mpr timeline.nodup

theorem packets_of_mem {row : Int × List Packet} (hmem : row ∈ timeline.rows) :
    timeline.packets row.1 = row.2 := by
  rw [packets, Table.mem_rows_iff.mp hmem, Option.elim_some]

theorem mem_streams_of_packets (hne : timeline.packets stream ≠ []) :
    stream ∈ timeline.streams := by
  rw [packets] at hne
  cases hfind : timeline.find stream with
  | none => exact absurd (by rw [hfind, Option.elim_none]) hne
  | some row => exact mem_streams.mpr ⟨row, Table.mem_of_find hfind, Table.key_of_find hfind⟩

theorem length_streams : timeline.streams.length = timeline.rows.length := by
  rw [streams, List.length_insertionSort, List.length_map]

/-- A part with as many streams as the joined file, all of them there, has the same. -/
theorem streams_eq {other : Timeline} (hlength : timeline.rows.length = other.rows.length)
    (hsubset : ∀ stream ∈ timeline.streams, stream ∈ other.streams) :
    timeline.streams = other.streams := by
  have hperm : timeline.streams.Perm other.streams := by
    refine (List.subperm_of_subset nodup_streams hsubset).perm_of_length_le ?_
    rw [length_streams, length_streams, hlength]
  exact hperm.eq_of_sortedLE List.sortedLE_insertionSort List.sortedLE_insertionSort

end Timeline

/-! ## The parts -/

theorem spans_iff {streams : List Int} :
    Spans streams segments bounds ↔ extent (intervals segments streams) = some bounds := by
  have hmem (test : ℚ × ℚ → Prop) : (∃ interval ∈ intervals segments streams, test interval) ↔
      ∃ stream ∈ streams, ∃ packet ∈ segments stream, test packet.interval := by
    simp only [intervals, List.mem_flatMap, List.mem_map]
    constructor
    · rintro ⟨_, ⟨stream, hstream, packet, hpacket, rfl⟩, htest⟩
      exact ⟨stream, hstream, packet, hpacket, htest⟩
    · rintro ⟨stream, hstream, packet, hpacket, htest⟩
      exact ⟨_, ⟨stream, hstream, packet, hpacket, rfl⟩, htest⟩
  simp only [extent_eq_some, hmem]
  exact ⟨fun ⟨hstart, hfinish⟩ => ⟨hstart, hfinish⟩, fun ⟨hstart, hfinish⟩ => ⟨hstart, hfinish⟩⟩

theorem gap_eq_none :
    gap previousEnd (some bounds) = none ↔
      ∀ finish ∈ previousEnd, |bounds.1 - finish| ≤ boundaryTolerance := by
  cases previousEnd <;> simp [gap]

theorem intervals_ne_nil (hpart : PartJoins partOffset part segments)
    (hstreams : part.streams ≠ []) :
    intervals segments part.streams ≠ [] := by
  obtain ⟨stream, streams, hcons⟩ := List.exists_cons_of_ne_nil hstreams
  obtain ⟨offset, hjoins⟩ := hpart.streams stream (hcons ▸ List.mem_cons_self)
  have hsegment : segments stream ≠ [] := by
    rw [← List.length_pos_iff, ← hjoins.length_eq, List.length_pos_iff]
    exact hjoins.nonempty
  simp [intervals, hcons, hsegment]

theorem validatePartStreams_eq_ok (hstreams : part.streams ≠ []) :
    part.streams.foldlM (validateStream part output number) ⟨positions, none, none⟩ = .ok final ↔
      ∃ partOffset, PartJoins partOffset part (segment part output positions) ∧
        final = {
          positions := advance part positions part.streams
          offset := some partOffset
          seen := extent (intervals (segment part output positions) part.streams) } := by
  obtain ⟨stream, streams, hcons⟩ := List.exists_cons_of_ne_nil hstreams
  have hnodup : (stream :: streams).Nodup := hcons ▸ Timeline.nodup_streams
  rw [hcons, validateStreams_offset]
  simp only [validateStreams_eq_ok hnodup]
  rw [← hcons]
  constructor
  · rintro ⟨partOffset, hfirst, hjoins, hfinal⟩
    refine ⟨partOffset, ⟨?_, hjoins⟩, hfinal⟩
    simpa [hcons] using hfirst
  · rintro ⟨partOffset, hpart, hfinal⟩
    exact ⟨partOffset, hpart.lowest stream (by rw [hcons]; rfl), hpart.streams, hfinal⟩

/-- A part is accepted when all its streams are carried over and it starts near the end of
the previous one. -/
theorem validatePart_eq_ok {result : (Int → Nat) × Option ℚ} (houtput : output.rows ≠ []) :
    validatePart output number previousEnd positions part = .ok result ↔
      part.streams = output.streams ∧
      ∃ partOffset bounds, PartJoins partOffset part (segment part output positions) ∧
        Spans output.streams (segment part output positions) bounds ∧
        (∀ finish ∈ previousEnd, |bounds.1 - finish| ≤ boundaryTolerance) ∧
        result = (advance part positions output.streams, some bounds.2) := by
  rw [validatePart]
  split
  case isTrue hcount =>
    refine ⟨nofun, fun ⟨hstreams, _⟩ => absurd ?_ hcount⟩
    rw [← Timeline.length_streams, hstreams, Timeline.length_streams]
  case isFalse hcount =>
    have hlength : part.rows.length = output.rows.length := not_not.mp hcount
    have hstreams : part.streams ≠ [] := by
      rw [← List.length_pos_iff, Timeline.length_streams, hlength, List.length_pos_iff]
      exact houtput
    simp only [bind_eq_ok, validatePartStreams_eq_ok hstreams]
    constructor
    · rintro ⟨state, ⟨partOffset, hpart, rfl⟩, hresult⟩
      obtain ⟨bounds, hbounds⟩ := exists_extent (intervals_ne_nil hpart hstreams)
      -- Every stream of the part has packets in the joined file.
      have hsame : part.streams = output.streams := by
        refine Timeline.streams_eq hlength fun stream hmem => ?_
        obtain ⟨offset, hjoins⟩ := hpart.streams stream hmem
        refine Timeline.mem_streams_of_packets fun hempty => hjoins.nonempty ?_
        rw [← List.length_eq_zero_iff, hjoins.length_eq, segment, hempty]
        simp
      simp only [hbounds] at hresult
      cases hgap : gap previousEnd (some bounds) with
      | some gap => simp [hgap] at hresult
      | none =>
        simp only [hgap, Option.map_some] at hresult
        refine ⟨hsame, partOffset, bounds, hpart, ?_, gap_eq_none.mp hgap, ?_⟩
        · rw [spans_iff, ← hsame, hbounds]
        · rw [← hsame]
          exact (Except.ok.inj hresult).symm
    · rintro ⟨hsame, partOffset, bounds, hpart, hspans, hmeets, rfl⟩
      refine ⟨_, ⟨partOffset, hpart, rfl⟩, ?_⟩
      rw [spans_iff] at hspans
      simp only [hsame, hspans, gap_eq_none.mpr hmeets, Option.map_some]
      rfl

theorem advance_of_mem {streams : List Int} (hmem : stream ∈ streams) :
    advance part positions streams stream = positions stream + (part.packets stream).length :=
  if_pos hmem

/-- The loop over the parts, when it accounts for all packets, has seen a join of what was
left from its positions on. -/
theorem joins_of_validateParts {final : Int → Nat} (houtput : output.rows ≠ [])
    (hfinal : ∀ stream ∈ output.streams, final stream = (output.packets stream).length)
    (hok : validateParts output number previousEnd positions parts = .ok final) :
    Joins output.streams previousEnd parts
      fun stream => (output.packets stream).drop (positions stream) := by
  induction parts generalizing number previousEnd positions with
  | nil =>
    cases hok
    refine .done fun stream hmem => ?_
    rw [hfinal stream hmem, List.drop_length]
  | cons part parts ih =>
    obtain ⟨result, hpart, hrest⟩ := bind_eq_ok.mp hok
    obtain ⟨hstreams, partOffset, bounds, hjoins, hspans, hmeets, rfl⟩ :=
      (validatePart_eq_ok houtput).mp hpart
    refine .part _ _ partOffset bounds hstreams (fun stream hmem => ?_) hjoins hspans hmeets
      (ih hrest)
    rw [advance_of_mem hmem, segment, ← List.drop_drop, List.take_append_drop]

theorem PartJoins.congr (hpart : PartJoins partOffset part segments)
    (hsame : ∀ stream ∈ part.streams, segments stream = others stream) :
    PartJoins partOffset part others where
  lowest stream hhead := hsame stream (List.mem_of_mem_head? hhead) ▸ hpart.lowest stream hhead
  streams stream hmem := hsame stream hmem ▸ hpart.streams stream hmem

/-- The loop over the parts accepts every join of what is left from its positions on, and
accounts for all packets. -/
theorem validateParts_of_joins {packets : Int → List Packet} (houtput : output.rows ≠ [])
    (hjoins : Joins output.streams previousEnd parts packets) (number : Nat) (positions : Int → Nat)
    (hpackets : ∀ stream ∈ output.streams,
      packets stream = (output.packets stream).drop (positions stream))
    (hwithin : ∀ stream ∈ output.streams,
      positions stream ≤ (output.packets stream).length) :
    ∃ final, validateParts output number previousEnd positions parts = .ok final ∧
      ∀ stream ∈ output.streams, final stream = (output.packets stream).length := by
  -- Along the parts of the join, with the positions that the verifier reaches.
  induction hjoins generalizing number positions with
  | done hempty =>
    refine ⟨positions, rfl, fun stream hmem => ?_⟩
    have hdrop := (hpackets stream hmem).symm.trans (hempty stream hmem)
    exact Nat.le_antisymm (hwithin stream hmem) (List.drop_eq_nil_iff.mp hdrop)
  | @part previousEnd packets part parts segments rest partOffset bounds hstreams hsplit hpart
      hspans hmeets _ ih =>
    have hlength (stream : Int) (hmem : stream ∈ output.streams) :
        (part.packets stream).length = (segments stream).length := by
      obtain ⟨offset, hjoins⟩ := hpart.streams stream (hstreams ▸ hmem)
      exact hjoins.length_eq
    have hleft (stream : Int) (hmem : stream ∈ output.streams) :
        (output.packets stream).drop (positions stream) = segments stream ++ rest stream :=
      (hpackets stream hmem).symm.trans (hsplit stream hmem)
    have hsegment : ∀ stream ∈ output.streams,
        segments stream = segment part output positions stream := by
      intro stream hmem
      rw [segment, hleft stream hmem, hlength stream hmem, List.take_left]
    have haccepted : validatePart output number previousEnd positions part =
        .ok (advance part positions output.streams, some bounds.2) := by
      refine (validatePart_eq_ok houtput).mpr ⟨hstreams, partOffset, bounds, ?_, ?_, hmeets, rfl⟩
      · exact hpart.congr fun stream hmem => hsegment stream (hstreams ▸ hmem)
      · rwa [spans_iff, ← intervals_congr hsegment, ← spans_iff]
    have hnext : ∀ stream ∈ output.streams, rest stream =
        (output.packets stream).drop (advance part positions output.streams stream) := by
      intro stream hmem
      rw [advance_of_mem hmem, ← List.drop_drop, hleft stream hmem, hlength stream hmem,
        List.drop_left]
    have hnextWithin : ∀ stream ∈ output.streams,
        advance part positions output.streams stream ≤ (output.packets stream).length := by
      intro stream hmem
      have hcount := congrArg List.length (hleft stream hmem)
      rw [List.length_drop, List.length_append] at hcount
      rw [advance_of_mem hmem, hlength stream hmem]
      have := hwithin stream hmem
      omega
    obtain ⟨final, hok, hfinal⟩ := ih (number + 1) _ hnext hnextWithin
    refine ⟨final, ?_, hfinal⟩
    rw [validateParts, haccepted]
    exact hok

/-- The packets of a part, each with its times moved by an offset and nothing else changed. -/
def Packet.shift (offset : ℚ) (packet : Packet) : Packet :=
  { packet with pts := packet.pts.map (· + offset), dts := packet.dts.map (· + offset) }

/-- The joined streams are the streams of the parts, one part after the other, each part
moved as a whole to where the previous one ends. Every stream has packets, and every packet
a presentation time or a decode time. -/
inductive Concatenates (streams : List Int) :
    Option ℚ → List Timeline → (Int → List Packet) → Prop
  | done {previousEnd : Option ℚ} {packets : Int → List Packet}
      (hempty : ∀ stream ∈ streams, packets stream = []) :
      Concatenates streams previousEnd [] packets
  | part {previousEnd : Option ℚ} {packets : Int → List Packet} {part : Timeline}
      {parts : List Timeline} (rest : Int → List Packet) (offset : ℚ) (bounds : ℚ × ℚ)
      (hstreams : part.streams = streams)
      (hnonempty : ∀ stream ∈ streams, part.packets stream ≠ [])
      (htimed : ∀ stream ∈ streams, ∀ packet ∈ part.packets stream,
        packet.pts.isSome ∨ packet.dts.isSome)
      (hpackets : ∀ stream ∈ streams,
        packets stream = (part.packets stream).map (Packet.shift offset) ++ rest stream)
      (hspans : Spans streams (fun stream => (part.packets stream).map (Packet.shift offset)) bounds)
      (htouches : ∀ finish ∈ previousEnd, bounds.1 = finish)
      (hrest : Concatenates streams (some bounds.2) parts rest) :
      Concatenates streams previousEnd (part :: parts) packets

theorem agrees_refl {time : Option ℚ} : Agrees time time := by
  intro before hbefore after hafter
  obtain rfl := Option.mem_unique hbefore hafter
  rw [sub_self, abs_zero, timingTolerance, slack]
  norm_num

theorem follows_shift (htimed : packet.pts.isSome ∨ packet.dts.isSome) :
    Follows offset packet (packet.shift offset) where
  shared := by simpa [Packet.shift] using htimed
  pts := agrees_refl
  dts := agrees_refl

theorem packetOffset_shift (htimed : packet.pts.isSome ∨ packet.dts.isSome) :
    packetOffset packet (packet.shift offset) = some offset := by
  obtain ⟨pts, dts, duration⟩ := packet
  cases pts with
  | some before => simp [packetOffset, Packet.shift]
  | none =>
    obtain ⟨before, rfl⟩ := Option.isSome_iff_exists.mp (htimed.resolve_left Bool.false_ne_true)
    simp [packetOffset, Packet.shift]

theorem streamJoins_shift (hne : source ≠ [])
    (htimed : ∀ packet ∈ source, packet.pts.isSome ∨ packet.dts.isSome) (offset : ℚ) :
    StreamJoins offset offset source (source.map (Packet.shift offset)) where
  nonempty := hne
  first := by
    obtain ⟨packet, source, rfl⟩ := List.exists_cons_of_ne_nil hne
    exact packetOffset_shift (htimed packet List.mem_cons_self)
  aligned := by
    have hpositive : timingTolerance ≤ startTolerance source := by
      rw [startTolerance]
      cases source.head?.bind Packet.duration with
      | none => exact le_rfl
      | some duration => exact le_max_left _ _
    rw [sub_self, abs_zero]
    have : (0 : ℚ) ≤ timingTolerance + slack := by
      rw [timingTolerance, slack]
      norm_num
    linarith
  carried := by
    refine ⟨List.forall₂_map_right_iff.mpr (List.forall₂_same.mpr fun packet hmem =>
      follows_shift (htimed packet hmem)), ?_⟩
    rw [← List.map_dropLast]
    exact List.forall₂_map_right_iff.mpr (List.forall₂_same.mpr fun packet _ => agrees_refl)

/-- An exact concatenation is a join. -/
theorem Concatenates.joins {streams : List Int} {packets : Int → List Packet}
    (hexact : Concatenates streams previousEnd parts packets) :
    Joins streams previousEnd parts packets := by
  induction hexact with
  | done hempty => exact .done hempty
  | part rest offset bounds hstreams hnonempty htimed hpackets hspans htouches _ ih =>
    have hjoins (stream : Int) (hmem : stream ∈ streams) :=
      streamJoins_shift (hnonempty stream hmem) (htimed stream hmem) offset
    refine .part _ rest offset bounds hstreams hpackets ⟨?_, ?_⟩ hspans ?_ ih
    · intro stream hhead
      exact (hjoins stream (hstreams ▸ List.mem_of_mem_head? hhead)).first
    · intro stream hmem
      exact ⟨offset, hjoins stream (hstreams ▸ hmem)⟩
    · intro finish hfinish
      rw [htouches finish hfinish, sub_self, abs_zero, boundaryTolerance]
      norm_num

/-- The final check passes when the parts account for all packets of every stream. -/
theorem find_extra_eq_none {final : Int → Nat} :
    (output.rows.find? fun row => final row.1 ≠ row.2.length) = none ↔
      ∀ stream ∈ output.streams, final stream = (output.packets stream).length := by
  rw [List.find?_eq_none]
  constructor
  · intro hall stream hmem
    obtain ⟨row, hrow, rfl⟩ := Timeline.mem_streams.mp hmem
    rw [Timeline.packets_of_mem hrow]
    simpa using hall row hrow
  · intro hall row hrow
    have hcount := hall row.1 (Timeline.mem_streams.mpr ⟨row, hrow, rfl⟩)
    rw [Timeline.packets_of_mem hrow] at hcount
    simpa using hcount

/-- The verifier accepts exactly the joins of at least one part with at least one stream. -/
theorem validateTimeline_eq_ok :
    validateTimeline parts output = .ok () ↔
      parts ≠ [] ∧ output.rows ≠ [] ∧ Joins output.streams none parts output.packets := by
  rw [validateTimeline]
  split
  case isTrue hempty =>
    refine ⟨nofun, fun ⟨hparts, houtput, _⟩ => ?_⟩
    simp [hparts, houtput] at hempty
  case isFalse hpresent =>
    simp only [Bool.or_eq_true, List.isEmpty_iff, not_or] at hpresent
    obtain ⟨hparts, houtput⟩ := hpresent
    rw [and_iff_right hparts, and_iff_right houtput, bind_eq_ok]
    constructor
    · rintro ⟨final, hok, hchecked⟩
      cases hextra : output.rows.find? fun row => final row.1 ≠ row.2.length with
      | some row => simp only [hextra, reduceCtorEq] at hchecked
      | none =>
        simpa using joins_of_validateParts houtput (find_extra_eq_none.mp hextra) hok
    · intro hjoins
      obtain ⟨final, hok, hfinal⟩ := validateParts_of_joins houtput hjoins 1 (fun _ => 0)
        (fun _ _ => rfl) (fun _ _ => Nat.zero_le _)
      refine ⟨final, hok, ?_⟩
      rw [find_extra_eq_none.mpr hfinal]
      rfl

/-- An accepted joined file has the streams of every part, and its packets are those of the
parts in order, within the tolerances; and every exact concatenation of touching parts is
accepted. -/
theorem validateTimeline_sound_and_complete (parts : List Timeline) (output : Timeline) :
    (validateTimeline parts output = .ok () ↔
      parts ≠ [] ∧ output.rows ≠ [] ∧ Joins output.streams none parts output.packets) ∧
    (parts ≠ [] → output.rows ≠ [] → Concatenates output.streams none parts output.packets →
      validateTimeline parts output = .ok ()) :=
  ⟨validateTimeline_eq_ok, fun hparts houtput hexact =>
    validateTimeline_eq_ok.mpr ⟨hparts, houtput, hexact.joins⟩⟩

/-- A file with one stream. -/
def singleStream (packets : List Packet) : Timeline := ⟨[(0, packets)], List.nodup_singleton 0⟩

/-- A packet of one second. -/
def second (time : ℚ) : Packet := ⟨some time, none, some 1⟩

/-- Two parts of a second each, the second one moved by a second. -/
theorem two_seconds_accepted :
    Concatenates (singleStream [second 0, second 1]).streams none
        [singleStream [second 0], singleStream [second 0]]
        (singleStream [second 0, second 1]).packets ∧
      validateTimeline [singleStream [second 0], singleStream [second 0]]
        (singleStream [second 0, second 1]) = .ok () := by
  have hexact : Concatenates (singleStream [second 0, second 1]).streams none
      [singleStream [second 0], singleStream [second 0]]
      (singleStream [second 0, second 1]).packets := by
    have hstreams (packets : List Packet) : (singleStream packets).streams = [0] := rfl
    have hpackets (packets : List Packet) : (singleStream packets).packets 0 = packets := rfl
    rw [hstreams]
    refine .part (fun _ => [second 1]) 0 (0, 1) (hstreams _) ?_ ?_ ?_ ?_ (by simp)
      (.part (fun _ => []) 1 (1, 2) (hstreams _) ?_ ?_ ?_ ?_ (by simp) (.done (by simp)))
    all_goals simp [spans_iff, hpackets, second, Packet.shift, intervals, extent, widen,
      Packet.interval]
    norm_num
  exact ⟨hexact, (validateTimeline_sound_and_complete _ _).2 (List.cons_ne_nil _ _)
    (List.cons_ne_nil _ _) hexact⟩

/-- A joined packet may have a presentation time that its source lacks, and a packet without
any time is refused even if nothing changed. -/
theorem missing_time_gained_and_untimed_refused :
    validateTimeline [singleStream [⟨none, some 0, none⟩]] (singleStream [⟨some 5, some 0, none⟩]) =
        .ok () ∧
      validateTimeline [singleStream [⟨none, none, some 1⟩]] (singleStream [⟨none, none, some 1⟩]) =
        .error (.missingTimestamps 1 0) := by
  refine ⟨?_, rfl⟩
  decide +kernel

end NixConfig.MediaRepair.JoinVerification
