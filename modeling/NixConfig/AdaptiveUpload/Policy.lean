/-
# Adaptive upload policy

While somebody watches a film from outside, uploads get what the streams leave.
A decision observes a target, or falls back to a fixed one if it cannot observe
any. A lower target takes effect at once. A higher one is first written down as
pending, and takes effect only if it is still observed after a hold; any other
observation in between starts over. Each decision reads the state that the one
before saved, and forgets a target that the configured rates do not allow.

That is where the hold can be lost. A fallback below the minimum is saved like
any other target and then forgotten, and the next decision starts from nothing.

Rates and times are exact rational numbers.
-/

import NixConfig.Data.Rounding

namespace NixConfig.AdaptiveUpload

open Data

/-! ## Configuration -/

/-- `NightRateConfig`. Times of the day count in any unit. -/
structure NightRate where
  start : Nat
  stop : Nat
  rateMbit : ℚ
  rate_pos : 0 < rateMbit
  /-- `validate_window` -/
  window : start ≠ stop

/-- `NightRateSchedule.applies_at` -/
def NightRate.appliesAt (night : NightRate) (localTime : Nat) : Bool :=
  if night.start < night.stop then night.start ≤ localTime ∧ localTime < night.stop
  else night.start ≤ localTime ∨ localTime < night.stop

/-- `DecisionConfig`, as `load_config` accepts it and without what the exporter is
reached by. -/
structure Config where
  noStreamsMbit : ℚ
  night : Option NightRate
  minimumStreamsMbit : ℚ
  fallbackMbit : ℚ
  relaxationHoldSeconds : ℚ
  noStreams_pos : 0 < noStreamsMbit
  minimum_pos : 0 < minimumStreamsMbit
  fallback_pos : 0 < fallbackMbit
  hold_nonneg : 0 ≤ relaxationHoldSeconds
  minimum_le : minimumStreamsMbit ≤ noStreamsMbit
  minimum_le_night : ∀ schedule ∈ night, minimumStreamsMbit ≤ schedule.rateMbit

/-- `maximum_rate_mbit` -/
def Config.maximumRateMbit (config : Config) : ℚ :=
  max config.noStreamsMbit ((config.night.map NightRate.rateMbit).getD config.noStreamsMbit)

/-- The rate without streams, by night or by day. -/
def Config.idleRateMbit (config : Config) (localTime : Nat) : ℚ :=
  match config.night with
  | some night => if night.appliesAt localTime then night.rateMbit else config.noStreamsMbit
  | none => config.noStreamsMbit

/-! ## Observation -/

inductive Reason
  | noActiveMediaStreams
  | missingBitrate
  | bitrateBased
  | exporterUnreachable
  /-- `holding_before_relaxation_to_…` -/
  | holding (reason : Reason)
  deriving DecidableEq

/-- `MediaStreamStats` -/
structure StreamStats where
  total : Nat
  external : Nat
  externalBitrateBps : Nat
  externalMissingBitrate : Nat

structure ObservedPolicy where
  bitrateBitsPerSecond : Option Nat
  activeExternalStreams : Option Nat
  activeStreamsTotal : Option Nat
  exporterOk : Bool
  missingBitrateSessions : Option Nat
  reason : Reason
  reservedMbit : Option ℚ
  targetMbit : ℚ
  deriving DecidableEq

/-- What external streams reserve. -/
def reserved (stats : StreamStats) : ℚ := roundTenths (stats.externalBitrateBps / 1000000)

/-- `observed_policy_from_stream_stats` -/
def observedPolicyFromStreamStats (config : Config) (stats : StreamStats) (localTime : Nat) :
    ObservedPolicy :=
  let idle := config.idleRateMbit localTime
  let decided : ℚ × Reason × Option ℚ :=
    if stats.external = 0 then (idle, .noActiveMediaStreams, some 0)
    else if 0 < stats.externalMissingBitrate then
      (config.minimumStreamsMbit, .missingBitrate, none)
    else
      (roundTenths (min idle (max config.minimumStreamsMbit (idle - reserved stats))),
        .bitrateBased, some (reserved stats))
  { bitrateBitsPerSecond := some stats.externalBitrateBps
    activeExternalStreams := some stats.external
    activeStreamsTotal := some stats.total
    exporterOk := true
    missingBitrateSessions := some stats.externalMissingBitrate
    reason := decided.2.1
    reservedMbit := decided.2.2
    targetMbit := decided.1 }

/-- `fallback_observed_policy` -/
def fallbackObservedPolicy (config : Config) : ObservedPolicy :=
  { bitrateBitsPerSecond := none
    activeExternalStreams := none
    activeStreamsTotal := none
    exporterOk := false
    missingBitrateSessions := none
    reason := .exporterUnreachable
    reservedMbit := none
    targetMbit := config.fallbackMbit }

/-- What a decision is given: the clock, the time of the day, and what the
exporter answered, if it did. -/
structure Input where
  now : ℚ
  localTime : Nat
  stats : Option StreamStats

/-- `decide_observed_policy` -/
def decideObservedPolicy (config : Config) (input : Input) : ObservedPolicy :=
  match input.stats with
  | some stats => observedPolicyFromStreamStats config stats input.localTime
  | none => fallbackObservedPolicy config

/-! ## Decision -/

/-- `PolicyState`, without the time of its last update, which decisions do not
read. -/
structure PolicyState where
  observed : ObservedPolicy
  reason : Reason
  relaxationHoldSeconds : ℚ
  pendingSince : Option ℚ
  pendingTargetMbit : Option ℚ
  targetMbit : ℚ
  deriving DecidableEq

/-- The bounds that the fields of `PolicyState` are declared with. -/
def PolicyState.Valid (state : PolicyState) : Prop :=
  0 < state.observed.targetMbit ∧ 0 ≤ state.relaxationHoldSeconds ∧
    (∀ pending ∈ state.pendingTargetMbit, 0 < pending) ∧
    (∀ mbit ∈ state.observed.reservedMbit, 0 ≤ mbit) ∧ 0 < state.targetMbit

instance (state : PolicyState) : Decidable state.Valid := inferInstanceAs (Decidable (_ ∧ _))

/-- `TARGET_MBIT_EPSILON` -/
def epsilon : ℚ := 1 / 20

/-- Whether the configured rates allow a target. -/
def Config.allows (config : Config) (target : ℚ) : Bool :=
  config.minimumStreamsMbit - epsilon ≤ target ∧ target ≤ config.maximumRateMbit + epsilon

/-- What a decision reads of the state before. -/
structure Loaded where
  current : Option ℚ
  pending : Option (ℚ × ℚ)

/-- `load_decider_state`: nothing of a file that is missing or does not
validate. -/
def loadDeciderState (config : Config) (file : Option PolicyState) : Loaded :=
  match file with
  | none => ⟨none, none⟩
  | some state =>
    let target := roundTenths state.targetMbit
    let current := if config.allows target then some target else none
    match state.pendingTargetMbit, state.pendingSince with
    | some pending, some since =>
      if config.allows (roundTenths pending) then ⟨current, some (roundTenths pending, since)⟩
      else ⟨current, none⟩
    | _, _ => ⟨current, none⟩

/-- `build_policy_state`: nothing if the state does not validate. -/
def buildPolicyState (config : Config) (observed : ObservedPolicy) (target : ℚ) (reason : Reason)
    (pending : Option (ℚ × ℚ)) : Option PolicyState :=
  let state : PolicyState :=
    { observed := observed
      reason := reason
      relaxationHoldSeconds := config.relaxationHoldSeconds
      pendingSince := pending.map Prod.snd
      pendingTargetMbit := pending.map fun entry => roundTenths entry.1
      targetMbit := roundTenths target }
  if state.Valid then some state else none

/-- The target and the reason that a decision takes, and what it leaves pending. -/
def chooseTarget (config : Config) (loaded : Loaded) (observed : ObservedPolicy) (now : ℚ) :
    ℚ × Reason × Option (ℚ × ℚ) :=
  match loaded.current with
  | none => (observed.targetMbit, observed.reason, none)
  | some current =>
    if observed.targetMbit < current - epsilon then
      (observed.targetMbit, observed.reason, none)
    else if |observed.targetMbit - current| ≤ epsilon then (current, observed.reason, none)
    else
      match loaded.pending with
      | none => (current, .holding observed.reason, some (observed.targetMbit, now))
      | some (pending, since) =>
        if epsilon < |pending - observed.targetMbit| then
          (current, .holding observed.reason, some (observed.targetMbit, now))
        else if config.relaxationHoldSeconds ≤ now - since then
          (observed.targetMbit, observed.reason, none)
        else (current, .holding observed.reason, some (pending, since))

/-- `decide_effective_policy` -/
def decideEffectivePolicy (config : Config) (file : Option PolicyState) (input : Input) :
    Option PolicyState :=
  let observed := decideObservedPolicy config input
  let (target, reason, pending) :=
    chooseTarget config (loadDeciderState config file) observed input.now
  buildPolicyState config observed target reason pending

/-! ## One decision -/

section Decision

variable {config : Config}

theorem epsilon_pos : 0 < epsilon := by norm_num [epsilon]

theorem abs_roundTenths_sub_le_epsilon (x : ℚ) : |roundTenths x - x| ≤ epsilon :=
  abs_roundTenths_sub_le x

theorem idleRateMbit_bounds (config : Config) (localTime : Nat) :
    config.minimumStreamsMbit ≤ config.idleRateMbit localTime ∧
      config.idleRateMbit localTime ≤ config.maximumRateMbit := by
  have hday : config.noStreamsMbit ≤ config.maximumRateMbit := le_max_left _ _
  rw [Config.idleRateMbit]
  cases hnight : config.night with
  | none => exact ⟨config.minimum_le, hday⟩
  | some night =>
    have hrate : night.rateMbit ≤ config.maximumRateMbit := by
      rw [Config.maximumRateMbit, hnight]
      exact le_max_right _ _
    by_cases happlies : night.appliesAt localTime
    · simpa [happlies] using ⟨config.minimum_le_night night hnight, hrate⟩
    · simpa [happlies] using ⟨config.minimum_le, hday⟩

/-- Rounding a target between the rates leaves one that they allow. -/
theorem allows_roundTenths {target : ℚ} (hlow : config.minimumStreamsMbit ≤ target)
    (hhigh : target ≤ config.maximumRateMbit) : config.allows (roundTenths target) := by
  have hnear := abs_le.mp (abs_roundTenths_sub_le_epsilon target)
  rw [Config.allows, decide_eq_true_eq]
  constructor <;> linarith

/-- What is observed of streams is allowed. -/
theorem allows_observed (config : Config) (stats : StreamStats) (localTime : Nat) :
    config.allows
      (roundTenths (observedPolicyFromStreamStats config stats localTime).targetMbit) := by
  obtain ⟨hidle, hmaximum⟩ := idleRateMbit_bounds config localTime
  rw [observedPolicyFromStreamStats]
  by_cases hnone : stats.external = 0
  · simpa [hnone] using allows_roundTenths hidle hmaximum
  · by_cases hmissing : 0 < stats.externalMissingBitrate
    · simpa [hnone, hmissing] using allows_roundTenths le_rfl (hidle.trans hmaximum)
    · have hleft : config.minimumStreamsMbit ≤ min (config.idleRateMbit localTime)
          (max config.minimumStreamsMbit (config.idleRateMbit localTime - reserved stats)) :=
        le_min hidle (le_max_left _ _)
      simpa [hnone, hmissing] using allows_roundTenths hleft ((min_le_left _ _).trans hmaximum)

/-- What a decision may do with the target that it observes: it takes it if there
is none, or if it is lower, or if it was pending for as long as the hold. -/
inductive Choice (config : Config) (loaded : Loaded) (observed now : ℚ) :
    ℚ → Option (ℚ × ℚ) → Prop
  | fresh (hcurrent : loaded.current = none) : Choice config loaded observed now observed none
  | tighten (current : ℚ) (hcurrent : loaded.current = some current)
      (hlower : observed < current - epsilon) : Choice config loaded observed now observed none
  | keep (current : ℚ) (hcurrent : loaded.current = some current) :
      Choice config loaded observed now current none
  | wait (current : ℚ) (hcurrent : loaded.current = some current) :
      Choice config loaded observed now current (some (observed, now))
  | relax (current pending since : ℚ) (hcurrent : loaded.current = some current)
      (hpending : loaded.pending = some (pending, since)) (hnear : |pending - observed| ≤ epsilon)
      (hheld : config.relaxationHoldSeconds ≤ now - since) :
      Choice config loaded observed now observed none
  | hold (current pending since : ℚ) (hcurrent : loaded.current = some current)
      (hpending : loaded.pending = some (pending, since)) (hnear : |pending - observed| ≤ epsilon) :
      Choice config loaded observed now current (some (pending, since))

theorem choice_chooseTarget (config : Config) (loaded : Loaded) (observed : ObservedPolicy)
    (now : ℚ) : Choice config loaded observed.targetMbit now
      (chooseTarget config loaded observed now).1 (chooseTarget config loaded observed now).2.2 := by
  rw [chooseTarget]
  cases hcurrent : loaded.current with
  | none => exact .fresh hcurrent
  | some current =>
    by_cases hlower : observed.targetMbit < current - epsilon
    · simpa only [hlower, if_true] using .tighten current hcurrent hlower
    · by_cases hsame : |observed.targetMbit - current| ≤ epsilon
      · simpa only [hlower, hsame, if_true, if_false] using .keep current hcurrent
      · simp only [hlower, hsame, if_false]
        cases hpending : loaded.pending with
        | none => exact .wait current hcurrent
        | some entry =>
          obtain ⟨pending, since⟩ := entry
          by_cases hfar : epsilon < |pending - observed.targetMbit|
          · simpa only [hfar, if_true] using .wait current hcurrent
          · have hnear := le_of_not_gt hfar
            by_cases hheld : config.relaxationHoldSeconds ≤ now - since
            · simpa only [hfar, hheld, if_true, if_false] using
                .relax current pending since hcurrent hpending hnear hheld
            · simpa only [hfar, hheld, if_false] using
                .hold current pending since hcurrent hpending hnear

/-- What a decision saves. -/
theorem decideEffectivePolicy_some {file : Option PolicyState} {input : Input}
    {state : PolicyState} (hdecide : decideEffectivePolicy config file input = some state) :
    state.Valid ∧ state.observed = decideObservedPolicy config input ∧ ∃ target pending,
      Choice config (loadDeciderState config file) state.observed.targetMbit input.now target
        pending ∧
      state.targetMbit = roundTenths target ∧ state.pendingSince = pending.map Prod.snd ∧
      state.pendingTargetMbit = pending.map fun entry => roundTenths entry.1 := by
  rw [decideEffectivePolicy] at hdecide
  simp only [buildPolicyState] at hdecide
  split at hdecide
  · rename_i hvalid
    cases hdecide
    exact ⟨hvalid, rfl, _, _, choice_chooseTarget config _ _ input.now, rfl, rfl, rfl⟩
  · cases hdecide

end Decision

/-! ## Runs -/

/-- A decision that was saved. -/
structure Decision where
  input : Input
  state : PolicyState

/-- Decisions, most recent first, each of which reads what the one before saved. -/
inductive Run (config : Config) : List Decision → Prop
  | start : Run config []
  | next {past : List Decision} {input : Input} {state : PolicyState} (hrun : Run config past)
      (hdecide : decideEffectivePolicy config (past.head?.map Decision.state) input = some state) :
      Run config (⟨input, state⟩ :: past)

/-- Whether a decision has observed a target, give or take. -/
def Decision.Observes (decision : Decision) (pending : ℚ) : Prop :=
  |decision.state.observed.targetMbit - pending| ≤ epsilon

/-- A target has been observed since a decision at some time. -/
def ObservedSince (decisions : List Decision) (pending since : ℚ) : Prop :=
  ∃ between first before, decisions = between ++ first :: before ∧ first.input.now = since ∧
    ∀ decision ∈ between ++ [first], decision.Observes pending

/-- There was an earlier decision, at least as long ago as the hold, such that
all from there on observed the same target. -/
def Held (config : Config) (decision : Decision) (past : List Decision) : Prop :=
  ∃ between first before pending, past = between ++ first :: before ∧
    config.relaxationHoldSeconds ≤ decision.input.now - first.input.now ∧
    ∀ other ∈ decision :: (between ++ [first]), other.Observes pending

/-- What is known of the latest of some decisions. -/
structure Kept (config : Config) (latest : Decision) (past : List Decision) : Prop where
  positive : 0 < latest.state.targetMbit
  rounded : roundTenths latest.state.targetMbit = latest.state.targetMbit
  allowed : config.allows latest.state.targetMbit ∨
    latest.state.targetMbit = roundTenths config.fallbackMbit
  pending : ∀ pending since, latest.state.pendingTargetMbit = some pending →
    latest.state.pendingSince = some since →
    roundTenths pending = pending ∧ ObservedSince (latest :: past) pending since

section Runs

variable {config : Config} {latest : Decision} {past : List Decision}

/-- What the next decision reads. -/
theorem Kept.load (hkept : Kept config latest past) :
    (loadDeciderState config (some latest.state)).current =
        (if config.allows latest.state.targetMbit then some latest.state.targetMbit else none) ∧
      ∀ pending since,
        (loadDeciderState config (some latest.state)).pending = some (pending, since) →
        latest.state.pendingTargetMbit = some pending ∧
          latest.state.pendingSince = some since := by
  rw [loadDeciderState, hkept.rounded]
  cases htarget : latest.state.pendingTargetMbit with
  | none => exact ⟨rfl, fun pending since hloaded => by cases hloaded⟩
  | some pending =>
    cases hsince : latest.state.pendingSince with
    | none => exact ⟨rfl, fun pending since hloaded => by cases hloaded⟩
    | some since =>
      have hrounded := (hkept.pending pending since htarget hsince).1
      by_cases hallows : config.allows pending
      · simp [hrounded, hallows]
      · simp [hrounded, hallows]

/-- The target of the latest decision, if the next one reads any. -/
theorem Kept.current (hkept : Kept config latest past) {current : ℚ}
    (hcurrent : (loadDeciderState config (some latest.state)).current = some current) :
    current = latest.state.targetMbit ∧ config.allows latest.state.targetMbit := by
  rw [hkept.load.1] at hcurrent
  split at hcurrent
  · rename_i hallows
    exact ⟨(Option.some.inj hcurrent).symm, hallows⟩
  · cases hcurrent

/-- A decision that observes what has been observed since some time. -/
theorem ObservedSince.cons {decisions : List Decision} {decision : Decision} {pending since : ℚ}
    (hsince : ObservedSince decisions pending since) (hobserves : decision.Observes pending) :
    ObservedSince (decision :: decisions) pending since := by
  obtain ⟨between, first, before, rfl, htime, hall⟩ := hsince
  exact ⟨decision :: between, first, before, rfl, htime,
    List.forall_mem_cons.mpr ⟨hobserves, hall⟩⟩

/-- A target that a decision observes is allowed once it is rounded, or it is the
fallback. -/
theorem allows_or_fallback (config : Config) (input : Input) :
    config.allows (roundTenths (decideObservedPolicy config input).targetMbit) ∨
      (decideObservedPolicy config input).targetMbit = config.fallbackMbit := by
  rw [decideObservedPolicy]
  cases input.stats with
  | none => exact .inr rfl
  | some stats => exact .inl (allows_observed config stats input.localTime)

variable {input : Input} {state : PolicyState}

/-- One more decision keeps what is known, whatever is read. -/
theorem kept_of_decide {file : Option PolicyState}
    (hdecide : decideEffectivePolicy config file input = some state)
    (hcurrent : ∀ current, (loadDeciderState config file).current = some current →
      roundTenths current = current ∧ config.allows current)
    (hpending : ∀ pending since, (loadDeciderState config file).pending = some (pending, since) →
      roundTenths pending = pending ∧ ObservedSince past pending since) :
    Kept config ⟨input, state⟩ past := by
  obtain ⟨hvalid, hobserved, target, left, hchoice, htarget, hsince, hleft⟩ :=
    decideEffectivePolicy_some hdecide
  have hallowed : config.allows (roundTenths state.observed.targetMbit) ∨
      roundTenths state.observed.targetMbit = roundTenths config.fallbackMbit := by
    rw [hobserved]
    exact (allows_or_fallback config input).imp id fun heq => by rw [heq]
  refine ⟨hvalid.2.2.2.2, ?_, ?_, fun pending since htargets htimes => ?_⟩
  · change roundTenths state.targetMbit = state.targetMbit
    rw [htarget, roundTenths_roundTenths]
  · change config.allows state.targetMbit ∨ state.targetMbit = _
    rw [htarget]
    -- A target is either that of before or the one that is observed.
    cases hchoice with
    | fresh | tighten | relax => exact hallowed
    | keep _ hread | wait _ hread | hold _ _ _ hread =>
      obtain ⟨hrounded, hallows⟩ := hcurrent _ hread
      rw [hrounded]
      exact .inl hallows
  · change state.pendingTargetMbit = _ at htargets
    change state.pendingSince = _ at htimes
    rw [hleft] at htargets
    rw [hsince] at htimes
    cases hchoice with
    | fresh | tighten | keep | relax => cases htargets
    | wait =>
      cases htargets
      cases htimes
      refine ⟨roundTenths_roundTenths _, [], ⟨input, state⟩, past, rfl, rfl, ?_⟩
      intro decision hmem
      rw [List.nil_append, List.mem_singleton] at hmem
      rw [hmem, Decision.Observes, abs_sub_comm]
      exact abs_roundTenths_sub_le_epsilon _
    | hold current pending since hread hentry hnear =>
      obtain ⟨hrounded, hstretch⟩ := hpending pending since hentry
      cases htimes
      cases htargets
      change roundTenths (roundTenths pending) = roundTenths pending ∧
        ObservedSince _ (roundTenths pending) since
      rw [hrounded]
      refine ⟨hrounded, hstretch.cons ?_⟩
      rw [Decision.Observes, abs_sub_comm]
      exact hnear

theorem Kept.next (hkept : Kept config latest past)
    (hdecide : decideEffectivePolicy config (some latest.state) input = some state) :
    Kept config ⟨input, state⟩ (latest :: past) := by
  refine kept_of_decide hdecide (fun current hcurrent => ?_) fun pending since hentry => ?_
  · obtain ⟨rfl, hallows⟩ := hkept.current hcurrent
    exact ⟨hkept.rounded, hallows⟩
  · obtain ⟨htarget, hsince⟩ := hkept.load.2 pending since hentry
    exact hkept.pending pending since htarget hsince

theorem Run.kept (hrun : Run config (latest :: past)) : Kept config latest past := by
  generalize hdecisions : latest :: past = decisions at hrun
  induction hrun generalizing latest past with
  | start => cases hdecisions
  | @next before input state hrun hdecide ih =>
    cases hdecisions
    cases before with
    | nil =>
      exact kept_of_decide hdecide (fun current hcurrent => by cases hcurrent)
        fun pending since hentry => by cases hentry
    | cons previous earlier => exact (ih rfl).next hdecide

/-- Nothing that is observed exceeds a fallback above the rates. -/
theorem le_fallback_of_above (hfallback : config.maximumRateMbit + epsilon <
    roundTenths config.fallbackMbit) (input : Input) :
    roundTenths (decideObservedPolicy config input).targetMbit ≤
      roundTenths config.fallbackMbit := by
  rcases allows_or_fallback config input with hallows | heq
  · rw [Config.allows, decide_eq_true_eq] at hallows
    exact hallows.2.trans hfallback.le
  · rw [heq]

/-- Unless the fallback is below the rates, a target that rises was held. -/
theorem Kept.held (hkept : Kept config latest past)
    (hfallback : config.minimumStreamsMbit - epsilon ≤ roundTenths config.fallbackMbit ∨
      roundTenths config.fallbackMbit ≤ 0)
    (hdecide : decideEffectivePolicy config (some latest.state) input = some state)
    (hrise : latest.state.targetMbit + epsilon < state.targetMbit) :
    Held config ⟨input, state⟩ (latest :: past) := by
  obtain ⟨-, hobserved, target, left, hchoice, htarget, -, -⟩ := decideEffectivePolicy_some hdecide
  have hepsilon := epsilon_pos
  rw [htarget] at hrise
  cases hchoice with
  | fresh hcurrent =>
    -- What was forgotten is a fallback, and it is not below the rates.
    rw [hkept.load.1] at hcurrent
    have hforgotten : ¬ config.allows latest.state.targetMbit := by
      intro hallows
      simp [hallows] at hcurrent
    have hsaved := hkept.allowed.resolve_left hforgotten
    have hpositive := hkept.positive
    rw [hsaved] at hforgotten hrise hpositive
    have hlow := hfallback.resolve_right (not_le.mpr hpositive)
    have habove : config.maximumRateMbit + epsilon < roundTenths config.fallbackMbit := by
      rw [Config.allows, decide_eq_true_eq] at hforgotten
      push Not at hforgotten
      exact hforgotten hlow
    have hle := le_fallback_of_above habove input
    rw [← hobserved] at hle
    linarith
  | tighten current hcurrent hlower =>
    rw [(hkept.current hcurrent).1] at hlower
    have hnear := abs_le.mp (abs_roundTenths_sub_le_epsilon state.observed.targetMbit)
    linarith
  | keep current hcurrent | wait current hcurrent | hold current _ _ hcurrent =>
    rw [(hkept.current hcurrent).1, hkept.rounded] at hrise
    linarith
  | relax current pending since hcurrent hentry hnear hheld =>
    obtain ⟨hpending, hsince⟩ := hkept.load.2 pending since hentry
    obtain ⟨-, between, first, before, hsplit, htime, hall⟩ :=
      hkept.pending pending since hpending hsince
    refine ⟨between, first, before, pending, hsplit, ?_, List.forall_mem_cons.mpr ⟨?_, hall⟩⟩
    · rw [htime]
      exact hheld
    · rw [Decision.Observes, abs_sub_comm]
      exact hnear

end Runs

/-! ## A fallback below the rates -/

/-- The exporter does not answer. -/
def failedInput (now : ℚ) : Input := ⟨now, 0, none⟩

/-- The exporter answers that nobody watches anything. -/
def quietInput (now : ℚ) : Input := ⟨now, 0, some ⟨0, 0, 0, 0⟩⟩

section Below

variable {config : Config}

/-- A decision from nothing takes what it observes. -/
theorem decide_of_fresh {file : Option PolicyState} (input : Input)
    (hcurrent : (loadDeciderState config file).current = none)
    (hobserved : 0 < (decideObservedPolicy config input).targetMbit)
    (htarget : 0 < roundTenths (decideObservedPolicy config input).targetMbit)
    (hreserved : ∀ mbit ∈ (decideObservedPolicy config input).reservedMbit, 0 ≤ mbit) :
    ∃ state, decideEffectivePolicy config file input = some state ∧
      state.targetMbit = roundTenths (decideObservedPolicy config input).targetMbit := by
  have hchosen : chooseTarget config (loadDeciderState config file)
      (decideObservedPolicy config input) input.now =
      ((decideObservedPolicy config input).targetMbit,
        (decideObservedPolicy config input).reason, none) := by
    rw [chooseTarget, hcurrent]
  rw [decideEffectivePolicy, hchosen]
  exact ⟨_, if_pos ⟨hobserved, config.hold_nonneg, by simp, hreserved, htarget⟩, rfl⟩

/-- A fallback below the rates is forgotten, and what comes after it is not
held. -/
theorem exists_unheld (hbelow : roundTenths config.fallbackMbit <
    config.minimumStreamsMbit - epsilon) (hpositive : 0 < roundTenths config.fallbackMbit) :
    ∃ decision previous, Run config [decision, previous] ∧
      previous.state.targetMbit + epsilon < decision.state.targetMbit ∧
      ¬ Held config decision [previous] := by
  have hempty : (loadDeciderState config none).current = none := rfl
  obtain ⟨failed, hfailed, hfallback⟩ :=
    decide_of_fresh (failedInput 0) hempty config.fallback_pos hpositive (by rintro mbit ⟨⟩)
  have hfallback : failed.targetMbit = roundTenths config.fallbackMbit := hfallback
  -- The clock goes back, so that no hold has passed.
  have hforgotten : (loadDeciderState config (some failed)).current = none := by
    have hkept : Kept config ⟨failedInput 0, failed⟩ [] := (Run.next .start hfailed).kept
    have hnot : ¬ config.allows failed.targetMbit := by
      rw [hfallback, Config.allows, decide_eq_true_eq]
      exact fun hallows => hbelow.not_ge hallows.1
    rw [hkept.load.1]
    simp [hnot]
  obtain ⟨hidle, -⟩ := idleRateMbit_bounds config 0
  have hround := abs_le.mp (abs_roundTenths_sub_le_epsilon (config.idleRateMbit 0))
  have hhigher : roundTenths config.fallbackMbit < roundTenths (config.idleRateMbit 0) := by
    linarith
  obtain ⟨quiet, hquiet, hnext⟩ := decide_of_fresh (quietInput (-1)) hforgotten
    (config.minimum_pos.trans_le hidle) (hpositive.trans hhigher) (by rintro mbit ⟨⟩; exact le_rfl)
  have hnext : quiet.targetMbit = roundTenths (config.idleRateMbit 0) := hnext
  refine ⟨⟨quietInput (-1), quiet⟩, ⟨failedInput 0, failed⟩,
    .next (.next .start hfailed) hquiet, ?_, ?_⟩
  · change failed.targetMbit + epsilon < quiet.targetMbit
    rw [hfallback, hnext]
    have hstep := add_tenth_le_roundTenths hhigher
    rw [epsilon]
    linarith
  · rintro ⟨between, first, before, pending, hsplit, hheld, -⟩
    have hfirst : first = ⟨failedInput 0, failed⟩ := by
      cases between with
      | nil => exact (List.cons.inj hsplit).1.symm
      | cons head between => simp at hsplit
    rw [hfirst] at hheld
    have hpassed : config.relaxationHoldSeconds ≤ -1 - 0 := hheld
    linarith [config.hold_nonneg]

end Below

/-- Every rise of the target was held, exactly if the fallback is not below what
the rates allow, or is too small to be saved. -/
theorem rises_held_iff (config : Config) :
    (∀ decision previous earlier, Run config (decision :: previous :: earlier) →
      previous.state.targetMbit + epsilon < decision.state.targetMbit →
      Held config decision (previous :: earlier)) ↔
    (config.minimumStreamsMbit - epsilon ≤ roundTenths config.fallbackMbit ∨
      roundTenths config.fallbackMbit ≤ 0) := by
  constructor
  · intro hheld
    by_contra hnot
    push Not at hnot
    obtain ⟨decision, previous, hrun, hrise, hunheld⟩ := exists_unheld hnot.1 hnot.2
    exact hunheld (hheld decision previous [] hrun hrise)
  · intro hfallback decision previous earlier hrun hrise
    cases hrun with
    | next hbefore hdecide => exact hbefore.kept.held hfallback hdecide hrise

/-- A minimum of ten, and a fallback of eight. -/
def strictConfig : Config where
  noStreamsMbit := 25
  night := none
  minimumStreamsMbit := 10
  fallbackMbit := 8
  relaxationHoldSeconds := 90
  noStreams_pos := by norm_num
  minimum_pos := by norm_num
  fallback_pos := by norm_num
  hold_nonneg := by norm_num
  minimum_le := by norm_num
  minimum_le_night := by simp

/-- Nobody watches, and uploads get everything. -/
def quietState : PolicyState :=
  ⟨⟨some 0, some 0, some 0, true, some 0, .noActiveMediaStreams, some 0, 25⟩,
    .noActiveMediaStreams, 90, none, none, 25⟩

/-- The exporter has failed. -/
def failedState : PolicyState :=
  ⟨fallbackObservedPolicy strictConfig, .exporterUnreachable, 90, none, none, 8⟩

/-- Half a minute after the exporter failed, it answers, and the target rises from
the fallback to the idle rate at once, with a hold of ninety seconds. -/
theorem fallback_left_unheld :
    Run strictConfig [⟨quietInput 60, quietState⟩, ⟨failedInput 30, failedState⟩,
      ⟨quietInput 0, quietState⟩] ∧
    failedState.targetMbit + epsilon < quietState.targetMbit ∧
    ¬ Held strictConfig ⟨quietInput 60, quietState⟩
      [⟨failedInput 30, failedState⟩, ⟨quietInput 0, quietState⟩] := by
  refine ⟨.next (.next (.next .start ?_) ?_) ?_, ?_, ?_⟩
  · decide +kernel
  · decide +kernel
  · decide +kernel
  · norm_num [failedState, quietState, epsilon]
  · rintro ⟨between, first, before, pending, hsplit, hheld, -⟩
    -- Both earlier decisions are at most a minute old.
    have hmem : first ∈ [(⟨failedInput 30, failedState⟩ : Decision), ⟨quietInput 0, quietState⟩] := by
      rw [hsplit]
      exact List.mem_append_right _ List.mem_cons_self
    have hheld : (90 : ℚ) ≤ 60 - first.input.now := hheld
    rcases List.mem_cons.mp hmem with rfl | hmem
    · norm_num [failedInput] at hheld
    · cases List.mem_singleton.mp hmem
      norm_num [quietInput] at hheld

end NixConfig.AdaptiveUpload
