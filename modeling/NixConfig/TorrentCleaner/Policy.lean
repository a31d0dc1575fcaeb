/-
# Torrent policy and tracker aliases

The policy file says what may be cleaned up: torrents of unnamed trackers by
ratio, age and upload, and torrents of named trackers only once the obligations
of every such tracker are met, and never below the number that it retains. A
second file gives each named tracker its host. Both are read in full or not at
all, so the types below have no values that the readers reject.

Ratios, ages and rates are floats in the source and exact rationals here.

Of Python's library, what the host names go through is a parameter: stripping,
lowering, `ipaddress` and `urllib.parse`. Nothing is assumed of it.
-/

import Mathlib.Data.List.Nodup
import NixConfig.Data.Json
import NixConfig.Semantics.Fallible

namespace NixConfig.TorrentCleaner

open Data Semantics

/-- Why a run stops. -/
inductive Failure
  /-- `PolicyConfigError`: the aliases are not those of the policy -/
  | policyConfig
  /-- `ValueError` of the alias file or of a URL -/
  | value
  /-- `KeyError` -/
  | key (name : String)
  /-- A history that does not validate. -/
  | history
  /-- A file that cannot be read or written. -/
  | storage
  /-- `TransmissionRpcError` -/
  | rpc
  /-- `RecursionError` -/
  | recursion
  deriving DecidableEq

/-! ## The policy -/

structure CompletedCleanupPolicy where
  minimumRatio : ℚ
  minimumAgeDays : ℚ
  ratio_nonneg : 0 ≤ minimumRatio
  age_nonneg : 0 ≤ minimumAgeDays

structure CleanupPolicy where
  completed : CompletedCleanupPolicy
  maximumAgeDays : ℚ
  age_pos : 0 < maximumAgeDays
  /-- `validate_age_order` -/
  age_order : completed.minimumAgeDays ≤ maximumAgeDays

structure RetentionPolicy where
  minimumRetained : Nat
  minimumSeedDays : ℚ
  minimumAgeDays : ℚ
  seed_nonneg : 0 ≤ minimumSeedDays
  age_month : 30 ≤ minimumAgeDays

structure ActivityPolicy where
  windowDays : ℚ
  minimumUploadBytesPerSecond : ℚ
  window_pos : 0 < windowDays
  upload_pos : 0 < minimumUploadBytesPerSecond

/-- The parts of `TorrentPolicy` that cleaning reads: of the two classes, it is
the cleanup policy of the torrents that are not preferred. -/
structure TorrentPolicy where
  cleanup : Option CleanupPolicy
  trackers : List (String × RetentionPolicy)
  activity : ActivityPolicy
  names_nodup : (trackers.map Prod.fst).Nodup

/-- `policy.trackers[alias]` -/
def TorrentPolicy.retention (policy : TorrentPolicy) (name : String) :
    Except Failure RetentionPolicy :=
  match policy.trackers.lookup name with
  | some retention => .ok retention
  | none => .error (.key name)

/-- Why a torrent is cleaned up. -/
inductive Reason
  | maximumAge
  | highRatio
  | lowUpload
  deriving DecidableEq

/-- `cleanup_reasons` -/
def cleanupReasons (policy : Option CleanupPolicy) (ratio : Option ℚ) (complete : Bool)
    (completionAgeDays addedAgeDays : Option ℚ) (lowUpload : Bool) : List Reason :=
  match policy, completionAgeDays with
  | some policy, some completionAge =>
    if complete = false ∨ completionAge < policy.completed.minimumAgeDays then []
    else
      (if ∃ age ∈ addedAgeDays, policy.maximumAgeDays ≤ age then [.maximumAge] else []) ++
      (if ∃ value ∈ ratio, policy.completed.minimumRatio ≤ value then [.highRatio] else []) ++
      (if lowUpload then [.lowUpload] else [])
  | _, _ => []

/-! ## Hosts -/

structure Tracker where
  host : Option String
  announce : Option String

/-- What host names go through. -/
structure Python where
  /-- `str.strip` -/
  strip : String → String
  /-- `str.lower` -/
  lower : String → String
  /-- `str(ipaddress.ip_address(value))`, or nothing if that raises `ValueError` -/
  ipAddress : String → Option String
  /-- `urllib.parse.urlparse(value).hostname`, which may be `None`, or nothing if
  that raises `ValueError` -/
  urlHostname : String → Option (Option String)

/-- `value.rstrip(".")` -/
def stripDots (value : List Char) : List Char := (value.reverse.dropWhile (· == '.')).reverse

/-- `normalize_tracker_host`, up to a depth of calls. -/
def normalizeTrackerHost (python : Python) : Nat → String → Except Failure String
  | 0, _ => .error .recursion
  | depth + 1, rawValue =>
    let value := python.strip rawValue
    if value = "" then .ok ""
    else
      match python.ipAddress value with
      | some address => .ok address
      | none =>
        if "://".toList <:+: value.toList then
          match python.urlHostname value with
          | none => .error .value
          | some hostname => normalizeTrackerHost python depth (hostname.getD "")
        else if value.toList.head? = some '[' ∧ ']' ∈ value.toList then
          normalizeTrackerHost python depth
            (String.ofList (value.toList.tail.takeWhile (· != ']')))
        else
          let user := (value.toList.reverse.takeWhile (· != '@')).reverse
          let host := (user.takeWhile (· != '/')).takeWhile (· != ':')
          .ok (String.ofList (stripDots (python.lower (String.ofList host)).toList))

/-- Python's recursion limit. -/
def recursionLimit : Nat := 1000

/-- `[a-z0-9](?:[a-z0-9-]{0,61}[a-z0-9])?` -/
def isLabel (label : List Char) : Bool :=
  let sign (c : Char) : Bool := c.isDigit || c.isLower
  label ≠ [] && label.length ≤ 63 && label.all (fun c => sign c || c == '-') &&
    label.head?.all sign && label.getLast?.all sign

/-- The host of an alias, as the file gives it. -/
def aliasHost (python : Python) (rawHost : String) : Except Failure String :=
  let host := python.lower (python.strip rawHost)
  match python.ipAddress host with
  | some address => .ok address
  | none =>
    let stripped := stripDots host.toList
    if 253 < host.length ∨ ¬ (stripped.splitOn '.').all isLabel then .error .value
    else .ok (String.ofList stripped)

/-- Names of trackers, each with its host. -/
structure Aliases where
  items : List (String × String)
  names_nodup : (items.map Prod.fst).Nodup

/-- One more member of the alias file. -/
def addAlias (python : Python) (aliases : Aliases) (member : String × Json String) :
    Except Failure Aliases :=
  match member.2 with
  | .string rawHost => do
    let host ← aliasHost python rawHost
    if hrepeated : member.1 ∈ aliases.items.map Prod.fst then .error .value
    else if python.strip member.1 = "" ∨ host = "" ∨ host ∈ aliases.items.map Prod.snd then
      .error .value
    else
      .ok ⟨aliases.items ++ [(member.1, host)], by
        rw [List.map_append, List.nodup_append]
        refine ⟨aliases.names_nodup, List.nodup_singleton _, ?_⟩
        rintro name hname other hother rfl
        exact hrepeated (List.mem_singleton.mp hother ▸ hname)⟩
  | _ => .error .value

/-- `read_tracker_aliases`, of the document in the file. -/
def readTrackerAliases (python : Python) : Json String → Except Failure Aliases
  | .object members => members.foldlM (addAlias python) ⟨[], List.nodup_nil⟩
  | _ => .error .value

/-- `validate_tracker_aliases` -/
def validateTrackerAliases (policy : TorrentPolicy) (aliases : Aliases) : Except Failure Unit :=
  let names := policy.trackers.map Prod.fst
  let given := aliases.items.map Prod.fst
  if (∀ name ∈ names, name ∈ given) ∧ (∀ name ∈ given, name ∈ names) then .ok ()
  else .error .policyConfig

/-- `trackers_match_hosts` -/
def trackersMatchHosts (python : Python) (trackers : List Tracker) (hosts : List String) :
    Except Failure Bool :=
  (trackers.flatMap fun tracker => [tracker.host, tracker.announce].reduceOption).anyM
    fun rawHost => do
      let host ← normalizeTrackerHost python recursionLimit rawHost
      return host ≠ "" ∧ host ∈ hosts

/-- The names of some aliases whose host is among those of the trackers. -/
def matchingNames (python : Python) (trackers : List Tracker) :
    List (String × String) → Except Failure (List String)
  | [] => .ok []
  | (name, host) :: rest => do
    let found ← trackersMatchHosts python trackers [host]
    let others ← matchingNames python trackers rest
    return if found then name :: others else others

/-- `matching_tracker_aliases` -/
def matchingTrackerAliases (python : Python) (trackers : List Tracker) (aliases : Aliases) :
    Except Failure (List String) :=
  matchingNames python trackers aliases.items

/-! ## What is known once the files are read -/

variable {python : Python} {trackers : List Tracker} {matched : List String}

theorem matchingNames_sublist {items : List (String × String)}
    (hmatched : matchingNames python trackers items = .ok matched) :
    matched.Sublist (items.map Prod.fst) := by
  induction items generalizing matched with
  | nil =>
    cases hmatched
    exact List.Sublist.refl _
  | cons item rest ih =>
    obtain ⟨name, host⟩ := item
    obtain ⟨found, -, hrest⟩ := bind_eq_ok.mp hmatched
    obtain ⟨others, hothers, hmatched⟩ := bind_eq_ok.mp hrest
    cases hmatched
    cases found with
    | true => exact (ih hothers).cons_cons name
    | false => exact (ih hothers).cons name

/-- Each matching alias occurs once. -/
theorem nodup_of_matching {aliases : Aliases}
    (hmatched : matchingTrackerAliases python trackers aliases = .ok matched) : matched.Nodup :=
  (matchingNames_sublist hmatched).nodup aliases.names_nodup

end NixConfig.TorrentCleaner
