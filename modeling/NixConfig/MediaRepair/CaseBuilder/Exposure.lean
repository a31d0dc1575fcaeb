/-
# Local values that the planner sees

A completed download that Radarr will not import is enough to show what the
search misses. Radarr's message may say anything printable, and it reaches the
planner in the request. An absolute path in it is found exactly when it occurs
in its own escaped form, apart from paths with quotes, which may also match the
syntax around a string. An identifier with `<`, `>` or `&` is never found.
-/

import NixConfig.Data.JsonSearch
import NixConfig.MediaRepair.CaseBuilder.LocalValues

namespace NixConfig.MediaRepair.CaseBuilder

open Data Semantics
open Contracts

/-! ## A download that Radarr will not import -/

/-- A completed Usenet download of one file that Radarr will not import, with
the message it gives. -/
def blockedObservation (path identifier message : Text) : Observation where
  observedAt := 63900000000 * 1000000000
  correlation := {
    radarr := {
      id := 1
      movieID := none
      title := bytes "Movie"
      status := bytes "completed"
      trackedDownloadStatus := bytes "warning"
      trackedDownloadState := bytes "importBlocked"
      statusMessages := []
      errorMessage := message
      downloadID := identifier
      outputPath := path }
    download := {
      client := bytes "sabnzbd"
      sourceType := bytes "usenet"
      id := identifier
      name := bytes "Movie"
      complete := true
      outputPath := path
      labels := []
      completedAt := none
      totalSizeBytes := 1
      contentOwnership := bytes "output_tree"
      files := [] }
    downloadRoot := path
    rejectionReasons := [] }
  movie := none
  history := []
  manualImports := []
  inventory := {
    files := [⟨bytes "file:1", [bytes "movie"], ⟨0, 1, 1, 0⟩, none⟩]
    paths := [⟨bytes "file:1", path ++ bytes "/movie"⟩] }
  probes := [⟨bytes "file:1", ⟨.notCollected, none, .notCandidate⟩⟩]
  bluRayPlaylists := []
  dvdTitles := []

/-- The request made of it, given its digests and Radarr's message. -/
def blockedRequest (ref fingerprint caseID message : Text) : RepairCaseV3 where
  schemaVersion := schemaVersion
  caseID := caseID
  observedAt := 63900000000 * 1000000000
  radarr := {
    failure := {
      queueID := 1
      downloadRef := ref
      title := bytes "Movie"
      errorMessage := message
      status := bytes "completed"
      trackedDownloadStatus := bytes "warning"
      trackedDownloadState := bytes "importBlocked"
      statusMessages := []
      statusMessageCount := 0 }
    movie := none
    history := []
    manualImports := [] }
  download := {
    sourceType := bytes "usenet"
    client := bytes "sabnzbd"
    contentOwnership := bytes "output_tree"
    downloadRef := ref
    name := bytes "Movie"
    totalSizeBytes := 1
    fileCount := 1
    isComplete := true
    completedAt := none
    labels := [] }
  files := [{
    fileID := bytes "file:1"
    pathComponents := [bytes "movie"]
    sizeBytes := 1
    downloadMembership := none
    fingerprint := fingerprint
    extension := none
    disposition := bytes "evidence_only"
    dispositionReason := some (bytes "untracked")
    probe := unavailableProbe .notCollected .notCandidate }]
  capabilities := []

open CaseSchema Schema in
/-- The schema has no objection to the request: a printable message of up to
1024 characters may say anything. -/
theorem repairCase_blockedRequest {ref fingerprint caseID message : List Char}
    (href : isOpaqueId ref) (hfingerprint : isSha256Id fingerprint) (hcaseID : isSha256Id caseID)
    (hlength : message.length ≤ 1024) (hprintable : ∀ c ∈ message, isPrintable c) :
    repairCase ((blockedRequest (utf8 ref) (utf8 fingerprint) (utf8 caseID) (utf8 message)).json.map
      chars) := by
  have hmessage : safeText (.string message) = true := by
    simp only [safeText, string, Bool.and_eq_true, decide_eq_true_eq, List.all_eq_true]
    exact ⟨hlength, hprintable⟩
  simp only [blockedRequest, RepairCaseV3.json, Download.json, Radarr.json, Failure.json,
    FileElement.json, Probe.json, unavailableProbe, texts, timestamp, orNull, omitNil, omitEmpty,
    Json.map, Json.fold, Json.foldItems, Json.foldMembers, bytes, chars_utf8, List.map_nil,
    List.map_cons, Controller.MediaProbeReason.text, Controller.MediaProbeStatus.text,
    List.nil_append, List.cons_append, List.append_nil, schemaVersion]
  -- Member by member: what is fixed is evaluated, the rest is what was assumed.
  refine object_eq_true ⟨⟨_, rfl, by decide⟩, ⟨_, rfl, hcaseID⟩, ⟨_, rfl, ?download⟩,
    ⟨_, rfl, ?files⟩, ⟨_, rfl, by decide +kernel⟩, ⟨_, rfl, ?radarr⟩,
    ⟨_, rfl, by decide +kernel⟩⟩ rfl
  case download =>
    refine Bool.and_eq_true_iff.mpr ⟨object_eq_true ?_ rfl, rfl⟩
    repeat' first | exact ⟨_, rfl, href⟩ | exact ⟨_, rfl, by decide⟩ | constructor
  case files =>
    refine Bool.and_eq_true_iff.mpr ⟨Bool.and_eq_true_iff.mpr
      ⟨Bool.and_eq_true_iff.mpr ⟨?_, rfl⟩, rfl⟩, rfl⟩
    refine Bool.and_eq_true_iff.mpr ⟨object_eq_true ?_ rfl, rfl⟩
    repeat' first | exact ⟨_, rfl, hfingerprint⟩ | exact ⟨_, rfl, by decide +kernel⟩ | constructor
  case radarr =>
    refine object_eq_true ⟨⟨_, rfl, object_eq_true ?_ rfl⟩, ⟨_, rfl, by decide⟩,
      ⟨_, rfl, by decide⟩, ⟨_, rfl, by decide⟩⟩ rfl
    refine ⟨⟨_, rfl, href⟩, ⟨_, rfl, hmessage⟩, ?_⟩
    repeat' first | exact ⟨_, rfl, by decide⟩ | constructor

variable {request : RepairCaseV3} {message : Text} {cs ref fingerprint : List Char} {c : Char}

/-- A request that passed the search, with marshallable times, is finished when
the schema accepts it under every digest. -/
theorem finish_of_valid (libraries : Libraries) (observation : Observation)
    (htimes : (request.observedAt :: request.evidenceTimes).all marshals)
    (hvalid : ∀ digest, CaseSchema.repairCase
      (({ request with caseID := sha256Text digest } : RepairCaseV3).json.map chars))
    (bindings : List (Text × Controller.RadarrManualImportBinding)) :
    ∃ assembly digest, finish libraries observation request bindings = .ok assembly ∧
      assembly.request = { request with caseID := sha256Text digest } := by
  have hevidence : request.evidenceTimes.all marshals := (Bool.and_eq_true_iff.mp htimes).2
  obtain ⟨digest, hdigest⟩ := calculateCaseID_of_marshals libraries hevidence
  let named : RepairCaseV3 := { request with caseID := sha256Text digest }
  have hnamed : calculateCaseID libraries named = .ok named.caseID := hdigest
  have hencode : encodeCase libraries named = .ok (utf8 named.json.encode) :=
    encodeCase_of_valid hnamed htimes (hvalid digest)
  refine ⟨⟨named, utf8 named.json.encode, ⟨sha256Text digest, observation, bindings⟩⟩, digest,
    ?_, rfl⟩
  exact bind_eq_ok.mpr ⟨_, mapError_eq_ok.mpr hdigest,
    bind_eq_ok.mpr ⟨_, mapError_eq_ok.mpr hencode, rfl⟩⟩

theorem errorMessage_mem_strings (request : RepairCaseV3) :
    request.radarr.failure.errorMessage ∈ request.json.strings := by
  simp [RepairCaseV3.json, Radarr.json, Failure.json]

theorem exists_opaqueID_eq (libraries : Libraries) (kind : String) (values : List Text) :
    ∃ digest : Digest, opaqueID libraries (bytes kind) values =
      utf8 (kind.toList ++ ':' :: hexChars digest.val) := by
  refine ⟨libraries.sum256 (opaqueIDDomain ++ bytes kind ++
    values.flatMap fun value => 0 :: numeral value.length ++ 0 :: value), ?_⟩
  rw [opaqueID, bytes, bytes, hexEncode, ← utf8_append, ← utf8_append, List.append_assoc]
  rfl

/-- The request that is built of it. -/
theorem buildRequest_blocked (libraries : Libraries) (cs : List Char) (identifier message : Text) :
    ∃ ref fingerprint, CaseSchema.isOpaqueId ref ∧ CaseSchema.isSha256Id fingerprint ∧
      buildRequest libraries (blockedObservation (utf8 ('/' :: cs)) identifier message) =
        .ok (blockedRequest (utf8 ref) (utf8 fingerprint) [] message, []) := by
  obtain ⟨digest, hdigest⟩ := exists_opaqueID_eq libraries "download" [identifier]
  have hkind : CaseSchema.isOpaqueId "download".toList := by decide
  obtain ⟨identity, hidentity⟩ : ∃ identity : Digest,
      (Controller.FileFingerprint.mk 0 1 1 0).stableFingerprint libraries =
        utf8 ("sha256:".toList ++ hexChars identity.val) := ⟨_, sha256Text_eq_utf8 _⟩
  refine ⟨_, _, isOpaqueId_digest hkind (by decide) digest, isSha256Id_digest identity, ?_⟩
  rw [← hdigest, ← hidentity]
  rfl

/-- The search passes a request in which neither the path nor the identifier
is found: no other value is searched for but a file of that path. -/
theorem rejectLocalValues_blocked {libraries : Libraries} {path identifier : Text}
    (hmarshal : request.marshal = some (utf8 request.json.encode))
    (hpath : ¬ path <:+: utf8 request.json.encode)
    (hidentifier : ¬ toLower libraries.unicode identifier <:+:
      toLower libraries.unicode (utf8 request.json.encode)) :
    rejectLocalValues libraries request (blockedObservation path identifier message) = .ok () := by
  have hfile : ¬ path ++ bytes "/movie" <:+: utf8 request.json.encode := fun hwithin =>
    hpath (List.infix_append_left.trans hwithin)
  have hpaths : localPaths (blockedObservation path identifier message) =
      [path, path, path, path ++ bytes "/movie"] := rfl
  have hidentifiers : downloadIdentifiers (blockedObservation path identifier message) =
      [identifier, identifier] := rfl
  rw [rejectLocalValues, hmarshal, hpaths, hidentifiers]
  simp [contains, hpath, hfile, hidentifier]

/-- A message of up to 1024 printable characters reaches the planner when the
search passes its request. -/
theorem message_visible (libraries : Libraries) (cs : List Char) (identifier : Text)
    {message : List Char} (hlength : message.length ≤ 1024)
    (hprintable : ∀ c ∈ message, CaseSchema.isPrintable c)
    (hunfound : ∀ ref fingerprint : List Char, CaseSchema.isOpaqueId ref →
      CaseSchema.isSha256Id fingerprint →
      let encoded := utf8 (blockedRequest (utf8 ref) (utf8 fingerprint) []
        (utf8 message)).json.encode
      ¬ utf8 ('/' :: cs) <:+: encoded ∧
        ¬ toLower libraries.unicode identifier <:+: toLower libraries.unicode encoded) :
    ∃ assembly, assemble libraries
        (blockedObservation (utf8 ('/' :: cs)) identifier (utf8 message)) = .ok assembly ∧
      message ∈ assembly.visible := by
  obtain ⟨ref, fingerprint, href, hfingerprint, hbuild⟩ :=
    buildRequest_blocked libraries cs identifier (utf8 message)
  let request := blockedRequest (utf8 ref) (utf8 fingerprint) [] (utf8 message)
  have htimes : (request.observedAt :: request.evidenceTimes).all marshals := by
    have hmarshals : marshals (63900000000 * 1000000000) := by decide +kernel
    exact Bool.and_eq_true_iff.mpr ⟨hmarshals, rfl⟩
  -- Neither search finds anything, so the request goes through to the schema.
  obtain ⟨hpath, hidentifier⟩ := hunfound ref fingerprint href hfingerprint
  have hreject : rejectLocalValues libraries request
      (blockedObservation (utf8 ('/' :: cs)) identifier (utf8 message)) = .ok () :=
    rejectLocalValues_blocked (if_pos htimes) hpath hidentifier
  -- the message is short and printable, and all else is a fixed case
  have hvalid (digest : Digest) : CaseSchema.repairCase
      (({ request with caseID := sha256Text digest } : RepairCaseV3).json.map chars) := by
    rw [sha256Text_eq_utf8]
    exact repairCase_blockedRequest href hfingerprint (isSha256Id_digest digest) hlength hprintable
  obtain ⟨assembly, digest, hfinish, hnamed⟩ := finish_of_valid libraries
    (blockedObservation (utf8 ('/' :: cs)) identifier (utf8 message)) htimes hvalid []
  refine ⟨assembly, bind_eq_ok.mpr ⟨_, hbuild,
    bind_eq_ok.mpr ⟨(), mapError_eq_ok.mpr hreject, hfinish⟩⟩, ?_⟩
  have hmessage := errorMessage_mem_strings assembly.request
  rw [hnamed] at hmessage
  rw [Assembly.visible, Json.strings_map, hnamed]
  exact List.mem_map.mpr ⟨_, hmessage, chars_utf8 _⟩

/-! ## Identifiers that the search cannot find -/

/-- Characters with `<`, `>` or `&` among them are in no encoding. -/
theorem not_infix_encode_of_markup (hc : c ∈ cs) (hmarkup : c ∈ Json.markup) (json : Json Text) :
    ¬ utf8 cs <:+: utf8 json.encode := by
  intro hwithin
  exact Json.not_mem_markup_of_mem_encode ((infix_of_infix_utf8 hwithin).subset hc) hmarkup

/-- Nor are they in a lowered one. -/
theorem not_infix_toLower_of_markup (unicode : Unicode) (hc : c ∈ cs) (hmarkup : c ∈ Json.markup)
    (json : Json Text) :
    ¬ toLower unicode (utf8 cs) <:+: toLower unicode (utf8 json.encode) := by
  intro hwithin
  rw [toLower, toLower, chars_utf8, chars_utf8] at hwithin
  have hsign : ∀ c ∈ Json.markup, c.toNat < 0x80 ∧ c.toLower = c ∧ ¬ c.isAlpha := by decide
  obtain ⟨hascii, hfixed, hletter⟩ := hsign c hmarkup
  have hlower : unicode.lower c = c := (unicode.lower_ascii c hascii).trans hfixed
  have hfound := (infix_of_infix_utf8 hwithin).subset (List.mem_map.mpr ⟨c, hc, hlower⟩)
  obtain ⟨d, hd, hdlower⟩ := List.mem_map.mp hfound
  -- Only a letter is lowered to something else, so the sign itself was encoded.
  have hsame := unicode.eq_of_lower_sign d (hdlower ▸ hascii) (hdlower ▸ hletter)
  obtain rfl : d = c := hsame.symm.trans hdlower
  exact Json.not_mem_markup_of_mem_encode hd hmarkup

/-- Every printable identifier with `<`, `>` or `&` reaches the planner, given
a path that is not found either. -/
theorem identifier_shown_of_markup (libraries : Libraries)
    (hprintable : ∀ c ∈ cs, CaseSchema.isPrintable c) (hlength : cs.length ≤ 1024)
    (hmarkup : ∃ c ∈ cs, c ∈ Json.markup) :
    ∃ observation assembly, assemble libraries observation = .ok assembly ∧
      utf8 cs ∈ downloadIdentifiers observation ∧ assembly.ShowsIdentifier (utf8 cs) := by
  obtain ⟨c, hc, hmarkup⟩ := hmarkup
  have hsign : '&' ∈ ['/', '&'] := by decide
  obtain ⟨assembly, hassemble, hvisible⟩ := message_visible libraries ['&'] (utf8 cs) hlength
    hprintable fun _ _ _ _ => ⟨not_infix_encode_of_markup hsign (by decide) _,
      not_infix_toLower_of_markup libraries.unicode hc hmarkup _⟩
  exact ⟨_, assembly, hassemble, List.mem_cons_self, cs, hvisible, List.infix_rfl⟩

/-! ## Paths that the search cannot find -/

theorem slash_not_mem_of_isOpaqueId (hcs : CaseSchema.isOpaqueId cs) :
    '/' ∉ cs := by
  rcases cs with _ | ⟨first, rest⟩
  · exact List.not_mem_nil
  simp only [CaseSchema.isOpaqueId, Bool.and_eq_true, List.head?_cons, Option.all_some,
    List.tail_cons, List.all_eq_true] at hcs
  intro hmem
  rcases List.mem_cons.mp hmem with rfl | hmem
  · exact absurd hcs.1.2 (by decide)
  · exact absurd (hcs.2 _ hmem) (by decide)

theorem slash_not_mem_of_isSha256Id (hcs : CaseSchema.isSha256Id cs) :
    '/' ∉ cs := by
  simp only [CaseSchema.isSha256Id, Bool.and_eq_true, decide_eq_true_eq, List.all_eq_true] at hcs
  intro hmem
  rw [← List.take_append_drop 7 cs, hcs.1.1] at hmem
  rcases List.mem_append.mp hmem with hmem | hmem
  · exact absurd hmem (by decide)
  · exact absurd (hcs.2 _ hmem) (by decide)

/-- Two strings of the request can have a slash. -/
theorem eq_message_of_slash {text : Text} (href : CaseSchema.isOpaqueId ref)
    (hfingerprint : CaseSchema.isSha256Id fingerprint)
    (htext : text ∈ (blockedRequest (utf8 ref) (utf8 fingerprint) [] message).json.strings)
    (hslash : '/' ∈ chars text) : text = message ∨ text = schemaVersion := by
  have hplain (cs : List Char) (hcs : '/' ∉ cs) :
      '/' ∈ chars (utf8 cs) → utf8 cs = message ∨ utf8 cs = schemaVersion := fun hmem =>
    absurd (chars_utf8 cs ▸ hmem) hcs
  have hfixed (s : String) (hs : '/' ∉ s.toList) := hplain s.toList hs
  have hall : List.Forall (fun text => '/' ∈ chars text → text = message ∨ text = schemaVersion)
      [[], bytes "sabnzbd", bytes "output_tree", utf8 ref, bytes "Movie", bytes "usenet",
        bytes "evidence_only", bytes "untracked", bytes "file:1", utf8 fingerprint, bytes "movie",
        bytes "not_probe_candidate", bytes "not_probed",
        bytes "The file was retained as evidence but was not eligible for probing.",
        utf8 (rfc3339 (63900000000 * 1000000000)), utf8 ref, message, bytes "completed",
        bytes "Movie", bytes "importBlocked", bytes "warning", schemaVersion] :=
    ⟨hfixed "" (by decide), hfixed _ (by decide), hfixed _ (by decide),
      hplain _ (slash_not_mem_of_isOpaqueId href), hfixed _ (by decide), hfixed _ (by decide),
      hfixed _ (by decide), hfixed _ (by decide), hfixed _ (by decide),
      hplain _ (slash_not_mem_of_isSha256Id hfingerprint), hfixed _ (by decide),
      hfixed _ (by decide), hfixed _ (by decide), hfixed _ (by decide),
      hplain _ (by decide +kernel), hplain _ (slash_not_mem_of_isOpaqueId href),
      fun _ => .inl rfl, hfixed _ (by decide), hfixed _ (by decide), hfixed _ (by decide),
      hfixed _ (by decide), fun _ => .inr rfl⟩
  exact List.forall_iff_forall_mem.mp hall text htext hslash

/-- Radarr's message about a download in which it found nothing to import. -/
def blockedMessage (cs : List Char) : List Char :=
  "No files found are eligible for import in ".toList ++ '/' :: cs

theorem length_blockedMessage (cs : List Char) : (blockedMessage cs).length = cs.length + 43 := by
  have hfixed : "No files found are eligible for import in ".toList.length = 42 := by decide
  have hlength : (blockedMessage cs).length = _ := List.length_append
  rw [hfixed, List.length_cons] at hlength
  omega

theorem isPrintable_blockedMessage (hprintable : ∀ c ∈ cs, CaseSchema.isPrintable c) :
    ∀ c ∈ blockedMessage cs, CaseSchema.isPrintable c := by
  have hfixed : ∀ c ∈ "No files found are eligible for import in ".toList,
      CaseSchema.isPrintable c := by decide
  intro c hc
  rcases List.mem_append.mp hc with hc | hc
  · exact hfixed c hc
  · rcases List.mem_cons.mp hc with rfl | hc
    · decide
    · exact hprintable c hc

theorem escape_blockedMessage (cs : List Char) : escape (utf8 (blockedMessage cs)) =
    "No files found are eligible for import in ".toList.flatMap escapeChar ++
      ('/' :: cs).flatMap escapeChar :=
  (escape_utf8 _).trans List.flatMap_append

/-- A path without quotes is found in the request only in its message, or in
the version of its schema. -/
theorem not_infix_encode_of_path (href : CaseSchema.isOpaqueId ref)
    (hfingerprint : CaseSchema.isSha256Id fingerprint) (hquote : quote ∉ cs)
    (hmessage : ¬ '/' :: cs <:+: escape message)
    (hversion : ¬ '/' :: cs <:+: escape schemaVersion) :
    ¬ '/' :: cs <:+:
      (blockedRequest (utf8 ref) (utf8 fingerprint) [] message).json.encode := by
  refine Json.not_infix_encode (by decide) (by decide) hquote ?names ?strings
  case names =>
    have hall : ∀ name ∈ (blockedRequest [] [] [] []).json.names,
        '/' ∉ name.toList.flatMap escapeChar := by decide +kernel
    exact fun name hname hwithin => hall name hname (hwithin.subset List.mem_cons_self)
  case strings =>
    intro text htext hwithin
    have hslash : '/' ∈ chars text :=
      mem_chars_of_mem_escape (by decide) (hwithin.subset List.mem_cons_self)
    rcases eq_message_of_slash href hfingerprint htext hslash with rfl | rfl
    · exact hmessage hwithin
    · exact hversion hwithin

/-- A printable message reaches the planner when neither it nor the version has
the path of its download. -/
theorem message_visible_of_path (libraries : Libraries) {message : List Char} (hquote : quote ∉ cs)
    (hlength : message.length ≤ 1024) (hprintable : ∀ c ∈ message, CaseSchema.isPrintable c)
    (hmessage : ¬ '/' :: cs <:+: escape (utf8 message))
    (hversion : ¬ '/' :: cs <:+: escape schemaVersion) :
    ∃ assembly, assemble libraries (blockedObservation (utf8 ('/' :: cs)) (bytes "nzo&1")
        (utf8 message)) = .ok assembly ∧ message ∈ assembly.visible := by
  have hsign : '&' ∈ "nzo&1".toList := by decide
  exact message_visible libraries cs (bytes "nzo&1") hlength hprintable
    fun _ _ href hfingerprint =>
      ⟨fun hwithin => not_infix_encode_of_path href hfingerprint hquote hmessage hversion
          (infix_of_infix_utf8 hwithin),
        not_infix_toLower_of_markup libraries.unicode hsign (by decide) _⟩

/-- Every printable path that is not in its own escaped form, and has no quote,
reaches the planner in Radarr's message. -/
theorem path_shown_of_lost (libraries : Libraries) (hprintable : ∀ c ∈ cs, CaseSchema.isPrintable c)
    (hlength : cs.length ≤ 900) (hquote : quote ∉ cs)
    (hlost : ¬ '/' :: cs <:+: ('/' :: cs).flatMap escapeChar) :
    ∃ assembly, assemble libraries (blockedObservation (utf8 ('/' :: cs)) (bytes "nzo&1")
        (utf8 (blockedMessage cs))) = .ok assembly ∧ assembly.ShowsPath (utf8 ('/' :: cs)) := by
  have hshort : (blockedMessage cs).length ≤ 1024 := by
    rw [length_blockedMessage]
    omega
  have hmessage : ¬ '/' :: cs <:+: escape (utf8 (blockedMessage cs)) := by
    -- The only slashes of the message are those of the path.
    rw [escape_blockedMessage]
    exact fun hwithin => hlost (infix_of_infix_append (by decide) hwithin)
  have hversion : ¬ '/' :: cs <:+: escape schemaVersion := by
    -- The version has nothing to escape, so a path in it is its own escaped form.
    have hall : ∀ c ∈ escape schemaVersion, escapeChar c = [c] := by decide +kernel
    intro hwithin
    refine hlost ?_
    rw [List.flatMap_congr fun c hc => hall c (hwithin.subset hc), List.flatMap_singleton']
  obtain ⟨assembly, hassemble, hvisible⟩ :=
    message_visible_of_path libraries hquote hshort (isPrintable_blockedMessage hprintable)
      hmessage hversion
  exact ⟨assembly, hassemble, _, hvisible, utf8_infix_utf8 List.infix_append_right⟩

/-! ## Exactly the kept values are hidden -/

/-- A path of characters is kept when it is in its own escaped form, and only then. -/
theorem kept_utf8_iff (hproper : replacement ∉ cs) :
    Kept (utf8 cs) ↔ cs <:+: cs.flatMap escapeChar := by
  refine ⟨fun hkept => ?_, fun hsurvives => kept_of_survives ⟨cs, rfl, hproper, hsurvives⟩⟩
  have hself := hkept (utf8 cs) (by rw [chars_utf8])
  rw [escape_utf8] at hself
  exact infix_of_infix_utf8 hself

/-- A slash keeps a path out of the case identifier. -/
theorem not_infix_caseID_of_slash {libraries : Libraries} {observation : Observation}
    {assembly : Assembly} (hassemble : assemble libraries observation = .ok assembly)
    (hslash : '/' ∈ cs) : ¬ utf8 cs <:+: assembly.request.caseID := by
  obtain ⟨request, digest, -, hnamed, -⟩ := assemble_eq_ok hassemble
  rw [hnamed, sha256Text_eq_utf8]
  exact fun hwithin => slash_not_mem_of_isSha256Id (isSha256Id_digest digest)
    ((infix_of_infix_utf8 hwithin).subset hslash)

/-- An assembly shows the planner a local value that is kept, or has a control character,
only if it is a part of the case identifier. Kept are all values in their own escaped form
and all that are no part of any text of characters. The condition cannot be dropped: of the
printable absolute paths without quotes, the kept ones are all that no assembly shows, and
printable identifiers with `<`, `>` or `&` are shown. -/
theorem planner_sees_no_kept_value {libraries : Libraries} {observation : Observation}
    {assembly : Assembly} (hassemble : assemble libraries observation = .ok assembly) :
    (∀ path ∈ localPaths observation, path ≠ [] → Kept path ∨ Unprintable path →
      (assembly.ShowsPath path ↔ path <:+: assembly.request.caseID)) ∧
    (∀ identifier ∈ downloadIdentifiers observation, identifier ≠ [] →
      KeptLower libraries.unicode identifier ∨ Unprintable identifier →
      (assembly.ShowsIdentifier identifier ↔
        identifier.map asciiLower <:+: assembly.request.caseID.map asciiLower)) ∧
    (∀ value, Survives value ∨ Unreadable value →
      Kept value ∧ KeptLower libraries.unicode value) ∧
    (∀ cs : List Char, (∀ c ∈ cs, CaseSchema.isPrintable c ∧ c ≠ quote ∧ c ≠ replacement) →
      cs.length ≤ 900 →
      (Kept (utf8 ('/' :: cs)) ↔ ∀ observation assembly,
        assemble libraries observation = .ok assembly → utf8 ('/' :: cs) ∈ localPaths observation →
        ¬ assembly.ShowsPath (utf8 ('/' :: cs)))) ∧
    (∀ cs : List Char, (∀ c ∈ cs, CaseSchema.isPrintable c) → cs.length ≤ 1024 →
      (∃ c ∈ cs, c ∈ Json.markup) →
      ∃ observation assembly, assemble libraries observation = .ok assembly ∧
        utf8 cs ∈ downloadIdentifiers observation ∧ assembly.ShowsIdentifier (utf8 cs)) := by
  refine ⟨fun path hpath hne hguarded => showsPath_iff hassemble hpath hne hguarded,
    fun identifier hidentifier hne hguarded =>
      showsIdentifier_iff hassemble hidentifier hne hguarded, fun value hvalue => ?_,
    fun cs hcs hlength => ?_, fun cs hprintable hlength hmarkup =>
      identifier_shown_of_markup libraries hprintable hlength hmarkup⟩
  · rcases hvalue with hsurvives | hunreadable
    · exact ⟨kept_of_survives hsurvives, keptLower_of_survives _ hsurvives⟩
    · exact kept_of_unreadable _ hunreadable
  -- Being kept is necessary too: a path that is lost in its escaped form is quoted in a message.
  have hprintable : ∀ c ∈ cs, CaseSchema.isPrintable c := fun c hc => (hcs c hc).1
  have hquote : quote ∉ cs := fun hmem => (hcs _ hmem).2.1 rfl
  have hproper : replacement ∉ '/' :: cs := by
    rw [List.mem_cons, not_or]
    exact ⟨by decide, fun hmem => (hcs _ hmem).2.2 rfl⟩
  constructor
  · intro hkept observation assembly hassemble hpath
    have hne : utf8 ('/' :: cs) ≠ [] := by simp [String.utf8EncodeChar_ne_nil]
    -- `case_id` has no slash
    rw [showsPath_iff hassemble hpath hne (.inl hkept)]
    exact not_infix_caseID_of_slash hassemble List.mem_cons_self
  · intro hhidden
    rw [kept_utf8_iff hproper]
    by_contra hlost
    obtain ⟨assembly, hassemble, hshown⟩ :=
      path_shown_of_lost libraries hprintable hlength hquote hlost
    exact hhidden _ assembly hassemble List.mem_cons_self hshown

theorem plain_path_stays_local : ∃ observation assembly,
    assemble asciiLibraries observation = .ok assembly ∧
      observation.correlation.downloadRoot = bytes "/downloads/Movie" ∧
      Kept (bytes "/downloads/Movie") ∧ ¬ assembly.ShowsPath (bytes "/downloads/Movie") := by
  have hkept : Kept (bytes "/downloads/Movie") :=
    (kept_utf8_iff (by decide)).mpr (by decide +kernel)
  have hmessage : ∀ c ∈ "Not an upgrade".toList, CaseSchema.isPrintable c := by decide
  have hquote : quote ∉ "downloads/Movie".toList := by decide
  obtain ⟨assembly, hassemble, -⟩ := message_visible_of_path asciiLibraries hquote (by decide)
    hmessage (by decide +kernel) (by decide +kernel)
  have hshows := (planner_sees_no_kept_value hassemble).1 _ List.mem_cons_self (by decide)
    (.inl hkept)
  exact ⟨_, assembly, hassemble, rfl, hkept,
    fun hshown => not_infix_caseID_of_slash hassemble (by decide) (hshows.mp hshown)⟩

/-- Whatever the libraries compute, an assembly shows the planner the path of
its own download. -/
def Exposes (path : Text) : Prop :=
  ∀ libraries, ∃ observation assembly, assemble libraries observation = .ok assembly ∧
    observation.correlation.downloadRoot = path ∧ path ∈ localPaths observation ∧
    assembly.ShowsPath path

theorem ampersand_path_reaches_planner : Exposes (bytes "/downloads/Tom & Jerry") := by
  have hclean : ∀ c ∈ "downloads/Tom & Jerry".toList, CaseSchema.isPrintable c := by decide
  intro libraries
  obtain ⟨assembly, hassemble, hshown⟩ := path_shown_of_lost libraries hclean (by decide)
    (by decide) (by decide +kernel)
  exact ⟨_, assembly, hassemble, rfl, List.mem_cons_self, hshown⟩

end NixConfig.MediaRepair.CaseBuilder
