/-
# What an identifier stands for

An opaque identifier is the digest of a kind and a list of values, each framed by its length.
The hashed text can be taken apart again, and the values of a manual import say everything
about it except for the device that the file is on, which may change at a remount. So two
manual imports have one capability only if they differ in nothing else, or if two different
texts have one digest.
-/

import NixConfig.Data.Framing
import NixConfig.Data.Int64
import NixConfig.MediaRepair.CaseBuilder.Assemble

namespace NixConfig.MediaRepair.CaseBuilder

open Data
open Contracts (Libraries Digest asciiLibraries sha256Text)
open Controller

/-! ## Hashed texts -/

/-- What `opaqueID` hashes. -/
def opaqueIDText (kind : Text) (values : List Text) : Text :=
  opaqueIDDomain ++ kind ++ values.flatMap fun value => 0 :: numeral value.length ++ 0 :: value

variable {values values' rest rest' : List Text} {libraries : Libraries}
  {fingerprint fingerprint' : FileFingerprint}

/-- The hashed text determines a kind without NUL and all values. -/
theorem opaqueIDText_inj {kind kind' : Text} (hkind : 0 ∉ kind) (hkind' : 0 ∉ kind')
    (heq : opaqueIDText kind values = opaqueIDText kind' values') :
    kind = kind' ∧ values = values' := by
  rw [opaqueIDText, opaqueIDText, List.append_assoc, List.append_assoc] at heq
  have hinj : Function.Injective fun n : Nat => numeral n :=
    numeral_injective.comp Nat.cast_injective
  exact append_frames_inj (fun n => zero_not_mem_numeral n) hinj hkind hkind'
    (List.append_cancel_left heq)

theorem sum256_eq_of_opaqueID {kind : Text}
    (heq : opaqueID libraries kind values = opaqueID libraries kind values') :
    libraries.sum256 (opaqueIDText kind values) =
      libraries.sum256 (opaqueIDText kind values') :=
  Subtype.ext (hexEncode_injective (List.append_cancel_left heq))

/-- What `StableFingerprint` hashes. -/
def stableFingerprintText (fingerprint : FileFingerprint) : Text :=
  stableFingerprintDomain ++ bigEndian64 fingerprint.inode.toNat ++
    bigEndian64 (uint64 fingerprint.sizeBytes) ++ bigEndian64 (uint64 fingerprint.mTimeNS)

/-- The size and the time of a snapshot are signed words. -/
structure IsSnapshot (fingerprint : FileFingerprint) : Prop where
  sizeBytes : IsInt64 fingerprint.sizeBytes
  mTimeNS : IsInt64 fingerprint.mTimeNS

theorem uint64_lt (value : Int) : uint64 value < 2 ^ 64 := by
  unfold uint64
  omega

theorem uint64_inj {value value' : Int} (hvalue : IsInt64 value) (hvalue' : IsInt64 value')
    (heq : uint64 value = uint64 value') : value = value' := by
  unfold IsInt64 maxInt64 at hvalue hvalue'
  unfold uint64 at heq
  omega

/-- The words of a snapshot stand at fixed places. -/
theorem stableFingerprintText_inj (hsnapshot : IsSnapshot fingerprint)
    (hsnapshot' : IsSnapshot fingerprint')
    (heq : stableFingerprintText fingerprint = stableFingerprintText fingerprint') :
    fingerprint = { fingerprint' with device := fingerprint.device } := by
  unfold stableFingerprintText at heq
  obtain ⟨heq, htime⟩ := List.append_inj' heq
    (by rw [length_bigEndian64, length_bigEndian64])
  obtain ⟨heq, hsize⟩ := List.append_inj' heq
    (by rw [length_bigEndian64, length_bigEndian64])
  have hinode := bigEndian64_inj fingerprint.inode.toNat_lt fingerprint'.inode.toNat_lt
    (List.append_cancel_left heq)
  have hsize := uint64_inj hsnapshot.sizeBytes hsnapshot'.sizeBytes
    (bigEndian64_inj (uint64_lt _) (uint64_lt _) hsize)
  have htime := uint64_inj hsnapshot.mTimeNS hsnapshot'.mTimeNS
    (bigEndian64_inj (uint64_lt _) (uint64_lt _) htime)
  obtain ⟨device, inode, sizeBytes, mTimeNS⟩ := fingerprint
  obtain rfl := hsize
  obtain rfl := htime
  obtain rfl := UInt64.toNat_inj.mp hinode
  rfl

/-! ## Manual imports -/

/-- A revision is told from the values that follow it. -/
theorem revisionIdentity_append_inj {revision revision' : Option RadarrQualityRevision}
    (heq : revisionIdentity revision ++ rest = revisionIdentity revision' ++ rest') :
    revision = revision' ∧ rest = rest' := by
  have hpresence : bytes "revision:absent" ≠ bytes "revision:present" := by decide
  have hflag : bytes "true" ≠ bytes "false" := by decide
  cases revision with
  | none =>
    cases revision' with
    | none => exact ⟨rfl, (List.cons.inj heq).2⟩
    | some revision' => exact absurd (List.cons.inj heq).1 hpresence
  | some revision =>
    cases revision' with
    | none => exact absurd (List.cons.inj heq).1.symm hpresence
    | some revision' =>
      obtain ⟨version, real, isRepack⟩ := revision
      obtain ⟨version', real', isRepack'⟩ := revision'
      simp only [revisionIdentity, List.cons_append, List.nil_append, List.cons.injEq,
        true_and] at heq
      obtain ⟨hversion, hreal, hrepack, hrest⟩ := heq
      obtain rfl := numeral_injective hversion
      obtain rfl := numeral_injective hreal
      obtain rfl : isRepack = isRepack' := by
        cases isRepack <;> cases isRepack'
        · rfl
        · exact absurd hrepack.symm hflag
        · exact absurd hrepack hflag
        · rfl
      exact ⟨rfl, hrest⟩

/-- As many languages as announced are told from the values that follow them. -/
theorem languages_append_inj {languages languages' : List RadarrLanguage}
    (hlength : languages.length = languages'.length)
    (heq : languages.flatMap (fun language => [numeral language.id, language.name]) ++ rest =
      languages'.flatMap (fun language => [numeral language.id, language.name]) ++ rest') :
    languages = languages' ∧ rest = rest' := by
  induction languages generalizing languages' with
  | nil =>
    obtain rfl := List.length_eq_zero_iff.mp hlength.symm
    exact ⟨rfl, heq⟩
  | cons language languages ih =>
    obtain ⟨language', languages', rfl⟩ := List.exists_cons_of_length_eq_add_one hlength.symm
    simp only [List.flatMap_cons, List.cons_append, List.nil_append, List.cons.injEq] at heq
    obtain ⟨hid, hname, hrest⟩ := heq
    obtain ⟨rfl, hlater⟩ := ih (Nat.succ.inj hlength) hrest
    obtain ⟨id, name⟩ := language
    obtain ⟨id', name'⟩ := language'
    obtain rfl : id = id' := numeral_injective hid
    obtain rfl : name = name' := hname
    exact ⟨rfl, hlater⟩

/-- Two manual imports that differ at most in the device of the file. -/
def SameImport (binding binding' : RadarrManualImportBinding) : Prop :=
  binding = { binding' with expectedFingerprint :=
    { binding'.expectedFingerprint with device := binding.expectedFingerprint.device } }

/-- The values determine the import, up to the text that the fingerprint hashes. -/
theorem manualImportIdentity_inj {binding binding' : RadarrManualImportBinding}
    (hsnapshot : IsSnapshot binding.expectedFingerprint)
    (hsnapshot' : IsSnapshot binding'.expectedFingerprint)
    (hhash : libraries.sum256 (stableFingerprintText binding.expectedFingerprint) =
        libraries.sum256 (stableFingerprintText binding'.expectedFingerprint) →
      stableFingerprintText binding.expectedFingerprint =
        stableFingerprintText binding'.expectedFingerprint)
    (heq : manualImportIdentity libraries binding = manualImportIdentity libraries binding') :
    SameImport binding binding' := by
  simp only [manualImportIdentity, List.cons_append, List.nil_append, List.append_assoc,
    List.cons.injEq, true_and] at heq
  obtain ⟨hfile, hfingerprint, hmode, hpath, hfolder, hquality, hname, hsource, hresolution,
    hmodifier, heq⟩ := heq
  obtain ⟨hrevision, heq⟩ := revisionIdentity_append_inj heq
  obtain ⟨hcount, heq⟩ := List.cons.inj heq
  obtain ⟨hlanguages, heq⟩ := languages_append_inj
    (Nat.cast_injective (numeral_injective hcount)) heq
  simp only [List.cons.injEq, and_true] at heq
  obtain ⟨hgroup, hflags, hdownload, hmovie⟩ := heq
  have hsame := stableFingerprintText_inj hsnapshot hsnapshot'
    (hhash (Contracts.sha256Text_injective hfingerprint))
  obtain ⟨fileID, expected, mode, path, folderName, ⟨⟨id, name, source, resolution, modifier⟩,
    revision⟩, languages, releaseGroup, indexerFlags, downloadID, movieID⟩ := binding
  obtain ⟨fileID', expected', mode', path', folderName', ⟨⟨id', name', source', resolution',
    modifier'⟩, revision'⟩, languages', releaseGroup', indexerFlags', downloadID', movieID'⟩ :=
    binding'
  obtain rfl := numeral_injective hquality
  obtain rfl := numeral_injective hresolution
  obtain rfl := numeral_injective hflags
  obtain rfl := numeral_injective hmovie
  obtain rfl : fileID = fileID' := hfile
  obtain rfl : mode = mode' := hmode
  obtain rfl : path = path' := hpath
  obtain rfl : folderName = folderName' := hfolder
  obtain rfl : name = name' := hname
  obtain rfl : source = source' := hsource
  obtain rfl : modifier = modifier' := hmodifier
  obtain rfl : revision = revision' := hrevision
  obtain rfl : languages = languages' := hlanguages
  obtain rfl : releaseGroup = releaseGroup' := hgroup
  obtain rfl : downloadID = downloadID' := hdownload
  exact congrArg (RadarrManualImportBinding.mk fileID · mode _) hsame

/-- Where no two hashed texts have one digest, the hashed text of an identifier determines
its kind and values, the identity of a manual import determines everything but the device,
and so does its capability. -/
theorem manualImportCapabilityID_injective (libraries : Libraries) :
    (∀ (kind kind' : Text) (values values' : List Text), 0 ∉ kind → 0 ∉ kind' →
      opaqueIDText kind values = opaqueIDText kind' values' → kind = kind' ∧ values = values') ∧
    ∀ bindings : Set RadarrManualImportBinding,
      (∀ binding ∈ bindings, IsSnapshot binding.expectedFingerprint) →
      Set.InjOn libraries.sum256
        ((fun binding => stableFingerprintText binding.expectedFingerprint) '' bindings) →
      (∀ binding ∈ bindings, ∀ binding' ∈ bindings,
        manualImportIdentity libraries binding = manualImportIdentity libraries binding' →
          SameImport binding binding') ∧
      (Set.InjOn libraries.sum256
        ((fun binding => opaqueIDText (bytes "capability")
          (manualImportIdentity libraries binding)) '' bindings) →
        ∀ binding ∈ bindings, ∀ binding' ∈ bindings,
          manualImportCapabilityID libraries binding =
            manualImportCapabilityID libraries binding' → SameImport binding binding') := by
  refine ⟨fun _ _ _ _ => opaqueIDText_inj, fun bindings hsnapshots hfingerprints => ?_⟩
  have hidentity : ∀ binding ∈ bindings, ∀ binding' ∈ bindings,
      manualImportIdentity libraries binding = manualImportIdentity libraries binding' →
        SameImport binding binding' := by
    intro binding hmem binding' hmem'
    exact manualImportIdentity_inj (hsnapshots binding hmem) (hsnapshots binding' hmem')
      (hfingerprints (Set.mem_image_of_mem _ hmem) (Set.mem_image_of_mem _ hmem'))
  refine ⟨hidentity, fun hcapabilities binding hmem binding' hmem' heq => ?_⟩
  have htexts := hcapabilities (Set.mem_image_of_mem _ hmem) (Set.mem_image_of_mem _ hmem')
    (sum256_eq_of_opaqueID heq)
  have hkind : 0 ∉ bytes "capability" := by decide
  exact hidentity binding hmem binding' hmem' (opaqueIDText_inj hkind hkind htexts).2

/-- A manual import for a movie. -/
def movieBinding (movieID : Int) : RadarrManualImportBinding where
  fileID := bytes "file:1"
  expectedFingerprint := ⟨1, 2, 3, 4⟩
  importMode := radarrImportModeCopy
  file := {
    path := bytes "/data/movie.mkv"
    folderName := []
    quality := ⟨⟨7, bytes "Bluray-1080p", bytes "bluray", 1080, []⟩, some ⟨1, 0, false⟩⟩
    languages := [⟨1, bytes "English"⟩]
    releaseGroup := []
    indexerFlags := 0
    downloadID := bytes "ABC"
    movieID := movieID }

/-- Imports for two movies have different capabilities. -/
theorem movies_have_different_capabilities :
    manualImportCapabilityID asciiLibraries (movieBinding 1) ≠
      manualImportCapabilityID asciiLibraries (movieBinding 2) := by
  intro heq
  have hsnapshots : ∀ binding ∈ ({movieBinding 1, movieBinding 2} : Set _),
      IsSnapshot binding.expectedFingerprint := by
    rintro binding (rfl | rfl)
    · exact ⟨⟨by decide, by decide⟩, ⟨by decide, by decide⟩⟩
    · exact ⟨⟨by decide, by decide⟩, ⟨by decide, by decide⟩⟩
  have hfingerprints : Set.InjOn asciiLibraries.sum256
      ((fun binding => stableFingerprintText binding.expectedFingerprint) ''
        {movieBinding 1, movieBinding 2}) := by
    rw [Set.image_pair]
    rintro _ (rfl | rfl) _ (rfl | rfl) _ <;> rfl
  have htexts : Set.InjOn asciiLibraries.sum256
      ((fun binding => opaqueIDText (bytes "capability")
        (manualImportIdentity asciiLibraries binding)) '' {movieBinding 1, movieBinding 2}) := by
    have hne : asciiLibraries.sum256 (opaqueIDText (bytes "capability")
        (manualImportIdentity asciiLibraries (movieBinding 1))) ≠
        asciiLibraries.sum256 (opaqueIDText (bytes "capability")
          (manualImportIdentity asciiLibraries (movieBinding 2))) :=
      fun hsame => absurd (congrArg Subtype.val hsame) (by decide +kernel)
    rw [Set.image_pair]
    rintro _ (rfl | rfl) _ (rfl | rfl) hsame
    · rfl
    · exact absurd hsame hne
    · exact absurd hsame.symm hne
    · rfl
  have hsame := ((manualImportCapabilityID_injective asciiLibraries).2 _ hsnapshots
    hfingerprints).2 htexts (movieBinding 1) (Set.mem_insert _ _) (movieBinding 2)
    (Set.mem_insert_of_mem _ rfl) heq
  have hmovie := congrArg (fun binding => binding.file.movieID) hsame
  exact absurd hmovie (by decide)

end NixConfig.MediaRepair.CaseBuilder
