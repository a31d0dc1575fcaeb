/-
# Readers of paged listings

Queue and history of a Servarr service come in pages. Each page says how many
records there are in all, and a listing is complete when that many were read.

The queue reader and Radarr's history reader count what they read. Lidarr's two
history readers multiply the page number by the page size instead, and they take
an empty page for the end. Both are right about a server that fills its pages;
of one that does not they take a part of the listing for all of it.
-/

import Mathlib.Data.Prod.Lex
import NixConfig.Data.Sorting
import NixConfig.Data.Strings
import NixConfig.Semantics.Paging

namespace NixConfig.MediaRepair.Servarr

open Data Semantics

structure Page (α : Type) where
  number : Int
  size : Int
  totalRecords : Int
  records : List α
  deriving DecidableEq

/-! ## Readers that count -/

/-- `validateQueuePage` and `validateHistoryPage`, with the words that their errors start
with. -/
def validatePage {α : Type} (label : String) (pageSize maximumRecords : Int) (expectedNumber : Nat)
    (page : Page α) (expectedTotal : Int) (collected : Nat) : Except String Unit :=
  if page.number ≠ expectedNumber then
    .error s!"{label} requested page {expectedNumber} but received page {page.number}"
  else if page.size ≤ 0 ∨ page.size > pageSize ∨ page.records.length > page.size then
    .error s!"{label} page {expectedNumber} has invalid page size {page.size}"
  else if page.totalRecords < 0 ∨ page.totalRecords > maximumRecords then
    .error s!"{label} page {expectedNumber} has invalid total {page.totalRecords}"
  else if expectedTotal ≥ 0 ∧ page.totalRecords ≠ expectedTotal then
    .error (s!"{label} total changed from {expectedTotal} to {page.totalRecords} " ++
      s!"while reading page {expectedNumber}")
  else if collected + page.records.length > maximumRecords then
    .error s!"{label} exceeds {maximumRecords} records"
  else .ok ()

/-- What is read of a listing, and the total that it is expected to have. -/
structure Listed (α : Type) where
  records : List α
  expectedTotal : Int

/-- The `switch` at the end of a round: `records` with a page that had `count` of
them. -/
def weigh {α β : Type} (label : String) (number : Nat) (total : Int) (records : List α)
    (count : Nat) (result : β) (state : Listed α) : Except String (Progress (Listed α) β) :=
  if records.length = total then .ok (.done result)
  else if records.length > total then
    .error s!"{label} returned {records.length} records for a reported total of {total}"
  else if count = 0 then
    .error s!"{label} page {number} was empty before the reported total of {total}"
  else .ok (.more state)

/-- `if expectedTotal == -1 { expectedTotal = page.TotalRecords }` -/
def expectTotal (expectedTotal total : Int) : Int :=
  if expectedTotal = -1 then total else expectedTotal

def queuePageSize : Nat := 250

def maximumQueuePages : Nat := 100

def maximumQueueRecords : Nat := 10000

def queueRound {α : Type} (service : String) (number : Nat) (state : Listed α) (page : Page α) :
    Except String (Progress (Listed α) (List α)) := do
  validatePage s!"{service} queue" queuePageSize maximumQueueRecords number page
    state.expectedTotal state.records.length
  let total := expectTotal state.expectedTotal page.totalRecords
  let records := state.records ++ page.records
  weigh s!"{service} queue" number total records page.records.length records ⟨records, total⟩

/-- `ReadQueue`, with a server that is asked for a page number and a page size. -/
def readQueue {α : Type} (server : Nat × Nat → Except String (Page α)) (service : String) :
    Traced (Nat × Nat) String (List α) :=
  if service = "" then
    .quiet (.error "Servarr queue reader needs a service name and page reader")
  else
    readPages server (fun number => (number, queuePageSize)) (queueRound service)
      s!"{service} queue exceeds {maximumQueuePages} pages" maximumQueuePages 1 ⟨[], -1⟩

/-- What a `starr.PageReq` asks for. -/
structure PageReq where
  page : Nat
  pageSize : Nat
  descending : Bool
  values : List (String × Text)

namespace Radarr

structure HistoryRecord where
  id : Int
  movieID : Int
  downloadID : Text
  /-- Nanoseconds since the zero time. -/
  date : Int
  eventType : Text
  deriving DecidableEq

def historyPageSize : Nat := 250

def maximumHistoryPages : Nat := 100

def maximumHistoryRecords : Nat := 10000

def validateHistoryQuery (movieID : Int) (downloadID : Text) : Except String Unit :=
  if movieID < 0 then .error "Radarr movie ID must not be negative"
  else if downloadID = [] ∨ trimSpace downloadID ≠ downloadID ∨ 0 ∈ downloadID then
    .error "Radarr download ID is invalid"
  else .ok ()

def historyPageRequest (movieID : Int) (downloadID : Text) (page : Nat) : PageReq where
  page := page
  pageSize := historyPageSize
  descending := false
  values := (if movieID > 0 then [("movieIds", numeral movieID)] else []) ++
    [("downloadId", downloadID), ("includeMovie", bytes "false")]

/-- The record of `validateHistoryRecord`, if it is one. -/
def validateHistoryRecord (record : Option HistoryRecord) (movieID : Int) (downloadID : Text) :
    Except String HistoryRecord :=
  match record with
  | none => .error "record is null"
  | some record =>
    if record.id ≤ 0 then .error "record ID must be positive"
    else if record.movieID ≤ 0 then .error "record movie ID must be positive"
    else if movieID > 0 ∧ record.movieID ≠ movieID then
      .error s!"record movie ID {record.movieID} does not match requested ID {movieID}"
    else if record.downloadID ≠ downloadID then .error "record download ID does not match request"
    else if record.date = 0 then .error "record date is missing"
    else if trimSpace record.eventType = [] then .error "record event type is missing"
    else .ok record

/-- One record of a page, after those that are read already. -/
def addRecord (page : Nat) (movieID : Int) (downloadID : Text) (records : List HistoryRecord)
    (entry : Option HistoryRecord × Nat) : Except String (List HistoryRecord) :=
  match validateHistoryRecord entry.1 movieID downloadID with
  | .error text => .error s!"Radarr history page {page} record {entry.2}: {text}"
  | .ok record =>
    -- The ids seen so far are those of the records.
    if record.id ∈ records.map HistoryRecord.id then
      .error s!"Radarr history contains duplicate record ID {record.id}"
    else .ok (records ++ [record])

/-- The order of the result: by date, then by id. -/
def historyOrder (record : HistoryRecord) : Int ×ₗ Int := toLex (record.date, record.id)

def historyRound (sorting : Sorting historyOrder) (movieID : Int) (downloadID : Text)
    (number : Nat) (state : Listed HistoryRecord) (response : Option (Page (Option HistoryRecord))) :
    Except String (Progress (Listed HistoryRecord) (List HistoryRecord)) :=
  match response with
  | none => .error s!"Radarr history page {number} is nil"
  | some page => do
    validatePage "Radarr history" historyPageSize maximumHistoryRecords number page
      state.expectedTotal state.records.length
    let total := expectTotal state.expectedTotal page.totalRecords
    let records ← page.records.zipIdx.foldlM (addRecord number movieID downloadID) state.records
    weigh "Radarr history" number total records page.records.length (sorting.sort records)
      ⟨records, total⟩

def readHistoryRecords (server : PageReq → Except String (Option (Page (Option HistoryRecord))))
    (sorting : Sorting historyOrder) (movieID : Int) (downloadID : Text) :
    Traced PageReq String (List HistoryRecord) :=
  match validateHistoryQuery movieID downloadID with
  | .error text => .quiet (.error text)
  | .ok () =>
    readPages server (historyPageRequest movieID downloadID)
      (historyRound sorting movieID downloadID)
      s!"Radarr history exceeds {maximumHistoryPages} pages" maximumHistoryPages 1 ⟨[], -1⟩

end Radarr

/-! ## Readers that multiply -/

namespace Lidarr

structure HistoryRecord where
  id : Int
  albumID : Int
  artistID : Int
  trackID : Int
  downloadID : Text
  /-- Nanoseconds since the zero time. -/
  date : Int
  eventType : Text
  droppedPath : Text
  importedPath : Text
  deriving DecidableEq

def historyPageSize : Nat := 250

def maximumHistoryPages : Nat := 40

def maximumHistoryRecords : Nat := historyPageSize * maximumHistoryPages

abbrev Server := PageReq → Except String (Option (Page (Option HistoryRecord)))

/-- What a reader has so far: the ids it has seen and what it makes of the records. -/
structure Progressed (ι : Type) where
  seen : List Int
  items : List ι
  expectedTotal : Int

/-- What the two readers do differently: the words their errors start with, the records
they refuse, and what they keep of a record. -/
structure Reader (ι : Type) where
  label : String
  valid : HistoryRecord → Bool
  collect : HistoryRecord → Except String (List ι)

def Reader.addRecord {ι : Type} (reader : Reader ι) (page : Nat) (state : List Int × List ι)
    (entry : Option HistoryRecord × Nat) : Except String (List Int × List ι) :=
  match entry.1 with
  | none => .error s!"{reader.label} page {page} record {entry.2} is invalid"
  | some record =>
    if record.id ≤ 0 ∨ record.date = 0 ∨ ¬ reader.valid record then
      .error s!"{reader.label} page {page} record {entry.2} is invalid"
    else if record.id ∈ state.1 then
      .error s!"{reader.label} contains duplicate record ID {record.id}"
    else do
      let items ← reader.collect record
      return (state.1 ++ [record.id], state.2 ++ items)

def Reader.round {ι β : Type} (reader : Reader ι) (finish : List ι → Except String β) (number : Nat)
    (state : Progressed ι) (response : Option (Page (Option HistoryRecord))) :
    Except String (Progress (Progressed ι) β) :=
  match response with
  | none => .error s!"{reader.label} page {number} is invalid"
  | some page =>
    if page.number ≠ number ∨ page.size ≤ 0 ∨ page.size > historyPageSize ∨
        page.records.length > page.size ∨ page.totalRecords < 0 ∨
        page.totalRecords > maximumHistoryRecords then
      .error s!"{reader.label} page {number} is invalid"
    else if 0 ≤ state.expectedTotal ∧ page.totalRecords ≠ state.expectedTotal then
      .error s!"{reader.label} total changed while reading page {number}"
    else do
      let total := if state.expectedTotal < 0 then page.totalRecords else state.expectedTotal
      let read ← page.records.zipIdx.foldlM (reader.addRecord number) (state.seen, state.items)
      let collected : Int := number * page.size
      if collected ≥ total ∨ page.records.length = 0 then
        .done <$> finish read.2
      else .ok (.more ⟨read.1, read.2, total⟩)

/-- The loop of both readers. -/
def Reader.read {ι β : Type} (reader : Reader ι) (finish : List ι → Except String β)
    (server : Server) (request : Nat → PageReq) : Traced PageReq String β :=
  readPages server request (reader.round finish)
    s!"{reader.label} exceeds {maximumHistoryRecords} records" maximumHistoryPages 1 ⟨[], [], -1⟩

structure AlbumIdentity where
  albumID : Int
  artistID : Int
  deriving DecidableEq

/-- The loop of `SelectHistoryIdentity`, after the first identity. -/
def agreeWith (selected : AlbumIdentity) (valid : AlbumIdentity → Bool) :
    List AlbumIdentity → Except String (Option AlbumIdentity)
  | [] => .ok (some selected)
  | identity :: rest =>
    if ¬ valid identity then .error "history contains an invalid identity"
    else if identity ≠ selected then .error "history contains conflicting identities"
    else agreeWith selected valid rest

/-- `SelectHistoryIdentity`; nothing is found in an empty list. -/
def selectHistoryIdentity (identities : List AlbumIdentity) (valid : AlbumIdentity → Bool) :
    Except String (Option AlbumIdentity) :=
  match identities with
  | [] => .ok none
  | selected :: rest =>
    if ¬ valid selected then .error "history contains an invalid identity"
    else agreeWith selected valid rest

def identityReader (downloadID : Text) : Reader AlbumIdentity where
  label := "Lidarr identity history"
  valid record := record.downloadID = downloadID && !(trimSpace record.eventType).isEmpty
  collect record :=
    if record.albumID > 0 ∧ record.artistID > 0 then .ok [⟨record.albumID, record.artistID⟩]
    else .ok []

def identityRequest (downloadID : Text) (page : Nat) : PageReq :=
  ⟨page, historyPageSize, true, [("downloadId", downloadID)]⟩

def recoverAlbumIdentity (server : Server) (downloadID : Text) :
    Traced PageReq String (Option AlbumIdentity) :=
  if downloadID = [] ∨ downloadID ≠ trimSpace downloadID ∨ 0 ∈ downloadID then
    .quiet (.error "Lidarr history download ID is invalid")
  else
    (identityReader downloadID).read
      (fun identities =>
        (selectHistoryIdentity identities fun identity =>
          identity.albumID > 0 && identity.artistID > 0).mapError
          fun text => s!"select Lidarr history album identity: {text}")
      server (identityRequest downloadID)

structure ImportedTrack where
  historyID : Int
  albumID : Int
  artistID : Int
  trackID : Int
  downloadID : Text
  droppedPath : Text
  importedPath : Text
  occurredAt : Int
  deriving DecidableEq

def trackFileImportedEvent : Text := bytes "trackFileImported"

def importReader (albumID : Int) (downloadID : Text) : Reader ImportedTrack where
  label := "Lidarr history"
  valid _ := true
  collect record :=
    if record.eventType ≠ trackFileImportedEvent ∨ record.albumID ≠ albumID ∨
        (downloadID ≠ [] ∧ record.downloadID ≠ downloadID) then .ok []
    else if record.artistID ≤ 0 ∨ record.trackID ≤ 0 ∨ record.droppedPath = [] ∨
        record.importedPath = [] then
      .error s!"Lidarr imported-track history record {record.id} is incomplete"
    else
      .ok [⟨record.id, record.albumID, record.artistID, record.trackID, record.downloadID,
        record.droppedPath, record.importedPath, record.date⟩]

/-- The request for a page, with `filter` the client library's number of the event. -/
def importRequest (filter albumID : Int) (downloadID : Text) (page : Nat) : PageReq where
  page := page
  pageSize := historyPageSize
  descending := true
  values := ("albumId", numeral albumID) ::
    (if downloadID ≠ [] then [("downloadId", downloadID)] else []) ++ [("eventType", numeral filter)]

def readImportedTracks (server : Server) (sorting : Sorting ImportedTrack.historyID)
    (filter albumID : Int) (downloadID : Text) : Traced PageReq String (List ImportedTrack) :=
  if albumID ≤ 0 ∨ downloadID ≠ trimSpace downloadID ∨ 0 ∈ downloadID then
    .quiet (.error "Lidarr imported-track history query is invalid")
  else
    (importReader albumID downloadID).read (fun imports => .ok (sorting.sort imports)) server
      (importRequest filter albumID downloadID)

end Lidarr

/-! ## Whole listings -/

/-- The pages have as many records as each of them reports. -/
def PagesComplete {α : Type} (pages : List (Page α)) : Prop :=
  pages ≠ [] ∧ ∀ page ∈ pages, page.totalRecords = (pages.flatMap Page.records).length

/-- The pages hold records, with different ids. -/
def DistinctIds {α : Type} (id : α → Int) (pages : List (Page (Option α))) : Prop :=
  ∃ records : List α, pages.flatMap Page.records = records.map some ∧ (records.map id).Nodup

/-- All pages report the expected total; before the first page, none is expected. -/
def Agreed {α : Type} (pages : List (Page α)) (expectedTotal : Int) : Prop :=
  (pages = [] ∧ expectedTotal = -1) ∨
    (pages ≠ [] ∧ 0 ≤ expectedTotal ∧ ∀ page ∈ pages, page.totalRecords = expectedTotal)

variable {α β ρ : Type} {expectedTotal total : Int} {label : String} {count : Nat}

variable {pages : List (Page α)} {page : Page α} {number : Nat} {records : List α} {result : β}
  {state : Listed α}

theorem Agreed.append (hagreed : Agreed pages expectedTotal) (htotal : 0 ≤ page.totalRecords)
    (hsame : 0 ≤ expectedTotal → page.totalRecords = expectedTotal)
    (hfirst : expectedTotal = -1 → total = page.totalRecords)
    (hlater : 0 ≤ expectedTotal → total = expectedTotal) :
    Agreed (pages ++ [page]) total := by
  refine .inr ⟨by simp, ?_⟩
  rcases hagreed with ⟨rfl, hnone⟩ | ⟨-, hexpected, hall⟩
  · rw [hfirst hnone]
    exact ⟨htotal, by simp⟩
  · rw [hlater hexpected]
    exact ⟨hexpected, List.forall_mem_append.mpr
      ⟨hall, List.forall_mem_singleton.mpr (hsame hexpected)⟩⟩

theorem Agreed.total_eq (hagreed : Agreed pages expectedTotal) (hmem : page ∈ pages) :
    page.totalRecords = expectedTotal := by
  rcases hagreed with ⟨rfl, -⟩ | ⟨-, -, hall⟩
  · cases hmem
  · exact hall page hmem

theorem Agreed.pagesComplete (hagreed : Agreed pages expectedTotal) (hne : pages ≠ [])
    (hcount : ((pages.flatMap Page.records).length : Int) = expectedTotal) :
    PagesComplete pages :=
  ⟨hne, fun _ hmem => (hagreed.total_eq hmem).trans hcount.symm⟩

theorem of_validatePage {pageSize maximumRecords : Int} {collected : Nat}
    (hvalid : validatePage label pageSize maximumRecords number page expectedTotal collected =
      .ok ()) :
    0 ≤ page.totalRecords ∧ (0 ≤ expectedTotal → page.totalRecords = expectedTotal) := by
  rw [validatePage] at hvalid
  split_ifs at hvalid with _ _ htotal hsame
  exact ⟨by omega, fun hexpected => by omega⟩

theorem weigh_eq_ok {progress : Progress (Listed α) β}
    (hweigh : weigh label number total records count result state = .ok progress) :
    match progress with
    | .done _ => records.length = total
    | .more next => next = state := by
  rw [weigh] at hweigh
  split at hweigh
  · cases hweigh
    assumption
  split_ifs at hweigh
  cases hweigh
  rfl

theorem Agreed.expectTotal (hagreed : Agreed pages expectedTotal) (htotal : 0 ≤ page.totalRecords)
    (hsame : 0 ≤ expectedTotal → page.totalRecords = expectedTotal) :
    Agreed (pages ++ [page]) (expectTotal expectedTotal page.totalRecords) := by
  refine hagreed.append htotal hsame (fun hnone => ?_) fun hexpected => ?_
  · rw [Servarr.expectTotal, if_pos hnone]
  · rw [Servarr.expectTotal, if_neg (by omega)]

/-- The answers that were pages, as the pages that they were. -/
theorem exists_pages_of_answers {calls : List ρ} {server : ρ → Except String (Option (Page α))}
    {post : List (Page α) → Prop}
    (hanswers : ∃ answers, calls.map server = answers.map .ok ∧
      ∃ pages, answers = pages.map some ∧ post pages) :
    ∃ pages, calls.map server = pages.map (fun page => .ok (some page)) ∧ post pages := by
  obtain ⟨_, hcalls, pages, rfl, hpost⟩ := hanswers
  exact ⟨pages, hcalls.trans List.map_map, hpost⟩

/-- A queue that is read is read as a whole. -/
theorem readQueue_complete {server : Nat × Nat → Except String (Page α)} {service : String}
    (hread : (readQueue server service).result = .ok records) :
    ∃ pages, (readQueue server service).calls.map server = pages.map .ok ∧ PagesComplete pages := by
  rw [readQueue] at hread ⊢
  split at hread
  · cases hread
  rename_i hservice
  rw [if_neg hservice]
  let inv (pages : List (Page α)) (state : Listed α) : Prop :=
    Agreed pages state.expectedTotal ∧ state.records = pages.flatMap Page.records
  refine readPages_rule inv ⟨.inl ⟨rfl, rfl⟩, rfl⟩ ?_ hread
  rintro pages state page progress ⟨hagreed, hrecords⟩ - hround
  obtain ⟨_, hvalid, hweigh⟩ := bind_eq_ok.mp hround
  obtain ⟨htotal, hsame⟩ := of_validatePage hvalid
  have hnext := hagreed.expectTotal htotal hsame
  have hpages : state.records ++ page.records = (pages ++ [page]).flatMap Page.records := by
    rw [List.flatMap_append, List.flatMap_singleton, ← hrecords]
  cases progress with
  | done result => exact hnext.pagesComplete (by simp) (hpages ▸ weigh_eq_ok hweigh)
  | more next =>
    obtain rfl : next = _ := weigh_eq_ok hweigh
    exact ⟨hnext, hpages⟩

/-! ## Radarr's history -/

namespace Radarr

variable {movieID : Int} {downloadID : Text} {records : List HistoryRecord}
  {sorting : Sorting historyOrder}

theorem eq_some_of_validateHistoryRecord {entry : Option HistoryRecord} {record : HistoryRecord}
    (hvalid : validateHistoryRecord entry movieID downloadID = .ok record) :
    entry = some record := by
  cases entry with
  | none => cases hvalid
  | some found =>
    rw [validateHistoryRecord] at hvalid
    repeat'
      split_ifs at hvalid
    cases hvalid
    rfl

/-- The records of a page are added to those that are there, with new ids. -/
theorem foldlM_addRecord {number : Nat} {entries : List (Option HistoryRecord)}
    {result : List HistoryRecord}
    (hfold : entries.zipIdx.foldlM (addRecord number movieID downloadID) records = .ok result) :
    ∃ added, entries = added.map some ∧ result = records ++ added ∧
      ((records.map HistoryRecord.id).Nodup → (result.map HistoryRecord.id).Nodup) := by
  have hloop := foldlM_invariant (fun done result => ∃ added : List HistoryRecord,
    done.map Prod.fst = added.map some ∧ result = records ++ added ∧
      ((records.map HistoryRecord.id).Nodup → (result.map HistoryRecord.id).Nodup))
    ⟨[], rfl, (List.append_nil _).symm, fun hnodup => hnodup⟩ ?_ hfold
  · rwa [List.zipIdx_map_fst] at hloop
  · rintro done current entry next ⟨added, hdone, rfl, hnodup⟩ hadd
    rw [addRecord] at hadd
    split at hadd
    · cases hadd
    rename_i record hvalid
    split_ifs at hadd with hnew
    cases hadd
    refine ⟨added ++ [record], ?_, List.append_assoc .., fun hrecords => ?_⟩
    · rw [List.map_append, List.map_append, hdone, List.map_singleton, List.map_singleton,
        eq_some_of_validateHistoryRecord hvalid]
    · rw [List.map_append, List.map_singleton]
      exact (hnodup hrecords).append (List.nodup_singleton _) (List.disjoint_singleton.mpr hnew)

/-- What a round keeps: the pages agree, and the records are theirs, with different
ids. -/
structure Gathered (pages : List (Page (Option HistoryRecord))) (state : Listed HistoryRecord) :
    Prop where
  agreed : Agreed pages state.expectedTotal
  records : pages.flatMap Page.records = state.records.map some
  distinct : (state.records.map HistoryRecord.id).Nodup

/-- A round that succeeds has gathered one page more. -/
theorem historyRound_eq_ok {number : Nat} {state : Listed HistoryRecord}
    {response : Option (Page (Option HistoryRecord))}
    {progress : Progress (Listed HistoryRecord) (List HistoryRecord)}
    {pages : List (Page (Option HistoryRecord))} (hgathered : Gathered pages state)
    (hround : historyRound sorting movieID downloadID number state response = .ok progress) :
    ∃ page records total, response = some page ∧ Gathered (pages ++ [page]) ⟨records, total⟩ ∧
      weigh "Radarr history" number total records page.records.length (sorting.sort records)
        ⟨records, total⟩ = .ok progress := by
  cases response with
  | none => cases hround
  | some page =>
    obtain ⟨_, hvalid, hround⟩ := bind_eq_ok.mp hround
    obtain ⟨records, hfold, hweigh⟩ := bind_eq_ok.mp hround
    obtain ⟨htotal, hsame⟩ := of_validatePage hvalid
    obtain ⟨added, hpage, rfl, hnodup⟩ := foldlM_addRecord hfold
    refine ⟨page, _, _, rfl, ⟨hgathered.agreed.expectTotal htotal hsame, ?_,
      hnodup hgathered.distinct⟩, hweigh⟩
    rw [List.flatMap_append, List.flatMap_singleton, List.map_append, hgathered.records, hpage]

/-- A history that is read is read as a whole, with different ids. -/
theorem readHistoryRecords_complete
    {server : PageReq → Except String (Option (Page (Option HistoryRecord)))}
    (hread : (readHistoryRecords server sorting movieID downloadID).result = .ok records) :
    ∃ pages, (readHistoryRecords server sorting movieID downloadID).calls.map server =
        pages.map (fun page => .ok (some page)) ∧
      PagesComplete pages ∧ DistinctIds HistoryRecord.id pages := by
  rw [readHistoryRecords] at hread ⊢
  split at hread
  · cases hread
  let inv (answers : List (Option (Page (Option HistoryRecord)))) (state : Listed HistoryRecord) :
      Prop := ∃ pages, answers = pages.map some ∧ Gathered pages state
  have hinit : inv [] ⟨[], -1⟩ := ⟨[], rfl, .inl ⟨rfl, rfl⟩, rfl, List.nodup_nil⟩
  refine exists_pages_of_answers (readPages_rule inv hinit ?_ hread)
  rintro _ state response progress ⟨pages, rfl, hgathered⟩ - hround
  obtain ⟨page, records, total, rfl, hnext, hweigh⟩ := historyRound_eq_ok hgathered hround
  cases progress with
  | done result =>
    refine ⟨pages ++ [page], by simp, hnext.agreed.pagesComplete (by simp) ?_,
      records, hnext.records, hnext.distinct⟩
    rw [hnext.records, List.length_map]
    exact weigh_eq_ok hweigh
  | more next =>
    obtain rfl : next = _ := weigh_eq_ok hweigh
    exact ⟨pages ++ [page], by simp, hnext⟩

end Radarr

/-! ## Lidarr's history -/

namespace Lidarr

variable {ι β : Type} {reader : Reader ι} {finish : List ι → Except String β}

theorem foldlM_addRecord {number : Nat} {entries : List (Option HistoryRecord)}
    {state result : List Int × List ι}
    (hfold : entries.zipIdx.foldlM (reader.addRecord number) state = .ok result) :
    ∃ added : List HistoryRecord, entries = added.map some ∧
      result.1 = state.1 ++ added.map HistoryRecord.id ∧ (state.1.Nodup → result.1.Nodup) := by
  have hloop := foldlM_invariant (fun done (result : List Int × List ι) =>
    ∃ added : List HistoryRecord, done.map Prod.fst = added.map some ∧
      result.1 = state.1 ++ added.map HistoryRecord.id ∧ (state.1.Nodup → result.1.Nodup))
    ⟨[], rfl, (List.append_nil _).symm, fun hnodup => hnodup⟩ ?_ hfold
  · rwa [List.zipIdx_map_fst] at hloop
  · rintro done current ⟨entry, index⟩ next ⟨added, hdone, hseen, hnodup⟩ hadd
    cases entry with
    | none => cases hadd
    | some record =>
      simp only [Reader.addRecord] at hadd
      split_ifs at hadd with _ hnew
      obtain ⟨items, -, hnext⟩ := bind_eq_ok.mp hadd
      cases hnext
      refine ⟨added ++ [record], ?_, ?_, fun hstate => ?_⟩
      · rw [List.map_append, List.map_append, hdone]
        rfl
      · rw [hseen, List.map_append, List.append_assoc]
        rfl
      · exact (hnodup hstate).append (List.nodup_singleton _) (List.disjoint_singleton.mpr hnew)

/-- What a round keeps: the pages agree, and the ids that were seen are those of their
records, all different. -/
structure Gathered (pages : List (Page (Option HistoryRecord))) (seen : List Int)
    (expectedTotal : Int) : Prop where
  agreed : Agreed pages expectedTotal
  ids : ∃ records : List HistoryRecord, pages.flatMap Page.records = records.map some ∧
    seen = records.map HistoryRecord.id
  distinct : seen.Nodup

variable {pages : List (Page (Option HistoryRecord))} {server : Server} {request : Nat → PageReq}
  {page : Page (Option HistoryRecord)} {downloadID : Text}

/-- A round that succeeds has gathered one page more. It ends the loop if the page is
empty, or if so many pages of its size hold the total. -/
theorem round_eq_ok {number : Nat} {state : Progressed ι}
    {response : Option (Page (Option HistoryRecord))} {progress : Progress (Progressed ι) β}
    (hgathered : Gathered pages state.seen state.expectedTotal)
    (hround : reader.round finish number state response = .ok progress) :
    ∃ page seen total, response = some page ∧ 0 < page.size ∧
      Gathered (pages ++ [page]) seen total ∧
      match progress with
      | .done _ => number * page.size ≥ total ∨ page.records.length = 0
      | .more next => next.seen = seen ∧ next.expectedTotal = total ∧ number * page.size < total ∧
        page.records.length ≠ 0 := by
  cases response with
  | none => cases hround
  | some page =>
    rw [Reader.round] at hround
    split at hround
    · cases hround
    rename_i hpage
    split at hround
    · cases hround
    rename_i hsame
    obtain ⟨read, hfold, hround⟩ := bind_eq_ok.mp hround
    obtain ⟨added, hrecords, hseen, hnodup⟩ := foldlM_addRecord hfold
    obtain ⟨records, hpages, hstate⟩ := hgathered.ids
    obtain ⟨total, htotal⟩ : ∃ total, total =
        if state.expectedTotal < 0 then page.totalRecords else state.expectedTotal := ⟨_, rfl⟩
    simp only [← htotal] at hround
    have hagreed : Agreed (pages ++ [page]) total := by
      refine hgathered.agreed.append (by omega) (fun _ => by omega) (fun hnone => ?_)
        fun hexpected => ?_
      · rw [htotal, if_pos (by omega)]
      · rw [htotal, if_neg (by omega)]
    refine ⟨page, read.1, total, rfl, by omega, ⟨hagreed, ⟨records ++ added, ?_, ?_⟩,
      hnodup hgathered.distinct⟩, ?_⟩
    · rw [List.flatMap_append, List.flatMap_singleton, List.map_append, hpages, hrecords]
    · rw [hseen, hstate, List.map_append]
    · split_ifs at hround with hend
      · obtain ⟨result, -, rfl⟩ := map_eq_ok.mp hround
        exact hend
      · cases hround
        push Not at hend
        exact ⟨rfl, rfl, hend⟩

/-- The pages have one size and one total, and all but the last are filled. -/
def Regular (pages : List (Page (Option HistoryRecord))) (size total : Int) : Prop :=
  ∀ (index : Nat) page, pages[index]? = some page → page.size = size ∧ page.totalRecords = total ∧
    (page.records.length : Int) = max 0 (min size (total - index * size))

/-- The records of the pages so far, if they are filled. -/
def Filled (pages : List (Page (Option HistoryRecord))) : Prop :=
  ∀ size total, Regular pages size total →
    ((pages.flatMap Page.records).length : Int) = pages.length * size ∧
      (pages = [] ∨ pages.length * size < total)

section Filled

variable (hfilled : Filled pages) (hsize : 0 < page.size) {size total : Int}

theorem Regular.init (hregular : Regular (pages ++ [page]) size total) : Regular pages size total :=
  fun index _ hpage => hregular index _ (List.getElem?_append_left
    (List.getElem?_eq_some_iff.mp hpage).1 ▸ hpage)

include hfilled

/-- One page more, of which the pages before it leave so much. -/
theorem Filled.length_append (hregular : Regular (pages ++ [page]) size total) :
    page.size = size ∧ page.totalRecords = total ∧
      (page.records.length : Int) = max 0 (min size (total - pages.length * size)) ∧
      (((pages ++ [page]).flatMap Page.records).length : Int) =
        pages.length * size + page.records.length := by
  obtain ⟨hpage, htotal, hlength⟩ := hregular pages.length page List.getElem?_concat_length
  refine ⟨hpage, htotal, hlength, ?_⟩
  rw [List.flatMap_append, List.flatMap_singleton, List.length_append, Nat.cast_add,
    (hfilled size total hregular.init).1]

include hsize

theorem Filled.append (hmore : (pages.length + 1 : Nat) * page.size < page.totalRecords) :
    Filled (pages ++ [page]) := by
  intro size total hregular
  obtain ⟨rfl, rfl, hlength, hcount⟩ := hfilled.length_append hregular
  rw [hcount, List.length_append, List.length_singleton]
  refine ⟨?_, .inr hmore⟩
  rw [Nat.cast_succ, add_one_mul] at hmore ⊢
  omega

/-- At the end, pages that were filled hold everything. -/
theorem Filled.length_eq (hregular : Regular (pages ++ [page]) size total)
    (htotal : 0 ≤ page.totalRecords)
    (hend : (pages.length + 1 : Nat) * page.size ≥ page.totalRecords ∨ page.records.length = 0) :
    (((pages ++ [page]).flatMap Page.records).length : Int) = page.totalRecords := by
  obtain ⟨rfl, rfl, hlength, hcount⟩ := hfilled.length_append hregular
  have hstart : (pages.length : Int) * page.size ≤ page.totalRecords := by
    rcases (hfilled page.size page.totalRecords hregular.init).2 with rfl | hless
    · simpa using htotal
    · exact hless.le
  rw [Nat.cast_succ, add_one_mul] at hend
  rw [hcount]
  omega

end Filled

/-- The answers to the calls are pages with different ids, and all of them if they are
filled. -/
def ReadsWhole (server : Server) (calls : List PageReq) : Prop :=
  ∃ pages, calls.map server = pages.map (fun page => .ok (some page)) ∧
    DistinctIds HistoryRecord.id pages ∧
    ((∃ size total, Regular pages size total) → PagesComplete pages)

theorem Reader.read_eq_ok {result : β}
    (hread : (reader.read finish server request).result = .ok result) :
    ReadsWhole server (reader.read finish server request).calls := by
  let inv (answers : List (Option (Page (Option HistoryRecord)))) (state : Progressed ι) : Prop :=
    ∃ pages, answers = pages.map some ∧ Gathered pages state.seen state.expectedTotal ∧
      Filled pages
  have hinit : inv [] ⟨[], [], -1⟩ :=
    ⟨[], rfl, ⟨.inl ⟨rfl, rfl⟩, ⟨[], rfl, rfl⟩, List.nodup_nil⟩,
      fun size total _ => ⟨by simp, .inl rfl⟩⟩
  refine exists_pages_of_answers (readPages_rule inv hinit ?_ hread)
  rintro _ state response progress ⟨pages, rfl, hgathered, hfilled⟩ - hround
  rw [List.length_map] at hround
  obtain ⟨page, seen, total, rfl, hsize, hnext, hprogress⟩ := round_eq_ok hgathered hround
  obtain rfl : page.totalRecords = total := hnext.agreed.total_eq (by simp)
  cases progress with
  | done result =>
    obtain ⟨records, hrecords, rfl⟩ := hnext.ids
    refine ⟨pages ++ [page], by simp, ⟨records, hrecords, hnext.distinct⟩, ?_⟩
    rintro ⟨size, total, hregular⟩
    have htotal : 0 ≤ page.totalRecords := by
      rcases hnext.agreed with ⟨hnil, -⟩ | ⟨-, htotal, -⟩
      · simp at hnil
      · exact htotal
    exact hnext.agreed.pagesComplete (by simp)
      (hfilled.length_eq hsize hregular htotal hprogress)
  | more next =>
    obtain ⟨rfl, htotal, hmore, -⟩ := hprogress
    refine ⟨pages ++ [page], by simp, ?_, hfilled.append hsize hmore⟩
    rw [htotal]
    exact hnext

theorem recoverAlbumIdentity_eq_ok {identity : Option AlbumIdentity}
    (hread : (recoverAlbumIdentity server downloadID).result = .ok identity) :
    ReadsWhole server (recoverAlbumIdentity server downloadID).calls := by
  rw [recoverAlbumIdentity] at hread ⊢
  split at hread
  · cases hread
  rename_i hquery
  rw [if_neg hquery]
  exact Reader.read_eq_ok hread

theorem readImportedTracks_eq_ok {sorting : Sorting ImportedTrack.historyID} {filter albumID : Int}
    {imports : List ImportedTrack}
    (hread : (readImportedTracks server sorting filter albumID downloadID).result = .ok imports) :
    ReadsWhole server
      (readImportedTracks server sorting filter albumID downloadID).calls := by
  rw [readImportedTracks] at hread ⊢
  split at hread
  · cases hread
  rename_i hquery
  rw [if_neg hquery]
  exact Reader.read_eq_ok hread

end Lidarr

/-! ## All four readers -/

/-- Whatever pages a server gives, a queue and a Radarr history that are read are read
as a whole. So are Lidarr's histories if the pages are filled. No history has
two records with one id. -/
theorem reads_complete {α : Type} (queue : Nat × Nat → Except String (Page α))
    (radarr : PageReq → Except String (Option (Page (Option Radarr.HistoryRecord))))
    (server : Lidarr.Server) (downloadID : Text) :
    (∀ service records, (readQueue queue service).result = .ok records →
      ∃ pages, (readQueue queue service).calls.map queue = pages.map .ok ∧
        PagesComplete pages) ∧
    (∀ sorting movieID records,
      (Radarr.readHistoryRecords radarr sorting movieID downloadID).result = .ok records →
      ∃ pages, (Radarr.readHistoryRecords radarr sorting movieID downloadID).calls.map radarr =
          pages.map (fun page => .ok (some page)) ∧
        PagesComplete pages ∧ DistinctIds Radarr.HistoryRecord.id pages) ∧
    (∀ identity, (Lidarr.recoverAlbumIdentity server downloadID).result = .ok identity →
      ∃ pages, (Lidarr.recoverAlbumIdentity server downloadID).calls.map server =
          pages.map (fun page => .ok (some page)) ∧
        DistinctIds Lidarr.HistoryRecord.id pages ∧
        ((∃ size total, Lidarr.Regular pages size total) → PagesComplete pages)) ∧
    ∀ sorting filter albumID imports,
      (Lidarr.readImportedTracks server sorting filter albumID downloadID).result = .ok imports →
      ∃ pages, (Lidarr.readImportedTracks server sorting filter albumID downloadID).calls.map server =
          pages.map (fun page => .ok (some page)) ∧
        DistinctIds Lidarr.HistoryRecord.id pages ∧
        ((∃ size total, Lidarr.Regular pages size total) → PagesComplete pages) :=
  ⟨fun _ _ => readQueue_complete, fun _ _ _ => Radarr.readHistoryRecords_complete,
    fun _ => Lidarr.recoverAlbumIdentity_eq_ok, fun _ _ _ _ => Lidarr.readImportedTracks_eq_ok⟩

/-- A track that was imported. -/
def importRecord (id : Int) : Lidarr.HistoryRecord :=
  ⟨id, 7, 3, 11, bytes "d", 1, bytes "trackFileImported", bytes "/a", bytes "/b"⟩

/-- A server with two records, both on its first page. -/
def fullServer : Lidarr.Server := fun request =>
  .ok (some ⟨request.page, 250, 2,
    if request.page = 1 then [some (importRecord 5), some (importRecord 6)] else []⟩)

/-- Its history is read as a whole. -/
theorem full_page_read :
    (Lidarr.recoverAlbumIdentity fullServer (bytes "d")).result = .ok (some ⟨7, 3⟩) ∧
    ∃ pages, (Lidarr.recoverAlbumIdentity fullServer (bytes "d")).calls.map fullServer =
        pages.map (fun page => .ok (some page)) ∧
      DistinctIds Lidarr.HistoryRecord.id pages ∧ PagesComplete pages := by
  have hread : (Lidarr.recoverAlbumIdentity fullServer (bytes "d")).result = .ok (some ⟨7, 3⟩) := by
    decide +kernel
  obtain ⟨pages, hcalls, hdistinct, hcomplete⟩ := (reads_complete
    (fun _ => (.error "" : Except String (Page Unit))) (fun _ => .error "") fullServer
    (bytes "d")).2.2.1 _ hread
  obtain rfl : [⟨1, 250, 2, [some (importRecord 5), some (importRecord 6)]⟩] = pages := by
    refine List.map_injective_iff.mpr (fun _ _ heq => ?_) (hcalls.symm.trans ?_).symm
    · cases heq
      rfl
    · decide +kernel
  refine ⟨hread, _, hcalls, hdistinct, hcomplete ⟨250, 2, fun index page hpage => ?_⟩⟩
  obtain ⟨rfl, rfl⟩ : index = 0 ∧ _ = page := by simpa [List.getElem?_singleton] using hpage
  exact ⟨rfl, rfl, rfl⟩

/-- A server with two records that holds one of them back. -/
def shortServer : Lidarr.Server := fun request =>
  .ok (some ⟨request.page, 250, 2, [some (importRecord 5)]⟩)

/-- Its first page does not hold the total. -/
theorem not_pagesComplete_shortServer {calls : List PageReq} (hlength : calls.length = 1)
    {pages : List (Page (Option Lidarr.HistoryRecord))}
    (hpages : calls.map shortServer = pages.map fun page => .ok (some page)) :
    ¬ PagesComplete pages := by
  obtain ⟨request, rfl⟩ := List.length_eq_one_iff.mp hlength
  rintro ⟨-, htotal⟩
  cases pages with
  | nil => cases hpages
  | cons page rest =>
    cases rest with
    | cons next rest => cases hpages
    | nil =>
      have hpage : (⟨request.page, 250, 2, [some (importRecord 5)]⟩ : Page _) = page :=
        Option.some.inj (Except.ok.inj (List.cons.inj hpages).1)
      have hcount := htotal page List.mem_cons_self
      rw [← hpage] at hcount
      have hcount : (2 : Int) = 1 := hcount
      omega

/-- One record out of two is taken for the whole history, by both readers: album and
boundary are those of the record that was seen. -/
theorem short_page_taken_for_whole :
    ((Lidarr.recoverAlbumIdentity shortServer (bytes "d")).result = .ok (some ⟨7, 3⟩) ∧
      ∀ pages, (Lidarr.recoverAlbumIdentity shortServer (bytes "d")).calls.map shortServer =
        pages.map (fun page => .ok (some page)) → ¬ PagesComplete pages) ∧
    ∃ imports, (Lidarr.readImportedTracks shortServer (Sorting.insertion _) 3 7 (bytes "d")).result =
        .ok imports ∧ imports.map Lidarr.ImportedTrack.historyID = [5] ∧
      ∀ pages, (Lidarr.readImportedTracks shortServer (Sorting.insertion _) 3 7
          (bytes "d")).calls.map shortServer = pages.map (fun page => .ok (some page)) →
        ¬ PagesComplete pages := by
  refine ⟨⟨by decide +kernel, fun pages hpages => ?_⟩,
    [⟨5, 7, 3, 11, bytes "d", bytes "/a", bytes "/b", 1⟩], by decide +kernel, by decide +kernel,
    fun pages hpages => ?_⟩
  · exact not_pagesComplete_shortServer (by decide +kernel) hpages
  · exact not_pagesComplete_shortServer (by decide +kernel) hpages

end NixConfig.MediaRepair.Servarr
