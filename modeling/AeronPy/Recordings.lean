import AeronPy.Kwargs
import AeronPy.Lib.AppendLog
import Mathlib.Order.Bounds.Basic

/-!
# Finding recordings

`archive::find` and `archive::find_last` list descriptors from the catalogue of the archive
and look at how many the archive found. `archive::find_last` learns the id from a variable
that its consumer overwrites for every descriptor.

* `Catalogue.start`: recordings being started, under increasing ids;
* `ArchiveService`: the requests the archive answers from its catalogue;
* `Archive.find`, `Archive.findLast`: the functions;
* `findsLast_of_run`: in the catalogues that started recordings lead to, `find_last` answers
  with the latest match.
-/

namespace AeronPy

/-! ## The catalogue -/

/-- The descriptor of a recording. The archive counts its ids from zero. -/
structure RecordingDescriptor where
  recordingId : ℕ
  streamId : Int32
  originalChannel : StdString
deriving DecidableEq

/-- The recordings of an archive, in the order they were started in. -/
abbrev Catalogue := List RecordingDescriptor

/-- A recording is started, under an id greater than the ids so far. -/
def Catalogue.start (catalogue : Catalogue) (descriptor : RecordingDescriptor) :
    Option Catalogue :=
  AppendLog.append RecordingDescriptor.recordingId catalogue descriptor

/-! ## Requests -/

/-- What the archive decides by itself: whether the channel of a recording matches the one
that is asked for. -/
structure ArchiveService where
  channelMatches : (recorded asked : StdString) → Bool

namespace ArchiveService

/-- The recording matches the channel and the stream. -/
def selects (service : ArchiveService) (channel : StdString) (streamId : Int32)
    (descriptor : RecordingDescriptor) : Bool :=
  service.channelMatches descriptor.originalChannel channel ∧ descriptor.streamId = streamId

/-- `listRecordingsForUri`: the consumer is called with up to `recordCount` of the matching
descriptors from `fromRecordingId` on, and the number of calls is the result. -/
def listRecordingsForUri {σ : Type} (service : ArchiveService) (catalogue : Catalogue)
    (fromRecordingId recordCount : ℕ) (channel : StdString) (streamId : Int32)
    (consumer : σ → RecordingDescriptor → σ) (captured : σ) : σ × ℤ :=
  let listed := (catalogue.filter fun descriptor =>
    fromRecordingId ≤ descriptor.recordingId ∧
      service.selects channel streamId descriptor).take recordCount
  (listed.foldl consumer captured, listed.length)

/-- `listRecording`: the consumer is called with the descriptor of this id, if there is one,
and the number of calls is the result. -/
def listRecording {σ : Type} (catalogue : Catalogue) (recordingId : ℤ)
    (consumer : σ → RecordingDescriptor → σ) (captured : σ) : σ × ℤ :=
  match catalogue.find? fun descriptor => (descriptor.recordingId : ℤ) = recordingId with
  | some descriptor => (consumer captured descriptor, 1)
  | none => (captured, 0)

end ArchiveService

/-! ## The functions -/

/-- `recording`, by its id. -/
structure Recording where
  id : ℤ
deriving DecidableEq

namespace Archive

/-- `archive::find`. -/
def find (catalogue : Catalogue) (recordingId : ℤ) : Option Recording :=
  -- the consumer is empty
  let (_, foundCount) := ArchiveService.listRecording catalogue recordingId (fun _ _ => ()) ()
  if foundCount ≤ 0 then none else some ⟨recordingId⟩

/-- `numeric_limits<std::int32_t>::max()`. -/
def int32Max : ℕ := 2 ^ 31 - 1

/-- `archive::find_last`. -/
def findLast (service : ArchiveService) (catalogue : Catalogue) (channel : StdString)
    (streamId : Int32) : Option Recording :=
  -- the consumer captures `last_recording_id`
  let (lastRecordingId, foundCount) := service.listRecordingsForUri catalogue 0 int32Max channel
    streamId (fun _ descriptor => (descriptor.recordingId : ℤ)) (-1)
  if foundCount ≤ 0 then none else some ⟨lastRecordingId⟩

end Archive

/-! ## `find` -/

/-- `find` answers with the recording of the id, where the catalogue has one. -/
theorem find_eq_some_iff {catalogue : Catalogue} {recordingId : ℤ} {recording : Recording} :
    Archive.find catalogue recordingId = some recording ↔
      (∃ descriptor ∈ catalogue, (descriptor.recordingId : ℤ) = recordingId) ∧
        recording = ⟨recordingId⟩ := by
  cases hfind : catalogue.find? fun descriptor => (descriptor.recordingId : ℤ) = recordingId with
  | none =>
    have hnot : ¬∃ descriptor ∈ catalogue, (descriptor.recordingId : ℤ) = recordingId := by
      intro hexists
      obtain ⟨descriptor, hmem, hid⟩ := hexists
      have hne := List.find?_eq_none.mp hfind descriptor hmem
      simp [hid] at hne
    simp [Archive.find, ArchiveService.listRecording, hfind, hnot]
  | some descriptor =>
    have hmem := List.mem_of_find?_eq_some hfind
    have hid : (descriptor.recordingId : ℤ) = recordingId := by
      simpa using List.find?_some hfind
    simp only [Archive.find, ArchiveService.listRecording, hfind]
    constructor
    · intro h
      exact ⟨⟨descriptor, hmem, hid⟩, (Option.some.inj h).symm⟩
    · rintro ⟨-, rfl⟩
      rfl

/-! ## `find_last` -/

section

variable {service : ArchiveService} {channel : StdString} {streamId : Int32}

/-- The recording of a descriptor. -/
def Recording.ofDescriptor (descriptor : RecordingDescriptor) : Recording :=
  ⟨descriptor.recordingId⟩

/-- The number of recordings that match. -/
def ArchiveService.matchCount (service : ArchiveService) (catalogue : Catalogue)
    (channel : StdString) (streamId : Int32) : ℕ :=
  (catalogue.filter (service.selects channel streamId)).length

/-- `find_last` answers with the last recording that was listed. -/
theorem findLast_eq_getLast? (catalogue : Catalogue) :
    Archive.findLast service catalogue channel streamId =
      (((catalogue.filter (service.selects channel streamId)).take
        Archive.int32Max).getLast?).map Recording.ofDescriptor := by
  -- every id is listed from zero on
  have hfilter : (catalogue.filter fun descriptor =>
      0 ≤ descriptor.recordingId ∧ service.selects channel streamId descriptor) =
      catalogue.filter (service.selects channel streamId) := by simp
  simp only [Archive.findLast, ArchiveService.listRecordingsForUri, hfilter,
    AppendLog.foldl_overwrite]
  generalize (catalogue.filter (service.selects channel streamId)).take Archive.int32Max = listed
  cases hlast : listed.getLast? with
  | none =>
    rw [List.getLast?_eq_none_iff] at hlast
    simp [hlast]
  | some descriptor =>
    -- the count is positive, so the captured id is returned
    have hpos : 0 < listed.length := List.length_pos_of_mem (List.mem_of_getLast? hlast)
    have hcount : ¬(listed.length : ℤ) ≤ 0 := by omega
    rw [if_neg hcount]
    rfl

/-- While all matching recordings can be listed, that is the latest one of them. -/
theorem findLast_eq_latest {catalogue : Catalogue}
    (hcount : service.matchCount catalogue channel streamId ≤ Archive.int32Max) :
    Archive.findLast service catalogue channel streamId =
      (AppendLog.latest (service.selects channel streamId) catalogue).map
        Recording.ofDescriptor := by
  rw [findLast_eq_getLast?, List.take_of_length_le hcount, AppendLog.latest]

/-- The catalogue that a run of started recordings leads to has increasing ids. -/
theorem increasing_of_start {started : List RecordingDescriptor} {catalogue : Catalogue}
    (hrun : StepMachine.run Catalogue.start [] started = some catalogue) :
    AppendLog.Increasing RecordingDescriptor.recordingId catalogue :=
  AppendLog.increasing_of_run hrun List.Pairwise.nil

/-- A match that `find_last` returns is one that the catalogue has, and has the greatest id. -/
theorem isGreatest_findLast {catalogue : Catalogue}
    (hincreasing : AppendLog.Increasing RecordingDescriptor.recordingId catalogue)
    (hcount : service.matchCount catalogue channel streamId ≤ Archive.int32Max)
    {recording : Recording}
    (h : Archive.findLast service catalogue channel streamId = some recording) :
    IsGreatest {id : ℤ | ∃ descriptor ∈ catalogue,
      service.selects channel streamId descriptor = true ∧ (descriptor.recordingId : ℤ) = id}
      recording.id := by
  rw [findLast_eq_latest hcount, Option.map_eq_some_iff] at h
  obtain ⟨latest, hlatest, rfl⟩ := h
  obtain ⟨hmem, hselects⟩ := AppendLog.mem_of_latest hlatest
  refine ⟨⟨latest, hmem, hselects, rfl⟩, ?_⟩
  rintro id ⟨descriptor, hdescriptor, hselects', rfl⟩
  exact Int.ofNat_le.mpr (AppendLog.le_latest hincreasing hlatest hdescriptor hselects')

/-- A recording that was started stays in the catalogue, and `find` answers with it. -/
theorem find_of_run {catalogue catalogue' : Catalogue} {later : List RecordingDescriptor}
    (hrun : StepMachine.run Catalogue.start catalogue later = some catalogue')
    {descriptor : RecordingDescriptor} (hmem : descriptor ∈ catalogue) :
    Archive.find catalogue' descriptor.recordingId =
      some (Recording.ofDescriptor descriptor) := by
  have hgrown := AppendLog.eq_append_of_run hrun
  refine find_eq_some_iff.mpr ⟨⟨descriptor, ?_, rfl⟩, rfl⟩
  rw [hgrown]
  exact List.mem_append_left later hmem

/-- A recording that does not match leaves the answer as it is. -/
theorem findLast_start_of_neg {catalogue catalogue' : Catalogue}
    {descriptor : RecordingDescriptor} (hstart : catalogue.start descriptor = some catalogue')
    (hselects : ¬service.selects channel streamId descriptor = true) :
    Archive.findLast service catalogue' channel streamId =
      Archive.findLast service catalogue channel streamId := by
  obtain ⟨-, rfl⟩ := AppendLog.append_eq_some.mp hstart
  rw [findLast_eq_getLast?, findLast_eq_getLast?, List.filter_append,
    List.filter_cons_of_neg hselects, List.filter_nil, List.append_nil]

/-- A recording that matches is the answer from then on. -/
theorem findLast_start_of_pos {catalogue catalogue' : Catalogue}
    {descriptor : RecordingDescriptor} (hstart : catalogue.start descriptor = some catalogue')
    (hselects : service.selects channel streamId descriptor = true)
    (hcount : service.matchCount catalogue' channel streamId ≤ Archive.int32Max) :
    Archive.findLast service catalogue' channel streamId =
      some ⟨descriptor.recordingId⟩ := by
  obtain ⟨-, rfl⟩ := AppendLog.append_eq_some.mp hstart
  rw [findLast_eq_latest hcount, AppendLog.latest_append_of_pos hselects, Option.map_some,
    Recording.ofDescriptor]

/-- Matching recordings are only added to a catalogue. -/
theorem matchCount_mono {catalogue catalogue' : Catalogue} {later : List RecordingDescriptor}
    (hrun : StepMachine.run Catalogue.start catalogue later = some catalogue') :
    service.matchCount catalogue channel streamId ≤
      service.matchCount catalogue' channel streamId := by
  unfold ArchiveService.matchCount
  rw [AppendLog.eq_append_of_run hrun, List.filter_append, List.length_append]
  omega

/-- However many recordings are started in between, a later answer is at least as great. -/
theorem findLast_mono {catalogue catalogue' : Catalogue} {later : List RecordingDescriptor}
    (hincreasing : AppendLog.Increasing RecordingDescriptor.recordingId catalogue)
    (hrun : StepMachine.run Catalogue.start catalogue later = some catalogue')
    (hcount : service.matchCount catalogue' channel streamId ≤ Archive.int32Max)
    {recording : Recording}
    (h : Archive.findLast service catalogue channel streamId = some recording) :
    ∃ recording', Archive.findLast service catalogue' channel streamId = some recording' ∧
      recording.id ≤ recording'.id := by
  rw [findLast_eq_latest ((matchCount_mono hrun).trans hcount), Option.map_eq_some_iff] at h
  obtain ⟨latest, hlatest, rfl⟩ := h
  have hgrowth : catalogue <+: catalogue' := ⟨later, (AppendLog.eq_append_of_run hrun).symm⟩
  obtain ⟨latest', hlatest', hle⟩ :=
    AppendLog.latest_mono (AppendLog.increasing_of_run hrun hincreasing) hgrowth hlatest
  refine ⟨Recording.ofDescriptor latest', ?_, Int.ofNat_le.mpr hle⟩
  rw [findLast_eq_latest hcount, hlatest', Option.map_some]

/-- What `find_last` owes its caller for a channel and a stream, in a catalogue and in the ones
that it grows into. -/
structure Archive.FindsLast (service : ArchiveService) (channel : StdString) (streamId : Int32)
    (catalogue : Catalogue) : Prop where
  none_iff : findLast service catalogue channel streamId = none ↔
    ∀ descriptor ∈ catalogue, ¬service.selects channel streamId descriptor = true
  /-- The answer has the greatest of the matching ids. -/
  greatest : ∀ recording, findLast service catalogue channel streamId = some recording →
    IsGreatest {id : ℤ | ∃ descriptor ∈ catalogue,
      service.selects channel streamId descriptor = true ∧ (descriptor.recordingId : ℤ) = id}
      recording.id
  /-- Starting a recording that does not match changes nothing. -/
  unmatched : ∀ descriptor catalogue', catalogue.start descriptor = some catalogue' →
    ¬service.selects channel streamId descriptor = true →
    findLast service catalogue' channel streamId = findLast service catalogue channel streamId
  /-- A recording that matches is the answer once it is started. -/
  matched : ∀ descriptor catalogue', catalogue.start descriptor = some catalogue' →
    service.selects channel streamId descriptor = true →
    service.matchCount catalogue' channel streamId ≤ int32Max →
    findLast service catalogue' channel streamId = some ⟨descriptor.recordingId⟩
  /-- Answers never decrease. -/
  mono : ∀ later catalogue', StepMachine.run Catalogue.start catalogue later = some catalogue' →
    service.matchCount catalogue' channel streamId ≤ int32Max →
    ∀ recording, findLast service catalogue channel streamId = some recording →
      ∃ recording', findLast service catalogue' channel streamId = some recording' ∧
        recording.id ≤ recording'.id
  /-- The id of an answer is found, then and later. -/
  found : ∀ recording, findLast service catalogue channel streamId = some recording →
    ∀ later catalogue', StepMachine.run Catalogue.start catalogue later = some catalogue' →
      find catalogue' recording.id = some recording

/-- In every catalogue that started recordings lead to, `find_last` keeps its contract for
every channel and stream with as many matches as can be listed. -/
theorem findsLast_of_run {started : List RecordingDescriptor} {catalogue : Catalogue}
    (hrun : StepMachine.run Catalogue.start [] started = some catalogue)
    (service : ArchiveService) (channel : StdString) (streamId : Int32)
    (hcount : service.matchCount catalogue channel streamId ≤ Archive.int32Max) :
    Archive.FindsLast service channel streamId catalogue where
  none_iff := by
    rw [findLast_eq_latest hcount, Option.map_eq_none_iff, AppendLog.latest_eq_none_iff]
  greatest _ h := isGreatest_findLast (increasing_of_start hrun) hcount h
  unmatched _ _ hstart hselects := findLast_start_of_neg hstart hselects
  matched _ _ hstart hselects hcount' := findLast_start_of_pos hstart hselects hcount'
  mono _ _ hlater hcount' _ h := findLast_mono (increasing_of_start hrun) hlater hcount' h
  found := by
    intro recording h later catalogue' hlater
    rw [findLast_eq_latest hcount, Option.map_eq_some_iff] at h
    obtain ⟨latest, hlatest, rfl⟩ := h
    exact find_of_run hlater (AppendLog.mem_of_latest hlatest).1

/-- Channels match when they are equal. -/
def exactArchive : ArchiveService := ⟨fun recorded asked => recorded = asked⟩

/-- `aeron:ipc` -/
def ipcChannel : StdString := [97, 101, 114, 111, 110, 58, 105, 112, 99]

/-- A recording of another stream is started between two of the one that is asked for. -/
theorem findsLast_three :
    Archive.FindsLast exactArchive ipcChannel 5000
      [⟨0, 5000, ipcChannel⟩, ⟨1, 6000, ipcChannel⟩, ⟨2, 5000, ipcChannel⟩] := by
  have hrun : StepMachine.run Catalogue.start []
      [⟨0, 5000, ipcChannel⟩, ⟨1, 6000, ipcChannel⟩, ⟨2, 5000, ipcChannel⟩] =
      some [⟨0, 5000, ipcChannel⟩, ⟨1, 6000, ipcChannel⟩, ⟨2, 5000, ipcChannel⟩] := by decide
  exact findsLast_of_run hrun exactArchive ipcChannel 5000 (by decide)

end

end AeronPy
