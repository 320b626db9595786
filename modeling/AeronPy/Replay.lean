import AeronPy.Lib.PositionLog
import AeronPy.Recordings
import AeronPy.RoundTrip

/-!
# Recording and replaying

A publication of `archive::add_recorded_publication` or of
`archive::add_recorded_exclusive_publication` is written to an archive while the program offers
on it, and `recording::replay` gives a subscription to which the archive sends what it has
written from a position on, and goes on to send what it writes later.

* `Recording.replay`, `Recording.position`: the functions;
* `ReplayService`: whether the archive accepts a replay, which it decides by itself;
* `State`, `Action`, `step`: publications, the archive and the replays. What is assumed of Aeron
  is in the guards: fragments are appended to the log of their publication in frames, the
  archive writes the frames in order, and sends the ones that start within the length asked for.
  A replay is polled as in `Delivery`. No recording ends or is truncated;
* `grows_run`: a run only adds to a recording;
* `accounts_run`: to the subscription of a replay a run is a run of the delivery system, in
  which the first of the fragments written from the position on are stored.
-/

namespace AeronPy

/-- `numeric_limits<std::int64_t>::max()`. -/
def int64Max : ℕ := 2 ^ 63 - 1

/-! ## The functions -/

namespace Recording

/-- `default_position`: the position of a replay that is called without one. -/
def defaultPosition : ℤ := 0

/-- `recording::replay`. `aeronReplay` is the call on the client of the archive, with the id of
the recording, the position, the length, the channel and the stream. -/
def replay {α : Type} (aeronReplay : ℤ → ℤ → ℤ → StdString → Int32 → α) (self : Recording)
    (channel : StdString) (streamId : Int32) (position : ℤ) : α :=
  aeronReplay self.id position int64Max channel streamId

/-- `recording::position`. -/
def position {α : Type} (getRecordingPosition : ℤ → α) (self : Recording) : α :=
  getRecordingPosition self.id

end Recording

namespace Replay

open PositionLog

/-! ## The log of a recorded publication -/

/-- The length of the header of a frame. -/
def frameHeaderLength : ℕ := 32

/-- What the log of a publication holds: a fragment, or the padding at the end of a term. -/
inductive Entry where
  | fragment (payload : List UInt8)
  | padding (units : ℕ)
deriving DecidableEq

namespace Entry

/-- The length of the frame that holds the entry. -/
def frameLength : Entry → ℕ
  | .fragment payload => align (frameHeaderLength + payload.length)
  | .padding units => (units + 1) * frameAlignment

/-- The bytes of a fragment. -/
def payload? : Entry → Option (List UInt8)
  | .fragment payload => some payload
  | .padding _ => none

theorem frameLength_pos (e : Entry) : 0 < e.frameLength := by
  cases e with
  | fragment payload =>
    simp only [frameLength, frameHeaderLength, align, frameAlignment]
    omega
  | padding units =>
    simp only [frameLength, frameAlignment]
    omega

end Entry

/-- The fragments among the entries. -/
def payloads (entries : List Entry) : List (List UInt8) := entries.filterMap Entry.payload?

@[simp] theorem payloads_nil : payloads [] = [] := rfl

@[simp] theorem payloads_append (entries entries' : List Entry) :
    payloads (entries ++ entries') = payloads entries ++ payloads entries' :=
  List.filterMap_append

@[simp] theorem payloads_fragments (parts : List (List UInt8)) :
    payloads (parts.map Entry.fragment) = parts := by
  induction parts with
  | nil => rfl
  | cons part parts ih =>
    rw [List.map_cons]
    exact congrArg (part :: ·) ih

/-! ## The system -/

/-- Whether the archive replays what it has written of a recording, and where it starts. -/
structure ReplayService where
  start : (written : List Entry) → (position length : ℤ) → (channel : StdString) →
    (streamId : Int32) → Option ℕ
  /-- It starts where a frame starts, or what has been written ends. -/
  boundary : ∀ {written position length channel streamId p},
    start written position length channel streamId = some p →
    (after Entry.frameLength p written).isSome = true
  /-- It starts at the position that it is asked for, where that is one. -/
  exact : ∀ {written position length channel streamId p},
    start written position length channel streamId = some p → 0 ≤ position →
    (p : ℤ) = position

/-- The driver's settings, and the archive. Positions are `int64_t`s. -/
structure Config where
  maxPayloadLength : ℕ
  maxMessageLength : ℕ
  maxPosition : ℕ
  maxPosition_lt : maxPosition < int64Max
  archive : ReplayService

/-- A recorded publication: the entries of its log that the archive has written, and the ones
it has not. -/
structure Recorded where
  exclusive : Bool
  written : List Entry
  ahead : List Entry

namespace Recorded

/-- The log of the publication. -/
def entries (recorded : Recorded) : List Entry := recorded.written ++ recorded.ahead

/-- The position at which the log ends. -/
def result (recorded : Recorded) : ℕ := extent Entry.frameLength recorded.entries

/-- Entries are appended to the log. -/
def append (recorded : Recorded) (entries : List Entry) : Recorded :=
  { recorded with ahead := recorded.ahead ++ entries }

end Recorded

/-- What the archive is asked for. -/
structure Request where
  recordingId : ℕ
  position : ℕ
  length : ℤ
  channel : StdString
  streamId : Int32

/-- A replay: the session that the archive sends it as, how many entries it has sent, and the
subscription that `recording::replay` returned. -/
structure Replayed where
  request : Request
  session : Int32
  sent : ℕ
  delivery : Delivery.State

/-- The recordings, by their ids, and the replays. -/
structure State where
  recordings : ℕ → Option Recorded
  replays : ℕ → Option Replayed

/-- Nothing is recorded. -/
def init : State := ⟨fun _ => none, fun _ => none⟩

namespace State

variable (s : State)

/-- The recording changes. -/
def setRecorded (id : ℕ) (recorded : Recorded) : State :=
  { s with recordings := Function.update s.recordings id (some recorded) }

/-- The replay changes. -/
def setReplayed (j : ℕ) (replayed : Replayed) : State :=
  { s with replays := Function.update s.replays j (some replayed) }

/-- The recording that has the id, which Python may have made up. -/
def recorded? (recordingId : ℤ) : Option Recorded :=
  if 0 ≤ recordingId then s.recordings recordingId.toNat else none

/-- The archive's answer to a request for a replay of a recording, which it has to know. -/
def answer (archive : ReplayService) (recordingId position length : ℤ) (channel : StdString)
    (streamId : Int32) : Except PyError Request :=
  match s.recorded? recordingId with
  | some recorded =>
    match archive.start recorded.written position length channel streamId with
    | some p => .ok ⟨recordingId.toNat, p, length, channel, streamId⟩
    | none => .error (.foreign .runtimeError)
  | none => .error (.foreign .runtimeError)

/-- `getRecordingPosition`; `NULL_POSITION` where there is no recording. -/
def getRecordingPosition (recordingId : ℤ) : ℤ :=
  match s.recorded? recordingId with
  | some recorded => extent Entry.frameLength recorded.written
  | none => -1

/-- The log of the publication of a recording. -/
def log (id : ℕ) : List Entry := ((s.recordings id).map Recorded.entries).getD []

/-- The position of the publication of a recording, which is what an accepted offer on it
returns. -/
def result (id : ℕ) : ℕ := extent Entry.frameLength (s.log id)

/-- What the archive has written from the position of a request on. -/
def source (request : Request) : List Entry :=
  ((s.recordings request.recordingId).bind fun recorded =>
    after Entry.frameLength request.position recorded.written).getD []

end State

/-- One step; the choices of Aeron are arguments. -/
inductive Action where
  /-- `archive::add_recorded_publication` or `archive::add_recorded_exclusive_publication`. -/
  | record (id : ℕ) (exclusive : Bool)
  /-- An accepted offer on the publication of a recording, and how Aeron cuts the message. -/
  | offer (id : ℕ) (characters : ℤ) (memory : Memory) (data : PyData)
      (parts : List (List UInt8))
  /-- An offer finds that a term has no room for it, and fills the term up. -/
  | pad (id units : ℕ)
  /-- The archive writes the next entry. -/
  | write (id : ℕ)
  /-- A call of `recording::replay`, and the session of the replay. -/
  | replay (j : ℕ) (recording : Recording) (channel : StdString) (streamId : Int32)
      (position : ℤ) (session : Int32)
  /-- The archive sends the next fragment of a replay. -/
  | send (j : ℕ) (stored : Stored)
  /-- The archive passes over padding. -/
  | skip (j : ℕ)
  /-- A poll of the subscription of a replay, and what Aeron delivers in it. -/
  | poll (j fragmentLimit : ℕ) (memory : Memory) (delivered : List Stored)

/-- The message that an offer hands to Aeron, where it accepts the data. -/
def handedMessage (exclusive : Bool) (characters : ℤ) (memory : Memory) (data : PyData) :
    Except PyError (List UInt8) :=
  if exclusive then
    ExclusivePublication.offer (fun m buf => buf.bytes m) characters memory data
  else
    Publication.offer (fun m buf => buf.bytes m) characters memory data

/-- The subscription of a replay. -/
def Replayed.subscription (cfg : Config) (replayed : Replayed) : Delivery.Config :=
  ⟨cfg.maxPayloadLength, cfg.maxMessageLength, fun _ => replayed.request.streamId⟩

/-- The entry that a replay sends next: one that starts within the length asked for. -/
def State.next (s : State) (replayed : Replayed) : Option Entry :=
  let source := s.source replayed.request
  if (extent Entry.frameLength (source.take replayed.sent) : ℤ) < replayed.request.length then
    source[replayed.sent]?
  else none

/-- One step of the system. -/
def step (cfg : Config) (s : State) : Action → Option State
  | .record id exclusive =>
    if s.recordings id = none then some (s.setRecorded id ⟨exclusive, [], []⟩) else none
  | .offer id characters memory data parts => do
    let recorded ← s.recordings id
    let message ← (handedMessage recorded.exclusive characters memory data).toOption
    let recorded' := recorded.append (parts.map Entry.fragment)
    if message.length ≤ cfg.maxMessageLength ∧ Fragmented cfg.maxPayloadLength message parts ∧
        recorded'.result ≤ cfg.maxPosition then
      return s.setRecorded id recorded'
    else none
  | .pad id units => do
    let recorded ← s.recordings id
    let recorded' := recorded.append [.padding units]
    if recorded'.result ≤ cfg.maxPosition then return s.setRecorded id recorded' else none
  | .write id => do
    let recorded ← s.recordings id
    match recorded.ahead with
    | e :: ahead =>
      return s.setRecorded id { recorded with written := recorded.written ++ [e], ahead }
    | [] => none
  | .replay j recording channel streamId position session =>
    match s.replays j, recording.replay (s.answer cfg.archive) channel streamId position with
    | none, .ok request => some (s.setReplayed j ⟨request, session, 0, Delivery.init⟩)
    | _, _ => none
  | .send j stored => do
    let replayed ← s.replays j
    -- the archive sends as its own session, on the stream of the request
    if s.next replayed = some (.fragment stored.payload) ∧
        stored.fragment.header = ⟨replayed.request.streamId, replayed.session⟩ ∧
        stored.fragment.length = stored.payload.length then
      let delivery ← Delivery.step (replayed.subscription cfg) replayed.delivery (.arrive 0 stored)
      return s.setReplayed j { replayed with sent := replayed.sent + 1, delivery }
    else none
  | .skip j => do
    let replayed ← s.replays j
    match s.next replayed with
    | some (.padding _) => return s.setReplayed j { replayed with sent := replayed.sent + 1 }
    | _ => none
  | .poll j fragmentLimit memory delivered => do
    let replayed ← s.replays j
    let delivery ← Delivery.step (replayed.subscription cfg) replayed.delivery
      (.poll 0 fragmentLimit memory delivered)
    return s.setReplayed j { replayed with delivery }

/-! ## What a step does -/

section

variable {cfg : Config} {s s' : State} {a : Action} {id j : ℕ}

/-- What a step does to the state, and under which guards. -/
inductive Change (cfg : Config) (s : State) : Action → State → Prop where
  | record (id : ℕ) (exclusive : Bool) (hnew : s.recordings id = none) :
    Change cfg s (.record id exclusive) (s.setRecorded id ⟨exclusive, [], []⟩)
  | offer (id : ℕ) (recorded : Recorded) (characters : ℤ) (memory : Memory) (data : PyData)
      (message : List UInt8) (parts : List (List UInt8)) (hrec : s.recordings id = some recorded)
      (hhanded : handedMessage recorded.exclusive characters memory data = .ok message)
      (hparts : Fragmented cfg.maxPayloadLength message parts)
      (hlimit : (recorded.append (parts.map Entry.fragment)).result ≤ cfg.maxPosition) :
    Change cfg s (.offer id characters memory data parts)
      (s.setRecorded id (recorded.append (parts.map Entry.fragment)))
  | pad (id units : ℕ) (recorded : Recorded) (hrec : s.recordings id = some recorded)
      (hlimit : (recorded.append [.padding units]).result ≤ cfg.maxPosition) :
    Change cfg s (.pad id units) (s.setRecorded id (recorded.append [.padding units]))
  | write (id : ℕ) (recorded : Recorded) (e : Entry) (ahead : List Entry)
      (hrec : s.recordings id = some recorded) (hahead : recorded.ahead = e :: ahead) :
    Change cfg s (.write id)
      (s.setRecorded id { recorded with written := recorded.written ++ [e], ahead })
  | replay (j : ℕ) (recording : Recording) (channel : StdString) (streamId : Int32)
      (position : ℤ) (session : Int32) (request : Request) (hnew : s.replays j = none)
      (hrequest : recording.replay (s.answer cfg.archive) channel streamId position =
        .ok request) :
    Change cfg s (.replay j recording channel streamId position session)
      (s.setReplayed j ⟨request, session, 0, Delivery.init⟩)
  | send (j : ℕ) (stored : Stored) (replayed : Replayed) (delivery : Delivery.State)
      (hreplay : s.replays j = some replayed)
      (hnext : s.next replayed = some (.fragment stored.payload))
      (hheader : stored.fragment.header = ⟨replayed.request.streamId, replayed.session⟩)
      (hlength : stored.fragment.length = stored.payload.length)
      (harrive : Delivery.step (replayed.subscription cfg) replayed.delivery (.arrive 0 stored) =
        some delivery) :
    Change cfg s (.send j stored)
      (s.setReplayed j { replayed with sent := replayed.sent + 1, delivery })
  | skip (j units : ℕ) (replayed : Replayed) (hreplay : s.replays j = some replayed)
      (hnext : s.next replayed = some (.padding units)) :
    Change cfg s (.skip j) (s.setReplayed j { replayed with sent := replayed.sent + 1 })
  | poll (j fragmentLimit : ℕ) (memory : Memory) (delivered : List Stored)
      (replayed : Replayed) (delivery : Delivery.State) (hreplay : s.replays j = some replayed)
      (hpoll : Delivery.step (replayed.subscription cfg) replayed.delivery
        (.poll 0 fragmentLimit memory delivered) = some delivery) :
    Change cfg s (.poll j fragmentLimit memory delivered)
      (s.setReplayed j { replayed with delivery })

/-- Every step is one of these changes. -/
theorem change_of_step (h : step cfg s a = some s') : Change cfg s a s' := by
  cases a with
  | record id exclusive =>
    simp only [step] at h
    split at h
    · next hnew =>
      cases h
      exact .record id exclusive hnew
    · cases h
  | offer id characters memory data parts =>
    obtain ⟨recorded, hrec, h⟩ := Option.bind_eq_some_iff.mp h
    obtain ⟨message, hmessage, h⟩ := Option.bind_eq_some_iff.mp h
    have hhanded : handedMessage recorded.exclusive characters memory data = .ok message := by
      cases hdata : handedMessage recorded.exclusive characters memory data with
      | error e =>
        rw [hdata] at hmessage
        cases hmessage
      | ok handed =>
        rw [hdata] at hmessage
        cases hmessage
        rfl
    by_cases hguard : message.length ≤ cfg.maxMessageLength ∧
        Fragmented cfg.maxPayloadLength message parts ∧
        (recorded.append (parts.map Entry.fragment)).result ≤ cfg.maxPosition
    · rw [if_pos hguard] at h
      cases h
      exact .offer id recorded characters memory data message parts hrec hhanded hguard.2.1
        hguard.2.2
    · rw [if_neg hguard] at h
      cases h
  | pad id units =>
    obtain ⟨recorded, hrec, h⟩ := Option.bind_eq_some_iff.mp h
    by_cases hguard : (recorded.append [.padding units]).result ≤ cfg.maxPosition
    · rw [if_pos hguard] at h
      cases h
      exact .pad id units recorded hrec hguard
    · rw [if_neg hguard] at h
      cases h
  | write id =>
    obtain ⟨recorded, hrec, h⟩ := Option.bind_eq_some_iff.mp h
    cases hahead : recorded.ahead with
    | nil =>
      simp only [hahead] at h
      cases h
    | cons e ahead =>
      simp only [hahead] at h
      cases h
      exact .write id recorded e ahead hrec hahead
  | replay j recording channel streamId position session =>
    simp only [step] at h
    split at h
    · next request hnew hrequest =>
      cases h
      exact .replay j recording channel streamId position session request hnew hrequest
    · cases h
  | send j stored =>
    obtain ⟨replayed, hreplay, h⟩ := Option.bind_eq_some_iff.mp h
    by_cases hguard : s.next replayed = some (.fragment stored.payload) ∧
        stored.fragment.header = ⟨replayed.request.streamId, replayed.session⟩ ∧
        stored.fragment.length = stored.payload.length
    · rw [if_pos hguard] at h
      obtain ⟨delivery, harrive, h⟩ := Option.bind_eq_some_iff.mp h
      cases h
      exact .send j stored replayed delivery hreplay hguard.1 hguard.2.1 hguard.2.2 harrive
    · rw [if_neg hguard] at h
      cases h
  | skip j =>
    obtain ⟨replayed, hreplay, h⟩ := Option.bind_eq_some_iff.mp h
    cases hnext : s.next replayed with
    | none =>
      simp only [hnext] at h
      cases h
    | some e =>
      cases e with
      | fragment payload =>
        simp only [hnext] at h
        cases h
      | padding units =>
        simp only [hnext] at h
        cases h
        exact .skip j units replayed hreplay hnext
  | poll j fragmentLimit memory delivered =>
    obtain ⟨replayed, hreplay, h⟩ := Option.bind_eq_some_iff.mp h
    obtain ⟨delivery, hpoll, h⟩ := Option.bind_eq_some_iff.mp h
    cases h
    exact .poll j fragmentLimit memory delivered replayed delivery hreplay hpoll

/-! ## The recordings -/

/-- What an action appends to the log of a recording. -/
def Action.added (id : ℕ) : Action → List Entry
  | .offer id' _ _ _ parts => if id' = id then parts.map Entry.fragment else []
  | .pad id' units => if id' = id then [.padding units] else []
  | _ => []

/-- A recording is the same, or a later state of the same one: its log has grown by `more`, and
the archive has written at least as much of it. -/
structure Grows (recorded recorded' : Recorded) (more : List Entry) : Prop where
  exclusive : recorded'.exclusive = recorded.exclusive
  entries : recorded'.entries = recorded.entries ++ more
  written : recorded.written <+: recorded'.written

theorem grows_refl (recorded : Recorded) : Grows recorded recorded [] :=
  ⟨rfl, (List.append_nil _).symm, List.prefix_refl _⟩

theorem grows_append (recorded : Recorded) (entries : List Entry) :
    Grows recorded (recorded.append entries) entries where
  exclusive := rfl
  entries := (List.append_assoc _ _ _).symm
  written := List.prefix_refl _

theorem grows_write {recorded : Recorded} {e : Entry} {ahead : List Entry}
    (h : recorded.ahead = e :: ahead) :
    Grows recorded { recorded with written := recorded.written ++ [e], ahead } [] where
  exclusive := rfl
  entries := by
    unfold Recorded.entries
    rw [h, List.append_nil, List.append_assoc, List.singleton_append]
  written := List.prefix_append _ _

@[simp] theorem setRecorded_self (s : State) (id : ℕ) (recorded : Recorded) :
    (s.setRecorded id recorded).recordings id = some recorded := Function.update_self ..

theorem setRecorded_of_ne (s : State) {id id' : ℕ} (h : id' ≠ id) (recorded : Recorded) :
    (s.setRecorded id recorded).recordings id' = s.recordings id' := Function.update_of_ne h ..

@[simp] theorem setReplayed_self (s : State) (j : ℕ) (replayed : Replayed) :
    (s.setReplayed j replayed).replays j = some replayed := Function.update_self ..

theorem setReplayed_of_ne (s : State) {j j' : ℕ} (h : j' ≠ j) (replayed : Replayed) :
    (s.setReplayed j replayed).replays j' = s.replays j' := Function.update_of_ne h ..

/-- A recording that changes is a later state of itself, and the others are the same. -/
theorem grows_setRecorded {id' : ℕ} {recorded recorded' recorded₁ : Recorded}
    {more : List Entry} (hrec : s.recordings id = some recorded)
    (hrec' : s.recordings id' = some recorded') (h : Grows recorded' recorded₁ more) :
    ∃ recorded₂, (s.setRecorded id' recorded₁).recordings id = some recorded₂ ∧
      Grows recorded recorded₂ (if id' = id then more else []) := by
  by_cases hid : id' = id
  · subst hid
    rw [hrec, Option.some_inj] at hrec'
    subst hrec'
    rw [if_pos rfl]
    exact ⟨recorded₁, setRecorded_self s id' recorded₁, h⟩
  · rw [if_neg hid]
    exact ⟨recorded, (setRecorded_of_ne s (Ne.symm hid) recorded₁).trans hrec, grows_refl recorded⟩

/-- A step keeps a recording, and adds its entries to it. -/
theorem grows_step {recorded : Recorded} (hrec : s.recordings id = some recorded)
    (h : Change cfg s a s') :
    ∃ recorded', s'.recordings id = some recorded' ∧ Grows recorded recorded' (a.added id) := by
  cases h with
  | record id' exclusive hnew =>
    have hid : id ≠ id' := by
      intro heq
      subst heq
      rw [hrec] at hnew
      cases hnew
    exact ⟨recorded, (setRecorded_of_ne s hid _).trans hrec, grows_refl recorded⟩
  | offer id' recorded' characters memory data message parts hrec' hhanded hparts hlimit =>
    exact grows_setRecorded hrec hrec' (grows_append recorded' _)
  | pad id' units recorded' hrec' hlimit =>
    exact grows_setRecorded hrec hrec' (grows_append recorded' _)
  | write id' recorded' e ahead hrec' hahead =>
    have hgrows := grows_setRecorded hrec hrec' (grows_write hahead)
    rw [ite_self] at hgrows
    exact hgrows
  | replay => exact ⟨recorded, hrec, grows_refl recorded⟩
  | send => exact ⟨recorded, hrec, grows_refl recorded⟩
  | skip => exact ⟨recorded, hrec, grows_refl recorded⟩
  | poll => exact ⟨recorded, hrec, grows_refl recorded⟩

theorem log_eq {recorded : Recorded} (hrec : s.recordings id = some recorded) :
    s.log id = recorded.entries := by
  unfold State.log
  rw [hrec, Option.map_some, Option.getD_some]

/-- A recording that is not there yet is not added to. -/
theorem log_step_of_none (hnone : s.recordings id = none) (h : Change cfg s a s') :
    s'.log id = a.added id := by
  -- what is set is another recording
  have hset : ∀ id' recorded', s.recordings id' ≠ none →
      (s.setRecorded id' recorded').log id = [] ∧ id' ≠ id := by
    intro id' recorded' hsome
    have hid : id' ≠ id := by
      intro heq
      exact hsome (heq ▸ hnone)
    refine ⟨?_, hid⟩
    unfold State.log
    rw [setRecorded_of_ne s (Ne.symm hid), hnone]
    rfl
  have hlog : s.log id = [] := by
    unfold State.log
    rw [hnone]
    rfl
  cases h with
  | record id' exclusive hnew =>
    unfold State.log
    by_cases hid : id = id'
    · rw [hid, setRecorded_self]
      rfl
    · rw [setRecorded_of_ne s hid, hnone]
      rfl
  | offer id' recorded' characters memory data message parts hrec' =>
    obtain ⟨hempty, hid⟩ := hset id' (recorded'.append (parts.map Entry.fragment))
      (by rw [hrec']; exact Option.some_ne_none recorded')
    exact hempty.trans (if_neg hid).symm
  | pad id' units recorded' hrec' =>
    obtain ⟨hempty, hid⟩ := hset id' (recorded'.append [.padding units])
      (by rw [hrec']; exact Option.some_ne_none recorded')
    exact hempty.trans (if_neg hid).symm
  | write id' recorded' e ahead hrec' =>
    exact (hset id' _ (by rw [hrec']; exact Option.some_ne_none recorded')).1
  | replay | send | skip | poll => exact hlog

/-- A step adds its entries to the log of a recording. -/
theorem log_step (h : Change cfg s a s') : s'.log id = s.log id ++ a.added id := by
  cases hrec : s.recordings id with
  | none =>
    rw [log_step_of_none hrec h]
    unfold State.log
    rw [hrec]
    rfl
  | some recorded =>
    obtain ⟨recorded', hrec', hgrows⟩ := grows_step hrec h
    rw [log_eq hrec, log_eq hrec']
    exact hgrows.entries

/-- A run adds the entries of its actions. -/
theorem log_run {as : List Action} (h : StepMachine.run (step cfg) s as = some s') (id : ℕ) :
    s'.log id = s.log id ++ as.flatMap (Action.added id) := by
  induction as generalizing s with
  | nil =>
    cases h
    exact (List.append_nil _).symm
  | cons a as ih =>
    obtain ⟨s₁, ha, hrest⟩ := StepMachine.run_cons_eq_some.mp h
    rw [ih hrest, log_step (change_of_step ha), List.append_assoc, List.flatMap_cons]

/-! ## The replays -/

theorem source_eq {request : Request} {recorded : Recorded} {later : List Entry}
    (hrec : s.recordings request.recordingId = some recorded)
    (hafter : after Entry.frameLength request.position recorded.written = some later) :
    s.source request = later := by
  unfold State.source
  rw [hrec, Option.bind_some, hafter, Option.getD_some]

/-- The archive has accepted the replay: its position is a boundary of what has been written,
and what has been sent was written. -/
structure Answered (s : State) (replayed : Replayed) : Prop where
  length : replayed.request.length = int64Max
  boundary : ∃ recorded, s.recordings replayed.request.recordingId = some recorded ∧
    after Entry.frameLength replayed.request.position recorded.written =
      some (s.source replayed.request)
  sent : replayed.sent ≤ (s.source replayed.request).length

/-- What the archive accepts, and what it is asked for by `recording::replay`. -/
theorem replay_eq_ok {archive : ReplayService} {recording : Recording} {channel : StdString}
    {streamId : Int32} {position : ℤ} {request : Request} :
    recording.replay (s.answer archive) channel streamId position = .ok request ↔
      ∃ recorded, s.recordings request.recordingId = some recorded ∧
        archive.start recorded.written position int64Max channel streamId =
          some request.position ∧
        (request.recordingId : ℤ) = recording.id ∧ request.length = int64Max ∧
        request.channel = channel ∧ request.streamId = streamId := by
  unfold Recording.replay State.answer State.recorded?
  constructor
  · intro h
    by_cases hid : 0 ≤ recording.id
    · rw [if_pos hid] at h
      cases hrec : s.recordings recording.id.toNat with
      | none =>
        simp only [hrec] at h
        cases h
      | some recorded =>
        simp only [hrec] at h
        cases hstart : archive.start recorded.written position int64Max channel streamId with
        | none =>
          simp only [hstart] at h
          cases h
        | some p =>
          simp only [hstart] at h
          cases h
          exact ⟨recorded, hrec, hstart, Int.toNat_of_nonneg hid, rfl, rfl, rfl⟩
    · rw [if_neg hid] at h
      cases h
  · intro h
    obtain ⟨recorded, hrec, hstart, hid, hlength, rfl, rfl⟩ := h
    have hnonneg : 0 ≤ recording.id := by omega
    rw [if_pos hnonneg, ← hid, Int.toNat_natCast, hrec]
    simp only [hstart]
    rw [← hlength]

/-- A replay that the archive accepts starts with nothing sent. -/
theorem answered_of_replay {archive : ReplayService} {recording : Recording}
    {channel : StdString} {streamId : Int32} {position : ℤ} {request : Request} (session : Int32)
    (h : recording.replay (s.answer archive) channel streamId position = .ok request) :
    Answered s ⟨request, session, 0, Delivery.init⟩ := by
  obtain ⟨recorded, hrec, hstart, -, hlength, -, -⟩ := replay_eq_ok.mp h
  obtain ⟨later, hafter⟩ := Option.isSome_iff_exists.mp (archive.boundary hstart)
  refine ⟨hlength, ⟨recorded, hrec, ?_⟩, Nat.zero_le _⟩
  rw [source_eq hrec hafter]
  exact hafter

/-- What the archive sends next is what it has written next. -/
theorem getElem?_of_next {replayed : Replayed} {e : Entry} (h : s.next replayed = some e) :
    (s.source replayed.request)[replayed.sent]? = some e := by
  simp only [State.next, Option.ite_none_right_eq_some] at h
  exact h.2

/-- The source of a replay only grows. -/
theorem answered_step {replayed : Replayed} (h : Answered s replayed) (hc : Change cfg s a s') :
    Answered s' replayed ∧ s.source replayed.request <+: s'.source replayed.request := by
  obtain ⟨recorded, hrec, hafter⟩ := h.boundary
  obtain ⟨recorded', hrec', hgrows⟩ := grows_step hrec hc
  obtain ⟨more, hmore⟩ := hgrows.written
  have hafter' := after_append_of_some (fun e _ => e.frameLength_pos) hafter more
  rw [hmore] at hafter'
  have hsource := source_eq hrec' hafter'
  have hprefix : s.source replayed.request <+: s'.source replayed.request := by
    rw [hsource]
    exact List.prefix_append _ _
  refine ⟨⟨h.length, ⟨recorded', hrec', ?_⟩, h.sent.trans hprefix.length_le⟩, hprefix⟩
  rw [hsource]
  exact hafter'

/-- What an action is to the subscription of a replay. -/
def Action.deliveryOf (j : ℕ) : Action → List Delivery.Action
  | .send j' stored => if j' = j then [.arrive 0 stored] else []
  | .poll j' fragmentLimit memory delivered =>
    if j' = j then [.poll 0 fragmentLimit memory delivered] else []
  | _ => []

/-- What a run is to the subscription of a replay: a run of the delivery system. -/
def deliveryRun (j : ℕ) (as : List Action) : List Delivery.Action :=
  as.flatMap (Action.deliveryOf j)

/-- What the subscription of a replay has gone through, and what it was sent: the first ones of
the fragments written from the position on. -/
structure Delivered (cfg : Config) (s : State) (replayed : Replayed)
    (ds : List Delivery.Action) : Prop where
  answered : Answered s replayed
  run : StepMachine.run (Delivery.step (replayed.subscription cfg)) Delivery.init ds =
    some replayed.delivery
  payloads : (Delivery.storedFor 0 ds).map Stored.payload =
    payloads ((s.source replayed.request).take replayed.sent)
  window : ∀ f ∈ Delivery.storedFor 0 ds, f.session = replayed.session ∧
    f.fragment.length = f.payload.length

/-- What others do leaves a replay as it is. -/
theorem delivered_step {replayed : Replayed} {ds : List Delivery.Action}
    (h : Delivered cfg s replayed ds) (hc : Change cfg s a s') : Delivered cfg s' replayed ds := by
  obtain ⟨hanswered, more, hmore⟩ := answered_step h.answered hc
  refine ⟨hanswered, h.run, ?_, h.window⟩
  rw [h.payloads, ← hmore, List.take_append_of_le_length h.answered.sent]

/-- What the archive has written does not depend on the replays. -/
theorem delivered_setReplayed {replayed : Replayed} {ds : List Delivery.Action}
    (h : Delivered cfg s replayed ds) (j : ℕ) (replayed' : Replayed) :
    Delivered cfg (s.setReplayed j replayed') replayed ds where
  answered := ⟨h.answered.length, h.answered.boundary, h.answered.sent⟩
  run := h.run
  payloads := h.payloads
  window := h.window

/-- A new replay. -/
theorem delivered_of_answered {request : Request} {session : Int32}
    (h : Answered s ⟨request, session, 0, Delivery.init⟩) :
    Delivered cfg s ⟨request, session, 0, Delivery.init⟩ [] where
  answered := h
  run := rfl
  payloads := by
    rw [List.take_zero]
    rfl
  window := nofun

/-- The replay sends its next entry, and what that is to its subscription. -/
theorem delivered_send {replayed : Replayed} {ds ds' : List Delivery.Action} {e : Entry}
    {delivery : Delivery.State} (h : Delivered cfg s replayed ds)
    (hnext : s.next replayed = some e)
    (hrun : StepMachine.run (Delivery.step (replayed.subscription cfg)) replayed.delivery ds' =
      some delivery)
    (hstored : (Delivery.storedFor 0 ds').map Stored.payload = payloads [e])
    (hwindow : ∀ f ∈ Delivery.storedFor 0 ds', f.session = replayed.session ∧
      f.fragment.length = f.payload.length) :
    Delivered cfg s { replayed with sent := replayed.sent + 1, delivery } (ds ++ ds') := by
  have helem := getElem?_of_next hnext
  have hstored_append : Delivery.storedFor 0 (ds ++ ds') =
      Delivery.storedFor 0 ds ++ Delivery.storedFor 0 ds' := List.flatMap_append
  obtain ⟨hlt, -⟩ := List.getElem?_eq_some_iff.mp helem
  refine ⟨⟨h.answered.length, h.answered.boundary, hlt⟩, ?_, ?_, ?_⟩
  · exact StepMachine.run_append_eq_some.mpr ⟨replayed.delivery, h.run, hrun⟩
  · rw [hstored_append, List.map_append, h.payloads, hstored, ← payloads_append]
    apply congrArg
    show _ = (s.source replayed.request).take (replayed.sent + 1)
    rw [List.take_add_one, helem, Option.toList_some]
  · rw [hstored_append, List.forall_mem_append]
    exact ⟨h.window, hwindow⟩

/-- What the actions so far were to the `j`-th replay. -/
structure Accounts (cfg : Config) (s : State) (j : ℕ) (ds : List Delivery.Action) : Prop where
  delivered : ∀ replayed, s.replays j = some replayed → Delivered cfg s replayed ds
  fresh : s.replays j = none → ds = []

theorem accounts_init (cfg : Config) (j : ℕ) : Accounts cfg init j [] := ⟨nofun, fun _ => rfl⟩

/-- A step that leaves the `j`-th replay alone. -/
theorem accounts_of_eq {ds : List Delivery.Action} (h : Accounts cfg s j ds)
    (hc : Change cfg s a s') (heq : s'.replays j = s.replays j) : Accounts cfg s' j ds := by
  constructor
  · intro replayed hreplay
    exact delivered_step (h.delivered replayed (heq.symm.trans hreplay)) hc
  · intro hnone
    exact h.fresh (heq.symm.trans hnone)

/-- A step of one replay. -/
theorem accounts_setReplayed {j' : ℕ} {replayed' : Replayed} {ds ds' : List Delivery.Action}
    (h : Accounts cfg s j ds) (hc : Change cfg s a (s.setReplayed j' replayed'))
    (hself : j' = j → Delivered cfg s replayed' (ds ++ ds')) :
    Accounts cfg (s.setReplayed j' replayed') j (ds ++ if j' = j then ds' else []) := by
  by_cases hj : j' = j
  · subst hj
    rw [if_pos rfl]
    have hdelivered := hself rfl
    constructor
    · intro replayed hreplay
      rw [setReplayed_self, Option.some_inj] at hreplay
      subst hreplay
      exact delivered_setReplayed hdelivered j' replayed'
    · intro hnone
      rw [setReplayed_self] at hnone
      cases hnone
  · rw [if_neg hj, List.append_nil]
    exact accounts_of_eq h hc (setReplayed_of_ne s (Ne.symm hj) replayed')

/-- Every step is accounted for. -/
theorem accounts_step {ds : List Delivery.Action} (h : Accounts cfg s j ds)
    (hc : Change cfg s a s') : Accounts cfg s' j (ds ++ a.deliveryOf j) := by
  have hother := accounts_of_eq h hc
  cases hc with
  | record | offer | pad | write =>
    show Accounts cfg _ j (ds ++ [])
    rw [List.append_nil]
    exact hother rfl
  | replay j' recording channel streamId position session request hnew hrequest =>
    have haccounts : Accounts cfg _ j (ds ++ if j' = j then [] else []) := accounts_setReplayed h
      (.replay j' recording channel streamId position session request hnew hrequest) (by
        intro hj
        subst hj
        rw [h.fresh hnew, List.append_nil]
        exact delivered_of_answered (answered_of_replay session hrequest))
    rw [ite_self] at haccounts
    exact haccounts
  | send j' stored replayed delivery hreplay hnext hheader hlength harrive =>
    apply accounts_setReplayed h
      (.send j' stored replayed delivery hreplay hnext hheader hlength harrive)
    intro hj
    subst hj
    apply delivered_send (h.delivered replayed hreplay) hnext
    · exact StepMachine.run_cons_eq_some.mpr ⟨delivery, harrive, rfl⟩
    · rfl
    · intro f hf
      have hf' : f = stored := List.mem_singleton.mp hf
      rw [hf', Stored.session, hheader]
      exact ⟨rfl, hlength⟩
  | skip j' units replayed hreplay hnext =>
    have haccounts : Accounts cfg _ j (ds ++ if j' = j then [] else []) := accounts_setReplayed h
      (.skip j' units replayed hreplay hnext) (by
        intro hj
        subst hj
        exact delivered_send (h.delivered replayed hreplay) hnext rfl rfl nofun)
    rw [ite_self] at haccounts
    exact haccounts
  | poll j' fragmentLimit memory delivered replayed delivery hreplay hpoll =>
    apply accounts_setReplayed h
      (.poll j' fragmentLimit memory delivered replayed delivery hreplay hpoll)
    intro hj
    subst hj
    have hdelivered := h.delivered replayed hreplay
    have hstored : Delivery.storedFor 0
        (ds ++ [.poll 0 fragmentLimit memory delivered]) = Delivery.storedFor 0 ds := by
      unfold Delivery.storedFor
      rw [List.flatMap_append]
      exact List.append_nil _
    refine ⟨⟨hdelivered.answered.length, hdelivered.answered.boundary,
      hdelivered.answered.sent⟩, ?_, ?_, ?_⟩
    · apply StepMachine.run_append_eq_some.mpr
      exact ⟨_, hdelivered.run, StepMachine.run_cons_eq_some.mpr ⟨delivery, hpoll, rfl⟩⟩
    · rw [hstored]
      exact hdelivered.payloads
    · rw [hstored]
      exact hdelivered.window

/-- Every run is accounted for. -/
theorem accounts_run {ds : List Delivery.Action} {as : List Action} (h : Accounts cfg s j ds)
    (hrun : StepMachine.run (step cfg) s as = some s') :
    Accounts cfg s' j (ds ++ deliveryRun j as) := by
  have hnone : Accounts cfg s j (ds ++ deliveryRun j []) := by
    rw [deliveryRun, List.flatMap_nil, List.append_nil]
    exact h
  refine StepMachine.run_history (I := fun past u => Accounts cfg u j (ds ++ deliveryRun j past))
    ?_ hrun hnone
  intro past u a u' hu ha
  have haccounts := accounts_step hu (change_of_step ha)
  rw [List.append_assoc] at haccounts
  rw [deliveryRun, List.flatMap_append, List.flatMap_singleton]
  exact haccounts

end

end Replay

end AeronPy
