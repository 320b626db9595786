import AeronPy.Delivery

/-!
# Demultiplexing by header

Any number of subscriptions, any interleaving of arrivals, offers and polls, one handler of
two parameters that files what it receives under `(header.stream_id, header.session_id)`.

The attribute `stream_id` of the Python class `Header` is bound to `header::session_id`, so
every fragment of session `s` is filed under `(s, s)`. `collected_iff` says when that is what
the program asked for: iff every polled fragment comes from a session whose id happens to be
its stream's.
-/

namespace AeronPy

open Delivery

/-- The pair the handler files a fragment under, as it reads it from the Python header. -/
def observedKey (o : Observation) : Option Int32 × Option Int32 :=
  (o.header.bind fun h => h.getattr "stream_id", o.header.bind fun h => h.getattr "session_id")

/-- What the handler has collected under `(stream, session)`. -/
def collected (outcomes : List PollOutcome) (stream session : Int32) : List (List UInt8) :=
  ((observations outcomes).filter fun o => observedKey o = (some stream, some session)).map
    Observation.data

/-- The fragments sent on a stream by a session. -/
def sentBy (stream session : Int32) (fs : List Stored) : List Stored :=
  fs.filter fun f => f.stream = stream ∧ f.session = session

/-- Both attributes of a Python header read the session id. -/
theorem getattr_stream_id (h : Header) : h.getattr "stream_id" = some h.session := rfl

theorem getattr_session_id (h : Header) : h.getattr "session_id" = some h.session := rfl

/-- What is collected under a pair: all fragments of a session under twice its id. -/
theorem collected_eq {outcomes : List PollOutcome} {fs : List Stored}
    (h : observations outcomes = fs.map fun f => ⟨f.payload, some f.fragment.header⟩)
    (stream session : Int32) :
    collected outcomes stream session =
      (fs.filter fun f => f.session = stream ∧ f.session = session).map Stored.payload := by
  -- the header gives the session id under both names
  have hkey : ∀ f : Stored, observedKey ⟨f.payload, some f.fragment.header⟩ =
      (some f.session, some f.session) := fun f => by
    simp [observedKey, getattr_stream_id, getattr_session_id, Stored.session]
  rw [collected, h, List.filter_map, List.map_map]
  simp only [Function.comp_def, hkey, Prod.mk.injEq, Option.some_inj]

/-- Filing by twice the session id is filing by stream and session iff the two ids agree on
every fragment. -/
theorem filed_iff (fs : List Stored) :
    (∀ stream session,
        (fs.filter fun f => f.session = stream ∧ f.session = session).map Stored.payload =
          (sentBy stream session fs).map Stored.payload) ↔
      ∀ f ∈ fs, f.stream = f.session := by
  constructor
  · intro h f hf
    by_contra hne
    -- nothing is filed under the fragment's own stream and session, yet it was polled
    have hnone : (fs.filter fun g => g.session = f.stream ∧ g.session = f.session) = [] := by
      refine List.filter_eq_nil_iff.mpr fun g _ hg => ?_
      obtain ⟨hstream, hsession⟩ := of_decide_eq_true hg
      exact hne (hstream.symm.trans hsession)
    have hmem : f ∈ sentBy f.stream f.session fs := List.mem_filter.mpr ⟨hf, by simp⟩
    have hsent := h f.stream f.session
    rw [hnone, List.map_nil, eq_comm, List.map_eq_nil_iff] at hsent
    rw [hsent] at hmem
    exact List.not_mem_nil hmem
  · intro h stream session
    refine congrArg _ (List.filter_congr fun f hf => ?_)
    rw [h f hf]

/-- **Demultiplexing.** For every run, collecting by the observed pair yields for every stream
and session exactly the polled fragments sent on it by it, in delivery order and with their
own bytes, and nothing under any other pair, iff every polled fragment has a session id equal
to its stream id. The polled fragments of a subscription and session are the first ones stored
for it. -/
theorem collected_iff {cfg : Config} {handler : Handler} {t : State} {as : List Action}
    (hhandler : handler.TakesDataHeader)
    (hrun : StepMachine.run (step cfg) init as = some t) :
    ∃ outcomes, pollOutcomes handler as = .ok outcomes ∧
      ((∀ stream session, collected outcomes stream session =
          (sentBy stream session (polled as)).map Stored.payload) ↔
        ∀ f ∈ polled as, f.stream = f.session) ∧
      ∀ i session, ofSession session (polledFrom i as) <+: ofSession session (storedFor i as) := by
  obtain ⟨outcomes, hok, -, hobs⟩ :=
    pollOutcomes_of_run some (poll_dataHeader hhandler) hrun
  refine ⟨outcomes, hok, ?_, fun i session => ?_⟩
  · simp only [collected_eq hobs]
    exact filed_iff (polled as)
  · have hfifo := fifo hrun i session
    rw [init, List.nil_append] at hfifo
    exact ⟨_, hfifo⟩

/-! ## A stream and a session -/

/-- Subscription `0` is on stream `5`. -/
def streamFive : Config := ⟨32, 1024, fun _ => 5⟩

/-- The byte `1`, sent on stream `5` by session `7`. -/
def oneByte : Stored := ⟨⟨⟨0, 64⟩, 32, 1, ⟨5, 7⟩⟩, [1]⟩

/-- The fragment arrives and is polled. -/
def oneByteRun : List Action :=
  [.arrive 0 oneByte, .poll 0 10 (ByteMemory.write (fun _ => 0) 32 [1]) [oneByte]]

theorem oneByteRun_runs : ∃ t, StepMachine.run (step streamFive) init oneByteRun = some t := by
  have h : (StepMachine.run (step streamFive) init oneByteRun).isSome = true := by decide
  exact Option.isSome_iff_exists.mp h

/-- The fragment of stream `5` and session `7` is collected under `(7, 7)`, and nothing is
collected under `(5, 7)`. -/
theorem oneByte_collected_under_session :
    (∃ t, StepMachine.run (step streamFive) init oneByteRun = some t) ∧
      ((pollOutcomes dataHeaderHandler oneByteRun).map fun o => collected o 7 7) = .ok [[1]] ∧
      ((pollOutcomes dataHeaderHandler oneByteRun).map fun o => collected o 5 7) = .ok [] ∧
      (sentBy 5 7 (polled oneByteRun)).map Stored.payload = [[1]] :=
  ⟨oneByteRun_runs, by decide, by decide, by decide⟩

/-- Subscription `0` is on stream `5`, subscription `1` on stream `6`. -/
def twoStreams : Config := ⟨32, 1024, fun i => if i = 0 then 5 else 6⟩

/-- The byte, sent on the stream by the session, and stored at the offset. -/
def byteOn (stream session : Int32) (offset : ℕ) (byte : UInt8) : Stored :=
  ⟨⟨⟨0, 256⟩, offset, 1, ⟨stream, session⟩⟩, [byte]⟩

/-- Two sessions send on stream `5` and one on stream `6`, in turns; three polls take what they
sent, the second one of both sessions of stream `5`. -/
def interleavedRun (first second third : Int32) : List Action :=
  let log := ByteMemory.write (ByteMemory.write (ByteMemory.write (ByteMemory.write (fun _ => 0)
    32 [1]) 64 [2]) 96 [3]) 128 [4]
  [.arrive 0 (byteOn 5 first 32 1), .arrive 1 (byteOn 6 third 64 2),
    .arrive 0 (byteOn 5 second 96 3), .poll 0 1 log [byteOn 5 first 32 1],
    .arrive 0 (byteOn 5 first 128 4),
    .poll 0 10 log [byteOn 5 second 96 3, byteOn 5 first 128 4],
    .poll 1 10 log [byteOn 6 third 64 2]]

theorem interleavedRun_runs :
    (∃ t, StepMachine.run (step twoStreams) init (interleavedRun 5 5 6) = some t) ∧
      ∃ t, StepMachine.run (step twoStreams) init (interleavedRun 7 8 6) = some t := by
  have hsame : (StepMachine.run (step twoStreams) init (interleavedRun 5 5 6)).isSome = true := by
    decide
  have hother : (StepMachine.run (step twoStreams) init (interleavedRun 7 8 6)).isSome = true := by
    decide
  exact ⟨Option.isSome_iff_exists.mp hsame, Option.isSome_iff_exists.mp hother⟩

/-- Where the sessions have the ids of their streams the filing is exact; where two of them have
other ids it is not, though each session's fragments were polled in order. -/
theorem collected_iff_interleaved :
    (∃ outcomes, pollOutcomes dataHeaderHandler (interleavedRun 5 5 6) = .ok outcomes ∧
      ∀ stream session, collected outcomes stream session =
        (sentBy stream session (polled (interleavedRun 5 5 6))).map Stored.payload) ∧
    ∃ outcomes, pollOutcomes dataHeaderHandler (interleavedRun 7 8 6) = .ok outcomes ∧
      (¬∀ stream session, collected outcomes stream session =
        (sentBy stream session (polled (interleavedRun 7 8 6))).map Stored.payload) ∧
      ofSession 7 (polledFrom 0 (interleavedRun 7 8 6)) <+:
        ofSession 7 (storedFor 0 (interleavedRun 7 8 6)) := by
  obtain ⟨⟨t, hsame⟩, ⟨u, hother⟩⟩ := interleavedRun_runs
  obtain ⟨outcomes, hok, hiff, -⟩ := collected_iff dataHeaderHandler_takesDataHeader hsame
  obtain ⟨outcomes', hok', hiff', horder⟩ := collected_iff dataHeaderHandler_takesDataHeader hother
  refine ⟨⟨outcomes, hok, hiff.mpr (by decide)⟩, outcomes', hok', fun hall => ?_, horder 0 7⟩
  have hids : (byteOn 5 7 32 1).stream = (byteOn 5 7 32 1).session :=
    hiff'.mp hall _ List.mem_cons_self
  exact absurd hids (by decide)

end AeronPy
