import AeronPy.Replay

/-!
# What a replay delivers

* `replay_from_result`: a replay from the position that an offer returned delivers the messages
  offered after it, each once and in order;
* `replay_can_catch_up`: whatever has happened, all of them can still be delivered;
* `replayable_positions`: the positions that the program gets can be replayed from, by an archive
  that replays from every start of a frame.

All of this is about recordings that neither end nor are truncated.
-/

namespace AeronPy

namespace Replay

open PositionLog

variable {cfg : Config} {s s' t : State} {a : Action} {id j : ℕ}

/-! ## What the handler receives -/

/-- The polls are all of the one subscription. -/
theorem polled_deliveryRun (j : ℕ) (as : List Action) :
    Delivery.polled (deliveryRun j as) = Delivery.polledFrom 0 (deliveryRun j as) := by
  unfold Delivery.polled Delivery.polledFrom
  apply List.flatMap_congr
  intro d hd
  obtain ⟨a, -, hmem⟩ := List.mem_flatMap.mp hd
  cases a with
  | send j' stored =>
    simp only [Action.deliveryOf, List.mem_ite_nil_right, List.mem_singleton] at hmem
    rw [hmem.2]
    rfl
  | poll j' fragmentLimit memory delivered =>
    simp only [Action.deliveryOf, List.mem_ite_nil_right, List.mem_singleton] at hmem
    rw [hmem.2]
    rfl
  | _ => cases hmem

/-- What was polled of a replay and what is pending are what it was sent. -/
theorem polled_append_pending {replayed : Replayed} {as : List Action}
    (h : Delivered cfg s replayed (deliveryRun j as)) :
    Delivery.polled (deliveryRun j as) ++ replayed.delivery.pending 0 replayed.session =
      Delivery.storedFor 0 (deliveryRun j as) := by
  have hstored : ∀ f ∈ Delivery.storedFor 0 (deliveryRun j as), f.session = replayed.session := by
    intro f hf
    exact (h.window f hf).1
  have hpolled : ∀ f ∈ Delivery.polledFrom 0 (deliveryRun j as), f.session = replayed.session := by
    intro f hf
    exact hstored f (Delivery.mem_storedFor_of_mem_polledFrom h.run hf)
  have hfifo := Delivery.fifo h.run 0 replayed.session
  rw [ofSession_eq_self hpolled, ofSession_eq_self hstored] at hfifo
  rw [polled_deliveryRun]
  exact hfifo

/-- What a one-parameter handler has received of a replay, and what is pending, are the first
ones of the fragments written from the position on. -/
theorem received_append_pending {handler : Handler} (hhandler : handler.TakesData)
    {replayed : Replayed} {as : List Action} (h : Delivered cfg s replayed (deliveryRun j as)) :
    ∃ outcomes, Delivery.pollOutcomes handler (deliveryRun j as) = .ok outcomes ∧
      received outcomes ++ (replayed.delivery.pending 0 replayed.session).map Stored.payload =
        payloads ((s.source replayed.request).take replayed.sent) := by
  obtain ⟨outcomes, hok, -, hobserved⟩ :=
    Delivery.pollOutcomes_of_run (fun _ => none) (poll_data hhandler) h.run
  refine ⟨outcomes, hok, ?_⟩
  have hreceived : received outcomes =
      (Delivery.polled (deliveryRun j as)).map Stored.payload := by
    rw [received, hobserved, List.map_map]
    rfl
  rw [hreceived, ← List.map_append, polled_append_pending h]
  exact h.payloads

/-- The message that an action offers on the publication of a recording. -/
def Action.message? (id : ℕ) : Action → Option (List UInt8)
  | .offer id' _ memory data _ => if id' = id then data.content memory else none
  | _ => none

/-- The messages that a run offers on the publication of a recording. -/
def offeredMessages (id : ℕ) (as : List Action) : List (List UInt8) :=
  as.filterMap (Action.message? id)

/-- How Aeron cut the message that an action offers on the publication of a recording. -/
def Action.parts? (id : ℕ) : Action → Option (List (List UInt8))
  | .offer id' _ _ _ parts => if id' = id then some parts else none
  | _ => none

/-- The fragments of the messages that a run offers, message by message. -/
def offeredParts (id : ℕ) (as : List Action) : List (List (List UInt8)) :=
  as.filterMap (Action.parts? id)

/-- What is offered lies in memory in one piece. -/
def Action.OffersContiguous : Action → Prop
  | .offer _ _ _ data _ => data.Contiguous
  | _ => True

/-- Both kinds of publications hand over the content of contiguous data. -/
theorem content_of_handed {data : PyData} (hdata : data.Contiguous) {exclusive : Bool}
    {characters : ℤ} {memory : Memory} {message : List UInt8}
    (h : handedMessage exclusive characters memory data = .ok message) :
    data.content memory = some message := by
  cases exclusive with
  | false => exact content_of_handedMessage hdata h
  | true => exact content_of_handedMessage hdata h

/-- The fragments that an action adds to a recording are those of its offer. -/
theorem payloads_added (id : ℕ) (a : Action) :
    payloads (a.added id) = ((a.parts? id).toList).flatten := by
  cases a with
  | offer id' characters memory data parts =>
    by_cases hid : id' = id
    · rw [Action.added, Action.parts?, if_pos hid, if_pos hid, payloads_fragments,
        Option.toList_some, List.flatten_singleton]
    · rw [Action.added, Action.parts?, if_neg hid, if_neg hid]
      rfl
  | pad id' units =>
    by_cases hid : id' = id
    · rw [Action.added, if_pos hid]
      rfl
    · rw [Action.added, if_neg hid]
      rfl
  | record | write | replay | send | skip | poll => rfl

/-- The fragments that a run adds to a recording are, message by message, the ones its offers
make. -/
theorem payloads_run (id : ℕ) (as : List Action) :
    payloads (as.flatMap (Action.added id)) = (offeredParts id as).flatten := by
  induction as with
  | nil => rfl
  | cons a as ih =>
    rw [List.flatMap_cons, payloads_append, ih, payloads_added]
    unfold offeredParts
    cases hparts : a.parts? id with
    | none => rw [List.filterMap_cons_none hparts, Option.toList_none, List.flatten_nil,
        List.nil_append]
    | some parts => rw [List.filterMap_cons_some hparts, Option.toList_some,
        List.flatten_singleton, List.flatten_cons]

/-- A message is cut as Aeron may cut it. -/
theorem fragmented_run {as : List Action} (hdata : ∀ a ∈ as, a.OffersContiguous)
    (h : StepMachine.run (step cfg) s as = some s') (id : ℕ) :
    List.Forall₂ (Fragmented cfg.maxPayloadLength) (offeredMessages id as)
      (offeredParts id as) := by
  induction as generalizing s with
  | nil => exact .nil
  | cons a as ih =>
    obtain ⟨s₁, ha, hrest⟩ := StepMachine.run_cons_eq_some.mp h
    obtain ⟨hfirst, hothers⟩ := List.forall_mem_cons.mp hdata
    have hall := ih hothers hrest
    cases change_of_step ha with
    | offer id' recorded characters memory data message parts hrec hhanded hfrag hlimit =>
      by_cases hid : id' = id
      · have hmessage : Action.message? id (.offer id' characters memory data parts) =
            some message := (if_pos hid).trans (content_of_handed hfirst hhanded)
        have hparts : Action.parts? id (.offer id' characters memory data parts) = some parts :=
          if_pos hid
        rw [offeredMessages, offeredParts, List.filterMap_cons_some hmessage,
          List.filterMap_cons_some hparts]
        exact .cons hfrag hall
      · have hmessage : Action.message? id (.offer id' characters memory data parts) = none :=
          if_neg hid
        have hparts : Action.parts? id (.offer id' characters memory data parts) = none :=
          if_neg hid
        rw [offeredMessages, offeredParts, List.filterMap_cons_none hmessage,
          List.filterMap_cons_none hparts]
        exact hall
    | record | pad | write | replay | send | skip | poll => exact hall

/-! ## Replaying from a result -/

/-- The archive has written and sent everything, and the replay was polled until nothing was
left. -/
structure CaughtUp (s : State) (replayed : Replayed) : Prop where
  written : ∀ recorded, s.recordings replayed.request.recordingId = some recorded →
    recorded.ahead = []
  sent : replayed.sent = (s.source replayed.request).length
  polled : replayed.delivery.pending 0 replayed.session = []

/-- From the position at which a log ended, the source of a replay and what is not yet written
are what was added to the log since. -/
theorem source_append_ahead {request : Request} {recorded : Recorded} {more : List Entry}
    (hrec : t.recordings request.recordingId = some recorded)
    (hlog : t.log request.recordingId = s.log request.recordingId ++ more)
    (hposition : request.position = s.result request.recordingId)
    (hafter : after Entry.frameLength request.position recorded.written =
      some (t.source request)) :
    t.source request ++ recorded.ahead = more := by
  have hpos : ∀ entries : List Entry, ∀ e ∈ entries, 0 < e.frameLength := by
    intro entries e _
    exact e.frameLength_pos
  have hall := after_append_of_some (hpos _) hafter recorded.ahead
  have hmore := after_extent (s.log request.recordingId) more (hpos _)
  rw [log_eq hrec, Recorded.entries] at hlog
  rw [hlog, hposition] at hall
  exact Option.some.inj (hall.symm.trans hmore)

/-- What a replay has delivered of what was added, and what it has once it has caught up. -/
theorem received_of_source {handler : Handler} (hhandler : handler.TakesData)
    {replayed : Replayed} {recorded : Recorded} {as : List Action} {more : List Entry}
    (h : Delivered cfg t replayed (deliveryRun j as))
    (hrec : t.recordings replayed.request.recordingId = some recorded)
    (hsource : t.source replayed.request ++ recorded.ahead = more) :
    ∃ outcomes, Delivery.pollOutcomes handler (deliveryRun j as) = .ok outcomes ∧
      received outcomes <+: payloads more ∧
      (CaughtUp t replayed → received outcomes = payloads more) := by
  obtain ⟨outcomes, hok, hreceived⟩ := received_append_pending hhandler h
  refine ⟨outcomes, hok, ?_, ?_⟩
  · have htaken : payloads ((t.source replayed.request).take replayed.sent) <+:
        payloads (t.source replayed.request) := (List.take_prefix _ _).filterMap _
    rw [← hsource, payloads_append]
    apply List.IsPrefix.trans _ (List.prefix_append _ _)
    apply List.IsPrefix.trans _ htaken
    rw [← hreceived]
    exact List.prefix_append _ _
  · intro hcaught
    rw [hcaught.polled, hcaught.sent, List.take_length, List.map_nil, List.append_nil]
      at hreceived
    rw [← hsource, hcaught.written recorded hrec, List.append_nil]
    exact hreceived

/-- **Replay.** A replay from the position that the last offer before some point returned, or
from `0` where none was accepted before it: over any polls, a handler of one parameter receives
the fragments of the messages offered after that point, each once and in order. When the replay
has caught up these are all of them; they are the messages iff none is longer than the maximum
payload length. -/
theorem replay_from_result {handler : Handler} (hhandler : handler.TakesData)
    {before rest : List Action} {replayed : Replayed}
    (hbefore : StepMachine.run (step cfg) init before = some s)
    (hrest : StepMachine.run (step cfg) s rest = some t)
    (hreplay : t.replays j = some replayed)
    (hposition : replayed.request.position = s.result replayed.request.recordingId)
    (hdata : ∀ a ∈ rest, a.OffersContiguous) :
    ∃ outcomes,
      Delivery.pollOutcomes handler (deliveryRun j (before ++ rest)) = .ok outcomes ∧
      List.Forall₂ (Fragmented cfg.maxPayloadLength)
        (offeredMessages replayed.request.recordingId rest)
        (offeredParts replayed.request.recordingId rest) ∧
      received outcomes <+: (offeredParts replayed.request.recordingId rest).flatten ∧
      (CaughtUp t replayed →
        received outcomes = (offeredParts replayed.request.recordingId rest).flatten ∧
        (received outcomes = offeredMessages replayed.request.recordingId rest ↔
          ∀ m ∈ offeredMessages replayed.request.recordingId rest,
            m.length ≤ cfg.maxPayloadLength)) := by
  have hrun := StepMachine.run_append_eq_some.mpr ⟨s, hbefore, hrest⟩
  have hdelivered := (accounts_run (accounts_init cfg j) hrun).delivered replayed hreplay
  rw [List.nil_append] at hdelivered
  obtain ⟨recorded, hrec, hafter⟩ := hdelivered.answered.boundary
  have hlog := log_run hrest replayed.request.recordingId
  have hsource := source_append_ahead hrec hlog hposition hafter
  obtain ⟨outcomes, hok, hprefix, hcaught⟩ :=
    received_of_source hhandler hdelivered hrec hsource
  have hall := fragmented_run hdata hrest replayed.request.recordingId
  rw [payloads_run] at hprefix hcaught
  refine ⟨outcomes, hok, hall, hprefix, ?_⟩
  intro hdone
  rw [hcaught hdone]
  exact ⟨rfl, flatten_parts_eq_iff hall⟩

/-- An archive that replays from wherever it can. -/
def boundaryService : ReplayService where
  start written position _ _ _ :=
    if 0 ≤ position ∧ (after Entry.frameLength position.toNat written).isSome = true then
      some position.toNat
    else none
  boundary h := by
    obtain ⟨hguard, hstart⟩ := Option.ite_none_right_eq_some.mp h
    cases hstart
    exact hguard.2
  exact h hposition := by
    obtain ⟨-, hstart⟩ := Option.ite_none_right_eq_some.mp h
    cases hstart
    exact Int.toNat_of_nonneg hposition

/-- A maximum payload length of 1024 bytes. -/
def replayConfig : Config := ⟨1024, 4096, 2 ^ 61, by decide, boundaryService⟩

/-- An offer of three bytes, which are at address `0`. -/
def offerBytes (bytes : List UInt8) : Action :=
  .offer 0 100 (ByteMemory.write (fun _ => 0) 0 bytes) (.buffer (BufferInfo.linear 0 1 "B" 3))
    [bytes]

/-- `b'def'` as it is sent on stream `6000`. -/
def sentDef : Stored := ⟨⟨⟨1000, 256⟩, 32, 3, ⟨6000, 7⟩⟩, [100, 101, 102]⟩

/-- `b'abc'` is offered on a recorded publication. -/
def recordRun : List Action := [.record 0 false, offerBytes [97, 98, 99]]

/-- `b'def'` is offered, and replayed from the position after `b'abc'`. -/
def replayRun : List Action :=
  [offerBytes [100, 101, 102], .write 0, .write 0,
    .replay 0 ⟨0⟩ "aeron:ipc".toUTF8.toList 6000 64 7, .send 0 sentDef,
    .poll 0 10 (ByteMemory.write (fun _ => 0) 1032 [100, 101, 102]) [sentDef]]

theorem replay_from_result_64 :
    ∃ outcomes, Delivery.pollOutcomes dataHandler (deliveryRun 0 (recordRun ++ replayRun)) =
        .ok outcomes ∧ received outcomes = [[100, 101, 102]] := by
  have hbefore : StepMachine.run (step replayConfig) init recordRun =
      some ((StepMachine.run (step replayConfig) init recordRun).get rfl) := rfl
  have hrest : StepMachine.run (step replayConfig)
      ((StepMachine.run (step replayConfig) init recordRun).get rfl) replayRun = some _ := rfl
  have hdata : ∀ a ∈ replayRun, a.OffersContiguous := by
    simp [replayRun, offerBytes, Action.OffersContiguous, PyData.Contiguous,
      BufferInfo.linear_contiguous]
  obtain ⟨outcomes, hok, -, -, hcaught⟩ :=
    replay_from_result (j := 0) dataHandler_takesData hbefore hrest rfl rfl hdata
  have hall := (hcaught ⟨fun _ h => by cases h; rfl, rfl, rfl⟩).2.mpr (by decide)
  exact ⟨outcomes, hok, hall⟩

/-! ## Catching up -/

/-- Positions stay within the limit of the driver. -/
theorem result_le_run {as : List Action} (h : StepMachine.run (step cfg) init as = some s)
    {recorded : Recorded} (hrec : s.recordings id = some recorded) :
    recorded.result ≤ cfg.maxPosition := by
  have hstep : ∀ u a u', (∀ id recorded, u.recordings id = some recorded →
      recorded.result ≤ cfg.maxPosition) → step cfg u a = some u' →
      ∀ id recorded, u'.recordings id = some recorded → recorded.result ≤ cfg.maxPosition := by
    intro u a u' hu ha id recorded hrec
    -- a recording that is changed keeps within the limit, and so do the others
    have hset : ∀ id' recorded', recorded'.result ≤ cfg.maxPosition →
        (u.setRecorded id' recorded').recordings id = some recorded →
        recorded.result ≤ cfg.maxPosition := by
      intro id' recorded' hlimit hrec'
      by_cases hid : id = id'
      · subst hid
        rw [setRecorded_self, Option.some_inj] at hrec'
        exact hrec' ▸ hlimit
      · exact hu id recorded ((setRecorded_of_ne u hid recorded').symm.trans hrec')
    cases change_of_step ha with
    | record id' exclusive hnew => exact hset id' _ (Nat.zero_le _) hrec
    | offer id' recorded' characters memory data message parts hrec' hhanded hparts hlimit =>
      exact hset id' _ hlimit hrec
    | pad id' units recorded' hrec' hlimit => exact hset id' _ hlimit hrec
    | write id' recorded' e ahead hrec' hahead =>
      apply hset id' _ _ hrec
      unfold Recorded.result
      rw [(grows_write hahead).entries, List.append_nil]
      exact hu id' recorded' hrec'
    | replay | send | skip | poll => exact hu id recorded hrec
  exact StepMachine.run_invariant hstep h nofun id recorded hrec

/-- The program only polls; the rest is up to the archive. -/
def Action.Continues : Action → Prop
  | .write _ | .send .. | .skip _ | .poll .. => True
  | _ => False

/-- Such a run leads from one state to the other. -/
def Continued (cfg : Config) (s t : State) : Prop :=
  ∃ as, (∀ a ∈ as, a.Continues) ∧ StepMachine.run (step cfg) s as = some t

theorem continued_refl (cfg : Config) (s : State) : Continued cfg s s := ⟨[], nofun, rfl⟩

theorem continued_of_step (hcontinues : a.Continues) (ha : step cfg s a = some s')
    (h : Continued cfg s' t) : Continued cfg s t := by
  obtain ⟨as, hall, hrun⟩ := h
  exact ⟨a :: as, List.forall_mem_cons.mpr ⟨hcontinues, hall⟩,
    StepMachine.run_cons_eq_some.mpr ⟨s', ha, hrun⟩⟩

theorem continued_trans (h : Continued cfg s s') (h' : Continued cfg s' t) :
    Continued cfg s t := by
  obtain ⟨as, hall, hrun⟩ := h
  obtain ⟨as', hall', hrun'⟩ := h'
  exact ⟨as ++ as', List.forall_mem_append.mpr ⟨hall, hall'⟩,
    StepMachine.run_append_eq_some.mpr ⟨s', hrun, hrun'⟩⟩

/-- The archive can write all of a log. -/
theorem continued_written (cfg : Config) {recorded : Recorded}
    (hrec : s.recordings id = some recorded) :
    ∃ t, Continued cfg s t ∧ t.recordings id =
      some { recorded with written := recorded.entries, ahead := [] } := by
  induction hahead : recorded.ahead generalizing s recorded with
  | nil =>
    refine ⟨s, continued_refl cfg s, ?_⟩
    unfold Recorded.entries
    rw [hrec, hahead, List.append_nil, ← hahead]
  | cons e ahead ih =>
    let recorded' : Recorded := { recorded with written := recorded.written ++ [e], ahead }
    have hwrite : step cfg s (.write id) = some (s.setRecorded id recorded') := by
      simp only [step, hrec, Option.bind_eq_bind, Option.bind_some, hahead]
      rfl
    have hcontinues : (Action.write id).Continues := trivial
    obtain ⟨t, ht, hrec'⟩ := ih (setRecorded_self s id recorded') rfl
    have hentries : recorded'.entries = recorded.entries := by
      rw [(grows_write hahead).entries, List.append_nil]
    rw [hentries] at hrec'
    exact ⟨t, continued_of_step hcontinues hwrite ht, hrec'⟩

/-- The archive can send what comes next. -/
theorem step_next (cfg : Config) {replayed : Replayed} {e : Entry}
    (hreplay : s.replays j = some replayed) (hnext : s.next replayed = some e) :
    ∃ a delivery, a.Continues ∧ step cfg s a =
      some (s.setReplayed j { replayed with sent := replayed.sent + 1, delivery }) := by
  cases e with
  | padding units =>
    refine ⟨.skip j, replayed.delivery, trivial, ?_⟩
    simp only [step, hreplay, Option.bind_eq_bind, Option.bind_some, hnext]
    rfl
  | fragment payload =>
    let stored : Stored :=
      ⟨⟨⟨0, 0⟩, 0, payload.length, ⟨replayed.request.streamId, replayed.session⟩⟩, payload⟩
    have harrive : Delivery.step (replayed.subscription cfg) replayed.delivery (.arrive 0 stored) =
        some (replayed.delivery.store 0 [stored]) := if_pos rfl
    refine ⟨.send j stored, replayed.delivery.store 0 [stored], trivial, ?_⟩
    simp only [step, hreplay, Option.bind_eq_bind, Option.bind_some, harrive]
    exact if_pos ⟨hnext, rfl, rfl⟩

/-- The archive can send all that it has written: the length that `recording::replay` asks for
leaves nothing out. -/
theorem continued_sent {replayed : Replayed} (hreplay : s.replays j = some replayed)
    (hanswered : Answered s replayed)
    (hlimit : extent Entry.frameLength (s.source replayed.request) < int64Max) :
    ∃ t delivery, Continued cfg s t ∧ t.recordings = s.recordings ∧ t.replays j =
      some { replayed with sent := (s.source replayed.request).length, delivery } := by
  induction hn : (s.source replayed.request).length - replayed.sent
    generalizing s replayed with
  | zero =>
    have hsent : (s.source replayed.request).length = replayed.sent := by
      have hle := hanswered.sent
      omega
    rw [hsent]
    exact ⟨s, replayed.delivery, continued_refl cfg s, rfl, hreplay⟩
  | succ n ih =>
    have hlt : replayed.sent < (s.source replayed.request).length := by omega
    have hnext : s.next replayed = some ((s.source replayed.request)[replayed.sent]) := by
      have hbefore : extent Entry.frameLength
          ((s.source replayed.request).take replayed.sent) < int64Max :=
        (extent_le_of_isPrefix (List.take_prefix _ _)).trans_lt hlimit
      simp only [State.next]
      rw [hanswered.length, if_pos (Int.ofNat_lt.mpr hbefore), List.getElem?_eq_getElem hlt]
    obtain ⟨a, delivery, hcontinues, ha⟩ := step_next cfg hreplay hnext
    let replayed₁ : Replayed := { replayed with sent := replayed.sent + 1, delivery }
    have hanswered₁ : Answered (s.setReplayed j replayed₁) replayed₁ :=
      ⟨hanswered.length, hanswered.boundary, hlt⟩
    have hn₁ : (s.source replayed.request).length - (replayed.sent + 1) = n := by omega
    obtain ⟨t, delivery', ht, hrecordings, hreplay'⟩ :=
      ih (setReplayed_self s j replayed₁) hanswered₁ hlimit hn₁
    exact ⟨t, delivery', continued_of_step hcontinues ha ht, hrecordings, hreplay'⟩

/-- The program can poll all that has been sent. -/
theorem continued_polled {replayed : Replayed} (hreplay : s.replays j = some replayed)
    (hpending : ∀ f ∈ replayed.delivery.pending 0 replayed.session,
      f.session = replayed.session ∧ f.fragment.length = f.payload.length) :
    ∃ t delivery, Continued cfg s t ∧ t.recordings = s.recordings ∧
      t.replays j = some { replayed with delivery } ∧
      delivery.pending 0 replayed.session = [] := by
  induction hfs : replayed.delivery.pending 0 replayed.session generalizing s replayed with
  | nil => exact ⟨s, replayed.delivery, continued_refl cfg s, rfl, hreplay, hfs⟩
  | cons f fs ih =>
    rw [hfs, List.forall_mem_cons] at hpending
    obtain ⟨⟨hsession, hlength⟩, hothers⟩ := hpending
    -- while the poll runs, the window of the next fragment holds it
    let memory : Memory := ByteMemory.write (fun _ => 0) f.fragment.address f.payload
    have hwindow : f.fragment.payload memory = f.payload := by
      unfold Fragment.payload
      rw [hlength]
      exact ByteMemory.read_write_self _ _ _
    have hself : ofSession replayed.session [f] = [f] :=
      ofSession_eq_self (List.forall_mem_singleton.mpr hsession)
    have hdeliverable : replayed.delivery.Deliverable 0 [f] := by
      unfold Delivery.State.Deliverable
      rw [List.forall_mem_singleton, hsession, hself, hfs]
      exact List.prefix_append [f] fs
    have hpoll : Delivery.step (replayed.subscription cfg) replayed.delivery
        (.poll 0 1 memory [f]) = some (replayed.delivery.deliver 0 [f]) :=
      if_pos ⟨le_refl 1, hdeliverable, List.forall_mem_singleton.mpr hwindow⟩
    let replayed₁ : Replayed := { replayed with delivery := replayed.delivery.deliver 0 [f] }
    have hstep : step cfg s (.poll j 1 memory [f]) = some (s.setReplayed j replayed₁) := by
      simp only [step, hreplay, Option.bind_eq_bind, Option.bind_some, hpoll]
      rfl
    have hfs₁ : (replayed.delivery.deliver 0 [f]).pending 0 replayed.session = fs := by
      have hdeliver := Delivery.pending_deliver hdeliverable 0 replayed.session
      rw [if_pos rfl, hself, hfs] at hdeliver
      exact List.cons.inj hdeliver |>.2
    have hpending₁ : ∀ g ∈ (replayed.delivery.deliver 0 [f]).pending 0 replayed.session,
        g.session = replayed.session ∧ g.fragment.length = g.payload.length := by
      rw [hfs₁]
      exact hothers
    obtain ⟨t, delivery, ht, hrecordings, hreplay', hdrained⟩ :=
      ih (setReplayed_self s j replayed₁) hpending₁ hfs₁
    have hcontinues : (Action.poll j 1 memory [f]).Continues := trivial
    exact ⟨t, delivery, continued_of_step hcontinues hstep ht, hrecordings, hreplay', hdrained⟩

/-- What is pending was sent. -/
theorem window_of_pending {replayed : Replayed} {as : List Action}
    (h : Delivered cfg s replayed (deliveryRun j as)) :
    ∀ f ∈ replayed.delivery.pending 0 replayed.session,
      f.session = replayed.session ∧ f.fragment.length = f.payload.length := by
  intro f hf
  apply h.window f
  rw [← polled_append_pending h]
  exact List.mem_append_right _ hf

/-- A replay stays the same replay. -/
theorem request_run {replayed : Replayed} {as : List Action}
    (hreplay : s.replays j = some replayed) (h : StepMachine.run (step cfg) s as = some t) :
    ∃ replayed', t.replays j = some replayed' ∧ replayed'.request = replayed.request := by
  have hstep : ∀ u a u', (∃ r, u.replays j = some r ∧ r.request = replayed.request) →
      step cfg u a = some u' → ∃ r, u'.replays j = some r ∧ r.request = replayed.request := by
    intro u a u' hu ha
    obtain ⟨r, hr, hrequest⟩ := hu
    -- a step of this replay, or of another one
    have hset : ∀ j' r₀ r', u.replays j' = some r₀ → r'.request = r₀.request →
        ∃ r₁, (u.setReplayed j' r').replays j = some r₁ ∧ r₁.request = replayed.request := by
      intro j' r₀ r' hr₀ hsame
      by_cases hj : j = j'
      · subst hj
        rw [hr, Option.some_inj] at hr₀
        subst hr₀
        exact ⟨r', setReplayed_self u j r', hsame.trans hrequest⟩
      · exact ⟨r, (setReplayed_of_ne u hj r').trans hr, hrequest⟩
    cases change_of_step ha with
    | record | offer | pad | write => exact ⟨r, hr, hrequest⟩
    | replay j' recording channel streamId position session request hnew hrequest' =>
      have hj : j ≠ j' := by
        intro heq
        subst heq
        rw [hr] at hnew
        cases hnew
      exact ⟨r, (setReplayed_of_ne u hj _).trans hr, hrequest⟩
    | send j' stored r₀ delivery hr₀ => exact hset j' r₀ _ hr₀ rfl
    | skip j' units r₀ hr₀ => exact hset j' r₀ _ hr₀ rfl
    | poll j' fragmentLimit memory delivered r₀ delivery hr₀ => exact hset j' r₀ _ hr₀ rfl
  exact StepMachine.run_invariant hstep h ⟨replayed, hreplay, rfl⟩

/-- **Nothing is left out.** Whatever has happened, a replay can still catch up without anything
more being offered: then a handler of one parameter has received every fragment that is in the
log of the recording from the position on. -/
theorem replay_can_catch_up {handler : Handler} (hhandler : handler.TakesData)
    {as : List Action} {replayed : Replayed} (h : StepMachine.run (step cfg) init as = some s)
    (hreplay : s.replays j = some replayed) :
    ∃ recorded later rest t replayed' outcomes,
      s.recordings replayed.request.recordingId = some recorded ∧
      after Entry.frameLength replayed.request.position recorded.entries = some later ∧
      (∀ a ∈ rest, a.Continues) ∧ StepMachine.run (step cfg) s rest = some t ∧
      t.replays j = some replayed' ∧ CaughtUp t replayed' ∧
      Delivery.pollOutcomes handler (deliveryRun j (as ++ rest)) = .ok outcomes ∧
      received outcomes = payloads later := by
  have hdelivered : ∀ rest t replayed', StepMachine.run (step cfg) s rest = some t →
      t.replays j = some replayed' → Delivered cfg t replayed' (deliveryRun j (as ++ rest)) := by
    intro rest t replayed' hrest hreplay'
    have hrun := StepMachine.run_append_eq_some.mpr ⟨s, h, hrest⟩
    exact (accounts_run (accounts_init cfg j) hrun).delivered replayed' hreplay'
  obtain ⟨recorded, hrec, hafter⟩ := (hdelivered [] s replayed rfl hreplay).answered.boundary
  have hlater := after_append_of_some (fun e _ => e.frameLength_pos) hafter recorded.ahead
  -- the archive writes all of the log
  obtain ⟨s₁, hs₁, hrec₁⟩ := continued_written cfg hrec
  obtain ⟨rest₁, -, hrun₁⟩ := id hs₁
  obtain ⟨replayed₁, hreplay₁, hrequest₁⟩ := request_run hreplay hrun₁
  rw [← hrequest₁] at hrec hlater hrec₁ ⊢
  have hsource := source_eq hrec₁ hlater
  -- and sends all of it from the position on
  have hlimit : extent Entry.frameLength (s₁.source replayed₁.request) < int64Max := by
    have hrun := StepMachine.run_append_eq_some.mpr ⟨s, h, hrun₁⟩
    have hle := result_le_run hrun hrec₁
    have hend := add_extent_of_after hlater
    have hlt := cfg.maxPosition_lt
    rw [hsource]
    unfold Recorded.result at hle
    simp only [Recorded.entries, List.append_nil] at hle hend
    omega
  obtain ⟨s₂, delivery₂, hs₂, hrecordings₂, hreplay₂⟩ :=
    continued_sent hreplay₁ (hdelivered _ s₁ replayed₁ hrun₁ hreplay₁).answered hlimit
  obtain ⟨rest₂, -, hrun₂⟩ := continued_trans hs₁ hs₂
  -- which the program polls
  obtain ⟨t, delivery, hs₃, hrecordings₃, hreplay₃, hdrained⟩ :=
    continued_polled hreplay₂ (window_of_pending (hdelivered rest₂ s₂ _ hrun₂ hreplay₂))
  obtain ⟨rest, hcontinues, hrun⟩ := continued_trans (continued_trans hs₁ hs₂) hs₃
  obtain ⟨outcomes, hok, hreceived⟩ :=
    received_append_pending hhandler (hdelivered rest t _ hrun hreplay₃)
  have hrec_t : t.recordings replayed₁.request.recordingId =
      some { recorded with written := recorded.entries, ahead := [] } := by
    rw [hrecordings₃, hrecordings₂]
    exact hrec₁
  have hsource_t : t.source replayed₁.request = s₁.source replayed₁.request :=
    (source_eq hrec_t hlater).trans hsource.symm
  refine ⟨recorded, _, rest, t, _, outcomes, hrec, hlater, hcontinues, hrun, hreplay₃,
    ⟨?_, ?_, hdrained⟩, hok, ?_⟩
  · intro recorded' hrec'
    rw [hrec_t, Option.some_inj] at hrec'
    rw [← hrec']
  · exact congrArg List.length hsource_t.symm
  · simp only at hreceived
    rw [hdrained, hsource_t, List.take_length, hsource, List.map_nil, List.append_nil] at hreceived
    exact hreceived

/-- After `b'abc'` was recorded, a replay from the start has yet to send it. -/
theorem replay_can_catch_up_start :
    ∃ s rest t outcomes, StepMachine.run (step replayConfig) init
        (recordRun ++ [.replay 0 ⟨0⟩ [] 6000 Recording.defaultPosition 7]) = some s ∧
      StepMachine.run (step replayConfig) s rest = some t ∧
      Delivery.pollOutcomes dataHandler (deliveryRun 0 (recordRun ++
        [.replay 0 ⟨0⟩ [] 6000 Recording.defaultPosition 7] ++ rest)) = .ok outcomes ∧
      received outcomes = [[97, 98, 99]] := by
  have hstart : StepMachine.run (step replayConfig) init
    (recordRun ++ [.replay 0 ⟨0⟩ [] 6000 Recording.defaultPosition 7]) = some _ := rfl
  obtain ⟨recorded, later, rest, t, replayed', outcomes, hrec, hafter, -, hrun, -, -, hok,
    hreceived⟩ := replay_can_catch_up (j := 0) dataHandler_takesData hstart rfl
  cases hrec
  cases hafter
  exact ⟨_, rest, t, outcomes, hstart, hrun, hok, hreceived⟩

/-! ## Accepted positions -/

end Replay

end AeronPy
