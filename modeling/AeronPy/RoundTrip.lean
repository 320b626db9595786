import AeronPy.Delivery

/-!
# Message round trip

One publication, one subscription, a handler of one parameter, and any interleaving of
accepted offers of contiguous data with polls that drains the stream.

`round_trip_fragments`: the handler receives the stored fragments of the messages, each once
and in order, so nothing is lost, duplicated or reordered; but it is called once per
*fragment*. The list it receives is the list of messages iff none of them is longer than the
maximum payload length.
-/

namespace AeronPy

open Delivery

/-- The actions of one publication of session `session` and its one subscription: accepted
offers of contiguous data, and polls. -/
def Delivery.Action.OfPublication (session : Int32) : Action → Prop
  | .offer i session' _ _ data _ => i = 0 ∧ session' = session ∧ data.Contiguous
  | .arrive .. => False
  | .poll i _ _ _ => i = 0

/-- The message that the action offers: the content of the offered data. -/
def Delivery.Action.message? : Action → Option (List UInt8)
  | .offer _ _ _ memory data _ => data.content memory
  | _ => none

/-- The messages offered in a run. -/
def offeredMessages (as : List Action) : List (List UInt8) := as.filterMap Action.message?

/-- The parts that Aeron stores of the message that the action offers. -/
def Delivery.Action.parts? : Action → Option (List (List UInt8))
  | .offer _ _ _ _ _ stored => some (stored.map Stored.payload)
  | _ => none

/-- The parts of the messages offered in a run. -/
def offeredParts (as : List Action) : List (List (List UInt8)) := as.filterMap Action.parts?

/-- For contiguous data, what an accepted offer hands to Aeron is its content. -/
theorem content_of_handedMessage {data : PyData} (hdata : data.Contiguous) {characters : ℤ}
    {memory : Memory} {message : List UInt8}
    (h : handedMessage characters memory data = .ok message) :
    data.content memory = some message := by
  -- what reaches the underlying offer does not depend on what it returns
  have hhand : ∃ handed, Publication.offer hand characters memory data = .ok handed ∧
      handed.bytes = message := by
    cases data with
    | buffer info =>
      cases h
      exact ⟨_, rfl, rfl⟩
    | str s =>
      simp only [handedMessage, Publication.offer, offerData] at h ⊢
      split at h
      · cases h
        exact ⟨_, rfl, rfl⟩
      · cases h
    | other => cases h
  obtain ⟨handed, hok, hbytes⟩ := hhand
  obtain ⟨hcontent, -⟩ := (offersContent_iff data).mpr hdata characters memory handed hok
  rw [← hcontent, hbytes]

theorem length_le_of_fragmented {P : ℕ} {message : List UInt8} {parts : List (List UInt8)}
    (h : Fragmented P message parts) : ∀ part ∈ parts, part.length ≤ P := by
  rcases Nat.lt_or_ge P message.length with hlong | hshort
  · exact (h.2 hlong).2
  · rw [h.1 hshort]
    simpa using hshort

theorem flatten_of_fragmented {P : ℕ} {message : List UInt8} {parts : List (List UInt8)}
    (h : Fragmented P message parts) : parts.flatten = message := by
  rcases Nat.lt_or_ge P message.length with hlong | hshort
  · exact (h.2 hlong).1
  · rw [h.1 hshort]
    simp

/-- The messages that a run offers, and their parts. -/
theorem fragmented_run {cfg : Config} {session : Int32} {s t : State} {as : List Action}
    (hpub : ∀ a ∈ as, a.OfPublication session)
    (h : StepMachine.run (step cfg) s as = some t) :
    List.Forall₂ (Fragmented cfg.maxPayloadLength) (offeredMessages as) (offeredParts as) := by
  induction as generalizing s with
  | nil => exact .nil
  | cons a as ih =>
    obtain ⟨s', ha, has⟩ := StepMachine.run_cons_eq_some.mp h
    obtain ⟨hfirst, hothers⟩ := List.forall_mem_cons.mp hpub
    have hall := ih hothers has
    cases a with
    | offer i session' characters memory data stored =>
      obtain ⟨rfl, -, hdata⟩ := hfirst
      simp only [step] at ha
      split at ha
      · next message hmessage =>
        split at ha
        · next hguard =>
          have hcontent : Action.message? (.offer 0 session' characters memory data stored) =
              some message := content_of_handedMessage hdata hmessage
          rw [offeredMessages, List.filterMap_cons_some hcontent]
          exact .cons hguard.2.1 hall
        · cases ha
      · cases ha
    | arrive => exact absurd hfirst id
    | poll i fragmentLimit memory delivered => exact hall

/-- The stored fragments of one publication are, message by message, the ones its offers make. -/
theorem payloads_storedFor {session : Int32} {as : List Action}
    (hpub : ∀ a ∈ as, a.OfPublication session) :
    (storedFor 0 as).map Stored.payload = (offeredParts as).flatten := by
  induction as with
  | nil => rfl
  | cons a as ih =>
    obtain ⟨hfirst, hothers⟩ := List.forall_mem_cons.mp hpub
    have hrest := ih hothers
    simp only [storedFor, List.flatMap_cons, List.map_append] at hrest ⊢
    rw [hrest]
    cases a with
    | offer i session' characters memory data stored =>
      obtain ⟨rfl, -⟩ := hfirst
      rfl
    | arrive => exact absurd hfirst id
    | poll => rfl

/-- Every fragment stored in a run of one publication is of its session. -/
theorem session_of_mem_storedFor {cfg : Config} {session : Int32} {s t : State}
    {as : List Action} (hpub : ∀ a ∈ as, a.OfPublication session)
    (h : StepMachine.run (step cfg) s as = some t) :
    ∀ f ∈ storedFor 0 as, f.session = session := by
  induction as generalizing s with
  | nil => simp [storedFor]
  | cons a as ih =>
    obtain ⟨s', ha, has⟩ := StepMachine.run_cons_eq_some.mp h
    obtain ⟨hfirst, hothers⟩ := List.forall_mem_cons.mp hpub
    have hrest := ih hothers has
    cases a with
    | offer i session' characters memory data stored =>
      obtain ⟨rfl, rfl, -⟩ := hfirst
      have hstored : ∀ f ∈ stored, f.session = session' := by
        simp only [step] at ha
        split at ha
        · split at ha
          · next hguard => exact fun f hf => congrArg Header.session (hguard.2.2 f hf)
          · cases ha
        · cases ha
      simp only [storedFor, List.flatMap_cons, Action.storedFor, if_true, List.mem_append]
      rintro f (hf | hf)
      · exact hstored f hf
      · exact hrest f hf
    | arrive => exact absurd hfirst id
    | poll i fragmentLimit memory delivered => exact hrest

/-- All polls of a run of one publication are polls of its subscription. -/
theorem polled_eq_polledFrom {session : Int32} {as : List Action}
    (hpub : ∀ a ∈ as, a.OfPublication session) : polled as = polledFrom 0 as := by
  refine List.flatMap_congr fun a ha => ?_
  cases a with
  | offer => rfl
  | arrive => rfl
  | poll i fragmentLimit memory delivered =>
    have hi : i = 0 := hpub _ ha
    simp [Action.polled, Action.polledFrom, hi]

/-- When the stream is drained, exactly the stored fragments were polled, in order. -/
theorem polled_eq_storedFor {cfg : Config} {session : Int32} {t : State} {as : List Action}
    (hpub : ∀ a ∈ as, a.OfPublication session)
    (h : StepMachine.run (step cfg) init as = some t) (hdrained : t.pending 0 session = []) :
    polled as = storedFor 0 as := by
  have hstored := session_of_mem_storedFor hpub h
  have hpolled : ∀ f ∈ polledFrom 0 as, f.session = session := fun f hf =>
    hstored f (mem_storedFor_of_mem_polledFrom h hf)
  have hfifo := fifo h 0 session
  -- nothing is pending at the start, and nothing is left
  rw [hdrained, ofSession_eq_self hpolled, ofSession_eq_self hstored, init, List.append_nil,
    List.nil_append] at hfifo
  rw [polled_eq_polledFrom hpub, hfifo]

theorem length_le_of_mem_parts {P : ℕ} {messages : List (List UInt8)}
    {parts : List (List (List UInt8))} (h : List.Forall₂ (Fragmented P) messages parts) :
    ∀ part ∈ parts.flatten, part.length ≤ P := by
  induction h with
  | nil => simp
  | cons hfrag _ ih =>
    rw [List.flatten_cons, List.forall_mem_append]
    exact ⟨length_le_of_fragmented hfrag, ih⟩

/-- Cutting messages into parts changes nothing iff no message is too long. -/
theorem flatten_parts_eq_iff {P : ℕ} {messages : List (List UInt8)}
    {parts : List (List (List UInt8))} (h : List.Forall₂ (Fragmented P) messages parts) :
    parts.flatten = messages ↔ ∀ m ∈ messages, m.length ≤ P := by
  constructor
  · -- no part is longer than the maximum, so no message is
    intro heq m hm
    exact length_le_of_mem_parts h m (heq ▸ hm)
  · intro hshort
    induction h with
    | nil => rfl
    | cons hfrag _ ih =>
      obtain ⟨hfirst, hrest⟩ := List.forall_mem_cons.mp hshort
      rw [List.flatten_cons, hfrag.1 hfirst, ih hrest]
      rfl

theorem flatten_flatten_parts {P : ℕ} {messages : List (List UInt8)}
    {parts : List (List (List UInt8))} (h : List.Forall₂ (Fragmented P) messages parts) :
    parts.flatten.flatten = messages.flatten := by
  induction h with
  | nil => rfl
  | cons hfrag _ ih =>
    rw [List.flatten_cons, List.flatten_append, flatten_of_fragmented hfrag, ih,
      List.flatten_cons]

/-- What a one-parameter handler receives over all polls. -/
def received (outcomes : List PollOutcome) : List (List UInt8) :=
  (observations outcomes).map Observation.data

/-- **Fragment round trip.** A handler of one parameter receives, over any polls that drain
the stream, exactly the fragments that were stored of the offered messages, in order, one call
each: together they are the bytes of the messages, and each poll returns the number of its
calls. The calls are one per message iff no message is longer than the maximum payload
length. -/
theorem round_trip_fragments {cfg : Config} {handler : Handler} {session : Int32} {t : State}
    {as : List Action} (hhandler : handler.TakesData)
    (hpub : ∀ a ∈ as, a.OfPublication session)
    (hrun : StepMachine.run (step cfg) init as = some t)
    (hdrained : t.pending 0 session = []) :
    ∃ outcomes, pollOutcomes handler as = .ok outcomes ∧
      (∀ outcome ∈ outcomes, outcome.result = outcome.observed.length) ∧
      received outcomes = (storedFor 0 as).map Stored.payload ∧
      List.Forall₂ (Fragmented cfg.maxPayloadLength) (offeredMessages as) (offeredParts as) ∧
      received outcomes = (offeredParts as).flatten ∧
      (received outcomes).flatten = (offeredMessages as).flatten ∧
      (received outcomes = offeredMessages as ↔
        ∀ m ∈ offeredMessages as, m.length ≤ cfg.maxPayloadLength) := by
  obtain ⟨outcomes, hok, hres, hobs⟩ :=
    pollOutcomes_of_run (fun _ => none) (poll_data hhandler) hrun
  have hall := fragmented_run hpub hrun
  have hstored : received outcomes = (storedFor 0 as).map Stored.payload := by
    rw [received, hobs, List.map_map, polled_eq_storedFor hpub hrun hdrained]
    rfl
  have hreceived : received outcomes = (offeredParts as).flatten :=
    hstored.trans (payloads_storedFor hpub)
  refine ⟨outcomes, hok, hres, hstored, hall, hreceived, ?_, ?_⟩
  · rw [hreceived, flatten_flatten_parts hall]
  · rw [hreceived, flatten_parts_eq_iff hall]

/-! ## A message of two fragments -/

/-- A maximum payload length of 32 bytes, one stream. -/
def smallMtu : Config := ⟨32, 1024, fun _ => 5⟩

/-- The bytes `0, 1, …, 32`. -/
def longMessage : List UInt8 := (List.range 33).map UInt8.ofNat

/-- A `bytes` object of 33 bytes at address `0` is offered, Aeron stores it as 32 bytes and
one byte, and two polls drain the stream. -/
def longMessageRun : List Action :=
  let header : Header := ⟨5, 7⟩
  let first : Stored := ⟨⟨⟨1000, 256⟩, 32, 32, header⟩, longMessage.take 32⟩
  let second : Stored := ⟨⟨⟨1000, 256⟩, 96, 1, header⟩, longMessage.drop 32⟩
  let log := ByteMemory.write (ByteMemory.write (fun _ => 0) 1032 first.payload) 1096 second.payload
  [.offer 0 7 500 (ByteMemory.write (fun _ => 0) 0 longMessage)
      (.buffer (BufferInfo.linear 0 1 "B" 33)) [first, second],
    .poll 0 1 log [first], .poll 0 10 log [second]]

theorem longMessageRun_ofPublication : ∀ a ∈ longMessageRun, a.OfPublication 7 := by
  simp [longMessageRun, Delivery.Action.OfPublication, PyData.Contiguous,
    BufferInfo.linear_contiguous]

theorem longMessageRun_drains :
    ∃ t, StepMachine.run (step smallMtu) init longMessageRun = some t ∧ t.pending 0 7 = [] := by
  have h : ((StepMachine.run (step smallMtu) init longMessageRun).map fun t => t.pending 0 7) =
      some [] := by decide
  exact Option.map_eq_some_iff.mp h

/-- The stream is drained, and the handler received two byte strings for the one message. -/
theorem longMessage_received_in_two :
    (∀ a ∈ longMessageRun, a.OfPublication 7) ∧
      (∃ t, StepMachine.run (step smallMtu) init longMessageRun = some t ∧
        t.pending 0 7 = []) ∧
      (pollOutcomes dataHandler longMessageRun).map received =
        .ok [longMessage.take 32, longMessage.drop 32] ∧
      offeredMessages longMessageRun = [longMessage] ∧
      [longMessage.take 32, longMessage.drop 32] ≠ offeredMessages longMessageRun :=
  ⟨longMessageRun_ofPublication, longMessageRun_drains, by decide, by decide, by decide⟩

/-- The round trip of the long message. -/
theorem round_trip_longMessage :
    ∃ outcomes, pollOutcomes dataHandler longMessageRun = .ok outcomes ∧
      received outcomes = [longMessage.take 32, longMessage.drop 32] ∧
      (received outcomes).flatten = longMessage := by
  obtain ⟨t, hrun, hdrained⟩ := longMessageRun_drains
  obtain ⟨outcomes, hok, -, hstored, -, -, hflat, -⟩ :=
    round_trip_fragments dataHandler_takesData longMessageRun_ofPublication hrun hdrained
  have hoffered : offeredMessages longMessageRun = [longMessage] := by decide
  refine ⟨outcomes, hok, hstored, ?_⟩
  rw [hflat, hoffered]
  simp

end AeronPy
