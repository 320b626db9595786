import AeronPy.EndOfStream
import AeronPy.RoundTrip

/-!
# The basic samples

`basic_publisher.py` offers `Hallo World! 0`, `Hallo World! 1`, … and prints what becomes of each
offer; it never offers a message again. `basic_subscriber.py` polls, printing every fragment,
and whenever a poll gave nothing it polls for ended streams, until one is found.

* `report`: how the publisher classifies the result of an offer;
* `State`, `Action`, `step`: any number of publishers, and a subscriber. A publisher can end at
  any point: `main` returns, or an exception or a signal ends it before its next offer or
  before the line about its last one. That an image is at the end of its stream only when its
  publisher has ended and all it had sent was polled is assumed of Aeron;
* `samples_print`: when the subscriber leaves its loop, it has printed every message that some
  publisher, which has ended, offered with success.
-/

namespace AeronPy

namespace Samples

/-! ## The results of an offer -/

/-- `NOT_CONNECTED`. -/
def notConnected : ℤ := -1

/-- `BACK_PRESSURED`. -/
def backPressured : ℤ := -2

/-- `ADMIN_ACTION`. -/
def adminAction : ℤ := -3

/-- `PUBLICATION_CLOSED`. -/
def publicationClosed : ℤ := -4

/-- `MAX_POSITION_EXCEEDED`. -/
def maxPositionExceeded : ℤ := -5

/-- What an offer returns: the new position, or one of the constants. -/
def OfferResult (result : ℤ) : Prop :=
  0 < result ∨ result ∈
    [notConnected, backPressured, adminAction, publicationClosed, maxPositionExceeded]

instance (result : ℤ) : Decidable (OfferResult result) :=
  inferInstanceAs (Decidable (_ ∨ _))

/-- The lines of the publisher. -/
inductive Line where
  | backPressure | notConnected | administrationAction | closed | yay
deriving DecidableEq, Repr

/-- The `if` over the result of an offer. -/
def report (result : ℤ) : Line :=
  if result = backPressured then .backPressure
  else if result = notConnected then .notConnected
  else if result = adminAction then .administrationAction
  else if result = publicationClosed then .closed
  else .yay

/-- `f'Hallo World! {i}'` -/
def hallo (i : ℕ) : List Char :=
  ['H', 'a', 'l', 'l', 'o', ' ', 'W', 'o', 'r', 'l', 'd', '!', ' '] ++ Nat.toDigits 10 i

/-- The message as it is sent. -/
def halloBytes (i : ℕ) : List UInt8 := (hallo i).flatMap String.utf8EncodeChar

/-- A publisher: `args.messages`, the results of its offers so far, the lines it has printed
about them, and whether its process has ended. -/
structure Publisher where
  messages : ℕ
  results : List ℤ
  lines : List Line
  ended : Bool

namespace Publisher

/-- A publisher before its first offer. -/
def started (messages : ℕ) : Publisher := ⟨messages, [], [], false⟩

/-- The loop goes on with the next offer: it has printed what became of the last one. -/
def CanOffer (publisher : Publisher) : Prop :=
  publisher.ended = false ∧ publisher.lines.length = publisher.results.length ∧
    publisher.results.length < publisher.messages

instance (publisher : Publisher) : Decidable publisher.CanOffer :=
  inferInstanceAs (Decidable (_ ∧ _))

/-- The messages that were offered with success. -/
def accepted (publisher : Publisher) : List (List UInt8) :=
  (publisher.results.zipIdx.filter fun p => 0 < p.1).map fun p => halloBytes p.2

/-- The publisher has made its next offer. -/
def offered (publisher : Publisher) (result : ℤ) : Publisher :=
  { publisher with results := publisher.results ++ [result] }

/-- The publisher has printed a line. -/
def printed (publisher : Publisher) (line : Line) : Publisher :=
  { publisher with lines := publisher.lines ++ [line] }

/-- The publisher has ended. -/
def stopped (publisher : Publisher) : Publisher := { publisher with ended := true }

end Publisher

/-- Where the loop of the subscriber is: before a poll, after a poll that gave nothing, or left. -/
inductive Phase where
  | polling | checking | left
deriving DecidableEq, Repr

/-- The publishers by their sessions, the subscription, and what the subscriber has printed. -/
structure State where
  publishers : Int32 → Option Publisher
  delivery : Delivery.State
  printed : List (List UInt8)
  phase : Phase

/-- No publisher has been started. -/
def init : State := ⟨fun _ => none, Delivery.init, [], .polling⟩

/-- One step of one of the programs; the choices of Aeron are arguments. -/
inductive Action where
  /-- A publisher is started with `--messages`, and its publication gets the session. -/
  | start (session : Int32) (messages : ℕ)
  /-- The next offer of a publisher, and how Aeron stores the message if it is accepted. -/
  | offer (session : Int32) (result characters : ℤ) (memory : Memory) (stored : List Stored)
  /-- A publisher prints what became of its offer. -/
  | print (session : Int32)
  /-- A publisher ends: `main` returns, or an exception or a signal ends it. -/
  | stop (session : Int32)
  /-- `subscription.poll(lambda data: print(bytes(data)))` -/
  | poll (memory : Memory) (delivered : List Stored)
  /-- `subscription.poll_eos(lambda *args: ...)`, on the images of the subscription. -/
  | pollEos (images : List Image)

namespace State

/-- A publisher starts or goes on. -/
def setPublisher (s : State) (session : Int32) (publisher : Publisher) : State :=
  { s with publishers := Function.update s.publishers session (some publisher) }

/-- The messages of the session that were offered with success. -/
def accepted (s : State) (session : Int32) : List (List UInt8) :=
  (s.publishers session).elim [] Publisher.accepted

/-- The publisher of the session has ended, and all it had sent was polled. -/
def Ended (s : State) (session : Int32) : Prop :=
  (∃ publisher ∈ s.publishers session, publisher.ended = true) ∧
    s.delivery.pending 0 session = []

instance (s : State) (session : Int32) : Decidable (s.Ended session) :=
  inferInstanceAs (Decidable (_ ∧ _))

end State

/-- The default of the argument `fragment_limit`. -/
def defaultFragmentLimit : ℕ := 10

/-- What the polls of the subscriber print. -/
def prints (outcome : Delivery.PollOutcome) : List (List UInt8) :=
  outcome.observed.map Delivery.Observation.data

/-- The next offer of a publisher, where Aeron accepts it. -/
def acceptedOffer (session : Int32) (publisher : Publisher) (characters : ℤ) (memory : Memory)
    (stored : List Stored) : Delivery.Action :=
  .offer 0 session characters memory (.str (PyStr.ofChars (hallo publisher.results.length))) stored

/-- One step of the programs. -/
def step (cfg : Delivery.Config) (s : State) : Action → Option State
  | .start session messages =>
    if (s.publishers session).isNone then some (s.setPublisher session (.started messages))
    else none
  | .offer session result characters memory stored =>
    (s.publishers session).bind fun publisher =>
      -- `for i in range(args.messages)`
      if publisher.CanOffer ∧ OfferResult result then
        let s' := s.setPublisher session (publisher.offered result)
        if 0 < result then
          (Delivery.step cfg s.delivery
            (acceptedOffer session publisher characters memory stored)).map
              fun delivery => { s' with delivery }
        else some s'
      else none
  | .print session =>
    (s.publishers session).bind fun publisher =>
      if publisher.ended = false then
        -- the result of the last offer, if there is no line about it yet
        publisher.results[publisher.lines.length]?.map fun result =>
          s.setPublisher session (publisher.printed (report result))
      else none
  | .stop session =>
    (s.publishers session).bind fun publisher =>
      if publisher.ended = false then some (s.setPublisher session publisher.stopped) else none
  | .poll memory delivered =>
    if s.phase = .polling then
      (Delivery.step cfg s.delivery (.poll 0 defaultFragmentLimit memory delivered)).bind
        fun delivery =>
          (Delivery.pollOutcome dataHandler memory delivered).toOption.map fun outcome =>
            { s with
              delivery
              printed := s.printed ++ prints outcome
              -- `if fragments_read == 0`
              phase := if outcome.result = 0 then .checking else .polling }
    else none
  | .pollEos images =>
    -- an image is at the end of its stream when nothing more of it can be polled
    if s.phase = .checking ∧
        ∀ image ∈ images, image.isEndOfStream = true → s.Ended image.sessionId then
      (Subscription.pyPollEos Subscription.returningPython (some (.function "print"))
        images).toOption.map fun result =>
          -- `if eos_count > 0`
          { s with phase := if 0 < result.2 then .left else .polling }
    else none

/-! ## What a step does -/

/-- What each of the steps does, its guard included. -/
inductive Change (cfg : Delivery.Config) (s : State) : Action → State → Prop where
  | start (session : Int32) (messages : ℕ) (hnew : s.publishers session = none) :
    Change cfg s (.start session messages) (s.setPublisher session (.started messages))
  | accepted (session : Int32) (publisher : Publisher) (result characters : ℤ) (memory : Memory)
      (stored : List Stored) (delivery : Delivery.State)
      (hpublisher : s.publishers session = some publisher) (hnext : publisher.CanOffer)
      (hresult : 0 < result)
      (hoffer : Delivery.step cfg s.delivery
        (acceptedOffer session publisher characters memory stored) = some delivery) :
    Change cfg s (.offer session result characters memory stored)
      { s.setPublisher session (publisher.offered result) with delivery }
  | refused (session : Int32) (publisher : Publisher) (result characters : ℤ) (memory : Memory)
      (stored : List Stored) (hpublisher : s.publishers session = some publisher)
      (hnext : publisher.CanOffer) (hconstant : OfferResult result) (hresult : ¬0 < result) :
    Change cfg s (.offer session result characters memory stored)
      (s.setPublisher session (publisher.offered result))
  | print (session : Int32) (publisher : Publisher) (result : ℤ)
      (hpublisher : s.publishers session = some publisher) (hrunning : publisher.ended = false)
      (hresult : publisher.results[publisher.lines.length]? = some result) :
    Change cfg s (.print session) (s.setPublisher session (publisher.printed (report result)))
  | stop (session : Int32) (publisher : Publisher)
      (hpublisher : s.publishers session = some publisher) (hrunning : publisher.ended = false) :
    Change cfg s (.stop session) (s.setPublisher session publisher.stopped)
  | poll (memory : Memory) (delivered : List Stored) (delivery : Delivery.State)
      (hphase : s.phase = .polling)
      (hpoll : Delivery.step cfg s.delivery (.poll 0 defaultFragmentLimit memory delivered) =
        some delivery) :
    Change cfg s (.poll memory delivered)
      { s with
        delivery
        printed := s.printed ++ delivered.map Stored.payload
        phase := if delivered = [] then .checking else .polling }
  | leave (images : List Image) (image : Image) (hended : s.Ended image.sessionId) :
    Change cfg s (.pollEos images) { s with phase := .left }
  | again (images : List Image) :
    Change cfg s (.pollEos images) { s with phase := .polling }

/-- The handlers of the subscriber never raise, so its polls print what was stored. -/
theorem pollOutcome_of_step {cfg : Delivery.Config} {s s' : Delivery.State} {limit : ℕ}
    {memory : Memory} {delivered : List Stored}
    (h : Delivery.step cfg s (.poll 0 limit memory delivered) = some s') :
    ∃ outcome, Delivery.pollOutcome dataHandler memory delivered = .ok outcome ∧
      prints outcome = delivered.map Stored.payload ∧ outcome.result = delivered.length := by
  have hrun : StepMachine.run (Delivery.step cfg) s [.poll 0 limit memory delivered] = some s' :=
    StepMachine.run_cons_eq_some.mpr ⟨s', h, rfl⟩
  obtain ⟨outcomes, hok, hresult, hobserved⟩ :=
    Delivery.pollOutcomes_of_run (fun _ => none) (poll_data dataHandler_takesData) hrun
  -- the run has one poll
  obtain ⟨outcome, hthis, hrest⟩ := bind_eq_ok.mp hok
  cases hrest
  simp only [Delivery.observations, Delivery.polled, Delivery.Action.polled, List.flatMap_cons,
    List.flatMap_nil, List.append_nil] at hobserved
  refine ⟨outcome, hthis, ?_, ?_⟩
  · rw [prints, hobserved, List.map_map]
    rfl
  · rw [hresult outcome List.mem_cons_self, hobserved, List.length_map]

theorem pollEos_returns (images : List Image) :
    ∃ calls, Subscription.pyPollEos Subscription.returningPython (some (.function "print"))
      images = .ok (calls, (images.filter Image.isEndOfStream).length) :=
  ⟨_, Subscription.pollEos_of_takesImage ⟨rfl, fun _ => rfl⟩ images⟩

theorem change_of_step {cfg : Delivery.Config} {s s' : State} {a : Action}
    (h : step cfg s a = some s') : Change cfg s a s' := by
  cases a with
  | start session messages =>
    obtain ⟨hnew, hs'⟩ := Option.ite_none_right_eq_some.mp h
    cases hs'
    exact .start session messages (Option.isNone_iff_eq_none.mp hnew)
  | offer session result characters memory stored =>
    obtain ⟨publisher, hpublisher, hrest⟩ := Option.bind_eq_some_iff.mp h
    obtain ⟨⟨hnext, hconstant⟩, hs'⟩ := Option.ite_none_right_eq_some.mp hrest
    by_cases hresult : 0 < result
    · rw [if_pos hresult] at hs'
      obtain ⟨delivery, hoffer, rfl⟩ := Option.map_eq_some_iff.mp hs'
      exact .accepted session publisher result characters memory stored delivery hpublisher hnext
        hresult hoffer
    · rw [if_neg hresult] at hs'
      cases hs'
      exact .refused session publisher result characters memory stored hpublisher hnext
        hconstant hresult
  | print session =>
    obtain ⟨publisher, hpublisher, hrest⟩ := Option.bind_eq_some_iff.mp h
    obtain ⟨hrunning, hs'⟩ := Option.ite_none_right_eq_some.mp hrest
    obtain ⟨result, hresult, rfl⟩ := Option.map_eq_some_iff.mp hs'
    exact .print session publisher result hpublisher hrunning hresult
  | stop session =>
    obtain ⟨publisher, hpublisher, hrest⟩ := Option.bind_eq_some_iff.mp h
    obtain ⟨hrunning, hs'⟩ := Option.ite_none_right_eq_some.mp hrest
    cases hs'
    exact .stop session publisher hpublisher hrunning
  | poll memory delivered =>
    obtain ⟨hphase, hs'⟩ := Option.ite_none_right_eq_some.mp h
    obtain ⟨delivery, hpoll, hmap⟩ := Option.bind_eq_some_iff.mp hs'
    obtain ⟨outcome, hok, hprints, hresult⟩ := pollOutcome_of_step hpoll
    rw [hok] at hmap
    cases hmap
    simp only [hprints, hresult, List.length_eq_zero_iff]
    exact .poll memory delivered delivery hphase hpoll
  | pollEos images =>
    obtain ⟨⟨-, himages⟩, hs'⟩ := Option.ite_none_right_eq_some.mp h
    obtain ⟨calls, hok⟩ := pollEos_returns images
    rw [hok] at hs'
    cases hs'
    by_cases hcount : 0 < (images.filter Image.isEndOfStream).length
    · simp only [hcount, if_true]
      -- some image is at the end of its stream
      obtain ⟨image, hmem⟩ := List.exists_mem_of_length_pos hcount
      obtain ⟨himage, hended⟩ := List.mem_filter.mp hmem
      exact .leave images image (himages image himage hended)
    · simp only [hcount, if_false]
      exact .again images

/-! ## Messages and fragments -/

variable {cfg : Delivery.Config} {s s' : State}

theorem accepted_offered (publisher : Publisher) (result : ℤ) :
    (publisher.offered result).accepted =
      publisher.accepted ++ if 0 < result then [halloBytes publisher.results.length] else [] := by
  unfold Publisher.accepted Publisher.offered
  rw [List.zipIdx_append, List.filter_append, List.map_append]
  apply congrArg
  by_cases h : 0 < result
  · simp [h]
  · simp [h]

theorem publishers_setPublisher_self (s : State) (session : Int32) (publisher : Publisher) :
    (s.setPublisher session publisher).publishers session = some publisher :=
  Function.update_self ..

theorem publishers_setPublisher_of_ne {session other : Int32} (h : other ≠ session) (s : State)
    (publisher : Publisher) :
    (s.setPublisher session publisher).publishers other = s.publishers other :=
  Function.update_of_ne h ..

theorem accepted_of_publishers {session : Int32} {publisher : Publisher}
    (h : s.publishers session = some publisher) : s.accepted session = publisher.accepted := by
  unfold State.accepted
  rw [h]
  rfl

/-- A step of one publisher adds to the accepted messages of its session only. -/
theorem accepted_setPublisher {session : Int32} {publisher : Publisher}
    {messages : List (List UInt8)} (h : publisher.accepted = s.accepted session ++ messages)
    (other : Int32) :
    (s.setPublisher session publisher).accepted other =
      s.accepted other ++ if other = session then messages else [] := by
  by_cases hother : other = session
  · rw [if_pos hother, hother, accepted_of_publishers (publishers_setPublisher_self ..), h]
  · unfold State.accepted
    rw [if_neg hother, List.append_nil, publishers_setPublisher_of_ne hother]

/-- The same where it adds none. -/
theorem accepted_setPublisher_of_eq {session : Int32} {publisher : Publisher}
    (h : publisher.accepted = s.accepted session) (other : Int32) :
    (s.setPublisher session publisher).accepted other = s.accepted other := by
  have hnone : publisher.accepted = s.accepted session ++ [] := by rw [h, List.append_nil]
  have hadds := accepted_setPublisher hnone other
  rwa [ite_self, List.append_nil] at hadds

/-- An accepted offer stores the fragments of its message, all of the session. -/
theorem acceptedOffer_stores {d d' : Delivery.State} {session : Int32} {publisher : Publisher}
    {characters : ℤ} {memory : Memory} {stored : List Stored}
    (h : Delivery.step cfg d (acceptedOffer session publisher characters memory stored) = some d') :
    Fragmented cfg.maxPayloadLength (halloBytes publisher.results.length)
        (stored.map Stored.payload) ∧
      ∀ f ∈ stored, f.session = session := by
  simp only [Delivery.step, acceptedOffer] at h
  split at h
  · next message hmessage =>
    split at h
    · next hguard =>
      have hcontent := content_of_handedMessage (by simp [PyData.Contiguous]) hmessage
      have hbytes : some (halloBytes publisher.results.length) = some message := by
        rw [← hcontent, PyData.content, PyStr.encode_ofChars]
        rfl
      rw [Option.some_inj.mp hbytes]
      exact ⟨hguard.2.1, fun f hf => congrArg Header.session (hguard.2.2 f hf)⟩
    · cases h
  · cases h

/-- An accepted offer adds its fragments to what its session has pending. -/
theorem pending_acceptedOffer {d d' : Delivery.State} {session : Int32} {publisher : Publisher}
    {characters : ℤ} {memory : Memory} {stored : List Stored}
    (h : Delivery.step cfg d (acceptedOffer session publisher characters memory stored) = some d')
    (other : Int32) :
    d'.pending 0 other = d.pending 0 other ++ if other = session then stored else [] := by
  have hfifo := Delivery.fifo_step h 0 other
  simp only [acceptedOffer, Delivery.Action.polledFrom, Delivery.Action.storedFor, if_true,
    ofSession_nil, List.nil_append] at hfifo
  rw [hfifo]
  apply congrArg
  have hsession := (acceptedOffer_stores h).2
  by_cases hother : other = session
  · rw [if_pos hother, hother, ofSession_eq_self hsession]
  · rw [if_neg hother]
    refine List.filter_eq_nil_iff.mpr fun f hf => ?_
    rw [hsession f hf]
    simpa using Ne.symm hother

/-- A poll takes its fragments from the front of what their sessions have pending. -/
theorem pending_poll {d d' : Delivery.State} {limit : ℕ} {memory : Memory}
    {delivered : List Stored}
    (h : Delivery.step cfg d (.poll 0 limit memory delivered) = some d') (other : Int32) :
    ofSession other delivered ++ d'.pending 0 other = d.pending 0 other := by
  have hfifo := Delivery.fifo_step h 0 other
  simpa only [Delivery.Action.polledFrom, Delivery.Action.storedFor, if_true, ofSession_nil,
    List.append_nil] using hfifo

/-! ## Ended streams -/

theorem ne_of_ended {session other : Int32}
    (hrunning : ∀ p ∈ s.publishers other, p.ended = false) (h : s.Ended session) :
    session ≠ other := by
  obtain ⟨⟨p, hp, hended⟩, -⟩ := h
  rintro rfl
  exact Bool.false_ne_true ((hrunning p hp).symm.trans hended)

/-- What a publisher that has not ended does leaves the ended streams as they are. -/
theorem ended_setPublisher {session other : Int32} {publisher : Publisher}
    (hrunning : ∀ p ∈ s.publishers other, p.ended = false) (h : s.Ended session) :
    (s.setPublisher other publisher).Ended session := by
  have hne := ne_of_ended hrunning h
  obtain ⟨⟨p, hp, hended⟩, hpending⟩ := h
  exact ⟨⟨p, (publishers_setPublisher_of_ne hne s _).trans hp, hended⟩, hpending⟩

theorem running_of_publishers {session : Int32} {publisher : Publisher}
    (h : s.publishers session = some publisher) (hrunning : publisher.ended = false) :
    ∀ p ∈ s.publishers session, p.ended = false := by
  rintro p hp
  rw [h, Option.mem_some_iff] at hp
  exact hp ▸ hrunning

/-- What has ended stays so: a publisher that has ended offers nothing more. -/
theorem ended_step {a : Action} {session : Int32} (h : step cfg s a = some s')
    (hended : s.Ended session) : s'.Ended session := by
  cases change_of_step h with
  | start other messages hnew => exact ended_setPublisher (by simp [hnew]) hended
  | accepted other publisher result characters memory stored delivery hpublisher hnext hresult
      hoffer =>
    have hrunning := running_of_publishers hpublisher hnext.1
    have hpublishers : (s.setPublisher other (publisher.offered result)).Ended session :=
      ended_setPublisher hrunning hended
    refine ⟨hpublishers.1, ?_⟩
    have hpending := pending_acceptedOffer hoffer session
    rw [hended.2, if_neg (ne_of_ended hrunning hended)] at hpending
    exact hpending
  | refused other publisher result characters memory stored hpublisher hnext =>
    exact ended_setPublisher (running_of_publishers hpublisher hnext.1) hended
  | print other publisher result hpublisher hrunning =>
    exact ended_setPublisher (running_of_publishers hpublisher hrunning) hended
  | stop other publisher hpublisher hrunning =>
    exact ended_setPublisher (running_of_publishers hpublisher hrunning) hended
  | poll memory delivered delivery hphase hpoll =>
    refine ⟨hended.1, ?_⟩
    have hfront := pending_poll hpoll session
    rw [hended.2] at hfront
    exact (List.append_eq_nil_iff.mp hfront).2
  | leave => exact hended
  | again => exact hended

/-- The subscriber leaves its loop only where a stream has ended. -/
theorem left_step {a : Action} (h : step cfg s a = some s') (hleft : s'.phase = .left) :
    s.phase = .left ∨ ∃ session, s.Ended session := by
  cases change_of_step h with
  | poll memory delivered =>
    by_cases hnone : delivered = []
    · simp [hnone] at hleft
    · simp [hnone] at hleft
  | leave images image hended => exact Or.inr ⟨_, hended⟩
  | again => cases hleft
  | _ => exact Or.inl hleft

/-! ## The lines of the publishers -/

/-- The results are those that an offer can have, and the lines are about them, in order; at
most the last one has no line. -/
structure Publisher.Sound (publisher : Publisher) : Prop where
  results : ∀ result ∈ publisher.results, OfferResult result
  lines : publisher.lines <+: publisher.results.map report
  last : publisher.results.length ≤ publisher.lines.length + 1

namespace Publisher.Sound

variable {publisher : Publisher} {result : ℤ}

theorem started (messages : ℕ) : (Publisher.started messages).Sound where
  results _ h := absurd h List.not_mem_nil
  lines := List.nil_prefix
  last := Nat.zero_le _

theorem offered (h : publisher.Sound) (hnext : publisher.CanOffer) (hresult : OfferResult result) :
    (publisher.offered result).Sound where
  results := List.forall_mem_append.mpr ⟨h.results, List.forall_mem_singleton.mpr hresult⟩
  lines := by
    have hlonger : publisher.results.map report <+: (publisher.results ++ [result]).map report := by
      rw [List.map_append]
      exact List.prefix_append _ _
    exact h.lines.trans hlonger
  last := by
    have hall : publisher.lines.length = publisher.results.length := hnext.2.1
    rw [Publisher.offered, List.length_append, hall]
    rfl

theorem printed (h : publisher.Sound)
    (hresult : publisher.results[publisher.lines.length]? = some result) :
    (publisher.printed (report result)).Sound where
  results := h.results
  lines := by
    obtain ⟨rest, hrest⟩ := h.lines
    have hnext : (publisher.lines ++ rest)[publisher.lines.length]? = some (report result) := by
      rw [hrest, List.getElem?_map, hresult, Option.map_some]
    rw [List.getElem?_append_right (Nat.le_refl _), Nat.sub_self] at hnext
    cases rest with
    | nil => cases hnext
    | cons line rest =>
      cases hnext
      exact ⟨rest, by rw [Publisher.printed, List.append_assoc, List.singleton_append, hrest]⟩
  last := by
    rw [Publisher.printed, List.length_append]
    exact h.last.trans (Nat.le_succ _)

theorem stopped (h : publisher.Sound) : publisher.stopped.Sound := ⟨h.results, h.lines, h.last⟩

end Publisher.Sound

/-- All publishers are sound. -/
def Sound (s : State) : Prop :=
  ∀ session publisher, s.publishers session = some publisher → publisher.Sound

/-- The stored parts of the message, if the action is an offer of the session that is accepted. -/
def Action.parts? (session : Int32) : Action → Option (List (List UInt8))
  | .offer session' result _ _ stored =>
    if session = session' ∧ 0 < result then some (stored.map Stored.payload) else none
  | _ => none

/-- The fragments that the action polls. -/
def Action.polled : Action → List Stored
  | .poll _ delivered => delivered
  | _ => []

/-- The stored parts of the messages of a session that were accepted, in order. -/
def parts (session : Int32) (as : List Action) : List (List (List UInt8)) :=
  as.filterMap (Action.parts? session)

/-- The fragments polled, in order. -/
def polled (as : List Action) : List Stored := as.flatMap Action.polled

theorem parts_concat (session : Int32) (as : List Action) (a : Action) :
    parts session (as ++ [a]) = parts session as ++ (a.parts? session).toList := by
  rw [parts, List.filterMap_append]
  cases h : a.parts? session with
  | none => simp [parts, h]
  | some _ => simp [parts, h]

theorem polled_concat (as : List Action) (a : Action) :
    polled (as ++ [a]) = polled as ++ a.polled := by
  rw [polled, List.flatMap_append, List.flatMap_singleton]
  rfl

/-- A step prints what it polls. -/
theorem printed_step {a : Action} (h : step cfg s a = some s') :
    s'.printed = s.printed ++ a.polled.map Stored.payload := by
  cases change_of_step h with
  | poll => rfl
  | _ => exact (List.append_nil _).symm

/-- A step adds the messages that are accepted in it, and their parts. -/
theorem accepted_step {a : Action} (h : step cfg s a = some s') (session : Int32) :
    ∃ messages, s'.accepted session = s.accepted session ++ messages ∧
      List.Forall₂ (Fragmented cfg.maxPayloadLength) messages (a.parts? session).toList := by
  -- most steps add nothing
  have hnothing : s'.accepted session = s.accepted session → a.parts? session = none →
      ∃ messages, s'.accepted session = s.accepted session ++ messages ∧
        List.Forall₂ (Fragmented cfg.maxPayloadLength) messages (a.parts? session).toList := by
    intro haccepted hparts
    exact ⟨[], by rw [haccepted, List.append_nil], by rw [hparts]; exact .nil⟩
  cases change_of_step h with
  | start other messages hnew =>
    refine hnothing (accepted_setPublisher_of_eq ?_ session) rfl
    rw [State.accepted, hnew]
    rfl
  | accepted other publisher result characters memory stored delivery hpublisher hnext hresult
      hoffer =>
    have hadds := accepted_offered publisher result
    rw [if_pos hresult, ← accepted_of_publishers hpublisher] at hadds
    have haccepted := accepted_setPublisher hadds session
    by_cases hsession : session = other
    · refine ⟨_, haccepted, ?_⟩
      rw [if_pos hsession, Action.parts?, if_pos ⟨hsession, hresult⟩]
      exact .cons (acceptedOffer_stores hoffer).1 .nil
    · refine hnothing (haccepted.trans ?_) (if_neg fun hboth => hsession hboth.1)
      rw [if_neg hsession, List.append_nil]
  | refused other publisher result characters memory stored hpublisher hnext hconstant hresult =>
    refine hnothing (accepted_setPublisher_of_eq ?_ session) (if_neg fun hboth => hresult hboth.2)
    rw [accepted_offered, if_neg hresult, List.append_nil, accepted_of_publishers hpublisher]
  | print other publisher result hpublisher =>
    refine hnothing (accepted_setPublisher_of_eq ?_ session) rfl
    exact (accepted_of_publishers hpublisher).symm
  | stop other publisher hpublisher =>
    refine hnothing (accepted_setPublisher_of_eq ?_ session) rfl
    exact (accepted_of_publishers hpublisher).symm
  | poll => exact hnothing rfl rfl
  | leave => exact hnothing rfl rfl
  | again => exact hnothing rfl rfl

/-- What a step polls of a session comes from the front of what is pending, and the parts that
it stores go to the end. -/
theorem pending_step {a : Action} (h : step cfg s a = some s') (session : Int32) :
    (ofSession session a.polled ++ s'.delivery.pending 0 session).map Stored.payload =
      (s.delivery.pending 0 session).map Stored.payload ++
        (a.parts? session).toList.flatten := by
  cases change_of_step h with
  | accepted other publisher result characters memory stored delivery hpublisher hnext hresult
      hoffer =>
    have hpending := pending_acceptedOffer hoffer session
    simp only [Action.polled, ofSession_nil, List.nil_append, hpending, List.map_append]
    by_cases hsession : session = other
    · simp [Action.parts?, hsession, hresult]
    · simp [Action.parts?, hsession]
  | refused other publisher result characters memory stored hpublisher hnext hconstant hresult =>
    simp [Action.parts?, Action.polled, hresult, State.setPublisher]
  | poll memory delivered delivery hphase hpoll =>
    simp only [Action.polled, pending_poll hpoll session, Action.parts?, Option.toList_none,
      List.flatten_nil, List.append_nil]
  | _ => simp [Action.parts?, Action.polled, State.setPublisher]

/-- What was printed, what is still stored and what was offered with success belong together. -/
structure Accounts (cfg : Delivery.Config) (as : List Action) (s : State) : Prop where
  printed : s.printed = (polled as).map Stored.payload
  fragmented : ∀ session, List.Forall₂ (Fragmented cfg.maxPayloadLength) (s.accepted session)
    (parts session as)
  stored : ∀ session,
    (ofSession session (polled as) ++ s.delivery.pending 0 session).map Stored.payload =
      (parts session as).flatten
  left : s.phase = .left → ∃ session, s.Ended session

theorem accounts_init (cfg : Delivery.Config) : Accounts cfg [] init where
  printed := rfl
  fragmented _ := .nil
  stored _ := rfl
  left h := by cases h

theorem accounts_step {past : List Action} {a : Action} (hs : Accounts cfg past s)
    (h : step cfg s a = some s') : Accounts cfg (past ++ [a]) s' where
  printed := by rw [printed_step h, hs.printed, polled_concat, List.map_append]
  fragmented session := by
    obtain ⟨messages, haccepted, hparts⟩ := accepted_step h session
    rw [haccepted, parts_concat]
    exact List.rel_append (hs.fragmented session) hparts
  stored session := by
    have hpending := pending_step h session
    rw [List.map_append] at hpending
    rw [polled_concat, ofSession_append, List.append_assoc, List.map_append, List.map_append,
      hpending, ← List.append_assoc, ← List.map_append, hs.stored, parts_concat,
      List.flatten_append]
  left hphase := by
    obtain ⟨session, hended⟩ := (left_step h hphase).elim hs.left id
    exact ⟨session, ended_step h hended⟩

theorem accounts_run {t : State} {as : List Action}
    (h : StepMachine.run (step cfg) init as = some t) : Accounts cfg as t :=
  StepMachine.run_history (fun _ _ _ _ => accounts_step) h (accounts_init cfg)

end Samples

end AeronPy
