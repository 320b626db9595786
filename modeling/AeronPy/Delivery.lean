import AeronPy.Lib.StepMachine
import AeronPy.Publication
import AeronPy.Subscription
import Mathlib.Logic.Function.Basic

/-!
# Offers, arrivals and polls

The delivery system: subscriptions, the fragments Aeron has stored for them and not yet
delivered, and the steps `offer`, `arrive` and `poll`. What is assumed of Aeron is in the
guards of `step`:

* an accepted message is stored whole if it is at most the maximum payload length, and cut
  into consecutive fragments of at most that length otherwise (`Fragmented`);
* a poll delivers at most `fragment_limit` stored fragments, those of each session in order
  and from where the previous poll stopped; while it does, the window of a delivered fragment
  holds the bytes that were stored.

`fifo` is the run lemma: for every subscription and session, the fragments polled so far and
the pending ones are together the ones stored so far.
-/

namespace AeronPy

/-- A stored fragment: its window and header, and the bytes that were stored. -/
structure Stored where
  fragment : Fragment
  payload : List UInt8
deriving DecidableEq

namespace Stored

/-- The stream the fragment was sent on. -/
def stream (f : Stored) : Int32 := f.fragment.header.stream

/-- The session that sent the fragment. -/
def session (f : Stored) : Int32 := f.fragment.header.session

end Stored

/-- The fragments of one session, in order. -/
def ofSession (session : Int32) (fs : List Stored) : List Stored :=
  fs.filter fun f => f.session = session

@[simp] theorem ofSession_nil (session : Int32) : ofSession session [] = [] := rfl

@[simp] theorem ofSession_append (session : Int32) (fs gs : List Stored) :
    ofSession session (fs ++ gs) = ofSession session fs ++ ofSession session gs :=
  List.filter_append fs gs

theorem mem_ofSession {session : Int32} {fs : List Stored} {f : Stored} :
    f ∈ ofSession session fs ↔ f ∈ fs ∧ f.session = session := by
  simp [ofSession]

theorem ofSession_eq_self {session : Int32} {fs : List Stored}
    (h : ∀ f ∈ fs, f.session = session) : ofSession session fs = fs :=
  List.filter_eq_self.mpr fun f hf => by simpa using h f hf

/-- How Aeron stores a message, `P` being the maximum payload length. -/
def Fragmented (P : ℕ) (message : List UInt8) (parts : List (List UInt8)) : Prop :=
  (message.length ≤ P → parts = [message]) ∧
    (P < message.length → parts.flatten = message ∧ ∀ part ∈ parts, part.length ≤ P)

instance (P : ℕ) (message : List UInt8) (parts : List (List UInt8)) :
    Decidable (Fragmented P message parts) :=
  inferInstanceAs (Decidable (_ ∧ _))

/-- `FRAME_ALIGNMENT`. -/
def frameAlignment : ℕ := 32

/-- The length that a frame of `length` bytes takes up in a log. -/
def align (length : ℕ) : ℕ := (length + (frameAlignment - 1)) / frameAlignment * frameAlignment

theorem le_align (length : ℕ) : length ≤ align length := by
  simp only [align, frameAlignment]
  omega

/-! ## The system -/

namespace Delivery

/-- The driver's settings and the stream of each subscription. -/
structure Config where
  maxPayloadLength : ℕ
  maxMessageLength : ℕ
  stream : ℕ → Int32

/-- The stored, undelivered fragments of each subscription and session. -/
structure State where
  pending : ℕ → Int32 → List Stored

/-- Nothing stored yet. -/
def init : State := ⟨fun _ _ => []⟩

/-- One step; the choices of Aeron are arguments. -/
inductive Action where
  /-- An accepted offer on a publication of session `session`, and how Aeron stores it. -/
  | offer (subscription : ℕ) (session : Int32) (characters : ℤ) (memory : Memory)
      (data : PyData) (stored : List Stored)
  /-- A fragment arrives from another sender. -/
  | arrive (subscription : ℕ) (stored : Stored)
  /-- A poll, and the fragments Aeron delivers in it. -/
  | poll (subscription : ℕ) (fragmentLimit : ℕ) (memory : Memory) (delivered : List Stored)

namespace State

/-- Fragments are stored for subscription `i`. -/
def store (s : State) (i : ℕ) (fs : List Stored) : State :=
  ⟨Function.update s.pending i fun session => s.pending i session ++ ofSession session fs⟩

/-- Fragments of subscription `i` have been delivered. -/
def deliver (s : State) (i : ℕ) (fs : List Stored) : State :=
  ⟨Function.update s.pending i fun session =>
    (s.pending i session).drop (ofSession session fs).length⟩

/-- The fragments are, session by session, the next ones of subscription `i`. -/
def Deliverable (s : State) (i : ℕ) (fs : List Stored) : Prop :=
  ∀ f ∈ fs, ofSession f.session fs <+: s.pending i f.session

instance (s : State) (i : ℕ) (fs : List Stored) : Decidable (s.Deliverable i fs) :=
  inferInstanceAs (Decidable (∀ f ∈ fs, _))

end State

/-- The message that an offer hands to Aeron, where it accepts the data. -/
def handedMessage (characters : ℤ) (memory : Memory) (data : PyData) :
    Except PyError (List UInt8) :=
  Publication.offer (fun m buf => buf.bytes m) characters memory data

/-- One step of the system. -/
def step (cfg : Config) (s : State) : Action → Option State
  | .offer i session characters memory data stored =>
    match handedMessage characters memory data with
    | .ok message =>
      -- accepted: stored as Aeron cuts it, under the publication's own header
      if message.length ≤ cfg.maxMessageLength ∧
          Fragmented cfg.maxPayloadLength message (stored.map Stored.payload) ∧
          ∀ f ∈ stored, f.fragment.header = ⟨cfg.stream i, session⟩ then
        some (s.store i stored)
      else none
    | .error _ => none
  | .arrive i f =>
    if f.stream = cfg.stream i then some (s.store i [f]) else none
  | .poll i fragmentLimit memory delivered =>
    -- while the callback runs, the windows hold what was stored
    if delivered.length ≤ fragmentLimit ∧ s.Deliverable i delivered ∧
        ∀ f ∈ delivered, f.fragment.payload memory = f.payload then
      some (s.deliver i delivered)
    else none

/-! ## What a run stores and polls -/

/-- The fragments that the action stores for subscription `i`. -/
def Action.storedFor (i : ℕ) : Action → List Stored
  | .offer j _ _ _ _ stored => if j = i then stored else []
  | .arrive j f => if j = i then [f] else []
  | .poll .. => []

/-- The fragments that the action delivers from subscription `i`. -/
def Action.polledFrom (i : ℕ) : Action → List Stored
  | .poll j _ _ delivered => if j = i then delivered else []
  | _ => []

/-- The fragments that the action delivers, from any subscription. -/
def Action.polled : Action → List Stored
  | .poll _ _ _ delivered => delivered
  | _ => []

/-- All fragments polled, in delivery order. -/
def polled (as : List Action) : List Stored := as.flatMap Action.polled

/-- All fragments polled from subscription `i`, in delivery order. -/
def polledFrom (i : ℕ) (as : List Action) : List Stored := as.flatMap (Action.polledFrom i)

/-- All fragments stored for subscription `i`. -/
def storedFor (i : ℕ) (as : List Action) : List Stored := as.flatMap (Action.storedFor i)

theorem pending_store (s : State) (i j : ℕ) (fs : List Stored) (session : Int32) :
    (s.store i fs).pending j session =
      s.pending j session ++ ofSession session (if i = j then fs else []) := by
  unfold State.store
  by_cases h : i = j
  · subst h
    simp
  · simp [Function.update_of_ne (Ne.symm h), h]

/-- A delivered batch is the front of what its session has pending. -/
theorem ofSession_isPrefix {s : State} {i : ℕ} {fs : List Stored} (h : s.Deliverable i fs)
    (session : Int32) : ofSession session fs <+: s.pending i session := by
  -- the guard is about the sessions that occur in the batch
  cases hfs : ofSession session fs with
  | nil => exact List.nil_prefix
  | cons f rest =>
    have hf : f ∈ ofSession session fs := by
      rw [hfs]
      exact List.mem_cons_self
    obtain ⟨hmem, hsession⟩ := mem_ofSession.mp hf
    rw [← hfs, ← hsession]
    exact h f hmem

theorem pending_deliver {s : State} {i : ℕ} {fs : List Stored} (h : s.Deliverable i fs) (j : ℕ)
    (session : Int32) :
    ofSession session (if i = j then fs else []) ++ (s.deliver i fs).pending j session =
      s.pending j session := by
  unfold State.deliver
  by_cases hij : i = j
  · subst hij
    obtain ⟨rest, hrest⟩ := ofSession_isPrefix h session
    simp [← hrest]
  · simp [Function.update_of_ne (Ne.symm hij), hij]

/-- What one step does to the pending fragments of a subscription and session. -/
theorem fifo_step {cfg : Config} {s s' : State} {a : Action} (h : step cfg s a = some s')
    (i : ℕ) (session : Int32) :
    ofSession session (a.polledFrom i) ++ s'.pending i session =
      s.pending i session ++ ofSession session (a.storedFor i) := by
  cases a with
  | offer j session' characters memory data stored =>
    simp only [step] at h
    split at h
    · split at h
      · cases h
        exact pending_store s j i stored session
      · cases h
    · cases h
  | arrive j f =>
    simp only [step] at h
    split at h
    · cases h
      exact pending_store s j i [f] session
    · cases h
  | poll j fragmentLimit memory delivered =>
    simp only [step] at h
    split at h
    · next hguard =>
      cases h
      -- a poll stores nothing
      simp only [Action.storedFor, ofSession_nil, List.append_nil]
      exact pending_deliver hguard.2.1 i session
    · cases h

/-- **First in, first out.** What was polled of a session, followed by what is pending, is
what was pending at the start followed by what was stored. -/
theorem fifo {cfg : Config} {s t : State} {as : List Action}
    (h : StepMachine.run (step cfg) s as = some t) (i : ℕ) (session : Int32) :
    ofSession session (polledFrom i as) ++ t.pending i session =
      s.pending i session ++ ofSession session (storedFor i as) := by
  induction as generalizing s with
  | nil =>
    cases h
    simp [polledFrom, storedFor]
  | cons a as ih =>
    obtain ⟨s', ha, has⟩ := StepMachine.run_cons_eq_some.mp h
    have hstep := fifo_step ha i session
    have hrest := ih has
    simp only [polledFrom, storedFor, List.flatMap_cons, ofSession_append] at hrest ⊢
    -- the rest of the run starts with what the step left pending
    rw [List.append_assoc, hrest, ← List.append_assoc, hstep, List.append_assoc]

/-- Whatever is polled from a subscription was stored for it. -/
theorem mem_storedFor_of_mem_polledFrom {cfg : Config} {t : State} {as : List Action} {i : ℕ}
    {f : Stored} (h : StepMachine.run (step cfg) init as = some t) (hf : f ∈ polledFrom i as) :
    f ∈ storedFor i as := by
  have hfifo := fifo h i f.session
  have hmem : f ∈ ofSession f.session (polledFrom i as) ++ t.pending i f.session :=
    List.mem_append_left _ (mem_ofSession.mpr ⟨hf, rfl⟩)
  rw [hfifo, init, List.nil_append] at hmem
  exact (mem_ofSession.mp hmem).1

/-! ## What the handler observes -/

/-- What the handler is given in one call: the bytes it reads from the view, and the header. -/
structure Observation where
  data : List UInt8
  header : Option Header
deriving DecidableEq

/-- What one poll does: the handler's observations, and the result. -/
structure PollOutcome where
  observed : List Observation
  result : ℕ
deriving DecidableEq

/-- The handler reads the view while the poll runs. -/
def observe (memory : Memory) (call : HandlerCall) : Observation :=
  ⟨call.data.bytes memory, call.header⟩

/-- One call of `subscription.poll(handler, fragment_limit)`. -/
def pollOutcome (handler : Handler) (memory : Memory) (delivered : List Stored) :
    Except PyError PollOutcome := do
  let (calls, result) ← Subscription.poll handler (delivered.map Stored.fragment)
  return ⟨calls.map (observe memory), result⟩

/-- The outcomes of all polls of a run. -/
def pollOutcomes (handler : Handler) : List Action → Except PyError (List PollOutcome)
  | [] => .ok []
  | .poll _ _ memory delivered :: as => do
    let outcome ← pollOutcome handler memory delivered
    let rest ← pollOutcomes handler as
    return outcome :: rest
  | _ :: as => pollOutcomes handler as

/-- Everything the handler observed, over all polls. -/
def observations (outcomes : List PollOutcome) : List Observation :=
  outcomes.flatMap PollOutcome.observed

/-- The polls of a run, when the handler takes every fragment: each makes one call per
fragment, with the bytes that were stored, and returns the number of its calls. -/
theorem pollOutcomes_of_run {cfg : Config} {handler : Handler} (seen : Header → Option Header)
    (hpoll : ∀ fs : List Fragment, Subscription.poll handler fs =
      .ok (fs.map fun f => ⟨Subscription.dataView f, seen f.header⟩, fs.length))
    {s t : State} {as : List Action} (h : StepMachine.run (step cfg) s as = some t) :
    ∃ outcomes, pollOutcomes handler as = .ok outcomes ∧
      (∀ outcome ∈ outcomes, outcome.result = outcome.observed.length) ∧
      observations outcomes =
        (polled as).map fun f => ⟨f.payload, seen f.fragment.header⟩ := by
  induction as generalizing s with
  | nil => exact ⟨[], rfl, by simp, rfl⟩
  | cons a as ih =>
    obtain ⟨s', ha, has⟩ := StepMachine.run_cons_eq_some.mp h
    obtain ⟨outcomes, hok, hres, hobs⟩ := ih has
    cases a with
    | offer => exact ⟨outcomes, hok, hres, hobs⟩
    | arrive => exact ⟨outcomes, hok, hres, hobs⟩
    | poll i fragmentLimit memory delivered =>
      -- the handler reads the views while the poll runs
      have hwindows : ∀ f ∈ delivered, f.fragment.payload memory = f.payload := by
        simp only [step] at ha
        split at ha
        · next hguard => exact hguard.2.2
        · cases ha
      let outcome : PollOutcome :=
        ⟨delivered.map fun f => ⟨f.payload, seen f.fragment.header⟩, delivered.length⟩
      have hthis : pollOutcome handler memory delivered = .ok outcome := by
        have hobserved : (delivered.map fun f => Observation.mk (f.fragment.payload memory)
            (seen f.fragment.header)) = outcome.observed :=
          List.map_congr_left fun f hf => by rw [hwindows f hf]
        rw [pollOutcome, hpoll]
        simp only [bind, Except.bind, pure, Except.pure, List.map_map, Function.comp_def, observe,
          bytes_dataView, List.length_map, hobserved]
        rfl
      refine ⟨outcome :: outcomes, ?_, ?_, ?_⟩
      · rw [pollOutcomes, hthis, hok]
        rfl
      · exact List.forall_mem_cons.mpr ⟨by simp [outcome], hres⟩
      · simp only [observations, polled, List.flatMap_cons, List.map_append] at hobs ⊢
        rw [hobs]
        rfl

end Delivery

end AeronPy
