import AeronPy.Delivery
import AeronPy.Lib.CyclicLog

/-!
# The log under the views

An image's fragments are kept in one log of three term partitions reused cyclically. The
memoryview that a poll hands to the handler refers to the log itself, so what it reads is
whatever the log holds at that moment.

* `Frame`, `State`, `step`: frames written to the log one behind the other, padding where a
  term has no room left, polls, and views kept by the program. The producer is never more than
  one log length ahead of the subscriber, so an unconsumed frame is not written over; the space
  of a consumed one may be;
* `Inv`, `inv_step`: unconsumed frames are intact, and so are the kept views as long as no
  frame is written to a place that a kept view refers to (`KeepsClear`); within one log length
  none is (`clears_of_lap`);
* `views_stable`: in every run that writes no frame, padding or not, over a kept view, every
  kept view reads the bytes of its fragment; `overwritten_of_not_clears`: at a place that is not
  clear of a kept view, some frame of that size changes what the view reads;
* `views_stable_one_lap`, `lap_overwrites_view`: runs over a log of 64 KiB terms, of one lap with
  all views kept, and of one message more, after which the first view reads the bytes of a later
  fragment.
-/

namespace AeronPy

namespace LogBuffer

/-- Where the log is, the length of a term, and the driver's maximum payload length. -/
structure Config where
  base : ℤ
  termLength : ℕ
  maxPayloadLength : ℕ
  aligned : frameAlignment ∣ termLength

/-- The number of term partitions. -/
def partitionCount : ℕ := 3

/-- The length of the whole log. -/
def Config.logLength (cfg : Config) : ℕ := cfg.termLength * partitionCount

/-- A frame at an absolute position of the stream: its header bytes and its payload. Padding is
not delivered. -/
structure Frame where
  position : ℕ
  frameHeader : List UInt8
  payload : List UInt8
  header : Header
  padding : Bool
deriving DecidableEq

namespace Frame

/-- The bytes of the frame. -/
def bytes (f : Frame) : List UInt8 := f.frameHeader ++ f.payload

/-- The position after the bytes of the frame. -/
def stop (f : Frame) : ℕ := f.position + f.bytes.length

/-- The position of the next frame. -/
def next (f : Frame) : ℕ := f.position + align f.bytes.length

/-- The position of the first payload byte. -/
def payloadPosition (f : Frame) : ℕ := f.position + f.frameHeader.length

/-- The frame lies in one term. -/
def InTerm (cfg : Config) (f : Frame) : Prop :=
  f.position % cfg.termLength + f.bytes.length ≤ cfg.termLength

/-- Where the frame is kept. -/
def address (cfg : Config) (f : Frame) : ℤ :=
  CyclicLog.address cfg.base cfg.termLength partitionCount f.position

/-- What the poll callback is called with for the frame: the term buffer, and the window of
the payload in it. -/
def fragment (cfg : Config) (f : Frame) : Fragment where
  buffer :=
    ⟨CyclicLog.partitionAddress cfg.base cfg.termLength partitionCount f.position,
      cfg.termLength⟩
  offset := f.position % cfg.termLength + f.frameHeader.length
  length := f.payload.length
  header := f.header

end Frame

/-- The frames that hold fragments. -/
def fragments (frames : List Frame) : List Frame := frames.filter fun f => !f.padding

/-- A view kept by the program, and the frame it was handed out for. -/
structure View where
  view : MemoryView
  frame : Frame

/-- The memory, the producer's and the subscriber's position, the frames between them, and
the views kept. -/
structure State where
  memory : Memory
  tail : ℕ
  consumed : ℕ
  pending : List Frame
  views : List View

/-- An empty log, and no views. -/
def init (memory : Memory) : State := ⟨memory, 0, 0, [], []⟩

/-- One step of the program. -/
inductive Action where
  /-- An accepted offer of a message, and the frames that hold it. -/
  | offer (message : List UInt8) (frames : List Frame)
  /-- An offer finds that the term has no room for its message, and fills it up. -/
  | pad (f : Frame)
  /-- A poll that passes the next `count` frames, and delivers the fragments among them. -/
  | poll (fragmentLimit count : ℕ)
  /-- The program drops the `i`-th view it has kept. -/
  | drop (i : ℕ)

/-- Write one frame: at the producer's position, inside a term, and at most one log length
ahead of the subscriber. -/
def append (cfg : Config) (s : State) (f : Frame) : Option State :=
  if f.position = s.tail ∧ f.position % cfg.termLength + f.bytes.length ≤ cfg.termLength ∧
      f.stop ≤ s.consumed + cfg.logLength then
    some { s with
      memory := ByteMemory.write s.memory (f.address cfg) f.bytes
      tail := f.next
      pending := s.pending ++ [f] }
  else none

/-- One step. -/
def step (cfg : Config) (handler : Handler) (s : State) : Action → Option State
  | .offer message frames =>
    if Fragmented cfg.maxPayloadLength message (frames.map Frame.payload) ∧
        ∀ f ∈ frames, f.padding = false then
      StepMachine.run (append cfg) s frames
    else none
  | .pad f =>
    -- the frame takes all that is left of the term
    if f.padding = true ∧ f.position % cfg.termLength + f.bytes.length = cfg.termLength then
      append cfg s f
    else none
  | .poll fragmentLimit count =>
    let passed := s.pending.take count
    let delivered := fragments passed
    -- the program keeps every view that it is given
    match Subscription.poll handler (delivered.map (Frame.fragment cfg)) with
    | .ok (calls, _) =>
      if delivered.length ≤ fragmentLimit then
        some { s with
          consumed := (passed.map Frame.next).getLastD s.consumed
          pending := s.pending.drop count
          views := s.views ++
            List.zipWith View.mk (calls.map HandlerCall.data) delivered }
      else none
    | .error _ => none
  | .drop i => some { s with views := s.views.eraseIdx i }

/-! ## The invariant -/

/-- The frame's payload is in the log. -/
def Intact (cfg : Config) (memory : Memory) (f : Frame) : Prop :=
  (f.fragment cfg).payload memory = f.payload

/-- The invariant: frames in the log are behind the producer's position; the unconsumed ones
are in order, ahead of the subscriber's position, and intact; a kept view is the view of its
frame, and reads its payload. -/
structure Inv (cfg : Config) (s : State) : Prop where
  ordered : s.pending.Pairwise fun f g => f.next ≤ g.position
  consumed_le : s.consumed ≤ s.tail
  behind : ∀ f ∈ s.pending, f.next ≤ s.tail
  ahead : ∀ f ∈ s.pending, s.consumed ≤ f.position
  inTerm : ∀ f ∈ s.pending, f.InTerm cfg
  intact : ∀ f ∈ s.pending, Intact cfg s.memory f
  viewOf : ∀ v ∈ s.views, v.view = Subscription.dataView (v.frame.fragment cfg)
  viewBehind : ∀ v ∈ s.views, v.frame.next ≤ s.tail
  viewInTerm : ∀ v ∈ s.views, v.frame.InTerm cfg
  viewIntact : ∀ v ∈ s.views, Intact cfg s.memory v.frame

/-- The frame takes no byte of the log that the payload of the other one is in. -/
def Frame.Clears (cfg : Config) (f g : Frame) : Prop :=
  CyclicLog.Apart cfg.logLength f.position f.bytes.length g.payloadPosition g.payload.length

/-- No frame that is written takes a byte of the log that a kept view refers to. -/
def KeepsClear (cfg : Config) (s : State) : Action → Prop
  | .offer _ frames => ∀ f ∈ frames, ∀ v ∈ s.views, f.Clears cfg v.frame
  | .pad f => ∀ v ∈ s.views, f.Clears cfg v.frame
  | .poll .. => True
  | .drop _ => True

theorem stop_eq (f : Frame) : f.stop = f.payloadPosition + f.payload.length := by
  simp [Frame.stop, Frame.payloadPosition, Frame.bytes, Nat.add_assoc]

theorem stop_le_next (f : Frame) : f.stop ≤ f.next :=
  Nat.add_le_add_left (le_align _) _

theorem position_le_next (f : Frame) : f.position ≤ f.next := Nat.le_add_right _ _

/-- The window of the payload starts after the frame header. -/
theorem fragment_address (cfg : Config) (f : Frame) :
    (f.fragment cfg).address = f.address cfg + f.frameHeader.length := by
  simp only [Fragment.address, Frame.fragment, Frame.address, CyclicLog.address]
  push_cast
  ring

/-- The payload is in the frame's term. -/
theorem payload_inTerm {cfg : Config} {f : Frame} (h : f.InTerm cfg) (hne : f.payload ≠ []) :
    f.payloadPosition % cfg.termLength = f.position % cfg.termLength + f.frameHeader.length ∧
      f.payloadPosition % cfg.termLength + f.payload.length ≤ cfg.termLength := by
  have hlen : 0 < f.payload.length := List.length_pos_iff.mpr hne
  simp only [Frame.InTerm, Frame.bytes, List.length_append] at h
  have hoffset : f.payloadPosition % cfg.termLength =
      f.position % cfg.termLength + f.frameHeader.length := CyclicLog.offset_add (by omega)
  omega

/-- A frame with a payload keeps it at the address of its payload position. -/
theorem fragment_address_eq {cfg : Config} {f : Frame} (h : f.InTerm cfg)
    (hne : f.payload ≠ []) :
    (f.fragment cfg).address =
      CyclicLog.address cfg.base cfg.termLength partitionCount f.payloadPosition := by
  have hlen : 0 < f.payload.length := List.length_pos_iff.mpr hne
  have hpayload := payload_inTerm h hne
  have hin : f.position % cfg.termLength + f.frameHeader.length < cfg.termLength := by omega
  rw [fragment_address, Frame.payloadPosition, CyclicLog.address_add cfg.base _ hin]
  rfl

/-- A frame that has just been written is intact. -/
theorem intact_write (cfg : Config) (memory : Memory) (f : Frame) :
    Intact cfg (ByteMemory.write memory (f.address cfg) f.bytes) f := by
  rw [Intact, Fragment.payload, fragment_address]
  exact ByteMemory.read_write_inside memory (f.address cfg) f.frameHeader f.payload

/-- Writing a frame leaves another one intact that it is clear of. -/
theorem intact_of_write {cfg : Config} {memory : Memory} {f g : Frame}
    (hg : Intact cfg memory g) (hf : f.InTerm cfg) (hin : g.InTerm cfg)
    (hclear : f.Clears cfg g) :
    Intact cfg (ByteMemory.write memory (f.address cfg) f.bytes) g := by
  by_cases hne : g.payload = []
  · -- an empty payload has nothing to lose
    simp [Intact, Fragment.payload, Frame.fragment, hne]
  · rw [Intact, Fragment.payload, fragment_address_eq hin hne] at hg ⊢
    rw [← hg]
    exact CyclicLog.read_write_apart hf (payload_inTerm hin hne).2 hclear

/-- A later frame is clear of an earlier one, if it ends at most one log length after the
earlier one's payload starts. -/
theorem clears_of_lap {cfg : Config} {f g : Frame} (hbefore : g.stop ≤ f.position)
    (hlap : f.stop ≤ g.payloadPosition + cfg.logLength) : f.Clears cfg g := by
  rw [stop_eq] at hbefore
  exact CyclicLog.apart_of_lap hbefore hlap

/-! ## What the steps preserve -/

/-- What writing a frame does, and when it is possible. -/
theorem append_eq_some {cfg : Config} {s s' : State} {f : Frame} :
    append cfg s f = some s' ↔
      (f.position = s.tail ∧ f.InTerm cfg ∧ f.stop ≤ s.consumed + cfg.logLength) ∧
        s' = { s with
          memory := ByteMemory.write s.memory (f.address cfg) f.bytes
          tail := f.next
          pending := s.pending ++ [f] } := by
  unfold append
  split
  · next h => exact ⟨fun hs => ⟨h, (Option.some_inj.mp hs).symm⟩, fun ⟨_, hs⟩ => hs ▸ rfl⟩
  · next h => exact ⟨fun hs => (nomatch hs), fun ⟨hs, _⟩ => absurd hs h⟩

/-- The subscriber's limit keeps an unconsumed frame clear of the frame being written. -/
theorem clears_of_ahead {cfg : Config} {s : State} {f g : Frame} (hbefore : g.stop ≤ f.position)
    (hg : s.consumed ≤ g.position) (hf : f.stop ≤ s.consumed + cfg.logLength) :
    f.Clears cfg g := by
  refine clears_of_lap hbefore ?_
  unfold Frame.payloadPosition
  omega

/-- Writing a frame that keeps clear of the kept views preserves the invariant. -/
theorem inv_append {cfg : Config} {s s' : State} {f : Frame} (hinv : Inv cfg s)
    (h : append cfg s f = some s') (hviews : ∀ v ∈ s.views, f.Clears cfg v.frame) :
    Inv cfg s' := by
  obtain ⟨⟨htail, hin, hlimit⟩, rfl⟩ := append_eq_some.mp h
  have hnext : s.tail ≤ f.next := htail ▸ position_le_next f
  have hbehind : ∀ g ∈ s.pending, g.next ≤ f.position := by
    intro g hg
    rw [htail]
    exact hinv.behind g hg
  refine ⟨?_, hinv.consumed_le.trans hnext, ?_, ?_, ?_, ?_, hinv.viewOf, ?_, hinv.viewInTerm, ?_⟩
  · -- the frame comes after the pending ones
    refine List.pairwise_append.mpr ⟨hinv.ordered, List.pairwise_singleton _ _, ?_⟩
    intro g hg f' hf'
    rw [List.mem_singleton.mp hf']
    exact hbehind g hg
  · rw [List.forall_mem_append, List.forall_mem_singleton]
    exact ⟨fun g hg => (hinv.behind g hg).trans hnext, le_refl _⟩
  · rw [List.forall_mem_append, List.forall_mem_singleton, htail]
    exact ⟨hinv.ahead, hinv.consumed_le⟩
  · rw [List.forall_mem_append, List.forall_mem_singleton]
    exact ⟨hinv.inTerm, hin⟩
  · rw [List.forall_mem_append, List.forall_mem_singleton]
    -- no pending frame is written over
    refine ⟨fun g hg => ?_, intact_write cfg s.memory f⟩
    have hclear := clears_of_ahead ((stop_le_next g).trans (hbehind g hg)) (hinv.ahead g hg) hlimit
    exact intact_of_write (hinv.intact g hg) hin (hinv.inTerm g hg) hclear
  · exact fun v hv => (hinv.viewBehind v hv).trans hnext
  · exact fun v hv => intact_of_write (hinv.viewIntact v hv) hin (hinv.viewInTerm v hv)
      (hviews v hv)

/-- Writing the frames of an offer, one after the other: the kept views stay the same. -/
theorem inv_appends {cfg : Config} {s s' : State} {frames : List Frame} (hinv : Inv cfg s)
    (h : StepMachine.run (append cfg) s frames = some s')
    (hviews : ∀ f ∈ frames, ∀ v ∈ s.views, f.Clears cfg v.frame) : Inv cfg s' := by
  induction frames generalizing s with
  | nil =>
    cases h
    exact hinv
  | cons f frames ih =>
    obtain ⟨s₁, hf, hrest⟩ := StepMachine.run_cons_eq_some.mp h
    obtain ⟨hfirst, hothers⟩ := List.forall_mem_cons.mp hviews
    have hsame : s₁.views = s.views := by
      obtain ⟨-, rfl⟩ := append_eq_some.mp hf
      rfl
    exact ih (inv_append hinv hf hfirst) hrest (by rwa [hsame])

/-- The views that a poll hands out are the views of the delivered frames. -/
theorem zipWith_views {cfg : Config} {calls : List HandlerCall} {delivered : List Frame}
    (h : calls.map HandlerCall.data =
      (delivered.map (Frame.fragment cfg)).map Subscription.dataView) :
    List.zipWith View.mk (calls.map HandlerCall.data) delivered =
      delivered.map fun f => ⟨Subscription.dataView (f.fragment cfg), f⟩ := by
  rw [h, List.map_map, List.zipWith_map_left, List.zipWith_self]
  rfl

/-- A poll preserves the invariant: the frames it hands out were intact, and the ones that
stay pending are ahead of the last one it passed. -/
theorem inv_poll {cfg : Config} {s : State} (hinv : Inv cfg s) (count : ℕ) :
    Inv cfg { s with
      consumed := ((s.pending.take count).map Frame.next).getLastD s.consumed
      pending := s.pending.drop count
      views := s.views ++ (fragments (s.pending.take count)).map fun f =>
        ⟨Subscription.dataView (f.fragment cfg), f⟩ } := by
  have hsplit := List.take_append_drop count s.pending
  have htake : ∀ f ∈ s.pending.take count, f ∈ s.pending := fun f => List.mem_of_mem_take
  have hdrop : ∀ f ∈ s.pending.drop count, f ∈ s.pending := fun f => List.mem_of_mem_drop
  have hfragments : ∀ f ∈ fragments (s.pending.take count), f ∈ s.pending :=
    fun f hf => htake f (List.mem_of_mem_filter hf)
  have hlast : ((s.pending.take count).map Frame.next).getLastD s.consumed ∈
      s.consumed :: (s.pending.take count).map Frame.next := List.getLastD_mem_cons
  have hordered : ∀ f ∈ s.pending.take count, ∀ g ∈ s.pending.drop count,
      f.next ≤ g.position := by
    have h := hinv.ordered
    rw [← hsplit, List.pairwise_append] at h
    exact h.2.2
  refine ⟨hinv.ordered.drop, ?_, fun f hf => hinv.behind f (hdrop f hf), fun g hg => ?_,
    fun f hf => hinv.inTerm f (hdrop f hf), fun f hf => hinv.intact f (hdrop f hf), ?_, ?_, ?_, ?_⟩
  · -- the new position is the one after a frame that was passed, or the old one
    rcases List.mem_cons.mp hlast with h | h
    · simp only [h]
      exact hinv.consumed_le
    · obtain ⟨f, hf, hnext⟩ := List.mem_map.mp h
      simp only [← hnext]
      exact hinv.behind f (htake f hf)
  · -- frames that stay pending come after the ones that were passed
    rcases List.mem_cons.mp hlast with h | h
    · simp only [h]
      exact hinv.ahead g (hdrop g hg)
    · obtain ⟨f, hf, hnext⟩ := List.mem_map.mp h
      simp only [← hnext]
      exact hordered f hf g hg
  · rw [List.forall_mem_append, List.forall_mem_map]
    exact ⟨hinv.viewOf, fun f _ => rfl⟩
  · rw [List.forall_mem_append, List.forall_mem_map]
    exact ⟨hinv.viewBehind, fun f hf => hinv.behind f (hfragments f hf)⟩
  · rw [List.forall_mem_append, List.forall_mem_map]
    exact ⟨hinv.viewInTerm, fun f hf => hinv.inTerm f (hfragments f hf)⟩
  · rw [List.forall_mem_append, List.forall_mem_map]
    -- a view that is handed out is that of a frame that was pending
    exact ⟨hinv.viewIntact, fun f hf => hinv.intact f (hfragments f hf)⟩

/-- What one step does to the state. -/
theorem step_cases {cfg : Config} {handler : Handler} {s s' : State} {a : Action}
    (h : step cfg handler s a = some s') :
    (∃ message frames, a = .offer message frames ∧ (∀ f ∈ frames, f.padding = false) ∧
        StepMachine.run (append cfg) s frames = some s') ∨
      (∃ f, a = .pad f ∧ f.padding = true ∧ append cfg s f = some s') ∨
      (∃ fragmentLimit count, a = .poll fragmentLimit count ∧
        (fragments (s.pending.take count)).length ≤ fragmentLimit ∧
        s' = { s with
          consumed := ((s.pending.take count).map Frame.next).getLastD s.consumed
          pending := s.pending.drop count
          views := s.views ++ (fragments (s.pending.take count)).map fun f =>
            ⟨Subscription.dataView (f.fragment cfg), f⟩ }) ∨
      ∃ i, a = .drop i ∧ s' = { s with views := s.views.eraseIdx i } := by
  cases a with
  | offer message frames =>
    obtain ⟨hguard, h⟩ := Option.ite_none_right_eq_some.mp h
    exact .inl ⟨message, frames, rfl, hguard.2, h⟩
  | pad f =>
    obtain ⟨hguard, h⟩ := Option.ite_none_right_eq_some.mp h
    exact .inr (.inl ⟨f, rfl, hguard.1, h⟩)
  | poll fragmentLimit count =>
    simp only [step] at h
    split at h
    · next calls _ hpoll =>
      split at h
      · next hcount =>
        cases h
        refine .inr (.inr (.inl ⟨fragmentLimit, count, rfl, hcount, ?_⟩))
        rw [zipWith_views (data_of_poll hpoll)]
      · cases h
    · cases h
  | drop i =>
    cases h
    exact .inr (.inr (.inr ⟨i, rfl, rfl⟩))

theorem inv_step {cfg : Config} {handler : Handler} {s s' : State} {a : Action}
    (hclear : KeepsClear cfg s a) (hinv : Inv cfg s) (h : step cfg handler s a = some s') :
    Inv cfg s' := by
  obtain ⟨message, frames, rfl, -, hrun⟩ | ⟨f, rfl, -, hpad⟩ |
    ⟨fragmentLimit, count, rfl, -, rfl⟩ | ⟨i, rfl, rfl⟩ := step_cases h
  · exact inv_appends hinv hrun hclear
  · exact inv_append hinv hpad hclear
  · exact inv_poll hinv count
  · have hmem : ∀ v ∈ s.views.eraseIdx i, v ∈ s.views := fun v => List.mem_of_mem_eraseIdx
    exact { hinv with
      viewOf := fun v hv => hinv.viewOf v (hmem v hv)
      viewBehind := fun v hv => hinv.viewBehind v (hmem v hv)
      viewInTerm := fun v hv => hinv.viewInTerm v (hmem v hv)
      viewIntact := fun v hv => hinv.viewIntact v (hmem v hv) }

theorem inv_init (cfg : Config) (memory : Memory) : Inv cfg (init memory) where
  ordered := List.Pairwise.nil
  consumed_le := le_refl _
  behind := by simp [init]
  ahead := by simp [init]
  inTerm := by simp [init]
  intact := by simp [init]
  viewOf := by simp [init]
  viewBehind := by simp [init]
  viewInTerm := by simp [init]
  viewIntact := by simp [init]

/-- The frames of an offer are written after the producer's position. -/
theorem tail_le_of_appends {cfg : Config} {s s' : State} {frames : List Frame}
    (h : StepMachine.run (append cfg) s frames = some s') :
    ∀ f ∈ frames, s.tail ≤ f.position := by
  induction frames generalizing s with
  | nil => exact nofun
  | cons f frames ih =>
    obtain ⟨s₁, hf, hrest⟩ := StepMachine.run_cons_eq_some.mp h
    obtain ⟨⟨htail, -, -⟩, rfl⟩ := append_eq_some.mp hf
    refine List.forall_mem_cons.mpr ⟨htail.ge, fun g hg => ?_⟩
    exact (htail.ge.trans (position_le_next f)).trans (ih hrest g hg)

/-- An offer keeps clear of every view for one lap: as long as its frames end at most one log
length after the start of the view's payload. -/
theorem keepsClear_of_lap {cfg : Config} {s s' : State} {message : List UInt8}
    {frames : List Frame} (hinv : Inv cfg s)
    (h : StepMachine.run (append cfg) s frames = some s')
    (hlap : ∀ f ∈ frames, ∀ v ∈ s.views, f.stop ≤ v.frame.payloadPosition + cfg.logLength) :
    KeepsClear cfg s (.offer message frames) := by
  intro f hf v hv
  have hbefore := (hinv.viewBehind v hv).trans (tail_le_of_appends h f hf)
  exact clears_of_lap ((stop_le_next v.frame).trans hbefore) (hlap f hf v hv)

/-- A payload that is intact after a frame has been written over one of its bytes has the
frame's byte there. -/
theorem eq_of_intact_write {cfg : Config} {memory : Memory} {f g : Frame} (hf : f.InTerm cfg)
    (hg : g.InTerm cfg) {i j : ℕ} (hi : i < f.bytes.length) (hj : j < g.payload.length)
    (hplace : (f.position + i) % cfg.logLength = (g.payloadPosition + j) % cfg.logLength)
    (hintact : Intact cfg (ByteMemory.write memory (f.address cfg) f.bytes) g) :
    f.bytes[i] = g.payload[j] := by
  have hne : g.payload ≠ [] := List.length_pos_iff.mp (by omega)
  have hpayload := payload_inTerm hg hne
  have haddress : f.address cfg + i = (g.fragment cfg).address + j := by
    rw [fragment_address_eq hg hne, Frame.address]
    have hfirst : f.position % cfg.termLength + f.bytes.length ≤ cfg.termLength := hf
    exact (CyclicLog.address_add_eq_iff (by omega) (by omega)).mpr hplace
  set memory' := ByteMemory.write memory (f.address cfg) f.bytes
  have hj' : j < ((g.fragment cfg).payload memory').length := by
    rw [hintact]
    exact hj
  calc f.bytes[i] = memory' (f.address cfg + i) := (ByteMemory.write_inside memory _ hi).symm
    _ = memory' ((g.fragment cfg).address + j) := by rw [haddress]
    _ = ((g.fragment cfg).payload memory')[j] := (ByteMemory.getElem_read memory' _ hj').symm
    _ = g.payload[j] := List.getElem_of_eq hintact hj'

/-- Where a frame can be written that is not clear of a kept view, some frame of its place and
size changes what the view reads. -/
theorem overwritten_of_not_clears {cfg : Config} {s s' : State} {f : Frame} {v : View}
    (hinv : Inv cfg s) (hv : v ∈ s.views) (happend : append cfg s f = some s')
    (hclear : ¬f.Clears cfg v.frame) :
    ∃ f' t, f'.position = f.position ∧ f'.payload.length = f.payload.length ∧
      append cfg s f' = some t ∧ v.view.bytes t.memory ≠ v.frame.payload := by
  simp only [Frame.Clears, CyclicLog.Apart, not_forall, not_not] at hclear
  obtain ⟨i, hi, j, hj, hplace⟩ := hclear
  obtain ⟨hguard, -⟩ := append_eq_some.mp happend
  -- fill the place with a byte that the view must not read
  obtain ⟨b, hb⟩ := exists_ne v.frame.payload[j]
  let f' : Frame := { f with
    frameHeader := List.replicate f.frameHeader.length b
    payload := List.replicate f.payload.length b }
  have hbytes : f'.bytes = List.replicate f.bytes.length b := by
    simp only [f', Frame.bytes, List.length_append, List.replicate_append_replicate]
  have hlength : f'.bytes.length = f.bytes.length := by rw [hbytes, List.length_replicate]
  have hstop : f'.stop = f.stop := congrArg (f.position + ·) hlength
  have hin : f'.InTerm cfg := by
    rw [Frame.InTerm, hlength]
    exact hguard.2.1
  have hguard' : f'.position = s.tail ∧ f'.InTerm cfg ∧ f'.stop ≤ s.consumed + cfg.logLength :=
    ⟨hguard.1, hin, hstop.symm ▸ hguard.2.2⟩
  refine ⟨f', _, rfl, List.length_replicate, append_eq_some.mpr ⟨hguard', rfl⟩, fun hreads => ?_⟩
  rw [hinv.viewOf v hv, bytes_dataView] at hreads
  have heq := eq_of_intact_write hin (hinv.viewInTerm v hv) (hlength ▸ hi) hj hplace hreads
  simp only [hbytes, List.getElem_replicate] at heq
  exact hb heq

/-- **Stable views.** In every run in which no frame is written over a kept view, be it one of an
offer or padding, every view that the program has kept reads exactly the bytes of the fragment it
was handed out for. -/
theorem views_stable {cfg : Config} {handler : Handler} {memory : Memory} {t : State}
    {as : List Action}
    (hclear : StepMachine.Meets (step cfg handler) (KeepsClear cfg) (init memory) as)
    (hrun : StepMachine.run (step cfg handler) (init memory) as = some t) :
    ∀ v ∈ t.views, v.view.bytes t.memory = v.frame.payload := by
  have hinv : Inv cfg t := StepMachine.run_invariant_of_meets
    (fun s a s' hC hI h => inv_step hC hI h) hclear hrun (inv_init cfg memory)
  intro v hv
  rw [hinv.viewOf v hv, bytes_dataView]
  exact hinv.viewIntact v hv

/-! ## One lap over the log -/

/-- An offer of a message writes its frames. -/
theorem step_offer {cfg : Config} {message : List UInt8} {frames : List Frame}
    (h : Fragmented cfg.maxPayloadLength message (frames.map Frame.payload))
    (hframes : ∀ f ∈ frames, f.padding = false) (handler : Handler) (s : State) :
    step cfg handler s (.offer message frames) = StepMachine.run (append cfg) s frames :=
  if_pos ⟨h, hframes⟩

/-- A poll with a one-parameter handler that the program keeps every view of. -/
theorem step_poll {cfg : Config} {handler : Handler} (hhandler : handler.TakesData) (s : State)
    {fragmentLimit count : ℕ}
    (hcount : (fragments (s.pending.take count)).length ≤ fragmentLimit) :
    step cfg handler s (.poll fragmentLimit count) = some { s with
      consumed := ((s.pending.take count).map Frame.next).getLastD s.consumed
      pending := s.pending.drop count
      views := s.views ++ (fragments (s.pending.take count)).map fun f =>
        ⟨Subscription.dataView (f.fragment cfg), f⟩ } := by
  have hpoll := poll_data hhandler ((fragments (s.pending.take count)).map (Frame.fragment cfg))
  simp only [step, hpoll, if_pos hcount]
  rw [zipWith_views (data_of_poll hpoll)]

/-- The payload byte of the `i`-th frame of the lap. -/
def lapByte (i : ℕ) : UInt8 := if i = 0 then 1 else 0

/-- The `i`-th of a sequence of 64-byte frames: a frame header and 32 payload bytes. -/
def lapFrame (i : ℕ) : Frame :=
  ⟨64 * i, List.replicate 32 0, List.replicate 32 (lapByte i), ⟨5, 7⟩, false⟩

/-- Offer the message of the `i`-th frame, and poll it. -/
def lapRound (i : ℕ) : List Action :=
  [.offer (List.replicate 32 (lapByte i)) [lapFrame i], .poll 1 1]

/-- `n` messages, each polled as soon as it is offered. -/
def lapRun (n : ℕ) : List Action := (List.range n).flatMap lapRound

/-- A log of terms of `64 * m` bytes, and the usual maximum payload length. -/
def lapLog (m : ℕ) : Config where
  base := 0
  termLength := 64 * m
  maxPayloadLength := 1376
  aligned := ⟨2 * m, by rw [frameAlignment]; ring⟩

/-- The view handed out for the `i`-th frame. -/
def lapView (m i : ℕ) : View :=
  ⟨Subscription.dataView ((lapFrame i).fragment (lapLog m)), lapFrame i⟩

/-- The state after `n` rounds, with the given memory. -/
def lapState (m n : ℕ) (memory : Memory) : State :=
  ⟨memory, 64 * n, 64 * n, [], (List.range n).map (lapView m)⟩

theorem length_lapFrame (i : ℕ) : (lapFrame i).bytes.length = 64 := by
  simp [lapFrame, Frame.bytes]

theorem stop_lapFrame (i : ℕ) : (lapFrame i).stop = 64 * (i + 1) := by
  rw [Frame.stop, length_lapFrame, lapFrame, Nat.mul_succ]

theorem next_lapFrame (i : ℕ) : (lapFrame i).next = 64 * (i + 1) := by
  rw [Frame.next, length_lapFrame, lapFrame, Nat.mul_succ]
  rfl

theorem inTerm_lapFrame {m : ℕ} (hm : 0 < m) (i : ℕ) : (lapFrame i).InTerm (lapLog m) := by
  have hmod : 64 * i % (64 * m) = 64 * (i % m) := Nat.mul_mod_mul_left 64 i m
  have hlt : i % m < m := Nat.mod_lt i hm
  have hposition : (lapFrame i).position % (lapLog m).termLength = 64 * (i % m) := hmod
  rw [Frame.InTerm, hposition, length_lapFrame]
  simp only [lapLog]
  omega

/-- One round writes the next frame to the log, and keeps its view. -/
theorem run_lapRound {m : ℕ} (hm : 0 < m) (n : ℕ) (memory : Memory) :
    StepMachine.run (step (lapLog m) dataHandler) (lapState m n memory) (lapRound n) =
      some (lapState m (n + 1)
        (ByteMemory.write memory ((lapFrame n).address (lapLog m)) (lapFrame n).bytes)) := by
  have hfrag : Fragmented (lapLog m).maxPayloadLength (List.replicate 32 (lapByte n))
      ([lapFrame n].map Frame.payload) :=
    ⟨fun _ => rfl, fun h => absurd h (by simp [lapLog])⟩
  -- the frame is the next one, in its term, and the log is empty
  have hguard : (lapFrame n).position = (lapState m n memory).tail ∧
      (lapFrame n).InTerm (lapLog m) ∧
      (lapFrame n).stop ≤ (lapState m n memory).consumed + (lapLog m).logLength := by
    refine ⟨rfl, inTerm_lapFrame hm n, ?_⟩
    rw [stop_lapFrame]
    simp only [lapState, lapLog, Config.logLength, partitionCount]
    omega
  have hoffer : step (lapLog m) dataHandler (lapState m n memory)
      (.offer (List.replicate 32 (lapByte n)) [lapFrame n]) = some
        { lapState m n memory with
          memory := ByteMemory.write memory ((lapFrame n).address (lapLog m)) (lapFrame n).bytes
          tail := (lapFrame n).next
          pending := [lapFrame n] } := by
    have hframes : ∀ f ∈ [lapFrame n], f.padding = false := List.forall_mem_singleton.mpr rfl
    rw [step_offer hfrag hframes, StepMachine.run_cons, append_eq_some.mpr ⟨hguard, rfl⟩]
    rfl
  rw [lapRound, StepMachine.run_cons, hoffer, Option.bind_some, StepMachine.run_cons,
    step_poll dataHandler_takesData _ (le_refl 1)]
  simp only [lapState, Option.bind_some, StepMachine.run_nil, List.take_succ_cons,
    List.take_zero, List.map_cons, List.map_nil, List.drop_succ_cons, List.drop_zero,
    next_lapFrame, List.range_succ, List.map_append, List.getLastD_cons, List.getLastD_nil]
  rfl

theorem run_lapRun_succ {m n : ℕ} (hm : 0 < m) {memory memory' : Memory}
    (h : StepMachine.run (step (lapLog m) dataHandler) (init memory) (lapRun n) =
      some (lapState m n memory')) :
    StepMachine.run (step (lapLog m) dataHandler) (init memory) (lapRun (n + 1)) =
      some (lapState m (n + 1)
        (ByteMemory.write memory' ((lapFrame n).address (lapLog m)) (lapFrame n).bytes)) := by
  rw [lapRun, List.range_succ, List.flatMap_append, List.flatMap_singleton]
  exact StepMachine.run_append_eq_some.mpr ⟨_, h, run_lapRound hm n memory'⟩

/-- `n` rounds can always be taken, and end with `n` views kept. -/
theorem run_lapRun {m : ℕ} (hm : 0 < m) (n : ℕ) (memory : Memory) :
    ∃ memory', StepMachine.run (step (lapLog m) dataHandler) (init memory) (lapRun n) =
      some (lapState m n memory') := by
  induction n with
  | zero => exact ⟨memory, rfl⟩
  | succ n ih =>
    obtain ⟨memory', hrun⟩ := ih
    exact ⟨_, run_lapRun_succ hm hrun⟩

/-- After one lap of the log the first frame's place holds the frame one lap later. -/
theorem lap_view_bytes {m : ℕ} (memory : Memory) :
    (lapView m 0).view.bytes (ByteMemory.write memory
        ((lapFrame (3 * m)).address (lapLog m)) (lapFrame (3 * m)).bytes) =
      (lapFrame (3 * m)).payload := by
  -- the two frames are one lap apart, so they have the same place
  have hposition : (lapFrame (3 * m)).position =
      (lapFrame 0).position + (lapLog m).termLength * partitionCount := by
    simp only [lapFrame, lapLog, partitionCount]
    ring
  have haddress : (lapFrame (3 * m)).address (lapLog m) = (lapFrame 0).address (lapLog m) := by
    rw [Frame.address, hposition, CyclicLog.address_add_lap]
    rfl
  have hwindow : ((lapFrame 0).fragment (lapLog m)).address =
      ((lapFrame (3 * m)).fragment (lapLog m)).address := by
    rw [fragment_address, fragment_address, haddress]
    rfl
  have hintact := intact_write (lapLog m) memory (lapFrame (3 * m))
  rw [lapView, bytes_dataView, Fragment.payload, hwindow]
  exact hintact

/-- The first view is kept. -/
theorem lapView_mem {m n : ℕ} (hn : 0 < n) (memory : Memory) :
    lapView m 0 ∈ (lapState m n memory).views :=
  List.mem_map_of_mem (List.mem_range.mpr hn)

theorem payload_lapFrame {i : ℕ} (hi : i ≠ 0) : (lapFrame i).payload = List.replicate 32 0 := by
  rw [lapFrame, lapByte, if_neg hi]

/-- A 64 KiB term log, the smallest one Aeron has: the view of the first message reads the
bytes of the message one lap later. -/
theorem lap_overwrites_view :
    ∃ t, StepMachine.run (step (lapLog 1024) dataHandler) (init fun _ => 0)
        (lapRun (3 * 1024 + 1)) = some t ∧ lapView 1024 0 ∈ t.views ∧
      (lapView 1024 0).frame.payload = List.replicate 32 1 ∧
      (lapView 1024 0).view.bytes t.memory = List.replicate 32 0 ∧
      (lapView 1024 0).view.bytes t.memory ≠ (lapView 1024 0).frame.payload := by
  have hm : 0 < 1024 := by omega
  have hlap : 3 * 1024 ≠ 0 := by omega
  obtain ⟨memory, hrun⟩ := run_lapRun hm (3 * 1024) fun _ => 0
  have hbytes := (lap_view_bytes (m := 1024) memory).trans (payload_lapFrame hlap)
  have hpayload : (lapView 1024 0).frame.payload = List.replicate 32 1 := rfl
  refine ⟨_, run_lapRun_succ hm hrun, lapView_mem (Nat.succ_pos _) _, hpayload, hbytes, ?_⟩
  intro heq
  have hzero := hbytes.symm.trans (heq.trans hpayload)
  exact absurd hzero (by decide)

/-- A frame is clear of the ones of the lap before it. -/
theorem clears_lapFrame {m n i : ℕ} (hi : i < n) (hn : n < 3 * m) :
    (lapFrame n).Clears (lapLog m) (lapFrame i) := by
  apply clears_of_lap
  · rw [stop_lapFrame]
    simp only [lapFrame]
    omega
  · rw [stop_lapFrame]
    simp only [lapFrame, lapLog, Frame.payloadPosition, Config.logLength, partitionCount,
      List.length_replicate]
    omega

/-- The rounds of one lap keep clear of all the views. -/
theorem meets_lapRun {m n : ℕ} (hn : n ≤ 3 * m) (memory : Memory) :
    StepMachine.Meets (step (lapLog m) dataHandler) (KeepsClear (lapLog m)) (init memory)
      (lapRun n) := by
  induction n with
  | zero => trivial
  | succ n ih =>
    obtain ⟨memory', hrun⟩ := run_lapRun (by omega : 0 < m) n memory
    have hround : lapRun (n + 1) = lapRun n ++ lapRound n := by
      rw [lapRun, List.range_succ, List.flatMap_append, List.flatMap_singleton]
      rfl
    rw [hround, StepMachine.meets_append hrun]
    refine ⟨ih (by omega), ?_, fun _ _ => ⟨trivial, fun _ _ => trivial⟩⟩
    simp only [KeepsClear, lapState, List.forall_mem_singleton, List.forall_mem_map,
      List.mem_range]
    intro i hi
    exact clears_lapFrame hi (by omega)

/-- Padding in the place of the `i`-th frame. -/
def lapPadding (i : ℕ) : Frame := { lapFrame i with padding := true }

/-- Padding takes the last place of the lap. -/
theorem step_lapPadding {m n : ℕ} (hn : n + 1 = 3 * m) (memory : Memory) :
    step (lapLog m) dataHandler (lapState m n memory) (.pad (lapPadding n)) = some
      { lapState m n memory with
        memory := ByteMemory.write memory ((lapFrame n).address (lapLog m)) (lapFrame n).bytes
        tail := (lapFrame n).next
        pending := [lapPadding n] } := by
  have hm : 0 < m := by omega
  have hlast : n % m = m - 1 := by
    rw [show n = (m - 1) + m * 2 by omega, Nat.add_mul_mod_self_left]
    exact Nat.mod_eq_of_lt (by omega)
  have hfills : (lapPadding n).position % (lapLog m).termLength + (lapPadding n).bytes.length =
      (lapLog m).termLength := by
    have hmod : 64 * n % (64 * m) = 64 * (n % m) := Nat.mul_mod_mul_left 64 n m
    show 64 * n % (64 * m) + (lapFrame n).bytes.length = 64 * m
    rw [hmod, hlast, length_lapFrame]
    omega
  have hlimit : (lapFrame n).stop ≤ (lapState m n memory).consumed + (lapLog m).logLength := by
    rw [stop_lapFrame]
    simp only [lapState, lapLog, Config.logLength, partitionCount]
    omega
  rw [step, if_pos ⟨rfl, hfills⟩]
  exact append_eq_some.mpr ⟨⟨rfl, inTerm_lapFrame hm n, hlimit⟩, rfl⟩

/-- One lap of messages with all views kept, and padding at its end: nothing is written over a
view. -/
theorem exists_paddedLap {m n : ℕ} (hn : n + 1 = 3 * m) (memory : Memory) :
    ∃ as t, as = lapRun n ++ [.pad (lapPadding n)] ∧
      StepMachine.Meets (step (lapLog m) dataHandler) (KeepsClear (lapLog m)) (init memory) as ∧
      StepMachine.run (step (lapLog m) dataHandler) (init memory) as = some t ∧
      t.views = (List.range n).map (lapView m) := by
  obtain ⟨memory', hrun⟩ := run_lapRun (by omega : 0 < m) n memory
  have hpad := step_lapPadding hn memory'
  refine ⟨_, _, rfl, ?_, StepMachine.run_append_eq_some.mpr
    ⟨_, hrun, StepMachine.run_cons_eq_some.mpr ⟨_, hpad, rfl⟩⟩, rfl⟩
  rw [StepMachine.meets_append hrun]
  refine ⟨meets_lapRun (by omega) memory, ?_, fun _ _ => trivial⟩
  simp only [KeepsClear, lapState, List.forall_mem_map, List.mem_range]
  intro i hi
  exact clears_lapFrame hi (by omega)

/-- Every view of the lap is stable. -/
theorem views_stable_one_lap :
    ∃ t, StepMachine.run (step (lapLog 1024) dataHandler) (init fun _ => 0)
        (lapRun 3071 ++ [.pad (lapPadding 3071)]) = some t ∧
      t.views = (List.range 3071).map (lapView 1024) ∧
      ∀ v ∈ t.views, v.view.bytes t.memory = v.frame.payload := by
  have hlap : 3071 + 1 = 3 * 1024 := by omega
  obtain ⟨as, t, has, hmeets, hrun, hviews⟩ := exists_paddedLap hlap fun _ => 0
  rw [← has]
  exact ⟨t, hrun, hviews, views_stable hmeets hrun⟩

end LogBuffer

end AeronPy
