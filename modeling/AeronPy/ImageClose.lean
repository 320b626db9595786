import AeronPy.Lib.StepMachine
import AeronPy.Subscription
import Mathlib.Data.List.Basic

/-!
# Closing images

A subscription with its images coming and going, fragments arriving on them, reads of
`subscription.images`, `close()` on the `Image` objects that these reads returned, and polls.

`image::close` marks the object it is called on, which is a copy: `subscription::images`
returns the images by value. `close_takes_effect` says that closing keeps its promise in every
run that closes only images the subscription no longer lists. After closing a listed one the
image can still be read open: `close_of_listed`.
-/

namespace AeronPy

namespace Images

/-- One call of the poll callback, with what it did. -/
structure Delivery where
  correlationId : ℕ
  fragment : Fragment
  call : Except PyError HandlerCall

/-- The state of one subscription. -/
structure State where
  /-- The subscription's own images. -/
  images : List Image
  /-- What is stored for each image and not yet polled, by correlation id. -/
  pending : ℕ → List Fragment
  nextCorrelationId : ℕ
  /-- The `Image` objects the program holds. -/
  held : List Image
  /-- What each read of `subscription.images` returned. -/
  reads : List (List Image)
  deliveries : List Delivery

/-- A new subscription. -/
def init : State := ⟨[], fun _ => [], 0, [], [], []⟩

/-- The actions of a run. -/
inductive Action where
  | available (session : Int32)
  | unavailable (correlationId : ℕ)
  | arrive (correlationId : ℕ) (fragment : Fragment)
  | images
  /-- `close()` on the `i`-th object held. -/
  | close (i : ℕ)
  /-- A poll that takes one fragment from each of the images, in this order. -/
  | poll (fragmentLimit : ℕ) (order : List ℕ)

/-- The subscription lists the image. -/
def State.Lists (s : State) (correlationId : ℕ) : Prop :=
  ∃ image ∈ s.images, image.correlationId = correlationId

/-- The subscription lists the image, and its own flag is not set. -/
def State.polls (s : State) (correlationId : ℕ) : Bool :=
  s.images.any fun image => image.correlationId = correlationId ∧ ¬image.isClosed

/-- Aeron delivers the next fragment of an image. It skips images whose flag is set. -/
def deliver (handler : Handler) (s : State) (correlationId : ℕ) : Option State :=
  if s.polls correlationId then
    match s.pending correlationId with
    -- nothing to deliver: this image is not the poll's next one
    | [] => none
    | fragment :: rest => some { s with
        pending := Function.update s.pending correlationId rest
        deliveries := s.deliveries ++
          [⟨correlationId, fragment, Subscription.pollCallback handler fragment⟩] }
  else none

/-- One step of the subscription and the program. -/
def step (handler : Handler) (s : State) : Action → Option State
  | .available session => some { s with
      images := s.images ++ [⟨s.nextCorrelationId, session, false, false⟩]
      nextCorrelationId := s.nextCorrelationId + 1 }
  | .unavailable correlationId => some { s with
      images := s.images.filter fun image => image.correlationId ≠ correlationId }
  | .arrive correlationId fragment =>
    if s.images.any fun image =>
        image.correlationId = correlationId ∧ image.sessionId = fragment.header.sessionId then
      some { s with pending :=
        Function.update s.pending correlationId (s.pending correlationId ++ [fragment]) }
    else none
  | .images =>
    let images := Subscription.images s.images
    some { s with held := s.held ++ images, reads := s.reads ++ [images] }
  | .close i =>
    match s.held[i]? with
    | some image => some { s with held := s.held.set i image.close }
    | none => none
  | .poll fragmentLimit order =>
    if order.length ≤ fragmentLimit then StepMachine.run (deliver handler) s order else none

variable {handler : Handler}

/-! ## What a step can do -/

theorem deliver_eq_some {s s' : State} {id : ℕ} (h : deliver handler s id = some s') :
    (∃ image ∈ s.images, image.correlationId = id ∧ image.isClosed = false) ∧
      ∃ fragment rest, s.pending id = fragment :: rest ∧ s' = { s with
        pending := Function.update s.pending id rest
        deliveries := s.deliveries ++
          [⟨id, fragment, Subscription.pollCallback handler fragment⟩] } := by
  unfold deliver at h
  split at h
  case isFalse => cases h
  case isTrue hopen =>
    obtain ⟨image, himage, hid⟩ := List.any_eq_true.mp hopen
    simp only [Bool.not_eq_true, decide_eq_true_eq] at hid
    refine ⟨⟨image, himage, hid⟩, ?_⟩
    split at h
    · cases h
    · rename_i fragment rest hpending
      exact ⟨fragment, rest, hpending, (Option.some.inj h).symm⟩

/-- Aeron's part of a poll touches only what is pending and what was delivered. -/
structure Polled (s s' : State) : Prop where
  images : s'.images = s.images
  nextCorrelationId : s'.nextCorrelationId = s.nextCorrelationId
  held : s'.held = s.held
  reads : s'.reads = s.reads
  deliveries : ∃ ds, s'.deliveries = s.deliveries ++ ds ∧ ∀ d ∈ ds, s.Lists d.correlationId

theorem polled_refl (s : State) : Polled s s :=
  ⟨rfl, rfl, rfl, rfl, [], (List.append_nil _).symm, nofun⟩

theorem polled_deliver {s s' : State} {id : ℕ} (h : deliver handler s id = some s') :
    Polled s s' := by
  obtain ⟨⟨image, himage, hid, -⟩, fragment, rest, -, rfl⟩ := deliver_eq_some h
  refine ⟨rfl, rfl, rfl, rfl, _, rfl, fun d hd => ?_⟩
  rw [List.mem_singleton.mp hd]
  exact ⟨image, himage, hid⟩

theorem polled_trans {s s₁ s₂ : State} (h : Polled s s₁) (h' : Polled s₁ s₂) : Polled s s₂ := by
  obtain ⟨ds, hds, hlists⟩ := h.deliveries
  obtain ⟨ds', hds', hlists'⟩ := h'.deliveries
  refine ⟨h'.images.trans h.images, h'.nextCorrelationId.trans h.nextCorrelationId,
    h'.held.trans h.held, h'.reads.trans h.reads, ds ++ ds', ?_, fun d hd => ?_⟩
  · rw [hds', hds, List.append_assoc]
  · rcases List.mem_append.mp hd with hd | hd
    · exact hlists d hd
    · obtain ⟨image, himage, hid⟩ := hlists' d hd
      exact ⟨image, h.images ▸ himage, hid⟩

theorem polled_run {s s' : State} {order : List ℕ}
    (h : StepMachine.run (deliver handler) s order = some s') : Polled s s' :=
  StepMachine.run_invariant (I := Polled s)
    (fun _ _ _ hpolled hdeliver => polled_trans hpolled (polled_deliver hdeliver)) h (polled_refl s)

theorem step_poll {s s' : State} {fragmentLimit : ℕ} {order : List ℕ}
    (h : step handler s (.poll fragmentLimit order) = some s') : Polled s s' := by
  simp only [step] at h
  split at h
  · exact polled_run h
  · cases h

theorem step_arrive {s s' : State} {id : ℕ} {fragment : Fragment}
    (h : step handler s (.arrive id fragment) = some s') :
    s' = { s with pending := Function.update s.pending id (s.pending id ++ [fragment]) } := by
  simp only [step] at h
  split at h
  · exact (Option.some.inj h).symm
  · cases h

theorem step_close_eq_some {s s' : State} {i : ℕ} :
    step handler s (.close i) = some s' ↔
      ∃ image, s.held[i]? = some image ∧ s' = { s with held := s.held.set i image.close } := by
  simp only [step]
  cases s.held[i]? with
  | none => exact iff_of_false nofun nofun
  | some image =>
    rw [Option.some_inj]
    exact ⟨fun h => ⟨image, rfl, h.symm⟩, fun ⟨_, himage, h⟩ => by
      rw [h, ← Option.some.inj himage]⟩

/-! ## Invariants -/

/-- Correlation ids are fresh, and no own image of the subscription is ever flagged. -/
structure Inv (s : State) : Prop where
  images_lt : ∀ image ∈ s.images, image.correlationId < s.nextCorrelationId
  held_lt : ∀ image ∈ s.held, image.correlationId < s.nextCorrelationId
  images_open : ∀ image ∈ s.images, image.isClosed = false

theorem inv_init : Inv init := ⟨nofun, nofun, nofun⟩

theorem inv_step {s s' : State} {a : Action} (hinv : Inv s) (h : step handler s a = some s') :
    Inv s' := by
  cases a with
  | available session =>
    cases h
    refine ⟨fun image himage => ?_, fun image himage => ?_, fun image himage => ?_⟩
    · rcases List.mem_append.mp himage with himage | himage
      · exact Nat.lt_succ_of_lt (hinv.images_lt image himage)
      · rw [List.mem_singleton.mp himage]
        exact Nat.lt_succ_self _
    · exact Nat.lt_succ_of_lt (hinv.held_lt image himage)
    · rcases List.mem_append.mp himage with himage | himage
      · exact hinv.images_open image himage
      · rw [List.mem_singleton.mp himage]
        rfl
  | unavailable id =>
    cases h
    exact ⟨fun image himage => hinv.images_lt image (List.mem_of_mem_filter himage), hinv.held_lt,
      fun image himage => hinv.images_open image (List.mem_of_mem_filter himage)⟩
  | arrive id fragment =>
    rw [step_arrive h]
    exact ⟨hinv.images_lt, hinv.held_lt, hinv.images_open⟩
  | images =>
    cases h
    -- the objects that a read returns are copies of the listed images
    refine ⟨hinv.images_lt, fun image himage => ?_, hinv.images_open⟩
    rcases List.mem_append.mp himage with himage | himage
    · exact hinv.held_lt image himage
    · exact hinv.images_lt image himage
  | close i =>
    obtain ⟨image, himage, rfl⟩ := step_close_eq_some.mp h
    -- the flag is set on the copy, so the own images stay open
    refine ⟨hinv.images_lt, fun image' himage' => ?_, hinv.images_open⟩
    rcases List.mem_or_eq_of_mem_set himage' with himage' | rfl
    · exact hinv.held_lt image' himage'
    · exact hinv.held_lt image (List.mem_of_getElem? himage)
  | poll fragmentLimit order =>
    have hpolled := step_poll h
    refine ⟨?_, ?_, ?_⟩
    · rw [hpolled.images, hpolled.nextCorrelationId]
      exact hinv.images_lt
    · rw [hpolled.held, hpolled.nextCorrelationId]
      exact hinv.held_lt
    · rw [hpolled.images]
      exact hinv.images_open

theorem inv_run {s : State} {as : List Action}
    (h : StepMachine.run (step handler) init as = some s) : Inv s :=
  StepMachine.run_invariant (fun _ _ _ => inv_step) h inv_init

/-- Since `s` nothing of the image was delivered or listed, and nothing will be. -/
structure SilentSince (id : ℕ) (s s' : State) : Prop where
  lt : id < s'.nextCorrelationId
  unlisted : ¬s'.Lists id
  deliveries : ∃ ds, s'.deliveries = s.deliveries ++ ds ∧ ∀ d ∈ ds, d.correlationId ≠ id
  reads : ∃ rs, s'.reads = s.reads ++ rs ∧
    ∀ read ∈ rs, ∀ image ∈ read, image.correlationId ≠ id

theorem silentSince_refl {id : ℕ} {s : State} (hlt : id < s.nextCorrelationId)
    (h : ¬s.Lists id) : SilentSince id s s :=
  ⟨hlt, h, ⟨[], (List.append_nil _).symm, nofun⟩, ⟨[], (List.append_nil _).symm, nofun⟩⟩

/-- An image that is not listed any more never comes back: a new one has a new id. -/
theorem silentSince_step {id : ℕ} {s₀ s s' : State} {a : Action} (hs : SilentSince id s₀ s)
    (h : step handler s a = some s') : SilentSince id s₀ s' := by
  obtain ⟨ds, hds, hdeliveries⟩ := hs.deliveries
  obtain ⟨rs, hrs, hreads⟩ := hs.reads
  cases a with
  | available session =>
    cases h
    refine ⟨Nat.lt_succ_of_lt hs.lt, ?_, hs.deliveries, hs.reads⟩
    rintro ⟨image, himage, hid⟩
    rcases List.mem_append.mp himage with himage | himage
    · exact hs.unlisted ⟨image, himage, hid⟩
    · -- the new image has the next id
      rw [List.mem_singleton.mp himage] at hid
      exact absurd hs.lt (hid ▸ lt_irrefl _)
  | unavailable id' =>
    cases h
    refine ⟨hs.lt, ?_, hs.deliveries, hs.reads⟩
    rintro ⟨image, himage, hid⟩
    exact hs.unlisted ⟨image, List.mem_of_mem_filter himage, hid⟩
  | arrive id' fragment =>
    rw [step_arrive h]
    exact ⟨hs.lt, hs.unlisted, hs.deliveries, hs.reads⟩
  | images =>
    cases h
    refine ⟨hs.lt, hs.unlisted, hs.deliveries, rs ++ [s.images], ?_, fun read hread => ?_⟩
    · simp only [hrs, List.append_assoc]
      rfl
    · rcases List.mem_append.mp hread with hread | hread
      · exact hreads read hread
      · rw [List.mem_singleton.mp hread]
        exact fun image himage hid => hs.unlisted ⟨image, himage, hid⟩
  | close i =>
    obtain ⟨image, -, rfl⟩ := step_close_eq_some.mp h
    exact ⟨hs.lt, hs.unlisted, hs.deliveries, hs.reads⟩
  | poll fragmentLimit order =>
    have hpolled := step_poll h
    obtain ⟨ds', hds', hlists⟩ := hpolled.deliveries
    refine ⟨hpolled.nextCorrelationId ▸ hs.lt, ?_, ⟨ds ++ ds', ?_, fun d hd => ?_⟩, ?_⟩
    · rintro ⟨image, himage, hid⟩
      exact hs.unlisted ⟨image, hpolled.images ▸ himage, hid⟩
    · rw [hds', hds, List.append_assoc]
    · rcases List.mem_append.mp hd with hd | hd
      · exact hdeliveries d hd
      · exact fun hid => hs.unlisted (hid ▸ hlists d hd)
    · rw [hpolled.reads]
      exact hs.reads

/-! ## The rest of the subscription -/

/-- The state with other objects held by the program. -/
def State.withHeld (s : State) (held : List Image) : State := { s with held }

/-- The same but for the flags of the objects the program holds. -/
def SameSubscription (s t : State) : Prop :=
  ∃ held, held.length = s.held.length ∧ t = s.withHeld held

theorem sameSubscription_close {s s' : State} {i : ℕ}
    (h : step handler s (.close i) = some s') : SameSubscription s' s := by
  obtain ⟨image, -, rfl⟩ := step_close_eq_some.mp h
  exact ⟨s.held, (List.length_set ..).symm, rfl⟩

theorem deliver_withHeld (s : State) (held : List Image) (id : ℕ) :
    deliver handler (s.withHeld held) id =
      (deliver handler s id).map fun s' => s'.withHeld held := by
  have hpolls : (s.withHeld held).polls id = s.polls id := rfl
  have hpending : (s.withHeld held).pending id = s.pending id := rfl
  rw [deliver, deliver, hpolls, hpending]
  by_cases hopen : s.polls id
  · rw [if_pos hopen, if_pos hopen]
    cases s.pending id <;> rfl
  · rw [if_neg hopen, if_neg hopen, Option.map_none]

theorem sameSubscription_deliver {s t s' : State} {id : ℕ} (hsame : SameSubscription s t)
    (h : deliver handler s id = some s') :
    ∃ t', deliver handler t id = some t' ∧ SameSubscription s' t' := by
  obtain ⟨held, hlength, rfl⟩ := hsame
  refine ⟨s'.withHeld held, ?_, held, ?_, rfl⟩
  · rw [deliver_withHeld, h, Option.map_some]
  · rw [hlength, (polled_deliver h).held]

/-- Closing an object changes nothing in what the subscription does afterwards. -/
theorem sameSubscription_step {s t s' : State} {a : Action} (hsame : SameSubscription s t)
    (h : step handler s a = some s') :
    ∃ t', step handler t a = some t' ∧ SameSubscription s' t' := by
  obtain ⟨held, hlength, rfl⟩ := id hsame
  cases a with
  | available session =>
    cases h
    exact ⟨_, rfl, held, hlength, rfl⟩
  | unavailable id =>
    cases h
    exact ⟨_, rfl, held, hlength, rfl⟩
  | arrive id fragment =>
    simp only [step] at h
    split at h
    case isFalse => cases h
    case isTrue himage =>
      cases h
      exact ⟨_, if_pos himage, held, hlength, rfl⟩
  | images =>
    cases h
    refine ⟨_, rfl, held ++ Subscription.images s.images, ?_, rfl⟩
    rw [List.length_append, List.length_append, hlength]
  | close i =>
    obtain ⟨image, himage, rfl⟩ := step_close_eq_some.mp h
    have hi : i < held.length := hlength ▸ (List.getElem?_eq_some_iff.mp himage).1
    refine ⟨_, step_close_eq_some.mpr ⟨held[i], List.getElem?_eq_getElem hi, rfl⟩,
      held.set i held[i].close, ?_, rfl⟩
    rw [List.length_set, List.length_set, hlength]
  | poll fragmentLimit order =>
    simp only [step] at h ⊢
    split at h
    case isFalse => cases h
    case isTrue hlimit =>
      rw [if_pos hlimit]
      have hdeliver : ∀ s t id s', SameSubscription s t → deliver handler s id = some s' →
          ∃ t', deliver handler t id = some t' ∧ SameSubscription s' t' :=
        fun _ _ _ _ => sameSubscription_deliver
      exact StepMachine.run_simulation hdeliver h hsame

/-! ## Closing -/

/-- A `close()` is on an image that the subscription no longer lists. -/
def ClosesUnlisted (s : State) : Action → Prop
  | .close i => ∀ image, s.held[i]? = some image → ¬s.Lists image.correlationId
  | _ => True

/-- In a run that closes only images the subscription no longer lists, a closed image is not
delivered or shown open any more, and the subscription does what it does without the close. -/
theorem close_takes_effect {as bs : List Action} {i : ℕ} {image : Image} {s t : State}
    (hmeets : StepMachine.Meets (step handler) ClosesUnlisted init (as ++ .close i :: bs))
    (hs : StepMachine.run (step handler) init as = some s) (himage : s.held[i]? = some image)
    (ht : StepMachine.run (step handler) init (as ++ .close i :: bs) = some t) :
    (∃ ds, t.deliveries = s.deliveries ++ ds ∧
      ∀ d ∈ ds, d.correlationId ≠ image.correlationId) ∧
    (∃ rs, t.reads = s.reads ++ rs ∧ ∀ read ∈ rs, ∀ image' ∈ read,
      image'.correlationId = image.correlationId → image'.isClosed = true) ∧
    ∃ t', StepMachine.run (step handler) init (as ++ bs) = some t' ∧ t'.images = t.images ∧
      t'.pending = t.pending ∧ t'.deliveries = t.deliveries ∧ t'.reads = t.reads := by
  obtain ⟨s₁, s₂, hs₁, hclose, hbs⟩ := StepMachine.run_append_cons_eq_some.mp ht
  rw [hs, Option.some_inj] at hs₁
  subst hs₁
  have hunlisted : ¬s.Lists image.correlationId :=
    ((StepMachine.meets_append hs).mp hmeets).2.1 image himage
  have hlt := (inv_run hs).held_lt image (List.mem_of_getElem? himage)
  -- from the close on, the image stays silent
  have hsilent := StepMachine.run_invariant (fun _ _ _ => silentSince_step) hbs
    (silentSince_step (silentSince_refl hlt hunlisted) hclose)
  obtain ⟨rs, hrs, hreads⟩ := hsilent.reads
  -- and the run without the close goes through the same states, but for the flags held
  obtain ⟨t', ht', held, -, hsame⟩ := StepMachine.run_simulation
    (fun _ _ _ _ => sameSubscription_step) hbs (sameSubscription_close hclose)
  refine ⟨hsilent.deliveries, ⟨rs, hrs, fun read hread image' himage' hid => ?_⟩, t', ?_⟩
  · exact absurd hid (hreads read hread image' himage')
  · subst hsame
    exact ⟨StepMachine.run_append_eq_some.mpr ⟨s, hs, ht'⟩, rfl, rfl, rfl, rfl⟩

/-- The images of sessions `7` and `9` become available, are read, and the first goes. -/
def firstGone : List Action := [.available 7, .available 9, .images, .unavailable 0]

theorem close_takes_effect_unavailable :
    ∃ t, StepMachine.run (step dataHandler) init (firstGone ++ [.close 0, .images]) = some t ∧
      ∃ rs, t.reads = [[⟨0, 7, false, false⟩, ⟨1, 9, false, false⟩]] ++ rs ∧
        ∀ read ∈ rs, ∀ image ∈ read, image.correlationId = 0 → image.isClosed = true := by
  have hmeets : StepMachine.Meets (step dataHandler) ClosesUnlisted init
      (firstGone ++ [.close 0, .images]) := by
    refine ⟨trivial, fun _ h₁ => ⟨trivial, fun _ h₂ => ⟨trivial, fun _ h₃ => ⟨trivial,
      fun _ h₄ => ?_⟩⟩⟩⟩
    cases h₁
    cases h₂
    cases h₃
    cases h₄
    refine ⟨fun image himage => ?_, fun _ _ => ⟨trivial, fun _ _ => trivial⟩⟩
    cases himage
    rintro ⟨own, hown, hid⟩
    rw [show own = ⟨1, 9, false, false⟩ from List.mem_singleton.mp hown] at hid
    cases hid
  have heffect := close_takes_effect hmeets rfl rfl rfl
  exact ⟨_, rfl, heffect.2.1⟩

/-- One fragment of session `7`. -/
def sevenFragment : Fragment := ⟨⟨0, 64⟩, 32, 1, ⟨5, 7⟩⟩

/-- The image of session `7` is read and closed: the next read still lists it open, and the
next poll delivers its fragment. -/
theorem closed_image_delivered :
    ∃ t, StepMachine.run (step dataHandler) init
        [.available 7, .arrive 0 sevenFragment, .images, .close 0, .images, .poll 1 [0]] = some t ∧
      t.held[0]? = some ⟨0, 7, false, true⟩ ∧
      t.reads = [[⟨0, 7, false, false⟩], [⟨0, 7, false, false⟩]] ∧
      t.deliveries.map (fun d => (d.correlationId, d.fragment)) = [(0, sevenFragment)] :=
  ⟨_, rfl, rfl, rfl, rfl⟩

/-- Closing an image that is listed does not show in a read right after it: the image is open. -/
theorem close_of_listed {as : List Action} {i : ℕ} {image : Image} {s : State}
    (hs : StepMachine.run (step handler) init as = some s) (himage : s.held[i]? = some image)
    (hlisted : s.Lists image.correlationId) :
    ∃ t read, StepMachine.run (step handler) init (as ++ [.close i, .images]) = some t ∧
      t.reads = s.reads ++ [read] ∧
      ∃ image' ∈ read, image'.correlationId = image.correlationId ∧ image'.isClosed = false := by
  obtain ⟨image', himage', hid⟩ := hlisted
  have hopen := (inv_run hs).images_open image' himage'
  have hclose : step handler s (.close i) = some (s.withHeld (s.held.set i image.close)) :=
    step_close_eq_some.mpr ⟨image, himage, rfl⟩
  have hread := StepMachine.run_cons_eq_some.mpr ⟨_, hclose, StepMachine.run_cons_eq_some.mpr
    ⟨_, show step handler _ .images = some _ from rfl, StepMachine.run_nil _⟩⟩
  exact ⟨_, s.images, StepMachine.run_append_eq_some.mpr ⟨s, hs, hread⟩, rfl, image', himage',
    hid, hopen⟩

end Images

end AeronPy
