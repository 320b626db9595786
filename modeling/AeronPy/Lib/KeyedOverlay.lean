import Mathlib.Data.List.Nodup
import Mathlib.Logic.Function.Basic
import Mathlib.Tactic.Common

/-!
# Settings overlaid from a dictionary

A configuration is a family `s : ∀ i, σ i` of settings. A `Branch` reads one key of a
dictionary `d`: where the key is present its value is converted, which may fail, give the new
value of the branch's setting, or leave the setting alone. `overlay` takes the branches in
order and stops at the first that fails.

* `overlay_eq_error_iff`: the error is the one of the first branch that fails, and
  `Rejects` says that there is one;
* `Overlays`, `overlay_eq_ok_iff`: the result, setting by setting, for branches of distinct
  settings;
* `Faithful`: what such an overlay is for, and `faithful_iff` which settings have it.
-/

namespace KeyedOverlay

variable {ι K V E : Type} {σ : ι → Type}

/-- One branch: the key it looks up, the setting it writes, and how it converts a value. -/
structure Branch (ι K V E : Type) (σ : ι → Type) where
  key : K
  setting : ι
  convert : V → Except E (Option (σ setting))

namespace Branch

/-- What the branch makes of the dictionary. -/
def value (b : Branch ι K V E σ) (d : K → Option V) : Except E (Option (σ b.setting)) :=
  match d b.key with
  | none => .ok none
  | some v => b.convert v

theorem value_of_none {b : Branch ι K V E σ} {d : K → Option V} (h : d b.key = none) :
    b.value d = .ok none := by
  rw [value, h]

theorem value_of_some {b : Branch ι K V E σ} {d : K → Option V} {v : V}
    (h : d b.key = some v) : b.value d = b.convert v := by
  rw [value, h]

theorem value_congr {b : Branch ι K V E σ} {d d' : K → Option V} (h : d b.key = d' b.key) :
    b.value d = b.value d' := by
  rw [value, value, h]

variable [DecidableEq ι]

/-- Take the branch. -/
def apply (b : Branch ι K V E σ) (d : K → Option V) (s : ∀ i, σ i) : Except E (∀ i, σ i) := do
  match ← b.value d with
  | none => return s
  | some x => return Function.update s b.setting x

theorem apply_of_error {b : Branch ι K V E σ} {d : K → Option V} {e : E}
    (h : b.value d = .error e) (s : ∀ i, σ i) : b.apply d s = .error e := by
  rw [apply, h]
  rfl

/-- A branch that does not fail sets its own setting and no other. -/
theorem apply_of_ok {b : Branch ι K V E σ} {d : K → Option V} {o : Option (σ b.setting)}
    (h : b.value d = .ok o) (s : ∀ i, σ i) :
    b.apply d s = .ok (Function.update s b.setting (o.getD (s b.setting))) := by
  rw [apply, h]
  cases o with
  | none => exact congrArg Except.ok (Function.update_eq_self b.setting s).symm
  | some x => rfl

end Branch

/-! ## Failure -/

/-- The error of the first branch that fails. -/
def failure (branches : List (Branch ι K V E σ)) (d : K → Option V) : Option E :=
  branches.findSome? fun b =>
    match b.value d with
    | .error e => some e
    | .ok _ => none

theorem failure_cons_error {b : Branch ι K V E σ} {d : K → Option V} {e : E}
    (h : b.value d = .error e) (branches : List (Branch ι K V E σ)) :
    failure (b :: branches) d = some e := by
  rw [failure, List.findSome?_cons, h]

theorem failure_cons_ok {b : Branch ι K V E σ} {d : K → Option V} {o : Option (σ b.setting)}
    (h : b.value d = .ok o) (branches : List (Branch ι K V E σ)) :
    failure (b :: branches) d = failure branches d := by
  rw [failure, List.findSome?_cons, h, failure]

/-- The branches of a list are taken before those appended to it. -/
theorem failure_append (as bs : List (Branch ι K V E σ)) (d : K → Option V) :
    failure (as ++ bs) d = (failure as d).or (failure bs d) :=
  List.findSome?_append

theorem failure_eq_none_iff {branches : List (Branch ι K V E σ)} {d : K → Option V} :
    failure branches d = none ↔ ∀ b ∈ branches, ∃ o, b.value d = .ok o := by
  rw [failure, List.findSome?_eq_none_iff]
  refine forall₂_congr fun b _ => ?_
  cases b.value d with
  | error e => exact iff_of_false nofun fun ⟨o, ho⟩ => nomatch ho
  | ok o => exact iff_of_true rfl ⟨o, rfl⟩

/-- An error comes from one of the branches. -/
theorem exists_of_failure {branches : List (Branch ι K V E σ)} {d : K → Option V} {e : E}
    (h : failure branches d = some e) : ∃ b ∈ branches, b.value d = .error e := by
  obtain ⟨b, hb, hvalue⟩ := List.exists_of_findSome?_eq_some h
  refine ⟨b, hb, ?_⟩
  cases hb' : b.value d with
  | error e' =>
    rw [hb'] at hvalue
    exact congrArg Except.error (Option.some.inj hvalue)
  | ok o =>
    rw [hb'] at hvalue
    cases hvalue

/-- The error is that of a branch that fails where no earlier one does. -/
theorem failure_eq_some_iff {branches : List (Branch ι K V E σ)} {d : K → Option V} {e : E} :
    failure branches d = some e ↔
      ∃ before b later, branches = before ++ b :: later ∧ b.value d = .error e ∧
        ∀ b' ∈ before, ∃ o, b'.value d = .ok o := by
  induction branches with
  | nil =>
    apply iff_of_false nofun
    intro h
    obtain ⟨before, b, later, hnil, -⟩ := h
    exact List.append_ne_nil_of_right_ne_nil before (List.cons_ne_nil b later) hnil.symm
  | cons a branches ih =>
    cases hvalue : a.value d with
    | error e' =>
      rw [failure_cons_error hvalue, Option.some_inj]
      constructor
      · intro he
        exact ⟨[], a, branches, rfl, he ▸ hvalue, nofun⟩
      · intro h
        obtain ⟨before, b, later, hsplit, herror, hbefore⟩ := h
        cases before with
        | nil =>
          cases hsplit
          rw [hvalue] at herror
          exact Except.error.inj herror
        | cons a' before =>
          cases hsplit
          obtain ⟨o, ho⟩ := hbefore a List.mem_cons_self
          rw [hvalue] at ho
          cases ho
    | ok o =>
      rw [failure_cons_ok hvalue, ih]
      constructor
      · intro h
        obtain ⟨before, b, later, hsplit, herror, hbefore⟩ := h
        refine ⟨a :: before, b, later, ?_, herror, ?_⟩
        · rw [hsplit, List.cons_append]
        · exact List.forall_mem_cons.mpr ⟨⟨o, hvalue⟩, hbefore⟩
      · intro h
        obtain ⟨before, b, later, hsplit, herror, hbefore⟩ := h
        cases before with
        | nil =>
          cases hsplit
          rw [hvalue] at herror
          cases herror
        | cons a' before =>
          cases hsplit
          exact ⟨before, b, later, rfl, herror, (List.forall_mem_cons.mp hbefore).2⟩

/-- Some branch fails. -/
def Rejects (branches : List (Branch ι K V E σ)) (d : K → Option V) : Prop :=
  ∃ b ∈ branches, ∃ e, b.value d = .error e

theorem failure_eq_none_iff_not_rejects {branches : List (Branch ι K V E σ)}
    {d : K → Option V} : failure branches d = none ↔ ¬Rejects branches d := by
  rw [failure_eq_none_iff]
  constructor
  · rintro hall ⟨b, hb, e, he⟩
    obtain ⟨o, ho⟩ := hall b hb
    rw [ho] at he
    cases he
  · intro hrejects b hb
    cases hvalue : b.value d with
    | error e => exact absurd ⟨b, hb, e, hvalue⟩ hrejects
    | ok o => exact ⟨o, rfl⟩

theorem rejects_append {as bs : List (Branch ι K V E σ)} {d : K → Option V} :
    Rejects (as ++ bs) d ↔ Rejects as d ∨ Rejects bs d := by
  simp only [Rejects, List.mem_append, or_and_right, exists_or]

/-! ## The overlay -/

variable [DecidableEq ι]

/-- Take the branches in order. -/
def overlay (branches : List (Branch ι K V E σ)) (d : K → Option V) (s : ∀ i, σ i) :
    Except E (∀ i, σ i) :=
  branches.foldlM (fun s b => b.apply d s) s

@[simp] theorem overlay_nil (d : K → Option V) (s : ∀ i, σ i) :
    overlay ([] : List (Branch ι K V E σ)) d s = .ok s := rfl

theorem overlay_cons_error {b : Branch ι K V E σ} {d : K → Option V} {e : E}
    (h : b.value d = .error e) (branches : List (Branch ι K V E σ)) (s : ∀ i, σ i) :
    overlay (b :: branches) d s = .error e := by
  rw [overlay, List.foldlM_cons, Branch.apply_of_error h]
  rfl

theorem overlay_cons_ok {b : Branch ι K V E σ} {d : K → Option V} {o : Option (σ b.setting)}
    (h : b.value d = .ok o) (branches : List (Branch ι K V E σ)) (s : ∀ i, σ i) :
    overlay (b :: branches) d s =
      overlay branches d (Function.update s b.setting (o.getD (s b.setting))) := by
  rw [overlay, List.foldlM_cons, Branch.apply_of_ok h]
  rfl

/-- The overlay fails exactly where a branch does, with the error of the first one. -/
theorem overlay_eq_error_iff {branches : List (Branch ι K V E σ)} {d : K → Option V}
    {s : ∀ i, σ i} {e : E} : overlay branches d s = .error e ↔ failure branches d = some e := by
  induction branches generalizing s with
  | nil => exact iff_of_false nofun nofun
  | cons b branches ih =>
    cases hvalue : b.value d with
    | error e' =>
      rw [overlay_cons_error hvalue, failure_cons_error hvalue, Except.error.injEq,
        Option.some_inj]
    | ok o => rw [overlay_cons_ok hvalue, failure_cons_ok hvalue, ih]

theorem exists_overlay_iff {branches : List (Branch ι K V E σ)} {d : K → Option V}
    {s : ∀ i, σ i} : (∃ t, overlay branches d s = .ok t) ↔ failure branches d = none := by
  cases h : overlay branches d s with
  | error e =>
    rw [overlay_eq_error_iff.mp h]
    exact iff_of_false nofun nofun
  | ok t =>
    refine iff_of_true ⟨t, rfl⟩ (Option.eq_none_iff_forall_ne_some.mpr fun e he => ?_)
    rw [overlay_eq_error_iff.mpr he] at h
    cases h

/-- `t` is `s` with each branch's setting as the branch has it, and every other as it was. -/
structure Overlays (branches : List (Branch ι K V E σ)) (d : K → Option V) (s t : ∀ i, σ i) :
    Prop where
  sets : ∀ b ∈ branches, ∃ o, b.value d = .ok o ∧ t b.setting = o.getD (s b.setting)
  frame : ∀ i ∉ branches.map Branch.setting, t i = s i

omit [DecidableEq ι] in
theorem overlays_nil {d : K → Option V} {s t : ∀ i, σ i} :
    Overlays ([] : List (Branch ι K V E σ)) d s t ↔ s = t :=
  ⟨fun h => funext fun i => (h.frame i List.not_mem_nil).symm,
    fun h => ⟨nofun, fun i _ => (congrFun h i).symm⟩⟩

/-- A first branch of a setting that no later one has can be taken beforehand. -/
theorem overlays_cons {b : Branch ι K V E σ} {branches : List (Branch ι K V E σ)}
    {d : K → Option V} {o : Option (σ b.setting)} {s t : ∀ i, σ i} (hvalue : b.value d = .ok o)
    (hfresh : b.setting ∉ branches.map Branch.setting) :
    Overlays (b :: branches) d s t ↔
      Overlays branches d (Function.update s b.setting (o.getD (s b.setting))) t := by
  -- the update is out of sight of the later branches
  have hother : ∀ b' ∈ branches,
      Function.update s b.setting (o.getD (s b.setting)) b'.setting = s b'.setting := by
    intro b' hb'
    have hne : b'.setting ≠ b.setting := fun h => hfresh (h ▸ List.mem_map_of_mem hb')
    exact Function.update_of_ne hne _ _
  constructor
  · rintro ⟨hsets, hframe⟩
    refine ⟨fun b' hb' => ?_, fun i hi => ?_⟩
    · rw [hother b' hb']
      exact hsets b' (List.mem_cons_of_mem _ hb')
    · by_cases hib : i = b.setting
      · obtain ⟨o', ho', ht⟩ := hsets b List.mem_cons_self
        rw [hvalue, Except.ok.injEq] at ho'
        rw [hib, Function.update_self, ht, ho']
      · rw [Function.update_of_ne hib]
        refine hframe i ?_
        rw [List.map_cons, List.mem_cons, not_or]
        exact ⟨hib, hi⟩
  · rintro ⟨hsets, hframe⟩
    refine ⟨fun b' hb' => ?_, fun i hi => ?_⟩
    · rcases List.mem_cons.mp hb' with rfl | hb'
      · exact ⟨o, hvalue, by rw [hframe b'.setting hfresh, Function.update_self]⟩
      · rw [← hother b' hb']
        exact hsets b' hb'
    · rw [List.map_cons, List.mem_cons, not_or] at hi
      rw [hframe i hi.2, Function.update_of_ne hi.1]

/-- The result of an overlay whose branches have distinct settings. -/
theorem overlay_eq_ok_iff {branches : List (Branch ι K V E σ)}
    (hnodup : (branches.map Branch.setting).Nodup) {d : K → Option V} {s t : ∀ i, σ i} :
    overlay branches d s = .ok t ↔ Overlays branches d s t := by
  induction branches generalizing s with
  | nil => rw [overlay_nil, Except.ok.injEq, overlays_nil]
  | cons b branches ih =>
    rw [List.map_cons, List.nodup_cons] at hnodup
    cases hvalue : b.value d with
    | error e =>
      rw [overlay_cons_error hvalue]
      -- a branch that fails sets nothing
      refine iff_of_false nofun fun h => ?_
      obtain ⟨o, ho, -⟩ := h.sets b List.mem_cons_self
      rw [hvalue] at ho
      cases ho
    | ok o => rw [overlay_cons_ok hvalue, ih hnodup.2, overlays_cons hvalue hnodup.1]

/-- Dictionaries that the branches make the same of are overlaid alike. -/
theorem overlay_congr {branches : List (Branch ι K V E σ)} {d d' : K → Option V}
    (h : ∀ b ∈ branches, b.value d = b.value d') (s : ∀ i, σ i) :
    overlay branches d s = overlay branches d' s := by
  induction branches generalizing s with
  | nil => rfl
  | cons b branches ih =>
    have hb := h b List.mem_cons_self
    have htail := ih fun b' hb' => h b' (List.mem_cons_of_mem _ hb')
    cases hvalue : b.value d with
    | error e => rw [overlay_cons_error hvalue, overlay_cons_error (hb ▸ hvalue)]
    | ok o => rw [overlay_cons_ok hvalue, overlay_cons_ok (hb ▸ hvalue), htail]

/-! ## What an overlay is for -/

/-- The value of a setting is the one the dictionary gives under the setting's key, in the
sense of `means`, and the one below where the key is absent. -/
def Faithful (key : ι → K) (means : ∀ i, V → σ i → Prop) (d : K → Option V) (s t : ∀ i, σ i)
    (i : ι) : Prop :=
  match d (key i) with
  | some v => means i v (t i)
  | none => t i = s i

/-- A branch makes its setting faithful exactly when what it stores is what the dictionary
gives. -/
theorem faithful_iff {branches : List (Branch ι K V E σ)}
    (hnodup : (branches.map Branch.setting).Nodup) {key : ι → K} (means : ∀ i, V → σ i → Prop)
    {d : K → Option V} {s t : ∀ i, σ i} (h : overlay branches d s = .ok t)
    {b : Branch ι K V E σ} (hb : b ∈ branches) (hkey : b.key = key b.setting) :
    Faithful key means d s t b.setting ↔
      ∀ v o, d b.key = some v → b.convert v = .ok o →
        means b.setting v (o.getD (s b.setting)) := by
  obtain ⟨o, hvalue, ht⟩ := ((overlay_eq_ok_iff hnodup).mp h).sets b hb
  rw [Faithful, ← hkey, ht]
  cases hd : d b.key with
  | none =>
    rw [Branch.value_of_none hd, Except.ok.injEq] at hvalue
    exact iff_of_true (hvalue ▸ rfl) nofun
  | some v =>
    rw [Branch.value_of_some hd] at hvalue
    constructor
    · intro hmeans v' o' hv' ho'
      rw [← Option.some.inj hv', hvalue, Except.ok.injEq] at ho'
      rw [← Option.some.inj hv', ← ho']
      exact hmeans
    · intro hall
      exact hall v o rfl hvalue

end KeyedOverlay
