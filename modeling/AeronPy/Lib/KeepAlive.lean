import Mathlib.Algebra.Order.BigOperators.Group.Finset
import Mathlib.Data.Finset.Card
import Mathlib.Data.List.Basic
import Mathlib.Logic.Function.Basic

/-!
# Reference counts with keep-alive references

A heap of objects that are counted by references. An object may keep an older one alive, its
patient: it holds a reference to it until it is finalised itself. Dropping a reference
finalises the object when that was the last one, then drops the reference to its patient, and
so on.

* `alloc`, `retain`, `release`: a new object, one more reference, one reference less;
* `Counted`: every count is what is held from outside plus the nurses that are alive, and the
  finalised objects are those without a reference, each after its nurses;
* `Reachable`, `alive_iff`: an object is alive iff something held keeps it alive.
-/

namespace KeepAlive

/-- The objects `0, 1, …` up to `next`. -/
structure Heap where
  next : ℕ
  patient : ℕ → Option ℕ
  refs : ℕ → ℕ
  /-- The finalised objects, in order. -/
  finalised : List ℕ

def empty : Heap := ⟨0, fun _ => none, fun _ => 0, []⟩

namespace Heap

/-- A new object with one reference to it, and one from it to its patient. -/
def alloc (h : Heap) (patient : Option ℕ) : Heap where
  next := h.next + 1
  patient := Function.update h.patient h.next patient
  refs n := (if n = h.next then 1 else h.refs n) + if patient = some n then 1 else 0
  finalised := h.finalised

/-- One more reference. -/
def retain (h : Heap) (o : ℕ) : Heap :=
  { h with refs := Function.update h.refs o (h.refs o + 1) }

/-- One reference less, without what follows from it. -/
def decRef (h : Heap) (o : ℕ) : Heap :=
  { h with refs := Function.update h.refs o (h.refs o - 1) }

def finalise (h : Heap) (o : ℕ) : Heap :=
  { h with finalised := h.finalised ++ [o] }

/-- One reference less, for at most `fuel` objects in turn. -/
def releaseChain : ℕ → Heap → ℕ → Heap
  | 0, h, _ => h
  | fuel + 1, h, o =>
    if h.refs o = 1 then
      match h.patient o with
      | some p => releaseChain fuel ((h.decRef o).finalise o) p
      | none => (h.decRef o).finalise o
    else h.decRef o

/-- One reference less. A patient is older than its nurses, so the chain is no longer than `o`. -/
def release (h : Heap) (o : ℕ) : Heap := h.releaseChain (o + 1) o

/-- The object has not been finalised. -/
def Alive (h : Heap) (o : ℕ) : Prop := 0 < h.refs o

instance (h : Heap) (o : ℕ) : Decidable (h.Alive o) := inferInstanceAs (Decidable (_ < _))

/-- The objects that keep `o` alive. -/
def nurses (h : Heap) (o : ℕ) : Finset ℕ :=
  (Finset.range h.next).filter fun n => h.patient n = some o ∧ h.Alive n

theorem mem_nurses {h : Heap} {n o : ℕ} :
    n ∈ h.nurses o ↔ n < h.next ∧ h.patient n = some o ∧ h.Alive n := by
  rw [nurses, Finset.mem_filter, Finset.mem_range]

end Heap

/-! ## Counts -/

/-- `held` counts the references from outside; `spare` is an object with one more, which is
about to be dropped. -/
structure Counted (h : Heap) (held : ℕ → ℕ) (spare : Option ℕ) : Prop where
  patient_lt : ∀ n p, h.patient n = some p → p < n ∧ n < h.next
  refs_eq : ∀ o, h.refs o = held o + (h.nurses o).card + if spare = some o then 1 else 0
  lt_next : ∀ o, h.Alive o → o < h.next
  mem_finalised : ∀ o, o ∈ h.finalised ↔ o < h.next ∧ ¬h.Alive o
  nodup : h.finalised.Nodup
  ordered : ∀ n p, h.patient n = some p → p ∈ h.finalised → [n, p].Sublist h.finalised

variable {h : Heap} {held : ℕ → ℕ} {o : ℕ}

theorem counted_empty : Counted empty (fun _ => 0) none where
  patient_lt _ _ hp := by cases hp
  refs_eq o := by simp [empty, Heap.nurses]
  lt_next o ho := by simp [empty, Heap.Alive] at ho
  mem_finalised o := by simp [empty]
  nodup := List.nodup_nil
  ordered _ _ hp := by cases hp

/-- Counts that are positive where they were keep the same objects alive. -/
theorem nurses_congr (h h' : Heap) (hnext : h'.next = h.next) (hpatient : h'.patient = h.patient)
    (halive : ∀ n, h'.Alive n ↔ h.Alive n) (o : ℕ) : h'.nurses o = h.nurses o := by
  ext n
  rw [Heap.mem_nurses, Heap.mem_nurses, hnext, hpatient, halive]

/-- A reference more or less to an object that stays alive. -/
theorem Counted.congr {held' : ℕ → ℕ} {spare spare' : Option ℕ} {refs : ℕ → ℕ}
    (hc : Counted h held spare) (halive : ∀ n, 0 < refs n ↔ h.Alive n)
    (hrefs : ∀ n, refs n = held' n + (h.nurses n).card + if spare' = some n then 1 else 0) :
    Counted { h with refs } held' spare' := by
  have hiff : ∀ n, Heap.Alive { h with refs } n ↔ h.Alive n := halive
  constructor
  · exact hc.patient_lt
  · intro n
    rw [nurses_congr h { h with refs } rfl rfl hiff]
    exact hrefs n
  · intro n hn
    exact hc.lt_next n ((hiff n).mp hn)
  · intro n
    rw [hiff]
    exact hc.mem_finalised n
  · exact hc.nodup
  · exact hc.ordered

/-- A reference more to an object that is alive. -/
theorem counted_retain (hc : Counted h held none) (ho : h.Alive o) :
    Counted (h.retain o) (Function.update held o (held o + 1)) none := by
  apply hc.congr
  · intro n
    by_cases hn : n = o
    · subst hn
      rw [Function.update_self]
      exact iff_of_true (Nat.succ_pos _) ho
    · rw [Function.update_of_ne hn]
      exact Iff.rfl
  · intro n
    have hrefs := hc.refs_eq n
    simp only [reduceCtorEq, if_false] at hrefs ⊢
    by_cases hn : n = o
    · subst hn
      rw [Function.update_self, Function.update_self]
      omega
    · rw [Function.update_of_ne hn, Function.update_of_ne hn]
      exact hrefs

/-! ## New objects -/

/-- A new object, with a patient that is alive if it has one. -/
theorem counted_alloc (hc : Counted h held none) {patient : Option ℕ}
    (hpatient : ∀ p, patient = some p → h.Alive p) :
    Counted (h.alloc patient) (Function.update held h.next 1) none := by
  have hdead : h.refs h.next = 0 := by
    by_contra hne
    exact lt_irrefl _ (hc.lt_next h.next (Nat.pos_of_ne_zero hne))
  have hne : ∀ p, patient = some p → p ≠ h.next := by
    intro p hp
    exact (hc.lt_next p (hpatient p hp)).ne
  have halive : ∀ n, (h.alloc patient).Alive n ↔ n = h.next ∨ h.Alive n := by
    intro n
    unfold Heap.Alive Heap.alloc
    by_cases hn : n = h.next
    · simp [hn]
    · by_cases hp : patient = some n
      · have hpos := hpatient n hp
        unfold Heap.Alive at hpos
        simp only [hn, hp, if_false, if_true, false_or]
        omega
      · simp [hn, hp]
  have hnext : (h.alloc patient).patient h.next = patient := Function.update_self ..
  have hold : ∀ n, n ≠ h.next → (h.alloc patient).patient n = h.patient n :=
    fun n hn => Function.update_of_ne hn ..
  -- the new object is one more nurse of its patient
  have hnurses : ∀ o, (h.alloc patient).nurses o =
      if patient = some o then insert h.next (h.nurses o) else h.nurses o := by
    intro o
    have hmem : ∀ n, n ∈ (h.alloc patient).nurses o ↔
        n = h.next ∧ patient = some o ∨ n ∈ h.nurses o := by
      intro n
      rw [Heap.mem_nurses, Heap.mem_nurses, halive]
      by_cases hn : n = h.next
      · subst hn
        rw [hnext]
        simp [Heap.alloc]
      · rw [hold n hn]
        have hlt : n < h.next + 1 ↔ n < h.next := by omega
        simp [Heap.alloc, hn, hlt]
    ext n
    rw [hmem]
    by_cases hp : patient = some o
    · simp [hp]
    · simp [hp]
  have hfresh : ∀ o, h.next ∉ h.nurses o := by
    intro o hmem
    exact lt_irrefl _ (Heap.mem_nurses.mp hmem).1
  constructor
  · intro n p hp
    by_cases hn : n = h.next
    · subst hn
      rw [hnext] at hp
      exact ⟨hc.lt_next p (hpatient p hp), Nat.lt_succ_self _⟩
    · rw [hold n hn] at hp
      obtain ⟨hlt, hlt'⟩ := hc.patient_lt n p hp
      exact ⟨hlt, Nat.lt_succ_of_lt hlt'⟩
  · intro o
    have hrefs := hc.refs_eq o
    rw [hnurses]
    simp only [reduceCtorEq, if_false, add_zero] at hrefs ⊢
    unfold Heap.alloc
    by_cases ho : o = h.next
    · -- nothing keeps the new object alive but what it is returned to
      subst ho
      have hp : patient ≠ some h.next := fun hp => hne _ hp rfl
      simp only [if_true, if_neg hp, Function.update_self]
      omega
    · simp only [if_neg ho, Function.update_of_ne ho]
      by_cases hp : patient = some o
      · rw [if_pos hp, if_pos hp, Finset.card_insert_of_notMem (hfresh o)]
        omega
      · rw [if_neg hp, if_neg hp]
        omega
  · intro o ho
    rcases (halive o).mp ho with rfl | ho
    · exact Nat.lt_succ_self _
    · exact Nat.lt_succ_of_lt (hc.lt_next o ho)
  · intro o
    rw [halive]
    change o ∈ h.finalised ↔ o < h.next + 1 ∧ _
    rw [hc.mem_finalised]
    constructor
    · rintro ⟨hlt, hnot⟩
      refine ⟨Nat.lt_succ_of_lt hlt, ?_⟩
      rintro (ho | ho)
      · exact hlt.ne ho
      · exact hnot ho
    · rintro ⟨hlt, hnot⟩
      rw [not_or] at hnot
      exact ⟨lt_of_le_of_ne (Nat.lt_succ_iff.mp hlt) hnot.1, hnot.2⟩
  · exact hc.nodup
  · intro n p hp hmem
    by_cases hn : n = h.next
    · -- the patient of the new object is alive
      subst hn
      rw [hnext] at hp
      exact absurd (hpatient p hp) ((hc.mem_finalised p).mp hmem).2
    · rw [hold n hn] at hp
      exact hc.ordered n p hp hmem

/-! ## Releases -/

/-- The dropped reference was not the last one. -/
theorem counted_decRef (hc : Counted h held (some o)) (ho : h.refs o ≠ 1) :
    Counted (h.decRef o) held none := by
  have hrefs := hc.refs_eq o
  rw [if_pos rfl] at hrefs
  apply hc.congr
  · intro n
    by_cases hn : n = o
    · subst hn
      rw [Function.update_self]
      unfold Heap.Alive
      omega
    · rw [Function.update_of_ne hn]
      exact Iff.rfl
  · intro n
    by_cases hn : n = o
    · subst hn
      rw [Function.update_self]
      simp only [reduceCtorEq, if_false]
      omega
    · have hn' := hc.refs_eq n
      rw [if_neg (fun hs => hn (Option.some.inj hs).symm)] at hn'
      rw [Function.update_of_ne hn]
      simp only [reduceCtorEq, if_false]
      exact hn'

/-- The dropped reference was the last one: the object is finalised, and the reference to its
patient is the next to be dropped. -/
theorem counted_finalise (hc : Counted h held (some o)) (ho : h.refs o = 1) :
    Counted ((h.decRef o).finalise o) held (h.patient o) := by
  have hrefs := hc.refs_eq o
  rw [if_pos rfl] at hrefs
  have halive : h.Alive o := by
    unfold Heap.Alive
    omega
  have hlt := hc.lt_next o halive
  -- nothing is left that keeps the object alive
  have hheld : held o = 0 := by omega
  have hnone : h.nurses o = ∅ := by
    apply Finset.card_eq_zero.mp
    omega
  have hself : ∀ p, h.patient o = some p → p ≠ o := by
    intro p hp
    exact (hc.patient_lt o p hp).1.ne
  have halive' : ∀ n, ((h.decRef o).finalise o).Alive n ↔ n ≠ o ∧ h.Alive n := by
    intro n
    unfold Heap.Alive Heap.finalise Heap.decRef
    by_cases hn : n = o
    · subst hn
      simp [ho]
    · simp [hn]
  have hnurses : ∀ q, ((h.decRef o).finalise o).nurses q = (h.nurses q).erase o := by
    intro q
    ext n
    rw [Finset.mem_erase, Heap.mem_nurses, Heap.mem_nurses, halive']
    change n < h.next ∧ h.patient n = some q ∧ n ≠ o ∧ h.Alive n ↔
      n ≠ o ∧ n < h.next ∧ h.patient n = some q ∧ h.Alive n
    tauto
  constructor
  · exact hc.patient_lt
  · intro q
    rw [hnurses]
    by_cases hq : q = o
    · subst hq
      have hp : h.patient q ≠ some q := fun hp => hself q hp rfl
      rw [hnone, if_neg hp, hheld]
      simp [Heap.finalise, Heap.decRef, ho]
    · have hrefsq := hc.refs_eq q
      rw [if_neg (fun hs => hq (Option.some.inj hs).symm)] at hrefsq
      have hsame : ((h.decRef o).finalise o).refs q = h.refs q := Function.update_of_ne hq ..
      rw [hsame]
      by_cases hp : h.patient o = some q
      · -- one nurse less
        have hmem : o ∈ h.nurses q := Heap.mem_nurses.mpr ⟨hlt, hp, halive⟩
        have hcard := Finset.card_erase_add_one hmem
        rw [if_pos hp]
        omega
      · have hmem : o ∉ h.nurses q := fun hmem => hp (Heap.mem_nurses.mp hmem).2.1
        rw [if_neg hp, Finset.erase_eq_of_notMem hmem]
        exact hrefsq
  · intro n hn
    exact hc.lt_next n ((halive' n).mp hn).2
  · intro n
    rw [halive']
    change n ∈ h.finalised ++ [o] ↔ n < h.next ∧ _
    rw [List.mem_append, List.mem_singleton, hc.mem_finalised]
    by_cases hn : n = o
    · subst hn
      simp [hlt]
    · simp [hn]
  · change (h.finalised ++ [o]).Nodup
    apply List.nodup_append.mpr
    refine ⟨hc.nodup, List.nodup_singleton o, ?_⟩
    intro a ha b hb hab
    rw [List.mem_singleton.mp hb] at hab
    subst hab
    exact ((hc.mem_finalised a).mp ha).2 halive
  · intro n p hp hmem
    rcases List.mem_append.mp hmem with hold | hnew
    · exact (hc.ordered n p hp hold).trans (List.sublist_append_left _ _)
    · -- the nurses of the object are finalised already
      have hpo := List.mem_singleton.mp hnew
      subst hpo
      have hdead : ¬h.Alive n := by
        intro hn
        have hn' : n ∈ h.nurses p :=
          Heap.mem_nurses.mpr ⟨(hc.patient_lt n p hp).2, hp, hn⟩
        rw [hnone] at hn'
        cases hn'
      have hn := (hc.mem_finalised n).mpr ⟨(hc.patient_lt n p hp).2, hdead⟩
      exact (List.singleton_sublist.mpr hn).append (List.Sublist.refl [p])

theorem counted_releaseChain {fuel : ℕ} (hc : Counted h held (some o)) (hfuel : o < fuel) :
    Counted (h.releaseChain fuel o) held none ∧ (h.releaseChain fuel o).next = h.next ∧
      (h.releaseChain fuel o).patient = h.patient := by
  induction fuel generalizing h o with
  | zero => exact absurd hfuel (Nat.not_lt_zero o)
  | succ fuel ih =>
    unfold Heap.releaseChain
    by_cases ho : h.refs o = 1
    · rw [if_pos ho]
      have hfinal := counted_finalise hc ho
      cases hp : h.patient o with
      | none =>
        rw [hp] at hfinal
        exact ⟨hfinal, rfl, rfl⟩
      | some p =>
        rw [hp] at hfinal
        -- the patient is older
        have hlt := (hc.patient_lt o p hp).1
        exact ih hfinal (by omega)
    · rw [if_neg ho]
      exact ⟨counted_decRef hc ho, rfl, rfl⟩

/-- A reference from outside is dropped. -/
theorem counted_release (hc : Counted h held none) (ho : 0 < held o) :
    Counted (h.release o) (Function.update held o (held o - 1)) none ∧
      (h.release o).next = h.next ∧ (h.release o).patient = h.patient := by
  have hspare : Counted h (Function.update held o (held o - 1)) (some o) := by
    apply hc.congr fun _ => Iff.rfl
    intro n
    have hrefs := hc.refs_eq n
    simp only [reduceCtorEq, if_false] at hrefs
    by_cases hn : n = o
    · subst hn
      rw [Function.update_self, if_pos rfl]
      omega
    · rw [Function.update_of_ne hn, if_neg (fun hs => hn (Option.some.inj hs).symm)]
      exact hrefs
  exact counted_releaseChain hspare (Nat.lt_succ_self o)

/-! ## What is alive -/

/-- The object is held, or kept alive by one that is reachable. -/
inductive Reachable (h : Heap) (held : ℕ → ℕ) : ℕ → Prop where
  | held {o : ℕ} : 0 < held o → Reachable h held o
  | patient {n p : ℕ} : Reachable h held n → h.patient n = some p → Reachable h held p

theorem alive_of_held (hc : Counted h held none) (ho : 0 < held o) : h.Alive o := by
  have hrefs := hc.refs_eq o
  unfold Heap.Alive
  omega

/-- The patient of an object that is alive is alive. -/
theorem alive_patient {n p : ℕ} (hc : Counted h held none) (hp : h.patient n = some p)
    (hn : h.Alive n) : h.Alive p := by
  have hmem : n ∈ h.nurses p := Heap.mem_nurses.mpr ⟨hc.lt_next n hn, hp, hn⟩
  have hpos := Finset.card_pos.mpr ⟨n, hmem⟩
  have hrefs := hc.refs_eq p
  unfold Heap.Alive
  omega

/-- **The counts are exact.** An object is alive iff something held keeps it alive. -/
theorem alive_iff (hc : Counted h held none) : h.Alive o ↔ Reachable h held o := by
  constructor
  · -- nurses are younger, so the search for a held one ends
    intro ho
    induction hn : h.next - o using Nat.strong_induction_on generalizing o with
    | _ m ih =>
      by_cases hheld : 0 < held o
      · exact .held hheld
      · have hrefs := hc.refs_eq o
        simp only [reduceCtorEq, if_false] at hrefs
        unfold Heap.Alive at ho
        have hpos : 0 < (h.nurses o).card := by omega
        obtain ⟨n, hmem⟩ := Finset.card_pos.mp hpos
        obtain ⟨hlt, hp, halive⟩ := Heap.mem_nurses.mp hmem
        have hlt' := (hc.patient_lt n o hp).1
        exact .patient (ih (h.next - n) (by omega) halive rfl) hp
  · intro ho
    induction ho with
    | held ho => exact alive_of_held hc ho
    | patient _ hp ih => exact alive_patient hc hp ih

/-- Nothing that is not held keeps anything alive. -/
theorem not_alive_of_held_eq_zero (hc : Counted h (fun _ => 0) none) (o : ℕ) : ¬h.Alive o := by
  rw [alive_iff hc]
  intro ho
  induction ho with
  | held ho => exact absurd ho (lt_irrefl 0)
  | patient _ _ ih => exact ih

end KeepAlive
