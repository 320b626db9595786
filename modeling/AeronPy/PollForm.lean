import AeronPy.Subscription

/-!
# The form of the handler's call

`subscription::poll` calls a handler with the data and the header when its signature has more
than one parameter, and with the data alone otherwise. Whether such a call binds also depends
on the kinds of the parameters and on their defaults.

* `bindPositional`: the binding of `inspect.Signature`, parameter by parameter, which `binds`
  is the closed form of;
* `TakesOnlyData`: the signatures that are called with a header they have no place for.
-/

namespace AeronPy

/-! ## Binding -/

/-- The place of a kind in a signature. -/
def ParameterKind.rank : ParameterKind → ℕ
  | .positionalOnly => 0
  | .positionalOrKeyword => 1
  | .varPositional => 2
  | .keywordOnly => 3
  | .varKeyword => 4

/-- The parameters are in the order that every signature has them in. -/
def Ordered (parameters : List Parameter) : Prop :=
  parameters.Pairwise fun p q => p.kind.rank ≤ q.kind.rank

/-- A parameter that can be left without an argument. -/
def Parameter.isOptional (p : Parameter) : Bool :=
  p.hasDefault ∨ p.kind = .varPositional ∨ p.kind = .varKeyword

/-- `Signature.bind` with `n` positional arguments: each of them goes to the next parameter,
`*args` takes all that are left, and what gets none has to be optional. -/
def bindPositional : List Parameter → ℕ → Bool
  | parameters, 0 => parameters.all Parameter.isOptional
  -- too many positional arguments
  | [], _ + 1 => false
  | p :: parameters, n + 1 =>
    match p.kind with
    | .positionalOnly | .positionalOrKeyword => bindPositional parameters n
    | .varPositional => parameters.all Parameter.isOptional
    | .keywordOnly | .varKeyword => false

theorem binds_iff {parameters : List Parameter} {n : ℕ} :
    binds parameters n = true ↔
      (n ≤ (parameters.filter Parameter.isPositional).length ∨
        ∃ p ∈ parameters, p.kind = .varPositional) ∧
      (∀ p ∈ (parameters.filter Parameter.isPositional).drop n, p.hasDefault = true) ∧
      ∀ p ∈ parameters, p.kind = .keywordOnly → p.hasDefault = true := by
  simp only [binds, List.any_eq_true, List.all_eq_true, decide_eq_true_eq]

theorem isPositional_iff {p : Parameter} : p.isPositional = true ↔ p.kind.rank < 2 := by
  unfold Parameter.isPositional
  cases p.kind <;> decide

/-- An optional parameter of a kind that needs an argument has a default. -/
theorem isOptional_iff {p : Parameter} :
    p.isOptional = true ↔
      (p.isPositional = true → p.hasDefault = true) ∧
        (p.kind = .keywordOnly → p.hasDefault = true) := by
  cases hkind : p.kind <;> simp [Parameter.isOptional, Parameter.isPositional, hkind]

/-- Without arguments, every parameter has to be optional. -/
theorem binds_zero (parameters : List Parameter) :
    binds parameters 0 = parameters.all Parameter.isOptional := by
  rw [Bool.eq_iff_iff, binds_iff, List.all_eq_true]
  constructor
  · intro hbinds p hp
    obtain ⟨-, hpositional, hkeyword⟩ := hbinds
    apply isOptional_iff.mpr
    exact ⟨fun h => hpositional p (List.mem_filter.mpr ⟨hp, h⟩), hkeyword p hp⟩
  · intro hall
    refine ⟨Or.inl (Nat.zero_le _), fun p hp => ?_, fun p hp => ?_⟩
    · obtain ⟨hmem, hpositional⟩ := List.mem_filter.mp hp
      exact (isOptional_iff.mp (hall p hmem)).1 hpositional
    · exact (isOptional_iff.mp (hall p hp)).2

/-- A positional parameter takes the first argument. -/
theorem binds_cons_positional {p : Parameter} (h : p.isPositional = true)
    (parameters : List Parameter) (n : ℕ) :
    binds (p :: parameters) (n + 1) = binds parameters n := by
  have hrank := isPositional_iff.mp h
  have hargs : p.kind ≠ .varPositional := fun hkind => by rw [hkind] at hrank; contradiction
  have hkeyword : p.kind ≠ .keywordOnly := fun hkind => by rw [hkind] at hrank; contradiction
  rw [Bool.eq_iff_iff, binds_iff, binds_iff, List.filter_cons_of_pos h, List.length_cons,
    List.drop_succ_cons, Nat.add_le_add_iff_right, List.exists_mem_cons_iff,
    List.forall_mem_cons]
  simp only [hargs, hkeyword, false_or, false_implies, true_and]

/-- After a parameter that is not positional, none is. -/
theorem filter_positional_of_ordered {p : Parameter} {parameters : List Parameter}
    (hordered : Ordered (p :: parameters)) (h : 2 ≤ p.kind.rank) :
    (p :: parameters).filter Parameter.isPositional = [] := by
  rw [List.filter_eq_nil_iff]
  intro q hq hpositional
  have hq' := isPositional_iff.mp hpositional
  rcases List.mem_cons.mp hq with rfl | hmem
  · omega
  · have hle := (List.pairwise_cons.mp hordered).1 q hmem
    omega

/-- `*args` takes all the arguments that are left. -/
theorem binds_cons_varPositional {p : Parameter} {parameters : List Parameter}
    (hordered : Ordered (p :: parameters)) (h : p.kind = .varPositional) (n : ℕ) :
    binds (p :: parameters) (n + 1) = parameters.all Parameter.isOptional := by
  have hnone := filter_positional_of_ordered hordered (by rw [h]; decide)
  have hnone' : parameters.filter Parameter.isPositional = [] := by
    rw [List.filter_eq_nil_iff] at hnone ⊢
    exact fun q hq => hnone q (List.mem_cons_of_mem p hq)
  rw [← binds_zero, Bool.eq_iff_iff, binds_iff, binds_iff, hnone, hnone', List.drop_nil,
    List.drop_nil, List.forall_mem_cons, List.exists_mem_cons_iff]
  simp [h]

/-- No argument is left for a keyword parameter. -/
theorem binds_cons_keyword {p : Parameter} {parameters : List Parameter}
    (hordered : Ordered (p :: parameters)) (h : 3 ≤ p.kind.rank) (n : ℕ) :
    binds (p :: parameters) (n + 1) = false := by
  have hnone := filter_positional_of_ordered hordered (by omega)
  rw [Bool.eq_false_iff]
  intro hbinds
  rcases (binds_iff.mp hbinds).1 with hplaces | ⟨q, hq, hargs⟩
  · rw [hnone, List.length_nil] at hplaces
    omega
  · -- `*args` comes before every keyword parameter
    have hrank : q.kind.rank = 2 := by rw [hargs]; rfl
    rcases List.mem_cons.mp hq with rfl | hmem
    · omega
    · have hle := (List.pairwise_cons.mp hordered).1 q hmem
      omega

/-- Binding one parameter after the other comes to counting the places. -/
theorem bindPositional_eq_binds {parameters : List Parameter} (hordered : Ordered parameters)
    (n : ℕ) : bindPositional parameters n = binds parameters n := by
  induction parameters generalizing n with
  | nil =>
    cases n with
    | zero => rfl
    | succ n => rfl
  | cons p parameters ih =>
    cases n with
    | zero => rw [bindPositional, binds_zero]
    | succ n =>
      have hothers := (List.pairwise_cons.mp hordered).2
      cases hkind : p.kind with
      | positionalOnly | positionalOrKeyword =>
        have hpositional : p.isPositional = true := isPositional_iff.mpr (by rw [hkind]; decide)
        rw [bindPositional, hkind, binds_cons_positional hpositional]
        exact ih hothers n
      | varPositional =>
        rw [bindPositional, hkind, binds_cons_varPositional hordered hkind]
      | keywordOnly | varKeyword =>
        rw [bindPositional, hkind, binds_cons_keyword hordered (by rw [hkind]; decide)]

/-! ## The form that is chosen -/

/-- The number of positional arguments that `poll` calls a handler of this signature with. -/
def Subscription.argumentCount (parameters : List Parameter) : ℕ :=
  if 1 < parameters.length then 2 else 1

/-- The data is the one positional argument that the signature has a place for, all its other
parameters are keywords that need no argument, and there is such a parameter. -/
def TakesOnlyData (parameters : List Parameter) : Prop :=
  1 < parameters.length ∧
    (parameters.filter Parameter.isPositional).length = 1 ∧
    (∀ p ∈ parameters, p.kind ≠ .varPositional) ∧
    ∀ p ∈ parameters, p.kind = .keywordOnly → p.hasDefault = true

instance decidableTakesOnlyData (parameters : List Parameter) :
    Decidable (TakesOnlyData parameters) :=
  inferInstanceAs (Decidable (_ ∧ _))

/-- `def on_data(data, **options)` -/
example : TakesOnlyData [⟨.positionalOrKeyword, false⟩, ⟨.varKeyword, false⟩] := by decide

/-- A signature of at most one parameter that takes the data and the header has `*args`, and
takes the data alone as well. -/
theorem binds_one_of_binds_two {parameters : List Parameter} (hlen : parameters.length ≤ 1)
    (h : binds parameters 2 = true) : binds parameters 1 = true := by
  obtain ⟨hplaces, -, hkeyword⟩ := binds_iff.mp h
  have hfilter := List.length_filter_le Parameter.isPositional parameters
  have hdrop : (parameters.filter Parameter.isPositional).drop 1 = [] :=
    List.drop_eq_nil_of_le (hfilter.trans hlen)
  refine binds_iff.mpr ⟨?_, ?_, hkeyword⟩
  · rcases hplaces with htwo | hargs
    · omega
    · exact Or.inr hargs
  · rw [hdrop]
    exact fun p hp => absurd hp List.not_mem_nil

/-- A signature that takes the data, but not the data and the header, has no other place for
a positional argument. -/
theorem takesOnlyData_iff {parameters : List Parameter} (hlen : 1 < parameters.length) :
    TakesOnlyData parameters ↔ binds parameters 1 = true ∧ ¬binds parameters 2 = true := by
  constructor
  · intro honly
    obtain ⟨-, hone, hargs, hkeyword⟩ := honly
    constructor
    · refine binds_iff.mpr ⟨Or.inl hone.ge, ?_, hkeyword⟩
      rw [List.drop_eq_nil_of_le hone.le]
      exact fun p hp => absurd hp List.not_mem_nil
    · intro htwo
      rcases (binds_iff.mp htwo).1 with hplaces | ⟨p, hp, hkind⟩
      · omega
      · exact hargs p hp hkind
  · intro hforms
    obtain ⟨hone, htwo⟩ := hforms
    obtain ⟨hplaces, hdefaults, hkeyword⟩ := binds_iff.mp hone
    -- what is left over after one argument has defaults, so the second has no place
    have hdefaults₂ : ∀ p ∈ (parameters.filter Parameter.isPositional).drop 2,
        p.hasDefault = true := by
      intro p hp
      refine hdefaults p ?_
      rw [← List.drop_drop (i := 1) (j := 1)] at hp
      exact List.mem_of_mem_drop hp
    have hno : ¬(2 ≤ (parameters.filter Parameter.isPositional).length ∨
        ∃ p ∈ parameters, p.kind = .varPositional) := fun hplaces₂ =>
      htwo (binds_iff.mpr ⟨hplaces₂, hdefaults₂, hkeyword⟩)
    rw [not_or] at hno
    have hargs : ∀ p ∈ parameters, p.kind ≠ .varPositional := fun p hp hkind =>
      hno.2 ⟨p, hp, hkind⟩
    refine ⟨hlen, ?_, hargs, hkeyword⟩
    rcases hplaces with hplaces | hargs'
    · omega
    · exact absurd hargs' hno.2

/-- The chosen form binds, wherever one of the two does, unless the signature takes only the
data. -/
theorem binds_argumentCount_iff {parameters : List Parameter}
    (h : binds parameters 1 = true ∨ binds parameters 2 = true) :
    binds parameters (Subscription.argumentCount parameters) = true ↔
      ¬TakesOnlyData parameters := by
  by_cases hlen : 1 < parameters.length
  · rw [Subscription.argumentCount, if_pos hlen, takesOnlyData_iff hlen]
    tauto
  · rw [Subscription.argumentCount, if_neg hlen]
    refine iff_of_true ?_ fun honly => hlen honly.1
    exact h.elim id (binds_one_of_binds_two (by omega))

/-! ## Delivered fragments -/

/-- A form that the signature does not take raises, and the handler is not entered. -/
theorem pollCallback_of_not_binds {handler : Handler} {parameters : List Parameter}
    (hsig : handler.signature = .ok parameters)
    (hbinds : ¬binds parameters (Subscription.argumentCount parameters) = true) (f : Fragment) :
    Subscription.pollCallback handler f = .error (.foreign .typeError) := by
  rw [pollCallback_of_signature hsig]
  exact if_neg hbinds

/-- A fragment enters the handler iff the chosen form binds. -/
theorem exists_pollCallback_iff {handler : Handler} {parameters : List Parameter}
    (hsig : handler.signature = .ok parameters) (f : Fragment) :
    (∃ call, Subscription.pollCallback handler f = .ok call) ↔
      binds parameters (Subscription.argumentCount parameters) = true := by
  constructor
  · intro hentered
    obtain ⟨call, hcall⟩ := hentered
    by_contra hbinds
    rw [pollCallback_of_not_binds hsig hbinds f] at hcall
    cases hcall
  · intro hbinds
    exact ⟨_, pollCallback_of_binds hsig hbinds f⟩

/-- A handler that takes one of the forms, and not only the data among others, is called once
for each fragment of a poll. -/
theorem poll_of_accepted {handler : Handler} {parameters : List Parameter}
    (hsig : handler.signature = .ok parameters)
    (haccepts : binds parameters 1 = true ∨ binds parameters 2 = true)
    (honly : ¬TakesOnlyData parameters) (delivered : List Fragment) :
    Subscription.poll handler delivered =
      .ok (delivered.map fun f => ⟨Subscription.dataView f,
        if 1 < parameters.length then some f.header else none⟩, delivered.length) :=
  aeronPoll_of_forall_ok
    (pollCallback_of_binds hsig ((binds_argumentCount_iff haccepts).mpr honly)) delivered

/-- Where one of the two forms binds, the one that `poll` chooses binds and every fragment
enters the handler; this holds of a signature iff it does not take only the data. -/
theorem poll_chosen_form_binds_iff {handler : Handler} {parameters : List Parameter}
    (hsig : handler.signature = .ok parameters) :
    ((binds parameters 1 = true ∨ binds parameters 2 = true) →
      (∃ complete, Subscription.isCompletePollHandler handler = .ok complete ∧
        binds parameters (if complete then 2 else 1) = true) ∧
      ∀ f, ∃ call, Subscription.pollCallback handler f = .ok call) ↔
      ¬TakesOnlyData parameters := by
  have hcomplete := isCompletePollHandler_of_signature hsig
  constructor
  · intro hdelivers honly
    have hone := ((takesOnlyData_iff honly.1).mp honly).1
    obtain ⟨⟨complete, hcomplete', hbinds⟩, -⟩ := hdelivers (Or.inl hone)
    rw [hcomplete, Except.ok.injEq] at hcomplete'
    subst hcomplete'
    simp only [decide_eq_true_eq] at hbinds
    exact (binds_argumentCount_iff (Or.inl hone)).mp hbinds honly
  · intro honly haccepts
    have hbinds := (binds_argumentCount_iff haccepts).mpr honly
    refine ⟨⟨_, hcomplete, ?_⟩, fun f => (exists_pollCallback_iff hsig f).mpr hbinds⟩
    simp only [decide_eq_true_eq]
    exact hbinds

/-- `def on_data(data, *, verbose=False)` -/
def dataOptionHandler : Handler :=
  ⟨.ok [⟨.positionalOrKeyword, false⟩, ⟨.keywordOnly, true⟩]⟩

theorem poll_chosen_form_binds_dataHeader :
    ((binds [⟨.positionalOrKeyword, false⟩, ⟨.positionalOrKeyword, false⟩] 1 = true ∨
        binds [⟨.positionalOrKeyword, false⟩, ⟨.positionalOrKeyword, false⟩] 2 = true) →
      (∃ complete, Subscription.isCompletePollHandler dataHeaderHandler = .ok complete ∧
        binds [⟨.positionalOrKeyword, false⟩, ⟨.positionalOrKeyword, false⟩]
          (if complete then 2 else 1) = true) ∧
      ∀ f, ∃ call, Subscription.pollCallback dataHeaderHandler f = .ok call) ↔
      ¬TakesOnlyData [⟨.positionalOrKeyword, false⟩, ⟨.positionalOrKeyword, false⟩] :=
  poll_chosen_form_binds_iff rfl

/-- The data is all that `on_data(data, *, verbose=False)` takes, and it is called with the
header as well. -/
theorem not_forall_chosen_form_binds :
    ¬∀ (handler : Handler) (parameters : List Parameter), handler.signature = .ok parameters →
      (binds parameters 1 = true ∨ binds parameters 2 = true) →
      (∃ complete, Subscription.isCompletePollHandler handler = .ok complete ∧
        binds parameters (if complete then 2 else 1) = true) ∧
      ∀ f, ∃ call, Subscription.pollCallback handler f = .ok call := by
  intro h
  obtain ⟨⟨complete, hcomplete, hbinds⟩, -⟩ := h dataOptionHandler _ rfl (by decide)
  cases hcomplete
  exact absurd hbinds (by decide)

end AeronPy
