import Mathlib.Data.List.Forall2

/-! Fallible computations: what a success says about its parts. -/

set_option autoImplicit false

namespace Scribe.Attempt

open List

variable {ε α β σ : Type}

theorem bind_ok_iff {first : Except ε α} {next : α → Except ε β} {result : β} :
    first >>= next = .ok result ↔ ∃ value, first = .ok value ∧ next value = .ok result := by
  cases first with
  | error message => simp [bind, Except.bind]
  | ok value => simp [bind, Except.bind]

theorem pure_ok_iff {value result : α} : (pure value : Except ε α) = .ok result ↔ value = result := by
  simp [pure, Except.pure]

theorem throw_ne_ok {message : ε} {result : α} : (throw message : Except ε α) ≠ .ok result := by
  simp [throw, throwThe, MonadExceptOf.throw]

/-- A guard that throws: the computation goes on where its condition fails. -/
theorem guard_ok_iff {condition : Prop} [Decidable condition] {message : ε} {next : α → Except ε β}
    {rest : Except ε β} {result : β} : (if condition then throw message >>= next else rest) =
      .ok result ↔ ¬condition ∧ rest = .ok result := by
  split <;> simp_all [bind_ok_iff, throw_ne_ok]

/-- A guard: end with the error when the condition holds. -/
def refuse (condition : Prop) [Decidable condition] (cause : ε) : Except ε Unit :=
  if condition then throw cause else pure ()

section Refuse

variable {condition : Prop} [Decidable condition] {cause : ε}

theorem refuse_of (holds : condition) : refuse condition cause = .error cause := if_pos holds

theorem refuse_of_not (fails : ¬condition) : refuse condition cause = .ok () := if_neg fails

@[simp] theorem refuse_ok_iff {value : Unit} : refuse condition cause = .ok value ↔ ¬condition := by
  by_cases holds : condition
  · rw [refuse_of holds]
    simp [holds]
  · rw [refuse_of_not holds]
    simp [holds]

theorem refuse_isOk : (refuse condition cause).isOk = decide ¬condition := by
  by_cases holds : condition
  · rw [refuse_of holds]
    simp [holds, Except.isOk, Except.toBool]
  · rw [refuse_of_not holds]
    simp [holds, Except.isOk, Except.toBool]

theorem refuse_bind_error_iff {found : ε} {next : Unit → Except ε α} :
    refuse condition cause >>= next = .error found ↔
      (condition ∧ cause = found) ∨ (¬condition ∧ next () = .error found) := by
  by_cases holds : condition
  · rw [refuse_of holds]
    simp [holds, bind, Except.bind]
  · rw [refuse_of_not holds]
    simp [holds, bind, Except.bind]

end Refuse

theorem map_ok_iff {f : α → β} {first : Except ε α} {result : β} :
    f <$> first = .ok result ↔ ∃ value, first = .ok value ∧ f value = result := by
  cases first with
  | error message => simp [Functor.map, Except.map]
  | ok value => simp [Functor.map, Except.map]

theorem exists_ok_of_toOption {first : Except ε α} {f : α → β} {value : β}
    (evaluated : first.toOption.map f = some value) :
    ∃ result, first = .ok result ∧ f result = value := by
  cases first with
  | error message => simp [Except.toOption] at evaluated
  | ok result => exact ⟨result, rfl, by simpa [Except.toOption] using evaluated⟩

theorem mapM_ok_iff {f : α → Except ε β} {values : List α} {results : List β} :
    values.mapM f = .ok results ↔ List.Forall₂ (fun value result => f value = .ok result)
      values results := by
  induction values generalizing results with
  | nil =>
    rw [mapM_nil, pure_ok_iff, List.forall₂_nil_left_iff]
    exact eq_comm
  | cons value rest ih =>
    simp only [mapM_cons, bind_ok_iff, pure_ok_iff, ih, List.forall₂_cons_left_iff]
    constructor
    · rintro ⟨first, made, others, tail, rfl⟩
      exact ⟨first, others, made, tail, rfl⟩
    · rintro ⟨first, others, made, tail, rfl⟩
      exact ⟨first, made, others, tail, rfl⟩

theorem exists_related {related : α → β → Prop} {values : List α} {results : List β}
    (pairs : List.Forall₂ related values results) {value : α} (member : value ∈ values) :
    ∃ result ∈ results, related value result := by
  induction pairs with
  | nil => cases member
  | cons first _ ih =>
    rcases List.mem_cons.mp member with rfl | later
    · exact ⟨_, List.mem_cons_self, first⟩
    · obtain ⟨result, inside, isResult⟩ := ih later
      exact ⟨result, List.mem_cons_of_mem _ inside, isResult⟩

theorem mapM_eq_map {f : α → Except ε β} {g : α → β} {values : List α}
    (total : ∀ value ∈ values, f value = .ok (g value)) : values.mapM f = .ok (values.map g) := by
  rw [mapM_ok_iff, List.forall₂_map_right_iff]
  exact List.forall₂_same.mpr total

theorem mapM_concat_ok_iff {f : α → Except ε β} {values : List α} {value : α} {results : List β} :
    (values ++ [value]).mapM f = .ok results ↔
      ∃ made last, values.mapM f = .ok made ∧ f value = .ok last ∧ results = made ++ [last] := by
  simp only [mapM_append, mapM_cons, mapM_nil, bind_ok_iff, pure_ok_iff]
  constructor
  · rintro ⟨made, first, _, ⟨last, here, _, rfl, rfl⟩, rfl⟩
    exact ⟨made, last, first, here, rfl⟩
  · rintro ⟨made, last, first, here, rfl⟩
    exact ⟨made, first, _, ⟨last, here, _, rfl, rfl⟩, rfl⟩

theorem mapM_map_ok_iff {γ : Type} {f : α → Except ε β} {g : β → γ} {values : List α}
    {results : List γ} : values.mapM (fun value => g <$> f value) = .ok results ↔
      ∃ made, values.mapM f = .ok made ∧ results = made.map g := by
  simp only [mapM_ok_iff, map_ok_iff]
  constructor
  · intro pairs
    induction pairs with
    | nil => exact ⟨[], .nil, rfl⟩
    | cons first _ ih =>
      obtain ⟨value, made, rfl⟩ := first
      obtain ⟨others, all, rfl⟩ := ih
      exact ⟨value :: others, .cons made all, rfl⟩
  · rintro ⟨made, all, rfl⟩
    rw [List.forall₂_map_right_iff]
    exact all.imp fun _ value isMade => ⟨value, isMade, rfl⟩

theorem bind_error_iff {first : Except ε α} {next : α → Except ε β} {message : ε} :
    first >>= next = .error message ↔
      first = .error message ∨ ∃ value, first = .ok value ∧ next value = .error message := by
  cases first with
  | error other => simp [bind, Except.bind]
  | ok value => simp [bind, Except.bind]

theorem isOk_iff {first : Except ε α} : first.isOk = true ↔ ∃ value, first = .ok value := by
  cases first <;> simp [Except.isOk, Except.toBool]

theorem not_isOk_iff {first : Except ε α} : ¬ first.isOk = true ↔ ∃ message,
      first = .error message := by
  cases first <;> simp [Except.isOk, Except.toBool]

theorem mapM_isOk_iff {f : α → Except ε β} {values : List α} :
    (values.mapM f).isOk = true ↔ ∀ value ∈ values, (f value).isOk = true := by
  simp only [isOk_iff, mapM_ok_iff]
  constructor
  · rintro ⟨results, pairs⟩ value member
    induction pairs with
    | nil => cases member
    | cons made _ ih =>
      rcases mem_cons.mp member with rfl | later
      · exact ⟨_, made⟩
      · exact ih later
  · intro total
    induction values with
    | nil => exact ⟨[], .nil⟩
    | cons value rest ih =>
      obtain ⟨first, made⟩ := total value mem_cons_self
      obtain ⟨others, all⟩ := ih fun other later => total other (mem_cons_of_mem _ later)
      exact ⟨first :: others, .cons made all⟩

/-- Where a loop stops: the steps before succeed. -/
theorem foldlM_error_iff {step : σ → α → Except ε σ} {values : List α} {start : σ} {message : ε} :
    values.foldlM step start = .error message ↔ ∃ done value rest state,
      values = done ++ value :: rest ∧
      done.foldlM step start = .ok state ∧ step state value = .error message := by
  induction values generalizing start with
  | nil => simp [pure, Except.pure]
  | cons value rest ih =>
    rw [foldlM_cons, bind_error_iff]
    constructor
    · rintro (here | ⟨state, stepped, later⟩)
      · exact ⟨[], value, rest, start, rfl, rfl, here⟩
      · obtain ⟨done, stop, after, reached, split, run, failed⟩ := ih.mp later
        refine ⟨value :: done, stop, after, reached, by rw [split, cons_append], ?_, failed⟩
        rw [foldlM_cons, bind_ok_iff]
        exact ⟨state, stepped, run⟩
    · rintro ⟨done, stop, after, reached, split, run, failed⟩
      cases done with
      | nil =>
        obtain ⟨rfl, rfl⟩ := List.cons.inj split
        obtain rfl : start = reached := by simpa [pure, Except.pure] using run
        exact .inl failed
      | cons first others =>
        obtain ⟨rfl, rfl⟩ := List.cons.inj split
        rw [foldlM_cons, bind_ok_iff] at run
        obtain ⟨state, stepped, run⟩ := run
        exact .inr ⟨state, stepped, ih.mpr ⟨others, stop, after, reached, rfl, run, failed⟩⟩

/-- The rule for loops: what holds at the start and is kept by every step holds at the end. -/
theorem foldlM_invariant {step : σ → α → Except ε σ} (holds : List α → σ → Prop) {values : List α}
    {start stop : σ} (finished : values.foldlM step start = .ok stop) (begins : holds [] start)
    (keeps : ∀ done value rest state next, values = done ++ value :: rest → holds done state →
      step state value = .ok next → holds (done ++ [value]) next) : holds values stop := by
  suffices general : ∀ rest done state, values = done ++ rest → holds done state →
      rest.foldlM step state = .ok stop → holds values stop from
    general values [] start rfl begins finished
  intro rest
  induction rest with
  | nil =>
    intro done state split here ended
    rw [foldlM_nil, pure_ok_iff] at ended
    subst ended
    simpa [split] using here
  | cons value rest ih =>
    intro done state split here ended
    rw [foldlM_cons, bind_ok_iff] at ended
    obtain ⟨next, stepped, ended⟩ := ended
    exact ih (done ++ [value]) next (by simp [split])
      (keeps done value rest state next split here stepped) ended

end Scribe.Attempt
