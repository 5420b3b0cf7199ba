import Mathlib

/-! Runs of an executable step function. An event is a step taken with an
admitted action; a state is reached through finitely many events. -/

namespace Machine

def Event {σ α : Type*} (step : σ → α → Option σ) (ok : α → Prop) (s t : σ) : Prop :=
  ∃ a, ok a ∧ step s a = some t

abbrev Reach {σ α : Type*} (step : σ → α → Option σ) (ok : α → Prop) :=
  Relation.ReflTransGen (Event step ok)

abbrev Runs {σ α : Type*} (step : σ → α → Option σ) := Reach step (fun _ => True)

theorem runs_step {σ α : Type*} {step : σ → α → Option σ} {s t : σ} {a : α}
    (h : step s a = some t) : Runs step s t := .single ⟨a, trivial, h⟩

def run {σ α : Type*} (step : σ → α → Option σ) : σ → List α → Option σ
  | s, [] => some s
  | s, a :: as => (step s a).bind (fun t => run step t as)

theorem reach_of_run {σ α : Type*} {step : σ → α → Option σ} {ok : α → Prop} {s t : σ}
    {as : List α} (hok : ∀ a ∈ as, ok a) (h : run step s as = some t) : Reach step ok s t := by
  induction as generalizing s with
  | nil => simp only [run, Option.some.injEq] at h; exact h ▸ .refl
  | cons a as ih =>
    obtain ⟨u, hu, h⟩ := Option.bind_eq_some_iff.mp h
    exact .head ⟨a, hok a (by simp), hu⟩ (ih (fun b hb => hok b (by simp [hb])) h)

theorem runs_of_run {σ α : Type*} {step : σ → α → Option σ} {s t : σ} {as : List α}
    (h : run step s as = some t) : Runs step s t :=
  reach_of_run (fun _ _ => trivial) h

theorem reach_get {σ α : Type*} {step : σ → α → Option σ} {ok : α → Prop} {s : σ} (as : List α)
    (hok : ∀ a ∈ as, ok a) (h : (run step s as).isSome = true) :
    Reach step ok s ((run step s as).get h) :=
  reach_of_run hok (Option.some_get h).symm

theorem runs_get {σ α : Type*} {step : σ → α → Option σ} {s : σ} (as : List α)
    (h : (run step s as).isSome = true) : Runs step s ((run step s as).get h) :=
  runs_of_run (Option.some_get h).symm

theorem run_any {σ α : Type*} {step : σ → α → Option σ} {s : σ} {P : σ → Bool} (as : List α)
    (h : (run step s as).any P = true) : ∃ t, run step s as = some t ∧ P t = true :=
  (Option.any_eq_true P _).mp h

theorem runs_any {σ α : Type*} {step : σ → α → Option σ} {s : σ} {P : σ → Bool} (as : List α)
    (h : (run step s as).any P = true) : ∃ t, Runs step s t ∧ P t = true := by
  obtain ⟨t, ht, hp⟩ := run_any as h
  exact ⟨t, runs_of_run ht, hp⟩

/-- What holds at the start and is kept by every admitted step holds of every
state reached. -/
theorem Reach.invariant {σ α : Type*} {step : σ → α → Option σ} {ok : α → Prop} {P : σ → Prop}
    (hstep : ∀ {s a t}, P s → ok a → step s a = some t → P t)
    {s t : σ} (h : Reach step ok s t) (hs : P s) : P t := by
  induction h with
  | refl => exact hs
  | tail _ he ih =>
    obtain ⟨a, ha, he⟩ := he
    exact hstep ih ha he

theorem Reach.mono {σ α : Type*} {step : σ → α → Option σ} {ok ok' : α → Prop}
    (hok : ∀ a, ok a → ok' a) {s t : σ} (h : Reach step ok s t) : Reach step ok' s t := by
  induction h with
  | refl => exact .refl
  | tail _ he ih =>
    obtain ⟨a, ha, he⟩ := he
    exact ih.tail ⟨a, hok a ha, he⟩

/-- A map that carries each step over to a step carries runs over to runs. -/
theorem Reach.map {σ τ α β : Type*} {step : σ → α → Option σ} {step' : τ → β → Option τ}
    {ok : α → Prop} {ok' : β → Prop} (f : σ → τ)
    (hstep : ∀ {s a t}, ok a → step s a = some t → ∃ b, ok' b ∧ step' (f s) b = some (f t))
    {s t : σ} (h : Reach step ok s t) : Reach step' ok' (f s) (f t) := by
  induction h with
  | refl => exact .refl
  | tail _ he ih =>
    obtain ⟨a, ha, he⟩ := he
    exact ih.tail (hstep ha he)

theorem run_concat {σ α : Type*} (step : σ → α → Option σ) (s : σ) (as : List α) (a : α) :
    run step s (as ++ [a]) = (run step s as).bind (fun t => step t a) := by
  induction as generalizing s with
  | nil => simp [run]
  | cons b as ih =>
    simp only [List.cons_append, run, ih]
    exact (Option.bind_assoc ..).symm

theorem exists_run {σ α : Type*} {step : σ → α → Option σ} {s t : σ} (h : Runs step s t) :
    ∃ as, run step s as = some t := by
  induction h with
  | refl => exact ⟨[], rfl⟩
  | tail _ he ih =>
    obtain ⟨a, _, he⟩ := he
    obtain ⟨as, hs⟩ := ih
    exact ⟨as ++ [a], by rw [run_concat, hs, Option.bind_some, he]⟩

/-- What holds before the first action and is carried over each further one holds
of the whole list of actions and the state it leads to. -/
theorem run_induction {σ α : Type*} {step : σ → α → Option σ} {s t : σ} {as : List α}
    {P : List α → σ → Prop} (hnil : P [] s)
    (hconcat : ∀ {as t a u}, run step s as = some t → P as t → step t a = some u →
      P (as ++ [a]) u)
    (h : run step s as = some t) : P as t := by
  induction as using List.reverseRecOn generalizing t with
  | nil =>
    simp only [run, Option.some.injEq] at h
    exact h ▸ hnil
  | append_singleton as a ih =>
    rw [run_concat] at h
    obtain ⟨u, hu, hs⟩ := Option.bind_eq_some_iff.mp h
    exact hconcat hu (ih hu) hs

/-- Where every counted action is paid for out of a budget, a run takes no more of
them than the budget it starts with. -/
theorem run_budget {σ α : Type*} {step : σ → α → Option σ} {P : σ → Prop} {counts : α → Bool}
    {budget : σ → Nat}
    (hstep : ∀ {s a t}, P s → step s a = some t →
      P t ∧ (if counts a = true then 1 else 0) + budget t ≤ budget s)
    {s t : σ} {as : List α} (h : run step s as = some t) (hs : P s) :
    P t ∧ as.countP counts + budget t ≤ budget s := by
  refine run_induction (P := fun as t => P t ∧ as.countP counts + budget t ≤ budget s)
    ⟨hs, by simp⟩ ?_ h
  intro as t a u _ ih hu
  obtain ⟨hp, hle⟩ := hstep ih.1 hu
  rw [List.countP_append, List.countP_singleton]
  exact ⟨hp, by omega⟩

/-- Where every state short of the goal has a run that lowers a measure, the goal can
be reached. -/
theorem reaches_of_measure {σ α : Type*} {step : σ → α → Option σ} {ok : α → Prop}
    {P goal : σ → Prop} (m : σ → Nat)
    (hrun : ∀ s, P s → ¬ goal s → ∃ t, Reach step ok s t ∧ P t ∧ m t < m s) {s : σ} (hs : P s) :
    ∃ t, Reach step ok s t ∧ P t ∧ goal t := by
  induction hn : m s using Nat.strongRecOn generalizing s with
  | ind n ih =>
    by_cases hg : goal s
    · exact ⟨s, .refl, hs, hg⟩
    · obtain ⟨t, ht, hp, hlt⟩ := hrun s hs hg
      obtain ⟨u, hu, hgoal⟩ := ih (m t) (hn ▸ hlt) hp rfl
      exact ⟨u, ht.trans hu, hgoal⟩

/-- The run of `as` passes through `u`. -/
def Passes {σ α : Type*} (step : σ → α → Option σ) (s : σ) (as : List α) (u : σ) : Prop :=
  ∃ pre, pre <+: as ∧ run step s pre = some u

theorem passes_of_run {σ α : Type*} {step : σ → α → Option σ} {s t : σ} {as : List α}
    (h : run step s as = some t) : Passes step s as t := ⟨as, List.prefix_rfl, h⟩

theorem Passes.concat {σ α : Type*} {step : σ → α → Option σ} {s u : σ} {as : List α}
    (h : Passes step s as u) (a : α) : Passes step s (as ++ [a]) u := by
  obtain ⟨pre, hp, hu⟩ := h
  exact ⟨pre, hp.trans (List.prefix_append as [a]), hu⟩

theorem passes_concat {σ α : Type*} {step : σ → α → Option σ} {s u : σ} {as : List α} {a : α}
    (h : Passes step s (as ++ [a]) u) : Passes step s as u ∨ run step s (as ++ [a]) = some u := by
  obtain ⟨pre, hp, hu⟩ := h
  rcases List.prefix_concat_iff.mp hp with rfl | hp
  · exact .inr hu
  · exact .inl ⟨pre, hp, hu⟩

end Machine
