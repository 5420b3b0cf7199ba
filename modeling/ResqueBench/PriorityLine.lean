import Mathlib

/-! Lines served in priority order: the next element leaves the first line that
is not empty. What has left, followed by what is still there, never changes. -/

namespace PriorityLine

structure State (α : Type*) where
  left : List α
  lines : List (List α)

def State.all {α : Type*} (s : State α) : List α := s.left ++ s.lines.flatten

def Step {α : Type*} (s t : State α) : Prop :=
  ∃ k x rest, (∀ j < k, s.lines[j]? = some []) ∧ s.lines[k]? = some (x :: rest) ∧
    t.left = s.left ++ [x] ∧ t.lines = s.lines.set k rest

theorem flatten_set_first {α : Type*} {ls : List (List α)} {k : Nat} {x : α} {rest : List α}
    (hempty : ∀ j < k, ls[j]? = some []) (hk : ls[k]? = some (x :: rest)) :
    ls.flatten = x :: (ls.set k rest).flatten := by
  induction ls generalizing k with
  | nil => simp at hk
  | cons l ls ih =>
    cases k with
    | zero =>
      simp only [List.getElem?_cons_zero, Option.some.injEq] at hk
      simp [hk]
    | succ k =>
      have hl : l = [] := by simpa using hempty 0 (by omega)
      have hh := ih (k := k) (fun j hj => by simpa using hempty (j + 1) (by omega))
        (by simpa using hk)
      simp [hl, hh]

theorem Step.all_eq {α : Type*} {s t : State α} (h : Step s t) : t.all = s.all := by
  obtain ⟨k, x, rest, hempty, hk, hl, ht⟩ := h
  simp only [State.all, hl, ht, flatten_set_first hempty hk, List.append_assoc,
    List.singleton_append]

theorem left_prefix_of_reach {α : Type*} {s t : State α} (h : Relation.ReflTransGen Step s t)
    (hs : s.left = []) : t.left <+: s.lines.flatten := by
  have ha : t.all = s.all := by
    induction h with
    | refl => rfl
    | tail _ he ih => exact he.all_eq.trans ih
  exact ⟨t.lines.flatten, by simpa [State.all, hs] using ha⟩

/-- Against the start, every line is a suffix, and a line that has moved has
only empty lines before it. -/
structure Served {α : Type*} (s t : State α) : Prop where
  suffix : ∀ (k : Nat) (l l' : List α), s.lines[k]? = some l → t.lines[k]? = some l' →
    l' <:+ l
  before : ∀ k : Nat, t.lines[k]? ≠ s.lines[k]? → ∀ j < k, t.lines[j]? = some []

theorem Served.step {α : Type*} {s t u : State α} (h : Served s t) (hs : Step t u) :
    Served s u := by
  obtain ⟨k, x, rest, hempty, hk, _, hu⟩ := hs
  have hklt : k < t.lines.length := (List.getElem?_eq_some_iff.mp hk).1
  have hat : ∀ j, j ≠ k → u.lines[j]? = t.lines[j]? := fun j hj => by
    rw [hu, List.getElem?_set_ne (Ne.symm hj)]
  have hself : u.lines[k]? = some rest := by simp [hu, hklt]
  refine ⟨fun j l l' hl hl' => ?_, fun j hj i hi => ?_⟩
  · by_cases hjk : j = k
    · subst hjk
      obtain rfl : rest = l' := Option.some.inj (hself.symm.trans hl')
      exact (List.suffix_cons x rest).trans (h.suffix j l _ hl hk)
    · exact h.suffix j l l' hl (by rw [← hat j hjk, hl'])
  · by_cases hjk : j = k
    · rw [hat i (by omega)]
      exact hempty i (by omega)
    · have hi' := h.before j (by rw [← hat j hjk]; exact hj) i hi
      by_cases hik : i = k
      · rw [hik, hk] at hi'
        simp at hi'
      · rw [hat i hik]
        exact hi'

theorem served_of_reach {α : Type*} {s t : State α} (h : Relation.ReflTransGen Step s t) :
    Served s t := by
  induction h with
  | refl =>
    refine ⟨fun k l l' hl hl' => ?_, fun k hk => absurd rfl hk⟩
    obtain rfl : l = l' := Option.some.inj (hl.symm.trans hl')
    exact List.suffix_rfl
  | tail _ he ih => exact ih.step he

end PriorityLine
