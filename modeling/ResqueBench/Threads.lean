import Mathlib

/-! Numbered threads over a shared store. A thread steps on the store and on its
own local state, so a total over the local states changes by one summand. -/

namespace Threads

def stepAt {S L A : Type*} (step : S → L → A → Option (S × L)) (s : S) (ls : List L)
    (i : Nat) (a : A) : Option (S × List L) :=
  match ls[i]? with
  | none => none
  | some l => (step s l a).map (fun r => (r.1, ls.set i r.2))

theorem stepAt_cases {S L A : Type*} {step : S → L → A → Option (S × L)} {s s' : S}
    {ls ls' : List L} {i : Nat} {a : A} (h : stepAt step s ls i a = some (s', ls')) :
    ∃ l l', ls[i]? = some l ∧ step s l a = some (s', l') ∧ ls' = ls.set i l' := by
  unfold stepAt at h
  cases hl : ls[i]? with
  | none => simp [hl] at h
  | some l =>
    simp only [hl, Option.map_eq_some_iff] at h
    obtain ⟨⟨r, l'⟩, hs, hr⟩ := h
    simp only [Prod.mk.injEq] at hr
    exact ⟨l, l', rfl, by rw [hs, hr.1], hr.2.symm⟩

def total {L M : Type*} [AddCommMonoid M] (m : L → M) (ls : List L) : M := (ls.map m).sum

@[simp] theorem total_nil {L M : Type*} [AddCommMonoid M] (m : L → M) : total m [] = 0 := rfl

@[simp] theorem total_cons {L M : Type*} [AddCommMonoid M] (m : L → M) (l : L) (ls : List L) :
    total m (l :: ls) = m l + total m ls := by simp [total]

@[simp] theorem total_replicate {L M : Type*} [AddCommMonoid M] (m : L → M) (n : Nat) (l : L) :
    total m (List.replicate n l) = n • m l := by
  simp [total]

theorem total_append {L M : Type*} [AddCommMonoid M] (m : L → M) (ls ls' : List L) :
    total m (ls ++ ls') = total m ls + total m ls' := by simp [total]

theorem total_set {L M : Type*} [AddCommMonoid M] (m : L → M) {ls : List L} {i : Nat} {l : L}
    (l' : L) (h : ls[i]? = some l) : total m (ls.set i l') + m l = total m ls + m l' := by
  induction ls generalizing i with
  | nil => simp at h
  | cons x ls ih =>
    cases i with
    | zero =>
      simp only [List.getElem?_cons_zero, Option.some.injEq] at h
      subst h
      simp only [List.set_cons_zero, total_cons]
      rw [add_comm (m l'), add_assoc, add_comm (m l'), ← add_assoc, add_comm (total m ls)]
    | succ i =>
      simp only [List.getElem?_cons_succ] at h
      simp only [List.set_cons_succ, total_cons, add_assoc, ih h]

theorem total_eq_zero_iff {L : Type*} (m : L → Nat) (ls : List L) :
    total m ls = 0 ↔ ∀ l ∈ ls, m l = 0 := by
  induction ls with
  | nil => simp
  | cons l ls ih => simp [ih]

/-- An account kept on the store against the threads' holdings balances after a
thread's step when the step moves both sides by the same amount. -/
theorem total_balance {L M : Type*} [AddCancelCommMonoid M] {m : L → M} {ls : List L} {i : Nat}
    {l l' : L} {a b a' b' : M} (hl : ls[i]? = some l) (h : a = total m ls + b)
    (hmove : a' + (m l + b) = a + (m l' + b')) : a' = total m (ls.set i l') + b' := by
  have hs := total_set m l' hl
  have hh : a' + (m l + b) = (total m (ls.set i l') + b') + (m l + b) := by
    calc a' + (m l + b) = total m ls + m l' + (b' + b) := by
          rw [hmove, h]; simp only [add_assoc, add_comm, add_left_comm]
      _ = total m (ls.set i l') + m l + (b' + b) := by rw [hs]
      _ = (total m (ls.set i l') + b') + (m l + b) := by
          simp only [add_assoc, add_left_comm]
  exact add_right_cancel hh

theorem forall_set {L : Type*} {P : L → Prop} {ls : List L} {i : Nat} {l' : L}
    (h : ∀ l ∈ ls, P l) (hl' : P l') : ∀ l ∈ ls.set i l', P l := by
  intro l hl
  rcases List.mem_or_eq_of_mem_set hl with hl | rfl
  · exact h l hl
  · exact hl'

theorem getElem?_concat {α : Type*} {l : List α} {x y : α} {q : Nat}
    (h : (l ++ [x])[q]? = some y) : l[q]? = some y ∨ (q = l.length ∧ y = x) := by
  rcases Nat.lt_trichotomy q l.length with hq | rfl | hq
  · rw [List.getElem?_append_left hq] at h
    exact .inl h
  · simp only [List.getElem?_concat_length, Option.some.injEq] at h
    exact .inr ⟨rfl, h.symm⟩
  · rw [List.getElem?_eq_none (by simp; omega)] at h
    cases h

end Threads
