import Mathlib

/-! Dealing indices to numbered lines by residue. The lines partition what they are
dealt from. -/

namespace RoundRobin

def dealt (lines n line : Nat) : List Nat :=
  (List.range n).filter (fun i => i % lines == line)

theorem mem_dealt {lines n line i : Nat} :
    i ∈ dealt lines n line ↔ i < n ∧ i % lines = line := by
  simp [dealt]

theorem sum_range_ite {M : Type*} [AddCommMonoid M] (lines a : Nat) (x : M) :
    ((List.range lines).map (fun q => if a = q then x else 0)).sum =
      if a < lines then x else 0 := by
  induction lines with
  | zero => simp
  | succ lines ih =>
    rw [List.range_succ, List.map_append, List.sum_append, ih]
    by_cases h : a = lines
    · simp [h]
    · have hh : a < lines + 1 ↔ a < lines := by omega
      simp [h, hh]

theorem dealt_succ (lines n line : Nat) :
    dealt lines (n + 1) line = dealt lines n line ++ if n % lines = line then [n] else [] := by
  rw [dealt, dealt, List.range_succ, List.filter_append]
  by_cases h : n % lines = line <;> simp [h]

theorem dealt_ascending (lines n line : Nat) : (dealt lines n line).Pairwise (· < ·) :=
  List.pairwise_lt_range.filter _

/-- Each line gets its share, and the first `n % lines` lines one more. -/
theorem length_dealt {lines line : Nat} (hl : line < lines) (n : Nat) :
    (dealt lines n line).length = n / lines + if line < n % lines then 1 else 0 := by
  have hcount : (dealt lines n line).length = n.count (· ≡ line [MOD lines]) := by
    induction n with
    | zero => rfl
    | succ n ih =>
      rw [dealt_succ, Nat.count_succ, List.length_append, ih]
      by_cases h : n % lines = line <;> simp [h, Nat.ModEq, Nat.mod_eq_of_lt hl]
  rw [hcount, Nat.count_modEq_card n (by omega), Nat.mod_eq_of_lt hl]

theorem getElem?_dealt {lines n i : Nat} (hl : 0 < lines) (hi : i < n) :
    (dealt lines n (i % lines))[i / lines]? = some i := by
  induction n with
  | zero => omega
  | succ n ih =>
    rw [dealt_succ]
    by_cases h : i < n
    · have hs := ih h
      rwa [List.getElem?_append_left (List.getElem?_eq_some_iff.mp hs).1]
    · obtain rfl : i = n := by omega
      have hlen : (dealt lines i (i % lines)).length = i / lines := by
        simpa using length_dealt (Nat.mod_lt i hl) i
      rw [← hlen]
      simp

theorem sum_filter_eq {α : Type*} (f : α → Nat) (lines : Nat) {l : List α}
    (h : ∀ x ∈ l, f x < lines) :
    ((List.range lines).map (fun q => (l.filter (fun x => f x == q) : Multiset α))).sum = l := by
  induction l with
  | nil => simp
  | cons x l ih =>
    have hx : f x < lines := h x List.mem_cons_self
    have hsplit : ∀ q, ((x :: l).filter (fun y => f y == q) : Multiset α) =
        (if f x = q then {x} else 0) + (l.filter (fun y => f y == q) : Multiset α) := by
      intro q
      by_cases hq : f x = q
      · simp [hq, ← Multiset.cons_coe]
      · simp [hq]
    simp only [hsplit, List.sum_map_add, sum_range_ite, hx, if_true,
      ih (fun y hy => h y (List.mem_cons_of_mem _ hy)), Multiset.singleton_add, Multiset.cons_coe]

end RoundRobin
