import Mathlib

/-! Quantiles of a multiset: the least element at or below which lies at least the
given fraction of the elements. Rounding by a monotone function maps quantiles to
quantiles. -/

namespace Quantile

variable {α β : Type*} [LinearOrder α] [LinearOrder β]

structure Is (q : Rat) (s : Multiset α) (x : α) : Prop where
  mem : x ∈ s
  reached : q * Multiset.card s ≤ Multiset.card (s.filter (· ≤ x))
  before : (Multiset.card (s.filter (· < x)) : Rat) < q * Multiset.card s

section Order

variable {p q : Rat} {s : Multiset α} {x y : α}

/-- An element that reaches the fraction is no less than the quantile. -/
theorem Is.le_of_reached (h : Is q s x)
    (hy : q * Multiset.card s ≤ Multiset.card (s.filter (· ≤ y))) : x ≤ y := by
  by_contra hlt
  have hsub : s.filter (· ≤ y) ≤ s.filter (· < x) :=
    Multiset.monotone_filter_right s (fun z hz => hz.trans_lt (not_le.mp hlt))
  have hcard : (Multiset.card (s.filter (· ≤ y)) : Rat) ≤ Multiset.card (s.filter (· < x)) :=
    Nat.cast_le.mpr (Multiset.card_le_card hsub)
  have hbefore := h.before
  linarith

theorem Is.mono (hpq : p ≤ q) (hp : Is p s x) (hq : Is q s y) : x ≤ y := by
  have hcard : (0 : Rat) ≤ Multiset.card s := Nat.cast_nonneg _
  exact hp.le_of_reached ((mul_le_mul_of_nonneg_right hpq hcard).trans hq.reached)

theorem Is.unique (hx : Is q s x) (hy : Is q s y) : x = y :=
  le_antisymm (hx.mono le_rfl hy) (hy.mono le_rfl hx)

theorem Is.map {f : α → β} (hf : Monotone f) (h : Is q s x) : Is q (s.map f) (f x) where
  mem := Multiset.mem_map_of_mem f h.mem
  reached := by
    have hsub : s.filter (· ≤ x) ≤ s.filter (fun y => f y ≤ f x) :=
      Multiset.monotone_filter_right s (fun y hy => hf hy)
    have hcard : (Multiset.card (s.filter (· ≤ x)) : Rat) ≤
        Multiset.card (s.filter (fun y => f y ≤ f x)) := Nat.cast_le.mpr (Multiset.card_le_card hsub)
    rw [Multiset.card_map, Multiset.filter_map, Multiset.card_map]
    exact h.reached.trans hcard
  before := by
    have hsub : s.filter (fun y => f y < f x) ≤ s.filter (· < x) :=
      Multiset.monotone_filter_right s (fun y hy => hf.reflect_lt hy)
    have hcard : (Multiset.card (s.filter (fun y => f y < f x)) : Rat) ≤
        Multiset.card (s.filter (· < x)) := Nat.cast_le.mpr (Multiset.card_le_card hsub)
    rw [Multiset.card_map, Multiset.filter_map, Multiset.card_map]
    exact hcard.trans_lt h.before

end Order

section Sorted

variable {q : Rat} {l : List α}

/-- The index of the quantile among `n` elements in order. -/
def rank (q : Rat) (n : Nat) : Nat := ⌈q * n⌉.toNat - 1

theorem rank_spec {n : Nat} (hq : 0 < q) (hn : 0 < n) :
    (rank q n : Rat) < q * n ∧ q * n ≤ (rank q n + 1 : Nat) := by
  have hpos : 0 < q * n := mul_pos hq (Nat.cast_pos.mpr hn)
  have hceil : 0 < ⌈q * n⌉ := Int.ceil_pos.mpr hpos
  have hcast : (⌈q * n⌉.toNat : Rat) = (⌈q * n⌉ : Rat) := by
    rw [← Int.cast_natCast, Int.toNat_of_nonneg hceil.le]
  have hsucc : rank q n + 1 = ⌈q * n⌉.toNat := by
    rw [rank]
    omega
  have hle : q * n ≤ (⌈q * n⌉ : Rat) := Int.le_ceil _
  have hlt : (⌈q * n⌉ : Rat) < q * n + 1 := Int.ceil_lt_add_one _
  have hrank : (rank q n : Rat) + 1 = (⌈q * n⌉ : Rat) := by
    rw [← hcast, ← hsucc, Nat.cast_add_one]
  exact ⟨by linarith, by rw [hsucc, hcast]; exact hle⟩

theorem rank_lt {n : Nat} (hq : 0 < q) (hq1 : q ≤ 1) (hn : 0 < n) : rank q n < n := by
  have hrank := (rank_spec hq hn).1
  have hle : q * n ≤ 1 * n := mul_le_mul_of_nonneg_right hq1 (Nat.cast_nonneg n)
  rw [one_mul] at hle
  exact Nat.cast_lt.mp (hrank.trans_le hle)

/-- At most `k` elements are less than the one at `k`, and more than `k` are no greater. -/
theorem countP_of_sorted (h : l.Pairwise (· ≤ ·)) {k : Nat} (hk : k < l.length) :
    l.countP (· < l[k]) ≤ k ∧ k + 1 ≤ l.countP (· ≤ l[k]) := by
  constructor
  · have hdrop : (l.drop k).countP (· < l[k]) = 0 := by
      rw [List.countP_eq_zero]
      intro x hx
      obtain ⟨i, hi, rfl⟩ := List.mem_iff_getElem.mp hx
      have hle : l[k] ≤ (l.drop k)[i] := by
        rw [List.getElem_drop]
        exact h.rel_get_of_le (a := ⟨k, hk⟩) (b := ⟨k + i, by rw [List.length_drop] at hi; omega⟩)
          (Nat.le_add_right k i)
      simpa using hle
    calc l.countP (· < l[k]) = (l.take k ++ l.drop k).countP (· < l[k]) := by
          rw [List.take_append_drop]
      _ = (l.take k).countP (· < l[k]) := by rw [List.countP_append, hdrop, Nat.add_zero]
      _ ≤ (l.take k).length := List.countP_le_length
      _ ≤ k := List.length_take_le k l
  · have htake : (l.take (k + 1)).countP (· ≤ l[k]) = k + 1 := by
      have hlen : (l.take (k + 1)).length = k + 1 := by
        rw [List.length_take]
        omega
      refine (List.countP_eq_length.mpr fun x hx => ?_).trans hlen
      obtain ⟨i, hi, rfl⟩ := List.mem_iff_getElem.mp hx
      have hle : (l.take (k + 1))[i] ≤ l[k] := by
        rw [List.getElem_take]
        exact h.rel_get_of_le (a := ⟨i, by omega⟩) (b := ⟨k, hk⟩) (Nat.le_of_lt_succ (hlen ▸ hi))
      simpa using hle
    have hle := (List.take_sublist (k + 1) l).countP_le (p := (· ≤ l[k]))
    rwa [htake] at hle

theorem of_sorted (h : l.Pairwise (· ≤ ·)) (hq : 0 < q) (hk : rank q l.length < l.length) :
    Is q (l : Multiset α) l[rank q l.length] := by
  obtain ⟨hlt, hle⟩ := rank_spec hq (Nat.zero_lt_of_lt hk)
  obtain ⟨hbefore, hreached⟩ := countP_of_sorted h hk
  refine ⟨Multiset.mem_coe.mpr (List.getElem_mem hk), ?_, ?_⟩
  · rw [Multiset.coe_card, ← Multiset.countP_eq_card_filter, Multiset.coe_countP]
    exact hle.trans (Nat.cast_le.mpr hreached)
  · rw [Multiset.coe_card, ← Multiset.countP_eq_card_filter, Multiset.coe_countP]
    exact (Nat.cast_le.mpr hbefore).trans_lt hlt

theorem exists_of_pos {s : Multiset α} (hs : s ≠ 0) (hq : 0 < q) (hq1 : q ≤ 1) :
    ∃ x, Is q s x := by
  have hlen : 0 < (s.sort (· ≤ ·)).length := by
    rw [Multiset.length_sort]
    exact Multiset.card_pos.mpr hs
  have his := of_sorted (s.pairwise_sort (· ≤ ·)) hq (rank_lt hq hq1 hlen)
  rw [Multiset.sort_eq] at his
  exact ⟨_, his⟩

end Sorted

end Quantile
