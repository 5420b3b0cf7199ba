import Mathlib

/-! A bounded high-dynamic-range histogram, as its users see it: a multiset of
bucket representatives that refuses values above its trackable maximum. -/

/-- Histograms with bounds 1 and 60000000 at three significant digits. The
fields after `trackable` are the documented behaviour a user relies on. -/
structure Hdr (H : Type) where
  new : H
  record : H → Nat → Option H
  reset : H → H
  len : H → Nat
  max : H → Nat
  mean : H → Rat
  valueAtQuantile : H → Rat → Nat
  samples : H → Multiset Nat
  round : Nat → Nat
  trackable : Nat
  trackable_ge : 60000000 ≤ trackable
  trackable_lt : trackable < 68000000
  le_round : ∀ v, v ≤ round v
  samples_new : samples new = 0
  record_of_le : ∀ h v, 1 ≤ v → v ≤ trackable →
    ∃ h', record h v = some h' ∧ samples h' = round v ::ₘ samples h
  record_of_lt : ∀ h v, trackable < v → record h v = none
  samples_reset : ∀ h, samples (reset h) = 0
  len_eq : ∀ h, len h = Multiset.card (samples h)
  le_max : ∀ h, ∀ v ∈ samples h, v ≤ max h

namespace Hdr

/-- Recording with the result discarded: a refused value leaves the histogram. -/
def recordIgnoring {H : Type} (hdr : Hdr H) (h : H) (v : Nat) : H := (hdr.record h v).getD h

def isEmpty {H : Type} (hdr : Hdr H) (h : H) : Bool := hdr.len h == 0

theorem samples_recordIgnoring {H : Type} (hdr : Hdr H) (h : H) {v : Nat} (hv : 1 ≤ v) :
    hdr.samples (hdr.recordIgnoring h v) =
      (if v ≤ hdr.trackable then {hdr.round v} else 0) + hdr.samples h := by
  by_cases hle : v ≤ hdr.trackable
  · obtain ⟨h', hr, hs⟩ := hdr.record_of_le h v hv hle
    simp [recordIgnoring, hr, hs, hle]
  · simp [recordIgnoring, hdr.record_of_lt h v (by omega), hle]

/-- The largest value in the bucket of `v`: 2048 unit buckets, then doubling. -/
def highestEquivalent (v : Nat) : Nat :=
  v / 2 ^ (Nat.log2 v - 10) * 2 ^ (Nat.log2 v - 10) + (2 ^ (Nat.log2 v - 10) - 1)

theorem le_highestEquivalent (v : Nat) : v ≤ highestEquivalent v := by
  have hp : 0 < 2 ^ (Nat.log2 v - 10) := Nat.two_pow_pos _
  have hd := Nat.div_add_mod v (2 ^ (Nat.log2 v - 10))
  have hm := Nat.mod_lt v hp
  rw [Nat.mul_comm] at hd
  simp only [highestEquivalent]
  omega

/-- The histogram as a list of bucket representatives, with their exact mean and rank. The
crate averages the middles of the buckets, and computes both in `f64`. -/
def bucketed : Hdr (List Nat) where
  new := []
  record h v := if 1 ≤ v ∧ v ≤ 67108863 then some (highestEquivalent v :: h) else none
  reset _ := []
  len h := h.length
  max h := h.foldr Nat.max 0
  mean h := if h.length = 0 then 0 else (h.sum : Rat) / h.length
  valueAtQuantile h q :=
    (h.mergeSort (· ≤ ·)).getD ((q * h.length).ceil.toNat - 1) 0
  samples h := h
  round := highestEquivalent
  trackable := 67108863
  trackable_ge := by decide
  trackable_lt := by decide
  le_round := le_highestEquivalent
  samples_new := rfl
  record_of_le h v h1 hv := ⟨highestEquivalent v :: h, by simp [h1, hv], rfl⟩
  record_of_lt h v hv := by simp only [ite_eq_right_iff, reduceCtorEq, imp_false]; omega
  samples_reset _ := rfl
  len_eq _ := rfl
  le_max h := by
    intro v hv
    rw [Multiset.mem_coe] at hv
    induction h with
    | nil => simp at hv
    | cons x h ih =>
      rcases List.mem_cons.mp hv with rfl | hv
      · exact Nat.le_max_left _ _
      · exact (ih hv).trans (Nat.le_max_right _ _)

end Hdr
