import Mathlib

/-! Custody of a fixed stock of tokens. A token waits, is taken by a holder, and
is delivered or lost from there. No step creates or destroys a token. -/

namespace Custody

structure State (α : Type*) where
  waiting : Multiset α
  held : Multiset α
  delivered : Multiset α
  lost : Multiset α

def State.stock {α : Type*} (s : State α) : Multiset α :=
  s.waiting + s.held + s.delivered + s.lost

inductive Step {α : Type*} : State α → State α → Prop
  | take {s t : State α} (x : α) (hw : s.waiting = x ::ₘ t.waiting) (hh : t.held = x ::ₘ s.held)
      (hd : t.delivered = s.delivered) (hl : t.lost = s.lost) : Step s t
  | deliver {s t : State α} (x : α) (hw : t.waiting = s.waiting) (hh : s.held = x ::ₘ t.held)
      (hd : t.delivered = x ::ₘ s.delivered) (hl : t.lost = s.lost) : Step s t
  | drop {s t : State α} (x : α) (hw : t.waiting = s.waiting) (hh : s.held = x ::ₘ t.held)
      (hd : t.delivered = s.delivered) (hl : t.lost = x ::ₘ s.lost) : Step s t

theorem Step.stock_eq {α : Type*} {s t : State α} (h : Step s t) : t.stock = s.stock := by
  cases h with
  | take x hw hh hd hl => simp [State.stock, hw, hh, hd, hl]
  | deliver x hw hh hd hl => simp [State.stock, hw, hh, hd, hl]
  | drop x hw hh hd hl => simp [State.stock, hw, hh, hd, hl]

theorem stock_eq_of_reach {α : Type*} {s t : State α} (h : Relation.ReflTransGen Step s t) :
    t.stock = s.stock := by
  induction h with
  | refl => rfl
  | tail _ hs ih => exact hs.stock_eq.trans ih

theorem mem_sum_map {ι α : Type*} {c : ι → Multiset α} {places : List ι} {x : α} :
    x ∈ (places.map c).sum ↔ ∃ p ∈ places, x ∈ c p := by
  induction places with
  | nil => simp
  | cons p ps ih => simp [ih]

theorem place_le_stock {ι α : Type*} {c : ι → Multiset α} {places : List ι} {p : ι}
    (hp : p ∈ places) : c p ≤ (places.map c).sum := by
  induction places with
  | nil => simp at hp
  | cons q places ih =>
    rw [List.map_cons, List.sum_cons]
    rcases List.mem_cons.mp hp with rfl | hp
    · exact Multiset.le_add_right _ _
    · exact (ih hp).trans (Multiset.le_add_left _ _)

/-- A token of a duplicate-free stock is in exactly one of the places that
together hold the stock. -/
theorem unique_place {ι α : Type*} {c : ι → Multiset α} {places : List ι} {x : α}
    (hnd : (places.map c).sum.Nodup) (hx : x ∈ (places.map c).sum) :
    ∃ p ∈ places, x ∈ c p ∧ ∀ q ∈ places, x ∈ c q → q = p := by
  induction places with
  | nil => simp at hx
  | cons p ps ih =>
    simp only [List.map_cons, List.sum_cons] at hnd hx
    obtain ⟨_, hps, hdis⟩ := Multiset.nodup_add.mp hnd
    have hin : ∀ q ∈ ps, x ∈ c q → x ∈ (ps.map c).sum := fun q hq hxq =>
      mem_sum_map.mpr ⟨q, hq, hxq⟩
    rcases Multiset.mem_add.mp hx with hp | hrest
    · refine ⟨p, List.mem_cons_self, hp, ?_⟩
      intro q hq hxq
      rcases List.mem_cons.mp hq with rfl | hq
      · rfl
      · exact (Multiset.disjoint_left.mp hdis hp (hin q hq hxq)).elim
    · obtain ⟨q, hq, hxq, huniq⟩ := ih hps hrest
      refine ⟨q, List.mem_cons_of_mem _ hq, hxq, ?_⟩
      intro r hr hxr
      rcases List.mem_cons.mp hr with rfl | hr
      · exact (Multiset.disjoint_left.mp hdis hxr hrest).elim
      · exact huniq r hr hxr

end Custody
