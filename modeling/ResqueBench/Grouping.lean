import Mathlib

/-! Grouping a list by a fixed size, with a separator between the groups. The groups
are cut off from the right, so that only the first one may be shorter. -/

namespace Grouping

variable {α : Type*} {k i : Nat} {sep : α} {l : List α}

/-- A separator before each position that is a positive multiple of `k`, where the
positions are counted from `i`. -/
def marked (k : Nat) (sep : α) (i : Nat) (l : List α) : List α :=
  (l.zipIdx i).flatMap (fun p => if 0 < p.2 ∧ p.2 % k = 0 then [sep, p.1] else [p.1])

theorem marked_cons (k : Nat) (sep : α) (i : Nat) (x : α) (l : List α) :
    marked k sep i (x :: l) =
      (if 0 < i ∧ i % k = 0 then [sep, x] else [x]) ++ marked k sep (i + 1) l := by
  rw [marked, List.zipIdx_cons, List.flatMap_cons, marked]

theorem marked_append (k : Nat) (sep : α) (i : Nat) (l l' : List α) :
    marked k sep i (l ++ l') = marked k sep i l ++ marked k sep (i + l.length) l' := by
  rw [marked, List.zipIdx_append, List.flatMap_append, marked, marked]

/-- Strictly between two multiples of `k` there is no separator. -/
theorem marked_of_mod (hi : i % k ≠ 0) (hl : i % k + l.length ≤ k) : marked k sep i l = l := by
  induction l generalizing i with
  | nil => rfl
  | cons x l ih =>
    have hstep : marked k sep (i + 1) l = l := by
      rw [List.length_cons] at hl
      cases l with
      | nil => rfl
      | cons y l =>
        rw [List.length_cons] at hl
        have hmod : (i + 1) % k = i % k + 1 := by
          rw [Nat.add_mod, Nat.mod_eq_of_lt (by omega : 1 < k), Nat.mod_eq_of_lt (by omega)]
        exact ih (by omega) (by rw [List.length_cons]; omega)
    have hn : ¬ (0 < i ∧ i % k = 0) := fun h => hi h.2
    rw [marked_cons, if_neg hn, hstep, List.singleton_append]

theorem marked_short (hi : i % k = 0) (hne : l ≠ []) (hl : l.length ≤ k) :
    marked k sep i l = (if 0 < i then [sep] else []) ++ l := by
  obtain ⟨x, l, rfl⟩ := List.exists_cons_of_ne_nil hne
  rw [List.length_cons] at hl
  have hrest : marked k sep (i + 1) l = l := by
    cases l with
    | nil => rfl
    | cons y l =>
      rw [List.length_cons] at hl
      have hmod : (i + 1) % k = 1 := by
        rw [Nat.add_mod, hi, Nat.zero_add, Nat.mod_mod, Nat.mod_eq_of_lt (by omega)]
      exact marked_of_mod (by omega) (by rw [List.length_cons]; omega)
  rw [marked_cons, hrest]
  by_cases h : 0 < i <;> simp [h, hi]

/-- Pieces of length `k`, and what is left over. -/
def pieces (k : Nat) (l : List α) : List (List α) :=
  if k = 0 ∨ l.length ≤ k then [l] else l.take k :: pieces k (l.drop k)
termination_by l.length
decreasing_by
  rw [List.length_drop]
  omega

theorem pieces_ne_nil (k : Nat) (l : List α) : pieces k l ≠ [] := by
  rw [pieces]
  split <;> simp

theorem flatten_pieces (k : Nat) (l : List α) : (pieces k l).flatten = l := by
  induction l using pieces.induct k with
  | case1 l h => rw [pieces, if_pos h, List.flatten_singleton]
  | case2 l h ih => rw [pieces, if_neg h, List.flatten_cons, ih, List.take_append_drop]

theorem length_pieces (hk : 0 < k) (hl : l ≠ []) :
    ∃ pre last, pieces k l = pre ++ [last] ∧ (∀ p ∈ pre, p.length = k) ∧
      0 < last.length ∧ last.length ≤ k := by
  induction l using pieces.induct k with
  | case1 l h =>
    refine ⟨[], l, by rw [pieces, if_pos h, List.nil_append], by simp, ?_, by omega⟩
    exact List.length_pos_iff.mpr hl
  | case2 l hlong ih =>
    have h := not_or.mp hlong
    rw [Nat.not_le] at h
    have hdrop : l.drop k ≠ [] := by
      rw [Ne, List.drop_eq_nil_iff]
      omega
    obtain ⟨pre, last, he, hpre, hlast⟩ := ih hdrop
    refine ⟨l.take k :: pre, last, ?_, ?_, hlast⟩
    · rw [pieces, if_neg hlong, he, List.cons_append]
    · intro p hp
      rcases List.mem_cons.mp hp with rfl | hp
      · rw [List.length_take]
        omega
      · exact hpre p hp

theorem marked_eq_intercalate (hk : 0 < k) (hi : i % k = 0) (hl : l ≠ []) :
    marked k sep i l = (if 0 < i then [sep] else []) ++ [sep].intercalate (pieces k l) := by
  induction l using pieces.induct k generalizing i with
  | case1 l h =>
    rw [pieces, if_pos h, List.intercalate_singleton, marked_short hi hl (by omega)]
  | case2 l hlong ih =>
    have h := not_or.mp hlong
    rw [Nat.not_le] at h
    have htake : (l.take k).length = k := by
      rw [List.length_take]
      omega
    have hfirst : marked k sep i (l.take k) = _ :=
      marked_short hi (by intro he; rw [he, List.length_nil] at htake; omega) htake.le
    have hdrop : l.drop k ≠ [] := by
      rw [Ne, List.drop_eq_nil_iff]
      omega
    have hrest := ih (i := i + k) (by rw [Nat.add_mod_right, hi]) hdrop
    rw [if_pos (by omega : 0 < i + k)] at hrest
    rw [pieces, if_neg hlong, List.intercalate_cons_of_ne_nil (pieces_ne_nil k _)]
    calc marked k sep i l = marked k sep i (l.take k ++ l.drop k) := by rw [List.take_append_drop]
      _ = marked k sep i (l.take k) ++ marked k sep (i + k) (l.drop k) := by
        rw [marked_append, htake]
      _ = _ := by rw [hfirst, hrest]; simp only [List.append_assoc]

theorem intercalate_concat (gs : List (List α)) (hne : gs ≠ []) (g : List α) :
    [sep].intercalate (gs ++ [g]) = [sep].intercalate gs ++ sep :: g := by
  induction gs with
  | nil => exact absurd rfl hne
  | cons f gs ih =>
    by_cases hgs : gs = []
    · simp [hgs, List.intercalate_cons_cons]
    · have hgs' : gs ++ [g] ≠ [] := by simp
      rw [List.cons_append, List.intercalate_cons_of_ne_nil hgs', ih hgs,
        List.intercalate_cons_of_ne_nil hgs]
      simp only [List.append_assoc]

theorem reverse_intercalate (gs : List (List α)) :
    ([sep].intercalate gs).reverse = [sep].intercalate (gs.map List.reverse).reverse := by
  induction gs with
  | nil => rfl
  | cons g gs ih =>
    by_cases hgs : gs = []
    · simp [hgs]
    · have hmap : (gs.map List.reverse).reverse ≠ [] := by simpa using hgs
      rw [List.intercalate_cons_of_ne_nil hgs, List.map_cons, List.reverse_cons,
        intercalate_concat _ hmap, ← ih]
      simp

/-- Groups of length `k`, cut off from the right. -/
def groups (k : Nat) (l : List α) : List (List α) :=
  ((pieces k l.reverse).map List.reverse).reverse

theorem reverse_marked (hk : 0 < k) (hl : l ≠ []) :
    (marked k sep 0 l.reverse).reverse = [sep].intercalate (groups k l) := by
  have hrev : l.reverse ≠ [] := by simpa using hl
  rw [marked_eq_intercalate hk (Nat.zero_mod k) hrev, if_neg (Nat.lt_irrefl 0), List.nil_append,
    reverse_intercalate, groups]

theorem flatten_groups (k : Nat) (l : List α) : (groups k l).flatten = l := by
  rw [groups, ← List.reverse_flatten, flatten_pieces, List.reverse_reverse]

theorem groups_ne_nil (k : Nat) (l : List α) : groups k l ≠ [] := by
  simp [groups, pieces_ne_nil]

theorem length_groups (hk : 0 < k) (hl : l ≠ []) :
    ∃ first rest, groups k l = first :: rest ∧ 0 < first.length ∧ first.length ≤ k ∧
      ∀ g ∈ rest, g.length = k := by
  have hrev : l.reverse ≠ [] := by simpa using hl
  obtain ⟨pre, last, he, hpre, hpos, hle⟩ := length_pieces hk hrev
  refine ⟨last.reverse, (pre.map List.reverse).reverse, by simp [groups, he], ?_, ?_, ?_⟩
  · rwa [List.length_reverse]
  · rwa [List.length_reverse]
  · intro g hg
    obtain ⟨p, hp, rfl⟩ := List.mem_map.mp (List.mem_reverse.mp hg)
    rw [List.length_reverse, hpre p hp]

section Separator

variable [DecidableEq α]

theorem splitOn_groups (hsep : sep ∉ l) :
    ([sep].intercalate (groups k l)).splitOn sep = groups k l := by
  refine List.splitOn_intercalate sep (fun g hg hmem => hsep ?_) (groups_ne_nil k l)
  rw [← flatten_groups k l]
  exact List.mem_flatten.mpr ⟨g, hg, hmem⟩

theorem filter_intercalate (gs : List (List α)) (hsep : ∀ g ∈ gs, sep ∉ g) :
    ([sep].intercalate gs).filter (· ≠ sep) = gs.flatten := by
  induction gs with
  | nil => rfl
  | cons g gs ih =>
    have hg : g.filter (· ≠ sep) = g := by
      refine List.filter_eq_self.mpr (fun x hx => ?_)
      rw [decide_eq_true_eq]
      rintro rfl
      exact hsep g List.mem_cons_self hx
    have hrest := ih (fun g hg => hsep g (List.mem_cons_of_mem _ hg))
    by_cases hgs : gs = []
    · rw [hgs, List.intercalate_singleton, hg]
      simp
    · rw [List.intercalate_cons_of_ne_nil hgs, List.filter_append, List.filter_append, hg, hrest]
      simp

/-- Without the separators the list is as it was. -/
theorem filter_groups (hsep : sep ∉ l) :
    ([sep].intercalate (groups k l)).filter (· ≠ sep) = l := by
  rw [filter_intercalate _ (fun g hg hmem => hsep ?_), flatten_groups]
  rw [← flatten_groups k l]
  exact List.mem_flatten.mpr ⟨g, hg, hmem⟩

end Separator

end Grouping
