import ResqueBench.Machine

/-! A counter that only grows, read at some actions of a run. The series of the
differences between consecutive readings adds up to what was read. -/

namespace Sampling

/-- What is read, where the last reading and the differences so far are kept, and
which actions read. -/
structure Sampler (σ α : Type*) where
  counter : σ → Nat
  prev : σ → Nat
  series : σ → List Nat
  reads : α → Bool

structure Sampler.Lawful {σ α : Type*} (m : Sampler σ α) (step : σ → α → Option σ) : Prop where
  mono : ∀ {s a t}, step s a = some t → m.counter s ≤ m.counter t
  read : ∀ {s a t}, m.reads a = true → step s a = some t →
    m.series t = m.series s ++ [m.counter s - m.prev s] ∧ m.prev t = m.counter s
  keep : ∀ {s a t}, m.reads a = false → step s a = some t →
    m.series t = m.series s ∧ m.prev t = m.prev s

section Lawful

variable {σ α : Type*} {m : Sampler σ α} {step : σ → α → Option σ} {s t : σ} {as : List α}

/-- After a run the differences are those of the readings in it. -/
structure Sampled (m : Sampler σ α) (step : σ → α → Option σ) (s : σ) (as : List α) (t : σ) :
    Prop where
  prevLe : m.prev t ≤ m.counter t
  sum : (m.series t).sum = m.prev t
  length : (m.series t).length = as.countP m.reads
  readings : ∀ pre a u, pre ++ [a] <+: as → m.reads a = true → Machine.run step s pre = some u →
    ((m.series t).take (pre.countP m.reads + 1)).sum = m.counter u

theorem Sampled.concat {a : α} {u : σ} (hl : m.Lawful step) (h : Sampled m step s as t)
    (hrun : Machine.run step s as = some t) (hs : step t a = some u) :
    Sampled m step s (as ++ [a]) u := by
  have hmono := hl.mono hs
  have hprev := h.prevLe
  have hlen := h.length
  by_cases hr : m.reads a = true
  · obtain ⟨hseries, hp⟩ := hl.read hr hs
    have hsum : (m.series u).sum = m.counter t := by
      rw [hseries, List.sum_append, List.sum_singleton, h.sum]
      omega
    refine ⟨by omega, by rw [hsum, hp], by simp [hseries, hlen, List.countP_append, hr], ?_⟩
    intro pre b v hpre hb hv
    rcases List.prefix_concat_iff.mp hpre with he | hpre
    · obtain ⟨rfl, hab⟩ := List.append_inj' he rfl
      obtain rfl : t = v := Option.some.inj (hrun.symm.trans hv)
      rw [List.take_of_length_le (by simp [hseries, hlen]), hsum]
    · have hcount : pre.countP m.reads + 1 ≤ (m.series t).length := by
        have hle := hpre.countP_le (p := m.reads)
        simpa [hlen, List.countP_append, hb] using hle
      rw [hseries, List.take_append_of_le_length hcount]
      exact h.readings pre b v hpre hb hv
  · have hr' : m.reads a = false := Bool.eq_false_iff.mpr hr
    obtain ⟨hseries, hp⟩ := hl.keep hr' hs
    refine ⟨by omega, by rw [hseries, hp, h.sum], by simp [hseries, hlen, List.countP_append, hr'],
      ?_⟩
    intro pre b v hpre hb hv
    rw [hseries]
    rcases List.prefix_concat_iff.mp hpre with he | hpre
    · obtain ⟨_, hab⟩ := List.append_inj' he rfl
      obtain rfl := List.singleton_injective hab
      exact absurd hb hr
    · exact h.readings pre b v hpre hb hv

theorem sampled_of_run (hl : m.Lawful step) (hseries : m.series s = []) (hprev : m.prev s = 0)
    (h : Machine.run step s as = some t) : Sampled m step s as t := by
  refine Machine.run_induction (P := Sampled m step s) ?_
    (fun hrun hs hstep => hs.concat hl hrun hstep) h
  refine ⟨by omega, by simp [hseries, hprev], by simp [hseries], fun pre a u hpre => ?_⟩
  simp at hpre

end Lawful

end Sampling
