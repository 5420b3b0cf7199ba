import ResqueBench.TrialStock

/-! Each drain trial counts and samples jobs of its own `bulk_enqueue` only. From
the end of the clear on, the server and everything popped account for the jobs of
the trial at hand. -/

namespace ResqueBench

open Redis Threads

section World

variable {H : Type} {serde : Serde} {hdr : Hdr H} {clock : Nat → Nat → Option Nat} {cli : Cli}
  {w w' : World H}

/-- The jobs of trial `q` that any phase has popped. -/
def World.taken (w : World H) (q : Nat) : Multiset Entry := w.removed.filter (fun e => e.trial = q)

/-- The queues and the pops account for every job of trial `q` that is not on the
wire. -/
def Account (serde : Serde) (clock : Nat → Nat → Option Nat) (cli : Cli) (q nJobs : Nat)
    (wire : Multiset Entry) (w : World H) : Prop :=
  queued cli.queueKeys w.db + wire + w.taken q = pushedJobs serde (clock q) q nJobs

theorem Account.queued_own {q nJobs : Nat} {wire : Multiset Entry}
    (h : Account serde clock cli q nJobs wire w) {e : Entry}
    (he : e ∈ queued cli.queueKeys w.db) : e ∈ pushedJobs serde (clock q) q nJobs := by
  have hle : queued cli.queueKeys w.db ≤ pushedJobs serde (clock q) q nJobs := by
    rw [← show _ = _ from h, add_assoc]
    exact Multiset.le_add_right _ _
  exact Multiset.mem_coe.mp (Multiset.mem_of_le hle he)

theorem trial_of_mem_pushedJobs {clock : Nat → Option Nat} {q nJobs : Nat} {e : Entry}
    (he : e ∈ pushedJobs serde clock q nJobs) : e.trial = q := by
  obtain ⟨index, _, rfl⟩ := mem_pushedJobs.mp he
  rfl

theorem Account.phase {q nJobs : Nat} {wire : Multiset Entry}
    (h : Account serde clock cli q nJobs wire w) (hk : PhasesKept hdr cli w) {i : Nat}
    {a : PhaseAct} {p p' : Phase H} {db' : Db Entry} (hp : w.phases[i]? = some p)
    (hm : PhaseMove serde hdr w.db p a db' p') :
    Account serde clock cli q nJobs wire { w with db := db', phases := w.phases.set i p' } := by
  unfold Account World.taken
  rcases hk.popped hp hm with ⟨hq, _, hr⟩ | ⟨e, hq, _, hr⟩
  · rw [hq, hr]
    exact h
  · have he : e.trial = q :=
      trial_of_mem_pushedJobs (h.queued_own (hq ▸ Multiset.mem_cons_self e _))
    rw [hr, Multiset.filter_cons_of_pos (p := fun e : Entry => e.trial = q) _ he, ← show _ = _ from h, hq]
    simp only [World.taken, Multiset.cons_add, Multiset.add_cons]

/-- The account of the trial main is filling or draining. -/
structure Accounted (serde : Serde) (clock : Nat → Nat → Option Nat) (cli : Cli)
    (w : World H) : Prop where
  enqueuing : ∀ plan rest, w.main.activity = .enqueuing plan rest →
    (∀ r ∈ w.main.replies, r.isError = false) →
    Account serde clock cli w.phases.length plan.jobs (pending w.main.pipe rest) w
  draining : ∀ plan, w.main.activity = .draining plan → ∃ q p cfg,
    w.phases.length = q + 1 ∧ w.phases[q]? = some p ∧ p.tasks.config = some cfg ∧
      cfg.jobs = plan.jobs ∧ (∀ e ∈ p.hub.ledger.removed, e.trial = q) ∧
      Account serde clock cli q plan.jobs 0 w

theorem Accounted.phase (h : Accounted serde clock cli w) (hk : PhasesKept hdr cli w) {i : Nat}
    {a : PhaseAct} {p p' : Phase H} {db' : Db Entry} (hp : w.phases[i]? = some p)
    (hm : PhaseMove serde hdr w.db p a db' p') :
    Accounted serde clock cli { w with db := db', phases := w.phases.set i p' } where
  enqueuing plan rest ha hr := by
    rw [List.length_set]
    exact (h.enqueuing plan rest ha hr).phase hk hp hm
  draining plan ha := by
    obtain ⟨q, p₀, cfg, hlen, hq, hcfg, hjobs, htags, hacc⟩ := h.draining plan ha
    have hacc' := hacc.phase hk hp hm
    by_cases hi : i = q
    · subst hi
      obtain rfl : p₀ = p := Option.some.inj (hq.symm.trans hp)
      have hlt : i < w.phases.length := by omega
      refine ⟨i, p', cfg, by simpa using hlen, by simp [hlt], by rw [hm.config, hcfg], hjobs, ?_, hacc'⟩
      rcases hk.popped hp hm with ⟨_, hr, _⟩ | ⟨e, hqe, hr, _⟩
      · rw [hr]
        exact htags
      · intro e' he'
        rw [hr, List.mem_append, List.mem_singleton] at he'
        rcases he' with he' | rfl
        · exact htags e' he'
        · exact trial_of_mem_pushedJobs (hacc.queued_own (hqe ▸ Multiset.mem_cons_self e' _))
    · exact ⟨q, p₀, cfg, by simpa using hlen, by simpa [hi] using hq, hcfg, hjobs, htags, hacc'⟩

theorem Accounted.step (h : Accounted serde clock cli w) (hk : PhasesKept hdr cli w)
    (hc : Piped cli w) (hcl : Clearing cli w) (hfresh : Fresh cli w)
    (hm : WorldMove serde hdr clock cli w w') : Accounted serde clock cli w' := by
  cases hm with
  | phase i a p p' db' hr hp hm => exact h.phase hk hp hm
  | exec c pipe hp =>
    refine ⟨fun plan rest ha hr => ?_, fun plan ha => ?_⟩
    · have ha' : w.main.activity = .enqueuing plan rest := ha
      have hok : ∀ r ∈ w.main.replies, r.isError = false := fun r hm => hr r (by simp [hm])
      have hf := queued_exec_fills cli.queueKeys_nodup w.db
        (by simp only [Piped, ha', hp] at hc; exact hc c List.mem_cons_self) (hr _ (by simp))
      have hacc := h.enqueuing plan rest ha' hok
      rw [hp, pending_cons] at hacc
      unfold Account
      rw [hf, add_assoc (queued _ _)]
      exact hacc
    · have ha' : w.main.activity = .draining plan := ha
      simp only [Piped, ha', hp] at hc
      cases hc
  | cleared plan pipe rest ha hp hb =>
    refine ⟨fun plan' rest' ha' _ => ?_, fun plan' ha' => by cases ha'⟩
    cases ha'
    have hzero : queued cli.queueKeys w.db = 0 := by
      rw [queued_eq_zero_iff]
      intro key hkey
      simpa [hp] using hcl plan ha key hkey
    -- no earlier pop is of this trial
    have htaken : w.taken w.phases.length = 0 := by
      rw [World.taken, Multiset.filter_eq_nil]
      intro e he
      have hlt := hfresh.begun e (Multiset.mem_add.mpr (.inl he))
      simp only [World.begun, ha] at hlt
      exact hlt.ne
    have hpend : pending pipe rest =
        pushedJobs serde (clock w.phases.length) w.phases.length plan.jobs :=
      congrArg _ (bulkEnqueue_pushes (makeQueueNames_ne_nil _ _) hb).2
    show queued cli.queueKeys w.db + pending pipe rest + w.taken w.phases.length =
      (pushedJobs serde (clock w.phases.length) w.phases.length plan.jobs : Multiset Entry)
    rw [hzero, htaken, hpend, zero_add, add_zero]
  | batch plan pipe rest ha hp hr =>
    refine ⟨fun plan' rest' ha' _ => ?_, fun plan' ha' => by cases ha'⟩
    cases ha'
    have hacc := h.enqueuing plan (pipe :: rest) ha hr
    rw [hp, pending_next] at hacc
    exact hacc
  | drain plan ha hp hr =>
    refine ⟨fun plan' rest' ha' => (by cases ha'), fun plan' ha' => ?_⟩
    cases ha'
    have hacc := h.enqueuing plan [] ha hr
    rw [hp, pending_nil] at hacc
    refine ⟨w.phases.length, _, _, by simp [World.launch], List.getElem?_concat_length, rfl, rfl,
      by simp [runDrainTrial, Hub.new], ?_⟩
    unfold Account World.taken
    rw [World.removed_launch w _ rfl]
    exact hacc
  | drained plan p result ha hl hr =>
    unfold World.drained
    split <;> exact ⟨fun plan' rest' ha' => (by cases ha'), fun plan' ha' => by cases ha'⟩
  | _ => exact ⟨fun plan' rest' ha' => (by cases ha'), fun plan' ha' => by cases ha'⟩

theorem heldBy_terminal {v : Worker} (h : v.pc.isTerminal = true) : heldBy v = 0 := by
  unfold heldBy
  split <;> simp_all [Pc.isTerminal]

theorem Frozen.carried {f f' : Fleet} (h : Frozen f f') : f'.carried ≤ f.carried := by
  have hzero : total heldBy f'.workers = 0 := by
    refine List.sum_eq_zero (fun m hm => ?_)
    obtain ⟨v, hv, rfl⟩ := List.mem_map.mp hm
    exact heldBy_terminal (h.workers v hv)
  rw [Fleet.carried, Fleet.carried, hzero, zero_add, h.counted]
  exact Multiset.le_add_left _ _

/-- What the workers of a drain hold or have counted is of its own trial. -/
def OwnJobs (serde : Serde) (clock : Nat → Nat → Option Nat) (w : World H) : Prop :=
  ∀ q p cfg, w.phases[q]? = some p → p.tasks.config = some cfg →
    ∀ e ∈ (p.fleet w.db).carried, e ∈ pushedJobs serde (clock q) q cfg.jobs

theorem OwnJobs.phase (h : OwnJobs serde clock w) (hk : PhasesKept hdr cli w)
    (hacc : Accounted serde clock cli w) {i : Nat} {a : PhaseAct} {p p' : Phase H} {db' : Db Entry}
    (hp : w.phases[i]? = some p) (hm : PhaseMove serde hdr w.db p a db' p') {cfg : TrialConfig}
    (hcfg : p.tasks.config = some cfg) {e : Entry} (he : e ∈ (p'.fleet db').carried) :
    e ∈ pushedJobs serde (clock i) i cfg.jobs := by
  have hold := h i p cfg hp hcfg
  obtain ⟨_, act, hf, _⟩ := hm.fleet
  cases act with
  | none =>
    have hfleet : p'.fleet db' = p.fleet w.db := hf
    exact hold e (hfleet ▸ he)
  | some act =>
    have hmove : FleetMove serde p.tasks.pollWorker (p.fleet w.db) act (p'.fleet db') := hf
    rcases (hk i p hp).retired cfg hcfg with hlive | hw
    · rcases hmove.carried with hle | ⟨key, e', rest, hkey, hl, hc⟩
      · exact hold e (Multiset.mem_of_le hle he)
      · rw [hc, Multiset.mem_cons] at he
        rcases he with rfl | he
        · -- the one job popped is on the server, so the account knows it
          obtain ⟨plan, ha⟩ := hlive.1
          obtain ⟨q, p₀, cfg₀, hlen, hq, hcfg₀, hjobs, _, hacc⟩ := hacc.draining plan ha
          obtain rfl : i = q := by have := hlive.2; omega
          obtain rfl : p₀ = p := Option.some.inj (hq.symm.trans hp)
          obtain rfl : cfg₀ = cfg := Option.some.inj (hcfg₀.symm.trans hcfg)
          rw [(hk i p₀ hp).keyed] at hkey
          have hmem : e ∈ listAt w.db key := by
            rw [show listAt w.db key = e :: rest from hl]
            exact List.mem_cons_self
          rw [hjobs]
          exact hacc.queued_own (mem_queued hkey hmem)
        · exact hold e he
    · exact hold e (Multiset.mem_of_le (hmove.frozen hw).carried he)

theorem OwnJobs.step (h : OwnJobs serde clock w) (hk : PhasesKept hdr cli w)
    (hacc : Accounted serde clock cli w) (hm : WorldMove serde hdr clock cli w w') :
    OwnJobs serde clock w' := by
  intro q p cfg hp hcfg
  rcases hm.phases_cases with ⟨i, a, p₀, p₁, hi, hm, hset⟩ | hsame | ⟨p₁, n, hnew, happ⟩
  · rw [hset] at hp
    by_cases hq : i = q
    · subst hq
      have hlt := (List.getElem?_eq_some_iff.mp hi).1
      obtain rfl : p₁ = p := by simpa [hlt] using hp
      intro e he
      exact h.phase hk hacc hi hm (hm.config ▸ hcfg) he
    · exact h q p cfg (by simpa [hq] using hp) hcfg
  · exact h q p cfg (hsame ▸ hp) hcfg
  · rw [happ] at hp
    rcases getElem?_concat hp with hp | ⟨rfl, rfl⟩
    · exact h q p cfg hp hcfg
    · intro e he
      rw [hnew] at he
      simp [Fleet.carried, Fleet.new, Hub.new, heldBy, Worker.new] at he

structure Sound (serde : Serde) (hdr : Hdr H) (clock : Nat → Nat → Option Nat) (cli : Cli)
    (w : World H) : Prop where
  phases : PhasesKept hdr cli w
  piped : Piped cli w
  clearing : Clearing cli w
  fresh : Fresh cli w
  accounted : Accounted serde clock cli w
  own : OwnJobs serde clock w

theorem Sound.start (serde : Serde) (hdr : Hdr H) (clock : Nat → Nat → Option Nat) (cli : Cli)
    (db₀ : Db Entry) : Sound serde hdr clock cli (.start cli db₀) where
  phases q p hp := by simp [World.start] at hp
  piped := rfl
  clearing plan ha := by cases ha
  fresh := ⟨by simp [World.start, World.removed, World.server, World.leftover],
    by simp [World.start, World.removed, World.server, World.leftover]⟩
  accounted := ⟨fun plan rest ha => (by cases ha), fun plan ha => by cases ha⟩
  own q p cfg hp := by simp [World.start] at hp

theorem Sound.step (h : Sound serde hdr clock cli w) (hm : WorldMove serde hdr clock cli w w') :
    Sound serde hdr clock cli w' where
  phases := h.phases.step hm
  piped := h.piped.step hm
  clearing := h.clearing.step h.piped hm
  fresh := h.fresh.step h.phases h.piped h.clearing hm
  accounted := h.accounted.step h.phases h.piped h.clearing h.fresh hm
  own := h.own.step h.phases h.accounted hm

theorem sound_of_runs {db₀ : Db Entry}
    (h : Machine.Runs (World.step serde hdr clock cli) (.start cli db₀) w) :
    Sound serde hdr clock cli w :=
  h.invariant (fun hs _ hstep => hs.step (World.step_move hstep)) (.start serde hdr clock cli db₀)

end World

end ResqueBench
