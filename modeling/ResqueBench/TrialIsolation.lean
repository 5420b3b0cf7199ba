import ResqueBench.OwnJobs
import ResqueBench.MainReturns

/-! How far trials are kept apart. An `LPOP` that nobody awaits any more cannot be
called back, so it may take a job of a later trial; a worker that was told to stop may
still issue the rest of its scan, and nothing else of an earlier phase can pop. -/

namespace ResqueBench

open Redis Threads

/-- The `LPOP`s of a worker that was told to stop which the server may still execute:
the one it awaits, and those that are left of its scan. -/
def Worker.unexecuted (nKeys : Nat) (w : Worker) : Nat :=
  match w.pc with
  | .scan k | .sent k => nKeys - k
  | .replied k _ => nKeys - (k + 1)
  | _ => 0

theorem Worker.unexecuted_ended (nKeys : Nat) {w : Worker} (h : w.pc.isTerminal = true) :
    w.unexecuted nKeys = 0 := by
  unfold Worker.unexecuted
  split <;> simp_all [Pc.isTerminal]

/-- The pops that the workers and the wire can still add to those there were. -/
def Fleet.pops (nKeys : Nat) (f : Fleet) : Nat :=
  total (Worker.unexecuted nKeys) f.workers +
    (f.shared.hub.ledger.removed.length + f.shared.hub.late.length)

section Told

variable {serde : Serde} {pw : PollWorker}

/-- What a worker that was told to stop pops or leaves on the wire it had open. -/
theorem Move.pops {s s' : Shared} {w w' : Worker} {a : WorkerAct}
    (h : Move serde pw s w a s' w') (hs : s.hub.shutdown.borrow = true)
    (ho : OpenScan pw.queueKeys.length w) :
    (s.hub.ledger.removed : Multiset Entry) ≤ s'.hub.ledger.removed ∧
    s'.hub.ledger.removed.length + s'.hub.late.length + w'.unexecuted pw.queueKeys.length ≤
      s.hub.ledger.removed.length + s.hub.late.length + w.unexecuted pw.queueKeys.length := by
  cases h with
  | enter hpc hb => simp [hs] at hb
  | pop k key e rest hpc hk hl hdb =>
    have hlt : k < pw.queueKeys.length := (List.getElem?_eq_some_iff.mp hk).1
    refine ⟨?_, ?_⟩
    · rw [← Multiset.coe_add]
      exact Multiset.le_add_right _ _
    · simp only [Worker.unexecuted, hpc, List.length_append, List.length_singleton]
      omega
  | failSent k hpc | dropSent k hpc ha =>
    simp only [OpenScan, hpc] at ho
    simp only [failedLpop, droppedTask, Worker.unexecuted, hpc, List.length_append,
      List.length_singleton, List.append_nil, le_refl, true_and]
    omega
  | _ => simp_all [Worker.unexecuted, failedLpop, droppedTask]; try omega

/-- A fleet that was told to stop pops with the `LPOP`s on the wire and those of the
scans in progress only. -/
theorem FleetMove.pops {f f' : Fleet} {a : FleetAct} (h : FleetMove serde pw f a f')
    (hs : f.shared.hub.shutdown.borrow = true) (ho : Scanned pw.queueKeys.length f) :
    (f.shared.hub.ledger.removed : Multiset Entry) ≤ f'.shared.hub.ledger.removed ∧
    f'.pops pw.queueKeys.length ≤ f.pops pw.queueKeys.length := by
  cases h with
  | worker i a v v' s' hv hm =>
    obtain ⟨hle, hpops⟩ := hm.pops hs (ho.workers v (List.mem_of_getElem? hv))
    have htotal := total_set (Worker.unexecuted pw.queueKeys.length) v' hv
    refine ⟨hle, ?_⟩
    simp only [Fleet.pops]
    omega
  | latePop j k key e rest hj hk hl hdb =>
    have hlen := List.length_eraseIdx_add_one (List.getElem?_eq_some_iff.mp hj).1
    refine ⟨?_, ?_⟩
    · rw [← Multiset.coe_add]
      exact Multiset.le_add_right _ _
    · simp only [Fleet.pops, List.length_append, List.length_singleton]
      omega
  | lateEmpty j k key hj hk hl =>
    have hlen := List.length_eraseIdx_le f.shared.hub.late j
    refine ⟨le_refl _, ?_⟩
    simp only [Fleet.pops]
    omega
  | shutdown => exact ⟨le_refl _, le_refl _⟩
  | recv sample rest hl => exact ⟨le_refl _, le_refl _⟩

end Told

section World

variable {H : Type} {serde : Serde} {hdr : Hdr H} {clock : Nat → Nat → Option Nat} {cli : Cli}
  {db₀ : Db Entry} {w w' : World H} {pw : PollWorker}

def Phase.ended (p : Phase H) : Prop := ∀ v ∈ p.workers, v.pc.isTerminal = true

/-- No `LPOP` of the phase can execute any more. -/
def Phase.quiet (p : Phase H) : Prop := p.ended ∧ p.hub.late = []

/-- The `LPOP`s of a phase told to stop that can still pop: those on the wire, and those
that its workers have not been done with. -/
def Phase.unexecuted (nKeys : Nat) (p : Phase H) : Nat :=
  p.hub.late.length + total (Worker.unexecuted nKeys) p.workers

theorem Phase.unexecuted_ended (nKeys : Nat) {p : Phase H} (h : p.ended) :
    p.unexecuted nKeys = p.hub.late.length := by
  have hzero : total (Worker.unexecuted nKeys) p.workers = 0 :=
    (total_eq_zero_iff _ _).mpr (fun v hv => Worker.unexecuted_ended nKeys (h v hv))
  rw [Phase.unexecuted, hzero, Nat.add_zero]

/-- What a phase told to stop has popped since it was `p₀` is paid for with the `LPOP`s
that were open then. -/
structure Spent (pw : PollWorker) (p₀ p : Phase H) : Prop where
  kept : Kept pw p
  told : p.hub.shutdown.borrow = true
  popped : p₀.popped ≤ p.popped
  paid : Multiset.card p.popped + p.unexecuted pw.queueKeys.length ≤
    Multiset.card p₀.popped + p₀.unexecuted pw.queueKeys.length

theorem Spent.step {p₀ p p' : Phase H} {x : Db Entry × PhaseAct} (h : Spent pw p₀ p)
    (hstep : p.stepAmid serde hdr x = some p') : Spent pw p₀ p' := by
  obtain ⟨db', hm⟩ := Phase.stepAmid_move hstep
  obtain ⟨_, act, hf, _⟩ := hm.fleet
  rw [h.kept.poll] at hf
  have hpops : p.popped ≤ p'.popped ∧ (p'.fleet db').pops pw.queueKeys.length ≤
      (p.fleet x.1).pops pw.queueKeys.length :=
    hf.keep (P := fun f => p.popped ≤ f.shared.hub.ledger.removed ∧
      f.pops pw.queueKeys.length ≤ (p.fleet x.1).pops pw.queueKeys.length)
      ⟨le_refl _, le_refl _⟩ (fun _ hf => hf.pops h.told (h.kept.scanned x.1))
  have hpaid := h.paid
  have hle := hpops.2
  refine ⟨h.kept.step hstep, Phase.told_kept hstep h.told, h.popped.trans hpops.1, ?_⟩
  simp only [Fleet.pops, Phase.fleet] at hle
  simp only [Phase.unexecuted, Phase.popped, Multiset.coe_card] at hpaid ⊢
  omega

theorem Spent.of_runs {i : Nat} {p₀ : Phase H} (hp : w.phases[i]? = some p₀) (hk : Kept pw p₀)
    (hs : p₀.hub.shutdown.borrow = true)
    (h : Machine.Runs (World.step serde hdr clock cli) w w') :
    ∃ p, w'.phases[i]? = some p ∧ Spent pw p₀ p := by
  refine h.invariant (P := fun u => ∃ p, u.phases[i]? = some p ∧ Spent pw p₀ p)
    (fun {u a v} hu _ hstep => ?_) ⟨p₀, hp, hk, hs, le_refl _, le_refl _⟩
  obtain ⟨p, hi, hspent⟩ := hu
  have hlt := (List.getElem?_eq_some_iff.mp hi).1
  rcases World.step_cases hstep with ⟨j, b, q, q', db', rfl, hq, hb, rfl⟩ | ⟨b, rfl, hmain⟩
  · by_cases hij : j = i
    · subst hij
      obtain rfl : q = p := Option.some.inj (hq.symm.trans hi)
      have hamid : q.stepAmid serde hdr (u.db, b) = some q' := by simp [Phase.stepAmid, hb]
      exact ⟨q', by simp [hlt], hspent.step hamid⟩
    · exact ⟨p, by simpa [hij] using hi, hspent⟩
  · obtain ⟨_, hsame | ⟨_, _, _, _, happ⟩⟩ := World.mainStep_cases hmain
    · exact ⟨p, hsame ▸ hi, hspent⟩
    · exact ⟨p, by rw [happ, List.getElem?_append_left hlt]; exact hi, hspent⟩

theorem Winding.told {p : Phase H} (h : Winding pw p) (hc : p.tasks.concluded = true) :
    p.hub.shutdown.borrow = true := by
  rw [h.sent]
  cases ht : p.tasks with
  | drain cfg d =>
    cases ho : d.orch with
    | finished r => simp [Tasks.shutdownSent, Orchestrator.rank, ho]
    | _ => simp [Tasks.concluded, Tasks.returned, Tasks.drainTasks, Tasks.idleReturned, ht, ho] at hc
  | idle keys t =>
    cases ho : t.orch with
    | finished r => simp [Tasks.shutdownSent, IdleOrchestrator.rank, ho]
    | _ => simp [Tasks.concluded, Tasks.returned, Tasks.drainTasks, Tasks.idleReturned, ht, ho] at hc

/-- The phase at `q` is the one that main awaits. -/
def World.awaits (w : World H) (q : Nat) : Prop :=
  q + 1 = w.phases.length ∧
    ((∃ plan, w.main.activity = .draining plan) ∨
      ∃ plan result, w.main.activity = .idling plan result)

/-- Every phase but the one that main awaits has been told to stop. -/
def PhasesTold (w : World H) : Prop :=
  ∀ q p, w.phases[q]? = some p → p.hub.shutdown.borrow = true ∨ w.awaits q

theorem PhasesTold.all (h : PhasesTold w) (ha : ∀ q, ¬ w.awaits q) {p : Phase H}
    (hp : p ∈ w.phases) : p.hub.shutdown.borrow = true := by
  obtain ⟨q, hq⟩ := List.mem_iff_getElem?.mp hp
  exact (h q p hq).resolve_right (ha q)

theorem PhasesTold.concluded (h : PhasesTold w) (hst : Staged serde hdr cli w) {last : Phase H}
    (hl : w.phases.getLast? = some last) (hc : last.tasks.concluded = true) {p : Phase H}
    (hp : p ∈ w.phases) : p.hub.shutdown.borrow = true := by
  obtain ⟨q, hq⟩ := List.mem_iff_getElem?.mp hp
  refine (h q p hq).elim id (fun hawaits => ?_)
  rw [List.getLast?_eq_getElem?, ← hawaits.1, Nat.add_sub_cancel, hq] at hl
  obtain rfl : p = last := Option.some.inj hl
  obtain ⟨pw, _, hwind⟩ := hst.winding hp
  exact hwind.told hc

theorem PhasesTold.step (h : PhasesTold w) (hst : Staged serde hdr cli w)
    (hm : WorldMove serde hdr clock cli w w') : PhasesTold w' := by
  have hlaunch : (∀ q, ¬ w.awaits q) → ∀ (last : Phase H) (activity : Activity),
      ((∃ plan, activity = .draining plan) ∨ ∃ plan result, activity = .idling plan result) →
      PhasesTold (w.launch activity last) := by
    intro hno last activity hactivity q p hp
    rcases getElem?_concat hp with hp | ⟨rfl, rfl⟩
    · exact .inl (h.all hno (List.mem_of_getElem? hp))
    · exact .inr ⟨by simp [World.launch, World.send], hactivity⟩
  cases hm with
  | phase i a p p' db' hr hp hm =>
    intro q u hu
    by_cases hqi : i = q
    · subst hqi
      have hlt := (List.getElem?_eq_some_iff.mp hp).1
      obtain rfl : p' = u := by simpa [hlt] using hu
      obtain ⟨_, act, hf, _⟩ := hm.fleet
      refine (h i p hp).imp (fun hs => ?_) (fun ha => ⟨by simpa using ha.1, ha.2⟩)
      exact hf.keep (P := fun f => f.shared.hub.shutdown.borrow = true) hs
        (fun _ hf => hf.shutdown_kept hs)
    · have hold : w.phases[q]? = some u := by simpa [hqi] using hu
      exact (h q u hold).imp id (fun ha => ⟨by simpa using ha.1, ha.2⟩)
  | exec c pipe hp => exact h
  | drain plan ha hp hr => exact hlaunch (by simp [World.awaits, ha]) _ _ (.inl ⟨_, rfl⟩)
  | idle plan result ha hp hs => exact hlaunch (by simp [World.awaits, ha]) _ _ (.inr ⟨_, _, rfl⟩)
  | drained plan p result ha hl hr =>
    have hc : p.tasks.concluded = true := by simp [Tasks.concluded, hr]
    unfold World.drained
    split <;> exact fun q u hu => .inl (h.concluded hst hl hc (List.mem_of_getElem? hu))
  | rested plan result p idle ha hl hr =>
    have hc : p.tasks.concluded = true := by simp [Tasks.concluded, hr]
    exact fun q u hu => .inl (h.concluded hst hl hc (List.mem_of_getElem? hu))
  | stop ha =>
    have hno : ∀ q, ¬ w.awaits q := by
      rintro q ⟨_, ⟨plan, hd⟩ | ⟨plan, result, hi⟩⟩
      · simp [hd, Activity.queries] at ha
      · simp [hi, Activity.queries] at ha
    exact fun q u hu => .inl (h.all hno (List.mem_of_getElem? hu))
  | begin plan todo ha ht | finish ha ht | cleared plan pipe rest ha hp hb
  | batch plan pipe rest ha hp hr | skip plan result backlog ha hp hs hb =>
    exact fun q u hu => .inl (h.all (by simp [World.awaits, ha]) (List.mem_of_getElem? hu))

theorem told_of_runs (h : Machine.Runs (World.step serde hdr clock cli) (.start cli db₀) w) :
    PhasesTold w := by
  have hstart : Machine.Runs (World.step serde hdr clock cli) (.start cli db₀)
      (.start cli db₀ : World H) := .refl
  have hboth := h.invariant (P := fun u => Staged serde hdr cli u ∧ PhasesTold u)
    (fun hu _ hs => ⟨hu.1.step hs, hu.2.step hu.1 (World.step_move hs)⟩)
    ⟨staged_of_runs hstart, fun q p hp => by simp [World.start] at hp⟩
  exact hboth.2

/-- The jobs of trial `q` that the phases before it have popped. -/
def World.stolen (w : World H) (q : Nat) : Multiset Entry :=
  (total Phase.popped (w.phases.take q)).filter (fun e => e.trial = q)

theorem Sound.drain_account (hs : Sound serde hdr clock cli w) {plan : Plan}
    (ha : w.main.activity = .draining plan) : ∃ q p, w.phases.length = q + 1 ∧
      w.phases[q]? = some p ∧ queued cli.queueKeys w.db + p.popped + w.stolen q =
        pushedJobs serde (clock q) q plan.jobs := by
  obtain ⟨q, p, cfg, hlen, hq, _, _, htags, hacc⟩ := hs.accounted.draining plan ha
  have hsplit : w.phases = w.phases.take q ++ [p] := by
    obtain ⟨hlt, hget⟩ := List.getElem?_eq_some_iff.mp hq
    rw [← hget, List.take_append_getElem hlt, ← hlen, List.take_length]
  have htaken : w.taken q = w.stolen q + p.popped := by
    have hown : p.popped.filter (fun e => e.trial = q) = p.popped :=
      Multiset.filter_eq_self.mpr (fun e he => htags e (Multiset.mem_coe.mp he))
    rw [World.taken, World.removed, hsplit, total_append, total_cons, total_nil, add_zero,
      Multiset.filter_add, hown, World.stolen]
  refine ⟨q, p, hlen, hq, ?_⟩
  rw [← show _ = _ from hacc, htaken]
  ac_rfl

theorem Balanced.card_removed {f : Fleet} (h : Balanced f) :
    f.shared.hub.ledger.removed.length = uncounted f.workers + f.shared.hub.metrics.completed +
      f.shared.hub.ledger.lost.length := by
  have hr := congrArg Multiset.card h.removed
  simp only [Multiset.coe_card, Multiset.card_add, card_total_heldBy] at hr
  rw [hr, h.completed, add_assoc]

theorem Spent.card_later {p₀ p : Phase H} (h : Spent pw p₀ p) {q : Nat}
    (hq : ∀ e ∈ p₀.popped, e.trial < q) :
    Multiset.card (p.popped.filter (fun e => q ≤ e.trial)) ≤ p₀.unexecuted pw.queueKeys.length := by
  obtain ⟨extra, hextra⟩ := Multiset.le_iff_exists_add.mp h.popped
  have hnone : p₀.popped.filter (fun e => q ≤ e.trial) = 0 :=
    Multiset.filter_eq_nil.mpr (fun e he => Nat.not_le.mpr (hq e he))
  have hcard := h.paid
  rw [hextra, Multiset.card_add] at hcard
  rw [hextra, Multiset.filter_add, hnone, zero_add]
  have hle := Multiset.card_le_card (Multiset.filter_le (fun e : Entry => q ≤ e.trial) extra)
  omega

theorem Sound.before_trial (hs : Sound serde hdr clock cli w) {plan : Plan}
    (ha : w.main.activity = .clearing plan) {i : Nat} {p : Phase H} (hp : w.phases[i]? = some p) :
    (p.tasks.config.isSome → p.ended) ∧ ∀ e ∈ p.popped, e.trial < w.phases.length := by
  constructor
  · intro hcfg
    obtain ⟨cfg, hcfg⟩ := Option.isSome_iff_exists.mp hcfg
    have hk := hs.phases.calm (by simp [ha]) hp False
    exact (hk.retired cfg hcfg).resolve_left id
  · intro e he
    have hle : p.popped ≤ w.removed := Custody.place_le_stock (List.mem_of_getElem? hp)
    have hb := hs.fresh.begun e (Multiset.mem_add.mpr (.inl (Multiset.mem_of_le hle he)))
    simpa [World.begun, ha] using hb

theorem later_popped {w₀ : World H} {plan : Plan}
    (h₀ : Machine.Runs (World.step serde hdr clock cli) (.start cli db₀) w₀)
    (ha : w₀.main.activity = .clearing plan)
    (h : Machine.Runs (World.step serde hdr clock cli) w₀ w) {i : Nat} {p₀ p : Phase H}
    (hp₀ : w₀.phases[i]? = some p₀) (hp : w.phases[i]? = some p) :
    Multiset.card (p.popped.filter (fun e => w₀.phases.length ≤ e.trial)) ≤
      p₀.unexecuted cli.queueKeys.length ∧
    (p₀.tasks.config.isSome ∨ p₀.ended →
      Multiset.card (p.popped.filter (fun e => w₀.phases.length ≤ e.trial)) ≤
        p₀.hub.late.length) := by
  have hno : ∀ q, ¬ w₀.awaits q := by simp [World.awaits, ha]
  have hmem := List.mem_of_getElem? hp₀
  obtain ⟨hdrain, htags⟩ := (sound_of_runs h₀).before_trial ha hp₀
  obtain ⟨pw, hkeys, hwind⟩ := (staged_of_runs h₀).winding hmem
  obtain ⟨p', hp', hspent⟩ := Spent.of_runs hp₀ hwind.kept ((told_of_runs h₀).all hno hmem) h
  obtain rfl : p' = p := Option.some.inj (hp'.symm.trans hp)
  have hle := hspent.card_later htags
  rw [hkeys] at hle
  exact ⟨hle, fun hended => (Phase.unexecuted_ended _ (hended.elim hdrain id)) ▸ hle⟩

theorem World.stolen_eq_zero {q : Nat}
    (h : ∀ (i : Nat) (p : Phase H), i < q → w.phases[i]? = some p →
      p.popped.filter (fun e => q ≤ e.trial) = 0) : w.stolen q = 0 := by
  rw [World.stolen, Multiset.filter_eq_nil]
  intro e he htrial
  obtain ⟨p, hp, he⟩ := Custody.mem_sum_map.mp he
  obtain ⟨i, hi⟩ := List.mem_iff_getElem?.mp hp
  rw [List.getElem?_take] at hi
  split at hi
  · rename_i hlt
    exact Multiset.filter_eq_nil.mp (h i p hlt hi) e he htrial.ge
  · cases hi

/-- Let a trial's queues be cleared in `w₀`. From there on, a phase that came before it
pops at most as many jobs of this and later trials as it then had `LPOP`s on the wire,
unawaited, awaited or left of a scan in progress: no more than the unawaited ones where it
is a drain, or its workers have all ended. While the trial drains, its own jobs add up
once those taken by earlier phases are counted in, and no job is taken where every
earlier phase was quiet. -/
theorem trial_isolation {w₀ : World H} {plan₀ : Plan}
    (h₀ : Machine.Runs (World.step serde hdr clock cli) (.start cli db₀) w₀)
    (ha₀ : w₀.main.activity = .clearing plan₀)
    (h : Machine.Runs (World.step serde hdr clock cli) w₀ w) :
    (∀ (i : Nat) (p₀ p : Phase H), w₀.phases[i]? = some p₀ → w.phases[i]? = some p →
      Multiset.card (p.popped.filter (fun e => w₀.phases.length ≤ e.trial)) ≤
        p₀.hub.late.length + total (Worker.unexecuted cli.queueKeys.length) p₀.workers ∧
      (p₀.tasks.config.isSome ∨ p₀.ended →
        Multiset.card (p.popped.filter (fun e => w₀.phases.length ≤ e.trial)) ≤
          p₀.hub.late.length)) ∧
    ∀ plan, w.main.activity = .draining plan → w.phases.length = w₀.phases.length + 1 →
      ∃ p, w.phases[w₀.phases.length]? = some p ∧
        remaining cli.queueKeys w.db + uncounted p.workers + p.hub.metrics.completed +
          p.hub.ledger.lost.length + Multiset.card (w.stolen w₀.phases.length) = plan.jobs ∧
        ((∀ p₀ ∈ w₀.phases, p₀.quiet) → w.stolen w₀.phases.length = 0) ∧
        (p.hub.ledger.errs = 0 → total droppedInFlight p.workers = 0 →
          remaining cli.queueKeys w.db + uncounted p.workers + p.hub.metrics.completed +
            Multiset.card (w.stolen w₀.phases.length) = plan.jobs) := by
  have hs := sound_of_runs (h₀.trans h)
  refine ⟨fun i p₀ p hp₀ hp => later_popped h₀ ha₀ h hp₀ hp, fun plan ha hlen => ?_⟩
  obtain ⟨q, p, hq, hp, hacc⟩ := hs.drain_account ha
  obtain rfl : q = w₀.phases.length := by omega
  have hbal := (hs.phases _ p hp).balanced
  have hsum : remaining cli.queueKeys w.db + uncounted p.workers + p.hub.metrics.completed +
      p.hub.ledger.lost.length + Multiset.card (w.stolen w₀.phases.length) = plan.jobs := by
    have hcard := congrArg Multiset.card hacc
    have hpopped : Multiset.card p.popped = uncounted p.workers + p.hub.metrics.completed +
        p.hub.ledger.lost.length := hbal.card_removed
    simp only [Multiset.card_add, card_queued, hpopped, Multiset.coe_card,
      length_pushedJobs] at hcard
    simp only [remaining]
    omega
  refine ⟨p, hp, hsum, fun hquiet => ?_, fun herrs hdropped => ?_⟩
  · refine World.stolen_eq_zero (fun i p₁ hlt hp₁ => ?_)
    obtain ⟨hended, hlate⟩ := hquiet _ (List.getElem_mem hlt)
    have hzero := (later_popped h₀ ha₀ h (List.getElem?_eq_getElem hlt) hp₁).2 (.inr hended)
    rw [hlate, List.length_nil, Nat.le_zero] at hzero
    exact Multiset.card_eq_zero.mp hzero
  · have hlost := hbal.losses
    simp only [Phase.fleet] at hlost
    omega

/-- While a trial drains, phase `i` has popped a job of it. The trial's own `LPOP`s
have lost none, and yet its jobs do not add up. -/
def World.robbed (cli : Cli) (w : World H) (i : Nat) : Bool :=
  match w.main.activity, w.phases[i]?, w.phases.getLast? with
  | .draining plan, some thief, some p =>
    decide (i + 1 < w.phases.length) &&
      thief.hub.ledger.removed.any (fun e => e.trial + 1 == w.phases.length) &&
      p.hub.ledger.errs == 0 && total droppedInFlight p.workers == 0 &&
      decide (remaining cli.queueKeys w.db + uncounted p.workers + p.hub.metrics.completed <
        plan.jobs)
  | _, _, _ => false

end World

/-- A drain of one job, and an idle phase that gives up on a worker whose first
`LPOP` is unanswered. -/
def abortedIdle : List WorldAct :=
  List.flatten [
    [.worker 0 .start, .worker 0 .check, .worker 0 .issue, .worker 0 .exec, .worker 0 .receive,
      .worker 0 (.record (some 5000)), .worker 0 .count, .worker 0 .signal, .drain .doneSeen,
      .drain .stopMonitor, .drain .shutdown, .worker 0 .check, .drain .recv, .drain .collectorEnd,
      .drain .joined, .drain (.readOut 1)].map (.phase 0),
    [.main .proceed, .main .exec, .main .proceed],
    [.worker 0 .start, .worker 0 .check, .worker 0 .issue, .idle (.shutdown 1), .idle (.grace 0),
      .idle .readOut].map (.phase 1)]

/-- The `LPOP` an aborted worker left on the wire takes the only job of the next
trial: that of a warmup, executed after its task was dropped, and that of an idle
phase. -/
theorem earlier_phase_robs_trial :
    (∃ w : World (List Nat), Machine.Runs (World.step (.envelopes [(0, 1000)]) Hdr.bucketed
        (fun _ _ => some 1000) oneJobCli) (.start oneJobCli (fun _ => none)) w ∧
      w.robbed oneJobCli 0 = true) ∧
    ∃ w : World (List Nat), Machine.Runs (World.step (.envelopes [(0, 1000)]) Hdr.bucketed
        (fun _ _ => some 1000) { oneJobCli with workers := [1, 1], warmupJobs := 0 })
        (.start { oneJobCli with workers := [1, 1], warmupJobs := 0 } (fun _ => none)) w ∧
      w.robbed oneJobCli 1 = true :=
  ⟨Machine.runs_any (List.flatten [fillOneJob, abortedDrain, [.main .proceed], fillOneJob,
      [.phase 0 (.late 0)]]) (by decide +kernel),
    Machine.runs_any (List.flatten [fillOneJob, abortedIdle, [.main .proceed], fillOneJob,
      [.phase 1 (.worker 0 .exec)]]) (by decide +kernel)⟩

/-- One job stolen by the one `LPOP` on the wire. -/
theorem trial_isolation_one_stolen : ∃ (w : World (List Nat)) (p : Phase (List Nat)),
    w.phases[1]? = some p ∧ remaining oneJobCli.queueKeys w.db = 0 ∧
    remaining oneJobCli.queueKeys w.db + uncounted p.workers + p.hub.metrics.completed +
      p.hub.ledger.lost.length + Multiset.card (w.stolen 1) = 1 := by
  obtain ⟨w₀, h₀, hw₀⟩ : ∃ w₀ : World (List Nat),
      Machine.Runs (World.step (.envelopes [(0, 1000)]) Hdr.bucketed (fun _ _ => some 1000)
        oneJobCli) (.start oneJobCli (fun _ => none)) w₀ ∧
      (match w₀.main.activity with
        | .clearing _ => w₀.phases.length == 1 &&
          (Machine.run (World.step (.envelopes [(0, 1000)]) Hdr.bucketed (fun _ _ => some 1000)
            oneJobCli) w₀ (List.flatten [fillOneJob.tail, [.phase 0 (.late 0)]])).any (fun w =>
              match w.main.activity with
              | .draining plan => plan.jobs == 1 && w.phases.length == 2 &&
                remaining oneJobCli.queueKeys w.db == 0
              | _ => false)
        | _ => false) = true :=
    Machine.runs_any (List.flatten [fillOneJob, abortedDrain, [.main .proceed, .main .begin]])
      (by decide +kernel)
  split at hw₀
  · rename_i plan₀ ha₀
    obtain ⟨hlen₀, hw₀⟩ := Bool.and_eq_true_iff.mp hw₀
    obtain ⟨w, h, hw⟩ := Machine.runs_any _ hw₀
    split at hw
    · rename_i plan ha
      simp only [Bool.and_eq_true, beq_iff_eq] at hlen₀ hw
      obtain ⟨⟨hjobs, hlen⟩, hremaining⟩ := hw
      have hiso := (trial_isolation h₀ ha₀ h).2 plan ha (by omega)
      rw [hlen₀, hjobs] at hiso
      obtain ⟨p, hp, hsum, _⟩ := hiso
      exact ⟨w, p, hp, hremaining, hsum⟩
    · cases hw
  · cases hw₀

end ResqueBench
