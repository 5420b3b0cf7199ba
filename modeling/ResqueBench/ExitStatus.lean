import ResqueBench.MainReturns
import ResqueBench.TrialIsolation
import ResqueBench.DoneSignal

/-! The exit status. Main exits with 0 only if each drain has counted all its jobs, and
an idle phase was then measured for each level. -/

namespace ResqueBench

open Redis Threads

/-- What the counter of a drain says, whatever other clients do to the database. -/
structure Counting (target : Nat) (f : Fleet) : Prop where
  flag : DoneFlag target f
  worked : f.workers = [] → f.shared.hub.metrics.completed = 0

theorem Counting.step {serde : Serde} {pw : PollWorker} {target : Nat} {f f' : Fleet}
    {a : FleetAct} (htarget : pw.targetJobs = some target) (h : Counting target f)
    (hm : FleetMove serde pw f a f') : Counting target f' := by
  refine ⟨h.flag.step htarget hm, fun hnone => ?_⟩
  cases hm with
  | worker i a w w' s' hw hm =>
    have hempty : f.workers = [] := by simpa using hnone
    simp [hempty] at hw
  | _ => exact h.worked hnone

section Phase

variable {H : Type} {serde : Serde} {hdr : Hdr H} {cfg : TrialConfig} {nWorkers : Nat}
  {p₀ p : Phase H}

theorem config_amid (h : Machine.Runs (Phase.stepAmid serde hdr) p₀ p) :
    p.tasks.config = p₀.tasks.config := by
  refine h.invariant (P := fun q => q.tasks.config = p₀.tasks.config) (fun hq _ hstep => ?_) rfl
  obtain ⟨db', hm⟩ := Phase.stepAmid_move hstep
  exact hm.config.trans hq

theorem counting_amid (hjobs : 0 < cfg.jobs)
    (h : Machine.Runs (Phase.stepAmid serde hdr) (runDrainTrial hdr cfg nWorkers) p) :
    ∀ db, Counting cfg.jobs (p.fleet db) := by
  have hstart : ∀ db, Counting cfg.jobs ((runDrainTrial hdr cfg nWorkers).fleet db) := by
    intro db
    let t : Trial H := ⟨db, runDrainTrial hdr cfg nWorkers⟩
    have hnone : Machine.Runs (Trial.step serde hdr) t t := .refl
    exact ⟨doneFlag_of_runs cfg hjobs hnone, fun _ => rfl⟩
  exact (amid_invariant (fun _ hc => ⟨⟨hc.flag.seen, hc.flag.sound, hc.flag.kept⟩, hc.worked⟩)
    (fun hc hm => hc.step rfl hm) h hstart).2

/-- A drain that returns in time has counted up to its target. -/
theorem in_time_amid (hjobs : 0 < cfg.jobs)
    (h : Machine.Runs (Phase.stepAmid serde hdr) (runDrainTrial hdr cfg nWorkers) p)
    {r : TrialResult} (hr : p.tasks.returned = some r) (hin : r.timedOut = false) :
    cfg.jobs ≤ p.hub.metrics.completed ∧ r.totalJobs = p.hub.metrics.completed ∧
      p.workers ≠ [] := by
  obtain ⟨d, hd, hconc⟩ := concluded_amid h
  rw [hd, Tasks.returned_drain] at hr
  have hc := hconc (fun _ => none)
  have hcount := counting_amid hjobs h (fun _ => none)
  have hset : p.hub.done.borrow = true :=
    (hc.settled (by simp [Orchestrator.outcome, hr, hin])).resolve_left (by omega)
  have hle : cfg.jobs ≤ p.hub.metrics.completed := hcount.flag.sound hset
  refine ⟨hle, (hc.finished r hr).2.1, fun hnone => ?_⟩
  have hzero : p.hub.metrics.completed = 0 := hcount.worked hnone
  omega

end Phase

theorem sumReplies_eq_zero {replies : List (Reply Entry)} {n : Nat}
    (h : ∀ r ∈ replies, r = .int 0 ∨ r.isError = true) (hs : sumReplies replies = some n) :
    n = 0 := by
  induction replies generalizing n with
  | nil => simpa [sumReplies, eq_comm] using hs
  | cons r replies ih =>
    rcases h r List.mem_cons_self with rfl | he
    · obtain ⟨m, hm, rfl⟩ := Option.map_eq_some_iff.mp hs
      have hzero := ih (fun r' hr' => h r' (List.mem_cons_of_mem _ hr')) hm
      omega
    · cases r with
      | int m => simp [Reply.isError] at he
      | _ => simp [sumReplies] at hs

section World

variable {H : Type} {serde : Serde} {hdr : Hdr H} {clock : Nat → Nat → Option Nat} {cli : Cli}
  {w w' : World H}

theorem Sound.in_time (hs : Sound serde hdr clock cli w) (hst : Staged serde hdr cli w)
    {plan : Plan} (ha : w.main.activity = .draining plan) (hjobs : 0 < plan.jobs) {p : Phase H}
    (hl : w.phases.getLast? = some p) {r : TrialResult} (hr : p.tasks.returned = some r)
    (hin : r.timedOut = false) : r.totalJobs = plan.jobs ∧ p.workers ≠ [] ∧
      ∀ key ∈ cli.queueKeys, listAt w.db key = [] := by
  obtain ⟨q, p', hlen, hq, hsum⟩ := hs.drain_account ha
  obtain ⟨q', p'', cfg, hlen', hq', hcfg, hplan, _⟩ := hs.accounted.draining plan ha
  obtain rfl : q = q' := by omega
  rw [List.getLast?_eq_getElem?, hlen, Nat.add_sub_cancel] at hl
  obtain rfl : p' = p := Option.some.inj (hq.symm.trans hl)
  obtain rfl : p'' = p' := Option.some.inj (hq'.symm.trans hq)
  obtain ⟨plan', _, p₀, hstart, hruns⟩ := hst.phases p'' (List.mem_of_getElem? hq)
  have hconfig := config_amid hruns
  rw [hcfg] at hconfig
  rcases hstart with rfl | rfl
  · cases hconfig
    obtain ⟨hle, htotal, hworkers⟩ := in_time_amid (hplan ▸ hjobs) hruns hr hin
    have hremoved := (hs.phases q p'' hq).balanced.card_removed
    have hcard := congrArg Multiset.card hsum
    simp only [Multiset.card_add, Multiset.coe_card, length_pushedJobs, Phase.popped] at hcard
    simp only [Phase.fleet] at hremoved hle
    dsimp only at hplan
    refine ⟨by omega, hworkers, queued_eq_zero_iff.mp (Multiset.card_eq_zero.mp (by omega))⟩
  · cases hconfig

/-- What main knows of the levels so far. A result in time is of all jobs, and leaves
nothing for the `LLEN`s to find; a timeout is remembered, and only then is an idle phase
skipped. -/
structure Certified (cli : Cli) (w : World H) : Prop where
  full : ∀ r, r ∈ w.main.results ∨ w.main.activity.result = some r → r.timedOut = false →
    r.totalJobs = cli.jobs ∧ 0 < r.workers
  flagged : ∀ r, r ∈ w.main.results ∨ w.main.activity.result = some r → r.timedOut = true →
    w.main.anyTimeout = true
  drained : ∀ plan r, w.main.activity = .measuring plan r → r.timedOut = false →
    (∀ key ∈ cli.queueKeys, listAt w.db key = []) ∧
    (∀ c ∈ w.main.pipe, ∃ key ∈ cli.queueKeys, c = .llen key) ∧
    ∀ reply ∈ w.main.replies, reply = .int 0 ∨ reply.isError = true
  measured : w.main.anyTimeout = false → ∀ idle ∈ w.main.idleResults, idle.skippedReason = none

theorem Certified.calm (h : Certified cli w) (hr : w'.main.results = w.main.results)
    (hi : w'.main.idleResults = w.main.idleResults) (ht : w'.main.anyTimeout = w.main.anyTimeout)
    (hres : ∀ r, w'.main.activity.result = some r → w.main.activity.result = some r)
    (hm : ∀ plan r, w'.main.activity ≠ .measuring plan r) : Certified cli w' where
  full r hr' := h.full r (hr ▸ hr'.imp id (hres r))
  flagged r hr' hout := by
    rw [ht]
    exact h.flagged r (hr ▸ hr'.imp id (hres r)) hout
  drained plan r ha := absurd ha (hm plan r)
  measured := by
    rw [ht, hi]
    exact h.measured

theorem Certified.conclude (h : Certified cli w) {result : TrialResult} {idle : IdlePollResult}
    (ha : w.main.activity.result = some result)
    (hidle : result.timedOut = false → idle.skippedReason = none) :
    Certified cli (w.conclude result idle) := by
  have hold : ∀ r, r ∈ (w.conclude result idle).main.results ∨
      (w.conclude result idle).main.activity.result = some r →
      r ∈ w.main.results ∨ w.main.activity.result = some r := by
    rintro r (hr | hr)
    · rcases List.mem_append.mp hr with hr | hr
      · exact .inl hr
      · exact .inr (List.mem_singleton.mp hr ▸ ha)
    · cases hr
  refine ⟨fun r hr => h.full r (hold r hr), fun r hr => h.flagged r (hold r hr),
    fun plan r ha' => (by cases ha'), fun ht i hi => ?_⟩
  rcases List.mem_append.mp hi with hi | hi
  · exact h.measured ht i hi
  · rw [List.mem_singleton.mp hi]
    have hout : ¬ result.timedOut = true := by
      intro hout
      have hflag := h.flagged result (.inr ha) hout
      exact Bool.false_ne_true (ht.symm.trans hflag)
    exact hidle (Bool.eq_false_iff.mpr hout)

theorem Cli.jobs_of_measured {plan : Plan} (h : plan ∈ cli.plans) (hm : plan.measured = true) :
    plan.jobs = cli.jobs := by
  obtain ⟨n, _, hp⟩ := List.mem_flatMap.mp h
  rcases List.mem_append.mp hp with hp | hp
  · split at hp
    · simp [List.mem_singleton.mp hp] at hm
    · cases hp
  · rw [List.mem_singleton.mp hp]

theorem Certified.drain (h : Certified cli w) (hjobs : 0 < cli.jobs)
    (hs : Sound serde hdr clock cli w) (hst : Staged serde hdr cli w) (hl : LinedUp cli w)
    {plan : Plan} {p : Phase H} {r : TrialResult} (ha : w.main.activity = .draining plan)
    (hp : w.phases.getLast? = some p) (hr : p.tasks.returned = some r) :
    Certified cli (w.drained cli plan r) := by
  unfold World.drained
  split
  · rename_i hmeasured
    have hplan : plan ∈ cli.plans := hst.plans (by simp [World.plans, ha, Activity.plan])
    have hsame := Cli.jobs_of_measured hplan hmeasured
    obtain ⟨p', hp', hcrew⟩ := hl.manned plan (.inl ha)
    obtain rfl : p' = p := Option.some.inj (hp'.symm.trans hp)
    have hin : r.timedOut = false → r.totalJobs = cli.jobs ∧ 0 < r.workers ∧
        ∀ key ∈ cli.queueKeys, listAt w.db key = [] := by
      intro hin
      obtain ⟨htotal, hworkers, hempty⟩ := hs.in_time hst ha (by omega) hp hr hin
      have hpos := List.length_pos_iff.mpr hworkers
      rw [hcrew.length, ← hcrew.drained r hr] at hpos
      exact ⟨htotal.trans hsame, hpos, hempty⟩
    refine ⟨fun r' hr' hin' => ?_, fun r' hr' hout => ?_, fun plan' r' ha' hin' => ?_,
      fun ht => h.measured ?_⟩
    · rcases hr' with hr' | hr'
      · exact h.full r' (.inl hr') hin'
      · cases hr'
        exact ⟨(hin hin').1, (hin hin').2.1⟩
    · rcases hr' with hr' | hr'
      · simp [World.send, h.flagged r' (.inl hr') hout]
      · cases hr'
        simp [World.send, hout]
    · cases ha'
      refine ⟨(hin hin').2.2, fun c hc => ?_, by simp [World.send]⟩
      obtain ⟨q, hq, rfl⟩ := List.mem_map.mp hc
      exact ⟨_, List.mem_map_of_mem hq, rfl⟩
    · simp only [World.send, Bool.or_eq_false_iff] at ht
      exact ht.1
  · exact h.calm rfl rfl rfl (by simp [World.send, Activity.result]) (by simp [World.send])

theorem Certified.step (h : Certified cli w) (hjobs : 0 < cli.jobs)
    (hs : Sound serde hdr clock cli w) (hst : Staged serde hdr cli w) (hl : LinedUp cli w)
    (hm : WorldMove serde hdr clock cli w w') : Certified cli w' := by
  cases hm with
  | phase i a p p' db' hr hp hm =>
    refine ⟨h.full, h.flagged, fun plan r ha hin => ?_, h.measured⟩
    obtain ⟨hempty, hpipe, hreplies⟩ := h.drained plan r ha hin
    exact ⟨fun key hkey => List.suffix_nil.mp (hempty key hkey ▸ hm.suffix key), hpipe, hreplies⟩
  | exec c pipe hp =>
    refine ⟨h.full, h.flagged, fun plan r ha hin => ?_, h.measured⟩
    obtain ⟨hempty, hpipe, hreplies⟩ := h.drained plan r ha hin
    obtain ⟨key, hkey, rfl⟩ := hpipe c (hp ▸ List.mem_cons_self)
    refine ⟨fun k hk => by rw [exec_llen_fst]; exact hempty k hk,
      fun c' hc' => hpipe c' (hp ▸ List.mem_cons_of_mem _ hc'), fun reply hreply => ?_⟩
    rcases List.mem_append.mp hreply with hreply | hreply
    · exact hreplies reply hreply
    · rw [List.mem_singleton.mp hreply]
      by_cases he : (exec w.db (.llen key)).2.isError = true
      · exact .inr he
      · have hlen := exec_llen (Bool.eq_false_iff.mpr he)
        rw [hempty key hkey] at hlen
        exact .inl hlen
  | drained plan p result ha hp hr => exact h.drain hjobs hs hst hl ha hp hr
  | skip plan result backlog ha hp hsum hb =>
    refine h.conclude (by simp [ha, Activity.result]) (fun hin => ?_)
    have hzero := sumReplies_eq_zero (h.drained plan result ha hin).2.2 hsum
    omega
  | rested plan result p idle ha hp hr =>
    obtain ⟨p', hp', hcrew⟩ := hl.manned plan (.inr ⟨result, ha⟩)
    obtain rfl : p' = p := Option.some.inj (hp'.symm.trans hp)
    exact h.conclude (by simp [ha, Activity.result]) (fun _ => (hcrew.rested idle hr).2)
  | idle plan result ha hp hsum =>
    exact h.calm rfl rfl rfl (by simp [World.launch, World.send, Activity.result, ha])
      (by simp [World.launch, World.send])
  | _ =>
    exact h.calm rfl rfl rfl (by simp [World.launch, World.stop, World.send, Activity.result])
      (by simp [World.launch, World.stop, World.send])

theorem certified_of_runs {db₀ : Db Entry} (hjobs : 0 < cli.jobs)
    (h : Machine.Runs (World.step serde hdr clock cli) (.start cli db₀) w) : Certified cli w := by
  have hstart : Certified cli (World.start cli db₀ : World H) :=
    ⟨by simp [World.start, Activity.result], by simp [World.start, Activity.result],
      by simp [World.start], by simp [World.start]⟩
  induction h with
  | refl => exact hstart
  | tail hruns hs ih =>
    obtain ⟨a, _, hs⟩ := hs
    exact ih.step hjobs (sound_of_runs hruns) (staged_of_runs hruns) (linedUp_of_runs hruns)
      (World.step_move hs)

theorem Certified.in_time (h : Certified cli w) (hcalm : w.main.anyTimeout = false) :
    ∀ r ∈ w.main.results, r.timedOut = false ∧ r.totalJobs = cli.jobs ∧ 0 < r.workers := by
  intro r hr
  have hin : r.timedOut = false := by
    by_contra hout
    have hflag := h.flagged r (.inl hr) (Bool.not_eq_false _ ▸ hout)
    exact Bool.false_ne_true (hcalm.symm.trans hflag)
  exact ⟨hin, h.full r (.inl hr) hin⟩

theorem calm_at_exit {db₀ : Db Entry}
    (h : Machine.Runs (World.step serde hdr clock cli) (.start cli db₀) w)
    (ha : w.main.activity = .finished 0) : w.main.anyTimeout = false ∧
      w.main.results.map TrialResult.workers = cli.workers ∧
      w.main.idleResults.map IdlePollResult.workers = cli.workers := by
  obtain ⟨acts, hrun⟩ := Machine.exists_run h
  have hcode := ((gated_alarmed_of_run hrun).2.exit 0 ha).1
  refine ⟨?_, World.reports_all h ha⟩
  by_contra hout
  simp [hout] at hcode

/-- Where main exits with 0, whatever was lost, aborted or answered late on the way:
every level has workers, its drain has counted exactly `--jobs` jobs in time, and its
idle phase was measured. -/
theorem exit_zero_certifies {db₀ : Db Entry} (hjobs : 0 < cli.jobs)
    (h : Machine.Runs (World.step serde hdr clock cli) (.start cli db₀) w)
    (ha : w.main.activity = .finished 0) :
    w.main.results.map TrialResult.workers = cli.workers ∧
    w.main.idleResults.map IdlePollResult.workers = cli.workers ∧ (∀ n ∈ cli.workers, 0 < n) ∧
    (∀ r ∈ w.main.results, r.timedOut = false ∧ r.totalJobs = cli.jobs) ∧
    ∀ idle ∈ w.main.idleResults, idle.skippedReason = none := by
  obtain ⟨hcalm, hdrains, hidles⟩ := calm_at_exit h ha
  have hcert := certified_of_runs hjobs h
  have hin := hcert.in_time hcalm
  refine ⟨hdrains, hidles, fun n hn => ?_, fun r hr => ⟨(hin r hr).1, (hin r hr).2.1⟩,
    hcert.measured hcalm⟩
  rw [← hdrains] at hn
  obtain ⟨r, hr, rfl⟩ := List.mem_map.mp hn
  exact (hin r hr).2.2

end World

/-- One level, whose drain is preceded by a failed `LPOP`. -/
theorem exit_zero_certifies_one_level : ∃ w : World (List Nat), w.main.activity = .finished 0 ∧
    w.main.results.map TrialResult.workers = [1] ∧
    (∀ r ∈ w.main.results, r.timedOut = false ∧ r.totalJobs = 1) ∧
    ∀ idle ∈ w.main.idleResults, idle.skippedReason = none := by
  let cli : Cli := { oneJobCli with warmupJobs := 0 }
  let drain : List PhaseAct := [.worker 0 .start, .worker 0 .check, .worker 0 .issue,
    .worker 0 .fail, .worker 0 .miss, .worker 0 .wake, .worker 0 .check, .worker 0 .issue,
    .worker 0 .exec, .worker 0 .receive, .worker 0 (.record (some 5000)), .worker 0 .count, .worker 0 .signal,
    .drain .doneSeen, .drain .stopMonitor, .drain .shutdown, .worker 0 .check, .drain .recv,
    .drain .collectorEnd, .drain .joined, .drain (.readOut 1)]
  let idle : List PhaseAct := [.idle (.shutdown 30), .worker 0 .start, .worker 0 .check,
    .idle .readOut]
  obtain ⟨w, hrun, hw⟩ : ∃ w : World (List Nat),
      Machine.Runs (World.step (.envelopes [(0, 1000)]) Hdr.bucketed (fun _ _ => some 1000) cli)
        (.start cli (fun _ => none)) w ∧
      (match w.main.activity with | .finished code => code == 0 | _ => false) = true :=
    Machine.runs_any (List.flatten [fillOneJob, drain.map (.phase 0),
      [.main .proceed, .main .exec, .main .proceed], idle.map (.phase 1),
      [.main .proceed, .main .begin]]) (by decide +kernel)
  split at hw
  · rename_i code ha
    obtain rfl : code = 0 := by simpa using hw
    obtain ⟨hresults, _, _, hfull, hmeasured⟩ := exit_zero_certifies (by decide) hrun ha
    exact ⟨w, ha, hresults, hfull, hmeasured⟩
  · cases hw

end ResqueBench
