import ResqueBench.Startup

/-! The peak of the backlog. At no time do the queues hold more jobs than the largest
pass pushes, and each pass holds all of its jobs once; the memory warning estimates the
measured passes only. -/

namespace ResqueBench

open Redis Threads Web

section World

variable {H : Type} {serde : Serde} {hdr : Hdr H} {clock : Nat → Nat → Option Nat} {cli : Cli}
  {db₀ : Db Entry} {w w' : World H} {most : Nat}

def World.backlog (cli : Cli) (w : World H) : Nat := Multiset.card (queued cli.queueKeys w.db)

/-- The jobs that main has still to push. -/
def World.unsent (w : World H) : Multiset Entry :=
  match w.main.activity with
  | .enqueuing _ rest => pending w.main.pipe rest
  | _ => 0

theorem backlog_phase (hk : PhasesKept hdr cli w) {i : Nat} {a : PhaseAct} {p p' : Phase H}
    {db' : Db Entry} (hp : w.phases[i]? = some p) (hm : PhaseMove serde hdr w.db p a db' p') :
    Multiset.card (queued cli.queueKeys db') ≤ w.backlog cli := by
  rcases hk.popped hp hm with ⟨hq, _, _⟩ | ⟨e, hq, _, _⟩
  · rw [World.backlog, hq]
  · rw [World.backlog, hq, Multiset.card_cons]
    omega

/-- A command of main moves a job from its pipeline to a queue at the most. -/
theorem backlog_exec (hc : Piped cli w) {c : Cmd Entry} {pipe : List (Cmd Entry)}
    (hp : w.main.pipe = c :: pipe) :
    World.backlog cli { w with
      db := (exec w.db c).1
      main := { w.main with pipe := pipe, replies := w.main.replies ++ [(exec w.db c).2] } } +
    Multiset.card (World.unsent { w with
      db := (exec w.db c).1
      main := { w.main with pipe := pipe, replies := w.main.replies ++ [(exec w.db c).2] } }) ≤
    w.backlog cli + Multiset.card w.unsent := by
  unfold Piped at hc
  rw [hp] at hc
  cases ha : w.main.activity with
  | enqueuing plan rest =>
    simp only [ha] at hc
    have hf := hc c List.mem_cons_self
    simp only [World.backlog, World.unsent, ha, hp, pending_cons, Multiset.card_add]
    by_cases he : (exec w.db c).2.isError = true
    · rw [exec_error he]
      omega
    · rw [queued_exec_fills cli.queueKeys_nodup w.db hf (Bool.eq_false_iff.mpr he),
        Multiset.card_add]
      omega
  | clearing plan =>
    simp only [ha] at hc
    have hle := Multiset.card_le_card
      (queued_exec_clears cli.queueKeys w.db (hc c List.mem_cons_self))
    simpa only [World.backlog, World.unsent, ha, Multiset.card_zero, add_zero] using hle
  | measuring plan result =>
    simp only [ha] at hc
    obtain ⟨key, rfl⟩ := hc c List.mem_cons_self
    simp [World.backlog, World.unsent, ha]
  | _ => simp [ha] at hc

theorem backlog_step (hs : Sound serde hdr clock cli w)
    (hplans : ∀ plan, w.main.activity = .clearing plan → plan.jobs ≤ most)
    (h : w.backlog cli + Multiset.card w.unsent ≤ most)
    (hm : WorldMove serde hdr clock cli w w') :
    w'.backlog cli + Multiset.card w'.unsent ≤ most := by
  cases hm with
  | phase i a p p' db' hr hp hm =>
    have hle := backlog_phase hs.phases hp hm
    simp only [World.backlog, World.unsent] at h hle ⊢
    omega
  | exec c pipe hp => exact (backlog_exec hs.piped hp).trans h
  | cleared plan pipe rest ha hp hb =>
    have hzero : queued cli.queueKeys w.db = 0 := by
      rw [queued_eq_zero_iff]
      intro key hkey
      simpa [hp] using hs.clearing plan ha key hkey
    have hpend : pending pipe rest =
        pushedJobs serde (clock w.phases.length) w.phases.length plan.jobs :=
      congrArg _ (bulkEnqueue_pushes (makeQueueNames_ne_nil _ _) hb).2
    have hjobs := hplans plan ha
    simp only [World.backlog, World.unsent, World.send, hzero, hpend, Multiset.card_zero,
      Multiset.coe_card, length_pushedJobs, zero_add]
    exact hjobs
  | batch plan pipe rest ha hp hr =>
    simp only [World.backlog, World.unsent, ha, hp, pending_next] at h
    exact h
  | drained plan p result ha hl hr =>
    have hle : w.backlog cli ≤ most := (Nat.le_add_right _ _).trans h
    unfold World.drained
    split
    · exact hle
    · exact hle
  | _ => exact (Nat.le_add_right _ _).trans h

theorem Cli.plans_jobs {plan : Plan} (h : plan ∈ cli.plans) :
    plan.jobs = cli.jobs ∨ plan.jobs = cli.warmupJobs := by
  obtain ⟨n, _, hp⟩ := List.mem_flatMap.mp h
  rcases List.mem_append.mp hp with hp | hp
  · split at hp
    · exact .inr (List.mem_singleton.mp hp ▸ rfl)
    · cases hp
  · exact .inl (List.mem_singleton.mp hp ▸ rfl)

theorem backlog_le (hmost : max cli.jobs cli.warmupJobs ≤ most)
    (h₀ : Multiset.card (queued cli.queueKeys db₀) ≤ most)
    (h : Machine.Runs (World.step serde hdr clock cli) (.start cli db₀) w) :
    w.backlog cli + Multiset.card w.unsent ≤ most := by
  induction h with
  | refl => exact h₀
  | tail hruns hstep ih =>
    obtain ⟨a, _, hs⟩ := hstep
    refine backlog_step (sound_of_runs hruns) (fun plan ha => ?_) ih (World.step_move hs)
    have hplan : plan ∈ cli.plans :=
      (staged_of_runs hruns).plans (List.mem_append_left _ (by simp [ha, Activity.plan]))
    rcases Cli.plans_jobs hplan with he | he <;> omega

/-- Main gets to a state in which all jobs of a pass are in the queues. -/
theorem World.stocks {todo : List Plan} (hplans : ∀ plan ∈ todo, 0 < plan.jobs ∧ 0 < plan.nWorkers) :
    ∀ w : World H, Machine.Runs (World.step serde hdr clock cli) (.start cli db₀) w →
      Smooth cli w → w.main.activity = .between → w.main.todo = todo → ∀ plan ∈ todo,
      ∃ w', Machine.Runs (World.step serde hdr clock cli) (.start cli db₀) w' ∧
        w'.backlog cli = plan.jobs := by
  induction todo with
  | nil =>
    intro w _ _ _ _ plan hplan
    cases hplan
  | cons first todo ih =>
    intro w h hsmooth ha ht plan hplan
    rcases List.mem_cons.mp hplan with rfl | hplan
    · obtain ⟨db', hfill, hreach⟩ := World.fills hdr ha ht hsmooth.typed
      refine ⟨_, h.trans (Machine.Reach.mono (fun _ _ => trivial) hreach), ?_⟩
      have hq := hfill.queued (makeQueueNames_nodup _ _) (makeQueueNames_ne_nil _ _)
      show Multiset.card (queued cli.queueKeys db') = plan.jobs
      rw [show queued cli.queueKeys db' = _ from hq, Multiset.coe_card, length_pushedJobs]
    · obtain ⟨hjobs, hworkers⟩ := hplans first List.mem_cons_self
      obtain ⟨u, hreach, hbetween, htodo, _⟩ :=
        World.carries_out h hsmooth ha ht hjobs hworkers
      have hu := h.trans (Machine.Reach.mono (fun _ _ => trivial) hreach)
      exact ih (fun plan' hp => hplans plan' (List.mem_cons_of_mem _ hp)) u hu
        (hsmooth.reach (sound_of_runs h) hreach) hbetween htodo plan hplan

theorem Cli.plans_mem (cli : Cli) {n : Nat} (hn : n ∈ cli.workers) :
    (⟨n, cli.jobs, true⟩ : Plan) ∈ cli.plans ∧
      (0 < cli.warmupJobs → (⟨n, cli.warmupJobs, false⟩ : Plan) ∈ cli.plans) := by
  constructor
  · exact List.mem_flatMap.mpr ⟨n, hn, List.mem_append_right _ (List.mem_singleton.mpr rfl)⟩
  · intro hwarmup
    exact List.mem_flatMap.mpr ⟨n, hn, List.mem_append_left _ (by simp [hwarmup])⟩

end World

section Warning

variable {H : Type} {serde : Serde} {hdr : Hdr H} {clock : Nat → Nat → Option Nat}
  {db₀ : Db Entry} {lib : UrlLibrary} {lookup : String → TagLookup}
  {connect : String → Except (List String) Unit} {args : Arguments} {r : Ready}
  {log : List Event}

/-- What is left in the queues, or the larger pass. -/
def Arguments.peak (args : Arguments) (left : Nat) : Nat := max left (max args.jobs args.warmupJobs)

theorem Validated.backlog_peak (hv : Validated args) {specs : List PercentileSpec}
    (htyped : Typed (args.cli specs).queueKeys "queues" db₀) :
    IsGreatest (World.backlog (args.cli specs) '' {w : World H |
        Machine.Runs (World.step serde hdr clock (args.cli specs)) (.start (args.cli specs) db₀) w})
      (args.peak (Multiset.card (queued (args.cli specs).queueKeys db₀))) := by
  obtain ⟨n, hn⟩ := List.exists_mem_of_ne_nil _ hv.levels
  obtain ⟨hmeasured, hwarmup⟩ := (args.cli specs).plans_mem hn
  have hstocks : ∀ plan ∈ (args.cli specs).plans, ∃ w : World H,
      Machine.Runs (World.step serde hdr clock (args.cli specs)) (.start (args.cli specs) db₀) w ∧
      w.backlog (args.cli specs) = plan.jobs :=
    World.stocks (Cli.plans_carried hv.jobs hv.workers) _ .refl (.start htyped) rfl rfl
  unfold Arguments.peak
  constructor
  · by_cases hleft : max args.jobs args.warmupJobs ≤
        Multiset.card (queued (args.cli specs).queueKeys db₀)
    · rw [Nat.max_eq_left hleft]
      exact ⟨.start (args.cli specs) db₀, .refl, rfl⟩
    · rw [Nat.max_eq_right (by omega)]
      by_cases hlarger : args.jobs < args.warmupJobs
      · rw [Nat.max_eq_right hlarger.le]
        exact hstocks _ (hwarmup (Nat.zero_lt_of_lt hlarger))
      · rw [Nat.max_eq_left (by omega)]
        exact hstocks _ hmeasured
  · rintro _ ⟨w, h, rfl⟩
    exact (Nat.le_add_right _ _).trans (backlog_le (Nat.le_max_right _ _) (Nat.le_max_left _ _) h)

theorem Started.memory_warned_iff (hs : Started lib lookup connect args r log) :
    (∃ text, log.getLast? = some (.warn text)) ↔ 100 * (1024 * 1024) < args.jobs * 250 := by
  rw [hs.log]
  by_cases habove : 100 * (1024 * 1024) < args.jobs * 250
  · rw [memoryWarning, if_pos habove]
    exact iff_of_true ⟨_, List.getLast?_concat⟩ habove
  · rw [memoryWarning, if_neg habove, List.map_nil, List.append_nil, List.getLast?_concat]
    exact iff_of_false (fun ⟨_, he⟩ => Event.noConfusion (Option.some.inj he)) habove

/-- The queues hold as many jobs at the most as were left in them or as the larger pass
pushes. The memory warning is right about this peak but where only the warmup, or what was
left, goes above 100 MB. -/
theorem memory_warning_right_iff (hstart : (startup lib lookup connect args).Ends [] r log)
    (htyped : Typed r.cli.queueKeys "queues" db₀) :
    IsGreatest (World.backlog r.cli '' {w : World H |
        Machine.Runs (World.step serde hdr clock r.cli) (.start r.cli db₀) w})
      (args.peak (Multiset.card (queued r.cli.queueKeys db₀))) ∧
    (((∃ text, log.getLast? = some (.warn text)) ↔
      ∃ w : World H, Machine.Runs (World.step serde hdr clock r.cli) (.start r.cli db₀) w ∧
        100 * (1024 * 1024) < w.backlog r.cli * 250) ↔
      ¬ (args.jobs * 250 ≤ 100 * (1024 * 1024) ∧ 100 * (1024 * 1024) <
        max (Multiset.card (queued r.cli.queueKeys db₀)) args.warmupJobs * 250)) := by
  have hs := startup_ends hstart
  obtain ⟨specs, hcli⟩ := hs.cli
  rw [hs.memory_warned_iff]
  rw [hcli] at htyped ⊢
  have hpeak : IsGreatest (World.backlog (args.cli specs) '' {w : World H |
      Machine.Runs (World.step serde hdr clock (args.cli specs)) (.start (args.cli specs) db₀) w})
      _ := hs.passed.backlog_peak htyped
  refine ⟨hpeak, ?_⟩
  have habove : (∃ w : World H,
      Machine.Runs (World.step serde hdr clock (args.cli specs)) (.start (args.cli specs) db₀) w ∧
        100 * (1024 * 1024) < w.backlog (args.cli specs) * 250) ↔
      100 * (1024 * 1024) <
        args.peak (Multiset.card (queued (args.cli specs).queueKeys db₀)) * 250 := by
    constructor
    · rintro ⟨w, h, habove⟩
      exact habove.trans_le (Nat.mul_le_mul_right 250 (hpeak.2 ⟨w, h, rfl⟩))
    · intro habove
      obtain ⟨w, h, he⟩ := hpeak.1
      exact ⟨w, h, by rwa [he]⟩
  rw [habove, Arguments.peak]
  omega

end Warning

/-- A small drain after a warmup of half a million jobs, which no warning announces. -/
theorem memory_warning_right_iff_warmup : ∃ (args : Arguments) (r : Ready) (log : List Event),
    (startup Plain.library (fun _ => .info "redis_version:7.4.0\r\n") (fun _ => .ok ())
      args).Ends [] r log ∧
    ∃ w : World (List Nat), Machine.Runs (World.step (.envelopes []) Hdr.bucketed
        (fun _ _ => some 1000) r.cli) (.start r.cli (fun _ => none)) w ∧
      w.backlog r.cli = 500000 ∧ ¬ ((∃ text, log.getLast? = some (.warn text)) ↔
        100 * (1024 * 1024) < w.backlog r.cli * 250) := by
  let args : Arguments := { Arguments.default with jobs := 1, warmupJobs := 500000 }
  obtain ⟨r, log, hends⟩ : ∃ r log, (startup Plain.library
      (fun _ => .info "redis_version:7.4.0\r\n") (fun _ => .ok ()) args).Ends [] r log :=
    Script.ends_of_isOk (by decide +kernel)
  have hempty : Multiset.card (queued r.cli.queueKeys (fun _ => none)) = 0 := by
    rw [queued_eq_zero_iff.mpr (fun _ _ => rfl), Multiset.card_zero]
  have hright : IsGreatest (World.backlog r.cli '' {w : World (List Nat) |
      Machine.Runs (World.step (.envelopes []) Hdr.bucketed (fun _ _ => some 1000) r.cli)
        (.start r.cli (fun _ => none)) w}) _ ∧ _ :=
    memory_warning_right_iff hends (.empty _ _)
  obtain ⟨⟨⟨w, hruns, hpeak⟩, _⟩, hiff⟩ := hright
  have hreached : w.backlog r.cli = 500000 := by
    rw [hpeak, hempty]
    rfl
  refine ⟨args, r, log, hends, w, hruns, hreached, fun hwarned => ?_⟩
  refine hiff.mp ?_ ⟨by decide, by rw [hempty]; decide⟩
  rw [hwarned]
  constructor
  · intro habove
    exact ⟨w, hruns, habove⟩
  · intro _
    rw [hreached]
    decide

end ResqueBench
