import ResqueBench.ExitStatus
import ResqueBench.TypedKeys
import ResqueBench.InTime

/-! Clean runs. A trial that is alone with the database is one of the program's, so main
can carry out plan after plan, each of them in time. -/

namespace Redis

theorem Typed.execAll {ε : Type*} {keys : List String} {registry : String} {cs : List (Cmd ε)}
    {db : Db ε} (h : Typed keys registry db) (hr : registry ∉ keys)
    (hc : ∀ c ∈ cs, c.suits keys registry) :
    ∃ db', Redis.execAll db cs = some db' := by
  induction cs generalizing db with
  | nil => exact ⟨db, rfl⟩
  | cons c cs ih =>
    have hsuits := hc c List.mem_cons_self
    obtain ⟨db', hcs⟩ := ih (h.exec hr hsuits) (fun c' hc' => hc c' (List.mem_cons_of_mem _ hc'))
    exact ⟨db', by simp [Redis.execAll, h.reply hsuits, hcs]⟩

end Redis

namespace ResqueBench

open Redis Threads

section World

variable {H : Type} {serde : Serde} {hdr : Hdr H} {clock : Nat → Nat → Option Nat} {cli : Cli}
  {db₀ : Db Entry} {w w' : World H} {plan : Plan}

/-- A run of the last phase that no other client interrupts. -/
theorem World.alone {ps : List (Phase H)} {p : Phase H} {t : Trial H}
    (hr : w.main.activity.returned = false) (hp : w.phases = ps ++ [p])
    (h : Machine.Runs (Trial.step serde hdr) ⟨w.db, p⟩ t) :
    Machine.Reach (World.step serde hdr clock cli) WorldAct.succeeds w
      { w with db := t.db, phases := ps ++ [t.phase] } := by
  let embed (t : Trial H) : World H := { w with db := t.db, phases := ps ++ [t.phase] }
  have hstep : ∀ {u a u'}, Trial.step serde hdr u a = some u' → ∃ b : WorldAct, b.succeeds ∧
      World.step serde hdr clock cli (embed u) b = some (embed u') := by
    intro u a u' hs
    obtain ⟨⟨db', p'⟩, hphase, rfl⟩ := Option.map_eq_some_iff.mp hs
    exact ⟨.phase ps.length a, rfl, by simp [World.step, hr, stepAt, hphase, embed]⟩
  have hstart : embed ⟨w.db, p⟩ = w := by simp only [embed, ← hp]
  rw [← hstart]
  exact Machine.Reach.map embed (fun _ hs => hstep hs) h

/-- Main as it starts the drain of a plan. -/
def World.drains (hdr : Hdr H) (cli : Cli) (w : World H) (plan : Plan) : World H :=
  w.launch (.draining plan)
    (runDrainTrial hdr ⟨cli.queueKeys, plan.jobs, cli.latencyPercentiles⟩ plan.nWorkers)

theorem World.sends {rest : List (List (Cmd Entry))} {db' : Db Entry} :
    ∀ w : World H, w.main.activity = .enqueuing plan rest →
      (∀ r ∈ w.main.replies, r.isError = false) →
      Redis.execAll w.db (w.main.pipe ++ rest.flatten) = some db' →
      Machine.Reach (World.step serde hdr clock cli) WorldAct.succeeds w
        (World.drains hdr cli { w with db := db' } plan) := by
  induction rest with
  | nil =>
    intro w ha hr hexec
    rw [List.flatten_nil, List.append_nil] at hexec
    obtain ⟨hdb, hanswers⟩ := execAll_spec hexec
    have hactivity : w.flushed.main.activity = .enqueuing plan [] := ha
    have hok : w.flushed.main.replies.any Reply.isError = false := by
      simpa [World.flushed, or_imp, forall_and] using And.intro hr hanswers
    have hstep : w.flushed.step serde hdr clock cli (.main .proceed) =
        some (w.flushed.drains hdr cli plan) := by
      simp [World.step_proceed (w := w.flushed) rfl, World.proceed, hactivity, hok, World.drains]
    rw [← hdb]
    exact (World.flush serde hdr clock cli w).tail ⟨.main .proceed, rfl, hstep⟩
  | cons pipe rest ih =>
    intro w ha hr hexec
    rw [List.flatten_cons, execAll_append] at hexec
    obtain ⟨db₁, hpipe, hrest⟩ := Option.bind_eq_some_iff.mp hexec
    obtain ⟨hdb, hanswers⟩ := execAll_spec hpipe
    have hactivity : w.flushed.main.activity = .enqueuing plan (pipe :: rest) := ha
    have hok : w.flushed.main.replies.any Reply.isError = false := by
      simpa [World.flushed, or_imp, forall_and] using And.intro hr hanswers
    have hstep : w.flushed.step serde hdr clock cli (.main .proceed) =
        some (w.flushed.send (.enqueuing plan rest) pipe) := by
      simp [World.step_proceed (w := w.flushed) rfl, World.proceed, hactivity, hok]
    rw [← hdb] at hrest
    exact ((World.flush serde hdr clock cli w).tail ⟨.main .proceed, rfl, hstep⟩).trans
      (ih (w.flushed.send (.enqueuing plan rest) pipe) rfl (by simp [World.send]) hrest)

theorem World.fills (hdr : Hdr H) {todo : List Plan} (ha : w.main.activity = .between)
    (ht : w.main.todo = plan :: todo) (htyped : Typed cli.queueKeys "queues" w.db) :
    ∃ db', Filled serde (clock w.phases.length) w.phases.length cli.queueNames plan.jobs db' ∧
      Machine.Reach (World.step serde hdr clock cli) WorldAct.succeeds w
        (World.drains hdr cli
          { w with db := db', main := { w.main with todo := todo } } plan) := by
  obtain ⟨pipe, rest, hbulk, hsuits⟩ :=
    bulkEnqueue_suits serde (clock w.phases.length) w.phases.length cli plan.jobs
  obtain ⟨db', hexec⟩ : ∃ db', Redis.execAll w.db
      (preTrialClear cli.queueNames cli.allowFlushdb ++ (pipe :: rest).flatten) = some db' := by
    refine htyped.execAll (queues_notMem_queueKeys _) (fun c hc => ?_)
    rcases List.mem_append.mp hc with hc | hc
    · exact preTrialClear_suits hc
    · obtain ⟨pipe', hpipe', hc⟩ := List.mem_flatten.mp hc
      exact hsuits pipe' hpipe' c hc
  refine ⟨db', ⟨cli.allowFlushdb, w.db, by rw [clearAndFill, hbulk]; exact hexec⟩, ?_⟩
  rw [execAll_append] at hexec
  obtain ⟨db₁, hclear, hfill⟩ := Option.bind_eq_some_iff.mp hexec
  obtain ⟨hdb, hanswers⟩ := execAll_spec hclear
  let u : World H := World.send { w with main := { w.main with todo := todo } } (.clearing plan)
    (preTrialClear cli.queueNames cli.allowFlushdb)
  have hbegin : w.step serde hdr clock cli (.main .begin) = some u := by
    simp [World.step, World.mainStep, ha, ht, u]
  have hok : u.flushed.main.replies.any Reply.isError = false := by
    simpa [World.flushed, u, World.send] using hanswers
  have hstep : u.flushed.step serde hdr clock cli (.main .proceed) =
      some (u.flushed.send (.enqueuing plan rest) pipe) := by
    have hactivity : u.flushed.main.activity = .clearing plan := rfl
    have hphases : u.flushed.phases = w.phases := rfl
    simp [World.step_proceed (w := u.flushed) rfl, World.proceed, hactivity, hok, hphases, hbulk]
  have hfilled : Redis.execAll u.flushed.db (pipe ++ rest.flatten) = some db' := by
    rw [← List.flatten_cons, ← hfill, ← hdb]
    rfl
  have hsends : Machine.Reach (World.step serde hdr clock cli) WorldAct.succeeds
      (u.flushed.send (.enqueuing plan rest) pipe)
      (World.drains hdr cli { u.flushed with db := db' } plan) :=
    World.sends _ rfl (by simp [World.send]) hfilled
  exact .head ⟨.main .begin, rfl, hbegin⟩ (((World.flush serde hdr clock cli u).tail
    ⟨.main .proceed, rfl, hstep⟩).trans hsends)

/-- The drain of a filled backlog, undisturbed, returns in time. -/
theorem World.drains_in_time (hdr : Hdr H) {u : World H} (hjobs : 0 < plan.jobs)
    (hworkers : 0 < plan.nWorkers) {trial : Nat}
    (hfill : Filled serde (clock trial) trial cli.queueNames plan.jobs u.db) :
    ∃ u' r, Machine.Reach (World.step serde hdr clock cli) WorldAct.succeeds
        (u.drains hdr cli plan) (World.drained u' cli plan r) ∧ r.timedOut = false ∧
      u'.main.todo = u.main.todo ∧ u'.main.anyTimeout = u.main.anyTimeout := by
  let cfg : TrialConfig := ⟨cli.queueKeys, plan.jobs, cli.latencyPercentiles⟩
  have hwait : Waiting serde hdr cfg plan.nWorkers u.db
      ⟨u.db, runDrainTrial hdr cfg plan.nWorkers⟩ := ⟨.refl, ⟨_, rfl, rfl⟩, rfl⟩
  obtain ⟨t, r, hruns, hr, hin⟩ := hwait.returns_in_time hjobs (makeQueueNames_nodup _ _)
    (makeQueueNames_ne_nil _ _) hfill hworkers
  let u' : World H :=
    { u.drains hdr cli plan with db := t.db, phases := u.phases ++ [t.phase] }
  have halone : Machine.Reach (World.step serde hdr clock cli) WorldAct.succeeds
      (u.drains hdr cli plan) u' := World.alone rfl rfl hruns
  have hproceed : u'.step serde hdr clock cli (.main .proceed) = some (u'.drained cli plan r) := by
    have hactivity : u'.main.activity = .draining plan := rfl
    have hlast : u'.phases.getLast? = some t.phase := List.getLast?_concat
    simp [World.step_proceed (w := u') rfl, World.proceed, hactivity, hlast, hr]
  exact ⟨u', r, halone.tail ⟨.main .proceed, rfl, hproceed⟩, hin, rfl, rfl⟩

/-- Main measures what the drain has left, and gets to the next level. -/
theorem World.measures {r : TrialResult}
    (h : Machine.Runs (World.step serde hdr clock cli) (.start cli db₀) w)
    (hsmooth : Smooth cli w) (ha : w.main.activity = .measuring plan r) :
    ∃ w', Machine.Reach (World.step serde hdr clock cli) WorldAct.succeeds w w' ∧
      w'.main.activity = .between ∧ w'.main.todo = w.main.todo ∧
      w'.main.anyTimeout = w.main.anyTimeout := by
  have hflush := World.flush serde hdr clock cli w
  have hactivity : w.flushed.main.activity = .measuring plan r := ha
  obtain ⟨backlog, hsum⟩ := sumReplies_isSome
    ((hsmooth.reach (sound_of_runs h) hflush).counts plan r hactivity)
  by_cases hb : 0 < backlog
  · have hstep : w.flushed.step serde hdr clock cli (.main .proceed) =
        some (w.flushed.conclude r (.skipped plan.nWorkers (skippedReason backlog))) := by
      simp [World.step_proceed (w := w.flushed) rfl, World.proceed, hactivity, hsum, hb]
    exact ⟨_, hflush.tail ⟨.main .proceed, rfl, hstep⟩, rfl, rfl, rfl⟩
  · let u := w.flushed.launch (.idling plan r) (runIdlePollTrial cli.queueKeys plan.nWorkers)
    have hstep : w.flushed.step serde hdr clock cli (.main .proceed) = some u := by
      simp [World.step_proceed (w := w.flushed) rfl, World.proceed, hactivity, hsum, hb, u]
    have hreach := hflush.tail ⟨.main .proceed, rfl, hstep⟩
    have hu := h.trans (Machine.Reach.mono (fun _ _ => trivial) hreach)
    obtain ⟨v, idle, hruns, hmain, hproceed⟩ := World.idling_proceeds hu (w := u) rfl
    have htodo : v.main.todo = u.main.todo := congrArg Main.todo hmain
    have htimeout : v.main.anyTimeout = u.main.anyTimeout := congrArg Main.anyTimeout hmain
    exact ⟨v.conclude r idle, (hreach.trans hruns).tail ⟨.main .proceed, rfl, hproceed⟩, rfl,
      htodo, htimeout⟩

/-- Main carries out the next plan in time. -/
theorem World.carries_out {todo : List Plan}
    (h : Machine.Runs (World.step serde hdr clock cli) (.start cli db₀) w)
    (hsmooth : Smooth cli w) (ha : w.main.activity = .between) (ht : w.main.todo = plan :: todo)
    (hjobs : 0 < plan.jobs) (hworkers : 0 < plan.nWorkers) :
    ∃ w', Machine.Reach (World.step serde hdr clock cli) WorldAct.succeeds w w' ∧
      w'.main.activity = .between ∧ w'.main.todo = todo ∧
      w'.main.anyTimeout = w.main.anyTimeout := by
  obtain ⟨db', hfill, hfills⟩ := World.fills hdr ha ht hsmooth.typed
  obtain ⟨u, r, hdrains, hin, htodo, htimeout⟩ := World.drains_in_time hdr
    (u := { w with db := db', main := { w.main with todo := todo } }) hjobs hworkers hfill
  have hreach := hfills.trans hdrains
  by_cases hm : plan.measured = true
  · have hmeasuring : (u.drained cli plan r).main.activity = .measuring plan r := by
      simp [World.drained, hm, World.send]
    obtain ⟨w', hruns, hbetween, htodo', htimeout'⟩ := World.measures
      (h.trans (Machine.Reach.mono (fun _ _ => trivial) hreach))
      (hsmooth.reach (sound_of_runs h) hreach) hmeasuring
    refine ⟨w', hreach.trans hruns, hbetween, htodo'.trans ?_, htimeout'.trans ?_⟩
    · simpa [World.drained, hm, World.send] using htodo
    · simpa [World.drained, hm, World.send, hin] using htimeout
  · refine ⟨_, hreach, ?_, ?_, ?_⟩
    · simp [World.drained, hm, World.send]
    · simpa [World.drained, hm, World.send] using htodo
    · simpa [World.drained, hm, World.send] using htimeout

theorem World.carries_out_all {todo : List Plan}
    (hplans : ∀ plan ∈ todo, 0 < plan.jobs ∧ 0 < plan.nWorkers) :
    ∀ w : World H, Machine.Runs (World.step serde hdr clock cli) (.start cli db₀) w →
      Smooth cli w → w.main.activity = .between → w.main.todo = todo →
      ∃ w', Machine.Reach (World.step serde hdr clock cli) WorldAct.succeeds w w' ∧
        w'.main.activity = .finished (if w.main.anyTimeout then 1 else 0) := by
  induction todo with
  | nil =>
    intro w _ _ ha ht
    have hstep : w.step serde hdr clock cli (.main .begin) =
        some (w.send (.finished (if w.main.anyTimeout then 1 else 0)) []) := by
      simp [World.step, World.mainStep, ha, ht]
    exact ⟨_, .single ⟨.main .begin, rfl, hstep⟩, rfl⟩
  | cons plan todo ih =>
    intro w h hsmooth ha ht
    obtain ⟨hjobs, hworkers⟩ := hplans plan List.mem_cons_self
    obtain ⟨u, hreach, hbetween, htodo, htimeout⟩ :=
      World.carries_out h hsmooth ha ht hjobs hworkers
    have hu := h.trans (Machine.Reach.mono (fun _ _ => trivial) hreach)
    obtain ⟨w', hruns, hexit⟩ := ih (fun plan' hp => hplans plan' (List.mem_cons_of_mem _ hp)) u hu
      (hsmooth.reach (sound_of_runs h) hreach) hbetween htodo
    exact ⟨w', hreach.trans hruns, htimeout ▸ hexit⟩

theorem Cli.plans_carried (hjobs : 0 < cli.jobs) (hworkers : ∀ n ∈ cli.workers, 0 < n) :
    ∀ plan ∈ cli.plans, 0 < plan.jobs ∧ 0 < plan.nWorkers := by
  intro plan hplan
  obtain ⟨n, hn, hp⟩ := List.mem_flatMap.mp hplan
  have hpos := hworkers n hn
  rcases List.mem_append.mp hp with hp | hp
  · split at hp
    · rename_i hwarmup
      rw [List.mem_singleton.mp hp]
      exact ⟨hwarmup, hpos⟩
    · cases hp
  · rw [List.mem_singleton.mp hp]
    exact ⟨hjobs, hpos⟩

theorem anyTimeout_kept (ht : w.main.anyTimeout = true)
    (h : Machine.Runs (World.step serde hdr clock cli) w w') : w'.main.anyTimeout = true := by
  refine h.invariant (P := fun u => u.main.anyTimeout = true) (fun hu _ hstep => ?_) ht
  rcases (World.step_move hstep).anyTimeout with hsame | ⟨hset, _⟩
  · exact hsame.trans hu
  · exact hset

theorem Activity.between_of_rank {a : Activity} (h : a.rank = 1) : a = .between := by
  cases a with
  | between => rfl
  | _ => cases h

/-- Between two levels, main can still exit with 0 if and only if no level has timed out
and every level has workers. What a warmup has lost or left behind is no obstacle. -/
theorem can_exit_zero_iff (hjobs : 0 < cli.jobs) (htyped : Typed cli.queueKeys "queues" db₀)
    (h : Machine.Runs (World.step serde hdr clock cli) (.start cli db₀) w)
    (ha : w.main.activity = .between) :
    (∃ w', Machine.Runs (World.step serde hdr clock cli) w w' ∧
      w'.main.activity = .finished 0) ↔
    w.main.anyTimeout = false ∧ ∀ n ∈ cli.workers, 0 < n := by
  constructor
  · rintro ⟨w', hruns, hexit⟩
    obtain ⟨hcalm, hdrains, _⟩ := calm_at_exit (h.trans hruns) hexit
    have hcert := certified_of_runs hjobs (h.trans hruns)
    refine ⟨?_, fun n hn => ?_⟩
    · by_contra hout
      have hkept := anyTimeout_kept (Bool.not_eq_false _ ▸ hout) hruns
      exact Bool.false_ne_true (hcalm.symm.trans hkept)
    · rw [← hdrains] at hn
      obtain ⟨r, hr, rfl⟩ := List.mem_map.mp hn
      exact (hcert.in_time hcalm r hr).2.2
  · rintro ⟨hcalm, hworkers⟩
    have hsmooth := smooth_of_runs htyped h (by simp [ha])
    have hplans : ∀ plan ∈ w.main.todo, 0 < plan.jobs ∧ 0 < plan.nWorkers := fun plan hp =>
      Cli.plans_carried hjobs hworkers plan
        ((staged_of_runs h).plans (List.mem_append_right _ hp))
    obtain ⟨w', hreach, hexit⟩ := World.carries_out_all hplans w h hsmooth ha rfl
    rw [hcalm] at hexit
    exact ⟨w', Machine.Reach.mono (fun _ _ => trivial) hreach, hexit⟩

end World

/-- The warmup was aborted with an `LPOP` on the wire. With a level of no workers, even
the start is too late. -/
theorem can_exit_zero_iff_after_warmup :
    (∃ w w' : World (List Nat), w.phases.length = 1 ∧
      Machine.Runs (World.step (.envelopes [(0, 1000)]) Hdr.bucketed (fun _ _ => some 1000)
        oneJobCli) w w' ∧ w'.main.activity = .finished 0) ∧
    ∀ w' : World (List Nat), Machine.Runs (World.step (.envelopes [(0, 1000)]) Hdr.bucketed
      (fun _ _ => some 1000) { oneJobCli with workers := [1, 0] })
      (.start { oneJobCli with workers := [1, 0] } (fun _ => none)) w' →
      w'.main.activity ≠ .finished 0 := by
  constructor
  · obtain ⟨w, hrun, hw⟩ : ∃ w : World (List Nat),
        Machine.Runs (World.step (.envelopes [(0, 1000)]) Hdr.bucketed (fun _ _ => some 1000)
          oneJobCli) (.start oneJobCli (fun _ => none)) w ∧
        (w.main.activity.rank == 1 && w.phases.length == 1 && !w.main.anyTimeout) = true :=
      Machine.runs_any (fillOneJob ++ abortedDrain ++ [.main .proceed]) (by decide +kernel)
    simp only [Bool.and_eq_true, beq_iff_eq, Bool.not_eq_true'] at hw
    obtain ⟨⟨hrank, hphases⟩, hcalm⟩ := hw
    obtain ⟨w', hruns, hexit⟩ := (can_exit_zero_iff (by decide) (.empty _ _) hrun
      (Activity.between_of_rank hrank)).mpr ⟨hcalm, by decide⟩
    exact ⟨w, w', hphases, hruns, hexit⟩
  · intro w' hruns hexit
    have hworkers := ((can_exit_zero_iff (by decide) (.empty _ _) .refl rfl).mp
      ⟨w', hruns, hexit⟩).2
    exact absurd (hworkers 0 (by decide)) (by decide)

end ResqueBench
