import ResqueBench.ReportedTrials
import ResqueBench.WindDown

/-! Main can always return. Every phase of a run of the program is a run of that phase
among other clients, and winds down as such. -/

namespace ResqueBench

open Redis Threads

section World

variable {H : Type} {serde : Serde} {hdr : Hdr H} {clock : Nat → Nat → Option Nat} {cli : Cli}
  {db₀ : Db Entry} {w w' : World H} {a : WorldAct}

theorem World.step_cases (h : w.step serde hdr clock cli a = some w') :
    (∃ i b p p' db', a = .phase i b ∧ w.phases[i]? = some p ∧
      p.step serde hdr w.db b = some (db', p') ∧
      w' = { w with db := db', phases := w.phases.set i p' }) ∨
    ∃ b, a = .main b ∧ w.mainStep serde hdr clock cli b = some w' := by
  cases a with
  | phase i b =>
    simp only [World.step] at h
    split at h
    · cases h
    · obtain ⟨⟨db', phases'⟩, hs, rfl⟩ := Option.map_eq_some_iff.mp h
      obtain ⟨p, p', hp, hstep, rfl⟩ := stepAt_cases hs
      exact .inl ⟨i, b, p, p', db', rfl, hp, hstep, rfl⟩
  | main b => exact .inr ⟨b, rfl, h⟩

/-- A phase as main starts it for a plan. -/
def Plan.starts (hdr : Hdr H) (cli : Cli) (plan : Plan) (p : Phase H) : Prop :=
  p = runDrainTrial hdr ⟨cli.queueKeys, plan.jobs, cli.latencyPercentiles⟩ plan.nWorkers ∨
    p = runIdlePollTrial cli.queueKeys plan.nWorkers

/-- The plans that main carries out or has still to carry out. -/
def World.plans (w : World H) : List Plan := w.main.activity.plan.toList ++ w.main.todo

theorem World.proceed_cases (h : w.proceed serde hdr clock cli = some w') :
    w'.plans ⊆ w.plans ∧ (w'.phases = w.phases ∨
      ∃ plan ∈ w.plans, ∃ p, plan.starts hdr cli p ∧ w'.phases = w.phases ++ [p]) := by
  unfold World.proceed at h
  split at h
  · rename_i plan ha
    split at h
    · cases h
      exact ⟨by simp [World.plans, World.stop, World.send, Activity.plan], .inl rfl⟩
    · dsimp only at h
      split at h <;> cases h <;>
        exact ⟨by simp [World.plans, World.stop, World.send, Activity.plan, ha], .inl rfl⟩
  · rename_i plan rest ha
    split at h
    · cases h
      exact ⟨by simp [World.plans, World.stop, World.send, Activity.plan], .inl rfl⟩
    · split at h <;> cases h
      · exact ⟨by simp [World.plans, World.send, Activity.plan, ha], .inl rfl⟩
      · refine ⟨by simp [World.plans, World.launch, World.send, Activity.plan, ha], .inr ?_⟩
        exact ⟨plan, by simp [World.plans, Activity.plan, ha], _, .inl rfl, rfl⟩
  · rename_i plan ha
    obtain ⟨result, _, rfl⟩ := Option.map_eq_some_iff.mp h
    unfold World.drained
    split <;> exact ⟨by simp [World.plans, World.send, Activity.plan, ha], .inl rfl⟩
  · rename_i plan result ha
    split at h
    · cases h
      exact ⟨by simp [World.plans, World.stop, World.send, Activity.plan], .inl rfl⟩
    · split at h <;> cases h
      · exact ⟨by simp [World.plans, World.conclude, Activity.plan], .inl rfl⟩
      · refine ⟨by simp [World.plans, World.launch, World.send, Activity.plan, ha], .inr ?_⟩
        exact ⟨plan, by simp [World.plans, Activity.plan, ha], _, .inr rfl, rfl⟩
  · obtain ⟨idle, _, rfl⟩ := Option.map_eq_some_iff.mp h
    exact ⟨by simp [World.plans, World.conclude, Activity.plan], .inl rfl⟩
  · cases h

theorem World.mainStep_cases {b : MainAct} (h : w.mainStep serde hdr clock cli b = some w') :
    w'.plans ⊆ w.plans ∧ (w'.phases = w.phases ∨
      ∃ plan ∈ w.plans, ∃ p, plan.starts hdr cli p ∧ w'.phases = w.phases ++ [p]) := by
  cases b <;> simp only [World.mainStep] at h
  case begin =>
    split at h
    · rename_i plan todo ha ht
      cases h
      exact ⟨by simp [World.plans, World.send, Activity.plan, ha, ht], .inl rfl⟩
    · cases h
      exact ⟨by simp [World.plans, World.send, Activity.plan], .inl rfl⟩
    · cases h
  case exec =>
    split at h
    · cases h
    · cases h
      exact ⟨List.Subset.refl _, .inl rfl⟩
  case proceed =>
    split at h
    · exact World.proceed_cases h
    · cases h
  case fail =>
    split at h <;> cases h
    exact ⟨by simp [World.plans, World.stop, World.send, Activity.plan], .inl rfl⟩

/-- Each phase is a run of a phase that main started for one of the plans. -/
structure Staged (serde : Serde) (hdr : Hdr H) (cli : Cli) (w : World H) : Prop where
  plans : w.plans ⊆ cli.plans
  phases : ∀ p ∈ w.phases, ∃ plan ∈ cli.plans, ∃ p₀, plan.starts hdr cli p₀ ∧
    Machine.Runs (Phase.stepAmid serde hdr) p₀ p

theorem Staged.step (h : Staged serde hdr cli w) (hs : w.step serde hdr clock cli a = some w') :
    Staged serde hdr cli w' := by
  rcases World.step_cases hs with ⟨i, b, p, p', db', rfl, hp, hstep, rfl⟩ | ⟨b, rfl, hmain⟩
  · refine ⟨h.plans, fun q hq => ?_⟩
    rcases List.mem_or_eq_of_mem_set hq with hq | rfl
    · exact h.phases q hq
    · obtain ⟨plan, hplan, p₀, hstart, hruns⟩ := h.phases p (List.mem_of_getElem? hp)
      have hamid : p.stepAmid serde hdr (w.db, b) = some q := by simp [Phase.stepAmid, hstep]
      exact ⟨plan, hplan, p₀, hstart, hruns.trans (Machine.runs_step hamid)⟩
  · obtain ⟨hplans, hphases | ⟨plan, hplan, p, hstart, hphases⟩⟩ := World.mainStep_cases hmain
    · exact ⟨List.Subset.trans hplans h.plans, hphases ▸ h.phases⟩
    · refine ⟨List.Subset.trans hplans h.plans, fun q hq => ?_⟩
      rw [hphases, List.mem_append, List.mem_singleton] at hq
      rcases hq with hq | rfl
      · exact h.phases q hq
      · exact ⟨plan, h.plans hplan, q, hstart, .refl⟩

theorem staged_of_runs
    (h : Machine.Runs (World.step serde hdr clock cli) (.start cli db₀) w) :
    Staged serde hdr cli w := by
  refine h.invariant (fun hst _ hstep => hst.step hstep) ⟨?_, by simp [World.start]⟩
  simp [World.plans, World.start, Activity.plan]

/-- Main awaits a phase of the kind that it started. -/
def Awaits (w : World H) : Prop :=
  match w.main.activity with
  | .draining _ => ∃ p, w.phases.getLast? = some p ∧ p.tasks.config.isSome = true
  | .idling _ _ => ∃ p, w.phases.getLast? = some p ∧ p.tasks.config = none
  | _ => True

theorem Awaits.step (h : Awaits w) (hm : WorldMove serde hdr clock cli w w') : Awaits w' := by
  cases hm with
  | phase i a p p' db' hr hp hm =>
    unfold Awaits at h ⊢
    split at h <;> rename_i ha <;> simp only [ha]
    all_goals
      obtain ⟨q, hlast, hconfig⟩ := h
      rcases getLast?_set (x := p') hp hlast with ⟨hl, rfl⟩ | hl
      · exact ⟨p', hl, by rw [hm.config]; exact hconfig⟩
      · exact ⟨q, hl, hconfig⟩
  | exec c pipe hp => exact h
  | drain plan ha hp hr => exact ⟨_, List.getLast?_concat, rfl⟩
  | idle plan result ha hp hs => exact ⟨_, List.getLast?_concat, rfl⟩
  | drained plan p result ha hl hr =>
    unfold World.drained
    split <;> trivial
  | _ => trivial

theorem awaits_of_runs
    (h : Machine.Runs (World.step serde hdr clock cli) (.start cli db₀) w) : Awaits w :=
  h.invariant (fun ha _ hstep => ha.step (World.step_move hstep)) trivial

def WorldAct.fails : WorldAct → Bool
  | .main .fail => true
  | _ => false

/-- Nothing fails that main awaits. -/
def WorldAct.succeeds (a : WorldAct) : Prop := a.fails = false

/-- How many stages main has before it, with the plan it carries out. -/
def Activity.rank : Activity → Nat
  | .clearing _ => 6
  | .enqueuing _ _ => 5
  | .draining _ => 4
  | .measuring _ _ => 3
  | .idling _ _ => 2
  | .between => 1
  | .finished _ | .stopped => 0

def World.rank (w : World H) : Nat := 6 * w.main.todo.length + w.main.activity.rank

/-- A run without a failure that brings main nearer to its return. -/
def World.Advances (serde : Serde) (hdr : Hdr H) (clock : Nat → Nat → Option Nat) (cli : Cli)
    (w : World H) : Prop :=
  ∃ w', Machine.Reach (World.step serde hdr clock cli) WorldAct.succeeds w w' ∧ w'.rank < w.rank

theorem World.Advances.after
    (hruns : Machine.Reach (World.step serde hdr clock cli) WorldAct.succeeds w w')
    (h : w'.Advances serde hdr clock cli) (hle : w'.rank ≤ w.rank) :
    w.Advances serde hdr clock cli := by
  obtain ⟨u, hu, hlt⟩ := h
  exact ⟨u, hruns.trans hu, by omega⟩

theorem World.advances_of_step (a : WorldAct) (w' : World H)
    (hstep : w.step serde hdr clock cli a = some w') (ha : a.succeeds) (hlt : w'.rank < w.rank) :
    w.Advances serde hdr clock cli :=
  ⟨w', .single ⟨a, ha, hstep⟩, hlt⟩

/-- The server has executed what was left of main's pipeline. -/
def World.flushed (w : World H) : World H :=
  { w with
    db := Redis.execs w.db w.main.pipe
    main := { w.main with
      pipe := []
      replies := w.main.replies ++ Redis.answers w.db w.main.pipe } }

theorem World.flush (serde : Serde) (hdr : Hdr H) (clock : Nat → Nat → Option Nat) (cli : Cli)
    (w : World H) : Machine.Reach (World.step serde hdr clock cli) WorldAct.succeeds w w.flushed := by
  generalize hpipe : w.main.pipe = pipe
  induction pipe generalizing w with
  | nil =>
    have hsame : w.flushed = { w with main := { w.main with pipe := w.main.pipe } } := by
      simp [World.flushed, hpipe, Redis.execs, Redis.answers]
    rw [hsame]
  | cons c pipe ih =>
    let u : World H := { w with
      db := (Redis.exec w.db c).1
      main := { w.main with pipe := pipe, replies := w.main.replies ++ [(Redis.exec w.db c).2] } }
    have hstep : w.step serde hdr clock cli (.main .exec) = some u := by
      simp [World.step, World.mainStep, hpipe, u]
    have hsame : u.flushed = w.flushed := by
      simp [World.flushed, hpipe, u, Redis.execs, Redis.answers]
    exact .head ⟨.main .exec, rfl, hstep⟩ (hsame ▸ ih u rfl)

theorem World.rank_eq (hactivity : w'.main.activity = w.main.activity)
    (htodo : w'.main.todo = w.main.todo) : w'.rank = w.rank := by
  rw [World.rank, World.rank, hactivity, htodo]

theorem World.advances_of_flushed (h : w.flushed.Advances serde hdr clock cli) :
    w.Advances serde hdr clock cli :=
  World.Advances.after (World.flush serde hdr clock cli w) h (le_refl _)

theorem World.step_proceed (hp : w.main.pipe = []) :
    w.step serde hdr clock cli (.main .proceed) = w.proceed serde hdr clock cli := by
  simp [World.step, World.mainStep, hp]

theorem World.enqueuing_advances {plan : Plan} {rest : List (List (Cmd Entry))} :
    ∀ w : World H, w.main.activity = .enqueuing plan rest → w.Advances serde hdr clock cli := by
  induction rest with
  | nil =>
    intro w ha
    have hactivity : w.flushed.main.activity = .enqueuing plan [] := ha
    refine World.advances_of_flushed ?_
    by_cases he : w.flushed.main.replies.any Reply.isError = true
    · refine World.advances_of_step (.main .proceed) w.flushed.stop ?_ rfl ?_
      · simp [World.step_proceed (w := w.flushed) rfl, World.proceed, hactivity, he]
      · simp [World.rank, World.stop, World.send, Activity.rank, hactivity]
    · refine World.advances_of_step (.main .proceed) (w.flushed.launch (.draining plan)
        (runDrainTrial hdr ⟨cli.queueKeys, plan.jobs, cli.latencyPercentiles⟩ plan.nWorkers))
        ?_ rfl ?_
      · simp [World.step_proceed (w := w.flushed) rfl, World.proceed, hactivity, he]
      · simp [World.rank, World.launch, World.send, Activity.rank, hactivity]
  | cons pipe rest ih =>
    intro w ha
    have hactivity : w.flushed.main.activity = .enqueuing plan (pipe :: rest) := ha
    refine World.advances_of_flushed ?_
    by_cases he : w.flushed.main.replies.any Reply.isError = true
    · refine World.advances_of_step (.main .proceed) w.flushed.stop ?_ rfl ?_
      · simp [World.step_proceed (w := w.flushed) rfl, World.proceed, hactivity, he]
      · simp [World.rank, World.stop, World.send, Activity.rank, hactivity]
    · have hstep : w.flushed.step serde hdr clock cli (.main .proceed) =
          some (w.flushed.send (.enqueuing plan rest) pipe) := by
        simp [World.step_proceed (w := w.flushed) rfl, World.proceed, hactivity, he]
      refine World.Advances.after (.single ⟨.main .proceed, rfl, hstep⟩)
        (ih (w.flushed.send (.enqueuing plan rest) pipe) rfl) ?_
      simp [World.rank, World.send, Activity.rank, hactivity]

theorem World.clearing_advances {plan : Plan} (ha : w.main.activity = .clearing plan) :
    w.Advances serde hdr clock cli := by
  have hactivity : w.flushed.main.activity = .clearing plan := ha
  obtain ⟨u, hstep, hlt⟩ : ∃ u, w.flushed.proceed serde hdr clock cli = some u ∧
      u.rank < w.flushed.rank := by
    unfold World.proceed
    simp only [hactivity]
    split
    · exact ⟨_, rfl, by simp [World.rank, World.stop, World.send, Activity.rank, hactivity]⟩
    · split
      · exact ⟨_, rfl, by simp [World.rank, World.send, Activity.rank, hactivity]⟩
      · exact ⟨_, rfl, by simp [World.rank, World.stop, World.send, Activity.rank, hactivity]⟩
  exact World.advances_of_flushed
    (World.advances_of_step _ _ ((World.step_proceed rfl).trans hstep) rfl hlt)

theorem World.measuring_advances {plan : Plan} {result : TrialResult}
    (ha : w.main.activity = .measuring plan result) : w.Advances serde hdr clock cli := by
  have hactivity : w.flushed.main.activity = .measuring plan result := ha
  obtain ⟨u, hstep, hlt⟩ : ∃ u, w.flushed.proceed serde hdr clock cli = some u ∧
      u.rank < w.flushed.rank := by
    unfold World.proceed
    simp only [hactivity]
    split
    · exact ⟨_, rfl, by simp [World.rank, World.stop, World.send, Activity.rank, hactivity]⟩
    · split
      · exact ⟨_, rfl, by simp [World.rank, World.conclude, Activity.rank, hactivity]⟩
      · exact ⟨_, rfl, by simp [World.rank, World.launch, World.send, Activity.rank, hactivity]⟩
  exact World.advances_of_flushed
    (World.advances_of_step _ _ ((World.step_proceed rfl).trans hstep) rfl hlt)

theorem World.between_advances (ha : w.main.activity = .between) :
    w.Advances serde hdr clock cli := by
  cases ht : w.main.todo with
  | nil =>
    refine World.advances_of_step (.main .begin)
      (w.send (.finished (if w.main.anyTimeout then 1 else 0)) []) ?_ rfl ?_
    · simp [World.step, World.mainStep, ha, ht]
    · simp [World.rank, World.send, Activity.rank, ha]
  | cons plan todo =>
    refine World.advances_of_step (.main .begin)
      (World.send { w with main := { w.main with todo := todo } } (.clearing plan)
        (preTrialClear cli.queueNames cli.allowFlushdb)) ?_ rfl ?_
    · simp [World.step, World.mainStep, ha, ht]
    · simp only [World.rank, World.send, Activity.rank, ha, ht, List.length_cons]
      omega

theorem Staged.winding (h : Staged serde hdr cli w) {p : Phase H} (hp : p ∈ w.phases) :
    ∃ pw, pw.queueKeys = cli.queueKeys ∧ Winding pw p := by
  obtain ⟨plan, _, p₀, hstart, hruns⟩ := h.phases p hp
  have hkeys : p₀.tasks.pollWorker.queueKeys = cli.queueKeys := by
    rcases hstart with rfl | rfl <;> rfl
  have hnew : Winding p₀.tasks.pollWorker p₀ := .new hstart
  exact ⟨_, hkeys, hruns.invariant (fun hw _ hstep => hw.step hstep) hnew⟩

theorem World.phase_step {i : Nat} {b : PhaseAct} {p p' : Phase H} (hp : w.phases[i]? = some p)
    (hstep : p.stepAmid serde hdr (w.db, b) = some p') (hr : w.main.activity.returned = false) :
    ∃ db', w.step serde hdr clock cli (.phase i b) =
      some { w with db := db', phases := w.phases.set i p' } := by
  obtain ⟨⟨db', q⟩, hs, rfl⟩ := Option.map_eq_some_iff.mp hstep
  exact ⟨db', by simp [World.step, hr, stepAt, hp, hs]⟩

/-- The phase that main awaits runs to its end. -/
theorem World.last_concludes {p : Phase H}
    (h : Machine.Runs (World.step serde hdr clock cli) (.start cli db₀) w)
    (hr : w.main.activity.returned = false) (hlast : w.phases.getLast? = some p) :
    ∃ w' p', Machine.Reach (World.step serde hdr clock cli) WorldAct.succeeds w w' ∧
      w'.main = w.main ∧ w'.phases.getLast? = some p' ∧ p'.tasks.concluded = true ∧
      p'.tasks.config = p.tasks.config := by
  let rank (u : World H) : Nat := (u.phases.getLast?.map (Phase.rank cli.queueKeys.length)).getD 0
  let awaited (u : World H) : Prop := Staged serde hdr cli u ∧ u.main = w.main ∧
    ∃ q, u.phases.getLast? = some q ∧ q.tasks.config = p.tasks.config
  have hnearer : ∀ u : World H, awaited u →
      (¬ ∃ q, u.phases.getLast? = some q ∧ q.tasks.concluded = true) →
      ∃ u', Machine.Reach (World.step serde hdr clock cli) WorldAct.succeeds u u' ∧
        awaited u' ∧ rank u' < rank u := by
    rintro u ⟨hst, hmain, q, hq, hconfig⟩ hopen
    have hc : q.tasks.concluded = false := Bool.eq_false_iff.mpr (fun hc => hopen ⟨q, hq, hc⟩)
    obtain ⟨pw, hkeys, hwind⟩ := hst.winding (List.mem_of_getLast? hq)
    obtain ⟨b, q', _, hstep, hlt⟩ := hwind.progress serde hdr u.db hc
    have hi : u.phases[u.phases.length - 1]? = some q := List.getLast?_eq_getElem? ▸ hq
    obtain ⟨db', hs⟩ : ∃ db', u.step serde hdr clock cli (.phase (u.phases.length - 1) b) =
        some { u with db := db', phases := u.phases.set (u.phases.length - 1) q' } :=
      World.phase_step hi hstep (hmain ▸ hr)
    have hlast' : (u.phases.set (u.phases.length - 1) q').getLast? = some q' := by
      have hlen := (List.getElem?_eq_some_iff.mp hi).1
      rw [List.getLast?_eq_getElem?, List.length_set, List.getElem?_set_self hlen]
    obtain ⟨_, hm⟩ := Phase.stepAmid_move hstep
    refine ⟨_, .single ⟨.phase _ b, rfl, hs⟩,
      ⟨hst.step hs, hmain, q', hlast', hm.config.trans hconfig⟩, ?_⟩
    simp only [rank, hlast', hq, Option.map_some, Option.getD_some]
    rw [← hkeys]
    exact hlt
  obtain ⟨w', hruns, ⟨_, hmain, q, hq, hconfig⟩, p', hp', hc⟩ :=
    Machine.reaches_of_measure rank hnearer ⟨staged_of_runs h, rfl, p, hlast, rfl⟩
  obtain rfl : p' = q := Option.some.inj (hp'.symm.trans hq)
  exact ⟨w', p', hruns, hmain, hp', hc, hconfig⟩

/-- The drain that main awaits returns, and main goes on. -/
theorem World.draining_proceeds {plan : Plan}
    (h : Machine.Runs (World.step serde hdr clock cli) (.start cli db₀) w)
    (ha : w.main.activity = .draining plan) : ∃ u r,
      Machine.Reach (World.step serde hdr clock cli) WorldAct.succeeds w u ∧ u.main = w.main ∧
      u.step serde hdr clock cli (.main .proceed) = some (u.drained cli plan r) := by
  have hawaits := awaits_of_runs h
  have hpiped := (sound_of_runs h).piped
  simp only [Awaits, ha] at hawaits
  simp only [Piped, ha] at hpiped
  obtain ⟨p, hlast, hsome⟩ := hawaits
  obtain ⟨u, q, hruns, hmain, hq, hc, hconfig⟩ :=
    World.last_concludes h (by simp [ha, Activity.returned]) hlast
  obtain ⟨r, hr⟩ : ∃ r, q.tasks.returned = some r := by
    rw [← hconfig] at hsome
    cases ht : q.tasks with
    | drain cfg d =>
      simpa [ht, Tasks.concluded, Tasks.idleReturned, Option.isSome_iff_exists] using hc
    | idle keys t => simp [ht, Tasks.config] at hsome
  refine ⟨u, r, hruns, hmain, ?_⟩
  simp [World.step, World.mainStep, World.proceed, hmain, ha, hpiped, hq, hr]

/-- The idle phase that main awaits returns, and main goes on. -/
theorem World.idling_proceeds {plan : Plan} {result : TrialResult}
    (h : Machine.Runs (World.step serde hdr clock cli) (.start cli db₀) w)
    (ha : w.main.activity = .idling plan result) : ∃ u idle,
      Machine.Reach (World.step serde hdr clock cli) WorldAct.succeeds w u ∧ u.main = w.main ∧
      u.step serde hdr clock cli (.main .proceed) = some (u.conclude result idle) := by
  have hawaits := awaits_of_runs h
  have hpiped := (sound_of_runs h).piped
  simp only [Awaits, ha] at hawaits
  simp only [Piped, ha] at hpiped
  obtain ⟨p, hlast, hnone⟩ := hawaits
  obtain ⟨u, q, hruns, hmain, hq, hc, hconfig⟩ :=
    World.last_concludes h (by simp [ha, Activity.returned]) hlast
  obtain ⟨idle, hidle⟩ : ∃ idle, q.tasks.idleReturned = some idle := by
    rw [← hconfig] at hnone
    cases ht : q.tasks with
    | drain cfg d => simp [ht, Tasks.config] at hnone
    | idle keys t =>
      simpa [ht, Tasks.concluded, Tasks.returned, Tasks.drainTasks,
        Option.isSome_iff_exists] using hc
  refine ⟨u, idle, hruns, hmain, ?_⟩
  simp [World.step, World.mainStep, World.proceed, hmain, ha, hpiped, hq, hidle]

theorem World.draining_advances {plan : Plan}
    (h : Machine.Runs (World.step serde hdr clock cli) (.start cli db₀) w)
    (ha : w.main.activity = .draining plan) : w.Advances serde hdr clock cli := by
  obtain ⟨u, r, hruns, hmain, hstep⟩ := World.draining_proceeds h ha
  refine World.Advances.after hruns (World.advances_of_step _ _ hstep rfl ?_)
    (World.rank_eq (congrArg Main.activity hmain) (congrArg Main.todo hmain)).le
  unfold World.drained
  split <;> simp [World.rank, World.send, Activity.rank, hmain, ha]

theorem World.idling_advances {plan : Plan} {result : TrialResult}
    (h : Machine.Runs (World.step serde hdr clock cli) (.start cli db₀) w)
    (ha : w.main.activity = .idling plan result) : w.Advances serde hdr clock cli := by
  obtain ⟨u, idle, hruns, hmain, hstep⟩ := World.idling_proceeds h ha
  refine World.Advances.after hruns (World.advances_of_step _ _ hstep rfl ?_)
    (World.rank_eq (congrArg Main.activity hmain) (congrArg Main.todo hmain)).le
  simp [World.rank, World.conclude, Activity.rank, hmain, ha]

theorem World.advances (h : Machine.Runs (World.step serde hdr clock cli) (.start cli db₀) w)
    (hr : w.main.activity.returned = false) : w.Advances serde hdr clock cli := by
  cases ha : w.main.activity with
  | between => exact World.between_advances ha
  | clearing plan => exact World.clearing_advances ha
  | enqueuing plan rest => exact World.enqueuing_advances w ha
  | draining plan => exact World.draining_advances h ha
  | measuring plan result => exact World.measuring_advances ha
  | idling plan result => exact World.idling_advances h ha
  | finished code => simp [ha, Activity.returned] at hr
  | stopped => simp [ha, Activity.returned] at hr

theorem World.returns (h : Machine.Runs (World.step serde hdr clock cli) (.start cli db₀) w) :
    ∃ w', Machine.Reach (World.step serde hdr clock cli) WorldAct.succeeds w w' ∧
      w'.main.activity.returned = true := by
  have hadvances : ∀ u : World H, Machine.Runs (World.step serde hdr clock cli) (.start cli db₀) u →
      ¬ u.main.activity.returned = true →
      ∃ u', Machine.Reach (World.step serde hdr clock cli) WorldAct.succeeds u u' ∧
        Machine.Runs (World.step serde hdr clock cli) (.start cli db₀) u' ∧ u'.rank < u.rank := by
    intro u hu hr
    obtain ⟨u', hruns, hlt⟩ := World.advances hu (Bool.eq_false_iff.mpr hr)
    exact ⟨u', hruns, hu.trans (hruns.mono (fun _ _ => trivial)), hlt⟩
  obtain ⟨w', hruns, _, hr⟩ := Machine.reaches_of_measure World.rank hadvances h
  exact ⟨w', hruns, hr⟩

/-- At its end, main has no level ahead of it. -/
theorem World.reports_all {code : Nat}
    (h : Machine.Runs (World.step serde hdr clock cli) (.start cli db₀) w)
    (ha : w.main.activity = .finished code) :
    w.main.results.map TrialResult.workers = cli.workers ∧
      w.main.idleResults.map IdlePollResult.workers = cli.workers := by
  have hlined := linedUp_of_runs h
  have hahead : w.ahead = [] := by
    obtain ⟨acts, hrun⟩ := Machine.exists_run h
    have hexit := (gated_alarmed_of_run hrun).2.exit code ha
    simp [World.ahead, ha, hexit.2, Activity.plan]
  have hdrains := hlined.drains (by simp [ha])
  have hidles := hlined.idles (by simp [ha])
  rw [hahead, List.map_nil, List.append_nil] at hdrains hidles
  exact ⟨hdrains, hidles⟩

end World

end ResqueBench
