import ResqueBench.IdleGate
import ResqueBench.TrialTally
import ResqueBench.JsonReport

/-! The report of a run. The results and the idle results are pushed in step, one of
each for a level, so the zip drops nothing and pairs each drain with its own idle
phase. -/

namespace ResqueBench

open Redis Threads

section Phase

variable {H : Type} {serde : Serde} {hdr : Hdr H} {db db' : Db Entry} {p p' : Phase H}
  {a : PhaseAct}

theorem PhaseMove.newlyReturned {r : TrialResult} (h : PhaseMove serde hdr db p a db' p')
    (hr : p'.tasks.returned = some r) :
    p.tasks.returned = some r ∨ r.workers = p.workers.length := by
  cases h with
  | worker i a f ha hf => exact .inl hr
  | late j f hf => exact .inl hr
  | idle queueKeys t t' a act f ht hm hf => cases hr
  | drain cfg d d' a act f ht hm hf =>
    rw [Tasks.returned_drain] at hr
    rw [ht, Tasks.returned_drain]
    cases hm with
    | readOut elapsed timedOut ho he =>
      cases hr
      exact .inr rfl
    | _ => simp_all

/-- A phase of `n` workers. What it returns says so. -/
structure Crew (n : Nat) (p : Phase H) : Prop where
  length : p.workers.length = n
  drained : ∀ r, p.tasks.returned = some r → r.workers = n
  rested : ∀ r, p.tasks.idleReturned = some r → r.workers = n ∧ r.skippedReason = none

theorem Crew.step {n : Nat} (h : Crew n p) (hm : PhaseMove serde hdr db p a db' p') :
    Crew n p' where
  length := hm.length_workers.trans h.length
  drained r hr := (hm.newlyReturned hr).elim (h.drained r) (fun he => he.trans h.length)
  rested r hr := by
    rcases hm.idleReturned hr with hr | ⟨elapsed, rfl⟩
    · exact h.rested r hr
    · exact ⟨h.length, rfl⟩

end Phase

def Activity.plan : Activity → Option Plan
  | .clearing plan | .enqueuing plan _ | .draining plan | .measuring plan _ | .idling plan _ =>
    some plan
  | _ => none

section World

variable {H : Type} {serde : Serde} {hdr : Hdr H} {clock : Nat → Nat → Option Nat} {cli : Cli}
  {w w' : World H}

/-- The measured passes that main has not concluded. -/
def World.ahead (w : World H) : List Plan :=
  (w.main.activity.plan.toList ++ w.main.todo).filter Plan.measured

theorem Cli.plans_measured (cli : Cli) :
    (cli.plans.filter Plan.measured).map Plan.nWorkers = cli.workers := by
  unfold Cli.plans
  induction cli.workers with
  | nil => rfl
  | cons n ns ih =>
    rw [List.flatMap_cons, List.filter_append, List.map_append, ih]
    split <;> rfl

/-- The workers of the phase that main awaits. -/
def Manned (w : World H) : Prop :=
  ∀ plan, (w.main.activity = .draining plan ∨ ∃ r, w.main.activity = .idling plan r) →
    ∃ p, w.phases.getLast? = some p ∧ Crew plan.nWorkers p

/-- The levels reported so far, followed by those ahead, are the list of levels. -/
structure LinedUp (cli : Cli) (w : World H) : Prop where
  drains : w.main.activity ≠ .stopped →
    w.main.results.map TrialResult.workers ++ w.ahead.map Plan.nWorkers = cli.workers
  idles : w.main.activity ≠ .stopped →
    w.main.idleResults.map IdlePollResult.workers ++ w.ahead.map Plan.nWorkers = cli.workers
  measured : ∀ plan r, w.main.activity = .measuring plan r ∨ w.main.activity = .idling plan r →
    plan.measured = true ∧ r.workers = plan.nWorkers
  manned : Manned w

theorem Manned.step (h : Manned w) (hm : WorldMove serde hdr clock cli w w') : Manned w' := by
  intro plan' ha'
  cases hm with
  | phase i a p p' db' hr hp hm =>
    obtain ⟨p₀, hlast, hcrew⟩ := h plan' ha'
    rcases getLast?_set (x := p') hp hlast with ⟨hl, rfl⟩ | hl
    · exact ⟨p', hl, hcrew.step hm⟩
    · exact ⟨p₀, hl, hcrew⟩
  | exec c pipe hp => exact h plan' ha'
  | drain plan ha hp hr =>
    obtain rfl : plan = plan' := by simpa [World.launch, World.send] using ha'
    refine ⟨_, List.getLast?_concat, ?_⟩
    exact ⟨List.length_replicate, fun r hr => (by cases hr), fun r hr => by cases hr⟩
  | idle plan result ha hp hs =>
    obtain rfl : plan = plan' := by simpa [World.launch, World.send] using ha'
    refine ⟨_, List.getLast?_concat, ?_⟩
    exact ⟨List.length_replicate, fun r hr => (by cases hr), fun r hr => by cases hr⟩
  | drained plan p result ha hl hr =>
    unfold World.drained at ha'
    split at ha' <;> simp [World.send] at ha'
  | _ => simp [World.send, World.stop, World.conclude] at ha'

theorem LinedUp.calm (h : LinedUp cli w) (hn : w.main.activity ≠ .stopped)
    (hr : w'.main.results = w.main.results) (hi : w'.main.idleResults = w.main.idleResults)
    (ha : w'.ahead = w.ahead) (hmanned : Manned w')
    (hmeasured : ∀ plan r, w'.main.activity = .measuring plan r ∨ w'.main.activity = .idling plan r →
      plan.measured = true ∧ r.workers = plan.nWorkers) : LinedUp cli w' where
  drains _ := by rw [hr, ha]; exact h.drains hn
  idles _ := by rw [hi, ha]; exact h.idles hn
  measured := hmeasured
  manned := hmanned

theorem LinedUp.conclude (h : LinedUp cli w) {plan : Plan} {result : TrialResult}
    (ha : w.main.activity = .measuring plan result ∨ w.main.activity = .idling plan result)
    {idle : IdlePollResult} (hi : idle.workers = plan.nWorkers) :
    LinedUp cli (w.conclude result idle) := by
  obtain ⟨hmeasured, hworkers⟩ := h.measured plan result ha
  have hn : w.main.activity ≠ .stopped := by rcases ha with ha | ha <;> simp [ha]
  have hplan : w.main.activity.plan = some plan := by
    rcases ha with ha | ha <;> simp [ha, Activity.plan]
  have hahead : w.ahead = plan :: (w.conclude result idle).ahead := by
    have hnone : (w.conclude result idle).main.activity.plan = none := rfl
    have htodo : (w.conclude result idle).main.todo = w.main.todo := rfl
    simp [World.ahead, hplan, hnone, htodo, hmeasured]
  have hd := h.drains hn
  have hid := h.idles hn
  rw [hahead, List.map_cons] at hd hid
  refine ⟨fun _ => ?_, fun _ => ?_, fun plan' r' ha' => ?_, fun plan' ha' => ?_⟩
  · rw [← hd]
    simp [World.conclude, hworkers]
  · rw [← hid]
    simp [World.conclude, hi]
  · simp [World.conclude] at ha'
  · simp [World.conclude] at ha'

theorem LinedUp.step (h : LinedUp cli w) (hm : WorldMove serde hdr clock cli w w') :
    LinedUp cli w' := by
  have hmanned := h.manned.step hm
  cases hm with
  | phase i a p p' db' hr hp hm => exact ⟨h.drains, h.idles, h.measured, hmanned⟩
  | begin plan todo ha ht =>
    refine h.calm (by simp [ha]) rfl rfl ?_ hmanned (by simp [World.send])
    simp [World.ahead, World.send, ha, ht, Activity.plan]
  | finish ha ht =>
    refine h.calm (by simp [ha]) rfl rfl ?_ hmanned (by simp [World.send])
    simp [World.ahead, World.send, ha, Activity.plan]
  | exec c pipe hp => exact ⟨h.drains, h.idles, h.measured, hmanned⟩
  | stop ha =>
    exact ⟨fun hn => absurd rfl hn, fun hn => absurd rfl hn, by simp [World.stop, World.send],
      hmanned⟩
  | cleared plan pipe rest ha hp hb =>
    refine h.calm (by simp [ha]) rfl rfl ?_ hmanned (by simp [World.send])
    simp [World.ahead, World.send, ha, Activity.plan]
  | batch plan pipe rest ha hp hr =>
    refine h.calm (by simp [ha]) rfl rfl ?_ hmanned (by simp [World.send])
    simp [World.ahead, World.send, ha, Activity.plan]
  | drain plan ha hp hr =>
    refine h.calm (by simp [ha]) rfl rfl ?_ hmanned (by simp [World.launch, World.send])
    simp [World.ahead, World.launch, World.send, ha, Activity.plan]
  | drained plan p result ha hl hr =>
    obtain ⟨p₀, hl₀, hcrew⟩ := h.manned plan (.inl ha)
    obtain rfl : p₀ = p := Option.some.inj (hl₀.symm.trans hl)
    by_cases hplan : plan.measured = true <;>
      simp only [World.drained, hplan, if_true, if_false, Bool.false_eq_true] at hmanned ⊢
    · refine h.calm (by simp [ha]) rfl rfl ?_ hmanned (fun plan' r' ha' => ?_)
      · simp [World.ahead, World.send, ha, Activity.plan]
      · obtain ⟨rfl, rfl⟩ : plan = plan' ∧ result = r' := by simpa [World.send] using ha'
        exact ⟨hplan, hcrew.drained result hr⟩
    · refine h.calm (by simp [ha]) rfl rfl ?_ hmanned (by simp [World.send])
      simp [World.ahead, World.send, ha, Activity.plan, hplan]
  | skip plan result backlog ha hp hs hb => exact h.conclude (.inl ha) rfl
  | idle plan result ha hp hs =>
    refine h.calm (by simp [ha]) rfl rfl ?_ hmanned (fun plan' r' ha' => ?_)
    · simp [World.ahead, World.launch, World.send, ha, Activity.plan]
    · obtain ⟨rfl, rfl⟩ : plan = plan' ∧ result = r' := by
        simpa [World.launch, World.send] using ha'
      exact h.measured plan result (.inl ha)
  | rested plan result p idle ha hl hr =>
    obtain ⟨p₀, hl₀, hcrew⟩ := h.manned plan (.inr ⟨result, ha⟩)
    obtain rfl : p₀ = p := Option.some.inj (hl₀.symm.trans hl)
    exact h.conclude (.inr ha) (hcrew.rested idle hr).1

theorem linedUp_of_runs {db₀ : Db Entry}
    (h : Machine.Runs (World.step serde hdr clock cli) (.start cli db₀) w) : LinedUp cli w := by
  refine h.invariant (fun hl _ hstep => hl.step (World.step_move hstep)) ⟨fun _ => ?_, fun _ => ?_,
    fun plan r ha => (by simp [World.start] at ha), fun plan ha => by simp [World.start] at ha⟩
  · simp [World.start, World.ahead, Activity.plan, cli.plans_measured]
  · simp [World.start, World.ahead, Activity.plan, cli.plans_measured]

variable {db₀ : Db Entry} {acts : List WorldAct}

/-- The run passes through the state in which main has the replies to the `LLEN`s
of level `i`. -/
def MeasuredAt (serde : Serde) (hdr : Hdr H) (clock : Nat → Nat → Option Nat) (cli : Cli)
    (db₀ : Db Entry) (acts : List WorldAct) (i : Nat) (r : TrialResult) (backlog : Nat) : Prop :=
  ∃ u plan, Machine.Passes (World.step serde hdr clock cli) (.start cli db₀) acts u ∧
    u.main.activity = .measuring plan r ∧ u.main.pipe = [] ∧ u.main.results.length = i ∧
    sumReplies u.main.replies = some backlog

theorem MeasuredAt.concat {i : Nat} {r : TrialResult} {backlog : Nat}
    (h : MeasuredAt serde hdr clock cli db₀ acts i r backlog) (a : WorldAct) :
    MeasuredAt serde hdr clock cli db₀ (acts ++ [a]) i r backlog := by
  obtain ⟨u, plan, hu, hm⟩ := h
  exact ⟨u, plan, hu.concat a, hm⟩

/-- What the report says of an idle phase, given the backlog seen before it. -/
def GatedBy (backlog : Nat) (idle : IdlePollResult) : Prop :=
  (0 < backlog ∧ ∃ n, idle = .skipped n (skippedReason backlog)) ∨
    (backlog = 0 ∧ idle.skippedReason = none)

structure Gated (serde : Serde) (hdr : Hdr H) (clock : Nat → Nat → Option Nat) (cli : Cli)
    (db₀ : Db Entry) (acts : List WorldAct) (w : World H) : Prop where
  reported : ∀ (i : Nat) (r : TrialResult) (idle : IdlePollResult), w.main.results[i]? = some r →
    w.main.idleResults[i]? = some idle →
    ∃ backlog, MeasuredAt serde hdr clock cli db₀ acts i r backlog ∧ GatedBy backlog idle
  idling : ∀ plan r, w.main.activity = .idling plan r →
    MeasuredAt serde hdr clock cli db₀ acts w.main.results.length r 0

theorem Gated.calm (h : Gated serde hdr clock cli db₀ acts w) (a : WorldAct)
    (hr : w'.main.results = w.main.results) (hi : w'.main.idleResults = w.main.idleResults)
    (hidle : ∀ plan r, w'.main.activity = .idling plan r → w.main.activity = .idling plan r) :
    Gated serde hdr clock cli db₀ (acts ++ [a]) w' where
  reported i r idle hri hii := by
    obtain ⟨backlog, hm, hg⟩ := h.reported i r idle (hr ▸ hri) (hi ▸ hii)
    exact ⟨backlog, hm.concat a, hg⟩
  idling plan r ha := by
    rw [hr]
    exact (h.idling plan r (hidle plan r ha)).concat a

theorem Gated.conclude (h : Gated serde hdr clock cli db₀ acts w) (a : WorldAct)
    (hlen : w.main.idleResults.length = w.main.results.length) {result : TrialResult}
    {idle : IdlePollResult} {backlog : Nat}
    (hm : MeasuredAt serde hdr clock cli db₀ acts w.main.results.length result backlog)
    (hg : GatedBy backlog idle) :
    Gated serde hdr clock cli db₀ (acts ++ [a]) (w.conclude result idle) where
  reported i r idle' hri hii := by
    rcases getElem?_concat hri with hri' | ⟨rfl, rfl⟩
    · rcases getElem?_concat hii with hii' | ⟨rfl, rfl⟩
      · obtain ⟨backlog', hm', hg'⟩ := h.reported i r idle' hri' hii'
        exact ⟨backlog', hm'.concat a, hg'⟩
      · rw [hlen, List.getElem?_eq_none (le_refl _)] at hri'
        cases hri'
    · rcases getElem?_concat hii with hii' | ⟨_, rfl⟩
      · rw [← hlen, List.getElem?_eq_none (le_refl _)] at hii'
        cases hii'
      · exact ⟨backlog, hm.concat a, hg⟩
  idling plan r ha := by simp [World.conclude] at ha

theorem Gated.step (h : Gated serde hdr clock cli db₀ acts w) (hl : LinedUp cli w) (a : WorldAct)
    (hrun : Machine.run (World.step serde hdr clock cli) (.start cli db₀) acts = some w)
    (hm : WorldMove serde hdr clock cli w w') :
    Gated serde hdr clock cli db₀ (acts ++ [a]) w' := by
  have hpass := Machine.passes_of_run hrun
  have hlen : w.main.activity ≠ .stopped →
      w.main.idleResults.length = w.main.results.length := by
    intro hn
    have hd := congrArg List.length (hl.drains hn)
    have hi := congrArg List.length (hl.idles hn)
    simp only [List.length_append, List.length_map] at hd hi
    omega
  cases hm with
  | phase i b p p' db' hr hp hm => exact h.calm a rfl rfl (fun _ _ ha => ha)
  | exec c pipe hp => exact h.calm a rfl rfl (fun _ _ ha => ha)
  | skip plan result backlog ha hp hs hb =>
    exact h.conclude a (hlen (by simp [ha])) ⟨w, plan, hpass, ha, hp, rfl, hs⟩
      (.inl ⟨hb, plan.nWorkers, rfl⟩)
  | idle plan result ha hp hs =>
    refine ⟨fun i r idle hri hii => ?_, fun plan' r' ha' => ?_⟩
    · obtain ⟨backlog, hm, hg⟩ := h.reported i r idle hri hii
      exact ⟨backlog, hm.concat a, hg⟩
    · obtain ⟨rfl, rfl⟩ : plan = plan' ∧ result = r' := by
        simpa [World.launch, World.send] using ha'
      exact MeasuredAt.concat ⟨w, plan, hpass, ha, hp, rfl, hs⟩ a
  | rested plan result p idle ha hl' hr =>
    obtain ⟨p₀, hl₀, hcrew⟩ := hl.manned plan (.inr ⟨result, ha⟩)
    obtain rfl : p₀ = p := Option.some.inj (hl₀.symm.trans hl')
    exact h.conclude a (hlen (by simp [ha])) (h.idling plan result ha)
      (.inr ⟨rfl, (hcrew.rested idle hr).2⟩)
  | drained plan p result ha hl' hr =>
    unfold World.drained
    split <;> exact h.calm a rfl rfl (by simp [World.send])
  | _ => exact h.calm a rfl rfl (by simp [World.send, World.stop, World.launch])

/-- Main awaits a measured drain, and that has returned with a timeout. -/
def DrainTimedOut (w : World H) : Prop :=
  ∃ plan p r, w.main.activity = .draining plan ∧ plan.measured = true ∧
    w.phases.getLast? = some p ∧ p.tasks.returned = some r ∧ r.timedOut = true

structure Alarmed (serde : Serde) (hdr : Hdr H) (clock : Nat → Nat → Option Nat) (cli : Cli)
    (db₀ : Db Entry) (acts : List WorldAct) (w : World H) : Prop where
  sound : w.main.anyTimeout = true → ∃ u, DrainTimedOut u ∧
    Machine.Passes (World.step serde hdr clock cli) (.start cli db₀) acts u
  kept : ∀ u, Machine.Passes (World.step serde hdr clock cli) (.start cli db₀) acts u →
    DrainTimedOut u →
    w.main.anyTimeout = true ∨ DrainTimedOut w ∨ w.main.activity = .stopped
  exit : ∀ code, w.main.activity = .finished code →
    code = (if w.main.anyTimeout then 1 else 0) ∧ w.main.todo = []

theorem DrainTimedOut.step (h : DrainTimedOut w) (hm : WorldMove serde hdr clock cli w w') :
    DrainTimedOut w' ∨ w'.main.anyTimeout = true := by
  obtain ⟨plan, p, r, ha, hplan, hlast, hr, ht⟩ := h
  cases hm with
  | phase i a p₀ p' db' hret hp hm =>
    rcases getLast?_set (x := p') hp hlast with ⟨hl, rfl⟩ | hl
    · exact .inl ⟨plan, p', r, ha, hplan, hl, hm.returned hr, ht⟩
    · exact .inl ⟨plan, p, r, ha, hplan, hl, hr, ht⟩
  | exec c pipe hp => exact .inl ⟨plan, p, r, ha, hplan, hlast, hr, ht⟩
  | drained plan' p' result ha' hl' hr' =>
    obtain rfl : plan = plan' := Activity.draining.inj (ha.symm.trans ha')
    obtain rfl : p = p' := Option.some.inj (hlast.symm.trans hl')
    obtain rfl : r = result := Option.some.inj (hr.symm.trans hr')
    exact .inr (by simp [World.drained, hplan, World.send, ht])
  | stop hq => simp [ha, Activity.queries] at hq
  | _ => simp_all

theorem WorldMove.anyTimeout (hm : WorldMove serde hdr clock cli w w') :
    w'.main.anyTimeout = w.main.anyTimeout ∨ (w'.main.anyTimeout = true ∧ DrainTimedOut w) := by
  cases hm with
  | drained plan p result ha hl hr =>
    unfold World.drained
    split
    · rename_i hplan
      by_cases ht : result.timedOut = true
      · exact .inr ⟨by simp [World.send, ht], plan, p, result, ha, hplan, hl, hr, ht⟩
      · exact .inl (by simp [World.send, ht])
    · exact .inl rfl
  | _ => exact .inl rfl

theorem Alarmed.step (h : Alarmed serde hdr clock cli db₀ acts w) (a : WorldAct)
    (hrun : Machine.run (World.step serde hdr clock cli) (.start cli db₀) acts = some w)
    (hs : World.step serde hdr clock cli w a = some w') :
    Alarmed serde hdr clock cli db₀ (acts ++ [a]) w' := by
  have hm := World.step_move hs
  refine ⟨fun ht => ?_, fun u hu hout => ?_, fun code hc => ?_⟩
  · rcases hm.anyTimeout with he | ⟨_, hout⟩
    · obtain ⟨u, hout, hu⟩ := h.sound (he ▸ ht)
      exact ⟨u, hout, hu.concat a⟩
    · exact ⟨w, hout, (Machine.passes_of_run hrun).concat a⟩
  · rcases Machine.passes_concat hu with hu | hu
    · rcases h.kept u hu hout with ht | hout | hstop
      · rcases hm.anyTimeout with he | ⟨he, _⟩
        · exact .inl (he.trans ht)
        · exact .inl he
      · rcases hout.step hm with hout | ht
        · exact .inr (.inl hout)
        · exact .inl ht
      · cases hm <;> simp_all [Activity.returned, Activity.queries]
    · rw [Machine.run_concat, hrun, Option.bind_some, hs, Option.some.injEq] at hu
      exact .inr (.inl (hu ▸ hout))
  · cases hm with
    | finish ha ht =>
      simp only [World.send, Activity.finished.injEq] at hc
      exact ⟨hc.symm, ht⟩
    | phase i b p p' db' hr hp hm => exact h.exit code hc
    | exec c pipe hp => exact h.exit code hc
    | drained plan p result ha hl hr =>
      unfold World.drained at hc
      split at hc <;> simp [World.send] at hc
    | _ => simp [World.send, World.stop, World.launch, World.conclude] at hc

theorem gated_alarmed_of_run
    (h : Machine.run (World.step serde hdr clock cli) (.start cli db₀) acts = some w) :
    Gated serde hdr clock cli db₀ acts w ∧ Alarmed serde hdr clock cli db₀ acts w := by
  refine Machine.run_induction (P := fun acts w => Gated serde hdr clock cli db₀ acts w ∧
    Alarmed serde hdr clock cli db₀ acts w) ⟨⟨?_, ?_⟩, ?_, ?_, ?_⟩ (fun hrun hp hs => ?_) h
  · simp [World.start]
  · simp [World.start]
  · simp [World.start]
  · rintro u ⟨pre, hpre, hu⟩ ⟨plan, p, r, ha, _⟩
    obtain rfl : pre = [] := List.prefix_nil.mp hpre
    simp only [Machine.run, Option.some.injEq] at hu
    simp [← hu, World.start] at ha
  · simp [World.start]
  · exact ⟨hp.1.step (linedUp_of_runs (Machine.runs_of_run hrun)) _ hrun (World.step_move hs),
      hp.2.step _ hrun hs⟩

/-- The report that main hands to `write_json`. -/
def World.report (w : World H) (cli : Cli) (timestamp tag displayUrl : String)
    (pollIntervalMs idlePollDurationS : Nat) : JsonOutput :=
  writeJson timestamp w.main.results w.main.idleResults tag displayUrl cli.workers cli.jobs
    cli.queueNames cli.warmupJobs pollIntervalMs idlePollDurationS

/-- Where main writes the report, or has written it, there is one entry for each
level, in order. Its drain and its idle phase are both of that level. The idle phase
was skipped exactly when the backlog measured after the drain was not zero, and the
exit status is 1 exactly when a measured drain timed out. -/
theorem reported_trials_line_up
    (h : Machine.run (World.step serde hdr clock cli) (.start cli db₀) acts = some w)
    (hwrite : (w.main.activity = .between ∧ w.main.todo = []) ∨
      ∃ code, w.main.activity = .finished code)
    (timestamp tag displayUrl : String) (pollIntervalMs idlePollDurationS : Nat) :
    let entries := (w.report cli timestamp tag displayUrl pollIntervalMs idlePollDurationS).results
    entries.length = cli.workers.length ∧ w.main.results.length = cli.workers.length ∧
    w.main.idleResults.length = cli.workers.length ∧
    (∀ i n, cli.workers[i]? = some n → ∃ r idle entry backlog,
      w.main.results[i]? = some r ∧ w.main.idleResults[i]? = some idle ∧
      entries[i]? = some entry ∧ entry = jsonResult r idle ∧
      entry.workers = n ∧ idle.workers = n ∧
      MeasuredAt serde hdr clock cli db₀ acts i r backlog ∧
      (entry.idlePoll.skippedReason.isSome = true ↔ 0 < backlog) ∧
      (0 < backlog → entry.idlePoll = ⟨0, 0, 0, 0, some (skippedReason backlog)⟩)) ∧
    ∀ code, w.main.activity = .finished code → (code = 1 ↔ ∃ u, DrainTimedOut u ∧
      Machine.Passes (World.step serde hdr clock cli) (.start cli db₀) acts u) := by
  obtain ⟨hgated, halarmed⟩ := gated_alarmed_of_run h
  have hlined := linedUp_of_runs (Machine.runs_of_run h)
  have hn : w.main.activity ≠ .stopped := by
    rcases hwrite with ⟨ha, _⟩ | ⟨code, ha⟩ <;> simp [ha]
  have hahead : w.ahead = [] := by
    rcases hwrite with ⟨ha, ht⟩ | ⟨code, ha⟩
    · simp [World.ahead, ha, ht, Activity.plan]
    · simp [World.ahead, ha, (halarmed.exit code ha).2, Activity.plan]
  have hdrains := hlined.drains hn
  have hidles := hlined.idles hn
  rw [hahead, List.map_nil, List.append_nil] at hdrains hidles
  have hlen : w.main.results.length = cli.workers.length := by rw [← hdrains, List.length_map]
  have hidlen : w.main.idleResults.length = cli.workers.length := by
    rw [← hidles, List.length_map]
  refine ⟨by simp [World.report, writeJson, hlen, hidlen], hlen, hidlen, fun i n hi => ?_,
    fun code hc => ?_⟩
  · have hri := hi
    have hii := hi
    rw [← hdrains, List.getElem?_map, Option.map_eq_some_iff] at hri
    rw [← hidles, List.getElem?_map, Option.map_eq_some_iff] at hii
    obtain ⟨r, hr, hrn⟩ := hri
    obtain ⟨idle, hidle, hin⟩ := hii
    obtain ⟨backlog, hmeasured, hg⟩ := hgated.reported i r idle hr hidle
    refine ⟨r, idle, _, backlog, hr, hidle, ?_, rfl, hrn, hin, hmeasured, ?_, fun hb => ?_⟩
    · have hzip : (w.main.results.zip w.main.idleResults)[i]? = some (r, idle) :=
        List.getElem?_zip_eq_some.mpr ⟨hr, hidle⟩
      simp [World.report, writeJson, hzip]
    · rcases hg with ⟨hb, m, rfl⟩ | ⟨hb, hnone⟩
      · simp [jsonResult, jsonIdlePoll, IdlePollResult.skipped, hb]
      · simp [jsonResult, jsonIdlePoll, hnone, hb]
    · rcases hg with ⟨_, m, rfl⟩ | ⟨hb', _⟩
      · exact jsonIdlePoll_skipped m _
      · omega
  · rw [(halarmed.exit code hc).1]
    refine ⟨fun hcode => halarmed.sound (by_contra fun ht => by simp [ht] at hcode), ?_⟩
    rintro ⟨u, hout, hu⟩
    rcases halarmed.kept u hu hout with ht | ⟨plan, p, r, ha, _⟩ | hstop
    · simp [ht]
    · simp [hc] at ha
    · exact absurd hstop hn

end World

/-- One level whose drain times out and leaves its job behind. -/
theorem reported_trials_line_up_skipped : ∃ (acts : List WorldAct) (w : World (List Nat)),
    Machine.run (World.step (.envelopes [(0, 1000)]) Hdr.bucketed (fun _ _ => some 1000)
      { oneJobCli with warmupJobs := 0 })
      (.start { oneJobCli with warmupJobs := 0 } (fun _ => none)) acts = some w ∧
    w.main.activity = .finished 1 ∧
    (w.report { oneJobCli with warmupJobs := 0 } "" "" "" 5000 30).results.length = 1 := by
  let cli : Cli := { oneJobCli with warmupJobs := 0 }
  let acts : List WorldAct := List.flatten [fillOneJob, timedOutDrain 0,
    [.main .proceed, .main .exec, .main .proceed, .main .begin]]
  obtain ⟨w, hrun, hw⟩ : ∃ w : World (List Nat),
      Machine.run (World.step (.envelopes [(0, 1000)]) Hdr.bucketed (fun _ _ => some 1000) cli)
        (.start cli (fun _ => none)) acts = some w ∧
      (match w.main.activity with | .finished code => code == 1 | _ => false) = true :=
    Machine.run_any acts (by decide +kernel)
  split at hw
  · rename_i code ha
    obtain rfl : code = 1 := by simpa using hw
    have hreport := reported_trials_line_up hrun (.inr ⟨1, ha⟩) "" "" "" 5000 30
    exact ⟨acts, w, hrun, ha, hreport.1⟩
  · cases hw

end ResqueBench
