import ResqueBench.OwnJobs

/-! The gate before an idle phase. Main has seen every queue empty on its own
connection, nobody pushes until the phase has returned, and so no poll of the phase
can hit a job. -/

namespace ResqueBench

open Redis Threads

theorem sumReplies_concat {replies : List (Reply Entry)} {r : Reply Entry}
    (h : sumReplies (replies ++ [r]) = some 0) : sumReplies replies = some 0 ∧ r = .int 0 := by
  induction replies with
  | nil =>
    cases r with
    | int n => simpa [sumReplies] using h
    | _ => simp [sumReplies] at h
  | cons x replies ih =>
    cases x with
    | int n =>
      simp only [List.cons_append, sumReplies, Option.map_eq_some_iff] at h ⊢
      obtain ⟨m, hm, hsum⟩ := h
      obtain ⟨rfl, rfl⟩ : n = 0 ∧ m = 0 := by omega
      obtain ⟨hrest, hr⟩ := ih hm
      exact ⟨⟨0, hrest, rfl⟩, hr⟩
    | _ => simp [sumReplies] at h

theorem exec_llen_zero {db : Db Entry} {key : String} (h : (exec db (.llen key)).2 = .int 0) :
    listAt db key = [] := by
  have hok : (exec db (.llen key)).2.isError = false := by rw [h]; rfl
  have hl := exec_llen hok
  rw [h, Reply.int.injEq] at hl
  exact List.length_eq_zero_iff.mp hl.symm

/-- A worker in the branch that polls again without a sleep. -/
def Pc.inHitBranch : Pc → Bool
  | .replied _ (.payload _) | .hit _ | .recorded _ | .counted _ => true
  | _ => false

section Move

variable {serde : Serde} {pw : PollWorker} {s s' : Shared} {v v' : Worker} {a : WorkerAct}

theorem Move.incPoll (h : Move serde pw s v a s' v') :
    s'.hub.metrics.polls = s.hub.metrics.polls + if a = .issue then 1 else 0 := by
  cases h <;> simp [failedLpop, droppedTask, Metrics.incPoll, Metrics.incError,
    Metrics.incCompleted]

theorem Move.not_counted (h : Move serde pw s v a s' v') (hheld : heldBy v = 0)
    (hc : ∀ n, v.pc ≠ .counted n) : ∀ n, v'.pc ≠ .counted n := by
  cases h with
  | abort => exact hc
  | count e hpc => simp [heldBy, hpc] at hheld
  | _ => simp [failedLpop, droppedTask]

end Move

theorem FleetMove.not_counted {serde : Serde} {pw : PollWorker} {f f' : Fleet} {a : FleetAct}
    (h : FleetMove serde pw f a f') (hheld : ∀ v ∈ f.workers, heldBy v = 0)
    (hc : ∀ v ∈ f.workers, ∀ n, v.pc ≠ .counted n) :
    ∀ v ∈ f'.workers, ∀ n, v.pc ≠ .counted n := by
  cases h with
  | worker i a v v' s' hv hm =>
    have hmem := List.mem_of_getElem? hv
    exact forall_set hc (hm.not_counted (hheld v hmem) (hc v hmem))
  | _ => exact hc

theorem Balanced.nothing_held {f : Fleet} (h : Balanced f) (hr : f.shared.hub.ledger.removed = []) :
    (∀ v ∈ f.workers, heldBy v = 0) ∧ f.shared.hub.ledger.counted = [] := by
  have hzero := h.removed
  rw [hr, Multiset.coe_nil, eq_comm, add_eq_zero, add_eq_zero] at hzero
  obtain ⟨hheld, hcounted, _⟩ := hzero
  refine ⟨fun v hv => ?_, Multiset.coe_eq_zero _ |>.mp hcounted⟩
  have hle : heldBy v ≤ total heldBy f.workers := Custody.place_le_stock hv
  rw [hheld] at hle
  exact Multiset.le_zero.mp hle

section World

variable {H : Type} {serde : Serde} {hdr : Hdr H} {clock : Nat → Nat → Option Nat} {cli : Cli}
  {w w' : World H}

structure Dry (p : Phase H) : Prop where
  removed : p.hub.ledger.removed = []
  not_counted : ∀ v ∈ p.workers, ∀ n, v.pc ≠ .counted n
  target : p.tasks.pollWorker.targetJobs = none
  returned : ∀ r, p.tasks.idleReturned = some r →
    r.skippedReason = none ∧ r.totalLpopCalls ≤ p.hub.metrics.polls

theorem Dry.runIdlePollTrial (queueKeys : List String) (nWorkers : Nat) :
    Dry (runIdlePollTrial queueKeys nWorkers : Phase H) where
  removed := rfl
  not_counted v hv n := by
    rw [List.eq_of_mem_replicate hv]
    simp [Worker.new]
  target := rfl
  returned r hr := by cases hr

theorem PhaseMove.idleReturned {db db' : Db Entry} {p p' : Phase H} {a : PhaseAct}
    (h : PhaseMove serde hdr db p a db' p') {r : IdlePollResult}
    (hr : p'.tasks.idleReturned = some r) :
    p.tasks.idleReturned = some r ∨ ∃ elapsed, r = idlePollResult (p.fleet db) elapsed := by
  cases h with
  | worker i a f ha hf => exact .inl hr
  | late j f hf => exact .inl hr
  | drain cfg d d' a act f ht hm hf => cases hr
  | idle queueKeys t t' a act f ht hm hf =>
    cases hm with
    | readOut elapsed ho hw =>
      simp only [Tasks.idleReturned, Option.some.injEq] at hr
      exact .inr ⟨elapsed, hr.symm⟩
    | shutdown elapsed ho => simp [Tasks.idleReturned] at hr
    | _ => exact .inl (by rw [ht]; exact hr)

theorem PhaseMove.idleReturned_le {db db' : Db Entry} {p p' : Phase H} {a : PhaseAct}
    (h : PhaseMove serde hdr db p a db' p')
    (hp : ∀ r, p.tasks.idleReturned = some r →
      r.skippedReason = none ∧ r.totalLpopCalls ≤ p.hub.metrics.polls) :
    ∀ r, p'.tasks.idleReturned = some r →
      r.skippedReason = none ∧ r.totalLpopCalls ≤ p'.hub.metrics.polls := by
  intro r hr
  have hpolls := h.metrics_le.polls
  rcases h.idleReturned hr with hr | ⟨elapsed, rfl⟩
  · exact ⟨(hp r hr).1, (hp r hr).2.trans hpolls⟩
  · exact ⟨rfl, hpolls⟩

theorem Dry.phase {db db' : Db Entry} {p p' : Phase H} {a : PhaseAct} {keys : List String}
    {live : Prop} (h : Dry p) (hk : PhaseKept hdr keys db live p)
    (hempty : ∀ key ∈ keys, listAt db key = []) (hm : PhaseMove serde hdr db p a db' p') :
    Dry p' := by
  obtain ⟨hpw, act, hf, _⟩ := hm.fleet
  have hheld := (hk.balanced.nothing_held h.removed).1
  refine ⟨?_, ?_, by rw [hpw, h.target], hm.idleReturned_le h.returned⟩
  · rcases hm.server with ⟨_, hr⟩ | ⟨key, e, rest, hkey, hl, _, _⟩
    · rw [hr, h.removed]
    · rw [hempty key (hk.keyed ▸ hkey)] at hl
      cases hl
  · exact hf.keep (P := fun f => ∀ v ∈ f.workers, ∀ n, v.pc ≠ .counted n) h.not_counted
      (fun _ hf => hf.not_counted hheld h.not_counted)

section Dry

variable {p : Phase H} {db : Db Entry}

theorem Dry.never_hits (h : Dry p) (hb : Balanced (p.fleet db)) :
    ∀ v ∈ p.workers, v.pc.inHitBranch = false := by
  intro v hv
  have hheld := (hb.nothing_held h.removed).1 v hv
  have hcounted := h.not_counted v hv
  unfold Pc.inHitBranch
  split <;> simp_all [heldBy]

theorem Dry.completed (h : Dry p) (hb : Balanced (p.fleet db)) : p.hub.metrics.completed = 0 := by
  have hcounted : p.hub.ledger.counted = [] := (hb.nothing_held h.removed).2
  rw [← List.length_nil, ← hcounted]
  exact hb.completed

theorem Dry.polls (h : Dry p) (hb : Balanced (p.fleet db)) :
    p.hub.metrics.polls = p.hub.ledger.nils + p.hub.ledger.errs + total awaiting p.workers := by
  obtain ⟨hheld, hcounted⟩ := hb.nothing_held h.removed
  have hhit : total inHit p.workers = 0 := by
    refine (total_eq_zero_iff _ _).mpr (fun v hv => ?_)
    have hv₀ := hheld v hv
    unfold inHit
    split <;> simp_all [heldBy]
  have hpolls := hb.polls
  have hanswered := hb.answered
  rw [hcounted] at hanswered
  simp only [Phase.fleet, List.length_nil] at hpolls hanswered
  omega

end Dry

/-- While main measures: unless a queue was seen to hold something, each queue is
empty or its `LLEN` is still to come. -/
def Measured (cli : Cli) (w : World H) : Prop :=
  ∀ plan result, w.main.activity = .measuring plan result → sumReplies w.main.replies = some 0 →
    ∀ key ∈ cli.queueKeys, listAt w.db key = [] ∨ .llen key ∈ w.main.pipe

theorem Measured.step (h : Measured cli w) (hc : Piped cli w)
    (hm : WorldMove serde hdr clock cli w w') : Measured cli w' := by
  intro plan' result' ha' hsum key hkey
  cases hm with
  | phase i a p p' db' hr hp hm =>
    rcases h plan' result' ha' hsum key hkey with he | he
    · exact .inl (List.suffix_nil.mp (he ▸ hm.suffix key))
    · exact .inr he
  | exec c pipe hp =>
    have ha : w.main.activity = .measuring plan' result' := ha'
    simp only [Piped, ha, hp] at hc
    obtain ⟨k, rfl⟩ := hc c List.mem_cons_self
    obtain ⟨hsum, hreply⟩ := sumReplies_concat hsum
    have hk := exec_llen_zero hreply
    rw [exec_llen_fst]
    rcases h plan' result' ha hsum key hkey with he | he
    · exact .inl he
    · rw [hp, List.mem_cons, Cmd.llen.injEq] at he
      rcases he with rfl | he
      · exact .inl hk
      · exact .inr he
  | drained plan p result ha hl hr =>
    unfold World.drained at ha' ⊢
    split at ha'
    · rename_i hmeasured
      obtain ⟨q, hq, rfl⟩ := List.mem_map.mp hkey
      refine .inr ?_
      simp only [hmeasured, if_true, World.send, totalQueueLen, List.mem_map]
      exact ⟨q, hq, rfl⟩
    · cases ha'
  | _ => cases ha'

/-- While an idle phase runs, every queue is empty and the phase has popped
nothing. -/
def Idling (cli : Cli) (w : World H) : Prop :=
  ∀ plan result, w.main.activity = .idling plan result →
    (∀ key ∈ cli.queueKeys, listAt w.db key = []) ∧ ∃ p, w.phases.getLast? = some p ∧ Dry p

theorem Idling.step (h : Idling cli w) (hk : PhasesKept hdr cli w) (hc : Piped cli w)
    (hmeas : Measured cli w) (hm : WorldMove serde hdr clock cli w w') : Idling cli w' := by
  intro plan' result' ha'
  cases hm with
  | phase i a p p' db' hr hp hm =>
    obtain ⟨hempty, p₀, hlast, hdry⟩ := h plan' result' ha'
    refine ⟨fun key hkey => List.suffix_nil.mp (hempty key hkey ▸ hm.suffix key), ?_⟩
    rcases getLast?_set hp hlast with ⟨hlast', rfl⟩ | hlast'
    · exact ⟨p', hlast', hdry.phase (hk i p₀ hp) hempty hm⟩
    · exact ⟨p₀, hlast', hdry⟩
  | exec c pipe hp =>
    have ha : w.main.activity = .idling plan' result' := ha'
    simp only [Piped, ha, hp] at hc
    cases hc
  | idle plan result ha hp hs =>
    have hempty : ∀ key ∈ cli.queueKeys, listAt w.db key = [] := fun key hkey => by
      simpa [hp] using hmeas plan result ha hs key hkey
    exact ⟨hempty, runIdlePollTrial cli.queueKeys plan.nWorkers, by simp [World.launch],
      .runIdlePollTrial _ _⟩
  | drained plan p result ha hl hr =>
    unfold World.drained at ha'
    split at ha' <;> cases ha'
  | _ => cases ha'

theorem idling_of_runs {db₀ : Db Entry}
    (h : Machine.Runs (World.step serde hdr clock cli) (.start cli db₀) w) : Idling cli w := by
  have hinv : Sound serde hdr clock cli w ∧ Measured cli w ∧ Idling cli w :=
    h.invariant (P := fun w => Sound serde hdr clock cli w ∧ Measured cli w ∧ Idling cli w)
      (fun hi _ hstep =>
        have hm := World.step_move hstep
        ⟨hi.1.step hm, hi.2.1.step hi.1.piped hm,
          hi.2.2.step hi.1.phases hi.1.piped hi.2.1 hm⟩)
      ⟨.start serde hdr clock cli db₀, fun plan result ha => (by cases ha),
        fun plan result ha => (by cases ha)⟩
  exact hinv.2.2

/-- The idle result counts the polls of the phase at the end of `w` as they stood in a
state of that phase that the run has passed. -/
def ReadOutBefore (serde : Serde) (hdr : Hdr H) (clock : Nat → Nat → Option Nat) (cli : Cli)
    (db₀ : Db Entry) (w : World H) (r : IdlePollResult) : Prop :=
  ∃ w₀ p₀, Machine.Runs (World.step serde hdr clock cli) (.start cli db₀) w₀ ∧
    Machine.Runs (World.step serde hdr clock cli) w₀ w ∧
    w₀.main.activity = w.main.activity ∧ w₀.phases.length = w.phases.length ∧
    w₀.phases.getLast? = some p₀ ∧ r.totalLpopCalls = p₀.hub.metrics.polls

theorem ReadOutBefore.step {db₀ : Db Entry} {r : IdlePollResult}
    (h : ReadOutBefore serde hdr clock cli db₀ w r)
    (hs : Machine.Runs (World.step serde hdr clock cli) w w')
    (ha : w'.main.activity = w.main.activity) (hl : w'.phases.length = w.phases.length) :
    ReadOutBefore serde hdr clock cli db₀ w' r := by
  obtain ⟨w₀, p₀, hrun, hrun', ha₀, hl₀, hlast, hpolls⟩ := h
  exact ⟨w₀, p₀, hrun, hrun'.trans hs, ha₀.trans ha.symm, hl₀.trans hl.symm, hlast, hpolls⟩

theorem readOutBefore_of_runs {db₀ : Db Entry}
    (h : Machine.Runs (World.step serde hdr clock cli) (.start cli db₀) w) :
    ∀ plan result, w.main.activity = .idling plan result → ∀ p, w.phases.getLast? = some p →
      ∀ r, p.tasks.idleReturned = some r → ReadOutBefore serde hdr clock cli db₀ w r := by
  induction h with
  | refl => intro plan result ha; cases ha
  | @tail u w h₁ hs ih =>
    intro plan result ha p hlast r hr
    have hstep : Machine.Runs (World.step serde hdr clock cli) u w := .single hs
    obtain ⟨a, _, hs⟩ := hs
    cases World.step_move hs with
    | phase i act p₀ p₁ db' _ hp hm =>
      have hlen : (u.phases.set i p₁).length = u.phases.length := List.length_set
      obtain ⟨q, hq, _⟩ := (idling_of_runs h₁ plan result ha).2
      rcases getLast?_set (x := p₁) hp hq with ⟨hlast', rfl⟩ | hlast'
      · obtain rfl : p₁ = p := Option.some.inj (hlast'.symm.trans hlast)
        rcases hm.idleReturned hr with hr | ⟨elapsed, rfl⟩
        · exact (ih plan result ha _ hq r hr).step hstep rfl hlen
        · exact ⟨u, _, h₁, hstep, rfl, hlen.symm, hq, rfl⟩
      · obtain rfl : q = p := Option.some.inj (hlast'.symm.trans hlast)
        exact (ih plan result ha _ hq r hr).step hstep rfl hlen
    | exec c pipe hp => exact (ih plan result ha p hlast r hr).step hstep rfl rfl
    | idle plan' result' ha' hp hsum =>
      simp only [World.launch, List.getLast?_append, List.getLast?_singleton, Option.some_or,
        Option.some.injEq] at hlast
      subst hlast
      cases hr
    | drained plan' p' result' ha' hl' hr' =>
      unfold World.drained at ha
      split at ha <;> cases ha
    | _ => cases ha

theorem WorldMove.idleResults (hm : WorldMove serde hdr clock cli w w') :
    w'.main.idleResults = w.main.idleResults ∨
    (∃ r, r.skippedReason ≠ none ∧ w'.main.idleResults = w.main.idleResults ++ [r]) ∨
    ∃ plan result p r, w.main.activity = .idling plan result ∧ w.phases.getLast? = some p ∧
      p.tasks.idleReturned = some r ∧ w'.main.idleResults = w.main.idleResults ++ [r] := by
  cases hm with
  | skip plan result backlog ha hp hs hb =>
    exact .inr (.inl ⟨_, by simp [IdlePollResult.skipped], rfl⟩)
  | rested plan result p idle ha hl hr => exact .inr (.inr ⟨plan, result, p, idle, ha, hl, hr, rfl⟩)
  | drained plan p result ha hl hr =>
    unfold World.drained
    split <;> exact .inl rfl
  | _ => exact .inl rfl

theorem idleResults_of_runs {db₀ : Db Entry}
    (h : Machine.Runs (World.step serde hdr clock cli) (.start cli db₀) w) :
    ∀ r ∈ w.main.idleResults, r.skippedReason = none → ∃ w₁ plan result p,
      Machine.Runs (World.step serde hdr clock cli) (.start cli db₀) w₁ ∧
      Machine.Runs (World.step serde hdr clock cli) w₁ w ∧
      w₁.main.activity = .idling plan result ∧ w₁.phases.getLast? = some p ∧
      p.tasks.idleReturned = some r := by
  induction h with
  | refl => simp [World.start]
  | @tail u w h₁ hs ih =>
    intro r hr hnone
    have hstep : Machine.Runs (World.step serde hdr clock cli) u w := .single hs
    obtain ⟨a, _, hs⟩ := hs
    have hold : r ∈ u.main.idleResults → ∃ w₁ plan result p,
        Machine.Runs (World.step serde hdr clock cli) (.start cli db₀) w₁ ∧
        Machine.Runs (World.step serde hdr clock cli) w₁ w ∧
        w₁.main.activity = .idling plan result ∧ w₁.phases.getLast? = some p ∧
        p.tasks.idleReturned = some r := by
      intro hr
      obtain ⟨w₁, plan, result, p, hrun, hrun', hout⟩ := ih r hr hnone
      exact ⟨w₁, plan, result, p, hrun, hrun'.trans hstep, hout⟩
    rcases (World.step_move hs).idleResults with he | ⟨r', hr', he⟩ |
      ⟨plan, result, p, r', ha, hlast, hret, he⟩
    · exact hold (he ▸ hr)
    · rw [he, List.mem_append, List.mem_singleton] at hr
      rcases hr with hr | rfl
      · exact hold hr
      · exact absurd hnone hr'
    · rw [he, List.mem_append, List.mem_singleton] at hr
      rcases hr with hr | rfl
      · exact hold hr
      · exact ⟨u, plan, result, p, h₁, hstep, ha, hlast, hret⟩

/-- In every state of an idle phase, whatever the drain before it left behind: the
queues are empty, no worker of the phase is in its hit branch, and each poll was
answered nil or an error or is still unanswered. The calls of the result it returns are
its polls in an earlier such state, where main read the counter out. Every idle result
that was not skipped is one such a phase has returned. -/
theorem idle_measurement_clean {db₀ : Db Entry}
    (h : Machine.Runs (World.step serde hdr clock cli) (.start cli db₀) w) :
    (∀ plan result, w.main.activity = .idling plan result →
      (∀ key ∈ cli.queueKeys, listAt w.db key = []) ∧
      ∃ p, w.phases.getLast? = some p ∧ p.tasks.pollWorker = ⟨none, cli.queueKeys⟩ ∧
        p.hub.metrics.completed = 0 ∧ (∀ v ∈ p.workers, v.pc.inHitBranch = false) ∧
        p.hub.metrics.polls =
          p.hub.ledger.nils + p.hub.ledger.errs + total awaiting p.workers ∧
        ∀ r, p.tasks.idleReturned = some r →
          r.skippedReason = none ∧ r.totalLpopCalls ≤ p.hub.metrics.polls ∧
          ReadOutBefore serde hdr clock cli db₀ w r) ∧
    ∀ r ∈ w.main.idleResults, r.skippedReason = none → ∃ w₁ plan result p,
      Machine.Runs (World.step serde hdr clock cli) (.start cli db₀) w₁ ∧
      Machine.Runs (World.step serde hdr clock cli) w₁ w ∧
      w₁.main.activity = .idling plan result ∧ w₁.phases.getLast? = some p ∧
      p.tasks.idleReturned = some r := by
  refine ⟨fun plan result ha => ?_, idleResults_of_runs h⟩
  obtain ⟨hempty, p, hlast, hdry⟩ := idling_of_runs h plan result ha
  have hread := readOutBefore_of_runs h plan result ha p hlast
  have hk := (sound_of_runs h).phases _ p (List.getLast?_eq_getElem? ▸ hlast)
  have hworker : p.tasks.pollWorker = ⟨none, cli.queueKeys⟩ := by rw [← hk.keyed, ← hdry.target]
  refine ⟨hempty, p, hlast, hworker, hdry.completed hk.balanced, hdry.never_hits hk.balanced,
    hdry.polls hk.balanced, fun r hr => ?_⟩
  obtain ⟨hnone, hle⟩ := hdry.returned r hr
  exact ⟨hnone, hle, hread r hr⟩

end World

/-- The drain timed out, and its late `LPOP` emptied the queue before the `LLEN`. One
poll of the idle phase has been answered. -/
theorem idle_measurement_clean_after_abort : ∃ (w : World (List Nat)) (p : Phase (List Nat)),
    w.phases.getLast? = some p ∧ p.hub.metrics.polls = 1 ∧ p.hub.metrics.completed = 0 ∧
    1 = p.hub.ledger.nils + p.hub.ledger.errs + total awaiting p.workers ∧
    ∀ key ∈ queueKeys ["default"], listAt w.db key = [] := by
  obtain ⟨w, hrun, hw⟩ : ∃ w : World (List Nat),
      Machine.Runs (World.step (.envelopes [(0, 1000)]) Hdr.bucketed (fun _ _ => some 1000)
        { oneJobCli with warmupJobs := 0 })
        (.start { oneJobCli with warmupJobs := 0 } (fun _ => none)) w ∧
      (match w.main.activity with
        | .idling _ _ => w.phases.getLast?.any (fun p => p.hub.metrics.polls == 1)
        | _ => false) = true :=
    Machine.runs_any (List.flatten [fillOneJob, abortedDrain,
      [.phase 0 (.late 0), .main .proceed, .main .exec, .main .proceed],
      [.worker 0 .start, .worker 0 .check, .worker 0 .issue, .worker 0 .exec,
        .worker 0 .receive].map (.phase 1)]) (by decide +kernel)
  split at hw
  · rename_i plan result ha
    obtain ⟨hempty, p, hlast, _, hcompleted, _, hpolls, _⟩ :=
      (idle_measurement_clean hrun).1 plan result ha
    simp only [hlast, Option.any_some, beq_iff_eq] at hw
    exact ⟨w, p, hlast, hw, hcompleted, hw ▸ hpolls, hempty⟩
  · cases hw

end ResqueBench
