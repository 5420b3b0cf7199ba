import ResqueBench.MainLoop
import ResqueBench.LatencyReport

/-! Runs of the whole program: what one step of it can do, and what every phase
started so far keeps while main and the other phases go on. -/

namespace ResqueBench

open Redis Threads

/-- Everything one step of the program can do. -/
inductive WorldMove {H : Type} (serde : Serde) (hdr : Hdr H) (clock : Nat → Nat → Option Nat)
    (cli : Cli) (w : World H) : World H → Prop
  | phase (i : Nat) (a : PhaseAct) (p p' : Phase H) (db' : Db Entry)
      (hr : w.main.activity.returned = false) (hp : w.phases[i]? = some p)
      (hm : PhaseMove serde hdr w.db p a db' p') :
      WorldMove serde hdr clock cli w { w with db := db', phases := w.phases.set i p' }
  | begin (plan : Plan) (todo : List Plan) (ha : w.main.activity = .between)
      (ht : w.main.todo = plan :: todo) :
      WorldMove serde hdr clock cli w (World.send { w with main := { w.main with todo := todo } }
        (.clearing plan) (preTrialClear cli.queueNames cli.allowFlushdb))
  | finish (ha : w.main.activity = .between) (ht : w.main.todo = []) :
      WorldMove serde hdr clock cli w
        (w.send (.finished (if w.main.anyTimeout then 1 else 0)) [])
  | exec (c : Cmd Entry) (pipe : List (Cmd Entry)) (hp : w.main.pipe = c :: pipe) :
      WorldMove serde hdr clock cli w { w with
        db := (exec w.db c).1
        main := { w.main with pipe := pipe, replies := w.main.replies ++ [(exec w.db c).2] } }
  | stop (ha : w.main.activity.queries = true) : WorldMove serde hdr clock cli w w.stop
  | cleared (plan : Plan) (pipe : List (Cmd Entry)) (rest : List (List (Cmd Entry)))
      (ha : w.main.activity = .clearing plan) (hp : w.main.pipe = [])
      (hb : bulkEnqueue serde (clock w.phases.length) w.phases.length cli.queueNames plan.jobs =
        some (pipe :: rest)) :
      WorldMove serde hdr clock cli w (w.send (.enqueuing plan rest) pipe)
  | batch (plan : Plan) (pipe : List (Cmd Entry)) (rest : List (List (Cmd Entry)))
      (ha : w.main.activity = .enqueuing plan (pipe :: rest)) (hp : w.main.pipe = [])
      (hr : ∀ r ∈ w.main.replies, r.isError = false) :
      WorldMove serde hdr clock cli w (w.send (.enqueuing plan rest) pipe)
  | drain (plan : Plan) (ha : w.main.activity = .enqueuing plan []) (hp : w.main.pipe = [])
      (hr : ∀ r ∈ w.main.replies, r.isError = false) :
      WorldMove serde hdr clock cli w (w.launch (.draining plan)
        (runDrainTrial hdr ⟨cli.queueKeys, plan.jobs, cli.latencyPercentiles⟩ plan.nWorkers))
  | drained (plan : Plan) (p : Phase H) (result : TrialResult)
      (ha : w.main.activity = .draining plan) (hp : w.phases.getLast? = some p)
      (hr : p.tasks.returned = some result) :
      WorldMove serde hdr clock cli w (w.drained cli plan result)
  | skip (plan : Plan) (result : TrialResult) (backlog : Nat)
      (ha : w.main.activity = .measuring plan result) (hp : w.main.pipe = [])
      (hs : sumReplies w.main.replies = some backlog) (hb : 0 < backlog) :
      WorldMove serde hdr clock cli w
        (w.conclude result (.skipped plan.nWorkers (skippedReason backlog)))
  | idle (plan : Plan) (result : TrialResult) (ha : w.main.activity = .measuring plan result)
      (hp : w.main.pipe = []) (hs : sumReplies w.main.replies = some 0) :
      WorldMove serde hdr clock cli w
        (w.launch (.idling plan result) (runIdlePollTrial cli.queueKeys plan.nWorkers))
  | rested (plan : Plan) (result : TrialResult) (p : Phase H) (idle : IdlePollResult)
      (ha : w.main.activity = .idling plan result) (hp : w.phases.getLast? = some p)
      (hr : p.tasks.idleReturned = some idle) :
      WorldMove serde hdr clock cli w (w.conclude result idle)

theorem World.proceed_move {H : Type} {serde : Serde} {hdr : Hdr H}
    {clock : Nat → Nat → Option Nat} {cli : Cli} {w w' : World H} (hp : w.main.pipe = [])
    (h : w.proceed serde hdr clock cli = some w') : WorldMove serde hdr clock cli w w' := by
  unfold World.proceed at h
  split at h
  · rename_i plan ha
    have hq : w.main.activity.queries = true := by simp [ha, Activity.queries]
    split at h
    · cases h
      exact .stop hq
    · dsimp only at h
      split at h
      · rename_i pipe rest hb
        cases h
        exact .cleared plan pipe rest ha hp hb
      · cases h
        exact .stop hq
  · rename_i plan rest ha
    split at h
    · cases h
      exact .stop (by simp [ha, Activity.queries])
    · rename_i he
      have hr : ∀ r ∈ w.main.replies, r.isError = false := by simpa using he
      split at h
      · rename_i pipe rest
        cases h
        exact .batch plan pipe rest ha hp hr
      · cases h
        exact .drain plan ha hp hr
  · rename_i plan ha
    obtain ⟨result, hr, rfl⟩ := Option.map_eq_some_iff.mp h
    obtain ⟨p, hl, hr⟩ := Option.bind_eq_some_iff.mp hr
    exact .drained plan p result ha hl hr
  · rename_i plan result ha
    split at h
    · cases h
      exact .stop (by simp [ha, Activity.queries])
    · rename_i backlog hs
      split at h
      · cases h
        exact .skip plan result backlog ha hp hs (by assumption)
      · cases h
        obtain rfl : backlog = 0 := by omega
        exact .idle plan result ha hp hs
  · rename_i plan result ha
    obtain ⟨idle, hr, rfl⟩ := Option.map_eq_some_iff.mp h
    obtain ⟨p, hl, hr⟩ := Option.bind_eq_some_iff.mp hr
    exact .rested plan result p idle ha hl hr
  · cases h

theorem World.step_move {H : Type} {serde : Serde} {hdr : Hdr H}
    {clock : Nat → Nat → Option Nat} {cli : Cli} {w w' : World H} {a : WorldAct}
    (h : w.step serde hdr clock cli a = some w') : WorldMove serde hdr clock cli w w' := by
  cases a with
  | phase i a =>
    simp only [World.step] at h
    split at h
    · cases h
    · rename_i hr
      obtain ⟨⟨db', phases'⟩, hs, rfl⟩ := Option.map_eq_some_iff.mp h
      obtain ⟨p, p', hp, hm, rfl⟩ := stepAt_cases hs
      exact .phase i a p p' db' (Bool.eq_false_iff.mpr hr) hp (Phase.step_move hm)
  | main a =>
    cases a <;> simp only [World.step, World.mainStep] at h
    case begin =>
      split at h
      · rename_i plan todo ha ht
        cases h
        exact .begin plan todo ha ht
      · rename_i ha ht
        cases h
        exact .finish ha ht
      · cases h
    case exec =>
      split at h
      · cases h
      · rename_i c pipe hp
        cases h
        exact .exec c pipe hp
    case proceed =>
      split at h
      · rename_i hp
        exact World.proceed_move (List.isEmpty_iff.mp hp) h
      · cases h
    case fail =>
      split at h <;> cases h
      exact .stop (by assumption)

/-- What a phase keeps, whatever main and the other phases do. A drain that is not
`live` any more has no worker left. -/
structure PhaseKept {H : Type} (hdr : Hdr H) (keys : List String) (db : Db Entry) (live : Prop)
    (p : Phase H) : Prop where
  balanced : Balanced (p.fleet db)
  keyed : p.tasks.pollWorker.queueKeys = keys
  concluded : ∀ cfg d, p.tasks = .drain cfg d → Concluded hdr cfg (p.fleet db) d
  partitioned : ∀ cfg d, p.tasks = .drain cfg d →
    Partitioned hdr p.hub.ledger.received d.collector
  retired : ∀ cfg, p.tasks.config = some cfg → live ∨ ∀ v ∈ p.workers, v.pc.isTerminal = true

section PhaseKept

variable {H : Type} {serde : Serde} {hdr : Hdr H} {keys : List String} {db db' : Db Entry}
  {live : Prop} {p p' : Phase H}

theorem PhaseKept.rebase (h : PhaseKept hdr keys db live p) (db' : Db Entry) :
    PhaseKept hdr keys db' live p where
  balanced := { h.balanced with }
  keyed := h.keyed
  concluded cfg d ht := { h.concluded cfg d ht with }
  partitioned := h.partitioned
  retired := h.retired

theorem PhaseKept.retire {live' : Prop} (h : PhaseKept hdr keys db live p)
    (hl : live → live' ∨ ∀ v ∈ p.workers, v.pc.isTerminal = true) :
    PhaseKept hdr keys db live' p where
  balanced := h.balanced
  keyed := h.keyed
  concluded := h.concluded
  partitioned := h.partitioned
  retired cfg ht := (h.retired cfg ht).elim hl .inr

theorem PhaseMove.tasks {a : PhaseAct} (h : PhaseMove serde hdr db p a db' p') {cfg : TrialConfig}
    {d' : DrainTasks H} (ht : p'.tasks = .drain cfg d') :
    ∃ d, p.tasks = .drain cfg d ∧ ∃ act,
      FleetStutter serde ⟨some cfg.jobs, cfg.queueKeys⟩ (p.fleet db) act (p'.fleet db') ∧
      ((d' = d ∧ act ≠ some .recv) ∨ ∃ a, DrainMove hdr cfg (p.fleet db) d a act d') := by
  cases h with
  | worker i a f ha hf =>
    rw [show p.tasks = .drain cfg d' from ht] at hf
    exact ⟨d', ht, some (.worker i a), hf, .inl ⟨rfl, by simp⟩⟩
  | late j f hf =>
    rw [show p.tasks = .drain cfg d' from ht] at hf
    exact ⟨d', ht, some (.late j), hf, .inl ⟨rfl, by simp⟩⟩
  | drain cfg d d' a act f ht' hm hf =>
    cases ht
    exact ⟨d, ht', act, hf, .inr ⟨a, hm⟩⟩
  | idle queueKeys t t' a act f ht' hm hf => cases ht

theorem PhaseKept.step {a : PhaseAct} (h : PhaseKept hdr keys db live p)
    (hm : PhaseMove serde hdr db p a db' p') : PhaseKept hdr keys db' live p' where
  balanced := by
    obtain ⟨_, act, hf, _⟩ := hm.fleet
    exact hf.keep h.balanced (fun _ hf => h.balanced.step hf)
  keyed := by rw [hm.fleet.1, h.keyed]
  concluded cfg d' ht := by
    obtain ⟨d, ht', act, hf, hd⟩ := hm.tasks ht
    have hc := h.concluded cfg d ht'
    rcases hd with ⟨rfl, _⟩ | ⟨b, hd⟩
    · exact hf.keep (P := fun f => Concluded hdr cfg f d') hc (fun _ hf => hc.fleet hf)
    · exact hc.drain hd hf
  partitioned cfg d' ht := by
    obtain ⟨d, ht', act, hf, hd⟩ := hm.tasks ht
    have hp : Partitioned hdr (p.fleet db).shared.hub.ledger.received d.collector :=
      h.partitioned cfg d ht'
    rcases hd with ⟨rfl, ha⟩ | ⟨b, hd⟩
    · cases act with
      | none =>
        have he : p'.fleet db' = p.fleet db := hf
        rw [← he] at hp
        exact hp
      | some act => exact hp.fleet hf (fun he => ha (he ▸ rfl))
    · exact hp.drain hd hf
  retired cfg ht := by
    obtain ⟨_, act, hf, _⟩ := hm.fleet
    refine (h.retired cfg (hm.config ▸ ht)).imp id (fun hw => ?_)
    exact hf.keep (P := fun f => ∀ v ∈ f.workers, v.pc.isTerminal = true) hw
      (fun _ hf => (hf.frozen hw).workers)

theorem PhaseKept.runDrainTrial (cfg : TrialConfig) (nWorkers : Nat) :
    PhaseKept hdr cfg.queueKeys db True (runDrainTrial hdr cfg nWorkers) where
  balanced := .new db nWorkers
  keyed := rfl
  concluded cfg' d ht := by
    cases ht
    exact .new hdr cfg _
  partitioned cfg' d ht := by
    cases ht
    exact .new hdr
  retired _ _ := .inl trivial

theorem PhaseKept.runIdlePollTrial (nWorkers : Nat) :
    PhaseKept hdr keys db live (runIdlePollTrial keys nWorkers) where
  balanced := .new db nWorkers
  keyed := rfl
  concluded cfg d ht := by cases ht
  partitioned cfg d ht := by cases ht
  retired cfg ht := by cases ht

/-- A drain that has returned has no worker left: its collector ended. -/
theorem PhaseKept.returned {r : TrialResult} (h : PhaseKept hdr keys db live p)
    (hr : p.tasks.returned = some r) : ∀ v ∈ p.workers, v.pc.isTerminal = true := by
  cases ht : p.tasks with
  | drain cfg d =>
    have hc := h.concluded cfg d ht
    rw [ht, Tasks.returned_drain] at hr
    exact (hc.ended (hc.finished r hr).1).1
  | idle queueKeys t =>
    rw [ht] at hr
    cases hr

end PhaseKept

section World

variable {H : Type} {serde : Serde} {hdr : Hdr H} {clock : Nat → Nat → Option Nat} {cli : Cli}
  {w w' : World H}

/-- The phase at `q` is the drain main is waiting for. -/
def World.live (w : World H) (q : Nat) : Prop :=
  (∃ plan, w.main.activity = .draining plan) ∧ q + 1 = w.phases.length

def PhasesKept (hdr : Hdr H) (cli : Cli) (w : World H) : Prop :=
  ∀ q p, w.phases[q]? = some p → PhaseKept hdr cli.queueKeys w.db (w.live q) p

theorem PhasesKept.calm (h : PhasesKept hdr cli w) (ha : ∀ plan, w.main.activity ≠ .draining plan)
    {q : Nat} {p : Phase H} (hp : w.phases[q]? = some p) (live : Prop) :
    PhaseKept hdr cli.queueKeys w.db live p :=
  (h q p hp).retire (fun hl => absurd hl.1.choose_spec (ha _))

theorem getLast?_set {α : Type*} {l : List α} {i : Nat} {x y z : α} (hi : l[i]? = some y)
    (hz : l.getLast? = some z) :
    ((l.set i x).getLast? = some x ∧ z = y) ∨ (l.set i x).getLast? = some z := by
  rw [List.getLast?_eq_getElem?] at hz
  rw [List.getLast?_eq_getElem?, List.length_set]
  by_cases h : i = l.length - 1
  · subst h
    have hlt := (List.getElem?_eq_some_iff.mp hi).1
    exact .inl ⟨by simp [hlt], Option.some.inj (hz.symm.trans hi)⟩
  · exact .inr (by rw [List.getElem?_set_ne h, hz])

/-- What one step does to the phases: one of them steps, or a new one starts, or
none. -/
theorem WorldMove.phases_cases (hm : WorldMove serde hdr clock cli w w') :
    (∃ (i : Nat) (a : PhaseAct) (p p' : Phase H), w.phases[i]? = some p ∧
      PhaseMove serde hdr w.db p a w'.db p' ∧ w'.phases = w.phases.set i p') ∨
    w'.phases = w.phases ∨
    ∃ (p : Phase H) (n : Nat), (∀ db, p.fleet db = .new db n) ∧ w'.phases = w.phases ++ [p] := by
  cases hm with
  | phase i a p p' db' hr hp hm => exact .inl ⟨i, a, p, p', hp, hm, rfl⟩
  | drain plan ha hp hr => exact .inr (.inr ⟨_, plan.nWorkers, fun _ => rfl, rfl⟩)
  | idle plan result ha hp hs => exact .inr (.inr ⟨_, plan.nWorkers, fun _ => rfl, rfl⟩)
  | drained plan p result ha hl hr =>
    unfold World.drained
    split <;> exact .inr (.inl rfl)
  | _ => exact .inr (.inl rfl)

theorem PhasesKept.step (h : PhasesKept hdr cli w) (hm : WorldMove serde hdr clock cli w w') :
    PhasesKept hdr cli w' := by
  intro q p hp
  cases hm with
  | phase i a p₀ p₁ db' hr hi hm =>
    have hlive : World.live { w with db := db', phases := w.phases.set i p₁ } q = w.live q := by
      simp [World.live]
    rw [hlive]
    by_cases hq : i = q
    · subst hq
      obtain rfl : p₁ = p := by
        have hlt := (List.getElem?_eq_some_iff.mp hi).1
        simpa [hlt] using hp
      exact (h i p₀ hi).step hm
    · exact (h q p (by simpa [hq] using hp)).rebase db'
  | begin plan todo ha ht => exact h.calm (by simp [ha]) hp _
  | finish ha ht => exact h.calm (by simp [ha]) hp _
  | exec c pipe hp' => exact (h q p hp).rebase _
  | stop ha => exact h.calm (fun plan he => by simp [he, Activity.queries] at ha) hp _
  | cleared plan pipe rest ha hp' hb => exact h.calm (by simp [ha]) hp _
  | batch plan pipe rest ha hp' hr => exact h.calm (by simp [ha]) hp _
  | drain plan ha hp' hr =>
    rcases getElem?_concat hp with hp | ⟨rfl, rfl⟩
    · exact h.calm (by simp [ha]) hp _
    · let cfg : TrialConfig := ⟨cli.queueKeys, plan.jobs, cli.latencyPercentiles⟩
      have hnew : PhaseKept hdr cfg.queueKeys w.db True (runDrainTrial hdr cfg plan.nWorkers) :=
        .runDrainTrial cfg plan.nWorkers
      exact hnew.retire (fun _ => .inl ⟨⟨plan, rfl⟩, by simp [World.launch]⟩)
  | drained plan p₀ result ha hl hr =>
    have hw' : (w.drained cli plan result).phases = w.phases ∧
        (w.drained cli plan result).db = w.db := by
      unfold World.drained
      split <;> exact ⟨rfl, rfl⟩
    rw [hw'.1] at hp
    rw [hw'.2]
    refine (h q p hp).retire (fun hlive => .inr ?_)
    -- the live phase is the last one, the one that has returned
    have hlast : w.phases.getLast? = some p := by
      rw [List.getLast?_eq_getElem?, ← hlive.2]
      simpa using hp
    obtain rfl : p₀ = p := Option.some.inj (hl.symm.trans hlast)
    exact (h q p₀ hp).returned hr
  | skip plan result backlog ha hp' hs hb => exact h.calm (by simp [ha]) hp _
  | idle plan result ha hp' hs =>
    rcases getElem?_concat hp with hp | ⟨rfl, rfl⟩
    · exact h.calm (by simp [ha]) hp _
    · exact .runIdlePollTrial _
  | rested plan result p₀ idle ha hl hr => exact h.calm (by simp [ha]) hp _

end World

end ResqueBench
