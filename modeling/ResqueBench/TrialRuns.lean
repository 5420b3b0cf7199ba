import ResqueBench.Trial

/-! Runs of a phase. Each step moves the fleet by at most one fleet action, so what
every fleet step keeps holds in every reachable state of a phase. -/

namespace ResqueBench

open Redis

def FleetStutter (serde : Serde) (pw : PollWorker) (f : Fleet) : Option FleetAct → Fleet → Prop
  | none, f' => f' = f
  | some a, f' => FleetMove serde pw f a f'

theorem FleetStutter.keep {serde : Serde} {pw : PollWorker} {f f' : Fleet} {act : Option FleetAct}
    {P : Fleet → Prop} (h : FleetStutter serde pw f act f') (hf : P f)
    (hstep : ∀ a, FleetMove serde pw f a f' → P f') : P f' := by
  cases act with
  | none =>
    obtain rfl : f' = f := h
    exact hf
  | some a => exact hstep a h

inductive IdleMove (f : Fleet) (t : IdleTasks) : IdleAct → Option FleetAct → IdleTasks → Prop
  | recv (ha : t.drainTaskAborted = false) : IdleMove f t .recv (some .recv) t
  | shutdown (elapsed : Rat) (ho : t.orch = .sleeping) :
      IdleMove f t (.shutdown elapsed) (some .shutdown) { t with orch := .joining elapsed }
  | grace (i : Nat) (elapsed : Rat) (ho : t.orch = .joining elapsed) :
      IdleMove f t (.grace i) (some (.worker i .abort)) t
  | readOut (elapsed : Rat) (ho : t.orch = .joining elapsed)
      (hw : ∀ w ∈ f.workers, w.pc.isTerminal = true ∨ w.abortRequested = true) :
      IdleMove f t .readOut none ⟨.finished (idlePollResult f elapsed), true⟩

theorem IdleTasks.step_move {f : Fleet} {t t' : IdleTasks} {a : IdleAct} {act : Option FleetAct}
    (h : t.step f a = some (act, t')) : IdleMove f t a act t' := by
  cases a <;> simp only [IdleTasks.step] at h
  case recv =>
    split at h <;> cases h
    exact .recv (Bool.eq_false_iff.mpr (by assumption))
  case shutdown elapsed =>
    split at h <;> cases h
    exact .shutdown elapsed (by assumption)
  case grace i =>
    split at h <;> cases h
    exact .grace i _ (by assumption)
  case readOut =>
    split at h
    · split at h <;> cases h
      rename_i hc
      simp only [joinable, List.all_eq_true, Bool.or_eq_true] at hc
      exact .readOut _ (by assumption) hc
    · cases h

inductive PhaseMove {H : Type} (serde : Serde) (hdr : Hdr H) (db : Db Entry) (p : Phase H) :
    PhaseAct → Db Entry → Phase H → Prop
  | worker (i : Nat) (a : WorkerAct) (f : Fleet) (ha : a ≠ .abort)
      (hf : FleetMove serde p.tasks.pollWorker (p.fleet db) (.worker i a) f) :
      PhaseMove serde hdr db p (.worker i a) f.shared.db ⟨f.shared.hub, f.workers, p.tasks⟩
  | late (j : Nat) (f : Fleet)
      (hf : FleetMove serde p.tasks.pollWorker (p.fleet db) (.late j) f) :
      PhaseMove serde hdr db p (.late j) f.shared.db ⟨f.shared.hub, f.workers, p.tasks⟩
  | drain (cfg : TrialConfig) (d d' : DrainTasks H) (a : DrainAct) (act : Option FleetAct)
      (f : Fleet) (ht : p.tasks = .drain cfg d) (hm : DrainMove hdr cfg (p.fleet db) d a act d')
      (hf : FleetStutter serde ⟨some cfg.jobs, cfg.queueKeys⟩ (p.fleet db) act f) :
      PhaseMove serde hdr db p (.drain a) f.shared.db ⟨f.shared.hub, f.workers, .drain cfg d'⟩
  | idle (queueKeys : List String) (t t' : IdleTasks) (a : IdleAct) (act : Option FleetAct)
      (f : Fleet) (ht : p.tasks = .idle queueKeys t) (hm : IdleMove (p.fleet db) t a act t')
      (hf : FleetStutter serde ⟨none, queueKeys⟩ (p.fleet db) act f) :
      PhaseMove serde hdr db p (.idle a) f.shared.db ⟨f.shared.hub, f.workers, .idle queueKeys t'⟩

theorem Phase.apply_stutter {H : Type} {serde : Serde} {db db' : Db Entry} {p p' : Phase H}
    {act : Option FleetAct} {tasks : Tasks H} (h : p.apply serde db act tasks = some (db', p')) :
    ∃ f, FleetStutter serde p.tasks.pollWorker (p.fleet db) act f ∧
      db' = f.shared.db ∧ p' = ⟨f.shared.hub, f.workers, tasks⟩ := by
  cases act with
  | none =>
    cases h
    exact ⟨p.fleet db, rfl, rfl, rfl⟩
  | some act =>
    simp only [Phase.apply, Option.map_eq_some_iff] at h
    obtain ⟨f, hf, he⟩ := h
    cases he
    exact ⟨f, Fleet.step_move hf, rfl, rfl⟩

theorem Phase.step_move {H : Type} {serde : Serde} {hdr : Hdr H} {db db' : Db Entry}
    {p p' : Phase H} {a : PhaseAct} (h : p.step serde hdr db a = some (db', p')) :
    PhaseMove serde hdr db p a db' p' := by
  cases a with
  | worker i a =>
    simp only [Phase.step] at h
    split at h
    · cases h
    · rename_i ha
      obtain ⟨f, hf, rfl, rfl⟩ := Phase.apply_stutter h
      exact .worker i a f ha hf
  | late j =>
    simp only [Phase.step] at h
    obtain ⟨f, hf, rfl, rfl⟩ := Phase.apply_stutter h
    exact .late j f hf
  | drain a =>
    simp only [Phase.step] at h
    split at h
    · rename_i cfg d ht
      obtain ⟨⟨act, d'⟩, hs, h⟩ := Option.bind_eq_some_iff.mp h
      obtain ⟨f, hf, rfl, rfl⟩ := Phase.apply_stutter h
      rw [ht] at hf
      exact .drain cfg d d' a act f ht (DrainTasks.step_move hs) hf
    · cases h
  | idle a =>
    simp only [Phase.step] at h
    split at h
    · rename_i queueKeys t ht
      obtain ⟨⟨act, t'⟩, hs, h⟩ := Option.bind_eq_some_iff.mp h
      obtain ⟨f, hf, rfl, rfl⟩ := Phase.apply_stutter h
      rw [ht] at hf
      exact .idle queueKeys t t' a act f ht (IdleTasks.step_move hs) hf
    · cases h

/-- The fleet's part of a phase step. A failure or a late command is never the
work of a task. -/
theorem PhaseMove.fleet {H : Type} {serde : Serde} {hdr : Hdr H} {db db' : Db Entry}
    {p p' : Phase H} {a : PhaseAct} (h : PhaseMove serde hdr db p a db' p') :
    p'.tasks.pollWorker = p.tasks.pollWorker ∧
    ∃ act, FleetStutter serde p.tasks.pollWorker (p.fleet db) act (p'.fleet db') ∧
      (∀ i b, act = some (.worker i b) → b = .abort ∨ a = .worker i b) ∧
      (∀ j, act = some (.late j) → a = .late j) := by
  cases h with
  | worker i a f ha hf =>
    refine ⟨rfl, some (.worker i a), hf, ?_, ?_⟩
    · rintro _ _ ⟨⟩; exact .inr rfl
    · rintro _ ⟨⟩
  | late j f hf =>
    refine ⟨rfl, some (.late j), hf, ?_, ?_⟩
    · rintro _ _ ⟨⟩
    · rintro _ ⟨⟩; rfl
  | drain cfg d d' a act f ht hm hf =>
    refine ⟨by simp [ht, Tasks.pollWorker], act, ?_, ?_, ?_⟩
    · rw [ht]; exact hf
    · rintro i b rfl; cases hm; exact .inl rfl
    · rintro j rfl; cases hm
  | idle queueKeys t t' a act f ht hm hf =>
    refine ⟨by simp [ht, Tasks.pollWorker], act, ?_, ?_, ?_⟩
    · rw [ht]; exact hf
    · rintro i b rfl; cases hm; exact .inl rfl
    · rintro j rfl; cases hm

theorem PhaseMove.length_workers {H : Type} {serde : Serde} {hdr : Hdr H} {db db' : Db Entry}
    {p p' : Phase H} {a : PhaseAct} (h : PhaseMove serde hdr db p a db' p') :
    p'.workers.length = p.workers.length := by
  obtain ⟨_, act, hf, _⟩ := h.fleet
  exact hf.keep (P := fun f => f.workers.length = p.workers.length) rfl
    (fun _ hf => hf.length_workers)

theorem PhaseMove.metrics_le {H : Type} {serde : Serde} {hdr : Hdr H} {db db' : Db Entry}
    {p p' : Phase H} {a : PhaseAct} (h : PhaseMove serde hdr db p a db' p') :
    Metrics.Le p.hub.metrics p'.hub.metrics := by
  obtain ⟨_, act, hf, _⟩ := h.fleet
  exact hf.keep (P := fun f => Metrics.Le p.hub.metrics f.shared.hub.metrics) (.refl _)
    (fun _ hf => hf.metrics_le)

theorem PhaseMove.config {H : Type} {serde : Serde} {hdr : Hdr H} {db db' : Db Entry}
    {p p' : Phase H} {a : PhaseAct} (h : PhaseMove serde hdr db p a db' p') :
    p'.tasks.config = p.tasks.config := by
  cases h with
  | worker i a f ha hf => rfl
  | late j f hf => rfl
  | drain cfg d d' a act f ht hm hf => rw [ht]; rfl
  | idle queueKeys t t' a act f ht hm hf => rw [ht]; rfl

theorem Trial.step_move {H : Type} {serde : Serde} {hdr : Hdr H} {t t' : Trial H} {a : PhaseAct}
    (h : t.step serde hdr a = some t') : PhaseMove serde hdr t.db t.phase a t'.db t'.phase := by
  simp only [Trial.step, Option.map_eq_some_iff] at h
  obtain ⟨⟨db', p'⟩, hs, rfl⟩ := h
  exact Phase.step_move hs

/-- A phase among other clients: a step finds whatever they have made of the database. -/
def Phase.stepAmid {H : Type} (serde : Serde) (hdr : Hdr H) (p : Phase H) (x : Db Entry × PhaseAct) :
    Option (Phase H) :=
  (p.step serde hdr x.1 x.2).map Prod.snd

theorem Phase.stepAmid_move {H : Type} {serde : Serde} {hdr : Hdr H} {p p' : Phase H}
    {x : Db Entry × PhaseAct} (h : p.stepAmid serde hdr x = some p') :
    ∃ db', PhaseMove serde hdr x.1 p x.2 db' p' := by
  obtain ⟨⟨db', q⟩, hs, rfl⟩ := Option.map_eq_some_iff.mp h
  exact ⟨db', Phase.step_move hs⟩

theorem Trial.step_amid {H : Type} {serde : Serde} {hdr : Hdr H} {t t' : Trial H} {a : PhaseAct}
    (h : t.step serde hdr a = some t') : t.phase.stepAmid serde hdr (t.db, a) = some t'.phase := by
  obtain ⟨r, hr, rfl⟩ := Option.map_eq_some_iff.mp h
  exact Option.map_eq_some_iff.mpr ⟨r, hr, rfl⟩

theorem Trial.step_of_amid {H : Type} {serde : Serde} {hdr : Hdr H} {t : Trial H} {p : Phase H}
    {a : PhaseAct} (h : t.phase.stepAmid serde hdr (t.db, a) = some p) :
    ∃ db, t.step serde hdr a = some ⟨db, p⟩ := by
  obtain ⟨⟨db, q⟩, hs, rfl⟩ := Option.map_eq_some_iff.mp h
  exact ⟨db, by simp [Trial.step, hs]⟩

/-- A phase alone with its database is one among clients that send nothing. -/
theorem Trial.amid_of_reach {H : Type} {serde : Serde} {hdr : Hdr H} {ok : PhaseAct → Prop}
    {t t' : Trial H} (h : Machine.Reach (Trial.step serde hdr) ok t t') :
    Machine.Runs (Phase.stepAmid serde hdr) t.phase t'.phase :=
  h.map Trial.phase (fun _ hs => ⟨_, trivial, Trial.step_amid hs⟩)

/-- What every fleet step keeps, whatever the database is made to be, a phase keeps
among other clients. -/
theorem amid_invariant {H : Type} {serde : Serde} {hdr : Hdr H} {p p' : Phase H}
    {P : Fleet → Prop}
    (hdb : ∀ {f : Fleet} (db : Db Entry), P f → P ⟨⟨db, f.shared.hub⟩, f.workers⟩)
    (hstep : ∀ {f f' act}, P f → FleetMove serde p.tasks.pollWorker f act f' → P f')
    (h : Machine.Runs (Phase.stepAmid serde hdr) p p') (hs : ∀ db, P (p.fleet db)) :
    p'.tasks.pollWorker = p.tasks.pollWorker ∧ ∀ db, P (p'.fleet db) := by
  refine h.invariant (P := fun q => q.tasks.pollWorker = p.tasks.pollWorker ∧
    ∀ db, P (q.fleet db)) (fun {q x q'} hq _ hx => ?_) ⟨rfl, hs⟩
  obtain ⟨db', hm⟩ := Phase.stepAmid_move hx
  obtain ⟨hpw, act, hf, _⟩ := hm.fleet
  rw [hq.1] at hpw hf
  have hq' : P (q'.fleet db') := hf.keep (hq.2 x.1) (fun _ hf => hstep (hq.2 x.1) hf)
  exact ⟨hpw, fun db => hdb db hq'⟩

def PhaseAct.isFail : PhaseAct → Bool
  | .worker _ .fail => true
  | _ => false

/-- What every fleet step keeps holds in every reachable state of a phase. `ok`
admits no failure where the fleet property does not survive one. -/
theorem fleet_invariant {H : Type} {serde : Serde} {hdr : Hdr H} {ok : PhaseAct → Prop}
    {t t' : Trial H} {P : Fleet → Prop}
    (hstep : ∀ {f f' act}, P f → FleetMove serde t.phase.tasks.pollWorker f act f' →
      (∀ i, act = .worker i .fail → ok (.worker i .fail)) → P f')
    (h : Machine.Reach (Trial.step serde hdr) ok t t') (hs : P t.fleet) :
    t'.phase.tasks.pollWorker = t.phase.tasks.pollWorker ∧ P t'.fleet := by
  induction h with
  | refl => exact ⟨rfl, hs⟩
  | @tail u v _ he ih =>
    obtain ⟨a, hok, he⟩ := he
    obtain ⟨hpw, act, hf, hfail, _⟩ := (Trial.step_move he).fleet
    refine ⟨hpw.trans ih.1, ?_⟩
    cases act with
    | none =>
      have hv : v.fleet = u.fleet := hf
      exact hv ▸ ih.2
    | some act =>
      rw [ih.1] at hf
      refine hstep ih.2 hf (fun i hi => ?_)
      rcases hfail i .fail (by rw [hi]) with hb | hb
      · cases hb
      · exact hb ▸ hok

theorem balanced_of_reach {H : Type} {serde : Serde} {hdr : Hdr H} {ok : PhaseAct → Prop}
    {db₀ : Db Entry} {p₀ : Phase H} {t : Trial H} (nWorkers : Nat)
    (hnew : p₀.fleet db₀ = .new db₀ nWorkers)
    (h : Machine.Reach (Trial.step serde hdr) ok ⟨db₀, p₀⟩ t) : Balanced t.fleet := by
  have hstart : Balanced (p₀.fleet db₀) := by
    rw [hnew]
    exact .new db₀ nWorkers
  exact (fleet_invariant (fun hf hm _ => hf.step hm) h hstart).2

theorem runDrainTrial_fleet {H : Type} (hdr : Hdr H) (cfg : TrialConfig) (nWorkers : Nat) :
    ∀ db, (runDrainTrial hdr cfg nWorkers).fleet db = .new db nWorkers := fun _ => rfl

theorem balanced_amid {H : Type} {serde : Serde} {hdr : Hdr H} {p₀ p : Phase H} {nWorkers : Nat}
    (hnew : ∀ db, p₀.fleet db = .new db nWorkers)
    (h : Machine.Runs (Phase.stepAmid serde hdr) p₀ p) : ∀ db, Balanced (p.fleet db) := by
  refine (amid_invariant (fun _ hb => { hb with }) (fun hb hm => hb.step hm) h fun db => ?_).2
  rw [hnew]
  exact .new db nWorkers

/-- What the workers and the server do by themselves. Messages are read, workers
aborted and the shutdown sent by the tasks. -/
def FleetAct.own : FleetAct → Prop
  | .worker _ a => a ≠ .abort
  | .late _ => True
  | .shutdown | .recv => False

theorem FleetAct.own.ne_recv {act : FleetAct} (h : act.own) : act ≠ .recv := by
  rintro rfl
  exact h

/-- The same for a property of the fleet and the drain tasks together. -/
theorem drain_invariant {H : Type} {serde : Serde} {hdr : Hdr H} {cfg : TrialConfig}
    {d₀ : DrainTasks H} {t t' : Trial H} {P : Fleet → DrainTasks H → Prop}
    (hfleet : ∀ {f f' d act}, P f d → FleetMove serde ⟨some cfg.jobs, cfg.queueKeys⟩ f act f' →
      act.own → P f' d)
    (hdrain : ∀ {f f' d d' a act}, P f d → DrainMove hdr cfg f d a act d' →
      FleetStutter serde ⟨some cfg.jobs, cfg.queueKeys⟩ f act f' → P f' d')
    (h : Machine.Runs (Trial.step serde hdr) t t') (ht : t.phase.tasks = .drain cfg d₀)
    (hs : P t.fleet d₀) : ∃ d, t'.phase.tasks = .drain cfg d ∧ P t'.fleet d := by
  induction h with
  | refl => exact ⟨d₀, ht, hs⟩
  | @tail u v _ he ih =>
    obtain ⟨a, _, he⟩ := he
    obtain ⟨d, hd, hp⟩ := ih
    obtain ⟨db, p⟩ := u
    obtain ⟨db', p'⟩ := v
    have hpw : p.tasks.pollWorker = ⟨some cfg.jobs, cfg.queueKeys⟩ := by
      rw [show p.tasks = .drain cfg d from hd]; rfl
    cases Trial.step_move he with
    | worker i a f ha hf => exact ⟨d, hd, hfleet hp (hpw ▸ hf) (show (FleetAct.worker i a).own from ha)⟩
    | late j f hf => exact ⟨d, hd, hfleet hp (hpw ▸ hf) (show (FleetAct.late j).own from trivial)⟩
    | drain cfg' e e' a act f ht' hm hf =>
      cases ht'.symm.trans hd
      exact ⟨e', rfl, hdrain hp hm hf⟩
    | idle queueKeys e e' a act f ht' hm hf => cases ht'.symm.trans hd

end ResqueBench
