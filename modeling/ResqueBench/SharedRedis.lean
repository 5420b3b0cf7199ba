import ResqueBench.Confinement
import ResqueBench.OwnJobs

/-! The benchmark on a Redis that others use. Without `--allow-flushdb` every command
of every task stays within the queue keys and the names of the queues. -/

namespace ResqueBench

open Redis Threads

/-- `fetch_tag`, on a connection of its own, where there is no `--tag`. -/
def fetchTag (tag : Option String) : List (Cmd Entry) :=
  match tag with
  | some _ => []
  | none => [.info "server"]

/-- Main where it enters the trial loop. -/
def World.boot {H : Type} (cli : Cli) (tag : Option String) (db : Db Entry) : World H :=
  .start cli (serve db (fetchTag tag))

def Cmd.ours (cli : Cli) (c : Cmd Entry) : Prop := c.confined cli.queueKeys "queues" cli.queueNames

theorem queues_notMem_queueKeys (queues : List String) : "queues" ∉ queueKeys queues := by
  intro h
  obtain ⟨q, _, hq⟩ := List.mem_map.mp h
  exact queueKey_ne_queues q hq

theorem mem_queueKeys {queues : List String} {q : String} (h : q ∈ queues) :
    "queue:" ++ q ∈ queueKeys queues := List.mem_map_of_mem h

section Pipelines

variable {serde : Serde} {cli : Cli}

theorem clearQueue_ours {c : Cmd Entry} (h : c ∈ clearQueue cli.queueNames) : Cmd.ours cli c := by
  obtain ⟨q, hq, hc⟩ := List.mem_flatMap.mp h
  rcases List.mem_pair.mp hc with rfl | rfl
  · exact mem_queueKeys hq
  · exact ⟨rfl, hq⟩

theorem totalQueueLen_ours {c : Cmd Entry} (h : c ∈ totalQueueLen cli.queueNames) :
    Cmd.ours cli c := by
  obtain ⟨q, _, rfl⟩ := List.mem_map.mp h
  exact trivial

theorem bulkEnqueue_ours {clock : Nat → Option Nat} {trial nJobs : Nat}
    {pipes : List (List (Cmd Entry))}
    (h : bulkEnqueue serde clock trial cli.queueNames nJobs = some pipes) {pipe : List (Cmd Entry)}
    (hp : pipe ∈ pipes) {c : Cmd Entry} (hc : c ∈ pipe) : Cmd.ours cli c := by
  have hne : cli.queueNames ≠ [] := makeQueueNames_ne_nil _ _
  obtain ⟨pipes', h', hflat⟩ := bulkEnqueue_spec serde clock trial hne nJobs
  obtain rfl : pipes = pipes' := Option.some.inj (h.symm.trans h')
  have hmem : c ∈ pipes.flatten := List.mem_flatten_of_mem hp hc
  rw [hflat] at hmem
  rcases List.mem_append.mp hmem with hmem | hmem
  · obtain ⟨q, hq, rfl⟩ := List.mem_map.mp hmem
    exact ⟨rfl, hq⟩
  · obtain ⟨i, _, rfl⟩ := List.mem_map.mp hmem
    exact mem_queueKeys (queueFor_mem hne i)

end Pipelines

section Fleet

variable {serde : Serde} {pw : PollWorker}

/-- The only command of a worker is an `LPOP` on one of its keys. -/
def Popped (keys : List String) (db db' : Db Entry) : Prop :=
  db' = db ∨ ∃ key ∈ keys, db' = (exec db (.lpop key)).1

theorem Move.popped {s s' : Shared} {w w' : Worker} {a : WorkerAct}
    (h : Move serde pw s w a s' w') : Popped pw.queueKeys s.db s'.db := by
  cases h with
  | pop k key e rest hpc hk hl hdb => exact .inr ⟨key, List.mem_of_getElem? hk, rfl⟩
  | _ => exact .inl rfl

theorem FleetMove.popped {f f' : Fleet} {a : FleetAct} (h : FleetMove serde pw f a f') :
    Popped pw.queueKeys f.shared.db f'.shared.db := by
  cases h with
  | worker i a w w' s' hw hm => exact hm.popped
  | latePop j k key e rest hj hk hl hdb => exact .inr ⟨key, List.mem_of_getElem? hk, rfl⟩
  | _ => exact .inl rfl

theorem PhaseMove.popped {H : Type} {hdr : Hdr H} {db db' : Db Entry} {p p' : Phase H}
    {a : PhaseAct} (h : PhaseMove serde hdr db p a db' p') :
    Popped p.tasks.pollWorker.queueKeys db db' := by
  obtain ⟨_, act, hf, _⟩ := h.fleet
  exact hf.keep (P := fun f => Popped p.tasks.pollWorker.queueKeys db f.shared.db) (.inl rfl)
    (fun _ hf => hf.popped)

end Fleet

section World

variable {H : Type} {serde : Serde} {hdr : Hdr H} {clock : Nat → Nat → Option Nat} {cli : Cli}
  {db₀ : Db Entry} {w w' : World H}

/-- The database differs from `db₀` in our part of it only, and what main sends next
does no harm either. -/
structure Within (cli : Cli) (db₀ : Db Entry) (w : World H) : Prop where
  db : Confined cli.queueKeys "queues" cli.queueNames db₀ w.db
  sent : ∀ c ∈ w.main.pipe, Cmd.ours cli c
  ahead : ∀ plan rest, w.main.activity = .enqueuing plan rest →
    ∀ pipe ∈ rest, ∀ c ∈ pipe, Cmd.ours cli c

theorem Within.send (h : Within cli db₀ w) (hdb : w'.db = w.db)
    (hsent : ∀ c ∈ w'.main.pipe, Cmd.ours cli c)
    (hahead : ∀ plan rest, w'.main.activity ≠ .enqueuing plan rest) : Within cli db₀ w' where
  db := by rw [hdb]; exact h.db
  sent := hsent
  ahead plan rest ha := absurd ha (hahead plan rest)

theorem Within.step (h : Within cli db₀ w) (hf : cli.allowFlushdb = false)
    (hk : PhasesKept hdr cli w) (hm : WorldMove serde hdr clock cli w w') :
    Within cli db₀ w' := by
  have hreg : "queues" ∉ cli.queueKeys := queues_notMem_queueKeys _
  cases hm with
  | phase i a p p' db' hr hp hm =>
    have hpop := hm.popped
    rw [(hk i p hp).keyed] at hpop
    refine ⟨h.db.trans ?_, h.sent, h.ahead⟩
    rcases hpop with rfl | ⟨key, hkey, rfl⟩
    · exact .refl _
    · exact .exec hreg hkey
  | begin plan todo ha ht =>
    refine h.send rfl (fun c hc => clearQueue_ours ?_) (by simp [World.send])
    simpa [World.send, preTrialClear, hf] using hc
  | exec c pipe hp =>
    have hc : ∀ c' ∈ c :: pipe, Cmd.ours cli c' := hp ▸ h.sent
    exact ⟨h.db.trans (.exec hreg (hc c List.mem_cons_self)),
      fun c' hc' => hc c' (List.mem_cons_of_mem _ hc'), h.ahead⟩
  | cleared plan pipe rest ha hp hb =>
    refine ⟨h.db, fun c hc => bulkEnqueue_ours hb List.mem_cons_self hc, ?_⟩
    intro plan' rest' ha' pipe' hp' c hc
    obtain ⟨rfl, rfl⟩ : plan = plan' ∧ rest = rest' := by simpa [World.send] using ha'
    exact bulkEnqueue_ours hb (List.mem_cons_of_mem _ hp') hc
  | batch plan pipe rest ha hp hr =>
    have hrest := h.ahead plan (pipe :: rest) ha
    refine ⟨h.db, hrest pipe List.mem_cons_self, ?_⟩
    intro plan' rest' ha' pipe' hp'
    obtain ⟨rfl, rfl⟩ : plan = plan' ∧ rest = rest' := by simpa [World.send] using ha'
    exact hrest pipe' (List.mem_cons_of_mem _ hp')
  | drained plan p result ha hl hr =>
    unfold World.drained
    split
    · exact h.send rfl (fun c hc => totalQueueLen_ours hc) (by simp [World.send])
    · exact h.send rfl (by simp [World.send]) (by simp [World.send])
  | _ =>
    exact h.send rfl (by simp [World.send, World.stop, World.launch, World.conclude])
      (by simp [World.send, World.stop, World.launch, World.conclude])

theorem within_of_runs {tag : Option String} (hf : cli.allowFlushdb = false)
    (h : Machine.Runs (World.step serde hdr clock cli) (.boot cli tag db₀) w) :
    Within cli db₀ w := by
  have hstart : Within cli db₀ (World.boot cli tag db₀ : World H) := by
    refine ⟨.serve (queues_notMem_queueKeys _) (fun c hc => ?_), by simp [World.boot, World.start],
      by simp [World.boot, World.start]⟩
    cases tag with
    | none =>
      obtain rfl := List.mem_singleton.mp hc
      exact trivial
    | some t => simp [fetchTag] at hc
  have hboth : Sound serde hdr clock cli w ∧ Within cli db₀ w := by
    refine h.invariant (P := fun w => Sound serde hdr clock cli w ∧ Within cli db₀ w) ?_
      ⟨.start serde hdr clock cli _, hstart⟩
    intro s a t hs _ hstep
    have hm := World.step_move hstep
    exact ⟨hs.1.step hm, hs.2.step hf hs.1.phases hm⟩
  exact hboth.2

/-- A command that the server may still execute: one of main's pipeline, or an
`LPOP` of a worker, awaited or not. -/
def World.inFlight (w : World H) (c : Cmd Entry) : Prop :=
  c ∈ w.main.pipe ∨ ∃ p ∈ w.phases, ∃ key ∈ p.tasks.pollWorker.queueKeys, c = .lpop key

/-- Without `--allow-flushdb`, in every reachable state, and after whatever the server
still executes of the commands in flight there: the keys that are not ours hold what
they held at first, and `queues` has changed by the membership of our names at most. -/
theorem safe_on_shared_redis {tag : Option String} (hf : cli.allowFlushdb = false)
    (h : Machine.Runs (World.step serde hdr clock cli) (.boot cli tag db₀) w)
    {cs : List (Cmd Entry)} (hcs : ∀ c ∈ cs, w.inFlight c) :
    let db := serve w.db cs
    (∀ key, key ≠ "queues" → (∀ q ∈ makeQueueNames cli.queue cli.numQueues, key ≠ "queue:" ++ q) →
      db key = db₀ key) ∧
    (¬ HoldsSet db₀ "queues" → db "queues" = db₀ "queues") ∧
    (HoldsSet db₀ "queues" → HoldsSet db "queues" ∧
      ∀ m, m ∉ makeQueueNames cli.queue cli.numQueues →
        (m ∈ setAt db "queues" ↔ m ∈ setAt db₀ "queues")) ∧
    ∀ q : String, "queue:" ++ q ≠ "queues" := by
  have hreg : "queues" ∉ cli.queueKeys := queues_notMem_queueKeys _
  have hsound := sound_of_runs h
  have hw := within_of_runs hf h
  have hours : ∀ c ∈ cs, Cmd.ours cli c := by
    intro c hc
    rcases hcs c hc with hc | ⟨p, hp, key, hkey, rfl⟩
    · exact hw.sent c hc
    · obtain ⟨i, hi⟩ := List.mem_iff_getElem?.mp hp
      rw [(hsound.phases i p hi).keyed] at hkey
      exact hkey
  have hall := hw.db.trans (.serve hreg hours)
  refine ⟨fun key hq hkey => hall.others key (fun hmem => ?_) hq, hall.kept,
    fun hs => ⟨hall.isSet hs, hall.members⟩, queueKey_ne_queues⟩
  obtain ⟨q, hqm, rfl⟩ := List.mem_map.mp hmem
  exact hkey q hqm rfl

end World

/-- Someone else's hash, and someone else's queue in the registry. -/
def sharedDb : Db Entry := fun key =>
  if key = "session" then some (.other "hash")
  else if key = "queues" then some (.set {"mail"})
  else none

/-- A drain that is aborted with its `LPOP` on the wire, which the server executes. -/
theorem safe_on_shared_redis_aborted : ∃ w : World (List Nat),
    Machine.Runs (World.step (.envelopes [(0, 1000)]) Hdr.bucketed (fun _ _ => some 1000)
      oneJobCli) (.boot oneJobCli none sharedDb) w ∧
    serve w.db [.lpop "queue:default"] "session" = some (.other "hash") ∧
    "mail" ∈ setAt (serve w.db [.lpop "queue:default"]) "queues" := by
  obtain ⟨w, hrun, hw⟩ : ∃ w : World (List Nat),
      Machine.Runs (World.step (.envelopes [(0, 1000)]) Hdr.bucketed (fun _ _ => some 1000)
        oneJobCli) (.boot oneJobCli none sharedDb) w ∧
      w.phases.any (fun p => p.tasks.pollWorker.queueKeys == ["queue:default"]) = true :=
    Machine.runs_any (List.flatten [fillOneJob, abortedDrain]) (by decide +kernel)
  obtain ⟨p, hp, hkeys⟩ := List.any_eq_true.mp hw
  have hcs : ∀ c ∈ [Cmd.lpop "queue:default"], w.inFlight c := by
    intro c hc
    obtain rfl := List.mem_singleton.mp hc
    exact .inr ⟨p, hp, "queue:default", by simp [beq_iff_eq.mp hkeys], rfl⟩
  have hsafe := safe_on_shared_redis rfl hrun hcs
  have hset : HoldsSet sharedDb "queues" := fun v hv => ⟨{"mail"}, by
    simpa [sharedDb] using hv.symm⟩
  refine ⟨w, hrun, ?_, ?_⟩
  · rw [hsafe.1 "session" (by decide) (by decide)]
    simp [sharedDb]
  · refine ((hsafe.2.2.1 hset).2 "mail" (by decide)).mpr ?_
    simp [setAt, sharedDb]

end ResqueBench
