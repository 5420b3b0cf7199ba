import ResqueBench.OutputFile
import ResqueBench.RedisUrl
import ResqueBench.CleanRun
import ResqueBench.BulkEnqueue

/-! What main does before its loop: it checks the arguments, builds the URL, prints
warnings, finds a tag and connects. A command line that gets through asks for phases that
each have workers, queues and jobs. -/

namespace ResqueBench

open Redis Threads Web

structure Arguments where
  redis : RedisCli
  workers : List Nat
  jobs : Nat
  warmupJobs : Nat
  queue : String
  numQueues : Nat
  latencyPercentiles : List String
  tag : Option String
  output : Option String
  timeout : Nat
  quiet : Bool
  allowFlushdb : Bool
  pollIntervalMs : Nat
  idlePollDurationS : Nat

def Arguments.default : Arguments where
  redis := ⟨"redis://127.0.0.1:6379/13", none, none, none, false, false, none⟩
  workers := [10, 50, 100, 200]
  jobs := 500000
  warmupJobs := 0
  queue := "default"
  numQueues := 1
  latencyPercentiles := ["p50", "p90", "p99", "p999", "max"]
  tag := none
  output := none
  timeout := 300
  quiet := false
  allowFlushdb := false
  pollIntervalMs := 5000
  idlePollDurationS := 30

/-- What can be seen of main before its loop. -/
inductive Event
  | warn (text : String) -- on stderr
  | info -- `INFO server`, on a connection of its own
  | header (texts : List String)
deriving DecidableEq

/-- Main up to a failure, with what it has done by then. -/
abbrev Script := ExceptT Failure (StateM (List Event))

def emit (events : List Event) : Script Unit := modify (· ++ events)

/-- The question mark. -/
def attempt {α : Type} (x : Except Failure α) : Script α := ExceptT.mk (pure x)

def validateCli (args : Arguments) : Except Failure Unit := do
  ensure (0 < args.jobs) "--jobs must be > 0"
  ensure (0 < args.numQueues) "--num-queues must be > 0"
  ensure (0 < args.timeout) "--timeout must be > 0"
  ensure (0 < args.idlePollDurationS) "--idle-poll-duration-s must be > 0"
  ensure (0 < args.pollIntervalMs) "--poll-interval-ms must be > 0"
  ensure (args.workers ≠ []) "--workers must list at least one concurrency level"
  ensure (∀ w ∈ args.workers, 0 < w)
    ("--workers values must all be > 0 — a 0-worker trial can never reach " ++
      "its target completion count, so it silently hangs for the full " ++
      "--timeout instead of failing fast")

def aggressivePolls (ms : Nat) : String :=
  "warning: --poll-interval-ms " ++ toString ms ++ " is very aggressive — each idle worker " ++
    "will issue up to ~" ++ toString (1000 / max ms 1) ++ " LPOP/s against Redis (Resque's own " ++
    "out-of-the-box default is 5000ms). This is a legitimate stress-test mode, but make sure " ++
    "it's intentional before pointing it at shared infrastructure."

def manyConnections (n : Nat) : String :=
  "warning: --workers " ++ toString n ++ " opens one dedicated Redis connection PER worker — " ++
    "this may exhaust file descriptors / ephemeral ports on this machine, or `maxclients` on " ++
    "the Redis server. Check `ulimit -n` before running."

def unverified : String :=
  "warning: TLS certificate verification is DISABLED for this connection (insecure mode) — the " ++
    "server's certificate chain and hostname are not validated. Only use this against trusted " ++
    "networks."

def flushesDb0 : String :=
  "warning: --allow-flushdb is set on db 0 — this will destroy ALL keys in the database. Use " ++
    "--db 13 (or any non-zero db) to isolate benchmark data."

/-- What `validate_cli` prints when every check has passed. -/
def cliWarnings (args : Arguments) : List String :=
  (if args.pollIntervalMs < 10 then [aggressivePolls args.pollIntervalMs] else []) ++
    match args.workers.max? with
    | some n => if 5000 < n then [manyConnections n] else []
    | none => []

/-- A number without a sign. The standard library takes a plus sign before it. -/
def digitsValue (ds : List Char) : Option Nat :=
  if ds ≠ [] ∧ ds.all Char.isDigit then some (Nat.ofDigitChars 10 ds 0) else none

def unsignedValue : List Char → Option Nat
  | '+' :: ds => digitsValue ds
  | ds => digitsValue ds

def unsignedFromStr (bound : Nat) (cs : List Char) : Option Nat :=
  (unsignedValue cs).filter (· < bound)

/-- `trim_matches('/')`. -/
def trimSlashes (cs : List Char) : List Char :=
  ((cs.dropWhile (· == '/')).reverse.dropWhile (· == '/')).reverse

/-- The `db_in_url` of the flush warning. -/
def dbInUrl (lib : UrlLibrary) (url : String) : Nat :=
  match lib.parse url with
  | .ok u => (unsignedFromStr (2 ^ 8) (trimSlashes u.path.toList)).getD 0
  | .error _ => 0

/-- What `fetch_tag` does and prints. -/
def TagLookup.events (lookup : TagLookup) : List Event :=
  (match lookup with
    | .noInfo _ | .info _ => [.info]
    | _ => []) ++ ((tagOfLookup lookup).1.map Event.warn).toList

def queuesLabel (names : List String) : String :=
  match names with
  | [name] => name
  | _ => toString names.length ++ " queues (" ++ names.headD "" ++ "…" ++ names.getLastD "" ++ ")"

def header (args : Arguments) (tag displayUrl : String) : List String :=
  ["\n=== resque-bench — " ++ tag ++ " ===",
    "    " ++ displayUrl ++ "  jobs=" ++ formatN args.jobs ++ "  queues=" ++
      queuesLabel (makeQueueNames args.queue args.numQueues) ++ "  poll-interval=" ++
      toString args.pollIntervalMs ++ "ms", ""]

/-- A quotient printed without decimals. -/
def divHalfEven (n d : Nat) : Nat :=
  if 2 * (n % d) < d ∨ 2 * (n % d) = d ∧ n / d % 2 = 0 then n / d else n / d + 1

/-- The estimate is exact here, where the source multiplies and divides `f64`s. -/
def memoryWarning (jobs : Nat) : List String :=
  if 100 * (1024 * 1024) < jobs * 250 then
    ["warning: estimated peak Redis memory ~" ++ toString (divHalfEven (jobs * 250) (1024 * 1024)) ++
      " MB (" ++ formatN jobs ++ " jobs × ~250 B/job)"]
  else []

/-- What the loop and the report are run with. -/
structure Ready where
  url : String
  displayUrl : String
  tag : String
  output : String
  cli : Cli

def Arguments.cli (args : Arguments) (specs : List PercentileSpec) : Cli where
  workers := args.workers
  jobs := args.jobs
  warmupJobs := args.warmupJobs
  queue := args.queue
  numQueues := args.numQueues
  latencyPercentiles := specs
  allowFlushdb := args.allowFlushdb

/-- What is printed about a URL that has been built, and about the backlog. -/
def urlWarnings (lib : UrlLibrary) (args : Arguments) (url : String) : List String :=
  (if urlDisablesCertVerification lib url then [unverified] else []) ++
    if args.allowFlushdb && dbInUrl lib url == 0 then [flushesDb0] else []

/-- Main from the URL up to its loop. What the server says of its version, and whether a
client can be opened and connected, are given; so is the reason where it cannot. -/
def prepare (lib : UrlLibrary) (lookup : String → TagLookup)
    (connect : String → Except (List String) Unit) (args : Arguments) (url : String) :
    Script Ready := do
  let displayUrl := redactUrl lib url
  emit ((urlWarnings lib args url).map .warn)
  attempt (checkOutput args.output)
  let tag := reportTag args.tag (lookup url)
  emit (if args.tag.isSome then [] else (lookup url).events)
  emit [.header (header args tag displayUrl)]
  attempt ((connect url).mapError .bailed)
  let specs ← attempt (args.latencyPercentiles.mapM parsePercentileSpec)
  emit ((memoryWarning args.jobs).map .warn)
  return ⟨url, displayUrl, tag, outputPath args.output tag, args.cli specs⟩

def startup (lib : UrlLibrary) (lookup : String → TagLookup)
    (connect : String → Except (List String) Unit) (args : Arguments) : Script Ready := do
  attempt (validateCli args)
  emit ((cliWarnings args).map .warn)
  let url ← attempt ((buildRedisUrl lib args.redis).mapError .bailed)
  prepare lib lookup connect args url

section Script

variable {α β : Type} {log log' : List Event}

/-- The script returns `a`, with `log'` seen of it after `log`. -/
def Script.Ends (x : Script α) (log : List Event) (a : α) (log' : List Event) : Prop :=
  x.run.run log = (.ok a, log')

theorem Script.ends_bind {x : Script α} {f : α → Script β} {b : β}
    (h : (x >>= f).Ends log b log') : ∃ a mid, x.Ends log a mid ∧ (f a).Ends mid b log' := by
  unfold Script.Ends at h ⊢
  rw [ExceptT.run_bind, StateT.run_bind] at h
  cases hx : x.run.run log with
  | mk r mid =>
    rw [hx] at h
    cases r with
    | error e => cases h
    | ok a => exact ⟨a, mid, rfl, h⟩

theorem Script.ends_of_isOk {x : Script α} (h : (x.run.run log).1.isOk = true) :
    ∃ a log', x.Ends log a log' := by
  unfold Script.Ends
  cases hx : x.run.run log with
  | mk r log' =>
    rw [hx] at h
    cases r with
    | error e => cases h
    | ok a => exact ⟨a, log', rfl⟩

theorem Script.ends_emit {events : List Event} {f : Unit → Script β} {b : β}
    (h : (emit events >>= f).Ends log b log') : (f ()).Ends (log ++ events) b log' := by
  obtain ⟨_, mid, he, h⟩ := Script.ends_bind h
  cases he
  exact h

theorem Script.ends_attempt {x : Except Failure α} {f : α → Script β} {b : β}
    (h : (attempt x >>= f).Ends log b log') : ∃ a, x = .ok a ∧ (f a).Ends log b log' := by
  obtain ⟨a, mid, he, h⟩ := Script.ends_bind h
  cases he
  exact ⟨a, rfl, h⟩

end Script

section Startup

variable {lib : UrlLibrary} {lookup : String → TagLookup}
  {connect : String → Except (List String) Unit} {args : Arguments} {r : Ready} {url : String}
  {log log' : List Event}

structure Validated (args : Arguments) : Prop where
  jobs : 0 < args.jobs
  numQueues : 0 < args.numQueues
  timeout : 0 < args.timeout
  idlePollDurationS : 0 < args.idlePollDurationS
  pollIntervalMs : 0 < args.pollIntervalMs
  levels : args.workers ≠ []
  workers : ∀ n ∈ args.workers, 0 < n

theorem ensure_ok {cond : Prop} [Decidable cond] {text : String} {a : Unit}
    (h : ensure cond text = .ok a) : cond := by
  unfold ensure at h
  split at h
  · assumption
  · cases h

theorem validateCli_ok_iff : validateCli args = .ok () ↔ Validated args := by
  constructor
  · intro h
    obtain ⟨_, hjobs, h⟩ := bind_ok h
    obtain ⟨_, hqueues, h⟩ := bind_ok h
    obtain ⟨_, htimeout, h⟩ := bind_ok h
    obtain ⟨_, hidle, h⟩ := bind_ok h
    obtain ⟨_, hpoll, h⟩ := bind_ok h
    obtain ⟨_, hlevels, h⟩ := bind_ok h
    exact ⟨ensure_ok hjobs, ensure_ok hqueues, ensure_ok htimeout, ensure_ok hidle,
      ensure_ok hpoll, ensure_ok hlevels, ensure_ok h⟩
  · intro h
    simp only [validateCli, ensure, h.jobs, h.numQueues, h.timeout, h.idlePollDurationS,
      h.pollIntervalMs, h.levels, if_pos h.workers, if_true, ne_eq, not_false_eq_true]
    rfl

example : validateCli .default = .ok () := by decide

/-- What startup has found in order when it returns, and all that it has printed. -/
structure Started (lib : UrlLibrary) (lookup : String → TagLookup)
    (connect : String → Except (List String) Unit) (args : Arguments) (r : Ready)
    (log : List Event) : Prop where
  passed : Validated args
  url : buildRedisUrl lib args.redis = .ok r.url
  output : checkOutput args.output = .ok ()
  connected : connect r.url = .ok ()
  specs : ∃ specs, args.latencyPercentiles.mapM parsePercentileSpec = .ok specs ∧
    r = ⟨r.url, redactUrl lib r.url, reportTag args.tag (lookup r.url),
      outputPath args.output (reportTag args.tag (lookup r.url)), args.cli specs⟩
  log : log = (cliWarnings args).map .warn ++ (urlWarnings lib args r.url).map .warn ++
    (if args.tag.isSome then [] else (lookup r.url).events) ++
    [.header (header args r.tag r.displayUrl)] ++ (memoryWarning args.jobs).map .warn

theorem mapError_ok {α : Type} {x : Except (List String) α} {a : α}
    (h : x.mapError Failure.bailed = .ok a) : x = .ok a := by
  cases x with
  | error e => cases h
  | ok b =>
    cases h
    rfl

theorem startup_ends (h : (startup lib lookup connect args).Ends [] r log) :
    Started lib lookup connect args r log := by
  obtain ⟨_, hpassed, h⟩ := Script.ends_attempt h
  have h := Script.ends_emit h
  obtain ⟨url, hurl, h⟩ := Script.ends_attempt h
  have h := Script.ends_emit h
  obtain ⟨_, houtput, h⟩ := Script.ends_attempt h
  have h := Script.ends_emit h
  have h := Script.ends_emit h
  obtain ⟨_, hconnect, h⟩ := Script.ends_attempt h
  obtain ⟨specs, hspecs, h⟩ := Script.ends_attempt h
  have h := Script.ends_emit h
  cases h
  exact ⟨validateCli_ok_iff.mp hpassed, mapError_ok hurl, houtput, mapError_ok hconnect,
    ⟨specs, hspecs, rfl⟩, by simp⟩

theorem Started.cli (hs : Started lib lookup connect args r log) :
    ∃ specs, r.cli = args.cli specs := by
  obtain ⟨specs, _, hr⟩ := hs.specs
  exact ⟨specs, by rw [hr]⟩

variable {H : Type} {serde : Serde} {hdr : Hdr H} {clock : Nat → Nat → Option Nat} {db₀ : Db Entry}

theorem length_workers_amid {p₀ p : Phase H}
    (h : Machine.Runs (Phase.stepAmid serde hdr) p₀ p) : p.workers.length = p₀.workers.length := by
  refine h.invariant (P := fun q => q.workers.length = p₀.workers.length)
    (fun hq _ hstep => ?_) rfl
  obtain ⟨db', hm⟩ := Phase.stepAmid_move hstep
  exact hm.length_workers.trans hq

theorem Plan.nWorkers_mem {cli : Cli} {plan : Plan} (h : plan ∈ cli.plans) :
    plan.nWorkers ∈ cli.workers := by
  obtain ⟨n, hn, hp⟩ := List.mem_flatMap.mp h
  rcases List.mem_append.mp hp with hp | hp
  · split at hp
    · exact List.mem_singleton.mp hp ▸ hn
    · cases hp
  · exact List.mem_singleton.mp hp ▸ hn

theorem Validated.phase (hv : Validated args) {specs : List PercentileSpec} {w : World H}
    (h : Machine.Runs (World.step serde hdr clock (args.cli specs)) (.start (args.cli specs) db₀) w)
    {p : Phase H} (hp : p ∈ w.phases) :
    p.workers.length ∈ args.workers ∧ p.tasks.pollWorker.queueKeys.length = args.numQueues ∧
      ∀ cfg, p.tasks.config = some cfg → 0 < cfg.jobs := by
  obtain ⟨plan, hplan, p₀, hstart, hruns⟩ := (staged_of_runs h).phases p hp
  obtain ⟨q, hq⟩ := List.getElem?_of_mem hp
  have hcarried := Cli.plans_carried hv.jobs hv.workers plan hplan
  refine ⟨?_, ?_, fun cfg hcfg => ?_⟩
  · have hlength : p.workers.length = plan.nWorkers := by
      rw [length_workers_amid hruns]
      rcases hstart with rfl | rfl <;> exact List.length_replicate
    rw [hlength]
    exact Plan.nWorkers_mem hplan
  · have hnames := length_makeQueueNames args.queue hv.numQueues
    rw [((sound_of_runs h).phases q p hq).keyed]
    simpa [Cli.queueKeys, queueKeys, Cli.queueNames, Arguments.cli] using hnames
  · have hsame := config_amid hruns
    rw [hcfg] at hsame
    rcases hstart with rfl | rfl
    · cases hsame
      exact hcarried.1
    · cases hsame

/-- For a command line that startup accepts, every phase of every run has workers, queues
and, if it is a drain, jobs; and where the keys have the types of queues, main can carry
out all levels in time and exit with 0. -/
theorem accepted_can_exit_zero (hstart : (startup lib lookup connect args).Ends [] r log) :
    (∀ w : World H,
      Machine.Runs (World.step serde hdr clock r.cli) (.start r.cli db₀) w → ∀ p ∈ w.phases,
      (p.workers.length ∈ args.workers ∧ 0 < p.workers.length) ∧
      (p.tasks.pollWorker.queueKeys.length = args.numQueues ∧ 0 < args.numQueues) ∧
      ∀ cfg, p.tasks.config = some cfg → 0 < cfg.jobs) ∧
    (Typed r.cli.queueKeys "queues" db₀ → ∃ w : World H,
      Machine.Runs (World.step serde hdr clock r.cli) (.start r.cli db₀) w ∧
      w.main.activity = .finished 0 ∧
      w.main.results.map TrialResult.workers = args.workers ∧
      ∀ result ∈ w.main.results, result.timedOut = false ∧ result.totalJobs = args.jobs) := by
  have hs := startup_ends hstart
  have hv := hs.passed
  obtain ⟨specs, hcli⟩ := hs.cli
  rw [hcli]
  refine ⟨fun w h p hp => ?_, fun htyped => ?_⟩
  · obtain ⟨hworkers, hqueues, hjobs⟩ := hv.phase h hp
    exact ⟨⟨hworkers, hv.workers _ hworkers⟩, ⟨hqueues, hv.numQueues⟩, hjobs⟩
  · have hplans : ∀ plan ∈ (args.cli specs).plans, 0 < plan.jobs ∧ 0 < plan.nWorkers :=
      Cli.plans_carried hv.jobs hv.workers
    obtain ⟨w, hreach, hexit⟩ := World.carries_out_all hplans _ .refl (.start htyped) rfl rfl
    have hruns : Machine.Runs (World.step serde hdr clock (args.cli specs))
        (.start (args.cli specs) db₀) w := Machine.Reach.mono (fun _ _ => trivial) hreach
    obtain ⟨hcalm, hlevels, _⟩ := calm_at_exit hruns hexit
    have hin := (certified_of_runs hv.jobs hruns).in_time hcalm
    exact ⟨w, hruns, hexit, hlevels, fun result hresult =>
      ⟨(hin result hresult).1, (hin result hresult).2.1⟩⟩

end Startup

/-- The command line without any argument, and an empty server. -/
theorem accepted_can_exit_zero_default : ∃ (r : Ready) (log : List Event),
    (startup Plain.library (fun _ => .info "redis_version:7.4.0\r\n") (fun _ => .ok ())
      .default).Ends [] r log ∧
    ∃ w : World (List Nat), Machine.Runs (World.step (.envelopes []) Hdr.bucketed
        (fun _ _ => some 1000) r.cli) (.start r.cli (fun _ => none)) w ∧
      w.main.activity = .finished 0 ∧
      w.main.results.map TrialResult.workers = [10, 50, 100, 200] := by
  obtain ⟨r, log, hends⟩ : ∃ r log, (startup Plain.library
      (fun _ => .info "redis_version:7.4.0\r\n") (fun _ => .ok ()) .default).Ends [] r log :=
    Script.ends_of_isOk (by decide +kernel)
  obtain ⟨w, hruns, hexit, hlevels, _⟩ := (accepted_can_exit_zero hends).2 (.empty _ _)
  exact ⟨r, log, hends, w, hruns, hexit, hlevels⟩

end ResqueBench
