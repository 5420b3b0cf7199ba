import ResqueBench.TrialRuns
import ResqueBench.Grouping
import ResqueBench.Decimal

/-! The trial loop of `main` and the server it shares with every phase it starts.
Main sends its pipelines on a connection of its own. The tasks of earlier phases
may still act between any two steps of it. -/

namespace ResqueBench

open Redis

structure Cli where
  workers : List Nat
  jobs : Nat
  warmupJobs : Nat
  queue : String
  numQueues : Nat
  latencyPercentiles : List PercentileSpec
  allowFlushdb : Bool

def makeQueueNames (base : String) (n : Nat) : List String :=
  if n ≤ 1 then [base] else (List.range n).map (fun i => base ++ "_" ++ toString i)

theorem makeQueueNames_ne_nil (base : String) (n : Nat) : makeQueueNames base n ≠ [] := by
  unfold makeQueueNames
  split
  · simp
  · intro h
    have hn := congrArg List.length h
    simp only [List.length_map, List.length_range, List.length_nil] at hn
    omega

theorem makeQueueNames_nodup (base : String) (n : Nat) : (makeQueueNames base n).Nodup := by
  unfold makeQueueNames
  split
  · simp
  · refine List.nodup_range.map (fun i j h => ?_)
    exact Nat.repr_injective ((String.append_right_inj _).mp h)

def Cli.queueNames (cli : Cli) : List String := makeQueueNames cli.queue cli.numQueues

def Cli.queueKeys (cli : Cli) : List String := ResqueBench.queueKeys cli.queueNames

theorem Cli.queueKeys_nodup (cli : Cli) : cli.queueKeys.Nodup :=
  ResqueBench.queueKeys_nodup (makeQueueNames_nodup _ _)

section FormatN

open Grouping

/-- A comma before every third digit, from the right. -/
def formatN (n : Nat) : String :=
  let reversed := (toString n).toList.reverse.zipIdx.flatMap
    (fun p => if 0 < p.2 ∧ p.2 % 3 = 0 then [',', p.1] else [p.1])
  String.ofList reversed.reverse

theorem comma_notMem_toDigits (n : Nat) : ',' ∉ Nat.toDigits 10 n := by
  intro h
  exact absurd (Nat.isDigit_of_mem_toDigits (by omega) (by omega) h) (by decide)

theorem toList_formatN (n : Nat) :
    (formatN n).toList = [','].intercalate (groups 3 (Nat.toDigits 10 n)) := by
  rw [← reverse_marked (by omega) Nat.toDigits_ne_nil, formatN, String.toList_ofList,
    Nat.toString_eq_repr, Nat.toList_repr]
  rfl

theorem formatN_injective : Function.Injective formatN := by
  intro n m h
  have hdigits : Nat.toDigits 10 n = Nat.toDigits 10 m := by
    rw [← filter_groups (k := 3) (comma_notMem_toDigits n), ← toList_formatN, h, toList_formatN,
      filter_groups (comma_notMem_toDigits m)]
  have hval := congrArg (fun ds => Nat.ofDigitChars 10 ds 0) hdigits
  simpa using hval

/-- Without its commas, what is written for `n` is its decimal representation, and the
commas cut it into a group of one to three digits and groups of three. -/
theorem format_n_groups_digits : (∀ n : Nat,
    (formatN n).toList.filter (· ≠ ',') = (toString n).toList ∧
    Nat.ofDigitChars 10 ((formatN n).toList.filter (· ≠ ',')) 0 = n ∧
    (((formatN n).toList.filter (· ≠ ',')).head? = some '0' → n = 0) ∧
    ∃ first rest, (formatN n).toList.splitOn ',' = first :: rest ∧
      0 < first.length ∧ first.length ≤ 3 ∧ (∀ g ∈ rest, g.length = 3) ∧
      ∀ g ∈ first :: rest, ∀ c ∈ g, c.isDigit = true) ∧
    Function.Injective formatN := by
  refine ⟨fun n => ?_, formatN_injective⟩
  have hplain : (formatN n).toList.filter (· ≠ ',') = Nat.toDigits 10 n := by
    rw [toList_formatN, filter_groups (comma_notMem_toDigits n)]
  rw [hplain]
  refine ⟨by simp, Nat.ofDigitChars_ten_toDigits, fun hzero => ?_, ?_⟩
  · have hval := Nat.ofDigitChars_ten_toDigits (n := n)
    rw [Decimal.toDigits_head_zero hzero] at hval
    exact hval.symm
  · rw [toList_formatN, splitOn_groups (comma_notMem_toDigits n)]
    obtain ⟨first, rest, he, hpos, hle, hrest⟩ :=
      length_groups (k := 3) (by omega) (Nat.toDigits_ne_nil (n := n) (b := 10))
    refine ⟨first, rest, he, hpos, hle, hrest, fun g hg c hc => ?_⟩
    have hmem : c ∈ Nat.toDigits 10 n := by
      rw [← flatten_groups 3 (Nat.toDigits 10 n), he]
      exact List.mem_flatten.mpr ⟨g, hg, hc⟩
    exact Nat.isDigit_of_mem_toDigits (by omega) (by omega) hmem

end FormatN

/-- One pass of clear, enqueue and drain. -/
structure Plan where
  nWorkers : Nat
  jobs : Nat
  measured : Bool -- not the warmup

def Cli.plans (cli : Cli) : List Plan :=
  cli.workers.flatMap (fun nWorkers =>
    (if 0 < cli.warmupJobs then [⟨nWorkers, cli.warmupJobs, false⟩] else []) ++
      [⟨nWorkers, cli.jobs, true⟩])

inductive Activity
  | between
  | clearing (plan : Plan)
  | enqueuing (plan : Plan) (rest : List (List (Cmd Entry))) -- batches not sent yet
  | draining (plan : Plan)
  | measuring (plan : Plan) (result : TrialResult) -- awaiting `total_queue_len`
  | idling (plan : Plan) (result : TrialResult)
  | finished (exitCode : Nat)
  | stopped -- `?` returned an error

/-- Whether `main` has returned, and taken every task with it. -/
def Activity.returned : Activity → Bool
  | .finished _ | .stopped => true
  | _ => false

/-- Whether main awaits its own connection here, or may be opening the workers'. -/
def Activity.queries : Activity → Bool
  | .clearing _ | .enqueuing _ _ | .measuring _ _ => true
  | _ => false

structure Main where
  todo : List Plan
  activity : Activity
  pipe : List (Cmd Entry) -- sent and not executed yet
  replies : List (Reply Entry) -- to the commands of this pipeline
  results : List TrialResult
  idleResults : List IdlePollResult
  anyTimeout : Bool

structure World (H : Type) where
  db : Db Entry
  phases : List (Phase H) -- every phase started so far
  main : Main

inductive MainAct
  | begin -- the next pass of the loop, or its end
  | exec -- the server executes the next command of the pipeline
  | proceed -- what main awaits is there
  | fail -- a query fails, or the worker connections do not open

inductive WorldAct
  | phase (i : Nat) (a : PhaseAct)
  | main (a : MainAct)

/-- The decoded replies of `total_queue_len`, summed. -/
def sumReplies : List (Reply Entry) → Option Nat
  | [] => some 0
  | .int n :: replies => (sumReplies replies).map (n + ·)
  | _ :: _ => none

def skippedReason (backlog : Nat) : String :=
  "drain trial left " ++ formatN backlog ++ " job(s) still queued (--timeout hit with backlog " ++
    "remaining) — skipping idle-poll measurement to avoid contaminating " ++
    "idle_poll_qps with real job hits"

section World

variable {H : Type}

def World.start (cli : Cli) (db : Db Entry) : World H :=
  ⟨db, [], ⟨cli.plans, .between, [], [], [], [], false⟩⟩

def World.send (w : World H) (activity : Activity) (pipe : List (Cmd Entry)) : World H :=
  { w with main := { w.main with activity := activity, pipe := pipe, replies := [] } }

def World.stop (w : World H) : World H := w.send .stopped []

def World.launch (w : World H) (activity : Activity) (phase : Phase H) : World H :=
  { w.send activity [] with phases := w.phases ++ [phase] }

def World.conclude (w : World H) (result : TrialResult) (idle : IdlePollResult) : World H :=
  { w with main := { w.main with
    activity := .between
    pipe := []
    replies := []
    results := w.main.results ++ [result]
    idleResults := w.main.idleResults ++ [idle] } }

/-- The drain has returned. A warmup's result is discarded. -/
def World.drained (w : World H) (cli : Cli) (plan : Plan) (result : TrialResult) : World H :=
  if plan.measured then
    let main := { w.main with anyTimeout := w.main.anyTimeout || result.timedOut }
    World.send { w with main := main } (.measuring plan result) (totalQueueLen cli.queueNames)
  else w.send .between []

def World.proceed (serde : Serde) (hdr : Hdr H) (clock : Nat → Nat → Option Nat) (cli : Cli)
    (w : World H) : Option (World H) :=
  match w.main.activity with
  | .clearing plan =>
    if w.main.replies.any Reply.isError then some w.stop
    else
      let trial := w.phases.length
      match bulkEnqueue serde (clock trial) trial cli.queueNames plan.jobs with
      | some (pipe :: rest) => some (w.send (.enqueuing plan rest) pipe)
      | _ => some w.stop
  | .enqueuing plan rest =>
    if w.main.replies.any Reply.isError then some w.stop
    else
      match rest with
      | pipe :: rest => some (w.send (.enqueuing plan rest) pipe)
      | [] => some (w.launch (.draining plan)
          (runDrainTrial hdr ⟨cli.queueKeys, plan.jobs, cli.latencyPercentiles⟩ plan.nWorkers))
  | .draining plan =>
    (w.phases.getLast?.bind (fun p => p.tasks.returned)).map (w.drained cli plan)
  | .measuring plan result =>
    match sumReplies w.main.replies with
    | none => some w.stop
    | some backlog =>
      if 0 < backlog then
        some (w.conclude result (.skipped plan.nWorkers (skippedReason backlog)))
      else some (w.launch (.idling plan result) (runIdlePollTrial cli.queueKeys plan.nWorkers))
  | .idling _ result =>
    (w.phases.getLast?.bind (fun p => p.tasks.idleReturned)).map (w.conclude result)
  | _ => none

def World.mainStep (serde : Serde) (hdr : Hdr H) (clock : Nat → Nat → Option Nat) (cli : Cli)
    (w : World H) : MainAct → Option (World H)
  | .begin =>
    match w.main.activity, w.main.todo with
    | .between, plan :: todo =>
      some (World.send { w with main := { w.main with todo := todo } } (.clearing plan)
        (preTrialClear cli.queueNames cli.allowFlushdb))
    | .between, [] => some (w.send (.finished (if w.main.anyTimeout then 1 else 0)) [])
    | _, _ => none
  | .exec =>
    match w.main.pipe with
    | [] => none
    | c :: pipe =>
      let r := exec w.db c
      some { w with
        db := r.1
        main := { w.main with pipe := pipe, replies := w.main.replies ++ [r.2] } }
  | .proceed => if w.main.pipe.isEmpty then w.proceed serde hdr clock cli else none
  | .fail => if w.main.activity.queries then some w.stop else none

def World.step (serde : Serde) (hdr : Hdr H) (clock : Nat → Nat → Option Nat) (cli : Cli)
    (w : World H) : WorldAct → Option (World H)
  | .phase i a =>
    if w.main.activity.returned then none
    else (Threads.stepAt (Phase.step serde hdr) w.db w.phases i a).map
      (fun r => { w with db := r.1, phases := r.2 })
  | .main a => w.mainStep serde hdr clock cli a

end World

/-- One worker, one queue, one job in the warmup and one in the trial. -/
def oneJobCli : Cli := ⟨[1], 1, 1, "default", 1, [], false⟩

/-- Main clears the queue and pushes one job. -/
def fillOneJob : List WorldAct :=
  [.main .begin, .main .exec, .main .exec, .main .proceed, .main .exec, .main .proceed,
    .main .exec, .main .proceed]

/-- A first drain that times out and aborts its worker, whose first `LPOP` is
unanswered. -/
def abortedDrain : List WorldAct :=
  [.worker 0 .start, .worker 0 .check, .worker 0 .issue, .drain .timeout, .drain .stopMonitor,
    .drain .shutdown, .drain (.grace 0), .worker 0 .drop, .drain .collectorEnd, .drain .joined,
    .drain (.readOut 1)].map (.phase 0)

end ResqueBench
