import ResqueBench.Metrics

/-! The JSON report. `write_json` zips the two result vectors, one entry for each
pair, and rounds what the report shows of a duration or a rate. -/

namespace ResqueBench

/-- `f64::round`, halves away from zero. -/
def roundHalf (x : Rat) : Int := if 0 ≤ x then (x + 1 / 2).floor else -(-x + 1 / 2).floor

/-- `(x * scale).round() / scale`, in exact arithmetic where the source has `f64`. -/
def roundTo (scale x : Rat) : Rat := roundHalf (x * scale) / scale

@[simp] theorem roundTo_zero (scale : Rat) : roundTo scale 0 = 0 := by
  have hf : (2⁻¹ : Rat).floor = 0 := by decide +kernel
  simp [roundTo, roundHalf, hf]

structure JsonConfig where
  url : String
  workers : List Nat
  jobsPerTrial : Nat
  queues : List String
  warmupJobs : Nat
  pollIntervalMs : Nat
  idlePollDurationS : Nat

structure JsonIdlePoll where
  durationS : Rat
  totalLpopCalls : Nat
  idlePollQps : Rat
  perWorkerQps : Rat
  skippedReason : Option String -- left out of the object when `none`

structure JsonResult where
  workers : Nat
  totalJobs : Nat
  durationS : Rat
  jobsPerSec : Rat
  timedOut : Bool
  throughputPerSec : List Nat
  errorsPerSec : List Nat
  latencyPerSecUs : List (String × List Nat)
  latencyUs : LatencyStats
  errors : Nat
  idlePoll : JsonIdlePoll

structure JsonOutput where
  tag : String
  timestamp : String
  config : JsonConfig
  results : List JsonResult

def jsonIdlePoll (idle : IdlePollResult) : JsonIdlePoll where
  durationS := roundTo 1000 idle.durationS
  totalLpopCalls := idle.totalLpopCalls
  idlePollQps := roundTo 10 idle.idlePollQps
  perWorkerQps := roundTo 100 idle.perWorkerQps
  skippedReason := idle.skippedReason

def jsonResult (r : TrialResult) (idle : IdlePollResult) : JsonResult where
  workers := r.workers
  totalJobs := r.totalJobs
  durationS := roundTo 1000 r.durationS
  jobsPerSec := roundTo 10 r.jobsPerSec
  timedOut := r.timedOut
  throughputPerSec := r.throughputPerSec
  errorsPerSec := r.errorsPerSec
  latencyPerSecUs := r.latencyPerSec
  latencyUs := r.latency
  errors := r.errors
  idlePoll := jsonIdlePoll idle

/-- What `write_json` serialises, at the time it reads from the clock. -/
def writeJson (timestamp : String) (results : List TrialResult) (idleResults : List IdlePollResult)
    (tag displayUrl : String) (workers : List Nat) (jobsPerTrial : Nat) (queues : List String)
    (warmupJobs pollIntervalMs idlePollDurationS : Nat) : JsonOutput where
  tag := tag
  timestamp := timestamp
  config := ⟨displayUrl, workers, jobsPerTrial, queues, warmupJobs, pollIntervalMs,
    idlePollDurationS⟩
  results := (results.zip idleResults).map (fun p => jsonResult p.1 p.2)

theorem jsonIdlePoll_skipped (workers : Nat) (reason : String) :
    jsonIdlePoll (.skipped workers reason) = ⟨0, 0, 0, 0, some reason⟩ := by
  simp [jsonIdlePoll, IdlePollResult.skipped]

end ResqueBench
