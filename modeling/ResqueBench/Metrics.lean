import ResqueBench.Histogram

/-! The shared counters and the results a trial reports. Counters count without
wrapping; rates and durations are exact rationals. -/

namespace ResqueBench

structure Metrics where
  completed : Nat
  errors : Nat
  polls : Nat
deriving DecidableEq, Repr

namespace Metrics

def new : Metrics := ⟨0, 0, 0⟩

/-- `fetch_add(1) + 1`: the counters after the increment, and the new value. -/
def incCompleted (m : Metrics) : Metrics × Nat :=
  ({ m with completed := m.completed + 1 }, m.completed + 1)

def incError (m : Metrics) : Metrics := { m with errors := m.errors + 1 }

def incPoll (m : Metrics) : Metrics := { m with polls := m.polls + 1 }

end Metrics

structure LatencyStats where
  p50 : Nat
  p75 : Nat
  p90 : Nat
  p95 : Nat
  p99 : Nat
  p999 : Nat
  p9999 : Nat
  max : Nat
  mean : Rat
  totalCount : Nat

def LatencyStats.default : LatencyStats := ⟨0, 0, 0, 0, 0, 0, 0, 0, 0, 0⟩

def LatencyStats.fromHistogram {H : Type} (hdr : Hdr H) (hist : H) : LatencyStats :=
  if hdr.isEmpty hist then .default
  else
    { p50 := hdr.valueAtQuantile hist (50 / 100)
      p75 := hdr.valueAtQuantile hist (75 / 100)
      p90 := hdr.valueAtQuantile hist (90 / 100)
      p95 := hdr.valueAtQuantile hist (95 / 100)
      p99 := hdr.valueAtQuantile hist (99 / 100)
      p999 := hdr.valueAtQuantile hist (999 / 1000)
      p9999 := hdr.valueAtQuantile hist (9999 / 10000)
      max := hdr.max hist
      mean := hdr.mean hist
      totalCount := hdr.len hist }

theorem LatencyStats.totalCount_fromHistogram {H : Type} (hdr : Hdr H) (hist : H) :
    (fromHistogram hdr hist).totalCount = Multiset.card (hdr.samples hist) := by
  rw [← hdr.len_eq]
  unfold fromHistogram
  split
  · rename_i h
    simpa [Hdr.isEmpty, default] using (beq_iff_eq.mp h).symm
  · rfl

theorem LatencyStats.le_max_fromHistogram {H : Type} (hdr : Hdr H) {hist : H} {v : Nat}
    (hv : v ∈ hdr.samples hist) : v ≤ (fromHistogram hdr hist).max := by
  have hne : hdr.isEmpty hist = false := by
    have hc := Multiset.card_pos_iff_exists_mem.mpr ⟨v, hv⟩
    simp only [Hdr.isEmpty, beq_eq_false_iff_ne, hdr.len_eq]
    omega
  simpa [fromHistogram, hne] using hdr.le_max hist v hv

structure TrialResult where
  workers : Nat
  totalJobs : Nat
  durationS : Rat
  jobsPerSec : Rat
  throughputPerSec : List Nat
  errorsPerSec : List Nat
  latencyPerSec : List (String × List Nat)
  latency : LatencyStats
  errors : Nat
  timedOut : Bool

structure IdlePollResult where
  workers : Nat
  durationS : Rat
  totalLpopCalls : Nat
  idlePollQps : Rat
  perWorkerQps : Rat
  skippedReason : Option String

def IdlePollResult.skipped (workers : Nat) (reason : String) : IdlePollResult :=
  ⟨workers, 0, 0, 0, 0, some reason⟩

end ResqueBench
