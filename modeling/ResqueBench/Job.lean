import ResqueBench.Redis

/-! The job envelope, its embedded enqueue timestamp, and the latency derived
from it. The JSON library is a parameter: a printer and a reader of envelopes. -/

namespace ResqueBench

inductive Json
  | null
  | bool (b : Bool)
  | posInt (n : Nat)
  | negInt (magnitude : Nat)
  | float (text : String)
  | string (s : String)
  | array (xs : List Json)
  | object (fields : List (String × Json))

def Json.asU64 : Json → Option Nat
  | .posInt n => some n
  | _ => none

structure ResqueJob where
  class_ : String
  args : List Json

/-- `serde_json::to_string` and `serde_json::from_str::<ResqueJob>`. -/
structure Serde where
  toString : ResqueJob → String
  fromStr : String → Option ResqueJob

/-- `duration_since(UNIX_EPOCH).unwrap_or_default().as_nanos() as u64`; a clock
before the epoch reads `none`. -/
def nanosU64 (sinceEpoch : Option Nat) : Nat := sinceEpoch.getD 0 % 2 ^ 64

def ResqueJob.new (idx : Nat) (clock : Option Nat) : ResqueJob where
  class_ := "LoadWorker"
  args := [.string "string", .posInt idx, .object [("mike", .string "bob")],
    .posInt (nanosU64 clock)]

def ResqueJob.enqueuedAtNs (args : List Json) : Option Nat :=
  args[3]?.bind Json.asU64

def envelope (idx enqueuedAtNs : Nat) : String :=
  "\x7b\"class\":\"LoadWorker\",\"args\":[\"string\"," ++ toString idx ++
    ",\x7b\"mike\":\"bob\"\x7d," ++ toString enqueuedAtNs ++ "]\x7d"

/-- The JSON library on benchmark jobs: it prints them compactly and reads back
the ones listed. -/
def Serde.envelopes (jobs : List (Nat × Nat)) : Serde where
  toString job :=
    match job.args with
    | [_, .posInt idx, _, .posInt enqueuedAtNs] => envelope idx enqueuedAtNs
    | _ => ""
  fromStr s := (jobs.find? (fun p => envelope p.1 p.2 == s)).map
    (fun p => ResqueJob.new p.1 (some p.2))

/-- A list element in Redis. The code stores the payload; the proofs also name
the trial that pushed it and its index there. -/
structure Entry where
  payload : String
  trial : Nat
  index : Nat
deriving DecidableEq, Repr

/-- A message on `latency_tx`. The channel carries `us`; the job and the two
timestamps it was computed from are kept for the proofs. -/
structure Sample where
  us : Nat
  job : Entry
  nowNs : Nat
  enqueuedAtNs : Nat
deriving DecidableEq, Repr

def latencyUs (nowNs enqueuedAtNs : Nat) : Nat :=
  max (if enqueuedAtNs ≤ nowNs then (nowNs - enqueuedAtNs) / 1000 else 1) 1

def decodedAtNs (serde : Serde) (e : Entry) : Option Nat :=
  (serde.fromStr e.payload).bind (fun job => ResqueJob.enqueuedAtNs job.args)

/-- `record_job`: the sample to send, or `none` where it counts an error. -/
def recordJob (serde : Serde) (clock : Option Nat) (e : Entry) : Option Sample :=
  match serde.fromStr e.payload with
  | some job =>
    match ResqueJob.enqueuedAtNs job.args with
    | some enqueuedAtNs =>
      let nowNs := nanosU64 clock
      some ⟨latencyUs nowNs enqueuedAtNs, e, nowNs, enqueuedAtNs⟩
    | none => none
  | none => none

theorem latencyUs_pos (nowNs enqueuedAtNs : Nat) : 1 ≤ latencyUs nowNs enqueuedAtNs :=
  Nat.le_max_right _ _

theorem latencyUs_le_iff {nowNs enqueuedAtNs m : Nat} (hm : 1 ≤ m) :
    latencyUs nowNs enqueuedAtNs ≤ m ↔ nowNs < enqueuedAtNs + (m + 1) * 1000 := by
  unfold latencyUs
  split <;> omega

theorem recordJob_some {serde : Serde} {clock : Option Nat} {e : Entry} {s : Sample}
    (h : recordJob serde clock e = some s) :
    s.job = e ∧ s.us = latencyUs s.nowNs s.enqueuedAtNs ∧
      decodedAtNs serde e = some s.enqueuedAtNs := by
  unfold recordJob at h
  split at h
  · rename_i job hj
    split at h
    · rename_i t ht
      simp only [Option.some.injEq] at h
      subst h
      exact ⟨rfl, rfl, by simp [decodedAtNs, hj, ht]⟩
    · simp at h
  · simp at h

theorem recordJob_none {serde : Serde} {clock : Option Nat} {e : Entry}
    (h : recordJob serde clock e = none) : decodedAtNs serde e = none := by
  unfold recordJob at h
  split at h
  · rename_i job hj
    split at h
    · simp at h
    · rename_i hn; simp [decodedAtNs, hj, hn]
  · rename_i hj; simp [decodedAtNs, hj]

end ResqueBench
