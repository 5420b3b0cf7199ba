import ResqueBench.MainReturns
import ResqueBench.SharedRedis

/-! Where the keys hold the types that the commands expect, no command of main is
answered with an error, and a failed connection alone stops it early. -/

namespace Redis

/-- Commands on list keys, and on the registry as on a set. -/
def Cmd.suits {ε : Type*} (keys : List String) (registry : String) : Cmd ε → Prop
  | .del k | .rpush k _ | .lpop k | .llen k => k ∈ keys
  | .srem k _ | .sadd k _ => k = registry
  | .info _ | .flushdb => True

structure Typed {ε : Type*} (keys : List String) (registry : String) (db : Db ε) : Prop where
  lists : ∀ k ∈ keys, HoldsList db k
  set : HoldsSet db registry

section Typed

variable {ε : Type*} {keys : List String} {registry : String} {db : Db ε} {c : Cmd ε}

theorem Typed.empty (keys : List String) (registry : String) :
    Typed keys registry (fun _ => none : Db ε) :=
  ⟨fun k _ v hv => (by cases hv), fun v hv => by cases hv⟩

theorem Typed.exec (h : Typed keys registry db) (hr : registry ∉ keys)
    (hc : c.suits keys registry) : Typed keys registry (Redis.exec db c).1 := by
  refine ⟨fun k hk => (h.lists k hk).exec (fun m he => ?_), ?_⟩
  · rw [he] at hc
    exact hr (hc ▸ hk)
  · have hframe : ¬ c.writes registry → HoldsSet (Redis.exec db c).1 registry := by
      intro hw
      rw [HoldsSet, exec_frame db hw]
      exact h.set
    cases c with
    | del k | rpush k x | lpop k => exact hframe (fun he => hr (he ▸ hc))
    | llen k => exact hframe id
    | info s => exact hframe id
    | flushdb => exact fun v hv => by cases hv
    | srem k m =>
      obtain rfl : k = registry := hc
      simp only [Redis.exec]
      split
      · exact h.set
      · exact HoldsSet.update_ofSet db k _
      · exact h.set
    | sadd k m =>
      obtain rfl : k = registry := hc
      simp only [Redis.exec]
      split
      · intro v hv
        exact ⟨{m}, by simpa using hv.symm⟩
      · rename_i ms _
        intro v hv
        exact ⟨insert m ms, by simpa using hv.symm⟩
      · exact h.set

theorem Typed.reply (h : Typed keys registry db) (hc : c.suits keys registry) :
    (Redis.exec db c).2.isError = false := by
  cases c with
  | del k | info s | flushdb => rfl
  | rpush k x | lpop k | llen k =>
    cases hk : db k with
    | none => simp [Redis.exec, hk, Reply.isError]
    | some v =>
      obtain ⟨xs, rfl⟩ := h.lists k hc v hk
      cases xs <;> simp [Redis.exec, hk, Reply.isError]
  | srem k m | sadd k m =>
    obtain rfl : k = registry := hc
    cases hk : db k with
    | none => simp [Redis.exec, hk, Reply.isError]
    | some v =>
      obtain ⟨ms, rfl⟩ := h.set v hk
      simp [Redis.exec, hk, Reply.isError]

end Typed

end Redis

namespace ResqueBench

open Redis Threads

section Pipelines

variable {serde : Serde} {cli : Cli} {c : Cmd Entry}

theorem preTrialClear_suits (h : c ∈ preTrialClear cli.queueNames cli.allowFlushdb) :
    c.suits cli.queueKeys "queues" := by
  unfold preTrialClear at h
  split at h
  · rw [List.mem_singleton.mp h]
    trivial
  · obtain ⟨q, hq, hc⟩ := List.mem_flatMap.mp h
    rcases List.mem_pair.mp hc with rfl | rfl
    · exact mem_queueKeys hq
    · rfl

theorem totalQueueLen_suits (h : c ∈ totalQueueLen cli.queueNames) :
    c.suits cli.queueKeys "queues" := by
  obtain ⟨q, hq, rfl⟩ := List.mem_map.mp h
  exact mem_queueKeys hq

theorem bulkEnqueue_suits (serde : Serde) (clock : Nat → Option Nat) (trial : Nat) (cli : Cli)
    (nJobs : Nat) : ∃ pipe rest,
      bulkEnqueue serde clock trial cli.queueNames nJobs = some (pipe :: rest) ∧
      ∀ pipe' ∈ pipe :: rest, ∀ c ∈ pipe', c.suits cli.queueKeys "queues" := by
  have hne : cli.queueNames ≠ [] := makeQueueNames_ne_nil _ _
  obtain ⟨batches, hb, _⟩ := enqueueBatches_spec serde clock trial hne 0 nJobs
  obtain ⟨pipes, hpipes, hflat⟩ := bulkEnqueue_spec serde clock trial hne nJobs
  have hcons : bulkEnqueue serde clock trial cli.queueNames nJobs =
      some (cli.queueNames.map (fun queue => .sadd "queues" queue) :: batches) := by
    simp [bulkEnqueue, hb]
  obtain rfl := Option.some.inj (hpipes.symm.trans hcons)
  refine ⟨_, _, hcons, fun pipe' hp c hc => ?_⟩
  have hmem : c ∈ _ := List.mem_flatten_of_mem hp hc
  rw [hflat] at hmem
  rcases List.mem_append.mp hmem with hmem | hmem
  · obtain ⟨q, _, rfl⟩ := List.mem_map.mp hmem
    rfl
  · obtain ⟨i, _, rfl⟩ := List.mem_map.mp hmem
    exact mem_queueKeys (queueFor_mem hne i)

theorem sumReplies_isSome {replies : List (Reply Entry)} (h : ∀ r ∈ replies, ∃ n, r = .int n) :
    ∃ n, sumReplies replies = some n := by
  induction replies with
  | nil => exact ⟨0, rfl⟩
  | cons r replies ih =>
    obtain ⟨n, rfl⟩ := h r List.mem_cons_self
    obtain ⟨m, hm⟩ := ih (fun r' hr' => h r' (List.mem_cons_of_mem _ hr'))
    exact ⟨n + m, by simp [sumReplies, hm]⟩

end Pipelines

section Smooth

variable {H : Type} {serde : Serde} {hdr : Hdr H} {clock : Nat → Nat → Option Nat} {cli : Cli}
  {db₀ : Db Entry} {w w' : World H} {a : WorldAct}

/-- Every key holds the type that the commands in flight expect, and so far all have
been answered without an error. -/
structure Smooth (cli : Cli) (w : World H) : Prop where
  typed : Typed cli.queueKeys "queues" w.db
  sent : ∀ c ∈ w.main.pipe, c.suits cli.queueKeys "queues"
  ahead : ∀ plan rest, w.main.activity = .enqueuing plan rest →
    ∀ pipe ∈ rest, ∀ c ∈ pipe, c.suits cli.queueKeys "queues"
  replies : ∀ r ∈ w.main.replies, r.isError = false
  counts : ∀ plan result, w.main.activity = .measuring plan result →
    ∀ r ∈ w.main.replies, ∃ n, r = .int n
  running : w.main.activity ≠ .stopped

theorem Smooth.send (h : Smooth cli w) {activity : Activity} {pipe : List (Cmd Entry)}
    (hsent : ∀ c ∈ pipe, c.suits cli.queueKeys "queues")
    (hahead : ∀ plan rest, activity = .enqueuing plan rest →
      ∀ pipe ∈ rest, ∀ c ∈ pipe, c.suits cli.queueKeys "queues")
    (hn : activity ≠ .stopped) : Smooth cli (w.send activity pipe) where
  typed := h.typed
  sent := hsent
  ahead := hahead
  replies r hr := by cases hr
  counts plan result _ r hr := by cases hr
  running := hn

theorem Smooth.exec (h : Smooth cli w) (hpiped : Piped cli w) {c : Cmd Entry}
    {pipe : List (Cmd Entry)} (hp : w.main.pipe = c :: pipe) :
    Smooth cli { w with
      db := (Redis.exec w.db c).1
      main := { w.main with pipe := pipe, replies := w.main.replies ++ [(Redis.exec w.db c).2] } } := by
  have hc : c.suits cli.queueKeys "queues" := h.sent c (hp ▸ List.mem_cons_self)
  refine ⟨h.typed.exec (queues_notMem_queueKeys _) hc, fun c' hc' => ?_, h.ahead, fun r hr => ?_,
    fun plan result ha r hr => ?_, h.running⟩
  · exact h.sent c' (hp ▸ List.mem_cons_of_mem _ hc')
  · rcases List.mem_append.mp hr with hr | hr
    · exact h.replies r hr
    · exact List.mem_singleton.mp hr ▸ h.typed.reply hc
  · have ha' : w.main.activity = .measuring plan result := ha
    rcases List.mem_append.mp hr with hr | hr
    · exact h.counts plan result ha' r hr
    · simp only [Piped, ha', hp] at hpiped
      obtain ⟨key, rfl⟩ := hpiped c List.mem_cons_self
      rw [List.mem_singleton.mp hr]
      exact ⟨_, (h.typed.lists key hc).exec_llen⟩

theorem Smooth.proceed (h : Smooth cli w) (hs : w.proceed serde hdr clock cli = some w') :
    Smooth cli w' := by
  have hreplies : w.main.replies.any Reply.isError = false := by simpa using h.replies
  unfold World.proceed at hs
  split at hs
  · rename_i plan ha
    obtain ⟨pipe, rest, hbulk, hsuits⟩ :=
      bulkEnqueue_suits serde (clock w.phases.length) w.phases.length cli plan.jobs
    simp only [hreplies, Bool.false_eq_true, if_false, hbulk, Option.some.injEq] at hs
    subst hs
    refine h.send (hsuits pipe List.mem_cons_self) ?_ (by simp)
    intro plan' rest' he pipe' hp'
    cases he
    exact hsuits pipe' (List.mem_cons_of_mem _ hp')
  · rename_i plan rest ha
    simp only [hreplies, Bool.false_eq_true, if_false] at hs
    split at hs <;> cases hs
    · rename_i pipe rest
      have hahead := h.ahead plan (pipe :: rest) ha
      refine h.send (hahead pipe List.mem_cons_self) ?_ (by simp)
      intro plan' rest' he pipe' hp'
      cases he
      exact hahead pipe' (List.mem_cons_of_mem _ hp')
    · have hsend : Smooth cli (w.send (.draining plan) []) := h.send (by simp) (by simp) (by simp)
      exact { hsend with }
  · obtain ⟨result, _, rfl⟩ := Option.map_eq_some_iff.mp hs
    unfold World.drained
    split
    · have hbase : Smooth cli { w with main :=
          { w.main with anyTimeout := w.main.anyTimeout || result.timedOut } } := { h with }
      exact hbase.send (fun c hc => totalQueueLen_suits hc) (by simp) (by simp)
    · exact h.send (by simp) (by simp) (by simp)
  · rename_i plan result ha
    obtain ⟨backlog, hsum⟩ := sumReplies_isSome (h.counts plan result ha)
    simp only [hsum] at hs
    split at hs <;> cases hs
    · have hsend : Smooth cli (w.send .between []) := h.send (by simp) (by simp) (by simp)
      exact { hsend with }
    · have hsend : Smooth cli (w.send (.idling plan result) []) :=
        h.send (by simp) (by simp) (by simp)
      exact { hsend with }
  · obtain ⟨idle, _, rfl⟩ := Option.map_eq_some_iff.mp hs
    have hsend : Smooth cli (w.send .between []) := h.send (by simp) (by simp) (by simp)
    exact { hsend with }
  · cases hs

theorem Smooth.step (h : Smooth cli w) (hsound : Sound serde hdr clock cli w) (ha : a.succeeds)
    (hs : w.step serde hdr clock cli a = some w') : Smooth cli w' := by
  rcases World.step_cases hs with ⟨i, b, p, p', db', rfl, hp, hstep, rfl⟩ | ⟨b, rfl, hmain⟩
  · have hpop := (Phase.step_move hstep).popped
    rw [(hsound.phases i p hp).keyed] at hpop
    have htyped : Typed cli.queueKeys "queues" db' := by
      rcases hpop with rfl | ⟨key, hkey, rfl⟩
      · exact h.typed
      · exact h.typed.exec (queues_notMem_queueKeys _) hkey
    exact { h with typed := htyped }
  · cases b <;> simp only [World.mainStep] at hmain
    case begin =>
      split at hmain
      · rename_i plan todo ha ht
        cases hmain
        have hbase : Smooth cli { w with main := { w.main with todo := todo } } := { h with }
        exact hbase.send (fun c hc => preTrialClear_suits hc) (by simp) (by simp)
      · cases hmain
        exact h.send (by simp) (by simp) (by simp)
      · cases hmain
    case exec =>
      split at hmain
      · cases hmain
      · rename_i c pipe hp
        cases hmain
        exact h.exec hsound.piped hp
    case proceed =>
      split at hmain
      · exact h.proceed hmain
      · cases hmain
    case fail => cases ha

theorem Smooth.start (htyped : Typed cli.queueKeys "queues" db₀) :
    Smooth cli (World.start cli db₀ : World H) :=
  ⟨htyped, by simp [World.start], by simp [World.start], by simp [World.start],
    by simp [World.start], by simp [World.start]⟩

/-- Main stops for good. What it has not stopped for has not failed. -/
theorem smooth_of_runs (htyped : Typed cli.queueKeys "queues" db₀)
    (h : Machine.Runs (World.step serde hdr clock cli) (.start cli db₀) w)
    (hn : w.main.activity ≠ .stopped) : Smooth cli w := by
  induction h with
  | refl => exact .start htyped
  | @tail u w hruns hs ih =>
    obtain ⟨a, _, hs⟩ := hs
    have hu : u.main.activity ≠ .stopped := by
      intro hu
      have hm := World.step_move hs
      cases hm <;> simp_all [Activity.queries]
    have ha : a.succeeds := by
      by_contra hfails
      cases a with
      | phase i b => exact hfails rfl
      | main b =>
        cases b with
        | fail =>
          simp only [World.step, World.mainStep] at hs
          split at hs <;> cases hs
          exact hn rfl
        | _ => exact hfails rfl
    exact (ih hu).step (sound_of_runs hruns) ha hs

theorem Smooth.reach (h : Smooth cli w) (hsound : Sound serde hdr clock cli w)
    (hreach : Machine.Reach (World.step serde hdr clock cli) WorldAct.succeeds w w') :
    Smooth cli w' := by
  have hboth : Sound serde hdr clock cli w' ∧ Smooth cli w' := by
    refine Machine.Reach.invariant (P := fun u => Sound serde hdr clock cli u ∧ Smooth cli u)
      (fun {s a t} hi ha hstep => ?_) hreach ⟨hsound, h⟩
    exact ⟨hi.1.step (World.step_move hstep), hi.2.step hi.1 ha hstep⟩
  exact hboth.2

end Smooth

end ResqueBench
