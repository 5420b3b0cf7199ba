import Mathlib

/-! The part of a Redis database that list queues use: typed values under string
keys, and the commands with their replies. A list element is of any type. -/

namespace Redis

inductive Value (ε : Type*)
  | list (xs : List ε)
  | set (members : Finset String)
  | other (encoding : String)

abbrev Db (ε : Type*) := String → Option (Value ε)

inductive Cmd (ε : Type*)
  | del (key : String)
  | srem (key member : String)
  | sadd (key member : String)
  | rpush (key : String) (x : ε)
  | llen (key : String)
  | lpop (key : String)
  | info (sectionName : String)
  | flushdb

def Cmd.pushed {ε : Type*} : Cmd ε → List ε
  | .rpush _ x => [x]
  | _ => []

def Cmd.clears {ε : Type*} : Cmd ε → Bool
  | .del _ | .srem _ _ | .flushdb => true
  | _ => false

/-- Commands that register a queue, or append under one of the keys. -/
def Cmd.fills {ε : Type*} (keys : List String) : Cmd ε → Prop
  | .sadd _ _ => True
  | .rpush k _ => k ∈ keys
  | _ => False

inductive Reply (ε : Type*)
  | nil
  | bulk (x : ε)
  | int (n : Nat)
  | ok
  | error
deriving DecidableEq, Repr

def Reply.isError {ε : Type*} : Reply ε → Bool
  | .error => true
  | _ => false

/-- An empty list or set is no value: its key is gone. -/
def ofList {ε : Type*} : List ε → Option (Value ε)
  | [] => none
  | x :: xs => some (.list (x :: xs))

def ofSet {ε : Type*} (members : Finset String) : Option (Value ε) :=
  if members = ∅ then none else some (.set members)

def exec {ε : Type*} (db : Db ε) : Cmd ε → Db ε × Reply ε
  | .del k => (Function.update db k none, .int (if (db k).isSome then 1 else 0))
  | .srem k m =>
    match db k with
    | none => (db, .int 0)
    | some (.set ms) => (Function.update db k (ofSet (ms.erase m)), .int (if m ∈ ms then 1 else 0))
    | some _ => (db, .error)
  | .sadd k m =>
    match db k with
    | none => (Function.update db k (some (.set {m})), .int 1)
    | some (.set ms) =>
      (Function.update db k (some (.set (insert m ms))), .int (if m ∈ ms then 0 else 1))
    | some _ => (db, .error)
  | .rpush k x =>
    match db k with
    | none => (Function.update db k (some (.list [x])), .int 1)
    | some (.list xs) => (Function.update db k (some (.list (xs ++ [x]))), .int (xs.length + 1))
    | some _ => (db, .error)
  | .llen k =>
    match db k with
    | none => (db, .int 0)
    | some (.list xs) => (db, .int xs.length)
    | some _ => (db, .error)
  | .lpop k =>
    match db k with
    | none => (db, .nil)
    | some (.list []) => (db, .nil)
    | some (.list (x :: xs)) => (Function.update db k (ofList xs), .bulk x)
    | some _ => (db, .error)
  | .info _ => (db, .ok) -- the text of the reply describes the server
  | .flushdb => (fun _ => none, .ok)

/-- A pipeline whose replies hold an error fails as a whole. -/
def execAll {ε : Type*} (db : Db ε) : List (Cmd ε) → Option (Db ε)
  | [] => some db
  | c :: cs => if (exec db c).2.isError then none else execAll (exec db c).1 cs

/-- The elements under a key; a missing key holds none. -/
def listAt {ε : Type*} (db : Db ε) (k : String) : List ε :=
  match db k with
  | some (.list xs) => xs
  | _ => []

theorem listAt_update {ε : Type*} (db : Db ε) (k : String) (v : Option (Value ε)) (k' : String) :
    listAt (Function.update db k v) k' =
      if k' = k then (match v with | some (.list xs) => xs | _ => []) else listAt db k' := by
  by_cases h : k' = k
  · subst h; simp [listAt]
  · simp [listAt, h]

@[simp] theorem listAt_empty {ε : Type*} (k : String) :
    listAt (fun _ => none : Db ε) k = [] := rfl

theorem listAt_exec_del {ε : Type*} (db : Db ε) (k k' : String) :
    listAt (exec db (.del k)).1 k' = if k' = k then [] else listAt db k' := by
  simp only [exec, listAt_update]

@[simp] theorem listAt_exec_srem {ε : Type*} (db : Db ε) (k m k' : String) :
    listAt (exec db (.srem k m)).1 k' = listAt db k' := by
  simp only [exec]
  split
  · rfl
  · rename_i ms hk
    rw [listAt_update]
    by_cases h : k' = k
    · subst h
      by_cases he : ms.erase m = ∅ <;> simp [listAt, hk, ofSet, he]
    · simp [h]
  · rfl

@[simp] theorem listAt_exec_sadd {ε : Type*} (db : Db ε) (k m k' : String) :
    listAt (exec db (.sadd k m)).1 k' = listAt db k' := by
  simp only [exec]
  split
  · rename_i hk
    rw [listAt_update]
    by_cases h : k' = k
    · subst h; simp [listAt, hk]
    · simp [h]
  · rename_i ms hk
    rw [listAt_update]
    by_cases h : k' = k
    · subst h; simp [listAt, hk]
    · simp [h]
  · rfl

theorem listAt_exec_rpush {ε : Type*} (db : Db ε) (k : String) (x : ε) (k' : String)
    (hok : (exec db (.rpush k x)).2.isError = false) :
    listAt (exec db (.rpush k x)).1 k' =
      if k' = k then listAt db k ++ [x] else listAt db k' := by
  simp only [exec] at hok ⊢
  split
  · rename_i hk
    rw [listAt_update]
    simp [listAt, hk]
  · rename_i xs hk
    rw [listAt_update]
    simp [listAt, hk]
  · rename_i v hn hs hk
    simp [hk, Reply.isError] at hok

theorem listAt_exec_clears {ε : Type*} (db : Db ε) {c : Cmd ε} (hc : c.clears = true)
    (k : String) : listAt (exec db c).1 k = [] ∨ listAt (exec db c).1 k = listAt db k := by
  cases c with
  | del k' =>
    rw [listAt_exec_del]
    split
    · exact .inl rfl
    · exact .inr rfl
  | srem k' m => exact .inr (listAt_exec_srem db k' m k)
  | flushdb => exact .inl rfl
  | _ => simp [Cmd.clears] at hc

theorem exec_error {ε : Type*} {db : Db ε} {c : Cmd ε} (h : (exec db c).2.isError = true) :
    (exec db c).1 = db := by
  cases c <;> simp only [exec] at h ⊢ <;> (try split at h) <;> simp_all [Reply.isError]

@[simp] theorem exec_llen_fst {ε : Type*} (db : Db ε) (k : String) : (exec db (.llen k)).1 = db := by
  simp only [exec]
  split <;> rfl

theorem exec_llen {ε : Type*} {db : Db ε} {k : String}
    (hok : (exec db (.llen k)).2.isError = false) :
    (exec db (.llen k)).2 = .int (listAt db k).length := by
  simp only [exec] at hok ⊢
  split <;> simp_all [listAt, Reply.isError]

theorem exec_lpop_cases {ε : Type*} (db : Db ε) (k : String) :
    (∃ x rest, listAt db k = x :: rest ∧ (exec db (.lpop k)).2 = .bulk x ∧
      ∀ k', listAt (exec db (.lpop k)).1 k' = if k' = k then rest else listAt db k') ∨
    (listAt db k = [] ∧ (exec db (.lpop k)).1 = db ∧
      ((exec db (.lpop k)).2 = .nil ∨ (exec db (.lpop k)).2 = .error)) := by
  cases hk : db k with
  | none => exact .inr ⟨by simp [listAt, hk], by simp [exec, hk], by simp [exec, hk]⟩
  | some v =>
    cases v with
    | list xs =>
      cases xs with
      | nil => exact .inr ⟨by simp [listAt, hk], by simp [exec, hk], by simp [exec, hk]⟩
      | cons x rest =>
        refine .inl ⟨x, rest, by simp [listAt, hk], by simp [exec, hk], ?_⟩
        intro k'
        simp only [exec, hk, listAt_update]
        cases rest <;> simp [ofList]
    | set ms => exact .inr ⟨by simp [listAt, hk], by simp [exec, hk], by simp [exec, hk]⟩
    | other e => exact .inr ⟨by simp [listAt, hk], by simp [exec, hk], by simp [exec, hk]⟩

/-- The key is missing or holds a list, so no list command errs on it. -/
def HoldsList {ε : Type*} (db : Db ε) (k : String) : Prop :=
  ∀ v, db k = some v → ∃ xs, v = .list xs

theorem HoldsList.update {ε : Type*} {db : Db ε} {k : String} (h : HoldsList db k) (k' : String)
    {v : Option (Value ε)} (hv : k = k' → ∀ u, v = some u → ∃ xs, u = .list xs) :
    HoldsList (Function.update db k' v) k := by
  intro u hu
  by_cases hk : k = k'
  · subst hk
    exact hv rfl u (by simpa using hu)
  · exact h u (by simpa [hk] using hu)

theorem ofList_list {ε : Type*} {xs : List ε} {u : Value ε} (h : ofList xs = some u) :
    ∃ ys, u = .list ys := by
  cases xs with
  | nil => cases h
  | cons x xs => exact ⟨x :: xs, (Option.some.inj h).symm⟩

/-- Only `SADD` can put something else than a list under a key. -/
theorem HoldsList.exec {ε : Type*} {db : Db ε} {k : String} (h : HoldsList db k) {c : Cmd ε}
    (hc : ∀ m, c ≠ .sadd k m) : HoldsList (Redis.exec db c).1 k := by
  cases c with
  | del k' => exact h.update k' (fun _ u hu => by cases hu)
  | srem k' m =>
    simp only [Redis.exec]
    split
    · exact h
    · rename_i ms hk'
      refine h.update k' (fun hk u _ => ?_)
      obtain ⟨xs, hx⟩ := h _ (hk ▸ hk')
      cases hx
    · exact h
  | sadd k' m =>
    simp only [Redis.exec]
    have hne : k ≠ k' := fun he => hc m (he ▸ rfl)
    split
    · exact h.update k' (fun hk => absurd hk hne)
    · exact h.update k' (fun hk => absurd hk hne)
    · exact h
  | rpush k' x =>
    simp only [Redis.exec]
    split
    · exact h.update k' (fun _ u hu => ⟨[x], (Option.some.inj hu).symm⟩)
    · rename_i xs hk'
      exact h.update k' (fun _ u hu => ⟨xs ++ [x], (Option.some.inj hu).symm⟩)
    · exact h
  | llen k' => simpa using h
  | lpop k' =>
    simp only [Redis.exec]
    split
    · exact h
    · exact h
    · exact h.update k' (fun _ u hu => ofList_list hu)
    · exact h
  | info _ => exact h
  | flushdb => intro u hu; cases hu

theorem HoldsList.exec_llen {ε : Type*} {db : Db ε} {k : String} (h : HoldsList db k) :
    (Redis.exec db (.llen k)).2 = .int (listAt db k).length := by
  cases hk : db k with
  | none => simp [Redis.exec, listAt, hk]
  | some v =>
    obtain ⟨xs, rfl⟩ := h v hk
    simp [Redis.exec, listAt, hk]

theorem execAll_cons {ε : Type*} {db db' : Db ε} {c : Cmd ε} {cs : List (Cmd ε)}
    (h : execAll db (c :: cs) = some db') :
    (exec db c).2.isError = false ∧ execAll (exec db c).1 cs = some db' := by
  simp only [execAll] at h
  split at h
  · simp at h
  · rename_i he
    exact ⟨Bool.eq_false_iff.mpr he, h⟩

theorem HoldsList.execAll {ε : Type*} {cs : List (Cmd ε)} {db db' : Db ε} {k : String}
    (h : HoldsList db k) (hc : ∀ c ∈ cs, ∀ m, c ≠ .sadd k m)
    (he : Redis.execAll db cs = some db') : HoldsList db' k := by
  induction cs generalizing db with
  | nil =>
    simp only [Redis.execAll, Option.some.injEq] at he
    exact he ▸ h
  | cons c cs ih =>
    exact ih (h.exec (hc c List.mem_cons_self)) (fun c' hc' => hc c' (List.mem_cons_of_mem _ hc'))
      (execAll_cons he).2

theorem execAll_append {ε : Type*} (db : Db ε) (cs cs' : List (Cmd ε)) :
    execAll db (cs ++ cs') = (execAll db cs).bind (fun db' => execAll db' cs') := by
  induction cs generalizing db with
  | nil => rfl
  | cons c cs ih =>
    simp only [List.cons_append, execAll]
    split
    · rfl
    · exact ih _

/-- The database after a pipeline, whatever the replies. -/
def execs {ε : Type*} (db : Db ε) (cs : List (Cmd ε)) : Db ε :=
  cs.foldl (fun db c => (exec db c).1) db

/-- The replies to a pipeline. -/
def answers {ε : Type*} (db : Db ε) : List (Cmd ε) → List (Reply ε)
  | [] => []
  | c :: cs => (exec db c).2 :: answers (exec db c).1 cs

theorem execAll_spec {ε : Type*} {cs : List (Cmd ε)} {db db' : Db ε}
    (h : execAll db cs = some db') :
    execs db cs = db' ∧ ∀ r ∈ answers db cs, r.isError = false := by
  induction cs generalizing db with
  | nil =>
    simp only [execAll, Option.some.injEq] at h
    exact ⟨h, by simp [answers]⟩
  | cons c cs ih =>
    obtain ⟨hc, hcs⟩ := execAll_cons h
    obtain ⟨hdb, hanswers⟩ := ih hcs
    refine ⟨hdb, fun r hr => ?_⟩
    rcases List.mem_cons.mp hr with rfl | hr
    · exact hc
    · exact hanswers r hr

end Redis
