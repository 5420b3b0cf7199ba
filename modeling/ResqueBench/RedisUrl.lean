import ResqueBench.Url
import ResqueBench.PlainUrl

/-! The Redis URL: how it is built from the command line, what of it is displayed, and
what a connection opened from it does. The URL library is a parameter. -/

namespace ResqueBench

open Web

/-- The fields of `Cli` that the URL is built from. -/
structure RedisCli where
  url : String
  host : Option String
  port : Option UInt16
  password : Option String
  tls : Bool
  insecure : Bool
  db : Option UInt8
deriving DecidableEq, Repr

def redactUrl (lib : UrlLibrary) (raw : String) : String :=
  match lib.parse raw with
  | .ok u =>
    lib.serialize (if u.password.isSome then (lib.setPassword u "****").getD u else u)
  | .error _ => raw

/-- `if let Some(arg) = arg`, a setter, and the text of its error. -/
def override {α : Type} (arg : Option α) (set : Url → α → Option Url) (text : α → String)
    (u : Url) : Except (List String) Url :=
  match arg with
  | none => .ok u
  | some a =>
    match set u a with
    | some v => .ok v
    | none => .error [text a]

def overrideHost (lib : UrlLibrary) (cli : RedisCli) : Url → Except (List String) Url :=
  override cli.host lib.setHost (fun host => "invalid --host: " ++ host)

def overridePort (lib : UrlLibrary) (cli : RedisCli) : Url → Except (List String) Url :=
  override cli.port lib.setPort (fun _ => "cannot set port on URL: " ++ redactUrl lib cli.url)

def upgradeScheme (lib : UrlLibrary) (cli : RedisCli) (u : Url) : Except (List String) Url :=
  override (if cli.tls && u.scheme == "redis" then some "rediss" else none) lib.setScheme
    (fun _ => "cannot upgrade scheme to rediss") u

def disableVerification (lib : UrlLibrary) (cli : RedisCli) (u : Url) :
    Except (List String) Url :=
  if cli.insecure then
    if u.scheme == "rediss" then .ok (lib.setFragment u "insecure")
    else .error ["--insecure requires TLS: pass --tls (or use a rediss:// --url)"]
  else .ok u

def overridePassword (lib : UrlLibrary) (cli : RedisCli) : Url → Except (List String) Url :=
  override cli.password lib.setPassword
    (fun _ => "cannot set password on URL: " ++ redactUrl lib cli.url)

def overrideDb (lib : UrlLibrary) (cli : RedisCli) (u : Url) : Url :=
  match cli.db with
  | some db => lib.setPath u ("/" ++ toString db.toNat)
  | none => if u.path.toList.all (· == '/') then lib.setPath u "/13" else u

/-- What `build_redis_url` makes of the parsed URL. -/
def applyArgs (lib : UrlLibrary) (cli : RedisCli) (u : Url) : Except (List String) Url := do
  let u ← overrideHost lib cli u
  let u ← overridePort lib cli u
  let u ← upgradeScheme lib cli u
  let u ← disableVerification lib cli u
  let u ← overridePassword lib cli u
  return overrideDb lib cli u

/-- An error carries its text and the text of its cause. -/
def buildRedisUrl (lib : UrlLibrary) (cli : RedisCli) : Except (List String) String :=
  match lib.parse cli.url with
  | .ok u => (applyArgs lib cli u).map lib.serialize
  | .error e => .error ["invalid Redis URL: " ++ redactUrl lib cli.url, e]

def urlDisablesCertVerification (lib : UrlLibrary) (url : String) : Bool :=
  match lib.parse url with
  | .ok u => u.scheme == "rediss" && u.fragment == some "insecure"
  | .error _ => false

/-- What `main` prints and writes: the `display_url`, or the texts of the error. -/
def displayed (lib : UrlLibrary) (cli : RedisCli) : Except (List String) String :=
  (buildRedisUrl lib cli).map (redactUrl lib)

inductive ConnectionAddr
  | tcp
  | tcpTls (insecure : Bool)
  | unix
deriving DecidableEq, Repr

/-- Where redis-rs connects to for a URL it accepts. -/
def connectionAddr (u : Url) : Option ConnectionAddr :=
  if ["rediss", "valkeys"].contains u.scheme then
    match u.fragment with
    | none => some (.tcpTls false)
    | some fragment => if fragment = "insecure" then some (.tcpTls true) else none
  else if ["redis", "valkey"].contains u.scheme then some .tcp
  else if ["unix", "redis+unix", "valkey+unix"].contains u.scheme then some .unix
  else none

def ConnectionAddr.isTls : ConnectionAddr → Bool
  | .tcpTls _ => true
  | _ => false

/-- redis-rs reads a URL with the same library; it may reject more than it says here. -/
def ReadsUrls (lib : UrlLibrary) (client : String → Option ConnectionAddr) : Prop :=
  ∀ s addr, client s = some addr → ∃ u, lib.parse s = .ok u ∧ connectionAddr u = some addr

/-- A client that accepts what it can read. -/
def accepting (lib : UrlLibrary) (s : String) : Option ConnectionAddr :=
  match lib.parse s with
  | .ok u => connectionAddr u
  | .error _ => none

theorem accepting_readsUrls (lib : UrlLibrary) : ReadsUrls lib (accepting lib) := by
  intro s addr h
  unfold accepting at h
  split at h
  · exact ⟨_, by assumption, h⟩
  · cases h

section Built

variable {lib : UrlLibrary} {cli : RedisCli} {u v w : Url}

theorem override_ok {α : Type} {arg : Option α} {set : Url → α → Option Url} {text : α → String}
    (h : override arg set text u = .ok v) :
    (arg = none ∧ v = u) ∨ ∃ a, arg = some a ∧ set u a = some v := by
  unfold override at h
  split at h
  · cases h
    exact .inl ⟨rfl, rfl⟩
  · rename_i a
    split at h <;> cases h
    exact .inr ⟨a, rfl, by assumption⟩

theorem disableVerification_ok (h : disableVerification lib cli u = .ok v) :
    (cli.insecure = false ∧ v = u) ∨
      (cli.insecure = true ∧ u.scheme = "rediss" ∧ v = lib.setFragment u "insecure") := by
  unfold disableVerification at h
  split at h
  · rename_i hi
    split at h <;> cases h
    rename_i hs
    exact .inr ⟨hi, beq_iff_eq.mp hs, rfl⟩
  · rename_i hi
    cases h
    exact .inl ⟨Bool.eq_false_iff.mpr hi, rfl⟩

theorem bind_ok {ε α β : Type} {x : Except ε α} {f : α → Except ε β} {b : β}
    (h : (x >>= f) = .ok b) : ∃ a, x = .ok a ∧ f a = .ok b := by
  cases x with
  | error e => cases h
  | ok a => exact ⟨a, rfl, h⟩

/-- The URLs that the arguments make of one another, in the order of the source. -/
structure Chain (lib : UrlLibrary) (cli : RedisCli) (u u₁ u₂ u₃ u₄ u₅ : Url) : Prop where
  host : overrideHost lib cli u = .ok u₁
  port : overridePort lib cli u₁ = .ok u₂
  tls : upgradeScheme lib cli u₂ = .ok u₃
  insecure : disableVerification lib cli u₃ = .ok u₄
  password : overridePassword lib cli u₄ = .ok u₅

theorem applyArgs_ok (h : applyArgs lib cli u = .ok w) : ∃ u₁ u₂ u₃ u₄ u₅,
    Chain lib cli u u₁ u₂ u₃ u₄ u₅ ∧ w = overrideDb lib cli u₅ := by
  obtain ⟨u₁, h₁, h⟩ := bind_ok h
  obtain ⟨u₂, h₂, h⟩ := bind_ok h
  obtain ⟨u₃, h₃, h⟩ := bind_ok h
  obtain ⟨u₄, h₄, h⟩ := bind_ok h
  obtain ⟨u₅, h₅, h⟩ := bind_ok h
  cases h
  exact ⟨u₁, u₂, u₃, u₄, u₅, ⟨h₁, h₂, h₃, h₄, h₅⟩, rfl⟩

theorem Chain.applyArgs_eq {u₁ u₂ u₃ u₄ u₅ : Url} (h : Chain lib cli u u₁ u₂ u₃ u₄ u₅) :
    applyArgs lib cli u = .ok (overrideDb lib cli u₅) := by
  simp only [applyArgs, bind, Except.bind, h.host, h.port, h.tls, h.insecure, h.password]
  rfl

theorem unreserved_toString (n : Nat) : Unreserved (toString n) := by
  rw [Nat.toString_eq_ofList_toDigits]
  constructor
  · intro he
    have hnil := congrArg String.toList he
    rw [String.toList_ofList] at hnil
    exact Nat.toDigits_ne_nil hnil
  · intro c hc
    rw [String.toList_ofList] at hc
    have hdigit := Nat.isDigit_of_mem_toDigits (by omega) (by omega) hc
    simp [isUnreserved, Char.isAlphanum, hdigit]

theorem overrideDb_cases (lib : UrlLibrary) (cli : RedisCli) (u : Url) :
    overrideDb lib cli u = u ∨
      ∃ segment, Unreserved segment ∧ overrideDb lib cli u = lib.setPath u ("/" ++ segment) := by
  unfold overrideDb
  split
  · rename_i db _
    exact .inr ⟨toString db.toNat, unreserved_toString db.toNat, rfl⟩
  · split
    · exact .inr ⟨toString 13, unreserved_toString 13, rfl⟩
    · exact .inl rfl

theorem override_keep {α : Type} {arg : Option α} {set : Url → α → Option Url}
    {text : α → String} {P : Url → Prop} (h : override arg set text u = .ok v) (hu : P u)
    (hset : ∀ a, set u a = some v → P v) : P v := by
  rcases override_ok h with ⟨_, rfl⟩ | ⟨a, _, hv⟩
  · exact hu
  · exact hset a hv

theorem overrideHost_only (hl : lib.Lawful) (h : overrideHost lib cli u = .ok v) :
    ∃ host authority, v = { u with host := host, authority := authority } := by
  rcases override_ok h with ⟨_, rfl⟩ | ⟨_, _, hv⟩
  · exact ⟨_, _, rfl⟩
  · obtain ⟨host, rfl⟩ := hl.setHost_only hv
    exact ⟨host, true, rfl⟩

theorem overridePort_only (hl : lib.Lawful) (h : overridePort lib cli u = .ok v) :
    ∃ port, v = { u with port := port } := by
  rcases override_ok h with ⟨_, rfl⟩ | ⟨_, _, hv⟩
  · exact ⟨_, rfl⟩
  · exact hl.setPort_only hv

theorem overridePassword_only (hl : lib.Lawful) (h : overridePassword lib cli u = .ok v) :
    ∃ password, v = { u with password := password } := by
  rcases override_ok h with ⟨_, rfl⟩ | ⟨_, _, hv⟩
  · exact ⟨_, rfl⟩
  · exact hl.setPassword_only hv

theorem overrideDb_only (hl : lib.Lawful) (cli : RedisCli) (u : Url) :
    ∃ path, overrideDb lib cli u = { u with path := path } := by
  rcases overrideDb_cases lib cli u with he | ⟨segment, _, he⟩
  · exact ⟨_, he⟩
  · obtain ⟨path, hp⟩ := hl.setPath_only u ("/" ++ segment)
    exact ⟨path, he.trans hp⟩

theorem upgrade_arg {s : String}
    (h : (if cli.tls && u.scheme == "redis" then some "rediss" else none) = some s) :
    (cli.tls = true ∧ u.scheme = "redis") ∧ s = "rediss" := by
  split at h <;> cases h
  rename_i hup
  rw [Bool.and_eq_true, beq_iff_eq] at hup
  exact ⟨hup, rfl⟩

theorem upgradeScheme_cases (hl : lib.Lawful) (h : upgradeScheme lib cli u = .ok v) :
    (¬ (cli.tls = true ∧ u.scheme = "redis") ∧ v = u) ∨
      ((cli.tls = true ∧ u.scheme = "redis") ∧ lib.setScheme u "rediss" = some v ∧
        ∃ port, v = { u with scheme := "rediss", port := port }) := by
  rcases override_ok h with ⟨harg, rfl⟩ | ⟨s, harg, hv⟩
  · exact .inl ⟨by simpa using harg, rfl⟩
  · obtain ⟨hup, rfl⟩ := upgrade_arg harg
    exact .inr ⟨hup, hv, hl.setScheme_only (by simp) hv⟩

/-- A URL made from `u` with its scheme and its fragment. -/
structure Same (lib : UrlLibrary) (u v : Url) : Prop where
  made : lib.Made v
  scheme : v.scheme = u.scheme
  fragment : v.fragment = u.fragment

theorem overrideHost_same (hl : lib.Lawful) (hu : lib.Made u)
    (h : overrideHost lib cli u = .ok v) : Same lib u v := by
  have hmade : lib.Made v := override_keep h hu (fun _ hv => hu.setHost hv)
  obtain ⟨_, _, rfl⟩ := overrideHost_only hl h
  exact ⟨hmade, rfl, rfl⟩

theorem overridePort_same (hl : lib.Lawful) (hu : lib.Made u)
    (h : overridePort lib cli u = .ok v) : Same lib u v := by
  have hmade : lib.Made v := override_keep h hu (fun _ hv => hu.setPort hv)
  obtain ⟨_, rfl⟩ := overridePort_only hl h
  exact ⟨hmade, rfl, rfl⟩

theorem overridePassword_same (hl : lib.Lawful) (hu : lib.Made u)
    (h : overridePassword lib cli u = .ok v) : Same lib u v := by
  have hmade : lib.Made v := override_keep h hu (fun _ hv => hu.setPassword hv)
  obtain ⟨_, rfl⟩ := overridePassword_only hl h
  exact ⟨hmade, rfl, rfl⟩

theorem overrideDb_same (cli : RedisCli) (hl : lib.Lawful) (hu : lib.Made u) :
    Same lib u (overrideDb lib cli u) := by
  have hmade : lib.Made (overrideDb lib cli u) := by
    rcases overrideDb_cases lib cli u with he | ⟨segment, hs, he⟩
    · rwa [he]
    · rw [he]
      exact hu.setPath hs
  obtain ⟨path, hp⟩ := overrideDb_only hl cli u
  exact ⟨hmade, by rw [hp], by rw [hp]⟩

theorem upgradeScheme_ok (hl : lib.Lawful) (hu : lib.Made u)
    (h : upgradeScheme lib cli u = .ok v) :
    lib.Made v ∧ v.fragment = u.fragment ∧
      v.scheme = if cli.tls = true ∧ u.scheme = "redis" then "rediss" else u.scheme := by
  rcases upgradeScheme_cases hl h with ⟨hn, rfl⟩ | ⟨hup, hv, port, rfl⟩
  · exact ⟨hu, rfl, by rw [if_neg hn]⟩
  · exact ⟨hu.setScheme hv, rfl, by rw [if_pos hup]⟩

theorem unreserved_insecure : Unreserved "insecure" :=
  ⟨by decide, by simp [isUnreserved]⟩

/-- What the arguments make of the scheme and the fragment of `--url`. -/
structure Upgraded (lib : UrlLibrary) (cli : RedisCli) (u v : Url) : Prop where
  made : lib.Made v
  scheme : v.scheme = if cli.tls = true ∧ u.scheme = "redis" then "rediss" else u.scheme
  fragment : v.fragment = if cli.insecure = true then some "insecure" else u.fragment
  insecure : cli.insecure = true → v.scheme = "rediss"

/-- No argument makes a `valkeys` URL out of another one, or gives one a fragment. -/
theorem Upgraded.valkeys (h : Upgraded lib cli u v) :
    (u.scheme = "valkeys" ∧ u.fragment = some "insecure") ↔
      (v.scheme = "valkeys" ∧ v.fragment = some "insecure") := by
  have hscheme : v.scheme = "valkeys" ↔ u.scheme = "valkeys" := by
    rw [h.scheme]
    by_cases hs : cli.tls = true ∧ u.scheme = "redis"
    · simp [hs]
    · simp [hs]
  rw [hscheme]
  refine and_congr_right (fun hs => ?_)
  have hi : ¬ cli.insecure = true := fun hi => by
    have hv := h.insecure hi
    rw [hscheme.mpr hs] at hv
    exact absurd hv (by decide)
  rw [h.fragment, if_neg hi]

theorem applyArgs_upgraded (hl : lib.Lawful) (hu : lib.Made u) (h : applyArgs lib cli u = .ok w) :
    Upgraded lib cli u w := by
  obtain ⟨u₁, u₂, u₃, u₄, u₅, hc, rfl⟩ := applyArgs_ok h
  have h₁ := overrideHost_same hl hu hc.host
  have h₂ := overridePort_same hl h₁.made hc.port
  obtain ⟨hmade₃, hfragment₃, hscheme₃⟩ := upgradeScheme_ok hl h₂.made hc.tls
  rw [h₂.scheme, h₁.scheme] at hscheme₃
  rw [h₂.fragment, h₁.fragment] at hfragment₃
  have h₄ : Upgraded lib cli u u₄ := by
    rcases disableVerification_ok hc.insecure with ⟨hi, rfl⟩ | ⟨hi, hs, rfl⟩
    · exact ⟨hmade₃, hscheme₃, by simp [hi, hfragment₃], by simp [hi]⟩
    · have hmade := hmade₃.setFragment unreserved_insecure
      rw [hl.setFragment_unreserved unreserved_insecure] at hmade ⊢
      exact ⟨hmade, hscheme₃, by simp [hi], fun _ => hs⟩
  have h₅ := overridePassword_same hl h₄.made hc.password
  have h₆ := overrideDb_same cli hl h₅.made
  refine ⟨h₆.made, ?_, ?_, fun hi => ?_⟩
  · rw [h₆.scheme, h₅.scheme, h₄.scheme]
  · rw [h₆.fragment, h₅.fragment, h₄.fragment]
  · rw [h₆.scheme, h₅.scheme, h₄.insecure hi]

theorem buildRedisUrl_ok (hl : lib.Lawful) {s : String} (h : buildRedisUrl lib cli = .ok s) :
    ∃ u w, lib.parse cli.url = .ok u ∧ Upgraded lib cli u w ∧ s = lib.serialize w := by
  unfold buildRedisUrl at h
  split at h
  · rename_i u hu
    cases hw : applyArgs lib cli u with
    | error e =>
      rw [hw] at h
      cases h
    | ok w =>
      rw [hw] at h
      cases h
      exact ⟨u, w, hu, applyArgs_upgraded hl (.parse hu) hw, rfl⟩
  · cases h

theorem exists_parsed_iff {s : String} {P : Url → Prop} (hu : lib.parse s = .ok u) :
    (∃ v, lib.parse s = .ok v ∧ P v) ↔ P u := by
  constructor
  · rintro ⟨v, hv, hp⟩
    rw [hu] at hv
    cases hv
    exact hp
  · exact fun hp => ⟨u, hu, hp⟩

theorem isTls_connectionAddr {addr : ConnectionAddr} (h : connectionAddr u = some addr) :
    addr.isTls = true ↔ u.scheme ∈ ["rediss", "valkeys"] := by
  unfold connectionAddr at h
  rw [← List.contains_iff_mem]
  split at h
  · rename_i hs
    rw [hs]
    split at h
    · cases h
      rfl
    · split at h <;> cases h
      rfl
  · rename_i hs
    rw [Bool.not_eq_true] at hs
    rw [hs]
    split at h
    · cases h
      rfl
    · split at h <;> cases h
      rfl

theorem skips_connectionAddr {addr : ConnectionAddr} (h : connectionAddr u = some addr) :
    addr = .tcpTls true ↔
      u.scheme ∈ ["rediss", "valkeys"] ∧ u.fragment = some "insecure" := by
  rw [← isTls_connectionAddr h]
  unfold connectionAddr at h
  split at h
  · split at h
    · rename_i hf
      cases h
      simp [hf]
    · rename_i fragment hf
      split at h <;> cases h
      rename_i he
      simp [hf, he, ConnectionAddr.isTls]
  · split at h
    · cases h
      simp [ConnectionAddr.isTls]
    · split at h <;> cases h
      simp [ConnectionAddr.isTls]

/-- Of the schemes that `--tls` does not turn into `rediss`, it leaves a TLS connection
just where the scheme means TLS already. -/
theorem tls_applied_iff (hl : lib.Lawful) {client : String → Option ConnectionAddr}
    (hr : ReadsUrls lib client) {s : String} (htls : cli.tls = true)
    (h : buildRedisUrl lib cli = .ok s) :
    (schemeOf s ∈ ["rediss", "valkeys"] ↔
      ∃ u, lib.parse cli.url = .ok u ∧ u.scheme ∈ ["redis", "rediss", "valkeys"]) ∧
    ∀ addr, client s = some addr → (addr.isTls = true ↔
      ∃ u, lib.parse cli.url = .ok u ∧ u.scheme ∈ ["redis", "rediss", "valkeys"]) := by
  obtain ⟨u, w, hu, hw, rfl⟩ := buildRedisUrl_ok hl h
  have hparsed : (∃ u, lib.parse cli.url = .ok u ∧ u.scheme ∈ ["redis", "rediss", "valkeys"]) ↔
      u.scheme ∈ ["redis", "rediss", "valkeys"] := exists_parsed_iff hu
  have hscheme : w.scheme ∈ ["rediss", "valkeys"] ↔ u.scheme ∈ ["redis", "rediss", "valkeys"] := by
    rw [hw.scheme]
    by_cases hs : u.scheme = "redis"
    · simp [htls, hs]
    · simp [hs]
  rw [hparsed, ← hscheme, hl.serialize_scheme hw.made]
  refine ⟨Iff.rfl, fun addr haddr => ?_⟩
  obtain ⟨v, hv, ha⟩ := hr _ _ haddr
  rw [← (hl.reparse_keeps hw.made hv).1]
  exact isTls_connectionAddr ha

theorem tls_applied_iff_redis : ∃ cli s, buildRedisUrl Plain.library cli = .ok s ∧
    schemeOf s ∈ ["rediss", "valkeys"] := by
  let cli : RedisCli := ⟨"redis://127.0.0.1:6379/13", none, none, none, true, false, none⟩
  have hbuilt : buildRedisUrl Plain.library cli = .ok "rediss://127.0.0.1:6379/13" := by
    decide +kernel
  have hparse : Plain.library.parse cli.url = .ok ⟨"redis", "", none, some "127.0.0.1", some 6379,
      "/13", none, none, true, false⟩ := by
    decide +kernel
  have htls : cli.tls = true := rfl
  have hscheme := (tls_applied_iff Plain.library_lawful (accepting_readsUrls _) htls hbuilt).1.mpr
    ⟨_, hparse, by decide⟩
  exact ⟨cli, _, hbuilt, hscheme⟩

/-- `--tls` with a `valkey` URL: the password goes out in clear text. -/
theorem tls_ignored_for_valkey : ∃ cli s, cli.tls = true ∧
    buildRedisUrl Plain.library cli = .ok s ∧ schemeOf s ∉ ["rediss", "valkeys"] ∧
    accepting Plain.library s = some .tcp :=
  ⟨⟨"valkey://:secret@127.0.0.1:6379/0", none, none, none, true, false, none⟩,
    "valkey://:secret@127.0.0.1:6379/0", rfl, by decide +kernel, by decide +kernel,
    by decide +kernel⟩

/-- What is announced and what a connection does part ways just for a `valkeys` URL
that carries the fragment itself. -/
theorem announced_iff (hl : lib.Lawful) {client : String → Option ConnectionAddr}
    (hr : ReadsUrls lib client) {s : String} {addr : ConnectionAddr}
    (h : buildRedisUrl lib cli = .ok s) (haddr : client s = some addr) :
    (urlDisablesCertVerification lib s = true ↔ addr = .tcpTls true) ↔
      ¬ ∃ u, lib.parse cli.url = .ok u ∧ u.scheme = "valkeys" ∧ u.fragment = some "insecure" := by
  obtain ⟨u, w, hu, hw, rfl⟩ := buildRedisUrl_ok hl h
  obtain ⟨v, hv, ha⟩ := hr _ _ haddr
  obtain ⟨hscheme, hfragment⟩ := hl.reparse_keeps hw.made hv
  have hannounced : urlDisablesCertVerification lib (lib.serialize w) = true ↔
      w.scheme = "rediss" ∧ w.fragment = some "insecure" := by
    simp [urlDisablesCertVerification, hv, hscheme, hfragment]
  have hparsed : (∃ u, lib.parse cli.url = .ok u ∧ u.scheme = "valkeys" ∧
      u.fragment = some "insecure") ↔ w.scheme = "valkeys" ∧ w.fragment = some "insecure" := by
    rw [← hw.valkeys]
    exact exists_parsed_iff hu
  rw [hannounced, skips_connectionAddr ha, hparsed, hscheme, hfragment]
  by_cases hs : w.scheme = "valkeys"
  · simp [hs]
  · simp [hs]

end Built

theorem announced_iff_insecure : ∃ cli s, buildRedisUrl Plain.library cli = .ok s ∧
    accepting Plain.library s = some (.tcpTls true) ∧
    urlDisablesCertVerification Plain.library s = true := by
  let cli : RedisCli := ⟨"redis://127.0.0.1:6379/13", none, none, none, true, true, none⟩
  have hbuilt : buildRedisUrl Plain.library cli = .ok "rediss://127.0.0.1:6379/13#insecure" := by
    decide +kernel
  have haddr : accepting Plain.library "rediss://127.0.0.1:6379/13#insecure" =
      some (.tcpTls true) := by
    decide +kernel
  have hparse : Plain.library.parse cli.url = .ok ⟨"redis", "", none, some "127.0.0.1", some 6379,
      "/13", none, none, true, false⟩ := by
    decide +kernel
  have hagree := (announced_iff Plain.library_lawful (accepting_readsUrls _) hbuilt haddr).mpr (by
    rintro ⟨u, hu, hs, _⟩
    rw [hparse] at hu
    cases hu
    exact absurd hs (by decide))
  exact ⟨cli, _, hbuilt, haddr, hagree.mpr rfl⟩

/-- A `valkeys` URL that carries the fragment: verification is off and nothing says so. -/
theorem unannounced_for_valkeys : ∃ cli s, buildRedisUrl Plain.library cli = .ok s ∧
    accepting Plain.library s = some (.tcpTls true) ∧
    urlDisablesCertVerification Plain.library s = false :=
  ⟨⟨"valkeys://127.0.0.1:6380/0#insecure", none, none, none, false, false, none⟩,
    "valkeys://127.0.0.1:6380/0#insecure", by decide +kernel, by decide +kernel,
    by decide +kernel⟩

end ResqueBench
