import ResqueBench.FlushWarning

/-! Two passwords make no difference to what main shows before its loop: neither to its
warnings and its header, nor to the error it ends with, nor to what it hands to the report. -/

namespace ResqueBench

open Web

/-- All that is left of a script but for what `view` hides of its result. -/
def Script.seen {α β : Type} (x : Script α) (view : α → β) (log : List Event) :
    Except Failure β × List Event :=
  ((x.run.run log).1.map view, (x.run.run log).2)

/-- What goes into the report: all of it but the URL of the connections. -/
def Ready.shown (r : Ready) : String × String × String × Cli :=
  (r.displayUrl, r.tag, r.output, r.cli)

theorem Script.seen_bind {α β γ : Type} {x : Script α} {f g : α → Script β} {view : β → γ}
    {log : List Event} (h : ∀ a mid, (f a).seen view mid = (g a).seen view mid) :
    (x >>= f).seen view log = (x >>= g).seen view log := by
  unfold Script.seen at h ⊢
  rw [ExceptT.run_bind, ExceptT.run_bind, StateT.run_bind, StateT.run_bind]
  cases hx : x.run.run log with
  | mk r mid =>
    cases r with
    | error e => rfl
    | ok a => exact h a mid

section Built

variable {lib : UrlLibrary} {cli cli' : RedisCli} {u : Url} {s s' : String}

/-- The two URLs of the connection: the same, or the same up to a password that is read
back. -/
def AlikeUrls (lib : UrlLibrary) (s s' : String) : Prop :=
  s' = s ∨ ∃ w w', lib.parse s = .ok w ∧ lib.parse s' = .ok w' ∧ Alike w w'

theorem AlikeUrls.redactUrl (hl : lib.Lawful) (h : AlikeUrls lib s s') :
    redactUrl lib s' = redactUrl lib s := by
  rcases h with rfl | ⟨w, w', hw, hw', halike⟩
  · rfl
  · exact redactUrl_alike hl hw hw' halike

theorem AlikeUrls.urlWarnings (h : AlikeUrls lib s s') (args : Arguments) :
    urlWarnings lib args s' = urlWarnings lib args s := by
  rcases h with rfl | ⟨w, w', hw, hw', halike⟩
  · rfl
  · have hverified : urlDisablesCertVerification lib s' = urlDisablesCertVerification lib s := by
      cases halike <;> simp only [urlDisablesCertVerification, hw, hw', Url.withPassword]
    have hdb : dbInUrl lib s' = dbInUrl lib s := by
      cases halike <;> simp only [dbInUrl, hw, hw', Url.withPassword]
    simp only [ResqueBench.urlWarnings, hverified, hdb]

theorem buildRedisUrl_alike (hl : lib.Lawful) (h : EqualButPassword cli cli')
    (hu : lib.parse cli.url = .ok u) (hn : ¬ HostEmptied lib cli u) :
    (∃ texts, buildRedisUrl lib cli = .error texts ∧ buildRedisUrl lib cli' = .error texts) ∨
      ∃ s s', buildRedisUrl lib cli = .ok s ∧ buildRedisUrl lib cli' = .ok s' ∧
        AlikeUrls lib s s' := by
  obtain ⟨v, hv, halike, _⟩ := h.parse_ok hl hu
  have hstep := applyArgs_alike hl h (redactUrl_alike hl hu hv halike) halike
  have hbuilt : buildRedisUrl lib cli = (applyArgs lib cli u).map lib.serialize := by
    simp only [buildRedisUrl, hu]
  have hbuilt' : buildRedisUrl lib cli' = (applyArgs lib cli' v).map lib.serialize := by
    simp only [buildRedisUrl, hv]
  rw [hbuilt, hbuilt']
  cases hx : applyArgs lib cli u with
  | error texts =>
    rw [hx] at hstep
    rw [hstep.of_error]
    exact .inl ⟨texts, rfl, rfl⟩
  | ok w =>
    rw [hx] at hstep
    obtain ⟨w', hy, hw⟩ := hstep.of_ok
    rw [hy]
    refine .inr ⟨lib.serialize w, lib.serialize w', rfl, rfl, ?_⟩
    have hmade := (applyArgs_upgraded hl (.parse hu) hx).made
    have hmade' := (applyArgs_upgraded hl (.parse hv) hy).made
    cases hw with
    | same => exact .inl rfl
    | password hp q =>
      have hhosted := (applyArgs_hosted hl hu hx hp).resolve_right hn
      have hhosted' := (Alike.password hp q).hosted.mpr hhosted
      have hparse := hl.reparse_hosted hmade hhosted hp
      have hparse' := hl.reparse_hosted hmade' hhosted' (by simp [Url.withPassword])
      exact .inr ⟨w, w.withPassword q, hparse, hparse', .password hp q⟩

/-- A `--url` that is the same shows nothing of a password: it is not parsed, or the
other arguments refuse it, or there is none to differ. -/
theorem buildRedisUrl_alike_of_shown (hl : lib.Lawful) (h : EqualButPassword cli cli')
    (hshown : cli'.url = cli.url ∨ ∃ u, lib.parse cli.url = .ok u ∧ ¬ HostEmptied lib cli u) :
    (∃ texts, buildRedisUrl lib cli = .error texts ∧ buildRedisUrl lib cli' = .error texts) ∨
      ∃ s s', buildRedisUrl lib cli = .ok s ∧ buildRedisUrl lib cli' = .ok s' ∧
        AlikeUrls lib s s' := by
  rcases hshown with hsame | ⟨u, hu, hn⟩
  · cases hu : lib.parse cli.url with
    | error e =>
      refine .inl ⟨["invalid Redis URL: " ++ redactUrl lib cli.url, e], ?_, ?_⟩
      · simp only [buildRedisUrl, hu]
      · simp only [buildRedisUrl, hsame, hu]
    | ok u =>
      by_cases hempty : HostEmptied lib cli u
      · rw [h.eq hsame hempty.password]
        cases buildRedisUrl lib cli with
        | error texts => exact .inl ⟨texts, rfl, rfl⟩
        | ok s => exact .inr ⟨s, s, rfl, rfl, .inl rfl⟩
      · exact buildRedisUrl_alike hl h hu hempty
  · exact buildRedisUrl_alike hl h hu hn

end Built

section Startup

variable {lib : UrlLibrary} {lookup : String → TagLookup}
  {connect : String → Except (List String) Unit} {args : Arguments} {cli' : RedisCli}
  {s s' : String}

theorem prepare_seen (hl : lib.Lawful) (h : AlikeUrls lib s s') (hlookup : lookup s' = lookup s)
    (hconnect : connect s' = connect s) (log : List Event) :
    (prepare lib lookup connect args s').seen Ready.shown log =
      (prepare lib lookup connect args s).seen Ready.shown log := by
  unfold prepare
  rw [h.redactUrl hl, h.urlWarnings args, hlookup, hconnect]
  refine Script.seen_bind (fun _ _ => ?_)
  refine Script.seen_bind (fun _ _ => ?_)
  refine Script.seen_bind (fun _ _ => ?_)
  refine Script.seen_bind (fun _ _ => ?_)
  refine Script.seen_bind (fun _ _ => ?_)
  refine Script.seen_bind (fun _ _ => ?_)
  refine Script.seen_bind (fun _ _ => ?_)
  rfl

/-- Where `--url` is the same, or is parsed and keeps its host, and the server answers
alike, startup shows the same for two passwords. -/
theorem startup_hides_password (hl : lib.Lawful) (h : EqualButPassword args.redis cli')
    (hshown : cli'.url = args.redis.url ∨
      ∃ u, lib.parse args.redis.url = .ok u ∧ ¬ HostEmptied lib args.redis u)
    (hanswers : ∀ s s', buildRedisUrl lib args.redis = .ok s → buildRedisUrl lib cli' = .ok s' →
      lookup s' = lookup s ∧ connect s' = connect s) :
    (startup lib lookup connect { args with redis := cli' }).seen Ready.shown [] =
      (startup lib lookup connect args).seen Ready.shown [] := by
  have hbuilt := buildRedisUrl_alike_of_shown hl h hshown
  refine Script.seen_bind (fun _ _ => ?_)
  refine Script.seen_bind (fun _ _ => ?_)
  rcases hbuilt with ⟨texts, he, he'⟩ | ⟨s, s', hs, hs', halike⟩
  · show (attempt ((buildRedisUrl lib cli').mapError .bailed) >>= _).seen _ _ = _
    rw [he, he']
    rfl
  · obtain ⟨hlookup, hconnect⟩ := hanswers s s' hs hs'
    show (attempt ((buildRedisUrl lib cli').mapError .bailed) >>= _).seen _ _ = _
    rw [hs, hs']
    exact prepare_seen hl halike hlookup hconnect _

end Startup

/-- The password that is wrong is shown no more than the one that is right. -/
theorem startup_hides_password_hunter : ∃ (args : Arguments) (cli' : RedisCli),
    cli' ≠ args.redis ∧
    (startup Plain.library (fun _ => .noConnection "NOAUTH") (fun _ => .error ["NOAUTH"])
      { args with redis := cli' }).seen Ready.shown [] =
    (startup Plain.library (fun _ => .noConnection "NOAUTH") (fun _ => .error ["NOAUTH"])
      args).seen Ready.shown [] := by
  let base : RedisCli := ⟨"", none, none, none, false, false, none⟩
  let cli : RedisCli := { base with url := withUserinfo "redis" "" "hunter2" "127.0.0.1:6379/0" }
  let args : Arguments := { Arguments.default with redis := cli }
  have hequal : EqualButPassword args.redis _ := equalButPassword_hunter base "127.0.0.1:6379/0"
  have hparse : Plain.library.parse args.redis.url =
      .ok ⟨"redis", "", some "hunter2", some "127.0.0.1", some 6379, "/0", none, none, true,
        false⟩ := by
    decide +kernel
  have hn : ¬ HostEmptied Plain.library args.redis ⟨"redis", "", some "hunter2",
      some "127.0.0.1", some 6379, "/0", none, none, true, false⟩ := by
    rintro ⟨⟨host, v, hhost, _⟩, _⟩
    cases hhost
  exact ⟨args, _, by decide +kernel, startup_hides_password Plain.library_lawful hequal
    (.inr ⟨_, hparse, hn⟩) (fun _ _ _ _ => ⟨rfl, rfl⟩)⟩

end ResqueBench
