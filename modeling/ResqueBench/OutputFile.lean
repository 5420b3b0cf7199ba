import ResqueBench.UnixPath
import ResqueBench.Percentiles

/-! Where the report is written. The guard on `--output` keeps relative paths below the
working directory, and the default name needs no guard, whatever the server calls
its version. -/

namespace ResqueBench

open UnixPath

def isTagChar (c : Char) : Bool := c.isAlphanum || c == '.' || c == '-' || c == '_'

def sanitizeTag (tag : String) : String :=
  let s := String.ofList (tag.toList.map (fun c => if isTagChar c then c else '-'))
  if s = "" then "unknown" else s

def validateOutputPath (path : String) : Except Failure Unit :=
  if path = "-" then .ok ()
  else forM (components path.toList) (fun component =>
    ensure (component ≠ .parentDir) ("--output must not contain '..' segments: " ++ path))

/-- `str::lines`: a line ends in a line feed, with a carriage return before it or not,
and nothing after the last line feed is no line. -/
def lines (text : List Char) : List (List Char) :=
  let segments := text.splitOn '\n'
  let ended := segments.dropLast.map (fun line =>
    if line.getLast? = some '\r' then line.dropLast else line)
  let last := segments.getLast?.getD []
  if last = [] then ended else ended ++ [last]

/-- The Unicode property `White_Space`. -/
def isWhiteSpace (c : Char) : Bool :=
  let n := c.toNat
  (9 ≤ n && n ≤ 13) || n == 0x20 || n == 0x85 || n == 0xA0 || n == 0x1680 ||
    (0x2000 ≤ n && n ≤ 0x200A) || n == 0x2028 || n == 0x2029 || n == 0x202F || n == 0x205F ||
    n == 0x3000

/-- `str::trim`. -/
def trim (cs : List Char) : List Char :=
  ((cs.dropWhile isWhiteSpace).reverse.dropWhile isWhiteSpace).reverse

def stripPrefix : List Char → List Char → Option (List Char)
  | [], cs => some cs
  | _ :: _, [] => none
  | p :: ps, c :: cs => if p = c then stripPrefix ps cs else none

/-- What the tag is taken from where there is no `--tag`. -/
inductive TagLookup
  | noClient (e : String)
  | noConnection (e : String)
  | noInfo (e : String)
  | info (text : String)

/-- The warning that is printed, and the tag. -/
def tagOfLookup : TagLookup → Option String × String
  | .noClient e => (some ("warning: could not build Redis client for tag lookup: " ++ e), "unknown")
  | .noConnection e => (some ("warning: could not connect to Redis for tag lookup: " ++ e), "unknown")
  | .noInfo e => (some ("warning: could not fetch Redis INFO for tag: " ++ e), "unknown")
  | .info text =>
    match (lines text.toList).findSome? (stripPrefix "redis_version:".toList) with
    | some v => (none, "redis-" ++ String.ofList (trim v))
    | none => (none, "unknown")

def reportTag (tag : Option String) (lookup : TagLookup) : String :=
  match tag with
  | some t => sanitizeTag t
  | none => sanitizeTag (tagOfLookup lookup).2

/-- `--output` as main checks it: a name of its own is not checked. -/
def checkOutput (output : Option String) : Except Failure Unit :=
  match output with
  | some out => validateOutputPath out
  | none => .ok ()

def outputPath (output : Option String) (tag : String) : String :=
  output.getD ("resque_bench_" ++ tag ++ ".json")

/-- The places of the directories that `create_dir_all` wants. -/
def parentPlaces (dir : Place) (path : List Char) : List Place :=
  let cs := components path
  if cs.getLast? = none ∨ cs.getLast? = some .rootDir then []
  else (passed dir cs.dropLast).tail

structure Saved where
  tree : Tree
  printed : List String
  ok : Bool

/-- The end of `write_json`, on a file system without links. The system may refuse to make
a directory or to open the file, and the write may be cut off after the file was
truncated. -/
def saveReport (refuses : Place → Bool) (torn : Option String) (tree : Tree) (dir : Place)
    (json output : String) : Saved :=
  if output = "-" then ⟨tree, [json], true⟩
  else
    let made := makeDirs refuses tree (parentPlaces dir output.toList)
    if made.2 then
      -- a path that ends in a slash or a dot names no file
      if (pieces output.toList).getLast?.any isNormal then
        let written := writeFile refuses torn made.1 (target dir output.toList) json
        ⟨written.1, if written.2 then ["Results saved → " ++ output] else [], written.2⟩
      else ⟨made.1, [], false⟩
    else ⟨made.1, [], false⟩

section Guard

variable {path : String}

theorem forM_ensure {α : Type*} {p : α → Prop} [DecidablePred p] {text : String} (l : List α) :
    forM l (fun x => ensure (p x) text) =
      if ∀ x ∈ l, p x then (.ok () : Except Failure Unit) else .error (.bailed [text]) := by
  induction l with
  | nil => rfl
  | cons x l ih =>
    rw [List.forM_cons, ih, ensure]
    by_cases hx : p x
    · simp [hx, bind, Except.bind]
    · simp [hx, bind, Except.bind]

theorem validateOutputPath_eq (path : String) : validateOutputPath path =
    if path = "-" ∨ ['.', '.'] ∉ pieces path.toList then .ok ()
    else .error (.bailed ["--output must not contain '..' segments: " ++ path]) := by
  have hall : (∀ c ∈ components path.toList, c ≠ .parentDir) ↔
      ['.', '.'] ∉ pieces path.toList := by
    rw [← parentDir_mem_components]
    exact ⟨fun h hm => h _ hm rfl, fun h c hc he => h (he ▸ hc)⟩
  unfold validateOutputPath
  by_cases hdash : path = "-"
  · simp [hdash]
  · rw [if_neg hdash, forM_ensure]
    simp only [hall, hdash, false_or]

theorem no_parentDir (h : validateOutputPath path = .ok ()) (hdash : path ≠ "-") :
    .parentDir ∉ components path.toList := by
  rw [parentDir_mem_components]
  rw [validateOutputPath_eq] at h
  split at h
  · rename_i hor
    exact hor.resolve_left hdash
  · cases h

end Guard

section Tag

theorem isTagChar_sanitizeTag (tag : String) : ∀ c ∈ (sanitizeTag tag).toList, isTagChar c = true := by
  intro c hc
  unfold sanitizeTag at hc
  dsimp only at hc
  split at hc
  · exact List.all_eq_true.mp (by decide : "unknown".toList.all isTagChar = true) c hc
  · rw [String.toList_ofList, List.mem_map] at hc
    obtain ⟨c', _, rfl⟩ := hc
    by_cases h : isTagChar c' = true
    · simp [h]
    · simp only [h, Bool.false_eq_true, if_false]
      decide

theorem sanitizeTag_of_safe {tag : String} (hne : tag ≠ "")
    (h : ∀ c ∈ tag.toList, isTagChar c = true) : sanitizeTag tag = tag := by
  have hmap : tag.toList.map (fun c => if isTagChar c then c else '-') = tag.toList := by
    rw [List.map_congr_left (fun c hc => if_pos (h c hc)), List.map_id']
  simp [sanitizeTag, hmap, hne]

theorem isTagChar_reportTag (tag : Option String) (lookup : TagLookup) :
    ∀ c ∈ (reportTag tag lookup).toList, isTagChar c = true := by
  cases tag with
  | none => exact isTagChar_sanitizeTag _
  | some t => exact isTagChar_sanitizeTag t

/-- The default name is a single component, whatever the tag. -/
theorem components_default (tag : Option String) (lookup : TagLookup) :
    components (outputPath none (reportTag tag lookup)).toList =
      [.normal (outputPath none (reportTag tag lookup)).toList] := by
  have htag := isTagChar_reportTag tag lookup
  have hchars : (outputPath none (reportTag tag lookup)).toList =
      "resque_bench_".toList ++ (reportTag tag lookup).toList ++ ".json".toList := by
    simp [outputPath]
  refine components_name ?_ ?_
  · rw [hchars, List.mem_append, List.mem_append]
    rintro ((hc | hc) | hc)
    · revert hc
      decide
    · exact absurd (htag _ hc) (by decide)
    · revert hc
      decide
  · rw [hchars, isNormal, decide_eq_true_eq]
    simp

end Tag

section Saved

variable {refuses : Place → Bool} {torn : Option String} {tree : Tree} {dir : Place}
  {json output : String}

theorem mem_parentPlaces {path : List Char} (hup : .parentDir ∉ components path)
    (hroot : isAbsolute path = false) {place : Place} (h : place ∈ parentPlaces dir path) :
    dir <+: place := by
  unfold parentPlaces at h
  dsimp only at h
  split at h
  · cases h
  · have hroot' : .rootDir ∉ components path := by
      rw [rootDir_mem_components, hroot]
      exact Bool.false_ne_true
    refine prefix_passed (fun hm => hup ?_) (fun hm => hroot' ?_) (List.mem_of_mem_tail h)
    · exact List.dropLast_subset _ hm
    · exact List.dropLast_subset _ hm

/-- The report is written where the path leads, or nowhere. -/
theorem saveReport_changes (place : Place) :
    (saveReport refuses torn tree dir json output).tree place = tree place ∨
      (tree place = none ∧
        (saveReport refuses torn tree dir json output).tree place = some .directory ∧
        output ≠ "-" ∧ place ∈ parentPlaces dir output.toList) ∨
      (output ≠ "-" ∧ place = target dir output.toList ∧
        (saveReport refuses torn tree dir json output).tree place =
          some (.file (torn.getD json))) := by
  have hgrown := makeDirs_grown refuses tree (parentPlaces dir output.toList) place
  unfold saveReport
  by_cases hdash : output = "-"
  · simp [hdash]
  rw [if_neg hdash]
  dsimp only
  have hmade : (makeDirs refuses tree (parentPlaces dir output.toList)).1 place = tree place ∨
      (tree place = none ∧
        (makeDirs refuses tree (parentPlaces dir output.toList)).1 place = some .directory ∧
        output ≠ "-" ∧ place ∈ parentPlaces dir output.toList) :=
    hgrown.imp_right (fun h => ⟨h.1, h.2.1, hdash, h.2.2⟩)
  split
  · split
    · rcases writeFile_changes place with hsame | ⟨hplace, hfile⟩
      · dsimp only
        rw [hsame]
        exact hmade.imp_right .inl
      · exact .inr (.inr ⟨hdash, hplace, hfile⟩)
    · exact hmade.imp_right .inl
  · exact hmade.imp_right .inl

theorem saveReport_ok (h : (saveReport refuses torn tree dir json output).ok = true) :
    (output = "-" ∧ (saveReport refuses torn tree dir json output).tree = tree ∧
      (saveReport refuses torn tree dir json output).printed = [json]) ∨
    (output ≠ "-" ∧
      (saveReport refuses torn tree dir json output).tree (target dir output.toList) =
        some (.file json) ∧
      (saveReport refuses torn tree dir json output).printed =
        ["Results saved → " ++ output]) := by
  unfold saveReport at h ⊢
  by_cases hdash : output = "-"
  · simp [hdash]
  rw [if_neg hdash] at h ⊢
  dsimp only at h ⊢
  split at h
  · rename_i hmade
    split at h
    · rename_i hlast
      rw [if_pos hmade, if_pos hlast]
      exact .inr ⟨hdash, writeFile_ok h, if_pos h⟩
    · cases h
  · cases h

/-- Whatever the tag, and whatever is there already except for links: the report replaces
no file but the one it is written to, by the whole of it or by what a write that was cut
off leaves, and adds directories on the way at most. A relative path that main accepts
changes nothing outside of the working directory, and the default name nothing but one
file in it. -/
theorem report_stays_below {out : Option String} (hcheck : checkOutput out = .ok ())
    (tag : Option String) (lookup : TagLookup) (refuses : Place → Bool)
    (torn : Option String) (tree : Tree) (dir : Place) (json : String) :
    let path := outputPath out (reportTag tag lookup)
    let saved := saveReport refuses torn tree dir json path
    (∀ place, saved.tree place ≠ tree place →
      tree place = none ∧ saved.tree place = some .directory ∨
        place = target dir path.toList ∧ saved.tree place = some (.file (torn.getD json))) ∧
    (isAbsolute path.toList = false → ∀ place, ¬ dir <+: place →
      saved.tree place = tree place) ∧
    (saved.ok = true → path = "-" ∧ saved.tree = tree ∧ saved.printed = [json] ∨
      saved.tree (target dir path.toList) = some (.file json) ∧
        saved.printed = ["Results saved → " ++ path]) ∧
    (out = none → ∀ place, place ≠ dir ++ [path.toList] → saved.tree place = tree place) := by
  intro path saved
  have hchanges : ∀ place, saved.tree place = tree place ∨
      (tree place = none ∧ saved.tree place = some .directory ∧ path ≠ "-" ∧
        place ∈ parentPlaces dir path.toList) ∨
      (path ≠ "-" ∧ place = target dir path.toList ∧
        saved.tree place = some (.file (torn.getD json))) :=
    saveReport_changes
  have hup : path ≠ "-" → .parentDir ∉ components path.toList := by
    intro hdash
    cases hout : out with
    | none =>
      rw [show path = outputPath none (reportTag tag lookup) by rw [← hout], components_default]
      simp
    | some given =>
      have hgiven : path = given := by simp [path, outputPath, hout]
      rw [hgiven] at hdash ⊢
      exact no_parentDir (by simpa [checkOutput, hout] using hcheck) hdash
  refine ⟨fun place hne => ?_, fun hrel place hout => ?_, fun hok => ?_, fun hnone place hne => ?_⟩
  · rcases hchanges place with h | ⟨hfree, hdir, _⟩ | ⟨_, hplace, hfile⟩
    · exact absurd h hne
    · exact .inl ⟨hfree, hdir⟩
    · exact .inr ⟨hplace, hfile⟩
  · rcases hchanges place with h | ⟨_, _, hdash, hmem⟩ | ⟨hdash, rfl, _⟩
    · exact h
    · exact absurd (mem_parentPlaces (hup hdash) hrel hmem) hout
    · rw [← resolve_components] at hout
      refine absurd (prefix_resolve (hup hdash) ?_) hout
      rw [rootDir_mem_components, hrel]
      exact Bool.false_ne_true
  · rcases saveReport_ok hok with ⟨hdash, htree, hprinted⟩ | ⟨_, hfile, hprinted⟩
    · exact .inl ⟨hdash, htree, hprinted⟩
    · exact .inr ⟨hfile, hprinted⟩
  · have hcs : components path.toList = [.normal path.toList] := by
      simp only [path, hnone]
      exact components_default tag lookup
    rcases hchanges place with h | ⟨_, _, _, hmem⟩ | ⟨_, hplace, _⟩
    · exact h
    · simp [parentPlaces, hcs, passed] at hmem
    · rw [← resolve_components, hcs] at hplace
      exact absurd hplace hne

/-- A report in a directory below the working directory. -/
theorem report_stays_below_results :
    let tree : Tree := fun place => if place <+: ["home".toList] then some .directory else none
    let saved := saveReport (fun _ => false) none tree ["home".toList] "\x7b\x7d"
      "results/out.json"
    saved.ok = true ∧ saved.tree ["etc".toList] = none := by
  intro tree saved
  have hcheck : checkOutput (some "results/out.json") = .ok () := by
    rw [checkOutput, validateOutputPath_eq, if_pos (by decide)]
  have hbelow := (report_stays_below hcheck none (.noInfo "") (fun _ => false) none tree
    ["home".toList] "\x7b\x7d").2.1 (by decide) ["etc".toList] (by decide)
  exact ⟨by decide +kernel, hbelow.trans (by decide)⟩

end Saved

section Version

/-- The lines of a text in which each of them ends as Redis ends them. -/
theorem lines_crlf {ls : List (List Char)} (h : ∀ l ∈ ls, '\n' ∉ l) :
    lines (ls.flatMap (fun l => l ++ ['\r', '\n'])) = ls := by
  have hsplit : (ls.flatMap (fun l => l ++ ['\r', '\n'])).splitOn '\n' =
      ls.map (fun l => l ++ ['\r']) ++ [[]] := by
    induction ls with
    | nil => rfl
    | cons l ls ih =>
      have hl : '\n' ∉ l ++ ['\r'] := by
        rw [List.mem_append, List.mem_singleton, not_or]
        exact ⟨h l List.mem_cons_self, by decide⟩
      have hcut : (l :: ls).flatMap (fun l => l ++ ['\r', '\n']) =
          (l ++ ['\r']) ++ '\n' :: ls.flatMap (fun l => l ++ ['\r', '\n']) := by simp
      rw [hcut, List.splitOn_append_cons_self, List.splitOn_eq_singleton hl,
        ih (fun l' hl' => h l' (List.mem_cons_of_mem _ hl'))]
      rfl
  have hmap : (ls.map (fun l => l ++ ['\r'])).map (fun line =>
      if line.getLast? = some '\r' then line.dropLast else line) = ls := by
    rw [List.map_map]
    exact (List.map_congr_left (fun l _ => by simp)).trans (List.map_id ls)
  simp only [lines, hsplit, List.dropLast_concat, List.getLast?_concat, Option.getD_some, if_true]
  exact hmap

theorem stripPrefix_eq_some {p cs rest : List Char} :
    stripPrefix p cs = some rest ↔ cs = p ++ rest := by
  induction p generalizing cs with
  | nil => simp [stripPrefix]
  | cons c p ih =>
    cases cs with
    | nil => simp [stripPrefix]
    | cons d cs =>
      rw [stripPrefix]
      by_cases hcd : c = d
      · simp [hcd, ih]
      · simp [hcd, eq_comm]

theorem isTagChar_range {c : Char} (h : isTagChar c = true) : 45 ≤ c.toNat ∧ c.toNat ≤ 122 := by
  simp only [isTagChar, Char.isAlphanum, Char.isAlpha, Char.isUpper, Char.isLower, Char.isDigit,
    Bool.or_eq_true, Bool.and_eq_true, decide_eq_true_eq, beq_iff_eq, UInt32.le_iff_toNat_le] at h
  have hletter : ∀ {lo hi : UInt32}, 45 ≤ lo.toNat → hi.toNat ≤ 122 →
      lo.toNat ≤ c.val.toNat ∧ c.val.toNat ≤ hi.toNat → 45 ≤ c.toNat ∧ c.toNat ≤ 122 :=
    fun hlo hhi hc => ⟨hlo.trans hc.1, hc.2.trans hhi⟩
  rcases h with ((((h | h) | h) | rfl) | rfl) | rfl
  · exact hletter (by decide) (by decide) h
  · exact hletter (by decide) (by decide) h
  · exact hletter (by decide) (by decide) h
  all_goals decide

theorem isWhiteSpace_of_isTagChar {c : Char} (h : isTagChar c = true) : isWhiteSpace c = false := by
  have hrange := isTagChar_range h
  simp only [isWhiteSpace, Bool.or_eq_false_iff, Bool.and_eq_false_iff, decide_eq_false_iff_not,
    beq_eq_false_iff_ne]
  omega

theorem trim_of_safe {v : List Char} (h : ∀ c ∈ v, isTagChar c = true) : trim v = v := by
  have hdrop : ∀ w : List Char, (∀ c ∈ w, isTagChar c = true) → w.dropWhile isWhiteSpace = w := by
    intro w hw
    cases w with
    | nil => rfl
    | cons c w =>
      rw [List.dropWhile_cons_of_neg]
      simpa using isWhiteSpace_of_isTagChar (hw c List.mem_cons_self)
  rw [trim, hdrop v h, hdrop v.reverse (fun c hc => h c (List.mem_reverse.mp hc)),
    List.reverse_reverse]

/-- From the version line of an `INFO` reply the report gets its name. -/
theorem default_output_names_version (before after : List (List Char)) (v : List Char)
    (hlines : ∀ l ∈ before ++ after, '\n' ∉ l)
    (hbefore : ∀ l ∈ before, ¬ "redis_version:".toList <+: l)
    (hv : ∀ c ∈ v, isTagChar c = true) :
    let text := (before ++ ("redis_version:".toList ++ v) :: after).flatMap
      (fun l => l ++ ['\r', '\n'])
    reportTag none (.info (String.ofList text)) = "redis-" ++ String.ofList v ∧
      outputPath none (reportTag none (.info (String.ofList text))) =
        "resque_bench_redis-" ++ String.ofList v ++ ".json" := by
  intro text
  have hline : '\n' ∉ "redis_version:".toList ++ v := by
    rw [List.mem_append]
    rintro (hc | hc)
    · revert hc
      decide
    · exact absurd (hv _ hc) (by decide)
  have hall : ∀ l ∈ before ++ ("redis_version:".toList ++ v) :: after, '\n' ∉ l := by
    intro l hl
    simp only [List.mem_append, List.mem_cons] at hl
    rcases hl with hl | rfl | hl
    · exact hlines l (List.mem_append_left _ hl)
    · exact hline
    · exact hlines l (List.mem_append_right _ hl)
  have hskip : before.findSome? (stripPrefix "redis_version:".toList) = none := by
    rw [List.findSome?_eq_none_iff]
    intro l hl
    cases hs : stripPrefix "redis_version:".toList l with
    | none => rfl
    | some rest => exact absurd ⟨rest, (stripPrefix_eq_some.mp hs).symm⟩ (hbefore l hl)
  have hfound : (lines text).findSome? (stripPrefix "redis_version:".toList) = some v := by
    rw [lines_crlf hall, List.findSome?_append, hskip, Option.none_or, List.findSome?_cons,
      stripPrefix_eq_some.mpr rfl]
  have htag : (tagOfLookup (.info (String.ofList text))).2 = "redis-" ++ String.ofList v := by
    simp only [tagOfLookup, String.toList_ofList, hfound, trim_of_safe hv]
  have hsafe : sanitizeTag ("redis-" ++ String.ofList v) = "redis-" ++ String.ofList v := by
    refine sanitizeTag_of_safe (by simp) (fun c hc => ?_)
    rw [String.toList_append, List.mem_append] at hc
    rcases hc with hc | hc
    · exact List.all_eq_true.mp (by decide : "redis-".toList.all isTagChar = true) c hc
    · rw [String.toList_ofList] at hc
      exact hv c hc
  have hname : "resque_bench_" ++ "redis-" = "resque_bench_redis-" := by decide
  have hreport : reportTag none (.info (String.ofList text)) = "redis-" ++ String.ofList v := by
    rw [reportTag, htag, hsafe]
  refine ⟨hreport, ?_⟩
  rw [outputPath, Option.getD_none, hreport, ← String.append_assoc, hname]

theorem default_output_names_version_seven :
    let lookup : TagLookup := .info (String.ofList
      (["# Server".toList, "redis_version:7.2.4".toList, "os:Linux".toList].flatMap
        (fun l => l ++ ['\r', '\n'])))
    reportTag none lookup = "redis-7.2.4" ∧
      outputPath none (reportTag none lookup) = "resque_bench_redis-7.2.4.json" :=
  default_output_names_version ["# Server".toList] ["os:Linux".toList] "7.2.4".toList
    (by decide) (by decide) (List.all_eq_true.mp (by decide))

end Version

end ResqueBench
