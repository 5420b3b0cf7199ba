import Mathlib

/-! Paths by their text, and a tree of files without links, symbolic or hard. A path is
followed piece by piece from a working directory; its components are the pieces that
count. -/

namespace UnixPath

/-- The names that lead to a place from the root. -/
abbrev Place := List (List Char)

inductive Component
  | rootDir
  | curDir
  | parentDir
  | normal (name : List Char)
deriving DecidableEq, Repr

def pieces (path : List Char) : List (List Char) := path.splitOn '/'

def isAbsolute (path : List Char) : Bool := path.head? == some '/'

def isNormal (piece : List Char) : Bool := piece ≠ [] ∧ piece ≠ ['.'] ∧ piece ≠ ['.', '.']

/-- Nothing between two slashes, and a single dot, are no component. -/
def component (piece : List Char) : Option Component :=
  if piece = ['.', '.'] then some .parentDir
  else if isNormal piece then some (.normal piece)
  else none

/-- `Path::components`. A dot counts at the very beginning only. -/
def components (path : List Char) : List Component :=
  let rest := (pieces path).filterMap component
  if isAbsolute path then .rootDir :: rest
  else if (pieces path).head? = some ['.'] then .curDir :: rest
  else rest

def enter (here : Place) : Component → Place
  | .rootDir => []
  | .curDir => here
  | .parentDir => here.dropLast
  | .normal name => here ++ [name]

def resolve (dir : Place) (cs : List Component) : Place := cs.foldl enter dir

def follow (here : Place) (piece : List Char) : Place :=
  if piece = ['.', '.'] then here.dropLast else if isNormal piece then here ++ [piece] else here

/-- The place a path names, seen from `dir`. -/
def target (dir : Place) (path : List Char) : Place :=
  (pieces path).foldl follow (if isAbsolute path then [] else dir)

theorem foldl_follow (dir : Place) (ps : List (List Char)) :
    ps.foldl follow dir = resolve dir (ps.filterMap component) := by
  induction ps generalizing dir with
  | nil => rfl
  | cons piece ps ih =>
    rw [List.foldl_cons, ih, List.filterMap_cons]
    by_cases hup : piece = ['.', '.']
    · simp [component, follow, hup, resolve, enter]
    · by_cases hname : isNormal piece = true
      · simp [component, follow, hup, hname, resolve, enter]
      · simp [component, follow, hup, hname]

/-- Following the text and entering the components lead to the same place. -/
theorem resolve_components (dir : Place) (path : List Char) :
    resolve dir (components path) = target dir path := by
  rw [target, foldl_follow, components]
  by_cases habs : isAbsolute path = true
  · simp [habs, resolve, enter]
  · by_cases hdot : (pieces path).head? = some ['.']
    · simp [habs, hdot, resolve, enter]
    · simp [habs, hdot]

theorem component_eq_parentDir {piece : List Char} :
    component piece = some .parentDir ↔ piece = ['.', '.'] := by
  unfold component
  split
  · simp [*]
  · split <;> simp [*]

theorem component_ne_rootDir (piece : List Char) : component piece ≠ some .rootDir := by
  unfold component
  split
  · simp
  · split <;> simp

theorem parentDir_mem_components {path : List Char} :
    .parentDir ∈ components path ↔ ['.', '.'] ∈ pieces path := by
  have hrest : .parentDir ∈ (pieces path).filterMap component ↔ ['.', '.'] ∈ pieces path := by
    rw [List.mem_filterMap]
    constructor
    · rintro ⟨piece, hp, hc⟩
      exact component_eq_parentDir.mp hc ▸ hp
    · exact fun hp => ⟨_, hp, component_eq_parentDir.mpr rfl⟩
  unfold components
  by_cases habs : isAbsolute path = true
  · simpa [habs] using hrest
  · by_cases hdot : (pieces path).head? = some ['.']
    · simpa [habs, hdot] using hrest
    · simpa [habs, hdot] using hrest

theorem rootDir_mem_components {path : List Char} :
    .rootDir ∈ components path ↔ isAbsolute path = true := by
  have hrest : .rootDir ∉ (pieces path).filterMap component := by
    rw [List.mem_filterMap]
    rintro ⟨piece, _, hc⟩
    exact component_ne_rootDir piece hc
  unfold components
  by_cases habs : isAbsolute path = true
  · simp [habs]
  · by_cases hdot : (pieces path).head? = some ['.']
    · simpa [habs, hdot] using hrest
    · simpa [habs, hdot] using hrest

/-- Without a step up or back to the root one stays below where one starts. -/
theorem prefix_resolve {dir : Place} {cs : List Component} (hup : .parentDir ∉ cs)
    (hroot : .rootDir ∉ cs) : dir <+: resolve dir cs := by
  induction cs generalizing dir with
  | nil => exact List.prefix_rfl
  | cons c cs ih =>
    rw [List.mem_cons, not_or] at hup hroot
    have hstep : dir <+: enter dir c := by
      cases c with
      | rootDir => exact absurd rfl hroot.1
      | curDir => exact List.prefix_rfl
      | parentDir => exact absurd rfl hup.1
      | normal name => exact List.prefix_append dir [name]
    exact hstep.trans (ih hup.2 hroot.2)

/-- The places passed on the way, the first one included. -/
def passed (dir : Place) (cs : List Component) : List Place :=
  cs.inits.map (resolve dir)

theorem prefix_passed {dir place : Place} {cs : List Component} (hup : .parentDir ∉ cs)
    (hroot : .rootDir ∉ cs) (h : place ∈ passed dir cs) : dir <+: place := by
  obtain ⟨cs', hcs, rfl⟩ := List.mem_map.mp h
  have hsub := (List.mem_inits _ _).mp hcs
  exact prefix_resolve (fun hm => hup (hsub.subset hm)) (fun hm => hroot (hsub.subset hm))

/-- A text without a slash that is a name is a path of one component. -/
theorem components_name {name : List Char} (hslash : '/' ∉ name) (hname : isNormal name = true) :
    components name = [.normal name] := by
  have hpieces : pieces name = [name] := by
    refine List.splitOnP_eq_singleton (fun c hc => ?_)
    exact beq_false_of_ne (fun he => hslash (he ▸ hc))
  have habs : isAbsolute name = false := by
    cases name with
    | nil => rfl
    | cons c name =>
      have hne : c ≠ '/' := fun he => hslash (he ▸ List.mem_cons_self)
      simpa [isAbsolute] using hne
  have hnot : name ≠ ['.', '.'] ∧ name ≠ ['.'] := by
    rw [isNormal, decide_eq_true_eq] at hname
    exact ⟨hname.2.2, hname.2.1⟩
  simp [components, hpieces, habs, component, hname, hnot.1, hnot.2]

/-- What a place can hold. There are no links: what a path names is at its target, and
no two places share a file. -/
inductive Node
  | directory
  | file (text : String)
deriving DecidableEq, Repr

abbrev Tree := Place → Option Node

section Tree

variable {refuses : Place → Bool} {tree : Tree} {place : Place} {places : List Place}

/-- `mkdir` in a directory; it may be there already. The system may refuse to create
something. -/
def makeDir (refuses : Place → Bool) (tree : Tree) (place : Place) : Option Tree :=
  match tree place with
  | some .directory => some tree
  | some (.file _) => none
  | none =>
    if tree place.dropLast ≠ some .directory ∨ refuses place then none
    else some (Function.update tree place (some .directory))

/-- The directories at `places` one after another, up to the first failure. -/
def makeDirs (refuses : Place → Bool) (tree : Tree) : List Place → Tree × Bool
  | [] => (tree, true)
  | place :: places =>
    match makeDir refuses tree place with
    | some tree => makeDirs refuses tree places
    | none => (tree, false)

/-- Truncates or creates a file in a directory and writes to it. A write that is cut off
leaves the `torn` text there. -/
def writeFile (refuses : Place → Bool) (torn : Option String) (tree : Tree) (place : Place)
    (text : String) : Tree × Bool :=
  if tree place.dropLast ≠ some .directory ∨ tree place = some .directory ∨ place = [] ∨
      refuses place then (tree, false)
  else (Function.update tree place (some (.file (torn.getD text))), torn.isNone)

theorem writeFile_changes {torn : Option String} {text : String} (place' : Place) :
    (writeFile refuses torn tree place text).1 place' = tree place' ∨
      place' = place ∧
        (writeFile refuses torn tree place text).1 place' = some (.file (torn.getD text)) := by
  unfold writeFile
  split
  · exact .inl rfl
  · by_cases he : place' = place
    · subst he
      exact .inr ⟨rfl, Function.update_self ..⟩
    · exact .inl (Function.update_of_ne he ..)

theorem writeFile_ok {torn : Option String} {text : String}
    (h : (writeFile refuses torn tree place text).2 = true) :
    (writeFile refuses torn tree place text).1 place = some (.file text) := by
  unfold writeFile at h ⊢
  split at h
  · cases h
  · rename_i hopen
    rw [if_neg hopen, Option.isNone_iff_eq_none.mp h]
    exact Function.update_self ..

/-- Nothing has changed but that directories have come into being at some places. -/
def Grown (places : List Place) (tree tree' : Tree) : Prop :=
  ∀ place, tree' place = tree place ∨
    tree place = none ∧ tree' place = some .directory ∧ place ∈ places

theorem makeDir_grown {tree' : Tree} (h : makeDir refuses tree place = some tree') :
    Grown [place] tree tree' := by
  unfold makeDir at h
  split at h
  · cases h
    exact fun _ => .inl rfl
  · cases h
  · rename_i hnone
    split at h
    · cases h
    · cases h
      intro place'
      by_cases he : place' = place
      · subst he
        exact .inr ⟨hnone, by simp, List.mem_singleton_self _⟩
      · exact .inl (by simp [he])

theorem Grown.trans {places' : List Place} {tree' tree'' : Tree} (h : Grown places tree tree')
    (h' : Grown places' tree' tree'') : Grown (places ++ places') tree tree'' := by
  intro place
  rcases h' place with he' | ⟨hnone, hdir, hmem⟩
  · rcases h place with he | ⟨hnone, hdir, hmem⟩
    · exact .inl (he'.trans he)
    · exact .inr ⟨hnone, he'.trans hdir, List.mem_append_left _ hmem⟩
  · rcases h place with he | ⟨_, hdir', _⟩
    · exact .inr ⟨he ▸ hnone, hdir, List.mem_append_right _ hmem⟩
    · rw [hdir'] at hnone
      cases hnone

theorem makeDirs_grown (refuses : Place → Bool) (tree : Tree) (places : List Place) :
    Grown places tree (makeDirs refuses tree places).1 := by
  induction places generalizing tree with
  | nil => exact fun _ => .inl rfl
  | cons place places ih =>
    rw [makeDirs]
    cases hmade : makeDir refuses tree place with
    | none => exact fun _ => .inl rfl
    | some tree' => exact (makeDir_grown hmade).trans (ih tree')

end Tree

end UnixPath
