import Mathlib.Algebra.Group.Nat.Defs
import Mathlib.Data.Char
import Mathlib.Data.List.Count
import Mathlib.Data.List.Lex

/-!
# The sources of a library

Model of `Builder._sourceList` of `waf_libbsd.py`, and of the loop of `Builder.build` that selects the sources of a
test.

* A source list is a list of files, or files in groups: the group `default`, and groups whose name consists of the
  settings they require, with a space between them.
* `haveLoop` — the loop over the settings of a group, with its `continue`.
* `buildTest` — the rule for the groups of a test.

The `continue` goes on with the next setting, not with the next group: **`contains_iff`**.
-/

namespace RtemsLibbsd.Waf

open List

abbrev Text := List Char

/-- `HAVE_` and the setting. -/
def haveName (c : Text) : Text := "HAVE_".toList ++ c

def sorted (files : List Text) : List Text := files.mergeSort fun a b => decide (a ≤ b)

/-- `cfg.split(' ')`. -/
def settings (cfg : Text) : List Text := cfg.splitOn ' '

inductive Files where
  | dict (groups : List (Text × List Text))
  | list (files : List Text)

def defaultKey : Text := "default".toList

/-- `cfg in ['cflags', 'includes']`. -/
def isFlags (cfg : Text) : Bool := cfg = "cflags".toList || cfg = "includes".toList

section

variable (env : Text → Bool)

def haveLoop : List Text → Unit
  | [] => ()
  | c :: cs => if !env (haveName c) then haveLoop cs else haveLoop cs

def groupsLoop : List (Text × List Text) → List Text → List Text
  | [], sources => sources
  | (cfg, files) :: groups, sources =>
    if isFlags cfg then groupsLoop groups sources
    else
      let _ : Unit := if cfg ≠ defaultKey then haveLoop env (settings cfg) else ()
      groupsLoop groups (sources ++ sorted files)

def sourceList : Files → List Text
  | .dict groups => groupsLoop env groups []
  | .list files => sorted files

structure TestGroup where
  files : List Text
  libs : List Text
  modules : List Text

/-- The loop over the settings of a group of a test, with its `break`. -/
def testHaveLoop : List Text → Bool → Bool
  | [], build => build
  | c :: cs, build => if !env (haveName c) then false else testHaveLoop cs build

/-- `build_test` of a group. -/
def buildTest (enabledModules : List Text) (cfg : Text) (test : TestGroup) : Bool :=
  let build := test.modules.length = 0 || test.modules.any fun m => enabledModules.contains m
  if build && cfg ≠ defaultKey then testHaveLoop env (settings cfg) build else build

end

def Files.all : Files → List Text
  | .dict groups => (groups.filter fun g => !isFlags g.1).flatMap Prod.snd
  | .list files => files

def Files.conditional : Files → List (Text × List Text)
  | .dict groups => groups.filter fun g => !isFlags g.1 && decide (g.1 ≠ defaultKey)
  | .list _ => []

def Files.unconditional : Files → List Text
  | .dict groups => (groups.filter fun g => decide (g.1 = defaultKey)).flatMap Prod.snd
  | .list files => files

/-- A test without modules, under the settings of a group of sources. -/
def plainTest (files : List Text) : TestGroup := ⟨files, [], []⟩

/-- A conditional group is in the source list exactly if a test under the same settings is built, and each
    unconditional source is in it once. -/
structure Selected (env : Text → Bool) (files : Files) : Prop where
  conditional : ∀ g ∈ files.conditional,
    (∀ x ∈ g.2, x ∈ sourceList env files) ↔ buildTest env [] g.1 (plainTest g.2) = true
  unconditional : ∀ x ∈ files.unconditional, (sourceList env files).count x = 1

/-- All settings that a group requires are enabled, and the unconditional sources are listed once. -/
structure Complete (env : Text → Bool) (files : Files) : Prop where
  enabled : ∀ g ∈ files.conditional, ∀ c ∈ settings g.1, env (haveName c) = true
  once : ∀ x ∈ files.unconditional, files.all.count x = 1

section

variable {env : Text → Bool}

theorem sorted_perm (files : List Text) : (sorted files).Perm files := mergeSort_perm _ _

variable {cfg : Text}

theorem all_cons_of_flags {groups : List (Text × List Text)} (files : List Text) (h : isFlags cfg = true) :
    (Files.dict ((cfg, files) :: groups)).all = (Files.dict groups).all := by
  show (List.filter _ _).flatMap Prod.snd = _
  rw [filter_cons_of_neg (by simp [h])]
  rfl

theorem all_cons_of_files {groups : List (Text × List Text)} (files : List Text) (h : ¬ isFlags cfg = true) :
    (Files.dict ((cfg, files) :: groups)).all = files ++ (Files.dict groups).all := by
  show (List.filter _ _).flatMap Prod.snd = _
  rw [filter_cons_of_pos (by simp [h]), flatMap_cons]
  rfl

theorem groupsLoop_perm (groups : List (Text × List Text)) (sources : List Text) :
    (groupsLoop env groups sources).Perm (sources ++ (Files.dict groups).all) := by
  induction groups generalizing sources with
  | nil =>
    show sources.Perm (sources ++ [])
    simp
  | cons g groups ih =>
    obtain ⟨cfg, files⟩ := g
    unfold groupsLoop
    by_cases hf : isFlags cfg = true
    · rw [if_pos hf]
      rw [all_cons_of_flags files hf]
      exact ih sources
    · grind [all_cons_of_files, sorted_perm]

theorem sourceList_perm (env : Text → Bool) (files : Files) : (sourceList env files).Perm files.all := by
  cases files with
  | dict groups => exact groupsLoop_perm groups []
  | list files => exact sorted_perm files

theorem testHaveLoop_iff (cs : List Text) : testHaveLoop env cs true = true ↔ ∀ c ∈ cs, env (haveName c) = true := by
  induction cs with
  | nil => exact iff_of_true rfl fun c hc => absurd hc not_mem_nil
  | cons c cs ih =>
    unfold testHaveLoop
    grind

theorem buildTest_iff (hcfg : cfg ≠ defaultKey) (files : List Text) :
    buildTest env [] cfg (plainTest files) = true ↔ ∀ c ∈ settings cfg, env (haveName c) = true := by
  have hbuild : buildTest env [] cfg (plainTest files) = testHaveLoop env (settings cfg) true := by
    exact if_pos (by simp [plainTest, hcfg])
  rw [hbuild, testHaveLoop_iff]

theorem Files.ne_default {files : Files} {g : Text × List Text} (h : g ∈ files.conditional) : g.1 ≠ defaultKey := by
  cases files with
  | dict groups =>
    unfold Files.conditional at h
    grind
  | list files => exact absurd h not_mem_nil

theorem Files.mem_all {files : Files} {g : Text × List Text} (h : g ∈ files.conditional) {x : Text} (hx : x ∈ g.2) :
    x ∈ files.all := by
  cases files with
  | dict groups =>
    obtain ⟨hg, hno⟩ := mem_filter.mp h
    rw [Bool.and_eq_true] at hno
    exact mem_flatMap.mpr ⟨g, mem_filter.mpr ⟨hg, hno.1⟩, hx⟩
  | list files => exact absurd h not_mem_nil

/-- **The source list is the one that is asked for exactly if all conditional groups are.** -/
theorem contains_iff (env : Text → Bool) (files : Files) : Selected env files ↔ Complete env files := by
  have hperm := sourceList_perm env files
  have hall : ∀ g ∈ files.conditional, ∀ x ∈ g.2, x ∈ sourceList env files := fun g hg x hx =>
    hperm.mem_iff.mpr (Files.mem_all hg hx)
  constructor
  · intro h
    refine ⟨fun g hg => ?_, fun x hx => ?_⟩
    · exact (buildTest_iff (Files.ne_default hg) g.2).mp ((h.conditional g hg).mp (hall g hg))
    · rw [← hperm.count_eq x]
      exact h.unconditional x hx
  · intro h
    refine ⟨fun g hg => ?_, fun x hx => ?_⟩
    · exact iff_of_true (hall g hg) ((buildTest_iff (Files.ne_default hg) g.2).mpr (h.enabled g hg))
    · rw [hperm.count_eq x]
      exact h.once x hx

end

/-- A source that requires the header `dlfcn.h`. -/
def dlfcnFiles : Files := .dict [(defaultKey, ["a.c".toList]), ("DLFCN_H".toList, ["dl.c".toList])]

/-- The source is built although there is no such header. -/
theorem dlfcnFiles_not_selected : ¬ Selected (fun _ => false) dlfcnFiles := by
  intro h
  have hbuild := (h.conditional ("DLFCN_H".toList, ["dl.c".toList]) (by decide)).mp fun x hx =>
    (sourceList_perm (fun _ => false) dlfcnFiles).mem_iff.mpr (Files.mem_all (by decide) hx)
  exact absurd hbuild (by decide)

end RtemsLibbsd.Waf
