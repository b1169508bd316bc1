import Mathlib.Data.List.Forall2
import TreePlan.Config.Load
import TreePlan.Proofs.Path.Components

/-!
# Anchored pairs

The configuration of a directory is looked for under a path that is joined to the directory, and
its pairs are taken from the directory of that path, which need not be the same text: `a/.//` has
its configuration at `a/.//snapsync.yaml`, and the directory of that is `a`.

* `Config.directory_pathIn`: the two texts have the same components.
* `Config.loaded_pairs_anchored`: so every pair is what it would be if it were taken from the
  directory that was asked for.
-/

namespace TreePlan

/-- Whether a pair is taken from `base` as it was written: it names what the written one names from
there, and a side that does not depend on `base` is left alone. -/
structure Pair.TakenFrom (base : Path) (taken written : Pair) : Prop where
  sameAs : taken.sameAs (written.resolve base) = true
  on_eq : ∀ side, (written.on side).isAbsolute = true → taken.on side = written.on side

theorem Pair.takenFrom_resolve {base other : Path} (h : other.sameAs base = true) (pair : Pair) :
    Pair.TakenFrom base (pair.resolve other) pair where
  sameAs := by
    rw [sameAs, Bool.and_eq_true]
    exact ⟨Path.sameAs_join h pair.source, Path.sameAs_join h pair.destination⟩
  on_eq side habs := by
    cases side with
    | source => exact Path.join_of_isAbsolute habs
    | destination => exact Path.join_of_isAbsolute habs

end TreePlan

namespace TreePlan.Config

/-- The directory of the file with the configuration is the one that the file is looked for in, but
for what makes no difference. -/
theorem directory_pathIn (dir : Path) : (pathIn dir).directory.sameAs dir = true := by
  rw [Path.sameAs_iff]
  by_cases hdir : dir.bytes = []
  · rw [show dir = ⟨[]⟩ from congrArg Path.mk hdir]
    decide +kernel
  · have hname : fileName.components = (.here, [fileName.bytes]) := by decide +kernel
    have hpath : (pathIn dir).components =
        (dir.components.1, dir.components.2 ++ [fileName.bytes]) := by
      rw [pathIn, Path.components_join hdir (by decide +kernel), hname]
    rw [Path.components_directory (by simp [hpath]), hpath, List.dropLast_concat]

section
variable {m : Type → Type} [Monad m] [LawfulMonad m] {files : Files m} {path : Path}

theorem load_of_present {contents : Bytes} (hpresent : files.present path = pure true)
    (hcontents : files.contents path = pure (.ok contents)) :
    load files path = pure (ofContents path contents >>= anchored path) := by
  simp [load, hpresent, hcontents]

theorem loadOrBuiltIn_of_present {dir : Path} (hpresent : files.present (pathIn dir) = pure true) :
    loadOrBuiltIn files dir = load files (pathIn dir) := by
  simp [loadOrBuiltIn, hpresent]

end

/-- **The pairs of a configuration are anchored at its directory, and none is lost.** Where the file
in a directory can be read and says a configuration, loading fails for the lack of pairs exactly if
there are none. If there are, the wording comes back as it was written, and so do the pairs, one by
one, each taken from the directory that was asked for. -/
theorem loaded_pairs_anchored {m : Type → Type} [Monad m] [LawfulMonad m] (files : Files m)
    (dir : Path) (contents : Bytes) (raw : Config)
    (hpresent : files.present (pathIn dir) = pure true)
    (hcontents : files.contents (pathIn dir) = pure (.ok contents))
    (hraw : ofContents (pathIn dir) contents = .ok raw) :
    ∃ result, loadOrBuiltIn files dir = pure result ∧
      (∀ path, result = .error (.noPairs path) ↔ raw.pairs = [] ∧ path = pathIn dir) ∧
      (raw.pairs ≠ [] → ∃ config, result = .ok config ∧
        config.commitMessage = raw.commitMessage ∧ config.metadataNames = raw.metadataNames ∧
        List.Forall₂ (Pair.TakenFrom dir) config.pairs raw.pairs) := by
  have hload : loadOrBuiltIn files dir = pure (anchored (pathIn dir) raw) := by
    rw [loadOrBuiltIn_of_present hpresent, load_of_present hpresent hcontents, hraw]
    rfl
  refine ⟨_, hload, ?_, ?_⟩
  · intro path
    by_cases hnil : raw.pairs = []
    · simp [anchored, hnil, eq_comm]
    · simp [anchored, hnil]
  · intro hne
    refine ⟨raw.resolve (pathIn dir).directory, if_neg hne, rfl, rfl, ?_⟩
    rw [resolve, List.forall₂_map_left_iff, List.forall₂_same]
    exact fun pair _ => Pair.takenFrom_resolve (directory_pathIn dir) pair

/-- A directory that is written with more than it needs, and one pair with an absolute side. -/
theorem loaded_pairs_anchored_dotted :
    let dir := Path.ofString "a/.//"
    let contents := Bytes.ofString "pairs:\n  - source: s\n    destination: /d\n"
    let files : Files Id := ⟨fun _ => true, fun _ => .ok contents⟩
    let written : Pair := ⟨.ofString "s", .ofString "/d"⟩
    written.resolve dir = ⟨.ofString "a/.//s", .ofString "/d"⟩ ∧
      ∃ config, loadOrBuiltIn files dir = .ok config ∧
        config.pairs = [⟨.ofString "a/s", .ofString "/d"⟩] ∧
        List.Forall₂ (Pair.TakenFrom dir) config.pairs [written] := by
  intro dir contents files written
  have hraw : ofContents (pathIn dir) contents = .ok { pairs := [written] } := by decide +kernel
  obtain ⟨result, hload, -, hok⟩ := loaded_pairs_anchored files dir contents _ rfl rfl hraw
  obtain ⟨config, rfl, -, -, hpairs⟩ := hok (List.cons_ne_nil _ _)
  have hconfig : (loadOrBuiltIn files dir).run =
      .ok { pairs := [⟨.ofString "a/s", .ofString "/d"⟩] } := by decide +kernel
  have hpair : config.pairs = [⟨.ofString "a/s", .ofString "/d"⟩] :=
    congrArg Config.pairs (Except.ok.inj (hload.symm.trans hconfig))
  exact ⟨by decide +kernel, config, hload, hpair, hpairs⟩

end TreePlan.Config
