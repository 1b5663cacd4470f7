/-
Loading readable files.

When every path of some lists can be read, what they are loaded to depends on their texts only.
All lists are loaded into one set, which grows by the rules of each.  Where errors are passed
over, all lists are loaded.  Where they are not, loading ends at the first error of the first
list that has one, and if there is none the set and the counts are the same.
-/
import UrlFilter.Command.Check
import UrlFilter.Proofs.FilterList.Joined
import UrlFilter.Proofs.RuleSet.Load
import Mathlib.Algebra.GroupWithZero.Nat

namespace UrlFilter

theorem decodeText_toByteArray (text : String) : decodeText text.toByteArray = .ok text := by
  rw [decodeText, String.fromUTF8?, dif_pos text.isValidUTF8]
  rfl

namespace Surroundings

/-- Some paths can be read one after the other, and lead to some texts. -/
inductive Reads : Surroundings → List String → List String → Prop
  | nil (surroundings : Surroundings) : Reads surroundings [] []
  | cons {surroundings : Surroundings} {path text : String} {paths texts : List String} :
      surroundings.readFile path = .ok text →
      Reads (surroundings.afterFile path) paths texts →
      Reads surroundings (path :: paths) (text :: texts)

/-- Paths of files that hold texts can be read, since files are not used up. -/
theorem reads_of_files {surroundings : Surroundings} {files : List (String × String)}
    (hfiles : ∀ file ∈ files,
      surroundings.source file.1 = .ok (.file file.2.toByteArray)) :
    surroundings.Reads (files.map Prod.fst) (files.map Prod.snd) := by
  induction files with
  | nil => exact .nil surroundings
  | cons file files ih =>
      obtain ⟨hfile, hrest⟩ := List.forall_mem_cons.1 hfiles
      refine .cons ?_ ?_
      · rw [readFile, hfile]
        exact decodeText_toByteArray file.2
      · rw [afterFile_of_file hfile]
        exact ih hrest

end Surroundings

/-- The counts of a list tell where each of its lines went. -/
theorem FilterList.tally_ofOutcomes (text : String) :
    (ListStats.ofOutcomes (outcomes text)).Tally (lines text) := by
  obtain ⟨events, hpass⟩ := exists_pass_skip_ofOutcomes [] [] (lines text)
  exact (isAfter_of_pass (Progress.isAfter_start (.empty .inert)) hpass).tally

namespace LoadedList

/-- The counts of the list that a text is loaded to when its errors are passed over. -/
def ofText (path text : String) : LoadedList :=
  ⟨path, ListStats.ofOutcomes (FilterList.outcomes text)⟩

/-- The counts of the lists that some texts are loaded to. -/
def ofTexts (paths texts : List String) : List LoadedList :=
  List.zipWith ofText paths texts

/-- The errors of some lists in order, each with the path of its list. -/
def errorsOf (lists : List LoadedList) : List (String × CompileError) :=
  lists.flatMap fun list => list.stats.errors.map (list.path, ·)

theorem errorsOf_ofTexts_cons (path text : String) (paths texts : List String) :
    errorsOf (ofTexts (path :: paths) (text :: texts)) =
      (FilterList.errors text).map (path, ·) ++ errorsOf (ofTexts paths texts) :=
  List.flatMap_cons

end LoadedList

section Loading

variable {surroundings : Surroundings} {path text : String} (set : RuleSet)

theorem loadFile_skip (hread : surroundings.readFile path = .ok text) :
    (loadFile surroundings .skip set path).2 =
      .ok (set.append (FilterList.rules text), .ofText path text) := by
  rw [loadFile, hread]
  dsimp only
  rw [RuleSet.load_skip]
  rfl

theorem loadFile_abort (hread : surroundings.readFile path = .ok text) :
    (loadFile surroundings .abort set path).2 =
      match (FilterList.errors text).head? with
      | some error => .error (.invalidList path error)
      | none => .ok (set.append (FilterList.rules text), .ofText path text) := by
  rw [loadFile, hread]
  dsimp only
  rw [RuleSet.load_abort]
  cases (FilterList.errors text).head? with
  | some error => rfl
  | none =>
      dsimp only
      rw [RuleSet.load_skip]
      rfl

/-- The first list is loaded before the others, and these into the set that it leaves. -/
theorem loadEach_cons (surroundings : Surroundings) (policy : Policy) (path : String)
    (rest : List String) :
    (loadEach surroundings policy set (path :: rest)).2 =
      match (loadFile surroundings policy set path).2 with
      | .error error => .error error
      | .ok (set, list) =>
          (loadEach (surroundings.afterFile path) policy set rest).2.map
            fun (set, lists) => (set, list :: lists) := by
  rw [loadEach]
  rcases loadFile surroundings policy set path with ⟨events, _ | ⟨set, list⟩⟩ <;> rfl

variable {paths texts : List String}

theorem loadEach_skip (hreads : surroundings.Reads paths texts) :
    (loadEach surroundings .skip set paths).2 =
      .ok (set.append (texts.flatMap FilterList.rules), LoadedList.ofTexts paths texts) := by
  induction hreads generalizing set with
  | nil => exact congrArg (fun set => Except.ok (set, [])) set.append_nil.symm
  | cons hread _ ih =>
      rw [loadEach_cons, loadFile_skip set hread]
      dsimp only
      rw [ih, RuleSet.append_append]
      rfl

theorem loadEach_abort (hreads : surroundings.Reads paths texts) :
    (loadEach surroundings .abort set paths).2 =
      match (LoadedList.errorsOf (LoadedList.ofTexts paths texts)).head? with
      | some (path, error) => .error (.invalidList path error)
      | none => (loadEach surroundings .skip set paths).2 := by
  induction hreads generalizing set with
  | nil => rfl
  | @cons _ path text _ _ hread _ ih =>
      rw [loadEach_cons, loadEach_cons, loadFile_skip set hread, loadFile_abort set hread,
        LoadedList.errorsOf_ofTexts_cons]
      cases FilterList.errors text with
      | cons error errors => rfl
      | nil =>
          dsimp only [List.head?_nil]
          rw [List.map_nil, List.nil_append, ih]
          rcases (LoadedList.errorsOf _).head? with _ | ⟨path, error⟩ <;> rfl

/-- Readable lists are reported by their paths. -/
theorem Surroundings.Reads.map_path (hreads : surroundings.Reads paths texts) :
    (LoadedList.ofTexts paths texts).map LoadedList.path = paths := by
  induction hreads with
  | nil => rfl
  | cons _ _ ih => exact congrArg (_ :: ·) ih

/-- The counts of readable lists are those of their texts. -/
theorem Surroundings.Reads.forall₂_stats (hreads : surroundings.Reads paths texts) :
    List.Forall₂ (fun list text => (set.load .skip text).2 = .ok list.stats)
      (LoadedList.ofTexts paths texts) texts := by
  induction hreads with
  | nil => exact .nil
  | cons _ _ ih => exact .cons (congrArg Prod.snd (set.load_skip _)) ih

theorem Surroundings.Reads.sum_rules (hreads : surroundings.Reads paths texts) :
    ((LoadedList.ofTexts paths texts).map fun list => list.stats.rules).sum =
      (texts.flatMap FilterList.rules).length := by
  induction hreads with
  | nil => rfl
  | cons _ _ ih =>
      rw [List.flatMap_cons, List.length_append, ← ih]
      rfl

theorem Surroundings.Reads.map_error (hreads : surroundings.Reads paths texts) :
    (LoadedList.errorsOf (LoadedList.ofTexts paths texts)).map Prod.snd =
      texts.flatMap FilterList.errors := by
  induction hreads with
  | nil => rfl
  | cons _ _ ih =>
      rw [LoadedList.errorsOf_ofTexts_cons, List.map_append, ih, List.map_map]
      exact congrArg (· ++ _) (List.map_id _)

section Some

variable (hreads : surroundings.Reads paths texts) (hne : paths ≠ [])
include hne

/-- With a list there is something to load. -/
theorem loadFiles_eq_loadEach (policy : Policy) :
    loadFiles surroundings policy set paths = loadEach surroundings policy set paths := by
  rw [loadFiles, if_neg (by simpa using hne)]

include hreads

theorem loadFiles_skip :
    loadFiles surroundings .skip set paths = ((loadFiles surroundings .skip set paths).1,
      .ok (set.append (texts.flatMap FilterList.rules), LoadedList.ofTexts paths texts)) := by
  refine Prod.ext rfl ?_
  rw [loadFiles_eq_loadEach set hne, loadEach_skip set hreads]

/-- Under `abort` the lists fail with the first of their errors. -/
theorem loadFiles_abort_of_error {path : String} {error : CompileError}
    (herror : (LoadedList.errorsOf (LoadedList.ofTexts paths texts)).head? = some (path, error)) :
    loadFiles surroundings .abort set paths = ((loadFiles surroundings .abort set paths).1,
      .error (.invalidList path error)) := by
  refine Prod.ext rfl ?_
  rw [loadFiles_eq_loadEach set hne, loadEach_abort set hreads, herror]

theorem loadFiles_abort_of_no_errors
    (hvalid : LoadedList.errorsOf (LoadedList.ofTexts paths texts) = []) :
    loadFiles surroundings .abort set paths = ((loadFiles surroundings .abort set paths).1,
      .ok (set.append (texts.flatMap FilterList.rules), LoadedList.ofTexts paths texts)) := by
  refine Prod.ext rfl ?_
  rw [loadFiles_eq_loadEach set hne, loadEach_abort set hreads, hvalid,
    loadEach_skip set hreads]
  rfl

end Some

end Loading

end UrlFilter
