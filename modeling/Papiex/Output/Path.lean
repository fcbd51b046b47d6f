import Papiex.Caliper.Record
import Papiex.Lib.FirstFree
import Papiex.Lib.Chars

/-!
# Output paths

Where a process that is not an MPI task writes its counts.  The base path is
made sure not to exist, by counting instances up or, for a file the user named,
generations.  A threaded process writes into the directory of that name (a file
for each thread and, in classic mode, a summary of the process), an unthreaded one
into the file that has `.txt` appended.

## Main results

* `setBaseOutputPath`: the first candidate that `getNextGen` and the user's choice leave.
* `writtenPaths`: all paths that a run unlinks and opens.
* `destroysNothing_iff`: when none of them was there before.

## Design notes

The search for a base path has no bound in the source; it takes a fuel, and the result does
not depend on how much.  A path is compared as a text and cut where `snprintf` cuts it.
The condition names the candidate that is taken, which is a function of the state of the
directory before the run, and asks for its namesake with `.txt`.
-/

namespace Papiex

open Chars

/-- `PATH_MAX`. -/
def pathMax : ℕ := 4096

/-- What `stat` says of a path. -/
inductive Lookup where
  | found
  | enoent
  | otherError
  deriving DecidableEq

/-- A state of the file system: the answers of `stat`.  What lies in a directory is
found only if the directory is, and a path too long for the system never comes
back as `ENOENT`. -/
structure FileSystem where
  lookup : Text → Lookup
  found_parent : ∀ dir name, dir ≠ [] → lookup (dir ++ '/' :: name) = .found →
    lookup dir = .found
  enoent_short : ∀ path, lookup path = .enoent → path.length < pathMax

/-- The path existed before the run. -/
def FileSystem.Existed (fs : FileSystem) (path : Text) : Prop := fs.lookup path = .found

/-- The setting of `-o`, `-p` and `-f`, which exclude each other. -/
inductive OutputOption where
  | default
  | file (path : Text)
  | pathPrefix (text : Text)
  | dir (path : Text)

/-- `user_path_prefix` for the setting. -/
def OutputOption.userPathPrefix : OutputOption → Text
  | .default => []
  | .file _ => []
  | .pathPrefix text => text
  | .dir path => if path = [] then [] else path ++ ['/']

/-- `output_file_name` for the setting; an empty name is ignored. -/
def OutputOption.outputFileName : OutputOption → Option Text
  | .default => none
  | .file path => if path = [] then none else some path
  | .pathPrefix _ => none
  | .dir _ => none

/-- What the paths depend on. -/
structure OutputRequest where
  option : OutputOption
  processName : Text
  hostname : Text
  pid : ℕ
  papiexThreaded : Bool
  papiexNextgen : Bool
  noSummaryStats : Bool
  noWrite : Bool
  nthreads : ℕ
  nthreads_pos : 0 < nthreads

/-- `suffix`. -/
def suffix : Text := ".txt".toList

/-- `strtok(hostname, ".")` when the host name has a dot; a name of dots only gives
the null pointer. -/
def shortHost (hostname : Text) : Text :=
  if '.' ∈ hostname then
    match (hostname.dropWhile (· = '.')).takeWhile (· ≠ '.') with
    | [] => "(null)".toList
    | host => host
  else hostname

/-- The candidate for an instance, which `snprintf` cuts off at `PATH_MAX`. -/
def instancePath (req : OutputRequest) (inst : ℕ) : Text :=
  (req.option.userPathPrefix ++ req.processName ++ ".papiex.".toList ++
    shortHost req.hostname ++ ['.'] ++ decimal req.pid ++ ['.'] ++
    decimal inst).take (pathMax - 1)

/-- The candidate for a generation of the file the user named; generation 0 is the
file itself. -/
def generationPath (path : Text) (gen : ℕ) : Text :=
  if gen = 0 then path else path ++ ['.'] ++ decimal gen

/-- `get_next_gen`. -/
def getNextGen (fs : FileSystem) (fuel : ℕ) (path : Text) : Option ℕ :=
  if fs.lookup path = .enoent then some 0
  else FirstFree.search (fun inst => fs.lookup (path ++ ['.'] ++ decimal inst) = .enoent) fuel 1

/-- `set_base_output_path`: nothing while its search goes on. -/
def setBaseOutputPath (fs : FileSystem) (fuel : ℕ) (req : OutputRequest) : Option Text :=
  match req.option.outputFileName with
  | some path =>
      (getNextGen fs fuel path).map fun gen =>
        if gen = 0 then path.take pathMax else path ++ ['.'] ++ decimal gen
  | none =>
      (FirstFree.search (fun inst => fs.lookup (instancePath req inst) ≠ .found) fuel 1).map
        (instancePath req)

/-- `get_thread_output_path`. -/
def getThreadOutputPath (procOutputPath : Text) (threadId : ℕ) : Text :=
  (procOutputPath ++ "/thread_".toList ++ decimal threadId ++ suffix).take (pathMax - 1)

/-- The files of the threads, one for each; an unthreaded process has a single file. -/
def threadFiles (base : Text) (req : OutputRequest) : List Text :=
  (List.range req.nthreads).map fun i =>
    if req.papiexThreaded then getThreadOutputPath base i else base ++ suffix

/-- The process file, which is not reached by a nextgen run, by an unthreaded process
and without summary statistics. -/
def summaryFiles (base : Text) (req : OutputRequest) : List Text :=
  if req.papiexThreaded && !req.papiexNextgen && !req.noSummaryStats then
    [base ++ "/process_summary.txt".toList]
  else []

/-- The paths `print_process_stats` unlinks and opens for writing: the files of the
threads, and after the statistics the process file. -/
def writtenPaths (fs : FileSystem) (fuel : ℕ) (req : OutputRequest) : Option (List Text) :=
  (setBaseOutputPath fs fuel req).map fun base =>
    if req.noWrite then [] else threadFiles base req ++ summaryFiles base req

/-- However long the search for a base path takes, no path that is written existed
before the run. -/
def DestroysNothing (fs : FileSystem) (req : OutputRequest) : Prop :=
  ∀ fuel paths, writtenPaths fs fuel req = some paths → ∀ path ∈ paths, ¬ fs.Existed path

/-! ## The base path is the first free candidate -/

/-- The candidates for the base path, in the order they are tried. -/
def candidate (req : OutputRequest) (n : ℕ) : Text :=
  match req.option.outputFileName with
  | some path => generationPath path n
  | none => instancePath req (n + 1)

/-- A candidate that is taken as the base path when it is reached. -/
def acceptable (fs : FileSystem) (req : OutputRequest) (n : ℕ) : Bool :=
  match req.option.outputFileName with
  | some _ => fs.lookup (candidate req n) = .enoent
  | none => fs.lookup (candidate req n) ≠ .found

section Base

variable {fs : FileSystem} {req : OutputRequest} {base : Text} {fuel n : ℕ}

/-- Counting from 1 tries the candidates from the first on. -/
theorem isFirst_succ (free : ℕ → Bool) {n : ℕ} :
    FirstFree.IsFirst (fun m => free (m + 1)) 0 n ↔ FirstFree.IsFirst free 1 (n + 1) := by
  constructor
  · intro h
    refine ⟨by omega, h.isFree, fun m hle hlt => ?_⟩
    obtain ⟨k, rfl⟩ := Nat.exists_eq_add_of_le' hle
    exact h.taken k (Nat.zero_le k) (by omega)
  · intro h
    exact ⟨Nat.zero_le n, h.isFree, fun m _ hlt => h.taken (m + 1) (by omega) (by omega)⟩

theorem exists_getNextGen_iff {path : Text} {gen : ℕ} :
    (∃ fuel, getNextGen fs fuel path = some gen) ↔
      FirstFree.IsFirst (fun n => fs.lookup (generationPath path n) = .enoent) 0 gen := by
  unfold getNextGen
  by_cases hfree : fs.lookup path = .enoent
  · simp only [hfree, if_true, exists_const, Option.some.injEq]
    constructor
    · rintro rfl
      exact ⟨le_rfl, by simpa [generationPath] using hfree, fun m _ hlt => absurd hlt (by omega)⟩
    · intro hfirst
      by_contra hne
      have htaken := hfirst.taken 0 le_rfl (by omega)
      simp [generationPath, hfree] at htaken
  · simp only [hfree, if_false]
    rw [FirstFree.exists_search_iff]
    constructor
    · intro h
      obtain ⟨k, rfl⟩ := Nat.exists_eq_add_of_le' h.le
      refine ⟨Nat.zero_le _, by simpa [generationPath] using h.isFree, fun m _ hlt => ?_⟩
      by_cases hzero : m = 0
      · simpa [generationPath, hzero] using hfree
      · simpa [generationPath, hzero] using h.taken m (by omega) hlt
    · intro h
      have hpos : gen ≠ 0 := by
        rintro rfl
        exact hfree (by simpa [generationPath] using h.isFree)
      refine ⟨by omega, by simpa [generationPath, hpos] using h.isFree, fun m hle hlt => ?_⟩
      have hm : m ≠ 0 := by omega
      simpa [generationPath, hm] using h.taken m (Nat.zero_le m) hlt

/-- **The base path is the first acceptable candidate.** -/
theorem exists_setBaseOutputPath_iff :
    (∃ fuel, setBaseOutputPath fs fuel req = some base) ↔
      ∃ n, FirstFree.IsFirst (acceptable fs req) 0 n ∧ candidate req n = base := by
  cases hfile : req.option.outputFileName with
  | none =>
      have hcandidate : ∀ n, candidate req n = instancePath req (n + 1) := by
        intro n
        simp [candidate, hfile]
      let free : ℕ → Bool := fun inst => fs.lookup (instancePath req inst) ≠ .found
      have haccept : acceptable fs req = fun n => free (n + 1) := by
        funext n
        simp [acceptable, hfile, hcandidate, free]
      simp only [setBaseOutputPath, hfile, haccept, Option.map_eq_some_iff, hcandidate]
      constructor
      · rintro ⟨fuel, inst, hsearch, rfl⟩
        have hfirst := FirstFree.isFirst_of_search hsearch
        obtain ⟨n, rfl⟩ := Nat.exists_eq_add_of_le' hfirst.le
        exact ⟨n, (isFirst_succ free).mpr hfirst, rfl⟩
      · rintro ⟨n, hfirst, rfl⟩
        obtain ⟨fuel, hsearch⟩ := FirstFree.exists_search_iff.mpr ((isFirst_succ free).mp hfirst)
        exact ⟨fuel, n + 1, hsearch, rfl⟩
  | some path =>
      have hcandidate : ∀ n, candidate req n = generationPath path n := by
        intro n
        simp [candidate, hfile]
      have haccept : acceptable fs req =
          fun n => fs.lookup (generationPath path n) = .enoent := by
        funext n
        simp [acceptable, hfile, hcandidate]
      -- a free path fits into the buffer
      have hpath : ∀ gen, fs.lookup (generationPath path gen) = .enoent →
          (if gen = 0 then path.take pathMax else path ++ ['.'] ++ decimal gen) =
            generationPath path gen := by
        intro gen hfree
        by_cases hzero : gen = 0
        · have hshort := fs.enoent_short _ hfree
          simp only [generationPath, hzero, if_true] at hshort ⊢
          exact List.take_of_length_le hshort.le
        · simp [generationPath, hzero]
      simp only [setBaseOutputPath, hfile, haccept, Option.map_eq_some_iff, hcandidate]
      constructor
      · rintro ⟨fuel, gen, hgen, rfl⟩
        have hfirst := exists_getNextGen_iff.mp ⟨fuel, hgen⟩
        exact ⟨gen, hfirst, (hpath gen (by simpa using hfirst.isFree)).symm⟩
      · rintro ⟨n, hfirst, rfl⟩
        obtain ⟨fuel, hgen⟩ := exists_getNextGen_iff.mpr hfirst
        exact ⟨fuel, n, hgen, hpath n (by simpa using hfirst.isFree)⟩

/-- The chosen base path did not exist. -/
theorem not_existed_of_acceptable (h : acceptable fs req n = true) :
    ¬ fs.Existed (candidate req n) := by
  unfold acceptable at h
  unfold FileSystem.Existed
  split at h
  · have hfree : fs.lookup (candidate req n) = .enoent := by simpa using h
    rw [hfree]
    simp
  · simpa using h

theorem instancePath_ne_nil (req : OutputRequest) (inst : ℕ) : instancePath req inst ≠ [] := by
  intro hnil
  have hlen : (instancePath req inst).length = 0 := List.length_eq_zero_iff.mpr hnil
  have hpositive : 0 < pathMax - 1 := by decide
  simp only [instancePath, List.length_take, List.length_append] at hlen
  have hdot : (['.'] : Text).length = 1 := rfl
  omega

theorem candidate_ne_nil (req : OutputRequest) (n : ℕ) : candidate req n ≠ [] := by
  unfold candidate
  cases hfile : req.option.outputFileName with
  | none => exact instancePath_ne_nil req (n + 1)
  | some path =>
      have hpath : path ≠ [] := by
        cases hoption : req.option with
        | file given =>
            rw [hoption] at hfile
            by_cases hempty : given = []
            · simp [OutputOption.outputFileName, hempty] at hfile
            · simp only [OutputOption.outputFileName, hempty, if_false] at hfile
              exact Option.some.inj hfile ▸ hempty
        | default => simp [hoption, OutputOption.outputFileName] at hfile
        | pathPrefix text => simp [hoption, OutputOption.outputFileName] at hfile
        | dir path => simp [hoption, OutputOption.outputFileName] at hfile
      show generationPath path n ≠ []
      unfold generationPath
      split
      · exact hpath
      · simp

theorem candidate_length (h : acceptable fs req n = true) :
    (candidate req n).length ≤ pathMax - 1 := by
  unfold acceptable at h
  cases hfile : req.option.outputFileName with
  | none =>
      simp only [candidate, hfile, instancePath]
      exact List.length_take_le _ _
  | some path =>
      rw [hfile] at h
      have hshort := fs.enoent_short (candidate req n) (by simpa using h)
      omega

end Base

/-! ## What is written -/

/-- The file of a thread lies in the base path, or is the base path itself when
nothing more fits into the buffer. -/
theorem not_existed_getThreadOutputPath {fs : FileSystem} {base : Text} (hne : base ≠ [])
    (hlen : base.length ≤ pathMax - 1) (hbase : ¬ fs.Existed base) (i : ℕ) :
    ¬ fs.Existed (getThreadOutputPath base i) := by
  have hslash : "/thread_".toList = '/' :: "thread_".toList := rfl
  unfold getThreadOutputPath
  rw [hslash, List.append_assoc, List.append_assoc, List.cons_append, List.take_append,
    List.take_of_length_le hlen]
  cases hroom : pathMax - 1 - base.length with
  | zero => simpa using hbase
  | succ room =>
      rw [List.take_succ_cons]
      exact fun hfound => hbase (fs.found_parent base _ hne hfound)

/-- The process file lies in the base path. -/
theorem not_existed_summaryFiles {fs : FileSystem} {base path : Text} {req : OutputRequest}
    (hne : base ≠ []) (hbase : ¬ fs.Existed base) (hpath : path ∈ summaryFiles base req) :
    ¬ fs.Existed path := by
  unfold summaryFiles at hpath
  split at hpath
  · obtain rfl := List.mem_singleton.mp hpath
    exact fun hfound => hbase (fs.found_parent base "process_summary.txt".toList hne hfound)
  · cases hpath

/-- The files of the threads are new when the process is threaded or the file with
`.txt` appended is. -/
theorem not_existed_threadFiles {fs : FileSystem} {base path : Text} {req : OutputRequest}
    (hne : base ≠ []) (hlen : base.length ≤ pathMax - 1) (hbase : ¬ fs.Existed base)
    (htext : req.papiexThreaded = true ∨ ¬ fs.Existed (base ++ suffix))
    (hpath : path ∈ threadFiles base req) : ¬ fs.Existed path := by
  obtain ⟨i, -, rfl⟩ := List.mem_map.mp hpath
  split
  · exact not_existed_getThreadOutputPath hne hlen hbase i
  · exact htext.resolve_left (by assumption)

/-- The first candidate that is acceptable, all earlier ones being taken, has no
namesake with `.txt` appended. -/
def TextFileFree (fs : FileSystem) (req : OutputRequest) : Prop :=
  ∀ n, acceptable fs req n = true → (∀ m < n, acceptable fs req m = false) →
    ¬ fs.Existed (candidate req n ++ suffix)

/-- **When a run destroys nothing.**  For every state of the file system and every
request, no path that is written existed before the run if and only if nothing is
written, or the process is threaded, or the first acceptable candidate for the
base path with `.txt` appended did not exist. -/
theorem destroysNothing_iff (fs : FileSystem) (req : OutputRequest) :
    DestroysNothing fs req ↔
      req.noWrite = true ∨ req.papiexThreaded = true ∨ TextFileFree fs req := by
  constructor
  · intro h
    by_cases hwrite : req.noWrite = true
    · exact .inl hwrite
    by_cases hthreaded : req.papiexThreaded = true
    · exact .inr (.inl hthreaded)
    refine .inr (.inr fun n haccept hearlier => ?_)
    have hfirst : FirstFree.IsFirst (acceptable fs req) 0 n :=
      ⟨Nat.zero_le n, haccept, fun m _ hlt => hearlier m hlt⟩
    obtain ⟨fuel, hbase⟩ := exists_setBaseOutputPath_iff.mpr ⟨n, hfirst, rfl⟩
    have hwritten : writtenPaths fs fuel req =
        some (threadFiles (candidate req n) req ++ summaryFiles (candidate req n) req) := by
      simp [writtenPaths, hbase, hwrite]
    refine h fuel _ hwritten _ ?_
    refine List.mem_append_left _ (List.mem_map.mpr ⟨0, List.mem_range.mpr req.nthreads_pos, ?_⟩)
    rw [if_neg hthreaded]
  · intro h fuel paths hwritten path hpath
    obtain ⟨base, hbase, rfl⟩ := Option.map_eq_some_iff.mp hwritten
    obtain ⟨n, hfirst, rfl⟩ := exists_setBaseOutputPath_iff.mp ⟨fuel, hbase⟩
    have hnew := not_existed_of_acceptable hfirst.isFree
    by_cases hwrite : req.noWrite = true
    · simp [hwrite] at hpath
    rw [if_neg hwrite] at hpath
    rcases List.mem_append.mp hpath with hthread | hsummary
    · refine not_existed_threadFiles (candidate_ne_nil req n) (candidate_length hfirst.isFree)
        hnew ?_ hthread
      exact (h.resolve_left hwrite).imp_right fun htext =>
        htext n hfirst.isFree fun m hlt => hfirst.taken m (Nat.zero_le m) hlt
    · exact not_existed_summaryFiles (candidate_ne_nil req n) hnew hsummary

/-! ### The second run with the same file -/

/-- A directory with one file. -/
def oneFile (file : Text) (hslash : '/' ∉ file) : FileSystem where
  lookup path :=
    if path = file then .found else if path.length < pathMax then .enoent else .otherError
  found_parent dir name _ h := by
    have hfile : dir ++ '/' :: name = file := by
      by_contra hne
      rw [if_neg hne] at h
      split at h <;> cases h
    exact absurd (hfile ▸ by simp) hslash
  enoent_short path h := by
    split at h
    · cases h
    · split at h
      · assumption
      · cases h

/-- An unthreaded process that was started with `-o out`. -/
def outRequest : OutputRequest where
  option := .file "out".toList
  processName := "a.out".toList
  hostname := "node1".toList
  pid := 4242
  papiexThreaded := false
  papiexNextgen := true
  noSummaryStats := false
  noWrite := false
  nthreads := 1
  nthreads_pos := Nat.one_pos

/-- **The second run destroys the counts of the first.**  A run with `-o out` left
`out.txt` behind; `out` itself does not exist, so the next run takes it as its
base path and writes `out.txt` again. -/
theorem destroysNothing_second_run :
    writtenPaths (oneFile "out.txt".toList (by decide)) 1 outRequest = some ["out.txt".toList] ∧
      ¬ DestroysNothing (oneFile "out.txt".toList (by decide)) outRequest := by
  have hwritten : writtenPaths (oneFile "out.txt".toList (by decide)) 1 outRequest =
      some ["out.txt".toList] := by rfl
  refine ⟨hwritten, fun h => ?_⟩
  exact h 1 _ hwritten "out.txt".toList (by simp) (by rfl)

end Papiex
