import Papiex.Mpi.Ranks

/-!
# The base path of an MPI job

Rank 0 leaves its base path in the container file, and the other ranks read it
there.  They wait for the file to exist, not for the path to be in it, and they
read one word.  So they all get the path of rank 0 if they open the file that rank 0
created, read it when rank 0 has closed it, and there is no white space in the path.

## Main results

* `PathInvariant.step`: what the ranks know of the path.
* `has_base_path_iff`: when all of them get it.

## Design notes

The condition on the schedule is one on single steps: a rank that opens an older container, or
that reads the new one before rank 0 has closed it, takes its step at the wrong time.  In a
run without such steps a rank that has read the container has the path exactly if there is
no white space in it.
-/

namespace Papiex

open Chars Interleaving

/-- Rank 0 writes to the container. -/
def MpiPc.Publishing : MpiPc → Prop
  | .createContainer | .writeContainer | .closeContainer => True
  | _ => False

/-- Another rank is through with the container. -/
def MpiRank.hasRead (me : MpiRank) : Bool :=
  match me.pc with
  | .finiMpi | .pollContainer | .openContainer | .readContainer _ => false
  | .shutdown => me.calledProcessShutdown
  | _ => true

/-- Rank 0 has closed the container. -/
def MpiRank.Published (me : MpiRank) : Prop := me.pc.beforeShutdown = false

instance (me : MpiRank) : Decidable me.Published := inferInstanceAs (Decidable (_ = _))

/-! ## The candidates for the path -/

/-- What the instances of the base path have in common, as far as it fits into
`PATH_MAX`. -/
def MpiJob.stem (job : MpiJob) : Text :=
  (job.request.option.userPathPrefix ++ job.request.processName ++ ".papiex.".toList ++
    shortHost job.request.hostname).take (pathMax - 1)

/-- No white space is in the prefix, the process name and the host name, as far as they
fit into `PATH_MAX`. -/
def MpiJob.NoBlank (job : MpiJob) : Prop := ∀ c ∈ job.stem, isspace c = false

/-- The numbers at the end of an instance have no white space. -/
theorem forall_instancePath_iff (job : MpiJob) (inst : ℕ) :
    (∀ c ∈ job.instancePath inst, isspace c = false) ↔ job.NoBlank := by
  have hnumbers : ∀ c ∈ ['.'] ++ decimal job.request.pid ++ ['.'] ++ decimal inst,
      isspace c = false := by
    simp only [List.mem_append, List.mem_singleton]
    rintro c (((rfl | hpid) | rfl) | hinst)
    · rfl
    · exact isspace_of_isDigit (isDigit_of_mem_decimal hpid)
    · rfl
    · exact isspace_of_isDigit (isDigit_of_mem_decimal hinst)
  have hpath : job.instancePath inst = ((job.request.option.userPathPrefix ++
      job.request.processName ++ ".papiex.".toList ++ shortHost job.request.hostname) ++
      (['.'] ++ decimal job.request.pid ++ ['.'] ++ decimal inst)).take (pathMax - 1) := by
    simp only [MpiJob.instancePath, instancePath, List.append_assoc]
  rw [hpath, List.take_append, List.forall_mem_append]
  exact and_iff_left fun c hc => hnumbers c (List.mem_of_mem_take hc)

/-! ## What a step does to the paths -/

section Step

variable {job : MpiJob} {rank : ℕ} {me : MpiRank} {files : MpiFiles}

/-- Only the task that publishes the path changes the file. -/
theorem act_contents (h : ¬ me.pc.Publishing) :
    (job.act rank me files).2.contents = files.contents := by
  have hstep := job.step_act rank me files
  generalize job.act rank me files = result at hstep ⊢
  cases hstep with
  | creates hpc | writes hpc | closes hpc => exact absurd (by rw [hpc]; trivial) h
  | _ => rfl

/-- The path of rank 0 is an instance. -/
theorem instance_act (h : RankInvariant job 0 me files)
    (hinstance : me.Chosen → ∃ inst, me.basePath = job.instancePath inst)
    (hchosen : (job.act 0 me files).1.Chosen) :
    ∃ inst, (job.act 0 me files).1.basePath = job.instancePath inst := by
  have hstep := job.step_act 0 me files
  generalize job.act 0 me files = result at hstep hchosen ⊢
  cases hstep with
  | chooses | taken => cases hchosen
  | @free inst => exact ⟨inst, rfl⟩
  | follows hpc hother => exact absurd rfl hother
  | reads hpc => exact absurd rfl (h.reading (by rw [hpc]; trivial))
  | stays => exact hinstance hchosen
  | _ => exact hinstance (by simp_all [MpiRank.Chosen])

/-- Rank 0 closes the container with its path in it, which it keeps from then on. -/
theorem published_act (h : RankInvariant job 0 me files)
    (hpublished : (job.act 0 me files).1.Published) :
    (job.act 0 me files).1.basePath = me.basePath ∧
      (me.Published ∨ (job.act 0 me files).2.contents .created = me.basePath) := by
  have hstep := job.step_act 0 me files
  generalize job.act 0 me files = result at hstep hpublished ⊢
  cases hstep with
  | chooses | taken | free | unlinksStale | creates | writes => cases hpublished
  | follows hpc hother => exact absurd rfl hother
  | closes => exact ⟨rfl, .inr (by simp [MpiFiles.fillContainer])⟩
  | reads hpc => exact absurd rfl (h.reading (by rw [hpc]; trivial))
  | stays => exact ⟨rfl, .inl hpublished⟩
  | _ => exact ⟨rfl, .inl (by simp_all [MpiRank.Published, MpiPc.beforeShutdown])⟩

theorem publishes_act (hpublished : me.Published) :
    (job.act 0 me files).1.Published := by
  have hstep := job.step_act 0 me files
  generalize job.act 0 me files = result at hstep ⊢
  unfold MpiRank.Published at hpublished
  cases hstep with
  | chooses hpc | taken hpc | free hpc | unlinksStale hpc | creates hpc | writes hpc =>
      rw [hpc] at hpublished
      cases hpublished
  | signals | noSignal =>
      unfold MpiRank.Published
      rcases job.afterWriting_cases 0 with hafter | ⟨-, hafter | hafter⟩ <;>
        · rw [hafter]
          rfl
  | stays => exact hpublished
  | _ => rfl

/-- Another rank takes the first word of the container. -/
theorem hasRead_act (hrank : rank ≠ 0) (h : RankInvariant job rank me files)
    (hunread : ¬ me.hasRead → me.basePath = [])
    (hopen : me.pc = .openContainer → files.container = some .created)
    (hread : (job.act rank me files).1.hasRead) :
    me.hasRead ∧ (job.act rank me files).1.basePath = me.basePath ∨
      ∃ file, me.pc = .readContainer file ∧
        (job.act rank me files).1.basePath = word isspace (files.contents file) := by
  have hother : ¬ me.pc.RootOnly := fun hroot => hrank (h.rootOnly hroot)
  have hstep := job.step_act rank me files
  generalize job.act rank me files = result at hstep hread ⊢
  cases hstep with
  | chooses hpc hroot => exact absurd hroot hrank
  | follows hpc =>
      have hcalled : me.calledProcessShutdown = true := hread
      rw [h.notCalled (by rw [hpc]; rfl)] at hcalled
      cases hcalled
  | taken hpc | free hpc | unlinksStale hpc | creates hpc | writes hpc | closes hpc =>
      exact absurd (by rw [hpc]; trivial) hother
  | hasPath hpc hcalled hpath =>
      exact absurd (hunread (by simp [MpiRank.hasRead, hpc, hcalled])) hpath
  | lacksPath | sees | polls | opens => cases hread
  | opensNone hpc hnone =>
      rw [hopen hpc] at hnone
      cases hnone
  | @reads file hpc => exact .inr ⟨file, hpc, rfl⟩
  | @readsNone file hpc hword =>
      -- there was no path before and there is none now
      refine .inr ⟨file, hpc, ?_⟩
      rw [hword]
      exact hunread (by simp [MpiRank.hasRead, hpc])
  | stays => exact .inl ⟨hread, rfl⟩
  | _ => exact .inl ⟨by simp_all [MpiRank.hasRead], rfl⟩

/-- A task that has not read has no path. -/
theorem unread_act (hrank : rank ≠ 0) (h : RankInvariant job rank me files)
    (hunread : ¬ me.hasRead → me.basePath = [])
    (hread : ¬ (job.act rank me files).1.hasRead) :
    (job.act rank me files).1.basePath = [] := by
  have hother : ¬ me.pc.RootOnly := fun hroot => hrank (h.rootOnly hroot)
  have hstep := job.step_act rank me files
  generalize job.act rank me files = result at hstep hread ⊢
  cases hstep with
  | follows hpc | sees hpc | polls hpc | opens hpc =>
      exact hunread (by simp [MpiRank.hasRead, hpc])
  | lacksPath hpc hcalled hpath => exact hpath
  | closes hpc => exact absurd (by rw [hpc]; trivial) hother
  | finishes hpc =>
      exact absurd (h.called (by simp [hpc, MpiPc.beforeShutdown]) (by simp [hpc])) hread
  | signals | noSignal =>
      refine absurd ?_ hread
      unfold MpiRank.hasRead
      rcases job.afterWriting_cases rank with hafter | ⟨-, hafter | hafter⟩ <;>
        · rw [hafter]
  | stays => exact hunread hread
  | _ => exact absurd rfl hread

/-- A task that opens the file finds it created. -/
theorem opened_act {file : Container}
    (hopen : me.pc = .openContainer → files.container = some .created)
    (hpc : (job.act rank me files).1.pc = .readContainer file) : file = .created := by
  have hstep := job.step_act rank me files
  generalize job.act rank me files = result at hstep hpc
  cases hstep with
  | opens hopens hfile =>
      cases hpc
      rw [hopen hopens] at hfile
      exact (Option.some.inj hfile).symm
  | signals | noSignal =>
      rcases job.afterWriting_cases rank with hafter | ⟨-, hafter | hafter⟩ <;>
        · rw [hafter] at hpc
          cases hpc
  | stays hexited =>
      rw [hexited] at hpc
      cases hpc
  | _ => cases hpc

/-- A task that stops without a path has read none. -/
theorem lost_act (hunread : ¬ me.hasRead → me.basePath = [])
    (hlost : me.pc = .exited .errorReadingBasePath → me.basePath = [])
    (hpc : (job.act rank me files).1.pc = .exited .errorReadingBasePath) :
    (job.act rank me files).1.basePath = [] := by
  have hstep := job.step_act rank me files
  generalize job.act rank me files = result at hstep hpc ⊢
  cases hstep with
  | readsNone hreads => exact hunread (by simp [MpiRank.hasRead, hreads])
  | signals | noSignal =>
      rcases job.afterWriting_cases rank with hafter | ⟨-, hafter | hafter⟩ <;>
        · rw [hafter] at hpc
          cases hpc
  | stays => exact hlost hpc
  | _ => cases hpc

end Step

/-! ## The ranks together -/

/-- The step of another rank comes at the right time: it opens the container that rank 0
created, and it reads it when rank 0 has closed it. -/
def MpiJob.InTime (job : MpiJob) (s : job.State) (r : Fin job.ntasks) : Prop :=
  r ≠ job.root →
    ((s.locals r).pc = .openContainer → s.shared.container = some .created) ∧
    ((s.locals r).pc = .readContainer .created → (s.locals job.root).Published)

instance (job : MpiJob) (s : job.State) (r : Fin job.ntasks) : Decidable (job.InTime s r) :=
  inferInstanceAs (Decidable (_ → _ ∧ _))

/-- What holds of a rank that is not rank 0: it has no path before it has read one, and
then it has the first word of the path of rank 0. -/
structure ReaderInvariant (root me : MpiRank) : Prop where
  opened : ∀ file, me.pc = .readContainer file → file = .created
  unread : ¬ me.hasRead → me.basePath = []
  published : me.hasRead → root.Published
  word : me.hasRead → me.basePath = word isspace root.basePath
  lost : me.pc = .exited .errorReadingBasePath → me.basePath = []

/-- The invariant of runs whose steps come at the right time. -/
structure PathInvariant (job : MpiJob) (s : job.State) : Prop where
  ranks : ∀ i : Fin job.ntasks, RankInvariant job i (s.locals i) s.shared
  isInstance : (s.locals job.root).Chosen →
    ∃ inst, (s.locals job.root).basePath = job.instancePath inst
  contents : (s.locals job.root).Published →
    s.shared.contents .created = (s.locals job.root).basePath
  readers : ∀ r, r ≠ job.root → ReaderInvariant (s.locals job.root) (s.locals r)

section Run

variable {job : MpiJob} {s : job.State} {r : Fin job.ntasks}

/-- The step of a rank that is not rank 0. -/
theorem PathInvariant.step_reader (hr : r ≠ job.root) (htime : job.InTime s r)
    (h : PathInvariant job s) : PathInvariant job (job.system.step s r) where
  ranks := RankInvariant.step h.ranks r
  isInstance := by
    rw [System.step_locals_of_ne (Ne.symm hr)]
    exact h.isInstance
  contents := by
    -- rank 0 alone gets to the steps that write the file
    have hroot : ¬ (s.locals r).pc.Publishing := by
      intro hpublishing
      refine hr (Fin.ext ((h.ranks r).rootOnly ?_))
      revert hpublishing
      cases (s.locals r).pc
      all_goals simp [MpiPc.Publishing, MpiPc.RootOnly]
    rw [System.step_locals_of_ne (Ne.symm hr), System.step_shared, MpiJob.system_act,
      act_contents hroot]
    exact h.contents
  readers i hi := by
    rw [System.step_locals_of_ne (Ne.symm hr)]
    by_cases heq : i = r
    · subst heq
      have hme := h.readers i hi
      have hrank : (i : ℕ) ≠ 0 := fun hzero => hi (Fin.ext hzero)
      obtain ⟨hopen, hread⟩ := htime hi
      -- what it has read was read before, or is read in this step from the file it opened
      have hcases := hasRead_act hrank (h.ranks i) hme.unread hopen
      rw [System.step_locals_self, MpiJob.system_act]
      refine ⟨fun file => opened_act hopen, unread_act hrank (h.ranks i) hme.unread,
        fun hnow => ?_, fun hnow => ?_, lost_act hme.unread hme.lost⟩
      · rcases hcases hnow with ⟨hbefore, -⟩ | ⟨file, hpc, -⟩
        · exact hme.published hbefore
        · exact hread (hme.opened file hpc ▸ hpc)
      · rcases hcases hnow with ⟨hbefore, hsame⟩ | ⟨file, hpc, hword⟩
        · rw [hsame]
          exact hme.word hbefore
        · obtain rfl := hme.opened file hpc
          rw [hword, h.contents (hread hpc)]
    · rw [System.step_locals_of_ne heq]
      exact h.readers i hi

/-- The step of rank 0. -/
theorem PathInvariant.step_root (h : PathInvariant job s) :
    PathInvariant job (job.system.step s job.root) where
  ranks := RankInvariant.step h.ranks job.root
  isInstance := by
    rw [System.step_locals_self]
    exact instance_act (h.ranks job.root) h.isInstance
  contents hpublished := by
    rw [System.step_locals_self, MpiJob.system_act, MpiJob.root_val] at hpublished ⊢
    rw [System.step_shared, MpiJob.system_act, MpiJob.root_val]
    obtain ⟨hsame, hbefore | hclosed⟩ := published_act (h.ranks job.root) hpublished
    · have hquiet : ¬ (s.locals job.root).pc.Publishing := by
        revert hbefore
        unfold MpiRank.Published
        cases (s.locals job.root).pc
        all_goals simp [MpiPc.Publishing, MpiPc.beforeShutdown]
      rw [hsame, act_contents hquiet]
      exact h.contents hbefore
    · rw [hsame, hclosed]
  readers i hi := by
    have hme := h.readers i hi
    rw [System.step_locals_of_ne hi, System.step_locals_self, MpiJob.system_act, MpiJob.root_val]
    have hpublishes : (s.locals job.root).Published →
        (job.act 0 (s.locals job.root) s.shared).1.Published := publishes_act
    refine ⟨hme.opened, hme.unread, fun hread => hpublishes (hme.published hread),
      fun hread => ?_, hme.lost⟩
    rw [(published_act (h.ranks job.root) (hpublishes (hme.published hread))).1]
    exact hme.word hread

/-- **Every step that comes at the right time keeps the invariant.** -/
theorem PathInvariant.step (r : Fin job.ntasks) (htime : job.InTime s r)
    (h : PathInvariant job s) : PathInvariant job (job.system.step s r) := by
  by_cases hr : r = job.root
  · subst hr
    exact h.step_root
  · exact h.step_reader hr htime

theorem PathInvariant.start (job : MpiJob) (files : MpiFiles) :
    PathInvariant job (job.start files) where
  ranks := RankInvariant.start job files
  isInstance hchosen := absurd hchosen id
  contents hpublished := by cases hpublished
  readers _ _ :=
    { opened := fun _ hpc => by cases hpc
      unread := fun _ => rfl
      published := fun hread => by cases hread
      word := fun hread => by cases hread
      lost := fun _ => rfl }

end Run

/-! ## Agreement -/

/-- A rank has the path of rank 0 and has not ended for want of it. -/
def MpiJob.HasBasePath (job : MpiJob) (s : job.State) (r : Fin job.ntasks) : Prop :=
  (s.locals r).basePath = (s.locals job.root).basePath ∧
    (s.locals r).pc ≠ .exited .errorReadingBasePath

/-- **When the ranks agree on the base path.**  For every job, all files that were there
before, and every order of the ranks' steps in which the others open the container
that rank 0 created and read it when rank 0 has closed it: each of them that is
through with the container has the path of rank 0 if and only if there is no white
space in the prefix, the process name and the host name. -/
theorem has_base_path_iff (job : MpiJob) (files : MpiFiles) (schedule : List (Fin job.ntasks))
    (htime : job.system.Meets job.InTime (job.start files) schedule) :
    let s := job.system.run (job.start files) schedule
    ∀ r, r ≠ job.root → (s.locals r).hasRead → (job.HasBasePath s r ↔ job.NoBlank) := by
  intro s r hr hread
  have h : PathInvariant job s :=
    System.run_invariant_of_meets (fun _ r htime h => h.step r htime)
      (PathInvariant.start job files) htime
  have hme := h.readers r hr
  have hchosen : (s.locals job.root).Chosen := by
    have hpublished := hme.published hread
    revert hpublished
    unfold MpiRank.Published MpiRank.Chosen
    cases (s.locals job.root).pc
    all_goals simp [MpiPc.beforeShutdown]
  obtain ⟨inst, hpath⟩ := h.isInstance hchosen
  have hne : (s.locals job.root).basePath ≠ [] := (h.ranks job.root).rootPath rfl hchosen
  rw [← forall_instancePath_iff job inst, ← hpath, ← word_eq_self_iff, ← hme.word hread]
  constructor
  · exact fun hbase => hbase.1
  · intro hsame
    exact ⟨hsame, fun hpc => hne (hsame ▸ hme.lost hpc)⟩

/-- Rank 1 takes its steps when rank 0 has closed the container. -/
def readLate (pathPrefix : Text) : List (Fin (twoRanks pathPrefix).ntasks) :=
  List.replicate 6 (twoRanks pathPrefix).root ++ List.replicate 5 (rankOne pathPrefix)

/-- Rank 1 takes its steps when rank 0 has only created the container. -/
def readEarly (pathPrefix : Text) : List (Fin (twoRanks pathPrefix).ntasks) :=
  List.replicate 4 (twoRanks pathPrefix).root ++ List.replicate 5 (rankOne pathPrefix)

/-- Rank 1 reads late, and there is no blank in the prefix. -/
theorem has_base_path_two_ranks :
    let job := twoRanks []
    let s := job.system.run (job.start MpiFiles.empty) (readLate [])
    job.HasBasePath s (rankOne []) ↔ job.NoBlank :=
  has_base_path_iff (twoRanks []) MpiFiles.empty (readLate []) (by decide +kernel) (rankOne [])
    (by decide) (by decide +kernel)

/-- **The path is lost.**  Rank 1 that reads early ends with an error, and with a blank in
the prefix it takes the part before the blank for the path. -/
theorem base_path_lost :
    (let job := twoRanks []
      let s := job.system.run (job.start MpiFiles.empty) (readEarly [])
      (s.locals (rankOne [])).pc = .exited .errorReadingBasePath ∧
        ¬ job.HasBasePath s (rankOne [])) ∧
    (let job := twoRanks "my runs/".toList
      let s := job.system.run (job.start MpiFiles.empty) (readLate "my runs/".toList)
      (s.locals (rankOne "my runs/".toList)).basePath = "my".toList ∧
        ¬ job.HasBasePath s (rankOne "my runs/".toList)) := by
  refine ⟨⟨by decide +kernel, fun h => h.2 (by decide +kernel)⟩, by decide +kernel, fun h => ?_⟩
  exact absurd h.1 (by decide +kernel)

end Papiex
