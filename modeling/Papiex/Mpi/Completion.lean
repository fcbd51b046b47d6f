import Papiex.Mpi.Ranks

/-!
# Completion of an MPI job

Rank 0 runs the post-processing command once, when every rank has closed its
thread files and every placeholder is gone.  A placeholder in the base directory
is one of this job, because the directory was not there before; so the rank that
it stands for has closed its files in that directory and never opens them again.

## Main results

* `JobInvariant.step`: what task 0 has seen is done.
* `command_after_completion`: the report starts when all files are there.

## Design notes

Nothing is assumed about the schedule.  What carries the proof is where a placeholder can
come from: its directory did not exist before the job, so it was created by the rank it
names, which had closed its files before.  The number of placeholders that rank 0 has removed
tells for which ranks it has waited.
-/

namespace Papiex

open Interleaving

/-! ## What holds of the whole job -/

/-- The rank has created its placeholder in the directory. -/
def MpiJob.Done (job : MpiJob) (s : job.State) (dir : Text) (i : Fin job.ntasks) : Prop :=
  (s.locals i).Signalled ∧ (s.locals i).basePath = dir

/-- The invariant of the protocol, for the directories that were there before. -/
structure JobInvariant (job : MpiJob) (old : Text → Bool) (s : job.State) : Prop where
  ranks : ∀ i : Fin job.ntasks, RankInvariant job i (s.locals i) s.shared
  dirs : ∀ dir, old dir = true → s.shared.dirs dir = true
  placeholder : ∀ dir i, s.shared.placeholder dir i = true → old dir = true ∨
    ∃ h : i < job.ntasks, job.Done s dir ⟨i, h⟩
  chosen : (s.locals job.root).Chosen → old (s.locals job.root).basePath = false
  seen : ∀ i, (s.locals job.root).pc = .unlinkPlaceholder i →
    ∃ h : i < job.ntasks, job.Done s (s.locals job.root).basePath ⟨i, h⟩
  consumed : ∀ i : Fin job.ntasks, i < (s.locals job.root).consumed job →
    job.Done s (s.locals job.root).basePath i ∧
      s.shared.placeholder (s.locals job.root).basePath i = false
  notRun : ¬ (s.locals job.root).Over → s.shared.commands = []
  hasRun : (s.locals job.root).Over → s.shared.commands = [0]

section Step

variable {job : MpiJob} {old : Text → Bool} {s : job.State} {dir : Text} {i r : Fin job.ntasks}

/-- What is done stays done. -/
theorem done_step (h : JobInvariant job old s) (hdone : job.Done s dir i)
    (r : Fin job.ntasks) : job.Done (job.system.step s r) dir i := by
  obtain ⟨hsignalled, rfl⟩ := hdone
  by_cases heq : i = r
  · subst heq
    rw [MpiJob.Done, System.step_locals_self]
    exact signalled_act (h.ranks i) hsignalled
  · rw [MpiJob.Done, System.step_locals_of_ne heq]
    exact ⟨hsignalled, rfl⟩

/-- A placeholder is written by a task that is done. -/
theorem placeholder_step (hnextgen : job.papiexNextgen = true) (hmany : 1 < job.ntasks)
    (h : JobInvariant job old s) (r : Fin job.ntasks) {dir : Text} {i : ℕ}
    (hplaceholder : (job.system.step s r).shared.placeholder dir i = true) :
    old dir = true ∨ ∃ hi : i < job.ntasks, job.Done (job.system.step s r) dir ⟨i, hi⟩ := by
  rcases MpiJob.act_placeholder hplaceholder with hbefore | ⟨hpc, hdir, rfl, rfl⟩
  · rcases h.placeholder dir i hbefore with hold | ⟨hi, hdone⟩
    · exact .inl hold
    · exact .inr ⟨hi, done_step h hdone r⟩
  · refine .inr ⟨r.isLt, ?_⟩
    rw [MpiJob.Done, System.step_locals_self]
    exact signalled_of_createPlaceholder hnextgen hmany hpc hdir

/-- The steps of the other ranks leave rank 0 where it is. -/
theorem locals_root_step (hr : r ≠ job.root) :
    (job.system.step s r).locals job.root = s.locals job.root :=
  System.step_locals_of_ne (Ne.symm hr)

theorem chosen_step (h : JobInvariant job old s) (r : Fin job.ntasks)
    (hchosen : ((job.system.step s r).locals job.root).Chosen) :
    old ((job.system.step s r).locals job.root).basePath = false := by
  by_cases hr : r = job.root
  · subst hr
    rw [System.step_locals_self, MpiJob.system_act, MpiJob.root_val] at hchosen ⊢
    rcases chosen_act (h.ranks job.root) hchosen with ⟨hbefore, hsame⟩ | hfree
    · rw [hsame]
      exact h.chosen hbefore
    · by_contra hold
      rw [h.dirs _ (Bool.not_eq_false _ ▸ hold)] at hfree
      cases hfree
  · rw [locals_root_step hr] at hchosen ⊢
    exact h.chosen hchosen

/-- Task 0 has seen the placeholders that it removes. -/
theorem seen_step (h : JobInvariant job old s) (r : Fin job.ntasks) {i : ℕ}
    (hpc : ((job.system.step s r).locals job.root).pc = .unlinkPlaceholder i) :
    ∃ hi : i < job.ntasks, job.Done (job.system.step s r)
      ((job.system.step s r).locals job.root).basePath ⟨i, hi⟩ := by
  by_cases hr : r = job.root
  · subst hr
    rw [System.step_locals_self, MpiJob.system_act, MpiJob.root_val] at hpc ⊢
    obtain ⟨hi, hthere, hchosen, hsame⟩ := seen_act hpc
    rw [hsame]
    rcases h.placeholder _ i hthere with hold | ⟨hi, hdone⟩
    · -- nothing was there before
      rw [h.chosen hchosen] at hold
      cases hold
    · exact ⟨hi, done_step h hdone job.root⟩
  · rw [locals_root_step hr] at hpc ⊢
    obtain ⟨hi, hdone⟩ := h.seen i hpc
    exact ⟨hi, done_step h hdone r⟩

/-- No rank creates the placeholder again that rank 0 has removed. -/
theorem not_placeholder_step {i : Fin job.ntasks}
    (hdone : job.Done s dir i) (hgone : s.shared.placeholder dir i = false)
    (r : Fin job.ntasks) : (job.system.step s r).shared.placeholder dir i = false := by
  by_contra hthere
  rw [Bool.not_eq_false, System.step_shared, MpiJob.system_act] at hthere
  rcases MpiJob.act_placeholder hthere with hbefore | ⟨hpc, -, -, hi⟩
  · rw [hgone] at hbefore
    cases hbefore
  · obtain rfl : i = r := Fin.ext hi
    simp [MpiJob.Done, MpiRank.Signalled, hpc] at hdone

/-- **What task 0 has gone past is done.** -/
theorem consumed_step (hmany : 1 < job.ntasks) (h : JobInvariant job old s) (r i : Fin job.ntasks)
    (hconsumed : i < ((job.system.step s r).locals job.root).consumed job) :
    job.Done (job.system.step s r) ((job.system.step s r).locals job.root).basePath i ∧
      (job.system.step s r).shared.placeholder
        ((job.system.step s r).locals job.root).basePath i = false := by
  by_cases hr : r = job.root
  · subst hr
    rw [System.step_locals_self, MpiJob.system_act, MpiJob.root_val] at hconsumed ⊢
    obtain ⟨hsame, hcase⟩ := consumed_act hmany i.isLt hconsumed
    rw [hsame]
    rcases hcase with ⟨hbefore, -⟩ | hpc
    · obtain ⟨hdone, hgone⟩ := h.consumed i hbefore
      exact ⟨done_step h hdone _, not_placeholder_step hdone hgone _⟩
    · obtain ⟨hi, hdone⟩ := h.seen i hpc
      exact ⟨done_step h hdone _, placeholder_unlinkPlaceholder hpc⟩
  · rw [locals_root_step hr] at hconsumed ⊢
    obtain ⟨hdone, hgone⟩ := h.consumed i hconsumed
    exact ⟨done_step h hdone r, not_placeholder_step hdone hgone r⟩

/-- Only rank 0 comes to the command. -/
theorem eq_root_of_runCommand (h : JobInvariant job old s)
    (hpc : (s.locals r).pc = .runCommand) : r = job.root :=
  Fin.ext ((h.ranks r).rootOnly (by simp [hpc, MpiPc.RootOnly]))

theorem commands_step (hnextgen : job.papiexNextgen = true) (hmany : 1 < job.ntasks)
    (h : JobInvariant job old s) (r : Fin job.ntasks) :
    (¬ ((job.system.step s r).locals job.root).Over →
        (job.system.step s r).shared.commands = []) ∧
      (((job.system.step s r).locals job.root).Over →
        (job.system.step s r).shared.commands = [0]) := by
  have hcommands : (job.system.step s r).shared.commands = _ := MpiJob.act_commands
  rw [hcommands]
  by_cases hr : r = job.root
  · subst hr
    rw [System.step_locals_self, MpiJob.system_act, MpiJob.root_val,
      over_act hnextgen hmany (h.ranks job.root)]
    by_cases hpc : (s.locals job.root).pc = .runCommand
    · have hnot : ¬ (s.locals job.root).Over := by simp [MpiRank.Over, hpc]
      simp [hpc, h.notRun hnot]
    · simp only [hpc, or_false, if_false]
      exact ⟨h.notRun, h.hasRun⟩
  · have hpc : (s.locals r).pc ≠ .runCommand := fun hpc => hr (eq_root_of_runCommand h hpc)
    rw [locals_root_step hr, if_neg hpc]
    exact ⟨h.notRun, h.hasRun⟩

/-- **Every step keeps the invariant.** -/
theorem JobInvariant.step (hnextgen : job.papiexNextgen = true) (hmany : 1 < job.ntasks)
    (h : JobInvariant job old s) (r : Fin job.ntasks) :
    JobInvariant job old (job.system.step s r) where
  ranks := RankInvariant.step h.ranks r
  dirs dir hold := MpiJob.act_dirs (h.dirs dir hold)
  placeholder _ _ := placeholder_step hnextgen hmany h r
  chosen := chosen_step h r
  seen _ := seen_step h r
  consumed i := consumed_step hmany h r i
  notRun := (commands_step hnextgen hmany h r).1
  hasRun := (commands_step hnextgen hmany h r).2

end Step

theorem JobInvariant.start {job : MpiJob} {files : MpiFiles} (h : files.Initial) :
    JobInvariant job files.dirs (job.start files) where
  ranks := RankInvariant.start job files
  dirs _ hold := hold
  placeholder dir i hthere := .inl (files.placeholder_dir dir i hthere)
  chosen hchosen := absurd hchosen id
  seen _ hpc := by cases hpc
  consumed _ hconsumed := absurd hconsumed (Nat.not_lt_zero _)
  notRun _ := h.noCommand
  hasRun hover := absurd hover id

/-! ## The command -/

/-- What is required when a rank runs the command: it is rank 0 and no rank did so before,
every thread file of every rank is closed, and no placeholder is in the base directory. -/
structure MpiJob.Complete (job : MpiJob) (s : job.State) (r : Fin job.ntasks) : Prop where
  root : r = job.root
  first : s.shared.commands = []
  closed : ∀ (i : Fin job.ntasks) (thread : ℕ), thread < job.nthreads i →
    s.shared.threadFile (s.locals job.root).basePath i thread = .closed
  noPlaceholder : ∀ i, s.shared.placeholder (s.locals job.root).basePath i = false

/-- **When the command is run all files are there.** -/
theorem JobInvariant.complete {job : MpiJob} {old : Text → Bool} {s : job.State}
    (hwrite : job.noWrite = false) (h : JobInvariant job old s) {r : Fin job.ntasks}
    (hpc : (s.locals r).pc = .runCommand) :
    job.Complete s r := by
  obtain rfl := eq_root_of_runCommand h hpc
  have hconsumed : ∀ i : Fin job.ntasks, i < (s.locals job.root).consumed job := by
    intro i
    simp [MpiRank.consumed, hpc]
  refine ⟨rfl, h.notRun (by simp [MpiRank.Over, hpc]), fun i thread hthread => ?_, fun i => ?_⟩
  · obtain ⟨⟨hsignalled, hsame⟩, -⟩ := h.consumed i (hconsumed i)
    rw [← hsame]
    exact closed_of_signalled hwrite (h.ranks i) hsignalled hthread
  · by_contra hthere
    rcases h.placeholder _ i (Bool.not_eq_false _ ▸ hthere) with hold | ⟨hi, -⟩
    · rw [h.chosen (by simp [MpiRank.Chosen, hpc])] at hold
      cases hold
    · exact hthere (h.consumed ⟨i, hi⟩ (hconsumed ⟨i, hi⟩)).2

/-- **The report is launched on complete data only.**  For every job of more than one
rank in nextgen mode, all files that were there before, and every order of the ranks'
steps: the command is run at most once and by rank 0, and whenever a step runs it,
every rank has closed every thread file in the base directory, in which no placeholder
remains. -/
theorem command_after_completion (job : MpiJob) (files : MpiFiles) (hinitial : files.Initial)
    (hnextgen : job.papiexNextgen = true) (hmany : 1 < job.ntasks)
    (schedule : List (Fin job.ntasks)) :
    let s := job.system.run (job.start files) schedule
    (s.shared.commands = [] ∨ s.shared.commands = [0]) ∧
      ∀ r, (job.system.step s r).shared.commands ≠ s.shared.commands → job.Complete s r := by
  have h : JobInvariant job files.dirs (job.system.run (job.start files) schedule) :=
    System.run_invariant (fun _ r h => h.step hnextgen hmany r)
      (JobInvariant.start hinitial) schedule
  refine ⟨?_, fun r hchanged => h.complete (job.nextgen_writes hnextgen) ?_⟩
  · by_cases hover : ((job.system.run (job.start files) schedule).locals job.root).Over
    · exact .inr (h.hasRun hover)
    · exact .inl (h.notRun hover)
  · exact MpiJob.runCommand_of_commands_ne hchanged

/-- Rank 0 waits for rank 1, removes both placeholders and runs the command. -/
theorem command_after_completion_two_ranks :
    let job := twoRanks []
    let schedule := List.replicate 13 job.root ++ List.replicate 11 (rankOne []) ++
      List.replicate 6 job.root
    let s := job.system.run (job.start MpiFiles.empty) schedule
    (job.system.step s job.root).shared.commands = [0] ∧ job.Complete s job.root :=
  ⟨by decide +kernel, (command_after_completion (twoRanks []) MpiFiles.empty
    MpiFiles.initial_empty rfl Nat.one_lt_two _).2 (twoRanks []).root (by decide +kernel)⟩

end Papiex
