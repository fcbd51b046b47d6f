import Papiex.Mpi.Protocol

/-!
# The progress of a rank

What a rank of an MPI job has done by the time it comes to a step, whatever the
other ranks do: whether its shutdown routine was called, whether it has a base
path, and which of its thread files are closed.

## Main results

* `RankInvariant.act`, `RankInvariant.other`: a step of the rank, and of another one.
* `closed_of_signalled`: a rank with a placeholder has closed its files.

## Design notes

All of it holds of one rank whatever the others do, since a rank writes to no thread file but
its own.  So the proof is one case for each step of the rank, and the other ranks come in
only by what their steps leave alone.
-/

namespace Papiex

open Interleaving

/-! ## How far a rank has come -/

/-- The rank has not come to its shutdown routine. -/
def MpiPc.beforeShutdown : MpiPc → Bool
  | .finiMpi | .probe _ | .unlinkStaleContainer | .createContainer | .writeContainer
  | .closeContainer => true
  | _ => false

/-- What rank 0 alone does. -/
def MpiPc.RootOnly : MpiPc → Prop
  | .probe _ | .unlinkStaleContainer | .createContainer | .writeContainer | .closeContainer
  | .awaitPlaceholder _ | .unlinkPlaceholder _ | .unlinkContainer | .runCommand => True
  | _ => False

/-- What the other ranks alone do. -/
def MpiPc.Reading : MpiPc → Prop
  | .pollContainer | .openContainer | .readContainer _ => True
  | _ => False

namespace MpiRank

/-- The rank has created its placeholder. -/
def Signalled (me : MpiRank) : Prop :=
  match me.pc with
  | .awaitPlaceholder _ | .unlinkPlaceholder _ | .unlinkContainer | .runCommand | .finished
  | .exited .errorRunning => True
  | .shutdown => me.calledProcessShutdown = true
  | _ => False

/-- The rank's own shutdown routine is over. -/
def Over (me : MpiRank) : Prop :=
  match me.pc with
  | .finished | .exited .errorRunning => True
  | .shutdown => me.calledProcessShutdown = true
  | _ => False

/-- The rank has chosen its base path, if it is rank 0. -/
def Chosen (me : MpiRank) : Prop :=
  match me.pc with
  | .finiMpi | .probe _ => False
  | _ => True

/-- The number of placeholders that rank 0 has removed. -/
def consumed (job : MpiJob) (me : MpiRank) : ℕ :=
  match me.pc with
  | .awaitPlaceholder i | .unlinkPlaceholder i => i
  | .unlinkContainer | .runCommand => job.ntasks
  | _ => 0

/-- The thread file is behind the rank. -/
def Behind (job : MpiJob) (rank : ℕ) (me : MpiRank) (thread : ℕ) : Prop :=
  match me.pc with
  | .openThread i | .printThread i | .closeThread i => thread < i
  | .createPlaceholder => job.noWrite = false ∧ thread < job.nthreads rank
  | _ => me.Signalled ∧ job.noWrite = false ∧ thread < job.nthreads rank

end MpiRank

/-- What a rank knows of itself: whether its shutdown routine was called, what it does
only as rank 0 and only as another, and that the thread files behind it are closed. -/
structure RankInvariant (job : MpiJob) (rank : ℕ) (me : MpiRank) (files : MpiFiles) : Prop where
  notCalled : me.pc.beforeShutdown → me.calledProcessShutdown = false
  called : ¬ me.pc.beforeShutdown → me.pc ≠ .shutdown → me.calledProcessShutdown = true
  rootOnly : me.pc.RootOnly → rank = 0
  reading : me.pc.Reading → rank ≠ 0
  rootPath : rank = 0 → me.Chosen → me.basePath ≠ []
  closed : ∀ thread, me.Behind job rank thread →
    files.threadFile me.basePath rank thread = .closed

section Rank

variable {job : MpiJob} {rank : ℕ} {me : MpiRank} {files : MpiFiles}

/-- Before the shutdown a task has not called it. -/
theorem notCalled_act (h : RankInvariant job rank me files)
    (hbefore : (job.act rank me files).1.pc.beforeShutdown) :
    (job.act rank me files).1.calledProcessShutdown = false := by
  have hstep := job.step_act rank me files
  generalize job.act rank me files = result at hstep hbefore ⊢
  cases hstep with
  | chooses hpc | taken hpc | free hpc | unlinksStale hpc | creates hpc | writes hpc =>
      exact h.notCalled (by rw [hpc]; rfl)
  | signals | noSignal =>
      rcases job.afterWriting_cases rank with hafter | ⟨-, hafter | hafter⟩ <;>
        · rw [hafter] at hbefore
          cases hbefore
  | stays hpc => exact h.notCalled hbefore
  | _ => cases hbefore

theorem called_act (h : RankInvariant job rank me files)
    (hbefore : ¬ (job.act rank me files).1.pc.beforeShutdown)
    (hshutdown : (job.act rank me files).1.pc ≠ .shutdown) :
    (job.act rank me files).1.calledProcessShutdown = true := by
  have hstep := job.step_act rank me files
  generalize job.act rank me files = result at hstep hbefore hshutdown ⊢
  cases hstep with
  | chooses | taken | free | unlinksStale | creates | writes => exact absurd rfl hbefore
  | follows | closes | finishes => exact absurd rfl hshutdown
  | calledAgain hpc hcalled => exact hcalled
  | hasPath | lacksPath => rfl
  | stays => exact h.called hbefore hshutdown
  | _ => exact h.called (by simp_all [MpiPc.beforeShutdown]) (by simp_all)

/-- Only task 0 is at the statements that are for it. -/
theorem rootOnly_act (h : RankInvariant job rank me files)
    (hroot : (job.act rank me files).1.pc.RootOnly) : rank = 0 := by
  have hstep := job.step_act rank me files
  generalize job.act rank me files = result at hstep hroot
  cases hstep with
  | chooses hpc hrank => exact hrank
  | taken hpc | free hpc | unlinksStale hpc | creates hpc | writes hpc | finds hpc | awaits hpc
  | foundAll hpc | unlinksPlaceholder hpc | unlinksContainer hpc =>
      exact h.rootOnly (by rw [hpc]; trivial)
  | signals | noSignal =>
      rcases job.afterWriting_cases rank with hafter | ⟨hrank, -⟩
      · rw [hafter] at hroot
        cases hroot
      · exact hrank
  | stays => exact h.rootOnly hroot
  | _ => cases hroot

/-- Rank 0 has a path when it comes to its shutdown routine, so it never polls. -/
theorem reading_act (h : RankInvariant job rank me files)
    (hreading : (job.act rank me files).1.pc.Reading) : rank ≠ 0 := by
  have hstep := job.step_act rank me files
  generalize job.act rank me files = result at hstep hreading
  cases hstep with
  | lacksPath hpc hcalled hpath =>
      exact fun hrank => h.rootPath hrank (by simp [MpiRank.Chosen, hpc]) hpath
  | sees hpc | polls hpc | opens hpc => exact h.reading (by rw [hpc]; trivial)
  | signals | noSignal =>
      rcases job.afterWriting_cases rank with hafter | ⟨-, hafter | hafter⟩ <;>
        · rw [hafter] at hreading
          cases hreading
  | stays => exact h.reading hreading
  | _ => cases hreading

/-- Once task 0 has chosen the path there is one. -/
theorem rootPath_act (h : RankInvariant job rank me files) (hrank : rank = 0)
    (hchosen : (job.act rank me files).1.Chosen) :
    (job.act rank me files).1.basePath ≠ [] := by
  have hstep := job.step_act rank me files
  generalize job.act rank me files = result at hstep hchosen ⊢
  cases hstep with
  | chooses | taken => cases hchosen
  | follows hpc hother => exact absurd hrank hother
  | free => exact instancePath_ne_nil job.request _
  | reads hpc => exact absurd hrank (h.reading (by rw [hpc]; trivial))
  | stays => exact h.rootPath hrank hchosen
  | _ => exact h.rootPath hrank (by simp_all [MpiRank.Chosen])

/-- A thread file that the task is past is closed. -/
theorem closed_act (h : RankInvariant job rank me files)
    {thread : ℕ} (hbehind : (job.act rank me files).1.Behind job rank thread) :
    (job.act rank me files).2.threadFile (job.act rank me files).1.basePath rank thread =
      .closed := by
  have hstep := job.step_act rank me files
  generalize job.act rank me files = result at hstep hbehind ⊢
  -- what is behind a rank with this step before it is closed already
  have hclosed (pc : MpiPc) (hpc : me.pc = pc)
      (hbefore : MpiRank.Behind job rank { me with pc := pc } thread) :
      files.threadFile me.basePath rank thread = .closed := by
    subst hpc
    exact h.closed thread hbefore
  cases hstep with
  | makesDir => exact absurd hbehind (Nat.not_lt_zero thread)
  | opensThread hpc | printsThread hpc =>
      have hlt : thread < _ := hbehind
      rw [MpiFiles.threadFile_setThreadFile_of_ne (Nat.ne_of_lt hlt)]
      exact hclosed _ hpc hlt
  | @closesThread i hpc =>
      rcases Nat.lt_succ_iff_lt_or_eq.mp hbehind with hlt | rfl
      · rw [MpiFiles.threadFile_setThreadFile_of_ne (Nat.ne_of_lt hlt)]
        exact hclosed _ hpc hlt
      · exact MpiFiles.threadFile_setThreadFile_self
  | noThread hpc hi => exact hclosed _ hpc (Nat.lt_of_lt_of_le hbehind.2 hi)
  | writesNothing hpc hwrite => exact absurd hbehind.1 (by simp [hwrite])
  | signals hpc | noSignal hpc =>
      refine hclosed _ hpc ?_
      rcases job.afterWriting_cases rank with hafter | ⟨-, hafter | hafter⟩ <;>
        · rw [hafter] at hbehind
          exact hbehind.2
  | follows hpc | closes hpc =>
      -- the shutdown routine was not called yet
      have hcalled : me.calledProcessShutdown = true := hbehind.1
      rw [h.notCalled (by rw [hpc]; rfl)] at hcalled
      cases hcalled
  | calledAgain hpc hcalled => exact hclosed _ hpc ⟨hcalled, hbehind.2⟩
  | finds hpc | awaits hpc | foundAll hpc | unlinksPlaceholder hpc | unlinksContainer hpc
  | runs hpc | fails hpc | finishes hpc => exact hclosed _ hpc ⟨trivial, hbehind.2⟩
  | stays => exact h.closed thread hbehind
  | _ => exact absurd hbehind.1 id

/-- **A statement of a task keeps its invariant.** -/
theorem RankInvariant.act (h : RankInvariant job rank me files) :
    RankInvariant job rank (job.act rank me files).1 (job.act rank me files).2 where
  notCalled := notCalled_act h
  called := called_act h
  rootOnly := rootOnly_act h
  reading := reading_act h
  rootPath := rootPath_act h
  closed _ := closed_act h

/-- The step of another rank does not disturb it. -/
theorem RankInvariant.other (h : RankInvariant job rank me files) {other : ℕ}
    (hne : rank ≠ other) {them : MpiRank} :
    RankInvariant job rank me (job.act other them files).2 where
  notCalled := h.notCalled
  called := h.called
  rootOnly := h.rootOnly
  reading := h.reading
  rootPath := h.rootPath
  closed thread hbehind := by
    rw [MpiJob.act_threadFile_of_ne hne]
    exact h.closed thread hbehind

/-- A rank that has signalled leaves its base path alone from then on. -/
theorem signalled_act (h : RankInvariant job rank me files) (hsignalled : me.Signalled) :
    (job.act rank me files).1.Signalled ∧ (job.act rank me files).1.basePath = me.basePath := by
  have hstep := job.step_act rank me files
  generalize job.act rank me files = result at hstep ⊢
  unfold MpiRank.Signalled at hsignalled
  cases hstep with
  | calledAgain | finds | awaits | foundAll | unlinksPlaceholder | unlinksContainer | runs
  | fails =>
      exact ⟨trivial, rfl⟩
  | finishes hpc => exact ⟨h.called (by simp [hpc, MpiPc.beforeShutdown]) (by simp [hpc]), rfl⟩
  | stays => exact ⟨hsignalled, rfl⟩
  | hasPath hpc hcalled | lacksPath hpc hcalled => simp [hpc, hcalled] at hsignalled
  | _ => simp_all

/-- Every thread file of a rank that has signalled is closed. -/
theorem closed_of_signalled (hwrite : job.noWrite = false)
    (h : RankInvariant job rank me files) (hsignalled : me.Signalled) {thread : ℕ}
    (hthread : thread < job.nthreads rank) :
    files.threadFile me.basePath rank thread = .closed := by
  refine h.closed thread ?_
  revert hsignalled
  unfold MpiRank.Signalled MpiRank.Behind
  split
  all_goals simp_all [MpiRank.Signalled]

/-- A rank has signalled once its placeholder is created. -/
theorem signalled_of_createPlaceholder (hnextgen : job.papiexNextgen = true)
    (hmany : 1 < job.ntasks) (hpc : me.pc = .createPlaceholder)
    (hdir : files.dirs me.basePath = true) :
    (job.act rank me files).1.Signalled ∧ (job.act rank me files).1.basePath = me.basePath := by
  unfold MpiJob.act MpiJob.afterWriting
  simp only [hpc, hnextgen, hmany, hdir]
  by_cases hrank : rank = 0
  all_goals simp [hrank, MpiRank.Signalled]

/-! ### Rank 0 -/

/-- Rank 0 keeps its base path once it has found that nothing is there. -/
theorem chosen_act (h : RankInvariant job 0 me files)
    (hchosen : (job.act 0 me files).1.Chosen) :
    me.Chosen ∧ (job.act 0 me files).1.basePath = me.basePath ∨
      files.dirs (job.act 0 me files).1.basePath = false := by
  have hstep := job.step_act 0 me files
  generalize job.act 0 me files = result at hstep hchosen ⊢
  cases hstep with
  | chooses | taken => cases hchosen
  | follows hpc hother => exact absurd rfl hother
  | free hpc hdir => exact .inr hdir
  | reads hpc => exact absurd rfl (h.reading (by rw [hpc]; trivial))
  | stays => exact .inl ⟨hchosen, rfl⟩
  | _ => exact .inl ⟨by simp_all [MpiRank.Chosen], rfl⟩

/-- Rank 0 removes a placeholder that it has seen. -/
theorem seen_act {i : ℕ} (hpc : (job.act 0 me files).1.pc = .unlinkPlaceholder i) :
    i < job.ntasks ∧ files.placeholder me.basePath i = true ∧ me.Chosen ∧
      (job.act 0 me files).1.basePath = me.basePath := by
  have hstep := job.step_act 0 me files
  generalize job.act 0 me files = result at hstep hpc ⊢
  cases hstep with
  | finds hawait hi hthere =>
      cases hpc
      exact ⟨hi, hthere, by simp [MpiRank.Chosen, hawait], rfl⟩
  | signals | noSignal =>
      rcases job.afterWriting_cases 0 with hafter | ⟨-, hafter | hafter⟩ <;>
        · rw [hafter] at hpc
          cases hpc
  | stays hexited =>
      rw [hexited] at hpc
      cases hpc
  | _ => cases hpc

/-- A placeholder that is consumed was so before, or it is the one that rank 0 removes. -/
theorem consumed_act (hmany : 1 < job.ntasks) {i : ℕ} (hi : i < job.ntasks)
    (hconsumed : i < (job.act 0 me files).1.consumed job) :
    (job.act 0 me files).1.basePath = me.basePath ∧
      (i < me.consumed job ∧ me.pc ≠ .createPlaceholder ∨ me.pc = .unlinkPlaceholder i) := by
  have hstep := job.step_act 0 me files
  generalize job.act 0 me files = result at hstep hconsumed ⊢
  cases hstep with
  | @finds k hpc | @awaits k hpc =>
      have hlt : i < k := hconsumed
      exact ⟨rfl, .inl ⟨by simpa [MpiRank.consumed, hpc] using hlt, by simp [hpc]⟩⟩
  | @foundAll k hpc hk =>
      have hlt : i < k := Nat.lt_of_lt_of_le hi hk
      exact ⟨rfl, .inl ⟨by simpa [MpiRank.consumed, hpc] using hlt, by simp [hpc]⟩⟩
  | unlinksContainer hpc =>
      exact ⟨rfl, .inl ⟨by simpa [MpiRank.consumed, hpc] using hi, by simp [hpc]⟩⟩
  | @unlinksPlaceholder k hpc =>
      refine ⟨rfl, ?_⟩
      rcases Nat.lt_succ_iff_lt_or_eq.mp hconsumed with hlt | rfl
      · exact .inl ⟨by simpa [MpiRank.consumed, hpc] using hlt, by simp [hpc]⟩
      · exact .inr hpc
  | signals | noSignal =>
      rcases job.afterWriting_cases 0 with hafter | ⟨-, hafter | hafter⟩
      · rw [hafter] at hconsumed
        exact absurd hconsumed (Nat.not_lt_zero i)
      · rw [hafter] at hconsumed
        exact absurd hconsumed (Nat.not_lt_zero i)
      · exact absurd hafter (MpiJob.afterWriting_ne_runCommand hmany)
  | stays hpc => exact ⟨rfl, .inl ⟨hconsumed, by simp [hpc]⟩⟩
  | _ => exact absurd hconsumed (Nat.not_lt_zero i)

/-- The placeholder is removed where the code removes it. -/
theorem placeholder_unlinkPlaceholder {i : ℕ} (hpc : me.pc = .unlinkPlaceholder i) :
    (job.act rank me files).2.placeholder me.basePath i = false := by
  simp [MpiJob.act, hpc, MpiFiles.removePlaceholder]

/-- Rank 0 is through when it has run the command. -/
theorem over_act (hnextgen : job.papiexNextgen = true) (hmany : 1 < job.ntasks)
    (h : RankInvariant job 0 me files) :
    (job.act 0 me files).1.Over ↔ me.Over ∨ me.pc = .runCommand := by
  have hstep := job.step_act 0 me files
  generalize job.act 0 me files = result at hstep ⊢
  cases hstep with
  | runs hpc | fails hpc => exact iff_of_true trivial (.inr hpc)
  | calledAgain hpc hcalled =>
      exact iff_of_true trivial (.inl (by simp [MpiRank.Over, hpc, hcalled]))
  | finishes hpc =>
      refine iff_of_true ?_ (.inl (by simp [MpiRank.Over, hpc]))
      exact h.called (by simp [hpc, MpiPc.beforeShutdown]) (by simp [hpc])
  | follows hpc hother => exact absurd rfl hother
  | closes hpc =>
      -- the shutdown routine was not called yet
      refine iff_of_false (fun hcalled : me.calledProcessShutdown = true => ?_)
        (by simp [MpiRank.Over, hpc])
      rw [h.notCalled (by rw [hpc]; rfl)] at hcalled
      cases hcalled
  | signals hpc =>
      have hafter : job.afterWriting 0 = .awaitPlaceholder 0 := by
        simp [MpiJob.afterWriting, hnextgen, hmany]
      rw [hafter]
      exact iff_of_false id (by simp [MpiRank.Over, hpc])
  | noSignal hpc hnot => exact absurd ⟨hnextgen, hmany⟩ hnot
  | stays hpc => exact (or_iff_left (by simp [hpc])).symm
  | _ => exact iff_of_false id (by simp_all [MpiRank.Over])

end Rank

/-! ## Every rank -/

/-- A step of one task keeps the invariants of all. -/
theorem RankInvariant.step {job : MpiJob} {s : job.State}
    (h : ∀ i : Fin job.ntasks, RankInvariant job i (s.locals i) s.shared) (r : Fin job.ntasks) :
    ∀ i : Fin job.ntasks,
      RankInvariant job i ((job.system.step s r).locals i) (job.system.step s r).shared :=
  System.forall_step (P := fun i : Fin job.ntasks => RankInvariant job i) h
    (fun hself => hself.act)
    (fun _ hne hother => hother.other fun heq => hne (Fin.ext heq))

/-- At the start all tasks are at their first statement. -/
theorem RankInvariant.start (job : MpiJob) (files : MpiFiles) (i : Fin job.ntasks) :
    RankInvariant job i ((job.start files).locals i) (job.start files).shared where
  notCalled _ := rfl
  called hbefore := absurd rfl hbefore
  rootOnly hroot := absurd hroot id
  reading hreading := absurd hreading id
  rootPath _ hchosen := absurd hchosen id
  closed _ hbehind := absurd hbehind.1 id

end Papiex
