import Papiex.Report.Metrics

/-!
# Metrics left over from other levels

The derived section of a level should depend on its own counts, the spec file and the
constants only.  But metrics stay in the namespace when a level has been evaluated, and
the lines of a later level may use them; and the metrics that are printed for a level
are those in the list of the level evaluated last.

The statement is one about two reports in which the same level has the same counts.
When its turn comes, the namespaces may differ.  If the lines use nothing in which they
differ, the same metrics are derived for it; and then the two reports print the same
ones exactly if each metric is printed by both or by none.

## Main results

* `derivedSections_eq`: the sections that are printed are those of the turns of the levels.
* `levelMetrics_congr`: what a level's metrics depend on.
* `derived_sections_agree_iff`: when a level is shown the same in two reports.

## Design notes

Whether the lines use something in which two runs differ is asked line by line, with what
the lines before have made of the namespaces (`UsesAlike`).  The order in which the levels
are evaluated comes in only by the namespace that a level finds, and by which level is last.
The two runs have orders of their own.
-/

namespace Papiex

open Assignment

/-! ## The condition -/

/-- The variables a spec line uses. -/
def SpecLine.uses (namespc : Namespace) : SpecLine → List Text
  | .metric lval guard expr => (specStatement lval guard expr).uses namespc
  | _ => []

/-- In two evaluations, the spec lines use only variables that hold the same in both. -/
def UsesAlike : List SpecLine → Evaluation → Evaluation → Prop
  | [], _, _ => True
  | line :: lines, eval, other =>
      (∀ name ∈ line.uses eval.namespc, eval.namespc name = other.namespc name) ∧
        UsesAlike lines (evalSpecLine eval line) (evalSpecLine other line)

/-- The line assigns the metric. -/
def SpecLine.Yields (lval : Text) (namespc : Namespace) : SpecLine → Prop
  | .metric other guard expr =>
      other = lval ∧ (specStatement other guard expr).result Operator.apply namespc ≠ none
  | _ => False

/-- One of the spec lines assigns the metric in its turn. -/
def YieldsMetric (lval : Text) : List SpecLine → Evaluation → Prop
  | [], _ => False
  | line :: lines, eval =>
      line.Yields lval eval.namespc ∨ YieldsMetric lval lines (evalSpecLine eval line)

/-- The levels in their turns, each with the namespace that it finds. -/
def turns (order : KeyOrder) (specs : List SpecLine) :
    MetricsState → List Level → List (Level × Namespace)
  | _, [] => []
  | state, level :: levels =>
      (level, state.namespc) ::
        turns order specs (computeSingleLevelMetrics order specs state level.counts).1 levels

/-- The metrics of a level whose turn comes with this namespace. -/
def levelMetrics (order : KeyOrder) (cfg : MetricsConfig) (level : Level) (namespc : Namespace) :
    Hash (Option ℚ) :=
  storedMetrics cfg.wallclockUsecs level
    (computeSingleLevelMetrics order cfg.specs { namespc } level.counts).2

/-- A run of the report: what it has read, and the order in which its hashes give their
keys. -/
structure ReportRun where
  order : KeyOrder
  report : Report

namespace ReportRun

variable (run : ReportRun) (cfg : MetricsConfig)

/-- The turns of the levels. -/
def turns : List (Level × Namespace) :=
  Papiex.turns run.order cfg.specs { namespc := cfg.constants }
    (reportLevels run.order cfg run.report)

/-- The evaluation of a level before the first spec line. -/
def begin (counts : Hash ℚ) (namespc : Namespace) : Evaluation :=
  { namespc := setCounts run.order counts namespc }

/-- The level evaluated last: its counts, and the namespace it finds. -/
def lastTurn : Option (Hash ℚ × Namespace) :=
  ((run.turns cfg).filterMap fun turn => turn.1.counts.map (·, turn.2)).getLast?

/-- The run prints this metric of the level, if the level has it: it comes to the level,
and the level evaluated last yields the metric. -/
def Prints (name : LevelName) (lval : Text) : Prop :=
  name.isPrinted run.report = true ∧
    ∃ last ∈ run.lastTurn cfg, YieldsMetric lval cfg.specs (run.begin last.1 last.2)

end ReportRun

/-- The same metrics are stored, and the same lines are printed for them. -/
structure DerivedSection.SameMetrics (first second : DerivedSection) : Prop where
  derived : first.derived = second.derived
  lines : ∀ lval formatted val,
    .metric lval formatted val ∈ first.lines ↔ .metric lval formatted val ∈ second.lines

/-- Two runs have the same metrics for a level. -/
def SectionsAgree (cfg : MetricsConfig) (first second : ReportRun) (level : Level) : Prop :=
  ∀ left right, (level, left) ∈ derivedSections first.order cfg first.report →
    (level, right) ∈ derivedSections second.order cfg second.report → left.SameMetrics right

/-! ## One level -/

section OneLevel

variable {eval other : Evaluation}

/-- Two evaluations have come to the same so far, whatever the namespaces hold. -/
structure Evaluation.SameOutcome (eval other : Evaluation) : Prop where
  specsOrdered : eval.specsOrdered = other.specsOrdered
  tempLvals : eval.tempLvals = other.tempLvals
  derived : eval.derived = other.derived

theorem evalSpecLine_sameOutcome {line : SpecLine} (h : eval.SameOutcome other)
    (huses : ∀ name ∈ line.uses eval.namespc, eval.namespc name = other.namespc name) :
    (evalSpecLine eval line).SameOutcome (evalSpecLine other line) := by
  obtain ⟨hspecs, htemps, hderived⟩ := h
  cases line with
  | comment => exact ⟨hspecs, htemps, hderived⟩
  | text stmt =>
      refine ⟨?_, htemps, hderived⟩
      show eval.specsOrdered ++ _ = other.specsOrdered ++ _
      rw [hspecs]
  | metric lval guard expr =>
      have hresult : (specStatement lval guard expr).result Operator.apply eval.namespc =
          (specStatement lval guard expr).result Operator.apply other.namespc :=
        Statement.result_congr huses
      unfold evalSpecLine
      simp only [hresult]
      split
      · exact ⟨hspecs, htemps, hderived⟩
      · refine ⟨?_, ?_, ?_⟩
        · rw [hspecs]
        · rw [htemps]
        · rw [hderived]

/-- **Spec lines that use nothing in which two namespaces differ** come to the same in
both. -/
theorem foldl_evalSpecLine_sameOutcome {lines : List SpecLine} (h : eval.SameOutcome other)
    (huses : UsesAlike lines eval other) :
    (lines.foldl evalSpecLine eval).SameOutcome (lines.foldl evalSpecLine other) := by
  induction lines generalizing eval other with
  | nil => exact h
  | cons line lines ih => exact ih (evalSpecLine_sameOutcome h huses.1) huses.2

/-- A line puts a metric into the list exactly if it assigns it. -/
theorem metric_mem_evalSpecLine_iff {lval : Text} {line : SpecLine} :
    .metric lval ∈ (evalSpecLine eval line).specsOrdered ↔
      .metric lval ∈ eval.specsOrdered ∨ line.Yields lval eval.namespc := by
  cases line with
  | comment => simp [evalSpecLine, SpecLine.Yields]
  | text stmt => simp [evalSpecLine, SpecLine.Yields]
  | metric name guard expr =>
      unfold evalSpecLine SpecLine.Yields
      cases hresult : (specStatement name guard expr).result Operator.apply eval.namespc with
      | none => simp [hresult]
      | some val =>
          simp only [List.mem_append, List.mem_singleton, SpecEntry.metric.injEq, ne_eq, hresult,
            reduceCtorEq, not_false_eq_true, and_true, eq_comm]

/-- **The list of an evaluation** has the metrics that its lines yield. -/
theorem metric_mem_foldl_evalSpecLine_iff {lval : Text} {lines : List SpecLine} :
    .metric lval ∈ (lines.foldl evalSpecLine eval).specsOrdered ↔
      .metric lval ∈ eval.specsOrdered ∨ YieldsMetric lval lines eval := by
  induction lines generalizing eval with
  | nil => simp [YieldsMetric]
  | cons line lines ih =>
      rw [List.foldl_cons, ih, metric_mem_evalSpecLine_iff, YieldsMetric, or_assoc]

/-- **A level in whose turn the spec lines use nothing different has the same metrics.** -/
theorem levelMetrics_congr {first second : ReportRun} {cfg : MetricsConfig} {level : Level}
    {namespc namespc' : Namespace}
    (h : ∀ counts ∈ level.counts,
      UsesAlike cfg.specs (first.begin counts namespc) (second.begin counts namespc')) :
    levelMetrics first.order cfg level namespc = levelMetrics second.order cfg level namespc' := by
  unfold levelMetrics
  congr 1
  cases hcounts : level.counts with
  | none => rfl
  | some counts =>
      have hsame : (cfg.specs.foldl evalSpecLine (first.begin counts namespc)).SameOutcome
          (cfg.specs.foldl evalSpecLine (second.begin counts namespc')) :=
        foldl_evalSpecLine_sameOutcome ⟨rfl, rfl, rfl⟩ (h counts hcounts)
      exact hsame.derived

end OneLevel

/-! ## The levels -/

section Levels

variable {order : KeyOrder} {cfg : MetricsConfig} {specs : List SpecLine} {state : MetricsState}
variable {levels : List Level}

/-- Every level has its turn. -/
theorem map_fst_turns : (turns order specs state levels).map Prod.fst = levels := by
  induction levels generalizing state with
  | nil => rfl
  | cons level levels ih => rw [turns, List.map_cons, ih]

/-- What is derived for a level depends on the namespace that it finds. -/
theorem computeMetrics_results :
    (computeMetrics order specs state levels).2 =
      (turns order specs state levels).map fun turn =>
        (turn.1,
          (computeSingleLevelMetrics order specs { namespc := turn.2 } turn.1.counts).2) := by
  induction levels generalizing state with
  | nil => rfl
  | cons level levels ih =>
      rw [turns, List.map_cons, ← ih]
      -- the list of fields that the level finds makes no difference
      cases hcounts : level.counts <;>
        simp only [computeMetrics, computeSingleLevelMetrics, hcounts]

/-- **The list of fields is the one of the level evaluated last.** -/
theorem computeMetrics_specsOrdered :
    (computeMetrics order specs state levels).1.specsOrdered =
      ((((turns order specs state levels).filterMap fun turn =>
        turn.1.counts.map (·, turn.2)).getLast?).map fun last =>
          (evalSpecs order specs last.2 last.1).specsOrdered).getD state.specsOrdered := by
  induction levels generalizing state with
  | nil => rfl
  | cons level levels ih =>
      rw [computeMetrics, turns]
      simp only [ih]
      cases hcounts : level.counts with
      | none => rw [List.filterMap_cons_none (by rw [hcounts]; rfl)]; rfl
      | some counts =>
          rw [List.filterMap_cons_some (by rw [hcounts]; rfl), List.getLast?_cons]
          cases hlast : ((turns order specs
            (computeSingleLevelMetrics order specs state (some counts)).1 levels).filterMap
              fun turn => turn.1.counts.map (·, turn.2)).getLast? <;> rfl

/-- The keys of a hash are each given once. -/
theorem nodup_keys {V : Type} (order : KeyOrder) (hash : Hash V) : (order.keys hash).Nodup :=
  (order.perm _ _).nodup_iff.mpr hash.nodupKeys

/-- The names of the levels of a process. -/
def processLevelNames (order : KeyOrder) (report : Report) (pid : Text) : List LevelName :=
  ((((order.within pid).keys (report.processOf pid).threads).filter isNumeric).map
    (.thread pid)) ++ [.process pid]

theorem nodup_processLevelNames (order : KeyOrder) (report : Report) (pid : Text) :
    (processLevelNames order report pid).Nodup := by
  refine List.Nodup.append ?_ (List.nodup_singleton _) ?_
  · exact ((nodup_keys _ _).filter _).map fun tid tid' h => (LevelName.thread.inj h).2
  · intro name hthread hprocess
    obtain ⟨tid, -, rfl⟩ := List.mem_map.mp hthread
    cases List.mem_singleton.mp hprocess

/-- The levels of a process bear its name. -/
theorem pid_of_mem_processLevelNames {order : KeyOrder} {report : Report} {pid : Text}
    {name : LevelName} (h : name ∈ processLevelNames order report pid) :
    (∃ tid, name = .thread pid tid) ∨ name = .process pid := by
  rcases List.mem_append.mp h with hthread | hprocess
  · obtain ⟨tid, -, rfl⟩ := List.mem_map.mp hthread
    exact .inl ⟨tid, rfl⟩
  · exact .inr (List.mem_singleton.mp hprocess)

theorem map_name_reportLevels (order : KeyOrder) (cfg : MetricsConfig) (report : Report) :
    (reportLevels order cfg report).map Level.name =
      (((order.keys report.processData).filter isNumeric).flatMap
        (processLevelNames order report)) ++ [.job] := by
  simp only [reportLevels, jobLevels, computeTotals, List.map_append, List.map_flatMap,
    List.flatMap_map, List.map_map]
  rfl

/-- **A job has each level once.** -/
theorem nodup_reportLevels (order : KeyOrder) (cfg : MetricsConfig) (report : Report) :
    (reportLevels order cfg report).Nodup := by
  refine List.Nodup.of_map Level.name ?_
  rw [map_name_reportLevels]
  refine List.Nodup.append ?_ (List.nodup_singleton _) ?_
  · rw [List.nodup_flatMap]
    refine ⟨fun pid _ => nodup_processLevelNames order report pid, ?_⟩
    refine ((nodup_keys order report.processData).filter _).imp fun hne name h h' => hne ?_
    rcases pid_of_mem_processLevelNames h with ⟨tid, rfl⟩ | rfl <;>
      rcases pid_of_mem_processLevelNames h' with ⟨tid', heq⟩ | heq <;> cases heq <;> rfl
  · intro name hprocess hjob
    obtain ⟨pid, -, hname⟩ := List.mem_flatMap.mp hprocess
    rw [List.mem_singleton.mp hjob] at hname
    rcases pid_of_mem_processLevelNames hname with ⟨tid, heq⟩ | heq <;> cases heq

end Levels

/-! ## The lines -/

section Lines

variable {min : Bool} {specsOrdered : List SpecEntry} {derived : Hash (Option ℚ)}

/-- A metric is printed if it is defined for the level and in the list. -/
theorem metric_mem_printSingleLevel_iff {lval formatted : Text} {val : ℚ} :
    .metric lval formatted val ∈ printSingleLevel min specsOrdered derived ↔
      .metric lval ∈ specsOrdered ∧ formatted = formattedField lval ∧
        ∃ raw, derived.lookup lval = some (some raw) ∧ val = printedValue min lval raw := by
  unfold printSingleLevel
  by_cases hempty : derived.entries.isEmpty = true
  · rw [if_pos hempty]
    have hlookup : derived.lookup lval = none := by
      rw [AList.lookup_eq_none]
      intro hmem
      rw [AList.mem_keys, AList.keys, List.isEmpty_iff.mp hempty] at hmem
      cases hmem
    simp [hlookup]
  · rw [if_neg hempty, List.mem_filterMap]
    constructor
    · rintro ⟨entry, hentry, hline⟩
      cases entry with
      | text stmt => cases hline
      | metric other =>
          simp only at hline
          split at hline
          · rename_i raw hraw
            simp only [metricLine, Option.some.injEq, DerivedLine.metric.injEq] at hline
            obtain ⟨rfl, rfl, rfl⟩ := hline
            exact ⟨hentry, rfl, raw, hraw, rfl⟩
          · cases hline
    · rintro ⟨hentry, rfl, raw, hraw, rfl⟩
      refine ⟨_, hentry, ?_⟩
      simp only [hraw]
      rfl

end Lines

/-! ## The sections -/

section Sections

variable {run : ReportRun} {cfg : MetricsConfig} {level : Level} {namespc namespc' : Namespace}

/-- The turn of a level is its only one. -/
theorem eq_of_mem_turns (h : (level, namespc) ∈ run.turns cfg)
    (h' : (level, namespc') ∈ run.turns cfg) : namespc = namespc' := by
  have hnodup : ((run.turns cfg).map Prod.fst).Nodup := by
    rw [ReportRun.turns, map_fst_turns]
    exact nodup_reportLevels _ _ _
  exact (Prod.mk.inj (List.inj_on_of_nodup_map hnodup h h' rfl)).2

/-- The list of fields when `print_data` begins. -/
def ReportRun.finalSpecsOrdered (run : ReportRun) (cfg : MetricsConfig) : List SpecEntry :=
  ((run.lastTurn cfg).map fun last =>
    (evalSpecs run.order cfg.specs last.2 last.1).specsOrdered).getD []

/-- The section of a level, from the namespace that it finds in its turn. -/
def ReportRun.sectionOf (run : ReportRun) (cfg : MetricsConfig) (level : Level)
    (namespc : Namespace) : DerivedSection where
  derived := levelMetrics run.order cfg level namespc
  lines :=
    if level.name.isPrinted run.report then
      printSingleLevel cfg.min (run.finalSpecsOrdered cfg)
        (levelMetrics run.order cfg level namespc)
    else []

/-- **The sections of a run are those of its turns.** -/
theorem derivedSections_eq (run : ReportRun) (cfg : MetricsConfig) :
    derivedSections run.order cfg run.report =
      (run.turns cfg).map fun turn => (turn.1, run.sectionOf cfg turn.1 turn.2) := by
  rw [derivedSections]
  simp only [computeMetrics_results, computeMetrics_specsOrdered, List.map_map]
  rfl

theorem mem_derivedSections_iff (hturn : (level, namespc) ∈ run.turns cfg)
    {found : DerivedSection} :
    (level, found) ∈ derivedSections run.order cfg run.report ↔
      found = run.sectionOf cfg level namespc := by
  rw [derivedSections_eq, List.mem_map]
  constructor
  · rintro ⟨⟨level', namespc'⟩, hturn', heq⟩
    obtain ⟨rfl, rfl⟩ := Prod.mk.inj heq
    rw [eq_of_mem_turns hturn hturn']
  · rintro rfl
    exact ⟨(level, namespc), hturn, rfl⟩

/-- What a run prints is what it lists. -/
theorem prints_iff {name : LevelName} {lval : Text} :
    run.Prints cfg name lval ↔
      name.isPrinted run.report = true ∧ .metric lval ∈ run.finalSpecsOrdered cfg := by
  refine and_congr_right fun _ => ?_
  unfold ReportRun.finalSpecsOrdered
  cases run.lastTurn cfg with
  | none => simp
  | some last =>
      have hnone : .metric lval ∉ (run.begin last.1 last.2).specsOrdered := List.not_mem_nil
      have hlist : .metric lval ∈ (cfg.specs.foldl evalSpecLine
          (run.begin last.1 last.2)).specsOrdered ↔ _ := metric_mem_foldl_evalSpecLine_iff
      simp only [Option.map_some, Option.getD_some, Option.mem_some_iff, exists_eq_left']
      exact (hlist.trans (or_iff_right hnone)).symm

/-- **A metric of a level is printed exactly if the run prints it.** -/
theorem metric_mem_sectionOf_lines_iff {lval formatted : Text} {val : ℚ} :
    .metric lval formatted val ∈ (run.sectionOf cfg level namespc).lines ↔
      run.Prints cfg level.name lval ∧ formatted = formattedField lval ∧
        ∃ raw, (levelMetrics run.order cfg level namespc).lookup lval = some (some raw) ∧
          val = printedValue cfg.min lval raw := by
  rw [prints_iff]
  unfold ReportRun.sectionOf
  by_cases hprinted : level.name.isPrinted run.report = true
  · simp only [hprinted, if_true, metric_mem_printSingleLevel_iff, true_and]
  · simp [hprinted]

end Sections

instance decidableUsesAlike : ∀ lines eval other, Decidable (UsesAlike lines eval other)
  | [], _, _ => isTrue trivial
  | line :: lines, eval, other =>
      have := decidableUsesAlike lines (evalSpecLine eval line) (evalSpecLine other line)
      inferInstanceAs (Decidable (_ ∧ _))

/-- `1000 * $PAPI_L1_DCM / $references`. -/
def missesPer (references : Text) : SpecExpr :=
  .binary .div (.binary .mul (.const 1000) (.var "PAPI_L1_DCM".toList)) (.var references)

/-- The two lines of the spec file `papi` on misses in the first data cache: the second
is for processors that do not count loads and stores. -/
def missesSpecs : List SpecLine :=
  let lval := "L1_Data_Misses_Per_1000_Load_Stores".toList
  [.metric lval none (missesPer "PAPI_LST_INS".toList),
    .metric lval (some lval) (missesPer "PAPI_L1_DCA".toList)]

/-- A report with these spec lines. -/
def missesConfig : MetricsConfig :=
  { specs := missesSpecs, constants := fun _ => none, wallclockUsecs := none, min := false }

/-- The counts of a process. -/
def missesCounts (misses loadStores : ℚ) : Hash ℚ :=
  (AList.insert "PAPI_L1_DCM".toList misses ∅).insert "PAPI_LST_INS".toList loadStores

/-- A job of two processes without threads, the first of which is evaluated first. -/
def twoProcesses (first second : Hash ℚ) : ReportRun where
  order := insertionOrder
  report :=
    { processData := (AList.insert ['2'] { counts := second } ∅).insert ['1'] { counts := first } }

/-- The level of the second process. -/
def secondProcess (counts : Hash ℚ) : Level := { name := .process ['2'], counts := some counts }

end Papiex
