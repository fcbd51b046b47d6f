import Mathlib.Data.List.Perm.Basic
import Papiex.Lib.Strtok
import Papiex.Report.Input

/-!
# The parameters of the processor

`parse_args` knows the latencies of a few processors.  It puts them as `NAME=value`
pairs, with a comma between two of them, into `PAPIEX_REPORT_ARCH_VALUES`, in front of
what the variable holds already.  `process_environment` of the report splits the variable
at the commas, cuts each piece at the last `=` of its first word, and lets Perl evaluate
an assignment.

The driver joins its own list and the inherited one with a colon.  So its last pair and
the first inherited one are one piece for the report, whatever the pairs are; that there
is one piece too few is all that the argument needs.

What Perl makes of an assignment is a parameter; all that is assumed of it is that it
reads small numerals and plain quoted strings as what they stand for.

## Main results

* `archValues_eq`: what the driver writes into the variable.
* `processEnvironment_eq_ok_iff`: when the report gets through it.
* `arch_values_arrive_iff`: when the values are the same at both ends.

## Design notes

The variable is taken apart in the order of the script: at the commas, then at the last `=`
of the first word.  Where the texts of the driver and of the environment meet, a colon is all
there is between them, so the pieces of the whole are one fewer than those of both parts.
-/

namespace Papiex

open Chars

/-! ## The driver -/

/-- What the driver reads of `PAPI_hw_info_t`. -/
structure HwInfo where
  vendor : ℤ
  vendorString : Text
  modelString : Text
  cpuidFamily : ℤ
  cpuidModel : ℤ

/-- `is_intel_core_processor`. -/
def isIntelCoreProcessor (vendor family m : ℤ) : ℤ :=
  if vendor = 1 ∧ family = 6 ∧ (m = 26 ∨ m = 30 ∨ m = 37 ∨ m = 44 ∨ m = 46 ∨ m = 47) then m else 0

/-- An Itanium 2, by `INTEL_VENDOR_STRING` and `INTEL_ITANIUM2_MODEL_STRING`. -/
def HwInfo.isItanium2 (hwinfo : HwInfo) : Bool :=
  hwinfo.vendorString = "GenuineIntel".toList && hwinfo.modelString = "32".toList

/-- `papiex_report_arch_values` before the environment is looked at. -/
def HwInfo.archValues (hwinfo : HwInfo) : Text :=
  let values :=
    if isIntelCoreProcessor hwinfo.vendor hwinfo.cpuidFamily hwinfo.cpuidModel ≠ 0 then
      "CPU=\"".toList ++ hwinfo.modelString ++
        "\",L2_LATENCY=10,L3_LATENCY=40,MEM_LATENCY=200,WORD_SIZE=8".toList
    else []
  if hwinfo.isItanium2 then
    "CPU=\"Intel Itanium 2\",L2_LATENCY=5,L3_LATENCY=14,MEM_LATENCY=200,WORD_SIZE=8".toList
  else values

/-- `PAPIEX_REPORT_ARCH_VALUES` after `parse_args`. -/
def HwInfo.setArchValues (hwinfo : HwInfo) (old : Option Text) : Option Text :=
  if hwinfo.archValues = [] then old
  else
    match old with
    | none => some hwinfo.archValues
    | some old => some (hwinfo.archValues ++ ':' :: old)

/-! ## The report -/

/-- What `eval` makes of `$name = expression ;`: the value that is assigned, or nothing if
an error or a warning sets `$@`. -/
abbrev PerlEval := (name expression : Text) → Option Text

/-- One assignment: the variable, the expression as it is written, and its value. -/
structure ArchValue where
  name : Text
  expression : Text
  value : Text
  deriving DecidableEq

/-- `chomp`. -/
def chomp (text : Text) : Text := if text.getLast? = some '\n' then text.dropLast else text

/-- `split(/,/, $var)`, which leaves out empty pieces at the end. -/
def splitCommas (text : Text) : List Text := (text.splitOn ',').rdropWhile List.isEmpty

/-- `(\S+)=(.*)` at the start of the text.  The greedy name reaches to the last `=` of
the word, and the expression ends with the line. -/
def matchPairHere (text : Text) : Option (Text × Text) :=
  let matched := (text.takeWhile fun c => !isSpace c).rdropWhile fun c => c ≠ '='
  if 2 ≤ matched.length then
    some (matched.dropLast, (text.drop matched.length).takeWhile fun c => c ≠ '\n')
  else none

/-- `(\S+)=(.*)` at the first place where it matches. -/
def matchPair : Text → Option (Text × Text)
  | [] => none
  | c :: rest => (matchPairHere (c :: rest)).or (matchPair rest)

/-- The body of the loop of `process_environment`. -/
def assignTuple (eval : PerlEval) (assigned : List ArchValue) (tuple : Text) :
    Except Text (List ArchValue) :=
  match matchPair tuple with
  | none => .ok assigned
  | some (name, expression) =>
      match eval name expression with
      | none =>
          .error ("Could not eval: $".toList ++ name ++ " = ".toList ++ expression ++ ";\n".toList)
      | some value => .ok (assigned ++ [{ name, expression, value }])

/-- `process_environment`: the assignments, or the message it dies with. -/
def processEnvironment (eval : PerlEval) : Option Text → Except Text (List ArchValue)
  | none => .ok []
  | some var => FallibleRun.run (assignTuple eval) [] (splitCommas (chomp var))

/-! ## What is asked of them -/

/-- The pair as it is written. -/
def ArchValue.text (pair : ArchValue) : Text := pair.name ++ '=' :: pair.expression

/-- The pairs, with a comma between two of them. -/
def archText (pairs : List ArchValue) : Text := [','].intercalate (pairs.map ArchValue.text)

/-- `[A-Za-z_]\w*`. -/
def isIdentifier : Text → Bool
  | [] => false
  | c :: rest => (c.isAlpha || c = '_') && rest.all fun c => c.isAlphanum || c = '_'

/-- A `NAME=value` pair whose value has no comma. -/
structure ArchValue.IsPair (pair : ArchValue) : Prop where
  name : isIdentifier pair.name = true
  comma : ',' ∉ pair.expression

/-- The text in double quotes. -/
def quoted (text : Text) : Text := '"' :: text ++ ['"']

/-- In double quotes, every character of the text stands for itself: there is no quote, no
backslash and no dollar sign, and an `@` is followed by a blank. -/
def plainInQuotes : Text → Bool
  | [] => true
  | c :: rest =>
      c ≠ '"' && c ≠ '\\' && c ≠ '$' && (c ≠ '@' || rest.head?.all isSpace) && plainInQuotes rest

/-- Perl reads small numerals and plain quoted strings as what they stand for. -/
structure ReadsLiterals (eval : PerlEval) : Prop where
  number : ∀ name n, isIdentifier name = true → n < 2 ^ 31 →
    eval name (decimal n) = some (decimal n)
  plain : ∀ name text, isIdentifier name = true → plainInQuotes text = true →
    eval name (quoted text) = some text

/-- The parameter that is the name of the processor. -/
def cpuValue (cpu : Text) : ArchValue :=
  { name := "CPU".toList, expression := quoted cpu, value := cpu }

/-- A parameter that is a number. -/
def numberValue (name : String) (n : ℕ) : ArchValue :=
  { name := name.toList, expression := decimal n, value := decimal n }

/-- The pairs with these parameters. -/
def latencies (cpu : Text) (l2 l3 : ℕ) : List ArchValue :=
  [cpuValue cpu, numberValue "L2_LATENCY" l2, numberValue "L3_LATENCY" l3,
    numberValue "MEM_LATENCY" 200, numberValue "WORD_SIZE" 8]

/-- The name of the processor that the driver writes. -/
def HwInfo.cpu (hwinfo : HwInfo) : Text :=
  if hwinfo.isItanium2 then "Intel Itanium 2".toList else hwinfo.modelString

/-- The pairs that `parse_args` adds. -/
def HwInfo.ownValues (hwinfo : HwInfo) : List ArchValue :=
  if hwinfo.isItanium2 then latencies hwinfo.cpu 5 14 else latencies hwinfo.cpu 10 40

/-- **The parameters arrive**: the report does not die, and makes one assignment for each
pair of the driver and each inherited one, and no other. -/
def ArchValuesArrive (eval : PerlEval) (hwinfo : HwInfo) (inherited : Option (List ArchValue)) :
    Prop :=
  ∃ assigned, processEnvironment eval (hwinfo.setArchValues (inherited.map archText)) =
      .ok assigned ∧
    assigned.Perm (hwinfo.ownValues ++ inherited.getD [])

/-- The report finds this name of a processor in the variable. -/
structure ReadableCpu (eval : PerlEval) (cpu : Text) : Prop where
  comma : ',' ∉ cpu
  newline : '\n' ∉ cpu
  equals : '=' ∉ cpu.takeWhile fun c => !isSpace c
  reads : eval "CPU".toList (quoted cpu) = some cpu

/-! ## The assignments -/

variable {eval : PerlEval} {pairs assigned done : List ArchValue} {text : Text}

/-- What is evaluated: the names and the expressions. -/
def statements (var : Text) : List (Text × Text) := (splitCommas (chomp var)).filterMap matchPair

/-- The name and the expression. -/
def ArchValue.statement (pair : ArchValue) : Text × Text := (pair.name, pair.expression)

/-- Perl's `split` drops empty pieces at the end; none of them is a pair. -/
theorem filterMap_splitCommas (text : Text) :
    (splitCommas text).filterMap matchPair = (text.splitOn ',').filterMap matchPair := by
  rw [splitCommas]
  induction text.splitOn ',' using List.reverseRecOn with
  | nil => rfl
  | append_singleton pieces piece ih =>
      cases piece with
      | nil => simp [List.rdropWhile_concat_pos, ih, matchPair]
      | cons c rest => rw [List.rdropWhile_concat_neg _ _ _ (by simp)]

/-- **The loop makes the assignments** that are written there, with the values that Perl
finds. -/
theorem run_assignTuple_eq_ok_iff (tuples : List Text) :
    FallibleRun.run (assignTuple eval) done tuples = .ok assigned ↔
      ∃ new, assigned = done ++ new ∧ tuples.filterMap matchPair = new.map ArchValue.statement ∧
        ∀ pair ∈ new, eval pair.name pair.expression = some pair.value := by
  induction tuples generalizing done with
  | nil =>
      rw [FallibleRun.run_nil, Except.ok.injEq]
      constructor
      · rintro rfl
        exact ⟨[], by simp⟩
      · rintro ⟨new, rfl, hnew, -⟩
        rw [List.filterMap_nil, eq_comm, List.map_eq_nil_iff] at hnew
        rw [hnew, List.append_nil]
  | cons tuple tuples ih =>
      rw [FallibleRun.run_cons_eq_ok_iff]
      cases hmatch : matchPair tuple with
      | none =>
          have hstep : assignTuple eval done tuple = .ok done := by rw [assignTuple, hmatch]
          simp only [hstep, Except.ok.injEq, exists_eq_left', List.filterMap_cons_none hmatch]
          exact ih
      | some pair =>
          obtain ⟨name, expression⟩ := pair
          rw [List.filterMap_cons_some hmatch]
          constructor
          · rintro ⟨next, hnext, hrun⟩
            rw [assignTuple, hmatch] at hnext
            dsimp only at hnext
            cases hvalue : eval name expression with
            | none => rw [hvalue] at hnext; cases hnext
            | some value =>
                rw [hvalue] at hnext
                cases hnext
                obtain ⟨new, rfl, hnew, hvalues⟩ := ih.mp hrun
                refine ⟨{ name, expression, value } :: new, by simp, by rw [hnew]; rfl, ?_⟩
                exact List.forall_mem_cons.mpr ⟨hvalue, hvalues⟩
          · rintro ⟨new, rfl, hnew, hvalues⟩
            obtain ⟨first, new, rfl⟩ : ∃ first rest, new = first :: rest := by
              cases new with
              | nil => cases hnew
              | cons first rest => exact ⟨first, rest, rfl⟩
            rw [List.map_cons, List.cons.injEq] at hnew
            obtain ⟨hfirst, hnew⟩ := hnew
            cases hfirst
            rw [List.forall_mem_cons] at hvalues
            refine ⟨done ++ [first], ?_, ih.mpr ⟨new, by simp, hnew, hvalues.2⟩⟩
            rw [assignTuple, hmatch]
            dsimp only
            rw [hvalues.1]

/-- **`process_environment` gets through** exactly if every statement is evaluated, and then it
has these values. -/
theorem processEnvironment_eq_ok_iff {var : Text} :
    processEnvironment eval (some var) = .ok assigned ↔
      statements var = assigned.map ArchValue.statement ∧
        ∀ pair ∈ assigned, eval pair.name pair.expression = some pair.value := by
  rw [processEnvironment, run_assignTuple_eq_ok_iff, statements]
  constructor
  · rintro ⟨new, rfl, hnew⟩
    exact hnew
  · intro h
    exact ⟨assigned, rfl, h⟩

/-! ## How a piece is cut -/

variable {name expression : Text}

/-- An identifier is made of letters, digits and underscores. -/
theorem isWordChar_of_mem (h : isIdentifier name = true) {c : Char} (hc : c ∈ name) :
    (c.isAlphanum || c = '_') = true := by
  cases name with
  | nil => cases hc
  | cons first rest =>
      rw [isIdentifier, Bool.and_eq_true, List.all_eq_true] at h
      rcases List.mem_cons.mp hc with rfl | hrest
      · have hfirst := h.1
        rw [Bool.or_eq_true] at hfirst ⊢
        refine hfirst.imp_left fun halpha => ?_
        rw [Char.isAlphanum, halpha]
        rfl
      · exact h.2 c hrest

theorem isSpace_of_mem_identifier (h : isIdentifier name = true) {c : Char} (hc : c ∈ name) :
    isSpace c = false := by
  have hword := isWordChar_of_mem h hc
  by_contra hspace
  simp only [isSpace, Bool.not_eq_false, Bool.or_eq_true, decide_eq_true_eq] at hspace
  rcases hspace with ((((rfl | rfl) | rfl) | rfl) | rfl) | rfl
  all_goals cases hword

theorem not_mem_identifier (h : isIdentifier name = true) {c : Char}
    (hc : (c.isAlphanum || c = '_') = false) : c ∉ name := by
  intro hmem
  rw [isWordChar_of_mem h hmem] at hc
  cases hc

/-- The name reaches over what the first word of the expression has up to its last `=`. -/
theorem matchPair_eq (hname : isIdentifier name = true) (expression : Text) :
    ∃ back, (expression.takeWhile fun c => !isSpace c).rdropWhile (fun c => c ≠ '=') = back ∧
      matchPair (name ++ '=' :: expression) = some ((name ++ '=' :: back).dropLast,
        (expression.drop back.length).takeWhile fun c => c ≠ '\n') := by
  refine ⟨_, rfl, ?_⟩
  have hword : (name ++ '=' :: expression).takeWhile (fun c => !isSpace c) =
      name ++ '=' :: expression.takeWhile fun c => !isSpace c := by
    rw [List.takeWhile_append_of_pos fun c hc => by simp [isSpace_of_mem_identifier hname hc]]
    rfl
  have hmatched := rdropWhile_append_cons (p := fun c => c ≠ '=') (c := '=') (by simp) name
    (expression.takeWhile fun c => !isSpace c)
  generalize (expression.takeWhile fun c => !isSpace c).rdropWhile (fun c => c ≠ '=') = back
    at hmatched
  have hlength : (name ++ '=' :: back).length = name.length + 1 + back.length := by
    simp
    omega
  have hpos : 0 < name.length := by
    cases name with
    | nil => cases hname
    | cons first rest => simp
  have hdrop : (name ++ '=' :: expression).drop (name.length + 1 + back.length) =
      expression.drop back.length := by
    rw [Nat.add_assoc, ← List.drop_drop, List.drop_left, Nat.add_comm, List.drop_succ_cons]
  have hhere : matchPairHere (name ++ '=' :: expression) = some ((name ++ '=' :: back).dropLast,
      (expression.drop back.length).takeWhile fun c => c ≠ '\n') := by
    rw [matchPairHere, hword, hmatched, hlength, hdrop, if_pos (by omega)]
  obtain ⟨first, rest, hcons⟩ :=
    List.exists_cons_of_ne_nil (show name ++ '=' :: expression ≠ [] by simp)
  rw [hcons] at hhere ⊢
  rw [matchPair, hhere, Option.some_or]

/-- **Where a pair is cut**: at its own `=`, if the first word of the expression has no other,
and else behind it. -/
theorem matchPair_pair (hname : isIdentifier name = true) (expression : Text) :
    ('=' ∉ (expression.takeWhile fun c => !isSpace c) ∧
        matchPair (name ++ '=' :: expression) =
          some (name, expression.takeWhile fun c => c ≠ '\n')) ∨
      ('=' ∈ (expression.takeWhile fun c => !isSpace c) ∧
        ∃ pair, matchPair (name ++ '=' :: expression) = some pair ∧ '=' ∈ pair.1) := by
  obtain ⟨back, hback, hmatch⟩ := matchPair_eq hname expression
  by_cases hequals : '=' ∈ expression.takeWhile fun c => !isSpace c
  · have hne : back ≠ [] := by
      rw [← hback, Ne, List.rdropWhile_eq_nil_iff]
      intro hall
      simpa using hall '=' hequals
    refine .inr ⟨hequals, _, hmatch, ?_⟩
    rw [List.dropLast_append_of_ne_nil (by simp), List.dropLast_cons_of_ne_nil hne]
    simp
  · have hnil : back = [] := by
      rw [← hback, List.rdropWhile_eq_nil_iff]
      intro c hc
      rw [decide_eq_true_eq]
      rintro rfl
      exact hequals hc
    rw [hnil] at hmatch
    refine .inl ⟨hequals, ?_⟩
    rw [hmatch, List.dropLast_concat]
    rfl

/-! ## The pieces -/

@[simp] theorem archText_nil : archText [] = [] := rfl

@[simp] theorem archText_singleton (pair : ArchValue) : archText [pair] = pair.text := by
  simp [archText]

@[simp] theorem archText_cons_cons (first second : ArchValue) (rest : List ArchValue) :
    archText (first :: second :: rest) = first.text ++ ',' :: archText (second :: rest) := by
  simp [archText]

theorem ArchValue.IsPair.comma_not_mem_text {pair : ArchValue} (h : pair.IsPair) :
    ',' ∉ pair.text := by
  rw [ArchValue.text, List.mem_append, List.mem_cons, not_or, not_or]
  exact ⟨not_mem_identifier h.name (by decide), by decide, h.comma⟩

/-- There is one comma less than there are pairs. -/
theorem count_archText (hpairs : ∀ pair ∈ pairs, pair.IsPair) :
    (archText pairs).count ',' = pairs.length - 1 := by
  induction pairs with
  | nil => rfl
  | cons first rest ih =>
      rw [List.forall_mem_cons] at hpairs
      have hfirst : first.text.count ',' = 0 :=
        List.count_eq_zero.mpr hpairs.1.comma_not_mem_text
      cases rest with
      | nil => rw [archText_singleton, hfirst]; rfl
      | cons second rest =>
          have hrest := ih hpairs.2
          rw [archText_cons_cons, List.count_append, List.count_cons_self, hfirst, hrest]
          simp

theorem count_chomp (text : Text) : (chomp text).count ',' = text.count ',' := by
  rw [chomp]
  split
  · rename_i hlast
    obtain ⟨front, rfl⟩ := List.getLast?_eq_some_iff.mp hlast
    rw [List.dropLast_concat, List.count_append]
    rfl
  · rfl

/-- There is one piece more than there are commas. -/
theorem length_splitOn (text : Text) : (text.splitOn ',').length = text.count ',' + 1 := by
  induction text with
  | nil => rfl
  | cons c rest ih =>
      rw [List.splitOn_cons_eq_if_modifyHead, List.count_cons]
      split
      · rw [List.length_cons, ih]
      · rw [List.length_modifyHead, ih]

/-- There are no more assignments than pieces. -/
theorem length_statements_le (var : Text) : (statements var).length ≤ var.count ',' + 1 := by
  rw [statements, filterMap_splitCommas]
  refine (List.length_filterMap_le _ _).trans ?_
  rw [length_splitOn, count_chomp]

/-- What is taken for the value of a pair is from its text. -/
theorem mem_of_matchPair {tuple : Text} {pair : Text × Text} (h : matchPair tuple = some pair)
    {c : Char} (hc : c ∈ pair.2) : c ∈ tuple ∧ c ≠ '\n' := by
  induction tuple with
  | nil => cases h
  | cons d rest ih =>
      rw [matchPair, Option.or_eq_some_iff] at h
      rcases h with hhere | ⟨-, hrest⟩
      · rw [matchPairHere, Option.ite_none_right_eq_some, Option.some.injEq] at hhere
        obtain ⟨-, rfl⟩ := hhere
        exact ⟨List.mem_of_mem_drop (List.takeWhile_subset _ hc), by
          simpa using List.mem_takeWhile_imp hc⟩
      · exact (ih hrest).imp_left (List.mem_cons_of_mem d)

/-- No expression has a comma or a newline. -/
theorem not_mem_of_mem_statements {var : Text} {pair : Text × Text} (h : pair ∈ statements var) :
    ',' ∉ pair.2 ∧ '\n' ∉ pair.2 := by
  rw [statements, filterMap_splitCommas, List.mem_filterMap] at h
  obtain ⟨tuple, htuple, hmatch⟩ := h
  refine ⟨fun hcomma => ?_, fun hnewline => (mem_of_matchPair hmatch hnewline).2 rfl⟩
  have htoken : tuple ∈ Strtok.tokens (· == ',') (chomp var) := by
    rw [Strtok.tokens, ← List.splitOn_eq_splitOnP, List.mem_filter]
    refine ⟨htuple, ?_⟩
    cases tuple with
    | nil => cases hmatch
    | cons c rest => rfl
  have hdelim := Strtok.not_isDelim_of_mem_tokens htoken (mem_of_matchPair hmatch hcomma).1
  cases hdelim

theorem chomp_eq_self (h : '\n' ∉ text) : chomp text = text := by
  refine if_neg fun hlast => h ?_
  obtain ⟨front, rfl⟩ := List.getLast?_eq_some_iff.mp hlast
  simp

/-- The variable has a newline only if an expression has one. -/
theorem newline_not_mem_archText (hpairs : ∀ pair ∈ pairs, pair.IsPair)
    (hnewline : ∀ pair ∈ pairs, '\n' ∉ pair.expression) : '\n' ∉ archText pairs := by
  induction pairs with
  | nil => exact List.not_mem_nil
  | cons first rest ih =>
      rw [List.forall_mem_cons] at hpairs hnewline
      have hfirst : '\n' ∉ first.text := by
        rw [ArchValue.text, List.mem_append, List.mem_cons, not_or, not_or]
        exact ⟨not_mem_identifier hpairs.1.name (by decide), by decide, hnewline.1⟩
      cases rest with
      | nil => rwa [archText_singleton]
      | cons second rest =>
          rw [archText_cons_cons, List.mem_append, List.mem_cons, not_or, not_or]
          exact ⟨hfirst, by decide, ih hpairs.2 hnewline.2⟩

/-- The pieces of the text are the pairs. -/
theorem statements_eq_filterMap (hpairs : ∀ pair ∈ pairs, pair.IsPair)
    (hnewline : ∀ pair ∈ pairs, '\n' ∉ pair.expression) :
    statements (archText pairs) = pairs.filterMap fun pair => matchPair pair.text := by
  rw [statements, filterMap_splitCommas, chomp_eq_self (newline_not_mem_archText hpairs hnewline)]
  by_cases hnil : pairs = []
  · rw [hnil]
    rfl
  · have hsplit : (archText pairs).splitOn ',' = pairs.map ArchValue.text := by
      refine List.splitOn_intercalate ',' (fun piece hpiece => ?_) (by simp [hnil])
      obtain ⟨pair, hpair, rfl⟩ := List.mem_map.mp hpiece
      exact (hpairs pair hpair).comma_not_mem_text
    rw [hsplit, List.filterMap_map]
    rfl

/-- An assignment to a variable comes from a pair with its name. -/
theorem exists_pair_of_mem_statements (hpairs : ∀ pair ∈ pairs, pair.IsPair)
    (hnewline : ∀ pair ∈ pairs, '\n' ∉ pair.expression) {name expression : Text}
    (hmem : (name, expression) ∈ statements (archText pairs)) (hname : '=' ∉ name) :
    ∃ pair ∈ pairs, pair.statement = (name, expression) ∧
      '=' ∉ pair.expression.takeWhile fun c => !isSpace c := by
  rw [statements_eq_filterMap hpairs hnewline, List.mem_filterMap] at hmem
  obtain ⟨pair, hpair, hmatch⟩ := hmem
  refine ⟨pair, hpair, ?_⟩
  rcases matchPair_pair (hpairs pair hpair).name pair.expression with
    ⟨hequals, hcut⟩ | ⟨-, other, hcut, hother⟩
  · rw [ArchValue.text, hcut, Option.some.injEq] at hmatch
    refine ⟨?_, hequals⟩
    rw [ArchValue.statement, ← hmatch, List.takeWhile_eq_self_iff.mpr]
    intro c hc
    rw [decide_eq_true_eq]
    rintro rfl
    exact hnewline pair hpair hc
  · rw [ArchValue.text, hcut, Option.some.injEq] at hmatch
    rw [hmatch] at hother
    exact absurd hother hname

/-- Nothing in the pair looks like a separator. -/
structure ArchValue.Survives (pair : ArchValue) : Prop extends pair.IsPair where
  newline : '\n' ∉ pair.expression
  equals : '=' ∉ pair.expression.takeWhile fun c => !isSpace c

/-- **Such pairs are found again.** -/
theorem statements_archText (h : ∀ pair ∈ pairs, pair.Survives) :
    statements (archText pairs) = pairs.map ArchValue.statement := by
  have hmatch : ∀ pair ∈ pairs, matchPair pair.text = (some ∘ ArchValue.statement) pair := by
    intro pair hpair
    have hsurvives := h pair hpair
    rcases matchPair_pair hsurvives.name pair.expression with ⟨-, hcut⟩ | ⟨hequals, -⟩
    · rw [ArchValue.text, hcut, List.takeWhile_eq_self_iff.mpr]
      · rfl
      · intro c hc
        rw [decide_eq_true_eq]
        rintro rfl
        exact hsurvives.newline hc
    · exact absurd hequals hsurvives.equals
  rw [statements_eq_filterMap (fun pair hpair => (h pair hpair).toIsPair)
    fun pair hpair => (h pair hpair).newline, List.filterMap_congr hmatch, List.filterMap_eq_map]

/-! ## The pairs of the driver -/

variable {hwinfo : HwInfo} {cpu : Text} {l2 l3 : ℕ}

/-- The variable as `papiex_report_arch_values` prints it, with the name of the processor and
the two latencies left open. -/
theorem archText_latencies (cpu : Text) (l2 l3 : ℕ) :
    archText (latencies cpu l2 l3) = "CPU=\"".toList ++ cpu ++ "\",L2_LATENCY=".toList ++
      decimal l2 ++ ",L3_LATENCY=".toList ++ decimal l3 ++
        ",MEM_LATENCY=200,WORD_SIZE=8".toList := by
  have hmem : decimal 200 = "200".toList := by decide
  have hword : decimal 8 = "8".toList := by decide
  simp only [latencies, cpuValue, numberValue, archText_cons_cons, archText_singleton,
    ArchValue.text, quoted, hmem, hword]
  simp

/-- **The driver writes the pairs of the processor's own branch**, if it writes any. -/
theorem archValues_eq (h : hwinfo.archValues ≠ []) :
    hwinfo.archValues = archText hwinfo.ownValues := by
  have hcore : archText (latencies hwinfo.modelString 10 40) =
      "CPU=\"".toList ++ hwinfo.modelString ++
        "\",L2_LATENCY=10,L3_LATENCY=40,MEM_LATENCY=200,WORD_SIZE=8".toList := by
    rw [archText_latencies, show decimal 10 = "10".toList by decide,
      show decimal 40 = "40".toList by decide]
    simp
  have hitanium : archText (latencies "Intel Itanium 2".toList 5 14) =
      "CPU=\"Intel Itanium 2\",L2_LATENCY=5,L3_LATENCY=14,MEM_LATENCY=200,WORD_SIZE=8".toList := by
    rw [archText_latencies, show decimal 5 = "5".toList by decide,
      show decimal 14 = "14".toList by decide]
    simp
  rw [HwInfo.archValues] at h ⊢
  rw [HwInfo.ownValues, HwInfo.cpu]
  split
  · exact hitanium.symm
  · rename_i hnot
    rw [if_neg hnot] at h
    split
    · exact hcore.symm
    · rename_i hother
      rw [if_neg hother] at h
      exact absurd rfl h

/-- What holds of the name and of numbers holds of all pairs. -/
theorem forall_mem_latencies {p : ArchValue → Prop} (hcpu : p (cpuValue cpu))
    (hnumber : ∀ name n, isIdentifier name.toList = true → p (numberValue name n)) :
    ∀ pair ∈ latencies cpu l2 l3, p pair := by
  simp only [latencies, List.forall_mem_cons]
  exact ⟨hcpu, hnumber _ _ rfl, hnumber _ _ rfl, hnumber _ _ rfl, hnumber _ _ rfl, by simp⟩

theorem survives_numberValue {name : String} (n : ℕ) (hname : isIdentifier name.toList = true) :
    (numberValue name n).Survives where
  name := hname
  comma := not_mem_decimal rfl
  newline := not_mem_decimal rfl
  equals := fun h => not_mem_decimal rfl (List.takeWhile_subset _ h)

/-- The quotes do not count. -/
theorem equals_mem_quoted_iff : '=' ∈ (quoted cpu).takeWhile (fun c => !isSpace c) ↔
    '=' ∈ cpu.takeWhile fun c => !isSpace c := by
  rw [show (quoted cpu).takeWhile (fun c => !isSpace c) =
      '"' :: (cpu ++ ['"']).takeWhile fun c => !isSpace c from rfl,
    List.mem_cons, or_iff_right (by decide)]
  induction cpu with
  | nil => simp [isSpace]
  | cons c cpu ih =>
      rw [List.cons_append, List.takeWhile_cons, List.takeWhile_cons]
      split
      · rw [List.mem_cons, List.mem_cons, ih]
      · rfl

/-- The name of the processor gets through if it is readable. -/
theorem ReadableCpu.survives (h : ReadableCpu eval cpu) :
    (cpuValue cpu).Survives where
  name := rfl
  comma := by simpa [cpuValue, quoted] using h.comma
  newline := by simpa [cpuValue, quoted] using h.newline
  equals := fun hequals => h.equals (equals_mem_quoted_iff.mp hequals)

theorem ReadableCpu.survives_latencies (h : ReadableCpu eval cpu) :
    ∀ pair ∈ latencies cpu l2 l3, pair.Survives :=
  forall_mem_latencies h.survives fun _ n hname => survives_numberValue n hname

theorem ReadableCpu.eval_latencies (hperl : ReadsLiterals eval) (h : ReadableCpu eval cpu)
    (hl2 : l2 < 2 ^ 31) (hl3 : l3 < 2 ^ 31) :
    ∀ pair ∈ latencies cpu l2 l3, eval pair.name pair.expression = some pair.value := by
  simp only [latencies, List.forall_mem_cons]
  exact ⟨h.reads, hperl.number _ l2 rfl hl2, hperl.number _ l3 rfl hl3,
    hperl.number _ 200 rfl (by decide), hperl.number _ 8 rfl (by decide), by simp⟩

theorem cpuValue_mem_of_perm {rest : List ArchValue}
    (hperm : assigned.Perm (latencies cpu l2 l3 ++ rest)) : cpuValue cpu ∈ assigned :=
  hperm.symm.subset (by simp [latencies])

/-- An assignment of the name of the processor tells how it is written. -/
theorem not_mem_of_cpuValue_mem {var : Text}
    (hstatements : statements var = assigned.map ArchValue.statement)
    (hcpu : cpuValue cpu ∈ assigned) : ',' ∉ cpu ∧ '\n' ∉ cpu := by
  have hmem := List.mem_map_of_mem (f := ArchValue.statement) hcpu
  rw [← hstatements] at hmem
  obtain ⟨hcomma, hnewline⟩ := not_mem_of_mem_statements hmem
  exact ⟨by simpa [ArchValue.statement, cpuValue, quoted] using hcomma,
    by simpa [ArchValue.statement, cpuValue, quoted] using hnewline⟩

theorem isPair_latencies (hcomma : ',' ∉ cpu) : ∀ pair ∈ latencies cpu l2 l3, pair.IsPair :=
  forall_mem_latencies ⟨rfl, by simpa [cpuValue, quoted] using hcomma⟩
    fun _ n hname => (survives_numberValue n hname).toIsPair

theorem newline_not_mem_latencies (hnewline : '\n' ∉ cpu) :
    ∀ pair ∈ latencies cpu l2 l3, '\n' ∉ pair.expression :=
  forall_mem_latencies (by simpa [cpuValue, quoted] using hnewline)
    fun _ n hname => (survives_numberValue n hname).newline

/-- The last pair with the colon and nothing behind it. -/
def colonPair : ArchValue :=
  { numberValue "WORD_SIZE" 8 with expression := decimal 8 ++ [':'] }

/-- What is put behind the variable is put behind its last expression. -/
theorem archText_concat_append (pairs : List ArchValue) (last : ArchValue) (text : Text) :
    archText (pairs ++ [last]) ++ text =
      archText (pairs ++ [{ last with expression := last.expression ++ text }]) := by
  induction pairs with
  | nil => simp [ArchValue.text]
  | cons first rest ih =>
      cases rest with
      | nil => simp [ArchValue.text]
      | cons second rest =>
          simp only [List.cons_append] at ih
          simp only [List.cons_append, archText_cons_cons, List.append_assoc, ih]

/-- A colon behind the variable becomes part of its last expression. -/
theorem archText_latencies_colon (cpu : Text) (l2 l3 : ℕ) :
    archText (latencies cpu l2 l3) ++ [':'] =
      archText ((latencies cpu l2 l3).take 4 ++ [colonPair]) :=
  archText_concat_append ((latencies cpu l2 l3).take 4) (numberValue "WORD_SIZE" 8) [':']

/-- **With a colon in between, there is a piece too few**, or the last pair has the colon in
it. -/
theorem not_arrive_of_inherited {pairs : List ArchValue}
    (hpairs : ∀ pair ∈ pairs, pair.IsPair)
    (hstatements : statements (archText (latencies cpu l2 l3) ++ ':' :: archText pairs) =
      assigned.map ArchValue.statement)
    (hperm : assigned.Perm (latencies cpu l2 l3 ++ pairs)) : False := by
  obtain ⟨hcomma, hnewline⟩ := not_mem_of_cpuValue_mem hstatements (cpuValue_mem_of_perm hperm)
  cases pairs with
  | cons first rest =>
      have hlength := length_statements_le
        (archText (latencies cpu l2 l3) ++ ':' :: archText (first :: rest))
      have hown : (latencies cpu l2 l3).length = 5 := rfl
      rw [hstatements, List.length_map, hperm.length_eq, List.length_append, List.length_cons,
        List.count_append, count_archText (isPair_latencies hcomma),
        List.count_cons_of_ne (by decide), count_archText hpairs, List.length_cons] at hlength
      omega
  | nil =>
      have hword : (("WORD_SIZE".toList, decimal 8) : Text × Text) ∈
          assigned.map ArchValue.statement :=
        List.mem_map.mpr
          ⟨numberValue "WORD_SIZE" 8, hperm.symm.subset (by simp [latencies]), rfl⟩
      -- with its colon, the text is a list of pairs as well
      have hforall : ∀ p : ArchValue → Prop, (∀ pair ∈ latencies cpu l2 l3, p pair) → p colonPair →
          ∀ pair ∈ (latencies cpu l2 l3).take 4 ++ [colonPair], p pair := by
        intro p hall hcolon pair hpair
        rcases List.mem_append.mp hpair with htake | hlast
        · exact hall pair (List.mem_of_mem_take htake)
        · rwa [List.mem_singleton.mp hlast]
      rw [← hstatements, archText_nil, archText_latencies_colon] at hword
      obtain ⟨pair, hpair, hstatement, -⟩ := exists_pair_of_mem_statements
        (hforall _ (isPair_latencies hcomma) ⟨rfl, by decide⟩)
        (hforall _ (newline_not_mem_latencies hnewline) (by decide)) hword (by decide)
      have hname : pair.name = "WORD_SIZE".toList := congrArg Prod.fst hstatement
      have hexpression : pair.expression = decimal 8 := congrArg Prod.snd hstatement
      have hnot : pair.name ≠ "WORD_SIZE".toList ∨ pair.expression ≠ decimal 8 := by
        simp only [latencies, List.take, List.cons_append, List.nil_append, List.mem_cons,
          List.not_mem_nil, or_false] at hpair
        rcases hpair with rfl | rfl | rfl | rfl | rfl
        · exact .inl (show "CPU".toList ≠ "WORD_SIZE".toList by decide)
        · exact .inl (show "L2_LATENCY".toList ≠ "WORD_SIZE".toList by decide)
        · exact .inl (show "L3_LATENCY".toList ≠ "WORD_SIZE".toList by decide)
        · exact .inl (by decide)
        · exact .inr (by decide)
      exact hnot.elim (fun h => h hname) (fun h => h hexpression)

/-- In every branch the values are a name, two latencies that fit an `int`, and two constants.
-/
theorem ownValues_eq (hwinfo : HwInfo) :
    ∃ l2 l3, l2 < 2 ^ 31 ∧ l3 < 2 ^ 31 ∧ hwinfo.ownValues = latencies hwinfo.cpu l2 l3 := by
  unfold HwInfo.ownValues
  split
  · exact ⟨5, 14, by decide, by decide, rfl⟩
  · exact ⟨10, 40, by decide, by decide, rfl⟩

/-- The report can read the name that the driver gives an Itanium 2. -/
theorem readableCpu_of_isItanium2 (hperl : ReadsLiterals eval) (h : hwinfo.isItanium2 = true) :
    ReadableCpu eval hwinfo.cpu := by
  rw [HwInfo.cpu, if_pos h]
  exact ⟨by decide, by decide, by decide, hperl.plain _ _ rfl (by decide)⟩

/-- **The parameters arrive** if and only if the variable was not set before, and the name of
the processor has no comma, no newline, no `=` in its first word, and nothing that Perl does
not leave alone in double quotes. -/
theorem arch_values_arrive_iff (eval : PerlEval) (hperl : ReadsLiterals eval) (hwinfo : HwInfo)
    (hadds : hwinfo.archValues ≠ []) (inherited : Option (List ArchValue))
    (hpairs : ∀ pairs ∈ inherited, ∀ pair ∈ pairs, pair.IsPair) :
    ArchValuesArrive eval hwinfo inherited ↔
      inherited = none ∧ ReadableCpu eval hwinfo.cpu := by
  obtain ⟨l2, l3, hl2, hl3, hown⟩ := ownValues_eq hwinfo
  cases inherited with
  | some pairs =>
      rw [ArchValuesArrive, Option.map_some, HwInfo.setArchValues, if_neg hadds,
        archValues_eq hadds, hown]
      refine iff_of_false ?_ (fun h => by cases h.1)
      rintro ⟨assigned, hrun, hperm⟩
      exact not_arrive_of_inherited (hpairs pairs rfl)
        (processEnvironment_eq_ok_iff.mp hrun).1 hperm
  | none =>
      rw [ArchValuesArrive, Option.map_none, HwInfo.setArchValues, if_neg hadds,
        archValues_eq hadds, hown]
      simp only [Option.getD_none, List.append_nil, true_and]
      constructor
      · rintro ⟨assigned, hrun, hperm⟩
        obtain ⟨hstatements, hvalues⟩ := processEnvironment_eq_ok_iff.mp hrun
        have hcpu : cpuValue hwinfo.cpu ∈ assigned :=
          hperm.symm.subset (by simp [latencies])
        obtain ⟨hcomma, hnewline⟩ := not_mem_of_cpuValue_mem hstatements hcpu
        have hmem := List.mem_map_of_mem (f := ArchValue.statement) hcpu
        rw [← hstatements] at hmem
        obtain ⟨pair, -, hstatement, hequals⟩ := exists_pair_of_mem_statements
          (isPair_latencies hcomma) (newline_not_mem_latencies hnewline) hmem
          (show '=' ∉ "CPU".toList by decide)
        have hexpression : pair.expression = quoted hwinfo.cpu := congrArg Prod.snd hstatement
        rw [hexpression, equals_mem_quoted_iff] at hequals
        exact ⟨hcomma, hnewline, hequals, hvalues _ hcpu⟩
      · intro h
        refine ⟨latencies hwinfo.cpu l2 l3, processEnvironment_eq_ok_iff.mpr ⟨?_, ?_⟩,
          List.Perm.refl _⟩
        · exact statements_archText h.survives_latencies
        · exact h.eval_latencies hperl hl2 hl3

/-! ### A Nehalem -/

/-- Perl, as far as it is asked for numerals and plain quoted strings. -/
def literalEval : PerlEval := fun name expression =>
  if isIdentifier name = false then none
  else
    match expression with
    | '"' :: rest =>
        if rest.getLast? = some '"' ∧ plainInQuotes rest.dropLast = true then some rest.dropLast
        else none
    | digits => if digits.all Char.isDigit then some digits else none

theorem readsLiterals_literalEval : ReadsLiterals literalEval where
  number name n hname _ := by
    have hall : (decimal n).all Char.isDigit = true := by
      rw [List.all_eq_true]
      intro c hc
      exact isDigit_of_mem_decimal hc
    rw [literalEval, if_neg (by simp [hname]), if_pos hall]
    -- a numeral does not start with a quote
    intro rest hquote
    rw [hquote] at hall
    cases hall
  plain name text hname hplain := by
    have hlast : (text ++ ['"']).getLast? = some '"' := by simp
    have hfront : (text ++ ['"']).dropLast = text := by simp
    show (if isIdentifier name = false then none
      else if (text ++ ['"']).getLast? = some '"' ∧ plainInQuotes (text ++ ['"']).dropLast = true
      then some (text ++ ['"']).dropLast else none) = some text
    rw [if_neg (by simp [hname]), hlast, hfront, if_pos ⟨rfl, hplain⟩]

/-- A Xeon 5570. -/
def xeon5570 : HwInfo where
  vendor := 1
  vendorString := "GenuineIntel".toList
  modelString := "Intel(R) Xeon(R) CPU           X5570  @ 2.93GHz".toList
  cpuidFamily := 6
  cpuidModel := 26

theorem arch_values_arrive_xeon5570 : ArchValuesArrive literalEval xeon5570 none :=
  (arch_values_arrive_iff literalEval readsLiterals_literalEval xeon5570 (by decide) none
    (by simp)).mpr ⟨rfl, by decide, by decide, by decide, by decide⟩

/-- **One inherited pair is enough** for the report to die. -/
theorem arch_values_glued :
    processEnvironment literalEval (xeon5570.setArchValues (some "L1_LATENCY=4".toList)) =
        .error "Could not eval: $WORD_SIZE=8:L1_LATENCY = 4;\n".toList ∧
      ¬ ArchValuesArrive literalEval xeon5570
        (some [numberValue "L1_LATENCY" 4]) := by
  have hdies : processEnvironment literalEval
      (xeon5570.setArchValues (some "L1_LATENCY=4".toList)) =
        .error "Could not eval: $WORD_SIZE=8:L1_LATENCY = 4;\n".toList := by
    decide +kernel
  refine ⟨hdies, ?_⟩
  rintro ⟨assigned, hrun, -⟩
  have htext : archText [numberValue "L1_LATENCY" 4] = "L1_LATENCY=4".toList := by decide
  rw [Option.map_some, htext, hdies] at hrun
  cases hrun

end Papiex
