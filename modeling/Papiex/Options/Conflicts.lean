import Papiex.Options.Channel

/-!
# Options that exclude each other

The driver finds out that two options exclude each other by looking for a word in the
option string it has written so far.  An option is stopped by another one only if the
other comes first, and both have to look for each other's word; `-q` does not look for
the word of `-x`.  The argument of `-E` is in the string as well, so a file name can
stop an option too.

So the verdict on a command line is given by the pairs of options in their order, and it
follows from the set of the options only in the cases stated at the end.

## Main results

* `stops_iff`: what stops an option, and `parseOption_of_valid` that it does.
* `rejected_iff`: the verdict on a command line, which depends on its order.
* `conflicts_follow_the_set_iff`: when the order does not matter.

## Design notes

The words in the option string are found by `strstr`, so an option stops another one by any
piece that it has written.  The keywords are finitely many, and which of them contain which
word is decided once.  The statement compares the verdicts on all command lines with the same
set of these options, in any order and with any other options that nothing is wrong with.
-/

namespace Papiex

open Chars

/-! ## What stops an option -/

/-- The words that the case of an option looks for in the option string. -/
def DriverOption.searched : DriverOption → List String
  | .quiet => ["RUSAGE"]
  | .rusage => ["QUIET"]
  | .memory => ["QUIET"]
  | .noWrite => ["DIR", "FILE", "PREFIX", "WRITE_ONLY"]
  | .writeOnly => ["NO_WRITE"]
  | .outputPrefix => ["DIR", "FILE", "NO_WRITE"]
  | .outputDir => ["PREFIX", "FILE", "NO_WRITE"]
  | .outputFile => ["PREFIX", "DIR", "NO_WRITE"]
  | _ => []

/-- The options that look for words. -/
def checkedOptions : List DriverOption :=
  [.noWrite, .writeOnly, .outputPrefix, .outputDir, .outputFile, .memory, .rusage, .quiet]

/-- What the earlier option writes has a word that the option looks for. -/
def Stops (earlier option : DriverOption) : Prop :=
  ∃ word ∈ option.searched, ∃ piece ∈ earlier.pieces, word.toList <:+: piece

instance (earlier option : DriverOption) : Decidable (Stops earlier option) := by
  unfold Stops
  infer_instance

/-- The pairs of options that look for each other's word. -/
def excludingPairs : List (DriverOption × DriverOption) :=
  [(.rusage, .quiet), (.noWrite, .writeOnly), (.noWrite, .outputPrefix), (.noWrite, .outputDir),
    (.noWrite, .outputFile), (.outputPrefix, .outputDir), (.outputPrefix, .outputFile),
    (.outputDir, .outputFile)]

/-- The options that the driver searches for in what it has put together. -/
theorem mem_checkedOptions_iff {option : DriverOption} :
    option ∈ checkedOptions ↔ option.searched ≠ [] := by
  cases option <;> simp [checkedOptions, DriverOption.searched]

/-- The words it searches for have neither a comma nor an equals sign. -/
theorem searched_clean {option : DriverOption} {word : String} (h : word ∈ option.searched) :
    word.toList ≠ [] ∧ ',' ∉ word.toList ∧ '=' ∉ word.toList := by
  have hoption : option ∈ checkedOptions :=
    mem_checkedOptions_iff.mpr (List.ne_nil_of_mem h)
  have hall : ∀ option ∈ checkedOptions, ∀ word ∈ option.searched,
      word.toList ≠ [] ∧ ',' ∉ word.toList ∧ '=' ∉ word.toList := by decide
  exact hall option hoption word h

/-- The checked option that writes the keyword. -/
def Keyword.writer : Keyword → Option DriverOption
  | .quiet => some .quiet
  | .rusage => some .rusage
  | .noWrite => some .noWrite
  | .writeOnly => some .writeOnly
  | .outputPrefix => some .outputPrefix
  | .outputDir => some .outputDir
  | .outputFile => some .outputFile
  | _ => none

/-- Only one option writes a keyword that is looked for. -/
theorem writer_of_mem_keywords {option : DriverOption} {keyword : Keyword}
    (h : keyword ∈ option.keywords) : ∀ writer ∈ keyword.writer, writer = option := by
  cases option with
  | pathscale arg =>
      rw [DriverOption.keywords, List.mem_singleton] at h
      subst h
      cases (pathscaleOf arg).getD .all <;> simp [PathscaleProf.keyword, Keyword.writer]
  | auto =>
      simp only [DriverOption.keywords, List.mem_cons, List.not_mem_nil, or_false] at h
      rcases h with rfl | rfl <;> simp [Keyword.writer]
  | spec | event | shellDump | long | info | unknown => cases h
  | _ =>
      rw [DriverOption.keywords, List.mem_singleton] at h
      subst h
      simp [Keyword.writer]

/-- The earlier and the later option of the pairs in which the later one is stopped. -/
def stoppedPairs : List (DriverOption × DriverOption) :=
  excludingPairs ++ excludingPairs.map Prod.swap ++ [(.quiet, .memory)]

section Searched

variable {option : DriverOption} {word : String} {keyword : Keyword} {path arg : Text}

/-- A keyword with the word in it is written by an option that stops this one. -/
theorem exists_writer_of_found (hword : word ∈ option.searched)
    (hfound : word.toList <:+: keyword.text) :
    ∃ writer, keyword.writer = some writer ∧ (writer, option) ∈ stoppedPairs := by
  have hall : ∀ option ∈ checkedOptions, ∀ word ∈ option.searched,
      ∀ keyword ∈ Keyword.all, word.toList <:+: keyword.text →
        ∃ writer ∈ checkedOptions, keyword.writer = some writer ∧
          (writer, option) ∈ stoppedPairs := by decide +kernel
  have hoption : option ∈ checkedOptions := mem_checkedOptions_iff.mpr (List.ne_nil_of_mem hword)
  obtain ⟨writer, -, hwriter, hpair⟩ :=
    hall option hoption word hword keyword keyword.mem_all hfound
  exact ⟨writer, hwriter, hpair⟩

/-- In what `-E` writes, the word is in the path. -/
theorem infix_path (hword : word ∈ option.searched) (hfound : word.toList <:+: specMarker ++ path) :
    word.toList <:+: path := by
  have hall : ∀ option ∈ checkedOptions, ∀ word ∈ option.searched,
      ¬ word.toList <:+: "SPEC".toList := by decide
  have hoption : option ∈ checkedOptions := mem_checkedOptions_iff.mpr (List.ne_nil_of_mem hword)
  rwa [show specMarker ++ path = "SPEC".toList ++ '=' :: path from rfl,
    infix_append_cons_iff (searched_clean hword).2.2,
    or_iff_right (hall option hoption word hword)] at hfound

/-- In what `-m` writes there is no word, since the interval is a number behind a marker. -/
theorem not_infix_interval (hword : word ∈ option.searched) (n : ℤ) :
    ¬ word.toList <:+: intervalMarker ++ signed n := by
  intro hfound
  have hall : ∀ option ∈ checkedOptions, ∀ word ∈ option.searched,
      ¬ word.toList <:+: "MPX_INTERVAL".toList ∧
        (word.toList.any fun c => !c.isDigit && c ≠ '-') = true := by decide
  have hoption : option ∈ checkedOptions := mem_checkedOptions_iff.mpr (List.ne_nil_of_mem hword)
  obtain ⟨hnot, hany⟩ := hall option hoption word hword
  obtain ⟨c, hc, hother⟩ := List.any_eq_true.mp hany
  rw [Bool.and_eq_true, Bool.not_eq_true', decide_eq_true_eq] at hother
  rw [show intervalMarker = "MPX_INTERVAL".toList ++ ['='] from rfl,
    List.append_assoc, List.singleton_append, infix_append_cons_iff (searched_clean hword).2.2,
    or_iff_right hnot] at hfound
  exact not_mem_signed hother.1 hother.2 (hfound.subset hc)

end Searched

/-- **What stops an option**: another one of a pair, or a spec file with a word in its
path. -/
theorem stops_iff {earlier option : DriverOption} :
    Stops earlier option ↔ (earlier, option) ∈ stoppedPairs ∨
      ∃ path, earlier = .spec path ∧ ∃ word ∈ option.searched, word.toList <:+: path := by
  constructor
  · rintro ⟨word, hword, piece, hpiece, hfound⟩
    rcases List.mem_append.mp hpiece with hkeyword | hargument
    · obtain ⟨keyword, hmem, rfl⟩ := List.mem_map.mp hkeyword
      obtain ⟨writer, hwriter, hpair⟩ := exists_writer_of_found hword hfound
      rw [← writer_of_mem_keywords hmem writer hwriter]
      exact .inl hpair
    · cases earlier with
      | spec path =>
          rw [DriverOption.arguments, List.mem_singleton] at hargument
          subst hargument
          exact .inr ⟨path, rfl, word, hword, infix_path hword hfound⟩
      | multiplex interval =>
          cases interval with
          | none => cases hargument
          | some arg =>
              rw [DriverOption.arguments, List.mem_singleton] at hargument
              subst hargument
              exact absurd hfound (not_infix_interval hword _)
      | _ => cases hargument
  · rintro (hpair | ⟨path, rfl, word, hword, hfound⟩)
    · have hall : ∀ pair ∈ stoppedPairs, Stops pair.1 pair.2 := by decide
      exact hall _ hpair
    · exact ⟨word, hword, specMarker ++ path, List.mem_singleton_self _,
        hfound.trans List.infix_append_right⟩

/-! ## Command lines that are valid otherwise -/

/-- A spec file that `parse_args` takes. -/
def DriverContext.SpecFile (context : DriverContext) (path : Text) : Prop :=
  context.fileExists path = true ∧ (specMarker ++ path).length < pathMax

/-- Nothing is wrong with the option by itself. -/
def DriverOption.Valid (context : DriverContext) : DriverOption → Prop
  | .spec path => context.SpecFile path
  | .pathscale arg => context.build.haveBinutils = true ∧ pathscaleOf arg ≠ none
  | .gnu => context.build.haveBinutils = true
  | .multiplex (some arg) =>
      -2 ^ 63 ≤ strtol arg ∧ strtol arg < 2 ^ 63 ∧ 0 < Int.bmod (strtol arg) (2 ^ 32)
  | .long option =>
      option = .noMpiProf ∨ option = .noIoProf ∨ option = .noThreadsyncProf →
        context.build.profilingSupport = true
  | .info => False
  | .unknown => False
  | _ => True

/-- Nothing is wrong with the command line, as far as the options that look for words
are left out. -/
structure OtherwiseValid (context : DriverContext) (opts : List DriverOption) : Prop where
  valid : ∀ option ∈ opts, option.Valid context
  one_instrumentation : ∀ arg, ¬ (.gnu ∈ opts ∧ .pathscale arg ∈ opts)

/-- `parse_args` ends at one of the options with an error. -/
def Rejected (context : DriverContext) (opts : List DriverOption) : Prop :=
  FallibleRun.run (parseOption context) (.initial context.build) opts = .error .error

variable {context : DriverContext} {state next final : DriverState} {option : DriverOption}
variable {opts : List DriverOption}

/-- Only `-G` and `-Q` ask for instrumentation. -/
theorem instrumentation_of_parseOption (h : parseOption context state option = .ok next) :
    (option = .gnu ∨ next.gccProf = state.gccProf) ∧
      ((∃ arg, option = .pathscale arg) ∨ next.pathscaleProf = state.pathscaleProf) := by
  cases option with
  | pathscale arg =>
      simp only [parseOption, ite_error_eq_ok_iff] at h
      obtain ⟨-, h⟩ := h
      cases hprof : pathscaleOf arg <;> rw [hprof] at h <;> cases h
      exact ⟨.inr rfl, .inl ⟨arg, rfl⟩⟩
  | gnu =>
      simp only [parseOption, ite_error_eq_ok_iff, Except.ok.injEq] at h
      obtain ⟨-, rfl⟩ := h
      exact ⟨.inl rfl, .inr rfl⟩
  | multiplex interval =>
      cases interval with
      | none => cases h; exact ⟨.inr rfl, .inr rfl⟩
      | some arg =>
          simp only [parseOption, ite_error_eq_ok_iff, Except.ok.injEq] at h
          obtain ⟨-, rfl⟩ := h
          exact ⟨.inr rfl, .inr rfl⟩
  | spec arg =>
      simp only [parseOption, ite_error_eq_ok_iff, Except.ok.injEq] at h
      obtain ⟨-, -, rfl⟩ := h
      exact ⟨.inr rfl, .inr rfl⟩
  | info | unknown => cases h
  | debug | user | kernel | other | supervisor | auto | event | shellDump =>
      cases h
      exact ⟨.inr rfl, .inr rfl⟩
  | long | quiet | rusage | memory | noWrite | writeOnly | outputPrefix | outputDir
  | outputFile =>
      simp only [parseOption, ite_error_eq_ok_iff, Except.ok.injEq] at h
      obtain ⟨-, rfl⟩ := h
      exact ⟨.inr rfl, .inr rfl⟩

/-- Which instrumentation is asked for is known from the options. -/
theorem instrumentation_of_run
    (h : FallibleRun.run (parseOption context) (.initial context.build) opts = .ok final) :
    (final.gccProf = true → .gnu ∈ opts) ∧
      (final.pathscaleProf ≠ .none → ∃ arg, .pathscale arg ∈ opts) := by
  refine FallibleRun.run_invariant (fun state : DriverState =>
      (state.gccProf = true → .gnu ∈ opts) ∧
        (state.pathscaleProf ≠ .none → ∃ arg, .pathscale arg ∈ opts))
    (fun option hoption before after hbefore hafter => ?_)
    ⟨fun hgcc => absurd hgcc Bool.false_ne_true, fun hnone => absurd rfl hnone⟩ h
  obtain ⟨hgcc, hpathscale⟩ := instrumentation_of_parseOption hafter
  constructor
  · rcases hgcc with rfl | hsame
    · exact fun _ => hoption
    · rw [hsame]
      exact hbefore.1
  · rcases hpathscale with ⟨arg, rfl⟩ | hsame
    · exact fun _ => ⟨arg, hoption⟩
    · rw [hsame]
      exact hbefore.2

/-- **One turn of the loop** stops at a valid option if and only if it finds a word. -/
theorem parseOption_of_valid (state : DriverState) (hvalid : option.Valid context)
    (hgnu : option = .gnu → state.pathscaleProf = .none)
    (hpathscale : ∀ arg, option = .pathscale arg → state.gccProf = false) :
    (state.mentions option.searched = true ∧
        parseOption context state option = .error .error) ∨
      (state.mentions option.searched = false ∧
        ∃ next, parseOption context state option = .ok next) := by
  cases option with
  | quiet | rusage | memory | noWrite | writeOnly | outputPrefix | outputDir | outputFile =>
      cases hmentions : state.mentions (DriverOption.searched _) with
      | true => exact .inl ⟨rfl, if_pos hmentions⟩
      | false => exact .inr ⟨rfl, _, if_neg (by rw [Bool.not_eq_true]; exact hmentions)⟩
  | spec path =>
      refine .inr ⟨rfl, state.append (specMarker ++ path), ?_⟩
      rw [parseOption, if_neg (by simp [hvalid.1]), if_neg (not_le.mpr hvalid.2)]
  | pathscale arg =>
      obtain ⟨hbuild, hsome⟩ := hvalid
      obtain ⟨prof, hprof⟩ := Option.ne_none_iff_exists'.mp hsome
      refine .inr ⟨rfl, { state.append prof.keyword.text with pathscaleProf := prof }, ?_⟩
      have hguard : ¬ (context.build.haveBinutils = false ∨ state.gccProf = true) := by
        simp [hpathscale arg rfl, show context.build.haveBinutils = true from hbuild]
      rw [parseOption, if_neg hguard, hprof]
  | gnu =>
      refine .inr ⟨rfl, { state.append Keyword.gccProf.text with gccProf := true }, ?_⟩
      have hguard : ¬ (context.build.haveBinutils = false ∨ state.pathscaleProf ≠ .none) := by
        simp [hgnu rfl, show context.build.haveBinutils = true from hvalid]
      rw [parseOption, if_neg hguard]
  | multiplex interval =>
      cases interval with
      | none => exact .inr ⟨rfl, _, rfl⟩
      | some arg =>
          obtain ⟨hlow, hhigh, hpos⟩ := hvalid
          refine .inr ⟨rfl, ?_⟩
          rw [parseOption, if_neg (by omega)]
          exact ⟨_, rfl⟩
  | long long =>
      have hguard : ¬ (context.build.profilingSupport = false ∧
          (long = .noMpiProf ∨ long = .noIoProf ∨ long = .noThreadsyncProf)) := by
        rintro ⟨hbuild, hlong⟩
        rw [hvalid hlong] at hbuild
        cases hbuild
      refine .inr ⟨rfl, ?_⟩
      rw [parseOption, if_neg hguard]
      exact ⟨_, rfl⟩
  | info | unknown => exact hvalid.elim
  | debug | user | kernel | other | supervisor | auto | event | shellDump =>
      exact .inr ⟨rfl, _, rfl⟩

/-- A word is in the option string if it is in one of its pieces. -/
theorem infix_foldl_appendOption {word optStr : Text} {pieces : List Text} (hne : word ≠ [])
    (hcomma : ',' ∉ word) :
    word <:+: pieces.foldl appendOption optStr ↔
      word <:+: optStr ∨ ∃ piece ∈ pieces, word <:+: piece := by
  induction pieces generalizing optStr with
  | nil => simp
  | cons piece pieces ih =>
      have happend : word <:+: appendOption optStr piece ↔
          word <:+: optStr ∨ word <:+: piece := by
        unfold appendOption
        split
        · rename_i hempty
          rw [hempty, List.infix_nil, or_iff_right hne]
        · exact infix_append_cons_iff hcomma
      rw [List.foldl_cons, ih, happend]
      simp [or_assoc]

/-- **The search in the option string** finds what one of the options before has written. -/
theorem mentions_iff
    (h : FallibleRun.run (parseOption context) (.initial context.build) opts = .ok state) :
    state.mentions option.searched = true ↔ ∃ earlier ∈ opts, Stops earlier option := by
  obtain ⟨-, hstring, -⟩ := run_parseOption h
  have hfind : ∀ word ∈ option.searched, word.toList <:+: state.optionString ↔
      ∃ piece ∈ opts.flatMap DriverOption.pieces, word.toList <:+: piece := by
    intro word hword
    obtain ⟨hne, hcomma, -⟩ := searched_clean hword
    rw [hstring, infix_foldl_appendOption hne hcomma]
    exact or_iff_right fun hempty => hne (List.infix_nil.mp hempty)
  simp only [DriverState.mentions, List.any_eq_true, decide_eq_true_eq]
  constructor
  · rintro ⟨word, hword, hfound⟩
    obtain ⟨piece, hpiece, hfound'⟩ := (hfind word hword).mp hfound
    obtain ⟨earlier, hearlier, hmem⟩ := List.mem_flatMap.mp hpiece
    exact ⟨earlier, hearlier, word, hword, piece, hmem, hfound'⟩
  · rintro ⟨earlier, hearlier, word, hword, piece, hmem, hfound⟩
    exact ⟨word, hword, (hfind word hword).mpr
      ⟨piece, List.mem_flatMap.mpr ⟨earlier, hearlier, hmem⟩, hfound⟩⟩

/-! ## The verdict -/

/-- What the step on an option after the options before it does. -/
theorem step_of_otherwiseValid {front rest : List DriverOption}
    (hvalid : OtherwiseValid context (front ++ option :: rest))
    (hfront : FallibleRun.run (parseOption context) (.initial context.build) front = .ok state) :
    ((∃ earlier ∈ front, Stops earlier option) ∧
        parseOption context state option = .error .error) ∨
      ¬ (∃ earlier ∈ front, Stops earlier option) ∧
        ∃ next, parseOption context state option = .ok next := by
  obtain ⟨hgcc, hpathscale⟩ := instrumentation_of_run hfront
  have hoption : option ∈ front ++ option :: rest := by simp
  have hmem : front ⊆ front ++ option :: rest := List.subset_append_left _ _
  have hstep := parseOption_of_valid state (hvalid.valid option hoption)
    (fun hgnu => by
      by_contra hnone
      obtain ⟨arg, harg⟩ := hpathscale hnone
      exact hvalid.one_instrumentation arg ⟨hgnu ▸ hoption, hmem harg⟩)
    (fun arg harg => by
      by_contra hnot
      have hgnu := hgcc (by simpa using hnot)
      exact hvalid.one_instrumentation arg ⟨hmem hgnu, harg ▸ hoption⟩)
  rw [mentions_iff hfront, ← Bool.not_eq_true, mentions_iff hfront] at hstep
  exact hstep

/-- **The verdict on a command line**: rejected if and only if an option comes after one
that stops it. -/
theorem rejected_iff (hvalid : OtherwiseValid context opts) :
    Rejected context opts ↔ ∃ front option rest, opts = front ++ option :: rest ∧
      ∃ earlier ∈ front, Stops earlier option := by
  unfold Rejected
  constructor
  · intro hrun
    obtain ⟨front, option, rest, before, rfl, hfront, hstop⟩ := FallibleRun.run_eq_error_iff.mp hrun
    refine ⟨front, option, rest, rfl, ?_⟩
    rcases step_of_otherwiseValid hvalid hfront with ⟨hstops, -⟩ | ⟨-, next, hnext⟩
    · exact hstops
    · rw [hnext] at hstop
      cases hstop
  · rintro ⟨front, option, rest, rfl, hstops⟩
    cases hrun : FallibleRun.run (parseOption context) (.initial context.build)
        (front ++ option :: rest) with
    | ok final =>
        -- the run cannot get past the option
        obtain ⟨before, hfront, hrest⟩ := FallibleRun.run_append_eq_ok_iff.mp hrun
        obtain ⟨next, hnext, -⟩ := FallibleRun.run_cons_eq_ok_iff.mp hrest
        rcases step_of_otherwiseValid hvalid hfront with ⟨-, hstop⟩ | ⟨hnot, -⟩
        · rw [hstop] at hnext
          cases hnext
        · exact absurd hstops hnot
    | error stop =>
        obtain ⟨front', option', rest', before, hsplit, hfront, hstop⟩ :=
          FallibleRun.run_eq_error_iff.mp hrun
        rcases step_of_otherwiseValid (hsplit ▸ hvalid) hfront with ⟨-, hstop'⟩ | ⟨-, next, hnext⟩
        · rw [← hstop, hstop']
        · rw [hnext] at hstop
          cases hstop

/-! ## The verdict and the set of the options -/

/-- The checked options that are given, each once and in a fixed order. -/
def given (opts : List DriverOption) : List DriverOption :=
  checkedOptions.filter fun option => decide (option ∈ opts)

/-- Two of the options look for each other's word. -/
def ExcludeEachOther (opts : List DriverOption) : Prop :=
  ∃ pair ∈ excludingPairs, pair.1 ∈ opts ∧ pair.2 ∈ opts

/-- No spec file has a word in its path that one of the options looks for. -/
def SpecFilesTell (context : DriverContext) (opts : List DriverOption) : Prop :=
  ∀ path, context.SpecFile path → ∀ option ∈ opts, ∀ word ∈ option.searched,
    ¬ word.toList <:+: path

theorem mem_given_iff : option ∈ given opts ↔ option ∈ checkedOptions ∧ option ∈ opts := by
  simp [given]

variable {opts' : List DriverOption}

theorem given_eq_iff :
    given opts = given opts' ↔ ∀ option ∈ checkedOptions, (option ∈ opts ↔ option ∈ opts') := by
  constructor
  · intro h option hoption
    have hmem : option ∈ given opts ↔ option ∈ given opts' := by rw [h]
    simpa [mem_given_iff, hoption] using hmem
  · intro h
    exact List.filter_congr fun option hoption => decide_eq_decide.mpr (h option hoption)

/-- The pairs that exclude each other stop the driver in either order. -/
theorem excludingPairs_checked {pair : DriverOption × DriverOption} (h : pair ∈ excludingPairs) :
    pair.1 ∈ checkedOptions ∧ pair.2 ∈ checkedOptions ∧ pair.1 ≠ pair.2 ∧
      Stops pair.1 pair.2 ∧ Stops pair.2 pair.1 := by
  have hall : ∀ pair ∈ excludingPairs, pair.1 ∈ checkedOptions ∧ pair.2 ∈ checkedOptions ∧
      pair.1 ≠ pair.2 ∧ Stops pair.1 pair.2 ∧ Stops pair.2 pair.1 := by decide
  exact hall pair h

/-- Whether options exclude each other depends on the set of them. -/
theorem excludeEachOther_congr (h : given opts = given opts') :
    ExcludeEachOther opts ↔ ExcludeEachOther opts' := by
  unfold ExcludeEachOther
  refine exists_congr fun pair => and_congr_right fun hpair => ?_
  obtain ⟨hfirst, hsecond, -⟩ := excludingPairs_checked hpair
  rw [given_eq_iff.mp h _ hfirst, given_eq_iff.mp h _ hsecond]

/-- Whether the specification files tell depends on the set of options. -/
theorem specFilesTell_congr (h : given opts = given opts') :
    SpecFilesTell context opts ↔ SpecFilesTell context opts' := by
  have hone : ∀ {opts opts'}, given opts = given opts' → SpecFilesTell context opts →
      SpecFilesTell context opts' := by
    intro opts opts' h hall path hpath option hoption word hword
    have hchecked : option ∈ checkedOptions :=
      mem_checkedOptions_iff.mpr (List.ne_nil_of_mem hword)
    exact hall path hpath option ((given_eq_iff.mp h option hchecked).mpr hoption) word hword
  exact ⟨hone h, hone h.symm⟩

/-- Whichever of the two comes first stops the other. -/
theorem rejected_of_excludeEachOther (hvalid : OtherwiseValid context opts)
    (h : ExcludeEachOther opts) : Rejected context opts := by
  obtain ⟨⟨first, second⟩, hpair, hfirst, hsecond⟩ := h
  obtain ⟨-, -, hne, hstops, hstops'⟩ := excludingPairs_checked hpair
  rw [rejected_iff hvalid]
  obtain ⟨front, rest, rfl⟩ := List.append_of_mem hfirst
  rcases List.mem_append.mp hsecond with hfront | hrest
  · exact ⟨front, first, rest, rfl, second, hfront, hstops'⟩
  · rcases List.mem_cons.mp hrest with hsame | hlater
    · exact absurd hsame.symm hne
    · obtain ⟨middle, last, rfl⟩ := List.append_of_mem hlater
      exact ⟨front ++ first :: middle, second, last, by simp, first, by simp, hstops⟩

/-- Without such a pair, an option is stopped by a spec file, or `-x` by `-q`. -/
theorem not_rejected (hvalid : OtherwiseValid context opts) (hapart : ¬ ExcludeEachOther opts)
    (hspec : ∀ path, .spec path ∈ opts → ∀ option ∈ opts, ∀ word ∈ option.searched,
      ¬ word.toList <:+: path)
    (hquiet : ∀ front rest, opts = front ++ .memory :: rest → .quiet ∉ front) :
    ¬ Rejected context opts := by
  rw [rejected_iff hvalid]
  rintro ⟨front, option, rest, rfl, earlier, hearlier, hstops⟩
  have hoption : option ∈ front ++ option :: rest := by simp
  have hmem : earlier ∈ front ++ option :: rest := List.mem_append_left _ hearlier
  rcases stops_iff.mp hstops with hpair | ⟨path, rfl, word, hword, hfound⟩
  · simp only [stoppedPairs, List.mem_append, List.mem_map, List.mem_singleton,
      Prod.mk.injEq] at hpair
    rcases hpair with (hpair | ⟨⟨first, second⟩, hpair, hswap⟩) | ⟨rfl, rfl⟩
    · exact hapart ⟨_, hpair, hmem, hoption⟩
    · obtain ⟨rfl, rfl⟩ := Prod.mk.inj hswap
      exact hapart ⟨_, hpair, hoption, hmem⟩
    · exact hquiet front rest rfl hearlier
  · exact hspec path hmem option hoption word hword hfound

/-- **Without such a pair, `-q` with `-m` and a specification file that is not there, nothing is
rejected.** -/
theorem not_rejected_of_calm (hvalid : OtherwiseValid context opts)
    (hapart : ¬ ExcludeEachOther opts) (hquiet : ¬ (.quiet ∈ opts ∧ .memory ∈ opts))
    (hspec : SpecFilesTell context opts) : ¬ Rejected context opts := by
  refine not_rejected hvalid hapart (fun path hpath => hspec path (hvalid.valid _ hpath)) ?_
  rintro front rest rfl hfront
  exact hquiet ⟨List.mem_append_left _ hfront, by simp⟩

/-- Every list of checked options is valid otherwise, and so is one after a spec file. -/
theorem otherwiseValid_of_checked
    (h : ∀ option ∈ opts, option ∈ checkedOptions ∨
      ∃ path, option = .spec path ∧ context.SpecFile path) : OtherwiseValid context opts where
  valid := by
    intro option hoption
    rcases h option hoption with hchecked | ⟨path, rfl, hpath⟩
    · simp only [checkedOptions, List.mem_cons, List.not_mem_nil, or_false] at hchecked
      rcases hchecked with rfl | rfl | rfl | rfl | rfl | rfl | rfl | rfl <;> trivial
    · exact hpath
  one_instrumentation := by
    rintro arg ⟨hgnu, -⟩
    rcases h .gnu hgnu with hchecked | ⟨path, hpath, -⟩
    · exact absurd hchecked (by decide)
    · cases hpath

theorem otherwiseValid_given : OtherwiseValid context (given opts) :=
  otherwiseValid_of_checked fun _ hoption => .inl (mem_given_iff.mp hoption).1

theorem given_given : given (given opts) = given opts := by
  rw [given_eq_iff]
  intro option hoption
  rw [mem_given_iff, and_iff_right hoption]

/-- In the fixed order, `-x` comes before `-q`, so nothing is stopped by accident. -/
theorem not_rejected_given (opts : List DriverOption) (hapart : ¬ ExcludeEachOther opts) :
    ¬ Rejected context (given opts) := by
  refine not_rejected otherwiseValid_given (mt (excludeEachOther_congr given_given).mp hapart)
    (fun path hpath => ?_) (fun front rest hsplit hquiet => ?_)
  · exact absurd (mem_given_iff.mp hpath).1 (by simp [checkedOptions])
  · have horder : checkedOptions.Pairwise fun early late =>
        ¬ (early = .quiet ∧ late = .memory) := by decide
    have hpairwise := horder.sublist (List.filter_sublist (p := fun option => option ∈ opts))
    rw [show checkedOptions.filter (fun option => decide (option ∈ opts)) = given opts from rfl,
      hsplit, List.pairwise_append] at hpairwise
    exact hpairwise.2.2 .quiet hquiet .memory List.mem_cons_self ⟨rfl, rfl⟩

/-- **The verdict follows from the set of the options** if and only if two of them exclude
each other in both orders, or neither a spec file nor the order of `-q` and `-x` can
make a difference. -/
theorem conflicts_follow_the_set_iff (context : DriverContext) (opts : List DriverOption)
    (hvalid : OtherwiseValid context opts) :
    (∀ reordered, OtherwiseValid context reordered → given reordered = given opts →
        (Rejected context reordered ↔ Rejected context opts)) ↔
      ExcludeEachOther opts ∨
        (¬ (.quiet ∈ opts ∧ .memory ∈ opts) ∧ SpecFilesTell context opts) := by
  constructor
  · intro hsame
    by_cases hexclude : ExcludeEachOther opts
    · exact .inl hexclude
    · -- the options in the fixed order are accepted, so all others have to be
      have hrejected : ¬ Rejected context opts := fun h =>
        not_rejected_given opts hexclude
          ((hsame (given opts) otherwiseValid_given given_given).mpr h)
      have hfirst : ∀ option, option.Valid context → option ≠ .gnu →
          (option ∈ checkedOptions → option ∈ opts) →
          ∀ stopped ∈ given opts, ¬ Stops option stopped := by
        intro option hoption hgnu hmem stopped hstopped hstops
        have hvalid' : OtherwiseValid context (option :: given opts) :=
          { valid := List.forall_mem_cons.mpr ⟨hoption, otherwiseValid_given.valid⟩
            one_instrumentation := by
              rintro arg ⟨hmem, -⟩
              rcases List.mem_cons.mp hmem with hsame | hgiven
              · exact hgnu hsame.symm
              · exact absurd (mem_given_iff.mp hgiven).1 (by decide) }
        have hgiven : given (option :: given opts) = given opts := by
          rw [given_eq_iff]
          intro tried htried
          rw [List.mem_cons, mem_given_iff, and_iff_right htried, or_iff_right_of_imp]
          rintro rfl
          exact hmem htried
        obtain ⟨front, rest, hsplit⟩ := List.append_of_mem hstopped
        refine hrejected ((hsame _ hvalid' hgiven).mp ((rejected_iff hvalid').mpr ?_))
        exact ⟨option :: front, stopped, rest, by rw [hsplit]; rfl, option, List.mem_cons_self,
          hstops⟩
      refine .inr ⟨?_, ?_⟩
      · rintro ⟨hquiet, hmemory⟩
        exact hfirst .quiet trivial (by simp) (fun _ => hquiet) .memory
          (mem_given_iff.mpr ⟨by decide, hmemory⟩) (by decide)
      · intro path hpath option hoption word hword hfound
        have hchecked : option ∈ checkedOptions :=
          mem_checkedOptions_iff.mpr (List.ne_nil_of_mem hword)
        exact hfirst (.spec path) hpath (by simp)
          (fun h => absurd h (by simp [checkedOptions])) option
          (mem_given_iff.mpr ⟨hchecked, hoption⟩)
          (stops_iff.mpr (.inr ⟨path, rfl, word, hword, hfound⟩))
  · rintro (hexclude | ⟨hquiet, hspec⟩) reordered hvalid' hgiven
    · exact iff_of_true
        (rejected_of_excludeEachOther hvalid' ((excludeEachOther_congr hgiven).mpr hexclude))
        (rejected_of_excludeEachOther hvalid hexclude)
    · by_cases hexclude : ExcludeEachOther opts
      · exact iff_of_true
          (rejected_of_excludeEachOther hvalid' ((excludeEachOther_congr hgiven).mpr hexclude))
          (rejected_of_excludeEachOther hvalid hexclude)
      · have hmem := given_eq_iff.mp hgiven
        refine iff_of_false (not_rejected_of_calm hvalid'
          (mt (excludeEachOther_congr hgiven).mp hexclude) ?_
          ((specFilesTell_congr hgiven).mpr hspec))
          (not_rejected_of_calm hvalid hexclude hquiet hspec)
        rwa [hmem .quiet (by decide), hmem .memory (by decide)]

/-! ### Two orders, and a file name -/

/-- A machine on which every file exists. -/
def filesExist : DriverContext := readyContext { profilingSupport := true, haveBinutils := true }

/-- Two options in both orders. -/
theorem conflicts_follow_the_set_noWrite_outputDir :
    Rejected filesExist [.outputDir, .noWrite] ↔ Rejected filesExist [.noWrite, .outputDir] :=
  (conflicts_follow_the_set_iff filesExist [.noWrite, .outputDir]
    (otherwiseValid_of_checked (by simp [checkedOptions]))).mpr
      (.inl ⟨(.noWrite, .outputDir), by decide, by decide, by decide⟩)
      [.outputDir, .noWrite] (otherwiseValid_of_checked (by simp [checkedOptions])) (by decide)

/-- `-q -x` is rejected and `-x -q` is not; and `-x` alone is accepted, but not with the
spec file `QUIET`. -/
theorem conflict_follows_the_order :
    (OtherwiseValid filesExist [.quiet, .memory] ∧ OtherwiseValid filesExist [.memory, .quiet] ∧
      given [.quiet, .memory] = given [.memory, .quiet] ∧
      Rejected filesExist [.quiet, .memory] ∧ ¬ Rejected filesExist [.memory, .quiet]) ∧
    OtherwiseValid filesExist [.spec "QUIET".toList, .memory] ∧
      OtherwiseValid filesExist [.memory] ∧
      given [.spec "QUIET".toList, .memory] = given [.memory] ∧
      Rejected filesExist [.spec "QUIET".toList, .memory] ∧ ¬ Rejected filesExist [.memory] := by
  have hspec : filesExist.SpecFile "QUIET".toList := ⟨rfl, by decide⟩
  have hspecLine : OtherwiseValid filesExist [.spec "QUIET".toList, .memory] := by
    refine otherwiseValid_of_checked fun option hoption => ?_
    rcases List.mem_cons.mp hoption with rfl | hmemory
    · exact .inr ⟨_, rfl, hspec⟩
    · rw [List.mem_singleton.mp hmemory]
      exact .inl (by decide)
  have hquiet : OtherwiseValid filesExist [.quiet, .memory] :=
    otherwiseValid_of_checked (by simp [checkedOptions])
  refine ⟨⟨hquiet, otherwiseValid_of_checked (by simp [checkedOptions]), by decide, ?_, ?_⟩,
    hspecLine, otherwiseValid_of_checked (by simp [checkedOptions]), by decide, ?_, ?_⟩
  · exact (rejected_iff hquiet).mpr
      ⟨[.quiet], .memory, [], rfl, .quiet, List.mem_cons_self, by decide⟩
  · exact not_rejected_given [.memory, .quiet] (by unfold ExcludeEachOther; decide)
  · exact (rejected_iff hspecLine).mpr
      ⟨[.spec "QUIET".toList], .memory, [], rfl, .spec "QUIET".toList, List.mem_cons_self,
        by decide⟩
  · exact not_rejected_given [.memory] (by unfold ExcludeEachOther; decide)

end Papiex
