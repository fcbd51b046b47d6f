import Mathlib.Data.List.Flatten
import Papiex.Options.Encode

/-!
# The option string as a channel

The configuration that a command line asks for, and the one that the library reads
from the option string that the driver writes for it.  They are the same exactly if
the option `-q` is not used, the profiling of thread synchronisation is not wanted,
the argument of `-E` is not cut, what is cut off from one that does not count does no
harm, the interval fits into an `int`, and no event is spelled like an option.

## Main results

* `optionTokens_eq_stringTokens`: the library finds the tokens that the driver has written.
* `events_eq_iff`, `asked_iff`: when the events and the flags come through.
* `option_string_faithful_iff`: when the whole configuration does.

## Design notes

The two ends are compared as configurations: the flags, the interval, the spec file and the
events.  What is asked for is read off the options without the string.  An argument of `-E`
that is cut leaves pieces behind; they do no harm if they are no events and set nothing that
is not set anyway.  The condition has one clause for each thing that can go wrong.
-/

namespace Papiex

open Chars

/-! ## What a command line asks for -/

/-- The flags that an option asks for. -/
def DriverOption.asksFor : DriverOption → List Flag
  | .quiet => [.quiet]
  | .multiplex _ => [.multiplex]
  | .rusage => [.rusage]
  | .memory => [.memory]
  | .noWrite => [.noWrite]
  | .user => [.domUser]
  | .kernel => [.domKernel]
  | .other => [.domOther]
  | .supervisor => [.domSupervisor]
  | .auto => [.multiplex, .memory]
  | .long .noSummary => [.noSummaryStats]
  | .long .noDerived => [.noDerivedStats]
  | .long .noMpiProf => [.noMpiProf]
  | .long .noIoProf => [.noIoProf]
  | .long .noThreadsyncProf => [.noThreadsyncProf]
  | .long .csvOutput => [.csv, .nextgen]
  | _ => []

/-- The flags that are set without an option that asks for them. -/
def defaultFlags (build : Build) (opts : List DriverOption) : Flag → Bool
  | .noMpiProf | .noIoProf | .noThreadsyncProf => !build.profilingSupport
  | .nextgen => .long .classic ∉ opts
  | _ => false

/-- The flags that a command line asks for. -/
def asked (build : Build) (opts : List DriverOption) (flag : Flag) : Bool :=
  (opts.any fun option => flag ∈ option.asksFor) || defaultFlags build opts flag

/-- The interval that an option asks for. -/
def DriverOption.interval? : DriverOption → Option ℤ
  | .multiplex (some arg) => some (strtol arg)
  | _ => none

/-- The spec file that an option asks for. -/
def DriverOption.spec? : DriverOption → Option Text
  | .spec arg => some arg
  | _ => none

/-- The configuration that a command line asks for, its events being those accepted. -/
def requested (build : Build) (opts : List DriverOption) (accepted : List Text) :
    Configuration where
  flag := Flag.effective (asked build opts)
  mpxInterval := (opts.filterMap DriverOption.interval?).getLast?.getD defaultMpxHz
  spec := (opts.filterMap DriverOption.spec?).getLast?
  eventnames := accepted

/-! ## The condition -/

/-- What is cut off from the option's argument. -/
def DriverOption.strays (isDelim : Char → Bool) : DriverOption → List OptionToken
  | .spec arg => cutOff isDelim arg
  | _ => []

/-- What is cut off from the arguments of a command line. -/
def strays (opts : List DriverOption) : List OptionToken :=
  (delimited opts).flatMap fun entry => entry.2.strays entry.1

/-- The intervals that an option brings into the string. -/
def DriverOption.numbers (isDelim : Char → Bool) : DriverOption → List ℤ
  | .multiplex (some arg) => [Int.bmod (strtol arg) (2 ^ 32)]
  | .spec arg => (cutOff isDelim arg).filterMap OptionToken.interval?
  | _ => []

/-- The arguments of `-E`, with the delimiters at which they are cut. -/
def specArguments (opts : List DriverOption) : List ((Char → Bool) × Text) :=
  (delimited opts).filterMap fun entry => entry.2.spec?.map fun arg => (entry.1, arg)

/-- What is cut off is no event, and sets nothing but flags that are asked for. -/
def OptionToken.Harmless (build : Build) (flags : Flag → Bool) (token : OptionToken) : Prop :=
  token.event? = none ∧
  (token.profiles = true → build.haveBinutils = true) ∧
  ∀ flag, token.sets flag = true → flags flag = true ∨ flag = .noWrite ∧ flags .nextgen = true

/-- The condition under which the option string carries the configuration. -/
structure Transmitted (build : Build) (opts : List DriverOption) (accepted : List Text) :
    Prop where
  /-- There is no `-q`. -/
  quiet : .quiet ∉ opts
  /-- The profiling of thread synchronisation is not wanted. -/
  threadsync : build.profilingSupport = true → .long .noThreadsyncProf ∈ opts
  /-- What is cut off from arguments of `-E` does no harm. -/
  harmless : ∀ token ∈ strays opts, token.Harmless build (asked build opts)
  /-- The last interval in the string is the one that is asked for last. -/
  interval : ((delimited opts).flatMap fun entry => entry.2.numbers entry.1).getLast?.getD
      defaultMpxHz = (opts.filterMap DriverOption.interval?).getLast?.getD defaultMpxHz
  /-- The last argument of `-E` has no delimiter. -/
  spec : ∀ entry ∈ (specArguments opts).getLast?, ∀ c ∈ entry.2, entry.1 c = false
  /-- No event is spelled like an option. -/
  event : ∀ name ∈ accepted, OptionToken.ofText name = .event name
  /-- If the list of the events comes first, there is no blank in the first event. -/
  blank : delimited opts = [] → ∀ name ∈ accepted.head?, ∀ c ∈ name, isFirstDelim c = false
  /-- The events fit into `eventnames`. -/
  count : accepted.length ≤ maxCounters

/-! ## The tokens of the options -/

section Line

variable {build : Build} {option : DriverOption} {opts : List DriverOption}
variable {isDelim : Char → Bool} {flag : Flag}

/-- A number that fits an `int` is read back. -/
theorem atoi_signed {n : ℤ} (hpos : 0 < n) (hlt : n < 2 ^ 31) : atoi (signed n) = n := by
  rw [atoi, signed_of_nonneg hpos.le, strtol_decimal, Int.toNat_of_nonneg hpos.le]
  have hcut : max (-2 ^ 63) (min (2 ^ 63 - 1) n) = n := by omega
  rw [hcut]
  exact Int.bmod_eq_of_le (by omega) (by omega)

/-- The tokens of an option are keywords, its own argument, and what is cut off. -/
theorem mem_tokens_iff {token : OptionToken} :
    token ∈ option.tokens isDelim ↔
      (∃ word ∈ option.keywords, token = .keyword word) ∨
      (∃ arg, option = .spec arg ∧ token = .spec (arg.takeWhile fun c => !isDelim c)) ∨
      (∃ arg, option = .multiplex (some arg) ∧
        token = .mpxInterval (signed (Int.bmod (strtol arg) (2 ^ 32)))) ∨
      token ∈ option.strays isDelim := by
  rw [DriverOption.tokens, List.mem_append, List.mem_map]
  refine or_congr ⟨?_, ?_⟩ ?_
  · rintro ⟨word, hword, rfl⟩
    exact ⟨word, hword, rfl⟩
  · rintro ⟨word, hword, rfl⟩
    exact ⟨word, hword, rfl⟩
  · unfold DriverOption.argumentTokens DriverOption.strays
    cases option with
    | spec arg => simp
    | multiplex interval => cases interval <;> simp
    | _ => simp

/-- The events the library finds in the text of an option are those that a delimiter cut off. -/
theorem filterMap_event?_tokens :
    (option.tokens isDelim).filterMap OptionToken.event? =
      (option.strays isDelim).filterMap OptionToken.event? := by
  have hkeywords : (option.keywords.map OptionToken.keyword).filterMap OptionToken.event? = [] := by
    simp [List.filterMap_map, OptionToken.event?]
  rw [DriverOption.tokens, List.filterMap_append, hkeywords, List.nil_append]
  unfold DriverOption.argumentTokens DriverOption.strays
  cases option with
  | multiplex interval => cases interval <;> rfl
  | _ => rfl

/-- The intervals found in the text of an option that was accepted are its own. -/
theorem filterMap_interval?_tokens (h : option.Accepted build) :
    (option.tokens isDelim).filterMap OptionToken.interval? = option.numbers isDelim := by
  have hkeywords :
      (option.keywords.map OptionToken.keyword).filterMap OptionToken.interval? = [] := by
    simp [List.filterMap_map, OptionToken.interval?]
  rw [DriverOption.tokens, List.filterMap_append, hkeywords, List.nil_append]
  unfold DriverOption.argumentTokens DriverOption.numbers
  cases option with
  | multiplex interval =>
      cases interval with
      | none => rfl
      | some arg =>
          have hlt := Int.bmod_lt (x := strtol arg) (m := 2 ^ 32) (by decide)
          exact congrArg (· :: []) (atoi_signed h.2.2 (by omega))
  | _ => rfl

/-- Of the name of a specification file the library keeps what stands before the first
delimiter. -/
theorem filterMap_spec?_tokens :
    (option.tokens isDelim).filterMap OptionToken.spec? =
      option.spec?.toList.flatMap fun arg => (arg.takeWhile fun c => !isDelim c) ::
        (cutOff isDelim arg).filterMap OptionToken.spec? := by
  have hkeywords : (option.keywords.map OptionToken.keyword).filterMap OptionToken.spec? = [] := by
    simp [List.filterMap_map, OptionToken.spec?]
  rw [DriverOption.tokens, List.filterMap_append, hkeywords, List.nil_append]
  unfold DriverOption.argumentTokens DriverOption.spec?
  cases option with
  | spec arg => exact (List.append_nil _).symm
  | multiplex interval => cases interval <;> rfl
  | _ => rfl

end Line

/-! ## The tokens of the command line -/

section CommandLine

variable {build : Build} {opts : List DriverOption} {flag : Flag} {token : OptionToken}

/-- The tokens of all options. -/
def lineTokens (opts : List DriverOption) : List OptionToken :=
  (delimited opts).flatMap fun entry => entry.2.tokens entry.1

/-- The options that write something, each with the delimiters at its place. -/
theorem map_snd_delimited :
    (delimited opts).map Prod.snd = opts.filter DriverOption.writes := by
  rw [delimited]
  cases opts.filter DriverOption.writes with
  | nil => rfl
  | cons first rest => simp

theorem writes_of_mem_keywords {option : DriverOption} {word : Keyword}
    (h : word ∈ option.keywords) : option.writes = true := by
  have hmem : word.text ∈ option.pieces := List.mem_append_left _ (List.mem_map_of_mem h)
  simpa [DriverOption.writes] using List.ne_nil_of_mem hmem

theorem writes_of_spec? {option : DriverOption} {arg : Text} (h : option.spec? = some arg) :
    option.writes = true := by
  cases option with
  | spec arg => rfl
  | multiplex interval => cases h
  | _ => cases h

/-- The keywords of a command line, and what is cut off. -/
theorem exists_mem_lineTokens_iff (p : OptionToken → Prop) (hspec : ∀ path, ¬ p (.spec path))
    (hinterval : ∀ arg, ¬ p (.mpxInterval arg)) :
    (∃ token ∈ lineTokens opts, p token) ↔
      (∃ option ∈ opts, ∃ word ∈ option.keywords, p (.keyword word)) ∨
        ∃ token ∈ strays opts, p token := by
  constructor
  · rintro ⟨token, htoken, hp⟩
    obtain ⟨⟨isDelim, option⟩, hentry, htoken⟩ := List.mem_flatMap.mp htoken
    have hoption : option ∈ opts.filter DriverOption.writes :=
      map_snd_delimited ▸ List.mem_map_of_mem hentry
    rcases mem_tokens_iff.mp htoken with
      ⟨word, hword, rfl⟩ | ⟨arg, -, rfl⟩ | ⟨arg, -, rfl⟩ | hstray
    · exact .inl ⟨option, (List.mem_filter.mp hoption).1, word, hword, hp⟩
    · exact absurd hp (hspec _)
    · exact absurd hp (hinterval _)
    · exact .inr ⟨token, List.mem_flatMap.mpr ⟨_, hentry, hstray⟩, hp⟩
  · rintro (⟨option, hoption, word, hword, hp⟩ | ⟨token, htoken, hp⟩)
    · have hline : option ∈ (delimited opts).map Prod.snd := by
        rw [map_snd_delimited]
        exact List.mem_filter.mpr ⟨hoption, writes_of_mem_keywords hword⟩
      obtain ⟨⟨isDelim, option⟩, hentry, rfl⟩ := List.mem_map.mp hline
      exact ⟨_, List.mem_flatMap.mpr ⟨_, hentry, mem_tokens_iff.mpr (.inl ⟨word, hword, rfl⟩)⟩, hp⟩
    · obtain ⟨entry, hentry, hstray⟩ := List.mem_flatMap.mp htoken
      exact ⟨token, List.mem_flatMap.mpr
        ⟨entry, hentry, mem_tokens_iff.mpr (.inr (.inr (.inr hstray)))⟩, hp⟩

/-- The events of the whole line are the ones that were cut off. -/
theorem filterMap_event?_lineTokens :
    (lineTokens opts).filterMap OptionToken.event? =
      (strays opts).filterMap OptionToken.event? := by
  rw [lineTokens, strays, List.filterMap_flatMap, List.filterMap_flatMap]
  exact List.flatMap_congr fun entry _ => filterMap_event?_tokens

/-- The intervals of the whole line are those of its options. -/
theorem filterMap_interval?_lineTokens (h : ∀ option ∈ opts, option.Accepted build) :
    (lineTokens opts).filterMap OptionToken.interval? =
      (delimited opts).flatMap fun entry => entry.2.numbers entry.1 := by
  rw [lineTokens, List.filterMap_flatMap]
  refine List.flatMap_congr fun entry hentry => ?_
  have hoption : entry.2 ∈ opts.filter DriverOption.writes :=
    map_snd_delimited ▸ List.mem_map_of_mem hentry
  have haccepted : entry.2.Accepted build := h _ (List.mem_filter.mp hoption).1
  exact filterMap_interval?_tokens haccepted

theorem filterMap_spec?_lineTokens :
    (lineTokens opts).filterMap OptionToken.spec? =
      (specArguments opts).flatMap fun entry => (entry.2.takeWhile fun c => !entry.1 c) ::
        (cutOff entry.1 entry.2).filterMap OptionToken.spec? := by
  rw [lineTokens, specArguments, List.filterMap_flatMap]
  induction delimited opts with
  | nil => rfl
  | cons entry rest ih =>
      rw [List.flatMap_cons, ih, filterMap_spec?_tokens, List.filterMap_cons]
      cases entry.2.spec? with
      | none => rfl
      | some arg => simp

theorem map_snd_specArguments :
    (specArguments opts).map Prod.snd = opts.filterMap DriverOption.spec? := by
  have hline : (specArguments opts).map Prod.snd =
      ((delimited opts).map Prod.snd).filterMap DriverOption.spec? := by
    rw [specArguments, List.map_filterMap, List.filterMap_map]
    congr 1
    funext entry
    show (entry.2.spec?.map _).map Prod.snd = entry.2.spec?
    cases entry.2.spec? <;> rfl
  rw [hline, map_snd_delimited, List.filterMap_filter]
  refine List.filterMap_congr fun option _ => ?_
  cases hspec : option.spec? with
  | none => simp
  | some arg => simp [writes_of_spec? hspec]

/-- What is cut off from an argument is shorter than the argument. -/
theorem length_lt_of_mem_cutOff {isDelim : Char → Bool} {arg path : Text}
    (h : path ∈ (cutOff isDelim arg).filterMap OptionToken.spec?) : path.length < arg.length := by
  obtain ⟨token, htoken, hpath⟩ := List.mem_filterMap.mp h
  obtain ⟨text, htext, rfl⟩ := List.mem_map.mp htoken
  have hlength : text.length ≤ arg.length := by
    have hflat := (List.sublist_flatten_of_mem htext).length_le
    rw [Strtok.flatten_tokens] at hflat
    have hfilter := List.length_filter_le (fun c => !isLaterDelim c)
      (arg.dropWhile fun c => !isDelim c).tail
    have hdrop : (arg.dropWhile fun c => !isDelim c).length ≤ arg.length :=
      (List.dropWhile_sublist fun c => !isDelim c).length_le
    rw [List.length_tail] at hfilter
    omega
  have hspec : OptionToken.ofText text = .spec path := by
    cases htoken : OptionToken.ofText text <;> rw [htoken] at hpath <;> cases hpath
    rfl
  have htext := OptionToken.text_ofText text
  rw [hspec] at htext
  rw [← htext] at hlength
  simp [OptionToken.text, specMarker] at hlength
  omega

/-- **The spec file comes through exactly if it is not cut.** -/
theorem getLast?_spec?_lineTokens_eq_iff :
    ((lineTokens opts).filterMap OptionToken.spec?).getLast? =
        (opts.filterMap DriverOption.spec?).getLast? ↔
      ∀ entry ∈ (specArguments opts).getLast?, ∀ c ∈ entry.2, entry.1 c = false := by
  rw [filterMap_spec?_lineTokens, ← map_snd_specArguments]
  rcases List.eq_nil_or_concat (specArguments opts) with hnone | ⟨front, ⟨isDelim, arg⟩, hlast⟩
  · simp [hnone]
  · rw [hlast, List.concat_eq_append, List.flatMap_append, List.getLast?_append,
      List.getLast?_map, List.getLast?_concat]
    simp only [List.flatMap_cons, List.flatMap_nil, List.append_nil, Option.map_some,
      Option.mem_some_iff, forall_eq']
    rw [List.getLast?_cons, Option.some_or, Option.some.injEq]
    constructor
    · intro heq c hc
      cases hcut : ((cutOff isDelim arg).filterMap OptionToken.spec?).getLast? with
      | none =>
          rw [hcut] at heq
          rw [← heq] at hc
          simpa using List.mem_takeWhile_imp hc
      | some path =>
          -- whatever counts instead was cut off, and is too short
          have hlt := length_lt_of_mem_cutOff (List.mem_of_getLast? hcut)
          rw [hcut, Option.getD_some] at heq
          rw [heq] at hlt
          exact absurd hlt (lt_irrefl _)
    · intro hclean
      have hall : ∀ c ∈ arg, (!isDelim c) = true := fun c hc => by rw [hclean c hc]; rfl
      rw [cutOff, List.dropWhile_eq_nil_iff.mpr hall, List.takeWhile_eq_self_iff.mpr hall]
      rfl

end CommandLine

/-! ## The flags -/

section Flags

variable {context : DriverContext} {build : Build} {opts : List DriverOption} {flag : Flag}
variable {final : DriverState} {raw flags : Flag → Bool} {stray : Flag → Prop}

/-- The long option that asks for the flag. -/
def Flag.long? : Flag → Option LongOption
  | .noSummaryStats => some .noSummary
  | .noDerivedStats => some .noDerived
  | .noMpiProf => some .noMpiProf
  | .noIoProf => some .noIoProf
  | .noThreadsyncProf => some .noThreadsyncProf
  | .csv => some .csvOutput
  | .nextgen => some .csvOutput
  | _ => none

/-- A flag that an option asks for is set by a keyword of the option, or waits for the end
of the command line. -/
theorem mem_asksFor_iff {option : DriverOption} (hflag : flag ≠ .quiet) :
    flag ∈ option.asksFor ↔
      (∃ word ∈ option.keywords, word ∈ flag.setBy) ∨
        ∃ long, flag.long? = some long ∧ option = .long long := by
  cases option with
  | long option =>
      have hlong : flag ∈ (DriverOption.long option).asksFor ↔ flag.long? = some option := by
        cases flag <;> cases option <;> decide
      rw [hlong]
      simp [DriverOption.keywords]
  | pathscale arg =>
      have hprof : ∀ prof : PathscaleProf, prof.keyword ∉ flag.setBy := by
        intro prof
        cases prof <;> cases flag <;> decide
      simp [DriverOption.asksFor, DriverOption.keywords, hprof]
  | _ => cases flag <;> simp [DriverOption.asksFor, DriverOption.keywords, Flag.setBy] at hflag ⊢

theorem any_ite_singleton {α : Type*} {guard : Bool} {x : α} {p : α → Bool} :
    (if guard then [x] else []).any p = (guard && p x) := by
  cases guard <;> simp

theorem any_nil_ite_singleton {α : Type*} {guard : Bool} {x : α} {p : α → Bool} :
    (if guard then [] else [x]).any p = (!guard && p x) := by
  cases guard <;> simp

/-- The keywords for the long options set the flags that these ask for, and `nextgen`
without `--classic`. -/
theorem any_longKeywords :
    (final.longKeywords.any fun word => word ∈ flag.setBy) =
      (flag.long?.any final.long || decide (flag = .nextgen) && !final.long .classic) := by
  simp only [DriverState.longKeywords, List.any_append, any_ite_singleton,
    any_nil_ite_singleton]
  cases flag <;> simp [Flag.setBy, Flag.long?, Bool.or_comm]

/-- **A flag is set** by a keyword of an option, by a long option, or by default. -/
theorem asked_iff (hflag : flag ≠ .quiet) :
    asked build opts flag = true ↔
      (∃ option ∈ opts, ∃ word ∈ option.keywords, word ∈ flag.setBy) ∨
        (∃ long, flag.long? = some long ∧ .long long ∈ opts) ∨
        defaultFlags build opts flag = true := by
  rw [asked, Bool.or_eq_true, List.any_eq_true, ← or_assoc]
  refine or_congr ?_ Iff.rfl
  constructor
  · rintro ⟨option, hoption, hasks⟩
    rcases (mem_asksFor_iff hflag).mp (of_decide_eq_true hasks) with hword | ⟨long, hlong, rfl⟩
    · exact .inl ⟨option, hoption, hword⟩
    · exact .inr ⟨long, hlong, hoption⟩
  · rintro (⟨option, hoption, hword⟩ | ⟨long, hlong, hoption⟩)
    · exact ⟨option, hoption, decide_eq_true ((mem_asksFor_iff hflag).mpr (.inl hword))⟩
    · exact ⟨_, hoption, decide_eq_true ((mem_asksFor_iff hflag).mpr (.inr ⟨long, hlong, rfl⟩))⟩

/-- **What the driver and the library set of their own accord and for the options** is what
the command line asks for, but for two flags. -/
theorem flags_of_options
    (hlong : ∀ long, final.long long =
      (decide (.long long ∈ opts) || (DriverState.initial build).long long)) :
    flag.get (initLibraryGlobals build) = true ∨
        (∃ option ∈ opts, ∃ word ∈ option.keywords, word ∈ flag.setBy) ∨
        (final.longKeywords.any fun word => word ∈ flag.setBy) = true ↔
      flag ≠ .quiet ∧ (asked build opts flag = true ∨ flag = .noThreadsyncProf) := by
  by_cases hflag : flag = .quiet
  · subst hflag
    simp [Flag.get, initLibraryGlobals, Flag.setBy]
  · rw [asked_iff hflag, any_longKeywords]
    generalize (∃ option ∈ opts, ∃ word ∈ option.keywords, word ∈ flag.setBy) = bykeyword
    cases flag <;>
      simp [Flag.get, initLibraryGlobals, Flag.long?, hlong, DriverState.initial, defaultFlags] <;>
      tauto

/-- Flags amount to the same if they are the same, except that `nextgen` hides `noWrite`. -/
theorem effective_eq_iff :
    Flag.effective raw = Flag.effective flags ↔
      (∀ flag, flag ≠ .noWrite → raw flag = flags flag) ∧
        (flags .nextgen = false → raw .noWrite = flags .noWrite) := by
  have hother : ∀ (flags : Flag → Bool) (flag : Flag), flag ≠ .noWrite →
      Flag.effective flags flag = flags flag := by
    intro flags flag hflag
    cases flag <;> first | rfl | exact absurd rfl hflag
  have hwrite : ∀ flags : Flag → Bool,
      Flag.effective flags .noWrite = (!flags .nextgen && flags .noWrite) := fun _ => rfl
  constructor
  · intro heq
    have hsame : ∀ flag, flag ≠ .noWrite → raw flag = flags flag := by
      intro flag hflag
      rw [← hother raw flag hflag, heq, hother flags flag hflag]
    refine ⟨hsame, fun hnextgen => ?_⟩
    have hboth := congrFun heq .noWrite
    rw [hwrite, hwrite, hsame .nextgen (by decide), hnextgen] at hboth
    simpa using hboth
  · rintro ⟨hsame, hnowrite⟩
    funext flag
    by_cases hflag : flag = .noWrite
    · rw [hflag, hwrite, hwrite, hsame .nextgen (by decide)]
      cases hnextgen : flags .nextgen with
      | true => rfl
      | false => rw [hnowrite hnextgen]
    · rw [hother raw flag hflag, hother flags flag hflag, hsame flag hflag]

/-- The flags are those asked for exactly if the two exceptions do not matter and what is
cut off sets no others. -/
theorem effective_eq_iff_of_strays
    (hraw : ∀ flag, raw flag = true ↔
      (flag ≠ .quiet ∧ (flags flag = true ∨ flag = .noThreadsyncProf)) ∨ stray flag)
    (hquiet : ¬ stray .quiet) :
    Flag.effective raw = Flag.effective flags ↔
      flags .quiet = false ∧ flags .noThreadsyncProf = true ∧
        ∀ flag, stray flag → flags flag = true ∨ flag = .noWrite ∧ flags .nextgen = true := by
  rw [effective_eq_iff]
  constructor
  · rintro ⟨hsame, hnowrite⟩
    refine ⟨?_, ?_, ?_⟩
    · rw [← hsame .quiet (by decide), Bool.eq_false_iff, Ne, hraw]
      simpa using hquiet
    · rw [← hsame .noThreadsyncProf (by decide), hraw]
      exact .inl ⟨by decide, .inr rfl⟩
    · intro flag hstray
      have hset : raw flag = true := (hraw flag).mpr (.inr hstray)
      by_cases hflag : flag = .noWrite
      · subst hflag
        cases hnextgen : flags .nextgen with
        | true => exact .inr ⟨rfl, rfl⟩
        | false => exact .inl (hnowrite hnextgen ▸ hset)
      · exact .inl (hsame flag hflag ▸ hset)
  · rintro ⟨hnot, hthread, hstrays⟩
    -- a stray token that sets what is set anyway does no harm
    have hiff : ∀ flag, (stray flag → flags flag = true) → raw flag = flags flag := by
      intro flag hstray
      rw [Bool.eq_iff_iff, hraw]
      constructor
      · rintro (⟨-, hset | rfl⟩ | hset)
        · exact hset
        · exact hthread
        · exact hstray hset
      · intro hset
        refine .inl ⟨?_, .inl hset⟩
        rintro rfl
        rw [hnot] at hset
        cases hset
    refine ⟨fun flag hflag => hiff flag fun hstray => ?_, fun hnextgen => hiff _ fun hstray => ?_⟩
    · rcases hstrays flag hstray with hset | ⟨heq, -⟩
      · exact hset
      · exact absurd heq hflag
    · rcases hstrays _ hstray with hset | ⟨-, hset⟩
      · exact hset
      · rw [hnextgen] at hset
        cases hset

end Flags

/-! ## The events -/

section Events

variable {opts : List DriverOption} {events : Text} {texts : List Text} {name : Text}

/-- A token is an event if it is read as one, and its name is its text. -/
theorem event?_ofText_eq_some_iff {text : Text} :
    (OptionToken.ofText text).event? = some name ↔
      OptionToken.ofText name = .event name ∧ text = name := by
  have htext := OptionToken.text_ofText text
  constructor
  · intro h
    cases htoken : OptionToken.ofText text with
    | event other =>
        rw [htoken] at h htext
        cases h
        cases htext
        exact ⟨htoken, rfl⟩
    | keyword word => rw [htoken] at h; cases h
    | mpxInterval arg => rw [htoken] at h; cases h
    | spec path => rw [htoken] at h; cases h
  · rintro ⟨hname, rfl⟩
    rw [hname]
    rfl

/-- The texts that are taken for events. -/
theorem filterMap_event?_map_ofText :
    (texts.map OptionToken.ofText).filterMap OptionToken.event? =
      texts.filter fun text => OptionToken.ofText text = .event text := by
  rw [List.filterMap_map, ← List.filterMap_eq_filter]
  refine List.filterMap_congr fun text _ => ?_
  ext name
  simp only [Function.comp_apply, event?_ofText_eq_some_iff, Option.guard_eq_some_iff,
    decide_eq_true_eq]
  constructor
  · rintro ⟨hname, rfl⟩
    exact ⟨rfl, hname⟩
  · rintro ⟨rfl, hname⟩
    exact ⟨hname, rfl⟩

/-- What was cut off is read like any other token. -/
theorem exists_ofText_eq_of_mem_strays {token : OptionToken} (h : token ∈ strays opts) :
    ∃ text, OptionToken.ofText text = token := by
  obtain ⟨⟨isDelim, option⟩, -, htoken⟩ := List.mem_flatMap.mp h
  cases option with
  | spec arg =>
      obtain ⟨text, -, htext⟩ := List.mem_map.mp htoken
      exact ⟨text, htext⟩
  | _ => cases htoken

/-- The list of the events is found whole, unless its first event is cut at a blank. -/
theorem eventTexts_eq_tokens
    (h : delimited opts = [] → ∀ name ∈ (Strtok.tokens isLaterDelim events).head?,
      ∀ c ∈ name, isFirstDelim c = false) :
    eventTexts opts events = Strtok.tokens isLaterDelim events := by
  rw [eventTexts]
  split
  · rename_i hnone
    exact Strtok.strtok_eq_tokens isFirstDelim_of_isLaterDelim (h (List.isEmpty_iff.mp hnone))
  · rfl

/-- **The events come through exactly if** nothing that is cut off is taken for one, none of
them is taken for something else, and the first one is not cut at a blank. -/
theorem events_eq_iff :
    (strays opts).filterMap OptionToken.event? ++
        ((eventTexts opts events).map OptionToken.ofText).filterMap OptionToken.event? =
      Strtok.tokens isLaterDelim events ↔
    (∀ token ∈ strays opts, token.event? = none) ∧
      (∀ name ∈ Strtok.tokens isLaterDelim events, OptionToken.ofText name = .event name) ∧
      (delimited opts = [] → ∀ name ∈ (Strtok.tokens isLaterDelim events).head?,
        ∀ c ∈ name, isFirstDelim c = false) := by
  rw [filterMap_event?_map_ofText, ← List.filterMap_eq_nil_iff]
  constructor
  · intro h
    have hevent : ∀ name ∈ Strtok.tokens isLaterDelim events,
        OptionToken.ofText name = .event name := by
      intro name hname
      rw [← h] at hname
      rcases List.mem_append.mp hname with hstray | hlist
      · obtain ⟨token, htoken, hname⟩ := List.mem_filterMap.mp hstray
        obtain ⟨text, rfl⟩ := exists_ofText_eq_of_mem_strays htoken
        exact (event?_ofText_eq_some_iff.mp hname).1
      · exact of_decide_eq_true (List.mem_filter.mp hlist).2
    by_cases hnone : delimited opts = []
    · have hstrays : strays opts = [] := by rw [strays, hnone]; rfl
      refine ⟨by rw [hstrays]; rfl, hevent, fun _ => ?_⟩
      rcases Strtok.strtok_eq_tokens_or isFirstDelim_of_isLaterDelim events with
        ⟨-, hclean⟩ | ⟨hlt, -⟩
      · exact hclean
      · -- the blank at which the first event is cut is missing from the texts
        have hsub : (Strtok.tokens isLaterDelim events).Sublist
            (Strtok.strtok isFirstDelim isLaterDelim events) := by
          rw [← h, hstrays, eventTexts, hnone]
          exact List.filter_sublist
        exact absurd hsub.flatten.length_le (not_le.mpr hlt)
    · rw [eventTexts, if_neg (by simpa using hnone),
        List.filter_eq_self.mpr (by simpa using hevent)] at h
      exact ⟨List.append_left_eq_self.mp h, hevent, fun hnil => absurd hnil hnone⟩
  · rintro ⟨hstrays, hevent, hblank⟩
    rw [hstrays, eventTexts_eq_tokens hblank, List.filter_eq_self.mpr (by simpa using hevent),
      List.nil_append]

end Events

/-! ## The channel -/

section Channel

variable {context : DriverContext} {opts : List DriverOption} {accepted : List Text} {str : Text}

/-- **What an accepted command line hands on**: the events, cut at the commas, and the option
string. -/
theorem parseArgs_ok (h : parseArgs context opts = .ok (accepted, str)) :
    ∃ final events,
      FallibleRun.run (parseOption context) (.initial context.build) opts = .ok final ∧
      (final.requestedEvents = [] → events = []) ∧
      accepted = Strtok.tokens isLaterDelim events ∧ str = final.finish events := by
  unfold parseArgs at h
  split at h
  · cases h
  · rename_i final hrun
    split at h
    · cases h
    · rename_i events htested
      split at h
      · cases h
      · split at h
        · cases h
        · cases h
          refine ⟨final, events, hrun, fun hnone => ?_, rfl, rfl⟩
          rw [DriverState.testedEvents, if_pos (.inl hnone)] at htested
          cases htested
          exact hnone

/-- The tokens of an option string whose events are taken for events. -/
def stringTokens (opts : List DriverOption) (accepted : List Text) (words : List Keyword) :
    List OptionToken :=
  lineTokens opts ++ accepted.map .event ++ words.map .keyword

/-- What is neither an event nor a keyword comes from the options. -/
theorem filterMap_stringTokens {β : Type*} {read : OptionToken → Option β} {words : List Keyword}
    (hevent : ∀ name, read (.event name) = none) (hkeyword : ∀ word, read (.keyword word) = none) :
    (stringTokens opts accepted words).filterMap read = (lineTokens opts).filterMap read := by
  have hevents : (accepted.map OptionToken.event).filterMap read = [] := by
    simp [List.filterMap_map, hevent]
  have hwords : (words.map OptionToken.keyword).filterMap read = [] := by
    simp [List.filterMap_map, hkeyword]
  rw [stringTokens, List.filterMap_append, List.filterMap_append, hevents, hwords,
    List.append_nil, List.append_nil]

/-- A keyword that is found comes from an option, from the driver, or was cut off. -/
theorem any_stringTokens {words : List Keyword} {p : OptionToken → Bool}
    (hevent : ∀ name, p (.event name) = false) (hspec : ∀ path, p (.spec path) = false)
    (hinterval : ∀ arg, p (.mpxInterval arg) = false) :
    (stringTokens opts accepted words).any p = true ↔
      (∃ option ∈ opts, ∃ word ∈ option.keywords, p (.keyword word) = true) ∨
        (words.any fun word => p (.keyword word)) = true ∨
        ∃ token ∈ strays opts, p token = true := by
  have hline : (∃ token ∈ lineTokens opts, p token = true) ↔ _ :=
    exists_mem_lineTokens_iff (fun token => p token = true) (by simp [hspec]) (by simp [hinterval])
  have hevents : (accepted.map OptionToken.event).any p = false := by
    simp [List.any_map, Function.comp_def, hevent]
  rw [stringTokens, List.any_append, List.any_append, hevents, Bool.or_false, Bool.or_eq_true,
    List.any_eq_true, hline, List.any_map, or_assoc]
  exact or_congr Iff.rfl or_comm

theorem quiet_mem_asksFor_iff {option : DriverOption} :
    Flag.quiet ∈ option.asksFor ↔ option = .quiet := by
  cases option with
  | long option => cases option <;> simp [DriverOption.asksFor]
  | _ => simp [DriverOption.asksFor]

/-- Only the long option asks for no profiling of thread synchronisation. -/
theorem noThreadsyncProf_mem_asksFor_iff {option : DriverOption} :
    Flag.noThreadsyncProf ∈ option.asksFor ↔ option = .long .noThreadsyncProf := by
  cases option with
  | long option => cases option <;> simp [DriverOption.asksFor]
  | _ => simp [DriverOption.asksFor]

theorem asked_quiet_iff {build : Build} :
    asked build opts .quiet = false ↔ .quiet ∉ opts := by
  rw [Bool.eq_false_iff, Ne, not_iff_not]
  simp [asked, defaultFlags, quiet_mem_asksFor_iff]

/-- In a build without profiling the flag is set at any rate. -/
theorem asked_noThreadsyncProf_iff {build : Build} :
    asked build opts .noThreadsyncProf = true ↔
      (build.profilingSupport = true → .long .noThreadsyncProf ∈ opts) := by
  cases hbuild : build.profilingSupport <;>
    simp [asked, defaultFlags, noThreadsyncProf_mem_asksFor_iff, hbuild]

/-- The options ask for a profile only where the tools were built with it. -/
theorem profiles_of_options {build : Build} (h : ∀ option ∈ opts, option.Accepted build) :
    (∃ option ∈ opts, ∃ word ∈ option.keywords, (OptionToken.keyword word).profiles = true) →
      build.haveBinutils = true := by
  rintro ⟨option, hoption, word, hword, hprofiles⟩
  have haccepted := h option hoption
  cases option with
  | pathscale arg => exact haccepted
  | gnu => exact haccepted
  | auto =>
      simp only [DriverOption.keywords, List.mem_cons, List.not_mem_nil, or_false] at hword
      rcases hword with rfl | rfl <;> cases hprofiles
  | event | shellDump | long | info | unknown | spec => cases hword
  | _ =>
      rw [DriverOption.keywords, List.mem_singleton] at hword
      rw [hword] at hprofiles
      cases hprofiles

/-- The keywords the driver adds do not turn profiling on. -/
theorem profiles_of_longKeywords {final : DriverState} :
    (final.longKeywords.any fun word => (OptionToken.keyword word).profiles) = false := by
  simp only [DriverState.longKeywords, List.any_append, any_ite_singleton,
    any_nil_ite_singleton]
  simp [OptionToken.profiles]

/-- The flags come through if what is cut off sets no others, but for the two exceptions. -/
theorem flags_stringTokens_iff {build : Build} {final : DriverState}
    (hlong : ∀ long, final.long long =
      (decide (.long long ∈ opts) || (DriverState.initial build).long long)) :
    (Flag.effective fun flag => flag.get (initLibraryGlobals build) ||
        (stringTokens opts accepted final.longKeywords).any (OptionToken.sets flag)) =
      Flag.effective (asked build opts) ↔
    .quiet ∉ opts ∧ (build.profilingSupport = true → .long .noThreadsyncProf ∈ opts) ∧
      ∀ flag, (∃ token ∈ strays opts, token.sets flag = true) →
        asked build opts flag = true ∨ flag = .noWrite ∧ asked build opts .nextgen = true := by
  have hquiet : asked build opts .quiet = false ↔ _ := asked_quiet_iff
  rw [← hquiet, ← asked_noThreadsyncProf_iff]
  refine effective_eq_iff_of_strays (fun flag => ?_) ?_
  · have hwords : (stringTokens opts accepted final.longKeywords).any (OptionToken.sets flag) =
        true ↔ _ :=
      any_stringTokens (fun _ => rfl) (fun _ => rfl) (fun _ => rfl)
    rw [Bool.or_eq_true, hwords, ← flags_of_options hlong]
    simp only [OptionToken.sets, decide_eq_true_eq, or_assoc]
  · rintro ⟨token, -, hsets⟩
    cases token <;> simp [OptionToken.sets, Flag.setBy] at hsets

/-- The tools were built with the profiles that are asked for. -/
theorem profiles_stringTokens_iff {build : Build} {final : DriverState}
    (haccepted : ∀ option ∈ opts, option.Accepted build) :
    ((stringTokens opts accepted final.longKeywords).any OptionToken.profiles = true →
        build.haveBinutils = true) ↔
      ∀ token ∈ strays opts, token.profiles = true → build.haveBinutils = true := by
  rw [any_stringTokens (fun _ => rfl) (fun _ => rfl) (fun _ => rfl), profiles_of_longKeywords]
  constructor
  · intro h token htoken hprofiles
    exact h (.inr (.inr ⟨token, htoken, hprofiles⟩))
  · rintro h (hoptions | hwords | ⟨token, htoken, hprofiles⟩)
    · exact profiles_of_options haccepted hoptions
    · cases hwords
    · exact h token htoken hprofiles

/-- The configuration in an option string whose events come through. -/
theorem configuration_stringTokens_iff {build : Build} {final : DriverState}
    (haccepted : ∀ option ∈ opts, option.Accepted build)
    (hlong : ∀ long, final.long long =
      (decide (.long long ∈ opts) || (DriverState.initial build).long long))
    (hnames : (stringTokens opts accepted final.longKeywords).filterMap OptionToken.event? =
      accepted) :
    (settingsAfter build (stringTokens opts accepted final.longKeywords)).configuration =
        requested build opts accepted ↔
      (.quiet ∉ opts ∧ (build.profilingSupport = true → .long .noThreadsyncProf ∈ opts) ∧
        ∀ flag, (∃ token ∈ strays opts, token.sets flag = true) →
          asked build opts flag = true ∨ flag = .noWrite ∧ asked build opts .nextgen = true) ∧
      ((delimited opts).flatMap fun entry => entry.2.numbers entry.1).getLast?.getD defaultMpxHz =
        (opts.filterMap DriverOption.interval?).getLast?.getD defaultMpxHz ∧
      ∀ entry ∈ (specArguments opts).getLast?, ∀ c ∈ entry.2, entry.1 c = false := by
  rw [configuration_settingsAfter, requested, Configuration.mk.injEq, flags_stringTokens_iff hlong,
    filterMap_stringTokens (fun _ => rfl) (fun _ => rfl),
    filterMap_stringTokens (fun _ => rfl) (fun _ => rfl), filterMap_interval?_lineTokens haccepted,
    getLast?_spec?_lineTokens_eq_iff, hnames]
  simp only [and_true]

/-- **The library finds in the option string what the driver put there**: the tokens of the
options, the events and the keywords. -/
theorem optionTokens_eq_stringTokens {final : DriverState} {events : Text}
    (hrun : FallibleRun.run (parseOption context) (.initial context.build) opts = .ok final)
    (hevents : final.requestedEvents = [] → events = [])
    (hevent : ∀ name ∈ Strtok.tokens isLaterDelim events, OptionToken.ofText name = .event name)
    (hblank : delimited opts = [] → ∀ name ∈ (Strtok.tokens isLaterDelim events).head?,
      ∀ c ∈ name, isFirstDelim c = false) :
    optionTokens (final.finish events) =
      stringTokens opts (Strtok.tokens isLaterDelim events) final.longKeywords := by
  rw [optionTokens_finish hrun hevents, eventTexts_eq_tokens hblank, List.map_congr_left hevent]
  rfl

/-- **The option string carries the configuration exactly under the condition.** -/
theorem option_string_faithful_iff (h : parseArgs context opts = .ok (accepted, str)) :
    (∃ lib, monitorInitLibrary context.build str = some lib ∧
        lib.configuration = requested context.build opts accepted) ↔
      Transmitted context.build opts accepted := by
  obtain ⟨final, events, hrun, hevents, rfl, rfl⟩ := parseArgs_ok h
  obtain ⟨haccepted, -, hlong⟩ := run_parseOption hrun
  have hnames : (optionTokens (final.finish events)).filterMap OptionToken.event? =
      (strays opts).filterMap OptionToken.event? ++
        ((eventTexts opts events).map OptionToken.ofText).filterMap OptionToken.event? := by
    rw [optionTokens_finish hrun hevents, List.filterMap_append, List.filterMap_append]
    rw [show ((delimited opts).flatMap fun entry => entry.2.tokens entry.1) = lineTokens opts
      from rfl, filterMap_event?_lineTokens]
    simp [List.filterMap_map, OptionToken.event?]
  constructor
  · rintro ⟨lib, hlib, hconfiguration⟩
    obtain ⟨hcount, hprofiles, rfl⟩ := (monitorInitLibrary_eq_some_iff rfl).mp hlib
    -- the names alone tell that all tokens are as they were written
    have hall : (optionTokens (final.finish events)).filterMap OptionToken.event? =
        Strtok.tokens isLaterDelim events := by
      have hsame := congrArg Configuration.eventnames hconfiguration
      rw [configuration_settingsAfter] at hsame
      exact hsame
    obtain ⟨hstrays, hevent, hblank⟩ := events_eq_iff.mp (hnames.symm.trans hall)
    have htokens := optionTokens_eq_stringTokens hrun hevents hevent hblank
    rw [htokens] at hall hcount hprofiles hconfiguration
    obtain ⟨⟨hquiet, hthread, hflags⟩, hinterval, hspec⟩ :=
      (configuration_stringTokens_iff haccepted hlong hall).mp hconfiguration
    rw [profiles_stringTokens_iff haccepted] at hprofiles
    rw [hall] at hcount
    refine ⟨hquiet, hthread, ?_, hinterval, hspec, hevent, hblank, hcount⟩
    intro token htoken
    exact ⟨hstrays token htoken, hprofiles token htoken,
      fun flag hsets => hflags flag ⟨token, htoken, hsets⟩⟩
  · intro htransmitted
    have hall := hnames.trans (events_eq_iff.mpr ⟨fun token htoken =>
      (htransmitted.harmless token htoken).1, htransmitted.event, htransmitted.blank⟩)
    have htokens := optionTokens_eq_stringTokens hrun hevents htransmitted.event
      htransmitted.blank
    rw [htokens] at hall
    refine ⟨_, (monitorInitLibrary_eq_some_iff htokens).mpr ⟨?_, ?_, rfl⟩, ?_⟩
    · rw [hall]
      exact htransmitted.count
    · exact (profiles_stringTokens_iff haccepted).mpr fun token htoken =>
        (htransmitted.harmless token htoken).2.1
    · refine (configuration_stringTokens_iff haccepted hlong hall).mpr
        ⟨⟨htransmitted.quiet, htransmitted.threadsync, ?_⟩, htransmitted.interval,
          htransmitted.spec⟩
      rintro flag ⟨token, htoken, hsets⟩
      exact (htransmitted.harmless token htoken).2.2 flag hsets

/-- Events and files are all there, and a command follows the options. -/
def readyContext (build : Build) : DriverContext where
  build := build
  papi :=
    { eventNameToCode := fun _ => true
      queryEvent := fun _ => true
      multiplexInit := true
      createEventset := true
      setMultiplex := true
      addEvents := fun _ _ => 0 }
  fileExists := fun _ => true
  hasCommand := true

/-- `-m25 -E my.spec -n -e PAPI_TOT_CYC --csv-output --no-threadsync-prof`. -/
def csvLine : List DriverOption :=
  [.multiplex (some "25".toList), .spec "my.spec".toList, .noWrite, .event "PAPI_TOT_CYC".toList,
    .long .csvOutput, .long .noThreadsyncProf]

/-- This command line comes through in a build with profiling support. -/
theorem option_string_faithful_csv :
    ∃ lib, monitorInitLibrary ⟨true, false⟩
        ("MULTIPLEX,MPX_INTERVAL=25,SPEC=my.spec,NO_WRITE,PAPI_TOT_CYC,NO_THREADSYNC_PROF," ++
          "NEXTGEN,CSV").toList = some lib ∧
      lib.configuration = requested ⟨true, false⟩ csvLine ["PAPI_TOT_CYC".toList] := by
  have hparse : parseArgs (readyContext ⟨true, false⟩) csvLine =
      .ok (["PAPI_TOT_CYC".toList],
        ("MULTIPLEX,MPX_INTERVAL=25,SPEC=my.spec,NO_WRITE,PAPI_TOT_CYC,NO_THREADSYNC_PROF," ++
          "NEXTGEN,CSV").toList) := by rfl
  have hspec : (specArguments csvLine).getLast? = some (isLaterDelim, "my.spec".toList) := by rfl
  refine (option_string_faithful_iff hparse).mpr
    { quiet := by decide
      threadsync := by decide
      harmless := fun token htoken => absurd htoken List.not_mem_nil
      interval := by decide
      spec := ?_
      event := by decide
      blank := by rintro ⟨⟩
      count := by decide }
  rintro entry hentry
  rw [hspec] at hentry
  cases hentry
  show ∀ c ∈ "my.spec".toList, isLaterDelim c = false
  decide

/-- The spec file `a,b` is cut at its comma, and `b` is taken for an event. -/
theorem spec_argument_cut :
    parseArgs (readyContext ⟨false, false⟩) [.spec "a,b".toList] =
        .ok ([], "SPEC=a,b,NO_MPI_PROF,NO_IO_PROF,NO_THREADSYNC_PROF,NEXTGEN".toList) ∧
      ¬ ∃ lib, monitorInitLibrary ⟨false, false⟩
          "SPEC=a,b,NO_MPI_PROF,NO_IO_PROF,NO_THREADSYNC_PROF,NEXTGEN".toList = some lib ∧
        lib.configuration = requested ⟨false, false⟩ [.spec "a,b".toList] [] := by
  refine ⟨by rfl, ?_⟩
  rintro ⟨lib, hlib, hconfiguration⟩
  have hread : (monitorInitLibrary ⟨false, false⟩
      "SPEC=a,b,NO_MPI_PROF,NO_IO_PROF,NO_THREADSYNC_PROF,NEXTGEN".toList).map
        (fun lib => lib.configuration.spec) = some (some "a".toList) := by rfl
  rw [hlib, Option.map_some, hconfiguration] at hread
  cases hread

end Channel

end Papiex
