import Papiex.Options.Decode
import Papiex.Options.Driver

/-!
# What the driver writes

An option writes its pieces, and the option string is the pieces of all options, the
events, and the keywords for the long options, joined by commas.  The tokens that the
library finds in it are those of the pieces one by one.  The piece that comes first
is cut at blanks as well; only a spec file and the list of the events can be cut.

## Main results

* `run_parseOption`: what the options leave in the option string.
* `optionTokens_finish`: the tokens that the library finds in it.

## Design notes

Each option has the list of pieces that it writes, keywords first, then those with an
argument.  That the tokens of joined texts are those of the texts is a fact about `strtok`
with two sets of delimiters, from `Papiex.Lib.Strtok`.
-/

namespace Papiex

open Chars

/-! ## The texts of the tokens -/

namespace Keyword

theorem text_ne_nil (word : Keyword) : word.text ≠ [] := by
  cases word <;> decide

/-- Neither commas nor blanks nor equals signs are in a keyword. -/
theorem not_mem_text (word : Keyword) {c : Char} (h : c = ',' ∨ c = ' ' ∨ c = '=') :
    c ∉ word.text := by
  rcases h with rfl | rfl | rfl <;> cases word <;> decide

theorem isFirstDelim_text (word : Keyword) : ∀ c ∈ word.text, isFirstDelim c = false := by
  intro c hc
  by_contra hdelim
  have hdelim : c = ',' ∨ c = ' ' := by
    rw [Bool.not_eq_false, isFirstDelim, Bool.or_eq_true, decide_eq_true_eq,
      decide_eq_true_eq] at hdelim
    exact hdelim
  exact not_mem_text word (hdelim.imp_right .inl) hc

end Keyword

/-- The later delimiters are among the first ones. -/
theorem isFirstDelim_of_isLaterDelim (c : Char) (h : isLaterDelim c = true) :
    isFirstDelim c = true := by
  have hcomma : c = ',' := by simpa [isLaterDelim] using h
  rw [hcomma]
  rfl

/-- What is none of the first delimiters is none of the later ones. -/
theorem isLaterDelim_eq_false {c : Char} (h : isFirstDelim c = false) : isLaterDelim c = false := by
  by_contra hlater
  rw [isFirstDelim_of_isLaterDelim c (by simpa using hlater)] at h
  cases h

namespace OptionToken

theorem ofText_text (word : Keyword) : ofText word.text = keyword word := by
  have hfind : Keyword.all.find? (fun tried => tried.text = word.text) = some word := by
    cases word <;> decide
  rw [ofText, hfind]

/-- A text with an equals sign is no keyword. -/
theorem find?_eq_none {tmp : Text} (h : '=' ∈ tmp) :
    Keyword.all.find? (fun word => word.text = tmp) = none := by
  rw [List.find?_eq_none]
  intro word _ heq
  have heq : word.text = tmp := by simpa using heq
  exact word.not_mem_text (.inr (.inr rfl)) (heq ▸ h)

theorem ofText_intervalMarker (arg : Text) : ofText (intervalMarker ++ arg) = mpxInterval arg := by
  rw [ofText, find?_eq_none (List.mem_append_left _ (by decide)), dropPrefix_append]

theorem ofText_specMarker (path : Text) : ofText (specMarker ++ path) = spec path := by
  have hinterval : dropPrefix intervalMarker (specMarker ++ path) = none := rfl
  rw [ofText, find?_eq_none (List.mem_append_left _ (by decide))]
  simp only [hinterval, dropPrefix_append]

/-- The text of a token. -/
def text : OptionToken → Text
  | keyword word => word.text
  | mpxInterval arg => intervalMarker ++ arg
  | spec path => specMarker ++ path
  | event name => name

/-- No two texts are taken for the same token. -/
@[simp] theorem text_ofText (tmp : Text) : (ofText tmp).text = tmp := by
  unfold ofText
  split
  · rename_i word hfind
    have htext := List.find?_some hfind
    exact of_decide_eq_true htext
  · split
    · rename_i arg hdrop
      exact (dropPrefix_eq_some_iff.mp hdrop).symm
    · split
      · rename_i path hdrop
        exact (dropPrefix_eq_some_iff.mp hdrop).symm
      · rfl

end OptionToken

/-! ## The pieces of an option -/

/-- The keywords that the option writes. -/
def DriverOption.keywords : DriverOption → List Keyword
  | .debug => [.debug]
  | .pathscale arg => [((pathscaleOf arg).getD .all).keyword]
  | .gnu => [.gccProf]
  | .quiet => [.quiet]
  | .multiplex _ => [.multiplex]
  | .rusage => [.rusage]
  | .memory => [.memory]
  | .noWrite => [.noWrite]
  | .writeOnly => [.writeOnly]
  | .user => [.user]
  | .kernel => [.kernel]
  | .other => [.other]
  | .supervisor => [.supervisor]
  | .outputPrefix => [.outputPrefix]
  | .outputDir => [.outputDir]
  | .outputFile => [.outputFile]
  | .auto => [.multiplex, .memory]
  | _ => []

/-- The pieces with an argument that the option writes. -/
def DriverOption.arguments : DriverOption → List Text
  | .spec arg => [specMarker ++ arg]
  | .multiplex (some arg) => [intervalMarker ++ signed (Int.bmod (strtol arg) (2 ^ 32))]
  | _ => []

/-- The pieces that the option writes. -/
def DriverOption.pieces (option : DriverOption) : List Text :=
  option.keywords.map Keyword.text ++ option.arguments

/-- What `parse_args` has checked of an option that it accepts. -/
def DriverOption.Accepted (build : Build) : DriverOption → Prop
  | .pathscale _ => build.haveBinutils = true
  | .gnu => build.haveBinutils = true
  | .multiplex (some arg) =>
      -2 ^ 63 ≤ strtol arg ∧ strtol arg < 2 ^ 63 ∧ 0 < Int.bmod (strtol arg) (2 ^ 32)
  | .long option =>
      option = .noMpiProf ∨ option = .noIoProf ∨ option = .noThreadsyncProf →
        build.profilingSupport = true
  | _ => True

/-- The option writes something. -/
def DriverOption.writes (option : DriverOption) : Bool := !option.pieces.isEmpty

/-- What is cut off from the argument of `-E`. -/
def cutOff (isDelim : Char → Bool) (arg : Text) : List OptionToken :=
  (Strtok.tokens isLaterDelim (arg.dropWhile fun c => !isDelim c).tail).map OptionToken.ofText

/-- The tokens of the pieces with an argument. -/
def DriverOption.argumentTokens (isDelim : Char → Bool) : DriverOption → List OptionToken
  | .spec arg => .spec (arg.takeWhile fun c => !isDelim c) :: cutOff isDelim arg
  | .multiplex (some arg) => [.mpxInterval (signed (Int.bmod (strtol arg) (2 ^ 32)))]
  | _ => []

/-- The tokens of the option's pieces. -/
def DriverOption.tokens (isDelim : Char → Bool) (option : DriverOption) : List OptionToken :=
  option.keywords.map .keyword ++ option.argumentTokens isDelim

/-- The options that write something, with the delimiters at which the library cuts: those
of the first call of `strtok` for the first one. -/
def delimited (opts : List DriverOption) : List ((Char → Bool) × DriverOption) :=
  match opts.filter DriverOption.writes with
  | [] => []
  | first :: rest => (isFirstDelim, first) :: rest.map fun option => (isLaterDelim, option)

section Pieces

variable {option : DriverOption} {opts : List DriverOption} {isDelim : Char → Bool} {arg : Text}

theorem isFirstDelim_of_mem_signed {n : ℤ} {c : Char} (h : c ∈ signed n) :
    isFirstDelim c = false := by
  by_contra hdelim
  rw [Bool.not_eq_false, isFirstDelim, Bool.or_eq_true, decide_eq_true_eq,
    decide_eq_true_eq] at hdelim
  rcases hdelim with rfl | rfl
  · exact not_mem_signed rfl (by decide) h
  · exact not_mem_signed rfl (by decide) h

/-- Only the spec file brings delimiters into the string. -/
theorem isFirstDelim_pieces (hspec : ∀ arg, option ≠ .spec arg) :
    ∀ piece ∈ option.pieces, piece ≠ [] ∧ ∀ c ∈ piece, isFirstDelim c = false := by
  intro piece hpiece
  rcases List.mem_append.mp hpiece with hkeyword | hargument
  · obtain ⟨word, -, rfl⟩ := List.mem_map.mp hkeyword
    exact ⟨word.text_ne_nil, word.isFirstDelim_text⟩
  · unfold DriverOption.arguments at hargument
    split at hargument
    · exact absurd rfl (hspec _)
    · simp only [List.mem_singleton] at hargument
      subst hargument
      refine ⟨List.append_ne_nil_of_left_ne_nil (by decide) _, ?_⟩
      intro c hc
      rcases List.mem_append.mp hc with hmarker | hnumber
      · have hall : ∀ c ∈ intervalMarker, isFirstDelim c = false := by decide
        exact hall c hmarker
      · exact isFirstDelim_of_mem_signed hnumber
    · cases hargument

/-- The tokens of an option whose pieces have no delimiters. -/
theorem map_ofText_pieces (hspec : ∀ arg, option ≠ .spec arg) :
    option.pieces.map OptionToken.ofText = option.tokens isDelim := by
  have hkeywords : (option.keywords.map Keyword.text).map OptionToken.ofText =
      option.keywords.map .keyword := by
    rw [List.map_map]
    exact List.map_congr_left fun word _ => OptionToken.ofText_text word
  rw [DriverOption.pieces, List.map_append, hkeywords, DriverOption.tokens]
  congr 1
  unfold DriverOption.arguments DriverOption.argumentTokens
  split
  · exact absurd rfl (hspec _)
  · exact congrArg (· :: []) (OptionToken.ofText_intervalMarker _)
  · rfl

/-- A spec file is cut at its first delimiter. -/
theorem strtok_specMarker (hdelim : ∀ c, isDelim c = true → isFirstDelim c = true) :
    (Strtok.strtok isDelim isLaterDelim (specMarker ++ arg)).map OptionToken.ofText =
      (DriverOption.spec arg).tokens isDelim := by
  have hmarker : ∀ c ∈ specMarker, isDelim c = false := by
    intro c hc
    have hall : ∀ c ∈ specMarker, isFirstDelim c = false := by decide
    by_contra hnot
    have hfirst := hdelim c (by simpa using hnot)
    rw [hall c hc] at hfirst
    cases hfirst
  have htake : ∀ c ∈ "PEC=".toList, (!isDelim c) = true := by
    intro c hc
    rw [hmarker c (List.mem_cons_of_mem _ hc)]
    rfl
  rw [show specMarker ++ arg = 'S' :: ("PEC=".toList ++ arg) from rfl,
    Strtok.strtok_cons (hmarker 'S' List.mem_cons_self), List.takeWhile_append_of_pos htake,
    List.dropWhile_append_of_pos htake, List.map_cons]
  exact congrArg (· :: cutOff isDelim arg)
    (OptionToken.ofText_specMarker (arg.takeWhile fun c => !isDelim c))

theorem tokens_ne_nil (h : option.writes = true) : option.tokens isDelim ≠ [] := by
  intro htokens
  obtain ⟨hkeywords, hargument⟩ := List.append_eq_nil_iff.mp htokens
  have hpieces : option.pieces = [] := by
    rw [DriverOption.pieces, List.map_eq_nil_iff.mp hkeywords, List.map_nil, List.nil_append]
    unfold DriverOption.argumentTokens at hargument
    unfold DriverOption.arguments
    split at hargument
    · cases hargument
    · cases hargument
    · rfl
  rw [DriverOption.writes, hpieces] at h
  cases h

/-- The tokens of an option's pieces, if they come first. -/
theorem strtokAll_pieces :
    (Strtok.strtokAll isFirstDelim isLaterDelim option.pieces).map OptionToken.ofText =
      option.tokens isFirstDelim := by
  by_cases hspec : ∃ arg, option = .spec arg
  · obtain ⟨arg, rfl⟩ := hspec
    rw [← strtok_specMarker fun _ h => h, ← List.append_nil (Strtok.strtok _ _ _)]
    exact congrArg _ (Strtok.strtokAll_cons (List.cons_ne_nil _ _))
  · have hspec : ∀ arg, option ≠ .spec arg := fun arg harg => hspec ⟨arg, harg⟩
    rw [Strtok.strtokAll_eq_self isFirstDelim_of_isLaterDelim (isFirstDelim_pieces hspec),
      map_ofText_pieces hspec]

/-- The tokens of an option's pieces, if others come before them. -/
theorem flatMap_tokens_pieces :
    (option.pieces.flatMap (Strtok.tokens isLaterDelim)).map OptionToken.ofText =
      option.tokens isLaterDelim := by
  by_cases hspec : ∃ arg, option = .spec arg
  · obtain ⟨arg, rfl⟩ := hspec
    rw [← strtok_specMarker isFirstDelim_of_isLaterDelim, Strtok.strtok_self]
    exact congrArg _ (List.append_nil _)
  · have hspec : ∀ arg, option ≠ .spec arg := fun arg harg => hspec ⟨arg, harg⟩
    rw [Strtok.flatMap_tokens_eq_self, map_ofText_pieces hspec]
    intro piece hpiece
    obtain ⟨hne, hclean⟩ := isFirstDelim_pieces hspec piece hpiece
    exact ⟨hne, fun c hc => isLaterDelim_eq_false (hclean c hc)⟩

/-- **The tokens of all options**, each cut at its own delimiters. -/
theorem strtokAll_flatMap_pieces :
    (Strtok.strtokAll isFirstDelim isLaterDelim (opts.flatMap DriverOption.pieces)).map
        OptionToken.ofText =
      (delimited opts).flatMap fun entry => entry.2.tokens entry.1 := by
  -- the options that write nothing can be left out
  have hwrites : opts.flatMap DriverOption.pieces =
      (opts.filter DriverOption.writes).flatMap DriverOption.pieces := by
    induction opts with
    | nil => rfl
    | cons option opts ih =>
        cases hoption : option.writes with
        | true => rw [List.filter_cons_of_pos hoption, List.flatMap_cons, List.flatMap_cons, ih]
        | false =>
            have hpieces : option.pieces = [] := by simpa [DriverOption.writes] using hoption
            rw [List.filter_cons_of_neg (by simp [hoption]), List.flatMap_cons, hpieces, ih]
            rfl
  have hmem : ∀ option ∈ opts.filter DriverOption.writes, option.writes = true :=
    fun option hoption => (List.mem_filter.mp hoption).2
  rw [hwrites, delimited]
  cases hline : opts.filter DriverOption.writes with
  | nil => rfl
  | cons first rest =>
      -- only the first call of `strtok` cuts at blanks, and it ends in the first option's pieces
      have hfirst : Strtok.strtokAll isFirstDelim isLaterDelim first.pieces ≠ [] := by
        intro hnil
        have hwritten := hmem first (hline ▸ List.mem_cons_self)
        exact tokens_ne_nil hwritten (strtokAll_pieces.symm.trans (congrArg _ hnil))
      rw [List.flatMap_cons, Strtok.strtokAll_append, if_neg (by simpa using hfirst),
        List.map_append, strtokAll_pieces, List.flatMap_cons]
      congr 1
      rw [List.flatMap_assoc, List.map_flatMap, List.flatMap_map]
      exact List.flatMap_congr fun option _ => flatMap_tokens_pieces

end Pieces

section Parse

variable {context : DriverContext} {state next final : DriverState} {option : DriverOption}
variable {opts : List DriverOption}

theorem ite_error_eq_ok_iff {guard : Prop} [Decidable guard] {stop : DriverExit}
    {result : Except DriverExit DriverState} :
    (if guard then .error stop else result) = .ok next ↔ ¬ guard ∧ result = .ok next := by
  by_cases hguard : guard <;> simp [hguard]

/-- **One turn of the loop**: the pieces are appended, and a long option sets its flag. -/
theorem parseOption_ok (h : parseOption context state option = .ok next) :
    option.Accepted context.build ∧
      next.optionString = option.pieces.foldl appendOption state.optionString ∧
      ∀ long, next.long long = (decide (option = .long long) || state.long long) := by
  cases option with
  | spec arg =>
      simp only [parseOption, ite_error_eq_ok_iff, Except.ok.injEq] at h
      obtain ⟨-, -, rfl⟩ := h
      exact ⟨trivial, rfl, fun long => rfl⟩
  | pathscale arg =>
      simp only [parseOption, ite_error_eq_ok_iff] at h
      obtain ⟨hguard, h⟩ := h
      cases hprof : pathscaleOf arg with
      | none => rw [hprof] at h; cases h
      | some prof =>
          rw [hprof] at h
          cases h
          refine ⟨Bool.eq_true_of_not_eq_false fun hbuild => hguard (.inl hbuild), ?_,
            fun long => rfl⟩
          simp [DriverOption.pieces, DriverOption.keywords, DriverOption.arguments, hprof,
            DriverState.append]
  | gnu =>
      simp only [parseOption, ite_error_eq_ok_iff, Except.ok.injEq] at h
      obtain ⟨hguard, rfl⟩ := h
      exact ⟨Bool.eq_true_of_not_eq_false fun hbuild => hguard (.inl hbuild), rfl,
        fun long => rfl⟩
  | multiplex interval =>
      cases interval with
      | none => cases h; exact ⟨trivial, rfl, fun long => rfl⟩
      | some arg =>
          simp only [parseOption, ite_error_eq_ok_iff, Except.ok.injEq] at h
          obtain ⟨hguard, rfl⟩ := h
          refine ⟨?_, rfl, fun long => rfl⟩
          show _ ∧ _ ∧ _
          omega
  | long option =>
      simp only [parseOption, ite_error_eq_ok_iff, Except.ok.injEq] at h
      obtain ⟨hguard, rfl⟩ := h
      refine ⟨?_, rfl, fun long => ?_⟩
      · intro hoption
        by_contra hbuild
        exact hguard ⟨by simpa using hbuild, hoption⟩
      · simp [eq_comm]
  | info | unknown =>
      -- these end the driver
      cases h
  | debug | user | kernel | other | supervisor | auto | event | shellDump =>
      cases h
      exact ⟨trivial, rfl, fun long => rfl⟩
  | quiet | rusage | memory | noWrite | writeOnly | outputPrefix | outputDir | outputFile =>
      simp only [parseOption, ite_error_eq_ok_iff, Except.ok.injEq] at h
      obtain ⟨-, rfl⟩ := h
      exact ⟨trivial, rfl, fun long => rfl⟩

/-- **All turns of the loop.** -/
theorem run_parseOption (h : FallibleRun.run (parseOption context) state opts = .ok final) :
    (∀ option ∈ opts, option.Accepted context.build) ∧
      final.optionString =
        (opts.flatMap DriverOption.pieces).foldl appendOption state.optionString ∧
      ∀ long, final.long long = (decide (.long long ∈ opts) || state.long long) := by
  induction opts generalizing state with
  | nil =>
      cases h
      exact ⟨by simp, rfl, fun long => by simp⟩
  | cons option opts ih =>
      obtain ⟨next, hstep, hrest⟩ := FallibleRun.run_cons_eq_ok_iff.mp h
      obtain ⟨haccepted, hstring, hlong⟩ := parseOption_ok hstep
      obtain ⟨hall, hstrings, hlongs⟩ := ih hrest
      refine ⟨List.forall_mem_cons.mpr ⟨haccepted, hall⟩, ?_, fun long => ?_⟩
      · rw [hstrings, hstring, List.flatMap_cons, List.foldl_append]
      · rw [hlongs, hlong]
        by_cases hopts : DriverOption.long long ∈ opts
        · simp [hopts]
        · simp [hopts, eq_comm]

theorem appendOption_eq : appendOption = Strtok.append ',' := by
  funext optStr option
  cases optStr <;> rfl

/-- The texts that the library finds in the list of the events. -/
def eventTexts (opts : List DriverOption) (events : Text) : List Text :=
  if (delimited opts).isEmpty then Strtok.strtok isFirstDelim isLaterDelim events
  else Strtok.tokens isLaterDelim events

/-- The pieces of the option string. -/
theorem strtok_finish {events : Text}
    (hrun : FallibleRun.run (parseOption context) (.initial context.build) opts = .ok final)
    (hevents : final.requestedEvents = [] → events = []) :
    Strtok.strtok isFirstDelim isLaterDelim (final.finish events) =
      Strtok.strtokAll isFirstDelim isLaterDelim
        (opts.flatMap DriverOption.pieces ++ events :: final.longKeywords.map Keyword.text) := by
  obtain ⟨-, hstring, -⟩ := run_parseOption hrun
  have hjoined : ∀ pieces : List Text,
      Strtok.strtok isFirstDelim isLaterDelim (pieces.foldl appendOption []) =
        Strtok.strtokAll isFirstDelim isLaterDelim pieces := by
    intro pieces
    rw [appendOption_eq, Strtok.strtok_foldl_append isFirstDelim_of_isLaterDelim rfl,
      Strtok.strtokAll_cons_of_nil Strtok.strtok_nil]
  by_cases hnone : final.requestedEvents = []
  · rw [hevents hnone, Strtok.strtokAll_append_nil_cons, ← hjoined, List.foldl_append,
      DriverState.finish, if_pos hnone, hstring]
    rfl
  · rw [← hjoined, List.foldl_append, List.foldl_cons, DriverState.finish, if_neg hnone, hstring]
    rfl

/-- The option string is empty if no option writes. -/
theorem flatMap_pieces_tokens_eq_nil_iff :
    Strtok.strtokAll isFirstDelim isLaterDelim (opts.flatMap DriverOption.pieces) = [] ↔
      delimited opts = [] := by
  rw [← List.map_eq_nil_iff (f := OptionToken.ofText), strtokAll_flatMap_pieces]
  constructor
  · intro htokens
    rw [delimited] at htokens ⊢
    cases hline : opts.filter DriverOption.writes with
    | nil => rfl
    | cons first rest =>
        rw [hline, List.flatMap_cons] at htokens
        have hwritten := (List.mem_filter.mp (hline ▸ List.mem_cons_self (l := rest))).2
        exact absurd (List.append_eq_nil_iff.mp htokens).1 (tokens_ne_nil hwritten)
  · intro hline
    rw [hline]
    rfl

/-- **The tokens of the option string**: those of the options, the events, and the keywords
for the long options. -/
theorem optionTokens_finish {events : Text}
    (hrun : FallibleRun.run (parseOption context) (.initial context.build) opts = .ok final)
    (hevents : final.requestedEvents = [] → events = []) :
    optionTokens (final.finish events) =
      ((delimited opts).flatMap fun entry => entry.2.tokens entry.1) ++
        (eventTexts opts events).map OptionToken.ofText ++
        final.longKeywords.map .keyword := by
  have hclean : ∀ piece ∈ final.longKeywords.map Keyword.text,
      piece ≠ [] ∧ ∀ c ∈ piece, isFirstDelim c = false := by
    intro piece hpiece
    obtain ⟨word, -, rfl⟩ := List.mem_map.mp hpiece
    exact ⟨word.text_ne_nil, word.isFirstDelim_text⟩
  have hkeywords : (final.longKeywords.map Keyword.text).map OptionToken.ofText =
      final.longKeywords.map .keyword := by
    rw [List.map_map]
    exact List.map_congr_left fun word _ => OptionToken.ofText_text word
  have hfirst : Strtok.strtokAll isFirstDelim isLaterDelim
      (events :: final.longKeywords.map Keyword.text) = _ :=
    Strtok.strtokAll_cons_eq_append isFirstDelim_of_isLaterDelim hclean
  have hlater := Strtok.flatMap_tokens_eq_self
    (Strtok.not_isDelim_of_clean isFirstDelim_of_isLaterDelim hclean)
  rw [optionTokens, strtok_finish hrun hevents, Strtok.strtokAll_append, ← hkeywords, eventTexts,
    ← strtokAll_flatMap_pieces]
  simp only [List.isEmpty_iff, flatMap_pieces_tokens_eq_nil_iff]
  split
  · -- nothing was written before the events, so the first call cuts them at blanks
    rename_i hnone
    rw [hfirst, flatMap_pieces_tokens_eq_nil_iff.mpr hnone, List.map_append]
    rfl
  · rw [List.flatMap_cons, hlater, List.map_append, List.map_append, List.append_assoc]

end Parse

end Papiex
