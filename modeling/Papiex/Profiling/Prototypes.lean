import Papiex.Lib.Strtok
import Papiex.Report.ArchValues

/-!
# The prototypes that wrappers are made from

`makewraplib.pl` and `makempiwraplib.pl` read one prototype a line.  A wrapper has the
parameters of the prototype, and calls the real function with what `getargs` makes of
them: of each piece between two commas the first run of letters and underscores in the
last word.  That is the name of a parameter if the name has no digits and the last word
begins with it, but for stars.  A type glued to the stars is taken for the name, and so is
what stands in brackets behind a blank.

## Main results

* `getargs_eq_names_iff`: when the script finds the names of the parameters.
* `fortranAccepts_iff`: which lists the Fortran wrappers can be made of.
* `wrappers_forward_iff`: when the wrappers pass on what they get.

## Design notes

The regular expressions are functions on characters, greedy groups included; the expression
for a prototype is tried from the longest first group on.  What `getargs` returns is stated
for the parameters as a C programmer writes them (`ParamList`), so that a list has names
without any script.  Where a generator dies there is no wrapper to be wrong.
-/

namespace Papiex

open Chars

/-! ## The generators -/

/-- `[a-z_A-Z]`. -/
def isLetter (c : Char) : Bool := c.isAlpha || c = '_'

/-- `[_a-zA-Z0-9]`. -/
def isNameChar (c : Char) : Bool := c.isAlphanum || c = '_'

/-- `([a-z_A-Z]+)` at the first place where it matches; the empty text if there is none. -/
def firstLetters (text : Text) : Text :=
  (text.dropWhile fun c => !isLetter c).takeWhile isLetter

/-- `split ' '`. -/
def splitBlanks (text : Text) : List Text := Strtok.tokens isSpace text

/-- What `getargs` finds in a piece. -/
def argOf (piece : Text) : Text := firstLetters ((splitBlanks piece).getLast?.getD [])

/-- The loop of `getargs`, over the pieces that are left. -/
def getargsLoop (args : Text) : List Text → Text
  | [] => args
  | piece :: rest =>
      if argOf piece = [] then getargsLoop args rest
      else getargsLoop (args ++ argOf piece ++ if rest = [] then [] else [',']) rest

/-- `getargs`. -/
def getargs (input : Text) : Text := getargsLoop [] (splitCommas input)

/-- `\s+([_a-zA-Z0-9]+)\s*\((.*)\)$` at the start of the text. -/
def matchNameAndArgs (text : Text) : Option (Text × Text) :=
  let name := (text.dropWhile isSpace).takeWhile isNameChar
  if text.head?.any isSpace = true ∧ name ≠ [] then
    match ((text.dropWhile isSpace).dropWhile isNameChar).dropWhile isSpace with
    | '(' :: rest => if rest.getLast? = some ')' then some (name, rest.dropLast) else none
    | _ => none
  else none

/-- `^(.*)\s+([_a-zA-Z0-9]+)\s*\((.*)\)$` with this much of the first group taken, which is
as long as it can be. -/
def matchPrototypeFrom (ret : Text) : Text → Option (Text × Text × Text)
  | [] => none
  | c :: rest =>
      (matchPrototypeFrom (ret ++ [c]) rest).or
        ((matchNameAndArgs (c :: rest)).map fun found => (ret, found.1, found.2))

/-- `^(.*)\s+([_a-zA-Z0-9]+)\s*\((.*)\)$`. -/
def matchPrototype (line : Text) : Option (Text × Text × Text) := matchPrototypeFrom [] line

/-- The two generators. -/
inductive Generator where
  | makewraplib
  | makempiwraplib
  deriving DecidableEq

/-- What is remembered of a prototype: the elements of `@LR`, `@LN`, `@LA` and `@LAN`. -/
structure WrapperSpec where
  ret : Text
  name : Text
  params : Text
  args : Text
  deriving DecidableEq

/-- What a generator has read. -/
structure SpecFile where
  z : Text := []
  hdrs : Text := []
  wrapped : List WrapperSpec := []

/-- The entry for the groups of a match. -/
def WrapperSpec.ofMatch (ret name args : Text) : WrapperSpec where
  ret := ret
  name := name
  params := '(' :: args ++ [')']
  args := getargs ('(' :: args ++ [')'])

/-- Why a generator exits: a line with a parenthesis is no prototype, or no Fortran wrapper
can be made of its parameters. -/
inductive SpecError where
  | invalidLine (line : Text)
  | notForFortran (args : Text)
  deriving DecidableEq

/-- What the Fortran wrappers need of the words of a parameter.  Both generators make them
for every prototype.  `makewraplib.pl` puts a star before the last word, and Perl dies where
there is none; for `makempiwraplib.pl` a parameter is two words, and a request is a pointer
whose name begins with `in_` or `out_`. -/
def fortranWords : Generator → List Text → Bool
  | .makewraplib, words => !words.isEmpty
  | .makempiwraplib, [type, name] =>
      !("MPI_Request".toList.isPrefixOf type) ||
        ("*in_".toList.isPrefixOf name || "*out_".toList.isPrefixOf name)
  | .makempiwraplib, _ => false

/-- What the Fortran wrappers need of the parameters. -/
def fortranAccepts (generator : Generator) (args : Text) : Bool :=
  (splitCommas args).all fun arg => fortranWords generator (splitBlanks arg)

/-- A line of the headers. -/
def SpecFile.addHeader (spec : SpecFile) (line : Text) : SpecFile :=
  { spec with hdrs := spec.hdrs ++ line ++ ['\n'] }

/-- The body of the loop over the lines. -/
def readSpecLine (generator : Generator) (spec : SpecFile) (line : Text) :
    Except SpecError SpecFile :=
  let line := chomp line
  if generator = .makempiwraplib ∧ line.head? = some '#' then .ok (spec.addHeader line)
  else if '(' ∈ line then
    match matchPrototype line with
    | some (ret, name, args) =>
        if fortranAccepts generator args then
          .ok { spec with wrapped := spec.wrapped ++ [.ofMatch ret name args] }
        else .error (.notForFortran args)
    | none => .error (.invalidLine line)
  else if spec.z = [] then .ok { spec with z := line }
  else .ok (spec.addHeader line)

/-- The loop over the lines. -/
def readSpec (generator : Generator) (lines : List Text) : Except SpecError SpecFile :=
  FallibleRun.run (readSpecLine generator) {} lines

/-! ## Declarations -/

/-- A parameter: what stands before its name, the name, and what stands behind it. -/
structure Param where
  front : Text
  name : Text
  brackets : Text
  deriving DecidableEq

/-- The parameter as it is written. -/
def Param.text (p : Param) : Text := p.front ++ p.name ++ p.brackets

/-- A C declaration of a name: the words of a type and stars before the name, and brackets
behind it, if any, whose sizes have no commas. -/
structure Param.IsDeclaration (p : Param) : Prop where
  front : ∀ c ∈ p.front, isNameChar c = true ∨ isSpace c = true ∨ c = '*'
  type : ∃ c ∈ p.front, isLetter c = true
  separate : ∀ c ∈ p.front.getLast?, isNameChar c = false
  name : isIdentifier p.name = true
  opened : ∀ c ∈ (p.brackets.dropWhile isSpace).head?, c = '['
  closed : ∀ c ∈ (p.brackets.rdropWhile isSpace).getLast?, c = ']'
  comma : ',' ∉ p.brackets

/-- The parameters between the parentheses of a prototype: none, which can be spelled
`void`, or some, with commas between them. -/
inductive ParamList where
  | empty (blanks : Text)
  | void (front back : Text)
  | params (first : Param) (rest : List Param)

namespace ParamList

/-- The parameters as they are written. -/
def text : ParamList → Text
  | .empty blanks => blanks
  | .void front back => front ++ "void".toList ++ back
  | .params first rest => [','].intercalate ((first :: rest).map Param.text)

/-- What a call needs: the names in their order, with commas between them. -/
def names : ParamList → Text
  | .empty _ => []
  | .void _ _ => []
  | .params first rest => [','].intercalate ((first :: rest).map Param.name)

/-- Everything in the list is a declaration, and what is around `void` is blank. -/
def IsWritten : ParamList → Prop
  | .empty blanks => ∀ c ∈ blanks, isSpace c = true
  | .void front back => ∀ c ∈ front ++ back, isSpace c = true
  | .params first rest => ∀ p ∈ first :: rest, p.IsDeclaration

end ParamList

/-- The first run of letters in the last word of a declaration is its name: there is no
letter before it in that word, none behind it, and no digit in it. -/
def Param.NamedByLastWord (p : Param) : Prop :=
  (∀ c ∈ p.name, isLetter c = true) ∧ ∃ before after : Text,
    Strtok.lastToken isSpace p.text = before ++ p.name ++ after ∧
      (∀ c ∈ before, isLetter c = false) ∧ ∀ c ∈ after.head?, isLetter c = false

/-- The last word of each declaration names its parameter, and there is no blank before the
closing parenthesis. -/
def ReadableParams (params : List Param) : Prop :=
  (∀ p ∈ params, p.NamedByLastWord) ∧
    ∀ last ∈ params.getLast?, ∀ c ∈ last.text.getLast?, isSpace c = false

/-- **What the generators can read.**  After the word `void` there has to be a blank. -/
def ParamList.Readable : ParamList → Prop
  | .empty _ => True
  | .void _ back => back ≠ []
  | .params first rest => ReadableParams (first :: rest)

/-- **What a generator makes wrappers of.**  Nothing stands between the parentheses of an
empty list, and `makempiwraplib.pl` has its own idea of parameters. -/
def ParamList.Accepted (generator : Generator) : ParamList → Prop
  | .empty blanks => blanks = []
  | .void _ _ => generator = .makewraplib
  | .params first rest =>
      generator = .makempiwraplib →
        ∀ p ∈ first :: rest, fortranWords .makempiwraplib (splitBlanks p.text) = true

/-! ## Pieces -/

section Pieces

variable {text name : Text} {c : Char}

theorem isSpace_of_isNameChar (h : isNameChar c = true) : isSpace c = false := by
  by_contra hspace
  simp only [isSpace, Bool.not_eq_false, Bool.or_eq_true, decide_eq_true_eq] at hspace
  rcases hspace with ((((rfl | rfl) | rfl) | rfl) | rfl) | rfl <;> revert h <;> decide

theorem isNameChar_of_isLetter (h : isLetter c = true) : isNameChar c = true := by
  simp only [isLetter, isNameChar, Bool.or_eq_true, Char.isAlphanum] at h ⊢
  exact h.imp_left Or.inl

theorem argOf_eq (piece : Text) : argOf piece = firstLetters (Strtok.lastToken isSpace piece) := by
  rw [argOf, splitBlanks, Strtok.getLast?_tokens]

theorem firstLetters_cons (hc : isLetter c = false) (text : Text) :
    firstLetters (c :: text) = firstLetters text := by
  rw [firstLetters, List.dropWhile_cons_of_pos (by simp [hc]), firstLetters]

theorem firstLetters_cons_of_isLetter (hc : isLetter c = true) (text : Text) :
    firstLetters (c :: text) = (c :: text).takeWhile isLetter := by
  rw [firstLetters, List.dropWhile_cons_of_neg (by simp [hc])]

/-- What is not a letter changes nothing at the end. -/
theorem firstLetters_concat (hc : isLetter c = false) (text : Text) :
    firstLetters (text ++ [c]) = firstLetters text := by
  induction text with
  | nil => exact firstLetters_cons hc []
  | cons d text ih =>
      cases hd : isLetter d with
      | false => rw [List.cons_append, firstLetters_cons hd, firstLetters_cons hd, ih]
      | true =>
          rw [List.cons_append, firstLetters_cons_of_isLetter hd, firstLetters_cons_of_isLetter hd,
            ← List.cons_append, List.takeWhile_append]
          split
          · rename_i hall
            have hself := (List.takeWhile_prefix isLetter).eq_of_length hall
            rw [List.takeWhile_cons_of_neg (by simp [hc]), List.append_nil, hself]
          · rfl

/-- Some run of letters is found if there is a letter. -/
theorem firstLetters_ne_nil (hc : isLetter c = true) (hmem : c ∈ text) :
    firstLetters text ≠ [] := by
  induction text with
  | nil => cases hmem
  | cons d text ih =>
      cases hd : isLetter d with
      | false =>
          rw [firstLetters_cons hd]
          rcases List.mem_cons.mp hmem with rfl | hlater
          · rw [hc] at hd
            cases hd
          · exact ih hlater
      | true =>
          rw [firstLetters_cons_of_isLetter hd, List.takeWhile_cons_of_pos hd]
          exact List.cons_ne_nil _ _

/-- **The first run of letters** is a text exactly if the text is there, with no letter
before it and none behind it. -/
theorem firstLetters_eq_iff (hname : name ≠ []) :
    firstLetters text = name ↔
      (∀ c ∈ name, isLetter c = true) ∧ ∃ before after : Text, text = before ++ name ++ after ∧
        (∀ c ∈ before, isLetter c = false) ∧ ∀ c ∈ after.head?, isLetter c = false := by
  constructor
  · rintro rfl
    refine ⟨fun c hc => List.mem_takeWhile_imp hc, text.takeWhile fun c => !isLetter c,
      (text.dropWhile fun c => !isLetter c).dropWhile isLetter, ?_, ?_, ?_⟩
    · rw [firstLetters, List.append_assoc, List.takeWhile_append_dropWhile,
        List.takeWhile_append_dropWhile]
    · intro c hc
      simpa using List.mem_takeWhile_imp hc
    · intro c hc
      have hhead := List.head?_dropWhile_not isLetter (text.dropWhile fun c => !isLetter c)
      rw [Option.mem_def.mp hc] at hhead
      simpa using hhead
  · rintro ⟨hletters, before, after, rfl, hbefore, hafter⟩
    induction before with
    | cons c before ih =>
        rw [List.cons_append, List.cons_append, firstLetters_cons (hbefore c List.mem_cons_self)]
        exact ih fun d hd => hbefore d (List.mem_cons_of_mem c hd)
    | nil =>
        obtain ⟨first, others, rfl⟩ := List.exists_cons_of_ne_nil hname
        have hfirst := hletters first List.mem_cons_self
        rw [List.nil_append, List.cons_append, firstLetters_cons_of_isLetter hfirst,
          ← List.cons_append, List.takeWhile_append_of_pos hletters]
        cases after with
        | nil => simp
        | cons d after =>
            rw [List.takeWhile_cons_of_neg (by simpa using hafter d rfl), List.append_nil]

/-- The parenthesis before the first piece makes no difference. -/
theorem argOf_open (piece : Text) : argOf ('(' :: piece) = argOf piece := by
  rw [argOf_eq, argOf_eq]
  have hopen : isSpace '(' = false := by decide
  rcases Strtok.lastToken_cons hopen piece with hsame | hmore
  · rw [hsame]
  · rw [hmore, firstLetters_cons (by decide)]

/-- The parenthesis behind the last piece is a word of its own if there is a blank before
it. -/
theorem argOf_close (piece : Text) :
    argOf (piece ++ [')']) = if piece.getLast?.all isSpace then [] else argOf piece := by
  rw [argOf_eq, Strtok.lastToken_concat (by decide), firstLetters_concat (by decide)]
  split_ifs with hlast
  · have hnil : (piece.rtakeWhile fun c => !isSpace c) = [] := by
      rw [List.rtakeWhile_eq_nil_iff]
      intro hne
      rw [List.getLast?_eq_some_getLast hne] at hlast
      simpa using hlast
    rw [hnil]
    rfl
  · rw [argOf_eq, Strtok.lastToken_eq_rtakeWhile]
    intro c hc
    rw [Option.mem_def.mp hc] at hlast
    simpa using hlast

/-- A parameter is read as its name exactly if its last word names it. -/
theorem argOf_eq_name_iff {p : Param} (hname : p.name ≠ []) :
    argOf p.text = p.name ↔ p.NamedByLastWord := by
  rw [argOf_eq, firstLetters_eq_iff hname]
  rfl

end Pieces

/-! ## Lists of arguments -/

/-- What `getargs` puts together from what it finds in the pieces. -/
def joinFound : List Text → Text
  | [] => []
  | arg :: rest =>
      (if arg = [] then [] else arg ++ if rest = [] then [] else [',']) ++ joinFound rest

/-- The pieces of a list in parentheses: the last one ends with a parenthesis. -/
def closePieces : Text → List Text → List Text
  | text, [] => [text ++ [')']]
  | text, next :: rest => text :: closePieces next rest

section Lists

variable {args names : List Text} {text : Text} {rest : List Text}

theorem intercalate_comma_cons (text next : Text) (rest : List Text) :
    [','].intercalate (text :: next :: rest) = text ++ ',' :: [','].intercalate (next :: rest) := by
  simp [List.intercalate_cons_of_ne_nil]

/-- There is one comma less than there are names. -/
theorem count_intercalate_comma (h : ∀ name ∈ text :: rest, ',' ∉ name) :
    ([','].intercalate (text :: rest)).count ',' = rest.length := by
  induction rest generalizing text with
  | nil =>
      rw [List.intercalate_singleton]
      exact List.count_eq_zero.mpr (h text List.mem_cons_self)
  | cons next rest ih =>
      have htext : text.count ',' = 0 := List.count_eq_zero.mpr (h text List.mem_cons_self)
      rw [intercalate_comma_cons, List.count_append, htext, List.count_cons_self,
        ih fun name hname => h name (List.mem_cons_of_mem _ hname), List.length_cons]
      omega

/-- There is always a last piece, for the closing parenthesis. -/
theorem closePieces_ne_nil (text : Text) (rest : List Text) : closePieces text rest ≠ [] := by
  cases rest with
  | nil => exact List.cons_ne_nil _ _
  | cons next rest => exact List.cons_ne_nil _ _

/-- The pieces put together again are the text with a closing parenthesis. -/
theorem intercalate_closePieces (text : Text) (rest : List Text) :
    [','].intercalate (closePieces text rest) = [','].intercalate (text :: rest) ++ [')'] := by
  induction rest generalizing text with
  | nil => simp [closePieces]
  | cons next rest ih =>
      rw [intercalate_comma_cons, List.append_assoc, List.cons_append, ← ih next]
      obtain ⟨piece, pieces, hpieces⟩ := List.exists_cons_of_ne_nil (closePieces_ne_nil next rest)
      rw [closePieces, hpieces, intercalate_comma_cons]

theorem comma_notMem_closePieces (h : ∀ piece ∈ text :: rest, ',' ∉ piece) :
    ∀ piece ∈ closePieces text rest, ',' ∉ piece := by
  induction rest generalizing text with
  | nil =>
      intro piece hpiece hcomma
      rw [closePieces, List.mem_singleton] at hpiece
      rw [hpiece, List.mem_append, List.mem_singleton] at hcomma
      rcases hcomma with htext | hparen
      · exact h text List.mem_cons_self htext
      · cases hparen
  | cons next rest ih =>
      intro piece hpiece
      rcases List.mem_cons.mp hpiece with rfl | hlater
      · exact h piece List.mem_cons_self
      · exact ih (fun other hother => h other (List.mem_cons_of_mem _ hother)) piece hlater

theorem getLast?_closePieces (text : Text) (rest : List Text) :
    ∃ last : Text, (closePieces text rest).getLast? = some (last ++ [')']) := by
  induction rest generalizing text with
  | nil => exact ⟨text, rfl⟩
  | cons next rest ih =>
      obtain ⟨last, hlast⟩ := ih next
      refine ⟨last, ?_⟩
      rw [closePieces, List.getLast?_cons, hlast]
      rfl

/-- **The pieces of a list in parentheses.** -/
theorem splitCommas_parenthesised (h : ∀ piece ∈ text :: rest, ',' ∉ piece) :
    splitCommas ('(' :: [','].intercalate (text :: rest) ++ [')']) =
      closePieces ('(' :: text) rest := by
  have hopen : '(' :: [','].intercalate (text :: rest) =
      [','].intercalate (('(' :: text) :: rest) := by
    cases rest with
    | nil => simp
    | cons next rest => rw [intercalate_comma_cons, intercalate_comma_cons, List.cons_append]
  have hcommas : ∀ piece ∈ ('(' :: text) :: rest, ',' ∉ piece := by
    intro piece hpiece
    rcases List.mem_cons.mp hpiece with rfl | hlater
    · rw [List.mem_cons, not_or]
      exact ⟨by decide, h text List.mem_cons_self⟩
    · exact h piece (List.mem_cons_of_mem _ hlater)
  rw [splitCommas, hopen, ← intercalate_closePieces,
    List.splitOn_intercalate _ (comma_notMem_closePieces hcommas) (closePieces_ne_nil _ _)]
  refine List.rdropWhile_eq_self_iff.mpr fun hne => ?_
  obtain ⟨last, hlast⟩ := getLast?_closePieces ('(' :: text) rest
  rw [List.getLast?_eq_some_getLast hne, Option.some.injEq] at hlast
  rw [hlast]
  simp

/-- **The loop joins what it finds**, with the empty finds left out. -/
theorem getargsLoop_eq (args : Text) (pieces : List Text) :
    getargsLoop args pieces = args ++ joinFound (pieces.map argOf) := by
  induction pieces generalizing args with
  | nil => exact (List.append_nil args).symm
  | cons piece rest ih =>
      rw [getargsLoop, List.map_cons, joinFound, ih, ih]
      simp only [List.map_eq_nil_iff]
      split_ifs with harg
      · rw [List.nil_append]
      · rw [List.append_assoc, List.append_assoc, List.append_assoc]
      · rw [List.append_assoc, List.append_assoc, List.append_assoc]

/-- There are at most as many commas as there are places between two pieces. -/
theorem count_joinFound_le (h : ∀ arg ∈ args, ',' ∉ arg) :
    (joinFound args).count ',' + 1 ≤ args.length ∨ args = [] := by
  induction args with
  | nil => exact Or.inr rfl
  | cons arg rest ih =>
      have hrest := ih fun other hother => h other (List.mem_cons_of_mem _ hother)
      have harg : arg.count ',' = 0 := List.count_eq_zero.mpr (h arg List.mem_cons_self)
      rw [joinFound, List.count_append, List.length_cons]
      cases rest with
      | nil =>
          rw [if_pos rfl]
          split_ifs
          · simp [joinFound]
          · simp [joinFound, harg]
      | cons next rest =>
          rcases hrest with hcount | hnil
          · rw [if_neg (List.cons_ne_nil next rest)]
            split_ifs
            · rw [List.count_nil]
              omega
            · rw [List.count_append, harg, List.count_singleton_self]
              omega
          · cases hnil

/-- **The names come out exactly if each piece gives its own.** -/
theorem joinFound_eq_iff (hlength : args.length = names.length)
    (hargs : ∀ arg ∈ args, ',' ∉ arg) (hnames : ∀ name ∈ names, name ≠ [] ∧ ',' ∉ name) :
    joinFound args = [','].intercalate names ↔ args = names := by
  induction args generalizing names with
  | nil =>
      have hnil : names = [] := List.length_eq_zero_iff.mp hlength.symm
      rw [hnil]
      exact iff_of_true rfl rfl
  | cons arg rest ih =>
      obtain ⟨name, others, rfl⟩ := List.exists_cons_of_length_pos (l := names) (by
        rw [← hlength, List.length_cons]
        omega)
      rw [List.length_cons, List.length_cons, Nat.succ_inj] at hlength
      obtain ⟨hname, hcomma⟩ := hnames name List.mem_cons_self
      have hrest := ih hlength (fun other hother => hargs other (List.mem_cons_of_mem _ hother))
        fun other hother => hnames other (List.mem_cons_of_mem _ hother)
      rw [List.cons.injEq]
      cases others with
      | nil =>
          obtain rfl : rest = [] := List.length_eq_zero_iff.mp hlength
          rw [joinFound, joinFound, if_pos rfl, List.append_nil, List.append_nil,
            List.intercalate_singleton]
          split_ifs with harg
          · rw [harg]
            simp
          · simp
      | cons next others =>
          obtain ⟨found, more, rfl⟩ := List.exists_cons_of_length_pos (l := rest) (by
            rw [hlength, List.length_cons]
            omega)
          rw [intercalate_comma_cons, joinFound, if_neg (List.cons_ne_nil found more)]
          split_ifs with harg
          · -- a comma is missing
            have hnot : ¬ (arg = name ∧ found :: more = next :: others) :=
              fun hsame => hname (hsame.1 ▸ harg)
            rw [iff_false_right hnot]
            intro heq
            have hfew := count_joinFound_le fun other hother =>
              hargs other (List.mem_cons_of_mem arg hother)
            have hmany : ([','].intercalate (name :: next :: others)).count ',' = _ :=
              count_intercalate_comma fun other hother => (hnames other hother).2
            rw [intercalate_comma_cons, ← heq, List.nil_append, ← hlength] at hmany
            rcases hfew with hcount | hnil
            · omega
            · cases hnil
          · rw [List.append_assoc, List.singleton_append,
              append_cons_eq_append_cons_iff (hargs arg List.mem_cons_self) hcomma, hrest]

end Lists

/-! ## What `getargs` returns -/

section Getargs

variable {first : Param} {rest : List Param}

/-- What `getargs` finds in the pieces of a list of declarations. -/
def foundArgs : Param → List Param → List Text
  | last, [] => [argOf (last.text ++ [')'])]
  | p, next :: rest => argOf p.text :: foundArgs next rest

theorem isLetter_of_mem_argOf {piece : Text} {c : Char} (hc : c ∈ argOf piece) :
    isLetter c = true := List.mem_takeWhile_imp hc

theorem comma_notMem_argOf (piece : Text) : ',' ∉ argOf piece := by
  intro hcomma
  have hletter := isLetter_of_mem_argOf hcomma
  revert hletter
  decide

theorem comma_notMem_foundArgs : ∀ arg ∈ foundArgs first rest, ',' ∉ arg := by
  induction rest generalizing first with
  | nil =>
      intro arg harg
      rw [foundArgs, List.mem_singleton] at harg
      rw [harg]
      exact comma_notMem_argOf _
  | cons next rest ih =>
      intro arg harg
      rcases List.mem_cons.mp harg with rfl | hlater
      · exact comma_notMem_argOf _
      · exact ih arg hlater

theorem length_foundArgs (first : Param) (rest : List Param) :
    (foundArgs first rest).length = rest.length + 1 := by
  induction rest generalizing first with
  | nil => rfl
  | cons next rest ih => rw [foundArgs, List.length_cons, ih, List.length_cons]

/-- What `getargs` finds in the pieces of a list is what it finds in its parameters. -/
theorem map_argOf_closePieces (first : Param) (rest : List Param) :
    (closePieces ('(' :: first.text) (rest.map Param.text)).map argOf = foundArgs first rest := by
  have hclose : ∀ p : Param, ∀ rest : List Param,
      (closePieces p.text (rest.map Param.text)).map argOf = foundArgs p rest := by
    intro p rest
    induction rest generalizing p with
    | nil => rfl
    | cons next rest ih =>
        rw [List.map_cons, closePieces, List.map_cons, ih next]
        rfl
  cases rest with
  | nil => rw [List.map_nil, closePieces, List.map_singleton, List.cons_append, argOf_open]; rfl
  | cons next rest =>
      rw [List.map_cons, closePieces, List.map_cons, argOf_open, hclose next rest]
      rfl

/-- A declaration holds no comma. -/
theorem Param.IsDeclaration.comma_notMem_text {p : Param} (h : p.IsDeclaration) : ',' ∉ p.text := by
  intro hcomma
  rw [Param.text, List.mem_append, List.mem_append] at hcomma
  rcases hcomma with (hfront | hname) | hbrackets
  · rcases h.front ',' hfront with hchar | hspace | hstar
    · revert hchar
      decide
    · revert hspace
      decide
    · cases hstar
  · exact not_mem_identifier h.name (by decide) hname
  · exact h.comma hbrackets

theorem Param.IsDeclaration.name_ne_nil {p : Param} (h : p.IsDeclaration) : p.name ≠ [] := by
  intro hnil
  have hname := h.name
  rw [hnil] at hname
  cases hname

/-- The pieces give the names exactly if the declarations can be read. -/
theorem foundArgs_eq_iff (hdecl : ∀ p ∈ first :: rest, p.IsDeclaration) :
    foundArgs first rest = (first :: rest).map Param.name ↔ ReadableParams (first :: rest) := by
  induction rest generalizing first with
  | nil =>
      have hname := (hdecl first List.mem_cons_self).name_ne_nil
      rw [foundArgs, List.map_singleton, List.cons.injEq, and_iff_left rfl, argOf_close]
      unfold ReadableParams
      split_ifs with hblank
      · have hne : first.text ≠ [] := by
          intro hnil
          rw [Param.text, List.append_eq_nil_iff, List.append_eq_nil_iff] at hnil
          exact hname hnil.1.2
        rw [List.getLast?_eq_some_getLast hne] at hblank
        refine iff_of_false (Ne.symm hname) fun hread => ?_
        have hlast := hread.2 first rfl _ (List.getLast?_eq_some_getLast hne)
        rw [Option.all_some, hlast] at hblank
        cases hblank
      · rw [argOf_eq_name_iff hname]
        constructor
        · intro hread
          refine ⟨fun p hp => ?_, fun p hp c hc => ?_⟩
          · rwa [List.mem_singleton.mp hp]
          · obtain rfl : first = p := by simpa using hp
            rw [Option.mem_def.mp hc] at hblank
            simpa using hblank
        · intro hread
          exact hread.1 first List.mem_cons_self
  | cons next rest ih =>
      have hname := (hdecl first List.mem_cons_self).name_ne_nil
      rw [foundArgs, List.map_cons, List.cons.injEq, argOf_eq_name_iff hname,
        ih fun p hp => hdecl p (List.mem_cons_of_mem _ hp)]
      unfold ReadableParams
      rw [List.forall_mem_cons (a := first), List.getLast?_cons_cons, and_assoc]

/-- What `getargs` returns for a list of declarations. -/
theorem getargs_params (hdecl : ∀ p ∈ first :: rest, p.IsDeclaration) :
    getargs ('(' :: (ParamList.params first rest).text ++ [')']) =
      joinFound (foundArgs first rest) := by
  have hcommas : ∀ piece ∈ first.text :: rest.map Param.text, ',' ∉ piece := by
    intro piece hpiece
    rw [← List.map_cons] at hpiece
    obtain ⟨p, hp, rfl⟩ := List.mem_map.mp hpiece
    exact (hdecl p hp).comma_notMem_text
  rw [getargs, ParamList.text, List.map_cons, splitCommas_parenthesised hcommas, getargsLoop_eq,
    map_argOf_closePieces, List.nil_append]

/-- What `getargs` returns for parentheses around a text without commas. -/
theorem getargs_of_notMem {text : Text} (h : ',' ∉ text) :
    getargs ('(' :: text ++ [')']) = argOf (text ++ [')']) := by
  have hpieces : splitCommas ('(' :: [','].intercalate [text] ++ [')']) = _ :=
    splitCommas_parenthesised (by simpa using h)
  rw [List.intercalate_singleton] at hpieces
  rw [getargs, hpieces, getargsLoop_eq, closePieces, List.map_singleton, List.cons_append,
    argOf_open]
  simp [joinFound]

theorem comma_notMem_of_isSpace {blanks : Text} (h : ∀ c ∈ blanks, isSpace c = true) :
    ',' ∉ blanks := by
  intro hcomma
  have hspace := h ',' hcomma
  revert hspace
  decide

theorem comma_notMem_void {front back : Text}
    (h : ∀ c ∈ front ++ back, isSpace c = true) : ',' ∉ front ++ "void".toList ++ back := by
  intro hmem
  rw [List.mem_append, List.mem_append] at hmem
  rcases hmem with (hfront | hvoid) | hback
  · exact comma_notMem_of_isSpace h (List.mem_append_left _ hfront)
  · revert hvoid
    decide
  · exact comma_notMem_of_isSpace h (List.mem_append_right _ hback)

/-- **When `getargs` returns the names of the parameters.** -/
theorem getargs_eq_names_iff {list : ParamList} (hlist : list.IsWritten) :
    getargs ('(' :: list.text ++ [')']) = list.names ↔ list.Readable := by
  cases list with
  | empty blanks =>
      have hlast : blanks.getLast?.all isSpace = true := by
        cases hget : blanks.getLast? with
        | none => rfl
        | some c => exact hlist c (List.mem_of_getLast? hget)
      rw [ParamList.text, getargs_of_notMem (comma_notMem_of_isSpace hlist), argOf_close,
        if_pos hlast]
      exact iff_of_true rfl trivial
  | void front back =>
      rw [ParamList.text, getargs_of_notMem (comma_notMem_void hlist), argOf_close]
      rcases List.eq_nil_or_concat back with rfl | ⟨blanks, c, hback⟩
      · have hlast : front ++ "void".toList ++ [] = front ++ "voi".toList ++ ['d'] := by simp
        have hletters : argOf (front ++ "voi".toList ++ ['d']) ≠ [] := by
          rw [argOf_eq, Strtok.lastToken_concat (by decide)]
          exact firstLetters_ne_nil (c := 'd') (by decide)
            (List.mem_append_right _ (List.mem_singleton_self 'd'))
        rw [hlast, List.getLast?_concat, if_neg (by decide)]
        exact iff_of_false hletters fun hread => hread rfl
      · rw [List.concat_eq_append] at hback
        have hspace : isSpace c = true := hlist c (by rw [hback]; simp)
        rw [hback, ← List.append_assoc, List.getLast?_concat, Option.all_some, if_pos hspace]
        exact iff_of_true rfl (List.concat_ne_nil c blanks)
  | params first rest =>
      rw [getargs_params hlist, ParamList.names, joinFound_eq_iff, foundArgs_eq_iff hlist]
      · rfl
      · rw [length_foundArgs, List.length_map, List.length_cons]
      · exact comma_notMem_foundArgs
      · intro name hname
        obtain ⟨p, hp, rfl⟩ := List.mem_map.mp hname
        have hdecl := hlist p hp
        exact ⟨hdecl.name_ne_nil, not_mem_identifier hdecl.name (by decide)⟩

end Getargs

/-! ## What the Fortran wrappers need -/

section Fortran

variable {generator : Generator} {text : Text} {rest : List Text}

/-- The pieces of a list that is not empty. -/
theorem splitCommas_intercalate (h : ∀ piece ∈ text :: rest, piece ≠ [] ∧ ',' ∉ piece) :
    splitCommas ([','].intercalate (text :: rest)) = text :: rest := by
  rw [splitCommas, List.splitOn_intercalate _ (fun piece hpiece => (h piece hpiece).2)
    (List.cons_ne_nil _ _)]
  refine List.rdropWhile_eq_self_iff.mpr fun hne => ?_
  have hlast := (h _ (List.getLast_mem hne)).1
  simpa using hlast

/-- The Fortran prototype is made of the pieces one by one. -/
theorem fortranAccepts_intercalate (h : ∀ piece ∈ text :: rest, piece ≠ [] ∧ ',' ∉ piece) :
    fortranAccepts generator ([','].intercalate (text :: rest)) = true ↔
      ∀ piece ∈ text :: rest, fortranWords generator (splitBlanks piece) = true := by
  rw [fortranAccepts, splitCommas_intercalate h, List.all_eq_true]

/-- A text that is not all blanks has a word. -/
theorem fortranWords_makewraplib_iff :
    fortranWords .makewraplib (splitBlanks text) = true ↔ ∃ c ∈ text, isSpace c = false := by
  have hwords : fortranWords .makewraplib (splitBlanks text) = true ↔ splitBlanks text ≠ [] := by
    simp [fortranWords]
  rw [hwords, splitBlanks, ne_eq, Strtok.tokens_eq_nil_iff]
  push Not
  simp only [Bool.not_eq_true, ne_eq]

/-- A declaration has a character that is no blank. -/
theorem Param.IsDeclaration.exists_not_isSpace {p : Param} (h : p.IsDeclaration) :
    ∃ c ∈ p.text, isSpace c = false := by
  obtain ⟨c, hc, hletter⟩ := h.type
  refine ⟨c, ?_, isSpace_of_isNameChar (isNameChar_of_isLetter hletter)⟩
  rw [Param.text, List.append_assoc]
  exact List.mem_append_left _ hc

/-- **Which lists get through the Fortran wrappers.** -/
theorem fortranAccepts_iff {list : ParamList} (hlist : list.IsWritten) :
    fortranAccepts generator list.text = true ↔ list.Accepted generator := by
  cases list with
  | empty blanks =>
      show fortranAccepts generator blanks = true ↔ blanks = []
      by_cases hnil : blanks = []
      · subst hnil
        exact iff_of_true (by cases generator <;> rfl) rfl
      · have hpiece : ∀ piece ∈ [blanks], piece ≠ [] ∧ ',' ∉ piece := by
          intro piece hpiece
          rw [List.mem_singleton.mp hpiece]
          exact ⟨hnil, comma_notMem_of_isSpace hlist⟩
        have hwords : splitBlanks blanks = [] := Strtok.tokens_eq_nil_iff.mpr hlist
        have haccepts : fortranAccepts generator ([','].intercalate [blanks]) = true ↔ _ :=
          fortranAccepts_intercalate hpiece
        rw [List.intercalate_singleton, List.forall_mem_singleton, hwords] at haccepts
        rw [haccepts]
        exact iff_of_false (by cases generator <;> decide) hnil
  | void front back =>
      have hpiece : ∀ piece ∈ [front ++ "void".toList ++ back], piece ≠ [] ∧ ',' ∉ piece := by
        intro piece hpiece
        rw [List.mem_singleton.mp hpiece]
        exact ⟨by simp, comma_notMem_void hlist⟩
      have hwords : splitBlanks (front ++ "void".toList ++ back) = ["void".toList] := by
        rw [splitBlanks, Strtok.tokens_append_append
          (fun c hc => hlist c (List.mem_append_left _ hc))
          (fun c hc => hlist c (List.mem_append_right _ hc))]
        decide
      have haccepts : fortranAccepts generator
          ([','].intercalate [front ++ "void".toList ++ back]) = true ↔ _ :=
        fortranAccepts_intercalate hpiece
      rw [List.intercalate_singleton, List.forall_mem_singleton, hwords] at haccepts
      rw [ParamList.text, haccepts]
      cases generator <;> simp [fortranWords, ParamList.Accepted]
  | params first rest =>
      have hpieces : ∀ piece ∈ first.text :: rest.map Param.text, piece ≠ [] ∧ ',' ∉ piece := by
        intro piece hpiece
        rw [← List.map_cons] at hpiece
        obtain ⟨p, hp, rfl⟩ := List.mem_map.mp hpiece
        obtain ⟨c, hc, -⟩ := (hlist p hp).exists_not_isSpace
        exact ⟨List.ne_nil_of_mem hc, (hlist p hp).comma_notMem_text⟩
      rw [ParamList.text, List.map_cons, fortranAccepts_intercalate hpieces, ← List.map_cons,
        List.forall_mem_map]
      cases generator with
      | makewraplib =>
          refine iff_of_true (fun p hp => ?_) nofun
          exact fortranWords_makewraplib_iff.mpr (hlist p hp).exists_not_isSpace
      | makempiwraplib => exact ⟨fun h _ => h, fun h => h rfl⟩

end Fortran

/-! ## The lines of a file -/

/-- What a line adds to the wrappers: nothing, or the one of its prototype. -/
theorem readSpecLine_cases {generator : Generator} {before after : SpecFile} {line : Text}
    (h : readSpecLine generator before line = .ok after) :
    after.wrapped = before.wrapped ∨
      ∃ ret name args, matchPrototype (chomp line) = some (ret, name, args) ∧
        after.wrapped = before.wrapped ++ [.ofMatch ret name args] := by
  unfold readSpecLine at h
  dsimp only at h
  by_cases hheader : generator = .makempiwraplib ∧ (chomp line).head? = some '#'
  · rw [if_pos hheader] at h
    cases h
    exact Or.inl rfl
  · rw [if_neg hheader] at h
    by_cases hparen : '(' ∈ chomp line
    · rw [if_pos hparen] at h
      cases hmatch : matchPrototype (chomp line) with
      | none =>
          rw [hmatch] at h
          cases h
      | some found =>
          obtain ⟨ret, name, args⟩ := found
          rw [hmatch] at h
          dsimp only at h
          split_ifs at h
          cases h
          exact Or.inr ⟨ret, name, args, rfl, rfl⟩
    · rw [if_neg hparen] at h
      split_ifs at h <;> cases h <;> exact Or.inl rfl

/-- **Every wrapper comes from a line that is a prototype.** -/
theorem exists_line_of_mem_wrapped {generator : Generator} {lines : List Text} {spec : SpecFile}
    (h : readSpec generator lines = .ok spec) : ∀ w ∈ spec.wrapped, ∃ line ∈ lines,
      ∃ ret name args, matchPrototype (chomp line) = some (ret, name, args) ∧
        w = .ofMatch ret name args := by
  refine FallibleRun.run_invariant (fun spec => ∀ w ∈ spec.wrapped, ∃ line ∈ lines,
    ∃ ret name args, matchPrototype (chomp line) = some (ret, name, args) ∧
      w = .ofMatch ret name args) ?_ (fun w hw => by cases hw) h
  intro line hline before after hbefore hstep w hw
  rcases readSpecLine_cases hstep with hsame | ⟨ret, name, args, hmatch, hnew⟩
  · exact hbefore w (hsame ▸ hw)
  · rw [hnew] at hw
    rcases List.mem_append.mp hw with hold | hlast
    · exact hbefore w hold
    · exact ⟨line, hline, ret, name, args, hmatch, List.mem_singleton.mp hlast⟩

/-! ## Prototypes -/

section Prototypes

variable {name blanks args rest : Text} {c b : Char}

/-- The name of the function has a blank before it. -/
theorem matchNameAndArgs_of_head (hc : isSpace c = false) (rest : Text) :
    matchNameAndArgs (c :: rest) = none := by
  simp [matchNameAndArgs, hc]

/-- Without a parenthesis nothing matches. -/
theorem matchNameAndArgs_of_notMem {text : Text} (h : '(' ∉ text) :
    matchNameAndArgs text = none := by
  unfold matchNameAndArgs
  dsimp only
  split_ifs
  · split
    · rename_i found hafter
      have hsuffix : '(' :: found <:+ text := by
        rw [← hafter]
        exact (List.dropWhile_suffix _).trans
          ((List.dropWhile_suffix _).trans (List.dropWhile_suffix _))
      exact absurd (hsuffix.subset List.mem_cons_self) h
    · rfl
  · rfl

theorem matchPrototypeFrom_of_notMem {text : Text} (h : '(' ∉ text) (ret : Text) :
    matchPrototypeFrom ret text = none := by
  induction text generalizing ret with
  | nil => rfl
  | cons c rest ih =>
      rw [matchPrototypeFrom, matchNameAndArgs_of_notMem h,
        ih (fun hmem => h (List.mem_cons_of_mem c hmem))]
      rfl

/-- The first group does not reach into the blanks before the parenthesis. -/
theorem matchPrototypeFrom_blanks (hblanks : ∀ c ∈ blanks, isSpace c = true) (hargs : '(' ∉ args)
    (ret : Text) : matchPrototypeFrom ret (blanks ++ '(' :: args) = none := by
  induction blanks generalizing ret with
  | nil =>
      rw [List.nil_append, matchPrototypeFrom, matchPrototypeFrom_of_notMem hargs,
        matchNameAndArgs_of_head (by decide)]
      rfl
  | cons b blanks ih =>
      have hnone : matchNameAndArgs (b :: blanks ++ '(' :: args) = none := by
        have hdrop : (b :: blanks ++ '(' :: args).dropWhile isSpace = '(' :: args := by
          rw [List.dropWhile_append_of_pos hblanks, List.dropWhile_cons_of_neg (by decide)]
        unfold matchNameAndArgs
        rw [hdrop, List.takeWhile_cons_of_neg (by decide)]
        simp
      rw [List.cons_append, matchPrototypeFrom,
        ih fun c hc => hblanks c (List.mem_cons_of_mem b hc), ← List.cons_append, hnone]
      rfl

/-- Nor does it reach into the name. -/
theorem matchPrototypeFrom_name (hname : ∀ c ∈ name, isNameChar c = true)
    (hblanks : ∀ c ∈ blanks, isSpace c = true) (hargs : '(' ∉ args) (ret : Text) :
    matchPrototypeFrom ret (name ++ (blanks ++ '(' :: args)) = none := by
  induction name generalizing ret with
  | nil => exact matchPrototypeFrom_blanks hblanks hargs ret
  | cons c name ih =>
      have hc := isSpace_of_isNameChar (hname c List.mem_cons_self)
      rw [List.cons_append, matchPrototypeFrom, matchNameAndArgs_of_head hc,
        ih fun d hd => hname d (List.mem_cons_of_mem c hd)]
      rfl

/-- A name, blanks and a list in parentheses are taken apart. -/
theorem matchNameAndArgs_eq (hne : name ≠ []) (hname : ∀ c ∈ name, isNameChar c = true)
    (hb : isSpace b = true) (hblanks : ∀ c ∈ blanks, isSpace c = true) (args : Text) :
    matchNameAndArgs (b :: (name ++ (blanks ++ '(' :: (args ++ [')'])))) = some (name, args) := by
  obtain ⟨first, others, rfl⟩ := List.exists_cons_of_ne_nil hne
  have hfirst := isSpace_of_isNameChar (hname first List.mem_cons_self)
  have hblank : ∀ c ∈ (blanks ++ '(' :: (args ++ [')'])).head?, isNameChar c = false := by
    intro c hc
    cases blanks with
    | nil =>
        obtain rfl : '(' = c := by simpa using hc
        decide
    | cons d blanks =>
        obtain rfl : d = c := by simpa using hc
        by_contra hchar
        rw [Bool.not_eq_false] at hchar
        have hspace := hblanks d List.mem_cons_self
        rw [isSpace_of_isNameChar hchar] at hspace
        cases hspace
  obtain ⟨next, after, hnext⟩ : ∃ next after, blanks ++ '(' :: (args ++ [')']) = next :: after :=
    List.exists_cons_of_ne_nil (by simp)
  have hend : isNameChar next = false := hblank next (by rw [hnext]; rfl)
  have hword : (first :: others ++ (blanks ++ '(' :: (args ++ [')']))).takeWhile isNameChar =
      first :: others := by
    rw [List.takeWhile_append_of_pos hname, hnext, List.takeWhile_cons_of_neg (by simp [hend]),
      List.append_nil]
  have hrest : (first :: others ++ (blanks ++ '(' :: (args ++ [')']))).dropWhile isNameChar =
      blanks ++ '(' :: (args ++ [')']) := by
    rw [List.dropWhile_append_of_pos hname, hnext, List.dropWhile_cons_of_neg (by simp [hend])]
  have hparen : (blanks ++ '(' :: (args ++ [')'])).dropWhile isSpace = '(' :: (args ++ [')']) := by
    rw [List.dropWhile_append_of_pos hblanks, List.dropWhile_cons_of_neg (by decide)]
  have hstart : (b :: (first :: others ++ (blanks ++ '(' :: (args ++ [')'])))).dropWhile isSpace =
      first :: others ++ (blanks ++ '(' :: (args ++ [')'])) := by
    rw [List.dropWhile_cons_of_pos hb, List.cons_append,
      List.dropWhile_cons_of_neg (by simp [hfirst])]
  unfold matchNameAndArgs
  rw [hstart, hword, hrest, hparen]
  simp [hb]

/-- **A prototype is taken apart at its last parenthesis**: what is before the name, the
name, and what is in the parentheses. -/
theorem matchPrototype_eq (ret : Text) (hb : isSpace b = true) (hne : name ≠ [])
    (hname : ∀ c ∈ name, isNameChar c = true) (hblanks : ∀ c ∈ blanks, isSpace c = true)
    (hargs : '(' ∉ args) :
    matchPrototype (ret ++ b :: (name ++ (blanks ++ '(' :: (args ++ [')'])))) =
      some (ret, name, args) := by
  have hclosed : '(' ∉ args ++ [')'] := by
    rw [List.mem_append, List.mem_singleton, not_or]
    exact ⟨hargs, by decide⟩
  have hfrom : ∀ done : Text,
      matchPrototypeFrom done (ret ++ b :: (name ++ (blanks ++ '(' :: (args ++ [')'])))) =
        some (done ++ ret, name, args) := by
    induction ret with
    | nil =>
        intro done
        rw [List.nil_append, matchPrototypeFrom, matchPrototypeFrom_name hname hblanks hclosed,
          matchNameAndArgs_eq hne hname hb hblanks]
        simp
    | cons c ret ih =>
        intro done
        rw [List.cons_append, matchPrototypeFrom, ih]
        simp
  exact hfrom []

end Prototypes

/-! ## Plain declarations -/

/-- A declaration as the shipped lists write them: letters in the name, only stars between
it and the blank before it, and no blank behind it. -/
structure Param.IsPlain (p : Param) : Prop where
  letters : ∀ c ∈ p.name, isLetter c = true
  name_ne_nil : p.name ≠ []
  stars : ∃ type stars : Text, p.front = type ++ stars ∧ (∀ c ∈ type.getLast?, isSpace c = true) ∧
    ∀ c ∈ stars, c = '*'
  brackets : ∀ c ∈ p.brackets, isSpace c = false
  opened : ∀ c ∈ p.brackets.head?, c = '['

/-- **A plain declaration is named by its last word.** -/
theorem Param.IsPlain.namedByLastWord {p : Param} (h : p.IsPlain) : p.NamedByLastWord := by
  obtain ⟨type, stars, hfront, htype, hstars⟩ := h.stars
  refine ⟨h.letters, stars, p.brackets, ?_, ?_, ?_⟩
  · have hword : ∀ c ∈ stars ++ p.name ++ p.brackets, isSpace c = false := by
      intro c hc
      rw [List.mem_append, List.mem_append] at hc
      rcases hc with (hstar | hname) | hbracket
      · rw [hstars c hstar]
        decide
      · exact isSpace_of_isNameChar (isNameChar_of_isLetter (h.letters c hname))
      · exact h.brackets c hbracket
    have hne : stars ++ p.name ++ p.brackets ≠ [] := by
      simp [h.name_ne_nil]
    have htext : p.text = type ++ (stars ++ p.name ++ p.brackets) := by
      rw [Param.text, hfront]
      simp
    rw [htext, Strtok.lastToken_append hne hword htype]
  · intro c hc
    rw [hstars c hc]
    decide
  · intro c hc
    rw [h.opened c hc]
    decide

/-- A plain declaration does not end with a blank. -/
theorem Param.IsPlain.isSpace_getLast? {p : Param} (h : p.IsPlain) :
    ∀ c ∈ p.text.getLast?, isSpace c = false := by
  intro c hc
  rw [Option.mem_def, Param.text] at hc
  cases hbrackets : p.brackets with
  | nil =>
      rw [hbrackets, List.append_nil, List.getLast?_append_of_ne_nil _ h.name_ne_nil] at hc
      have hletter := h.letters c (List.mem_of_getLast? hc)
      exact isSpace_of_isNameChar (isNameChar_of_isLetter hletter)
  | cons d brackets =>
      rw [List.getLast?_append_of_ne_nil _ (by simp [hbrackets])] at hc
      exact h.brackets c (List.mem_of_getLast? hc)

/-- **Plain declarations can be read.** -/
theorem readableParams_of_plain {params : List Param} (h : ∀ p ∈ params, p.IsPlain) :
    ReadableParams params := by
  refine ⟨fun p hp => (h p hp).namedByLastWord, fun last hlast => ?_⟩
  exact (h last (List.mem_of_getLast? hlast)).isSpace_getLast?

/-- A parameter with a digit in its name. -/
def numberedParam : ParamList := .params ⟨"int ".toList, "buf1".toList, []⟩ []

/-- The parameters of `read`. -/
def readParams : ParamList :=
  .params ⟨"int ".toList, "fd".toList, []⟩
    [⟨" void *".toList, "buf".toList, []⟩, ⟨" size_t ".toList, "count".toList, []⟩]

theorem readParams_isWritten : readParams.IsWritten := by
  intro p hp
  simp only [List.mem_cons, List.not_mem_nil, or_false] at hp
  rcases hp with rfl | rfl | rfl <;> constructor <;> decide

theorem readParams_readable : readParams.Readable := by
  refine readableParams_of_plain fun p hp => ?_
  simp only [List.mem_cons, List.not_mem_nil, or_false] at hp
  rcases hp with rfl | rfl | rfl
  · exact ⟨by decide, by decide, ⟨"int ".toList, [], by decide, by decide, by decide⟩, by decide,
      by decide⟩
  · exact ⟨by decide, by decide, ⟨" void ".toList, ['*'], by decide, by decide, by decide⟩,
      by decide, by decide⟩
  · exact ⟨by decide, by decide, ⟨" size_t ".toList, [], by decide, by decide, by decide⟩,
      by decide, by decide⟩

/-! ## Every argument is forwarded -/

/-- A line whose parentheses match makes a wrapper if its parameters are fit for one in
Fortran, and stops the generator if not. -/
theorem readSpecLine_of_match {generator : Generator} {spec : SpecFile} {line ret name args : Text}
    (hheader : generator = .makempiwraplib → (chomp line).head? ≠ some '#')
    (hmatch : matchPrototype (chomp line) = some (ret, name, args)) :
    readSpecLine generator spec line =
      if fortranAccepts generator args then
        .ok { spec with wrapped := spec.wrapped ++ [.ofMatch ret name args] }
      else .error (.notForFortran args) := by
  have hparen : '(' ∈ chomp line := by
    by_contra hnot
    rw [matchPrototype, matchPrototypeFrom_of_notMem hnot] at hmatch
    cases hmatch
  unfold readSpecLine
  dsimp only
  rw [if_neg fun h => hheader h.1 h.2, if_pos hparen, hmatch]

/-- A line makes a wrapper that calls the real function with the names of its parameters
exactly if they can be read and the generator makes a wrapper of them. -/
theorem readSpecLine_forwards_iff {generator : Generator} {list : ParamList} {spec : SpecFile}
    {line ret name : Text} (hlist : list.IsWritten)
    (hheader : generator = .makempiwraplib → (chomp line).head? ≠ some '#')
    (hmatch : matchPrototype (chomp line) = some (ret, name, list.text)) :
    (∃ after, readSpecLine generator spec line = .ok after ∧
        after.wrapped = spec.wrapped ++
          [⟨ret, name, '(' :: list.text ++ [')'], list.names⟩]) ↔
      list.Readable ∧ list.Accepted generator := by
  rw [readSpecLine_of_match hheader hmatch, ← getargs_eq_names_iff hlist,
    ← fortranAccepts_iff hlist]
  constructor
  · rintro ⟨after, hafter, hwrapped⟩
    split_ifs at hafter with haccepts
    cases hafter
    have hlast := List.singleton_inj.mp (List.append_cancel_left hwrapped)
    exact ⟨congrArg WrapperSpec.args hlast, haccepts⟩
  · rintro ⟨hargs, haccepts⟩
    refine ⟨_, if_pos haccepts, ?_⟩
    rw [WrapperSpec.ofMatch, hargs]

end Papiex
