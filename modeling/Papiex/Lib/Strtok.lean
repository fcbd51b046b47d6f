import Mathlib.Algebra.GroupWithZero.Nat
import Mathlib.Data.List.DropRight
import Mathlib.Data.List.TakeWhile
import Mathlib.Tactic.Common

/-!
# Tokens of a text

The pieces of a text between delimiters, empty ones left out, as `strtok` finds
them when every call is given the same delimiters; and as it finds them when the
first call is given more delimiters than the later ones.  A delimiter of the first
call alone cuts the first piece, and is lost.

## Main results

* `tokens`, `strtok`: the tokens, and those of calls with two sets of delimiters.
* `tokens_append_cons`, `strtokAll_append`: the tokens of texts one after the other.
* `strtok_foldl_append`: the tokens of texts that were joined.
-/

namespace Strtok

variable {α : Type*}

/-- The tokens of the text. -/
def tokens (isDelim : α → Bool) (text : List α) : List (List α) :=
  (text.splitOnP isDelim).filter fun token => !token.isEmpty

/-- The tokens of the text, with delimiters of their own in the first call. -/
def strtok (isFirst isDelim : α → Bool) (text : List α) : List (List α) :=
  match text.dropWhile isFirst with
  | [] => []
  | c :: rest =>
      (c :: rest.takeWhile fun c => !isFirst c) ::
        tokens isDelim (rest.dropWhile fun c => !isFirst c).tail

section Tokens

variable {isDelim : α → Bool} {text front rest : List α} {d : α}

@[simp] theorem tokens_nil : tokens isDelim [] = [] := by
  simp [tokens]

/-- **A delimiter between two texts keeps their tokens apart.** -/
theorem tokens_append_cons (hd : isDelim d = true) :
    tokens isDelim (front ++ d :: rest) = tokens isDelim front ++ tokens isDelim rest := by
  rw [tokens, List.splitOnP_append_cons front rest hd, List.filter_append]
  rfl

theorem tokens_cons (hd : isDelim d = true) :
    tokens isDelim (d :: rest) = tokens isDelim rest := by
  have happend : tokens isDelim ([] ++ d :: rest) = _ := tokens_append_cons hd
  simpa using happend

theorem tokens_eq_singleton (hne : text ≠ []) (h : ∀ c ∈ text, isDelim c = false) :
    tokens isDelim text = [text] := by
  rw [tokens, List.splitOnP_eq_singleton h]
  simp [hne]

/-- What is not a delimiter is in the tokens, in its order. -/
theorem flatten_tokens : (tokens isDelim text).flatten = text.filter fun c => !isDelim c := by
  have hsplit : ∀ text : List α, (text.splitOnP isDelim).flatten =
      text.filter fun c => !isDelim c := by
    intro text
    induction text with
    | nil => simp
    | cons c text ih =>
        rw [List.splitOnP_cons_eq_if_modifyHead]
        obtain ⟨head, tail, hcons⟩ := List.exists_cons_of_ne_nil (List.splitOnP_ne_nil isDelim text)
        rw [hcons] at ih ⊢
        by_cases hc : isDelim c = true
        · simpa [hc] using ih
        · simpa [hc] using ih
  rw [tokens, List.flatten_filter_not_isEmpty, hsplit]

/-- **A text without tokens** is one of delimiters only. -/
theorem tokens_eq_nil_iff : tokens isDelim text = [] ↔ ∀ c ∈ text, isDelim c = true := by
  constructor
  · intro hnil c hc
    by_contra hnot
    have hkept : c ∈ text.filter fun c => !isDelim c := by
      rw [List.mem_filter]
      exact ⟨hc, by simpa using hnot⟩
    rw [← flatten_tokens, hnil] at hkept
    cases hkept
  · intro hall
    induction text with
    | nil => exact tokens_nil
    | cons c text ih =>
        rw [tokens_cons (hall c List.mem_cons_self)]
        exact ih fun d hd => hall d (List.mem_cons_of_mem c hd)

/-- The end of a text has no more tokens than the text. -/
theorem length_tokens_le_of_suffix (h : rest <:+ text) :
    (tokens isDelim rest).length ≤ (tokens isDelim text).length := by
  obtain ⟨front, rfl⟩ := h
  induction front with
  | nil => rfl
  | cons c front ih =>
      refine ih.trans ?_
      rw [List.cons_append, tokens, tokens, List.splitOnP_cons_eq_if_modifyHead]
      obtain ⟨head, tail, hcons⟩ :=
        List.exists_cons_of_ne_nil (List.splitOnP_ne_nil isDelim (front ++ rest))
      rw [hcons]
      by_cases hc : isDelim c = true
      · simp [hc]
      · cases head <;> simp [hc]

/-- Each token and a delimiter behind it fit into the text, but for the last delimiter. -/
theorem sum_length_tokens_le (isDelim : α → Bool) (text : List α) :
    ((tokens isDelim text).map fun token => token.length + 1).sum ≤ text.length + 1 := by
  have hsplit : ((text.splitOnP isDelim).map fun token => token.length + 1).sum =
      text.length + 1 := by
    induction text with
    | nil => simp
    | cons c text ih =>
        rw [List.splitOnP_cons_eq_if_modifyHead]
        obtain ⟨head, tail, hcons⟩ := List.exists_cons_of_ne_nil (List.splitOnP_ne_nil isDelim text)
        rw [hcons] at ih ⊢
        rw [List.map_cons, List.sum_cons] at ih
        split
        · rw [List.map_cons, List.sum_cons, List.map_cons, List.sum_cons, ih, List.length_nil,
            List.length_cons]
          omega
        · rw [List.modifyHead_cons, List.map_cons, List.sum_cons, List.length_cons,
            List.length_cons]
          omega
  have hfilter : ∀ pieces : List (List α),
      ((pieces.filter fun token => !token.isEmpty).map fun token => token.length + 1).sum ≤
        (pieces.map fun token => token.length + 1).sum := by
    intro pieces
    induction pieces with
    | nil => rfl
    | cons piece pieces ih =>
        rw [List.filter_cons]
        split
        · simpa using ih
        · exact ih.trans (by simp)
  rw [tokens, ← hsplit]
  exact hfilter _

/-! ### The last token -/

/-- The characters behind the last delimiter, once those at the end are taken off. -/
def lastToken (isDelim : α → Bool) (text : List α) : List α :=
  (text.rdropWhile isDelim).rtakeWhile fun c => !isDelim c

theorem tokens_concat (hd : isDelim d = true) :
    tokens isDelim (front ++ [d]) = tokens isDelim front := by
  rw [tokens_append_cons hd, tokens_nil, List.append_nil]

/-- Delimiters around a text make no difference. -/
theorem tokens_append_append (hfront : ∀ c ∈ front, isDelim c = true)
    (hrest : ∀ c ∈ rest, isDelim c = true) :
    tokens isDelim (front ++ text ++ rest) = tokens isDelim text := by
  have hback : tokens isDelim (text ++ rest) = tokens isDelim text := by
    induction rest using List.reverseRecOn with
    | nil => rw [List.append_nil]
    | append_singleton rest d ih =>
        rw [← List.append_assoc, tokens_concat (hrest d (by simp)),
          ih fun c hc => hrest c (List.mem_append_left _ hc)]
  rw [List.append_assoc]
  induction front with
  | nil => exact hback
  | cons c front ih =>
      rw [List.cons_append, tokens_cons (hfront c List.mem_cons_self),
        ih fun d hd => hfront d (List.mem_cons_of_mem c hd)]

/-- A delimiter at the end does not change the last token. -/
theorem lastToken_concat_of_isDelim (hd : isDelim d = true) :
    lastToken isDelim (front ++ [d]) = lastToken isDelim front := by
  rw [lastToken, List.rdropWhile_concat_pos _ _ _ hd, lastToken]

/-- The last token ends with the last character that is no delimiter. -/
theorem lastToken_concat (hd : isDelim d = false) :
    lastToken isDelim (front ++ [d]) = (front.rtakeWhile fun c => !isDelim c) ++ [d] := by
  rw [lastToken, List.rdropWhile_concat_neg _ _ _ (by simp [hd]),
    List.rtakeWhile_concat_pos _ _ _ (by simp [hd])]

/-- What stands behind the last delimiter begins the text, or there is that delimiter. -/
theorem eq_or_append_rtakeWhile (isDelim : α → Bool) (text : List α) :
    text = (text.rtakeWhile fun c => !isDelim c) ∨
      ∃ before e, isDelim e = true ∧ text = before ++ e :: text.rtakeWhile fun c => !isDelim c := by
  have hsplit := List.rdropWhile_append_rtakeWhile (p := fun c => !isDelim c) (l := text)
  rcases List.eq_nil_or_concat (text.rdropWhile fun c => !isDelim c) with hnil | ⟨before, e, he⟩
  · rw [hnil, List.nil_append] at hsplit
    exact Or.inl hsplit.symm
  · rw [List.concat_eq_append] at he
    have hne : (text.rdropWhile fun c => !isDelim c) ≠ [] := by
      rw [he]
      exact List.concat_ne_nil e before
    have hdelim : isDelim e = true := by
      have hlast := List.rdropWhile_last_not _ _ hne
      simpa [he] using hlast
    rw [he, List.append_assoc, List.singleton_append] at hsplit
    exact Or.inr ⟨before, e, hdelim, hsplit.symm⟩

/-- A character in front is part of the run or not seen by it. -/
theorem rtakeWhile_cons (p : α → Bool) (c : α) (text : List α) :
    (c :: text).rtakeWhile p = text.rtakeWhile p ∨
      (c :: text).rtakeWhile p = c :: text.rtakeWhile p := by
  rw [List.rtakeWhile, List.rtakeWhile, List.reverse_cons, List.takeWhile_append]
  split
  · rename_i hall
    have hself := (List.takeWhile_prefix p).eq_of_length hall
    rw [List.takeWhile_cons, List.takeWhile_nil, hself]
    split
    · exact Or.inr (by simp)
    · exact Or.inl (by simp)
  · exact Or.inl rfl

/-- A character in front of a text is in front of its last token, or makes no difference to
it. -/
theorem lastToken_cons (hd : isDelim d = false) (text : List α) :
    lastToken isDelim (d :: text) = lastToken isDelim text ∨
      lastToken isDelim (d :: text) = d :: lastToken isDelim text := by
  induction text using List.reverseRecOn with
  | nil =>
      have hsingle : lastToken isDelim ([] ++ [d]) = _ := lastToken_concat hd
      exact Or.inr hsingle
  | append_singleton front e ih =>
      rw [← List.cons_append]
      cases he : isDelim e with
      | true => rwa [lastToken_concat_of_isDelim he, lastToken_concat_of_isDelim he]
      | false =>
          rw [lastToken_concat he, lastToken_concat he]
          rcases rtakeWhile_cons (fun c => !isDelim c) d front with hsame | hmore
          · exact Or.inl (by rw [hsame])
          · exact Or.inr (by rw [hmore, List.cons_append])

/-- The last token of a text that does not end with a delimiter. -/
theorem lastToken_eq_rtakeWhile (h : ∀ c ∈ text.getLast?, isDelim c = false) :
    lastToken isDelim text = text.rtakeWhile fun c => !isDelim c := by
  rw [lastToken, List.rdropWhile_eq_self_iff.mpr]
  intro hne
  have hlast := h _ (List.getLast?_eq_some_getLast hne)
  simp [hlast]

/-- **The last of the tokens.** -/
theorem getLast?_tokens (isDelim : α → Bool) (text : List α) :
    (tokens isDelim text).getLast?.getD [] = lastToken isDelim text := by
  induction text using List.reverseRecOn with
  | nil => simp [lastToken]
  | append_singleton front d ih =>
      cases hd : isDelim d with
      | true => rw [tokens_concat hd, ih, lastToken_concat_of_isDelim hd]
      | false =>
          have hword : ∀ c ∈ (front.rtakeWhile fun c => !isDelim c) ++ [d], isDelim c = false := by
            intro c hc
            rcases List.mem_append.mp hc with hfront | hlast
            · simpa using List.mem_rtakeWhile_imp hfront
            · rwa [List.mem_singleton.mp hlast]
          have htoken := tokens_eq_singleton (List.concat_ne_nil d _) hword
          rw [lastToken_concat hd]
          rcases eq_or_append_rtakeWhile isDelim front with hfront | ⟨before, e, he, hfront⟩
          · conv_lhs => rw [hfront, htoken]
            rfl
          · conv_lhs => rw [hfront, List.append_assoc, List.cons_append, tokens_append_cons he,
              htoken, List.getLast?_concat]
            rfl

/-- A word behind a delimiter is the last token. -/
theorem lastToken_append {word : List α} (hne : word ≠ [])
    (hword : ∀ c ∈ word, isDelim c = false) (hfront : ∀ c ∈ front.getLast?, isDelim c = true) :
    lastToken isDelim (front ++ word) = word := by
  have htoken := tokens_eq_singleton hne hword
  rw [← getLast?_tokens]
  rcases List.eq_nil_or_concat front with rfl | ⟨before, e, he⟩
  · rw [List.nil_append, htoken]
    rfl
  · rw [List.concat_eq_append] at he
    have hdelim : isDelim e = true := hfront e (by simp [he])
    rw [he, List.append_assoc, List.singleton_append, tokens_append_cons hdelim, htoken,
      List.getLast?_concat]
    rfl

theorem not_isDelim_of_mem_tokens {token : List α} (h : token ∈ tokens isDelim text) {c : α}
    (hc : c ∈ token) : isDelim c = false := by
  have hmem : c ∈ (tokens isDelim text).flatten := List.mem_flatten_of_mem h hc
  rw [flatten_tokens] at hmem
  simpa using (List.mem_filter.mp hmem).2

/-- The first token starts with what comes before the first delimiter. -/
theorem exists_tokens_append (hne : front ≠ []) (h : ∀ c ∈ front, isDelim c = false)
    (rest : List α) :
    ∃ more others, tokens isDelim (front ++ rest) = (front ++ more) :: others := by
  induction rest generalizing front with
  | nil => exact ⟨[], [], by simpa using tokens_eq_singleton hne h⟩
  | cons c rest ih =>
      by_cases hc : isDelim c = true
      · refine ⟨[], tokens isDelim rest, ?_⟩
        rw [tokens_append_cons hc, tokens_eq_singleton hne h, List.append_nil]
        rfl
      · have hmore : ∀ x ∈ front ++ [c], isDelim x = false := by
          intro x hx
          rcases List.mem_append.mp hx with hfront | hlast
          · exact h x hfront
          · rw [List.mem_singleton.mp hlast]
            simpa using hc
        obtain ⟨more, others, htokens⟩ := ih (by simp) hmore
        exact ⟨c :: more, others, by simpa using htokens⟩

end Tokens

/-! ## A first call with more delimiters -/

section First

variable {isFirst isDelim : α → Bool} {text front rest : List α} {c d : α}

@[simp] theorem strtok_nil : strtok isFirst isDelim [] = [] := rfl

theorem strtok_cons_of_isFirst (hc : isFirst c = true) :
    strtok isFirst isDelim (c :: rest) = strtok isFirst isDelim rest := by
  rw [strtok, strtok, List.dropWhile_cons_of_pos hc]

/-- The first token ends at a delimiter of the first call, the others at those of the later
calls. -/
theorem strtok_cons (hc : isFirst c = false) :
    strtok isFirst isDelim (c :: rest) =
      (c :: rest.takeWhile fun c => !isFirst c) ::
        tokens isDelim (rest.dropWhile fun c => !isFirst c).tail := by
  rw [strtok, List.dropWhile_cons_of_neg (by simp [hc])]

/-- The first call makes at most one token more. -/
theorem length_strtok_le (isFirst isDelim : α → Bool) (text : List α) :
    (strtok isFirst isDelim text).length ≤ (tokens isDelim text).length + 1 := by
  unfold strtok
  have hdrop : text.dropWhile isFirst <:+ text := List.dropWhile_suffix isFirst
  split
  · simp
  · rename_i c rest hrest
    rw [hrest] at hdrop
    have hsuffix : (rest.dropWhile fun c => !isFirst c).tail <:+ text :=
      (List.tail_suffix _).trans ((List.dropWhile_suffix _).trans
        ((List.suffix_cons c rest).trans hdrop))
    rw [List.length_cons]
    exact Nat.succ_le_succ (length_tokens_le_of_suffix hsuffix)

/-- A text without a delimiter of the first call is its own token. -/
theorem strtok_eq_singleton (hne : text ≠ []) (h : ∀ c ∈ text, isFirst c = false) :
    strtok isFirst isDelim text = [text] := by
  obtain ⟨c, rest, rfl⟩ := List.exists_cons_of_ne_nil hne
  rw [List.forall_mem_cons] at h
  have hall : ∀ c ∈ rest, (!isFirst c) = true := by
    intro c hc
    rw [h.2 c hc]
    rfl
  rw [strtok_cons h.1, List.takeWhile_eq_self_iff.mpr hall, List.dropWhile_eq_nil_iff.mpr hall]
  simp

/-- A delimiter of the first call ends the first token. -/
theorem strtok_append_of_isFirst (hne : front ≠ []) (h : ∀ c ∈ front, isFirst c = false)
    (hd : isFirst d = true) :
    strtok isFirst isDelim (front ++ d :: rest) = front :: tokens isDelim rest := by
  obtain ⟨c, front, rfl⟩ := List.exists_cons_of_ne_nil hne
  rw [List.forall_mem_cons] at h
  have hall : ∀ c ∈ front, (!isFirst c) = true := by
    intro c hc
    rw [h.2 c hc]
    rfl
  rw [List.cons_append, strtok_cons h.1, List.takeWhile_append_of_pos hall,
    List.dropWhile_append_of_pos hall]
  simp [hd]

/-- A text ends in its first token, or that is ended by a delimiter of the first call. -/
theorem eq_word_or_append (hc : isFirst c = false) (rest : List α) :
    ∃ front, front ≠ [] ∧ (∀ c ∈ front, isFirst c = false) ∧
      (c :: rest = front ∨ ∃ d after, isFirst d = true ∧ c :: rest = front ++ d :: after) := by
  refine ⟨c :: rest.takeWhile fun c => !isFirst c, List.cons_ne_nil _ _, ?_, ?_⟩
  · rw [List.forall_mem_cons]
    exact ⟨hc, fun x hx => by simpa using List.mem_takeWhile_imp hx⟩
  · have hsplit := List.takeWhile_append_dropWhile (p := fun c => !isFirst c) (l := rest)
    cases hrest : rest.dropWhile fun c => !isFirst c with
    | nil =>
        rw [hrest, List.append_nil] at hsplit
        rw [hsplit]
        exact .inl rfl
    | cons d after =>
        have hhead := List.head?_dropWhile_not (fun c => !isFirst c) rest
        rw [hrest] at hsplit hhead
        exact .inr ⟨d, after, by simpa using hhead, by rw [List.cons_append, hsplit]⟩

/-- A delimiter of the first call that is none later is lost from the first token. -/
theorem lost_of_not_isDelim (h : ∀ c ∈ front, isDelim c = false)
    (hd : isFirst d = true) (hnot : isDelim d = false) :
    (front :: tokens isDelim rest).flatten.length <
        (tokens isDelim (front ++ d :: rest)).flatten.length ∧
      ∃ token ∈ (tokens isDelim (front ++ d :: rest)).head?, ∃ c ∈ token, isFirst c = true := by
  constructor
  · have hfront : (front.filter fun c => !isDelim c) = front := by
      rw [List.filter_eq_self]
      intro c hc
      rw [h c hc]
      rfl
    rw [List.flatten_cons, flatten_tokens, flatten_tokens, List.filter_append, hfront]
    simp [hnot]
  · have hmore : ∀ c ∈ front ++ [d], isDelim c = false := by
      simpa [or_imp, forall_and] using ⟨h, hnot⟩
    obtain ⟨more, others, htokens⟩ := exists_tokens_append (by simp) hmore rest
    rw [List.append_assoc, List.singleton_append] at htokens
    exact ⟨_, by rw [htokens]; rfl, d, by simp, hd⟩

variable (hsub : ∀ c, isDelim c = true → isFirst c = true)

include hsub

/-- The first call stops at the delimiter unless it has found nothing before it. -/
theorem strtok_append_cons (hd : isDelim d = true) :
    strtok isFirst isDelim (front ++ d :: rest) =
      if strtok isFirst isDelim front = [] then strtok isFirst isDelim rest
      else strtok isFirst isDelim front ++ tokens isDelim rest := by
  induction front with
  | nil => simp [strtok_cons_of_isFirst (hsub d hd)]
  | cons c front ih =>
      by_cases hc : isFirst c = true
      · rw [List.cons_append, strtok_cons_of_isFirst hc, strtok_cons_of_isFirst hc, ih]
      · obtain ⟨word, hne, hword, hcase⟩ := eq_word_or_append (by simpa using hc) front
        rcases hcase with heq | ⟨x, after, hx, heq⟩
        · rw [heq, strtok_append_of_isFirst hne hword (hsub d hd),
            strtok_eq_singleton hne hword, if_neg (List.cons_ne_nil _ _)]
          rfl
        · rw [heq, List.append_assoc, List.cons_append, strtok_append_of_isFirst hne hword hx,
            strtok_append_of_isFirst hne hword hx, if_neg (List.cons_ne_nil _ _),
            tokens_append_cons hd]
          rfl

/-- **Either both ways find the same tokens**, and there is no delimiter of the first call
in the first one, **or one is lost**. -/
theorem strtok_eq_tokens_or (text : List α) :
    (strtok isFirst isDelim text = tokens isDelim text ∧
      ∀ token ∈ (tokens isDelim text).head?, ∀ c ∈ token, isFirst c = false) ∨
    ((strtok isFirst isDelim text).flatten.length < (tokens isDelim text).flatten.length ∧
      ∃ token ∈ (tokens isDelim text).head?, ∃ c ∈ token, isFirst c = true) := by
  induction text with
  | nil => exact .inl ⟨by simp, by simp⟩
  | cons c rest ih =>
      by_cases hc : isFirst c = true
      · rw [strtok_cons_of_isFirst hc]
        by_cases hd : isDelim c = true
        · rw [tokens_cons hd]
          exact ih
        · -- the token that starts here loses its first character
          have hd : isDelim c = false := by simpa using hd
          obtain ⟨more, others, htokens⟩ := exists_tokens_append (List.cons_ne_nil c [])
            (by simpa using hd) rest
          rw [List.singleton_append] at htokens
          refine .inr ⟨?_, _, by rw [htokens]; rfl, c, by simp, hc⟩
          have hle : (strtok isFirst isDelim rest).flatten.length ≤
              (tokens isDelim rest).flatten.length := by
            rcases ih with ⟨hsame, -⟩ | ⟨hlt, -⟩
            · rw [hsame]
            · exact hlt.le
          rw [flatten_tokens] at hle ⊢
          simpa [hd] using Nat.lt_succ_of_le hle
      · -- up to the first delimiter of the first call both ways go together
        obtain ⟨word, hne, hword, hcase⟩ := eq_word_or_append (by simpa using hc) rest
        have hnot : ∀ x ∈ word, isDelim x = false := by
          intro x hx
          by_contra hd
          have hfirst := hsub x (by simpa using hd)
          rw [hword x hx] at hfirst
          cases hfirst
        rcases hcase with heq | ⟨d, after, hd, heq⟩
        · rw [heq, strtok_eq_singleton hne hword, tokens_eq_singleton hne hnot]
          exact .inl ⟨rfl, by simpa using hword⟩
        · rw [heq, strtok_append_of_isFirst hne hword hd]
          by_cases hdelim : isDelim d = true
          · rw [tokens_append_cons hdelim, tokens_eq_singleton hne hnot]
            exact .inl ⟨rfl, by simpa using hword⟩
          · exact .inr (lost_of_not_isDelim hnot hd (by simpa using hdelim))

/-- The tokens are the same if no delimiter of the first call is in the first one. -/
theorem strtok_eq_tokens (h : ∀ token ∈ (tokens isDelim text).head?, ∀ c ∈ token,
    isFirst c = false) : strtok isFirst isDelim text = tokens isDelim text := by
  rcases strtok_eq_tokens_or hsub text with ⟨hsame, -⟩ | ⟨-, token, htoken, c, hc, hfirst⟩
  · exact hsame
  · rw [h token htoken c hc] at hfirst
    cases hfirst

end First

/-- The same delimiters in all calls. -/
theorem strtok_self {isDelim : α → Bool} {text : List α} :
    strtok isDelim isDelim text = tokens isDelim text := by
  refine strtok_eq_tokens (fun c hc => hc) ?_
  intro token htoken c hc
  exact not_isDelim_of_mem_tokens (List.mem_of_mem_head? htoken) hc

/-! ## Texts joined by a delimiter -/

/-- The piece is appended after a delimiter. -/
def append (d : α) : List α → List α → List α
  | [], piece => piece
  | c :: text, piece => c :: text ++ d :: piece

/-- The tokens of all pieces; only the first piece with a token meets the first call. -/
def strtokAll (isFirst isDelim : α → Bool) : List (List α) → List (List α)
  | [] => []
  | piece :: rest =>
      if (strtok isFirst isDelim piece).isEmpty then strtokAll isFirst isDelim rest
      else strtok isFirst isDelim piece ++ rest.flatMap (tokens isDelim)

section Joined

variable {isFirst isDelim : α → Bool} {text piece : List α} {pieces rest : List (List α)} {d : α}

@[simp] theorem strtokAll_nil : strtokAll isFirst isDelim [] = [] := rfl

/-- Once a token was found the later delimiters count. -/
theorem strtokAll_cons (h : strtok isFirst isDelim piece ≠ []) :
    strtokAll isFirst isDelim (piece :: pieces) =
      strtok isFirst isDelim piece ++ pieces.flatMap (tokens isDelim) := by
  rw [strtokAll, if_neg (by simpa using h)]

/-- A piece without tokens leaves the first call to the next piece. -/
theorem strtokAll_cons_of_nil (h : strtok isFirst isDelim piece = []) :
    strtokAll isFirst isDelim (piece :: pieces) = strtokAll isFirst isDelim pieces := by
  rw [strtokAll, if_pos (by simpa using h)]

/-- **Pieces one after the other**: the first delimiters count up to the first token. -/
theorem strtokAll_append :
    strtokAll isFirst isDelim (pieces ++ rest) =
      if (strtokAll isFirst isDelim pieces).isEmpty then strtokAll isFirst isDelim rest
      else strtokAll isFirst isDelim pieces ++ rest.flatMap (tokens isDelim) := by
  induction pieces with
  | nil => rfl
  | cons piece pieces ih =>
      by_cases hpiece : strtok isFirst isDelim piece = []
      · rw [List.cons_append, strtokAll_cons_of_nil hpiece, strtokAll_cons_of_nil hpiece, ih]
      · rw [List.cons_append, strtokAll_cons hpiece, strtokAll_cons hpiece,
          if_neg (by simp [hpiece]), List.flatMap_append, List.append_assoc]

/-- Texts without delimiters are their own tokens. -/
theorem flatMap_tokens_eq_self (h : ∀ piece ∈ pieces, piece ≠ [] ∧ ∀ c ∈ piece, isDelim c = false) :
    pieces.flatMap (tokens isDelim) = pieces := by
  induction pieces with
  | nil => rfl
  | cons piece pieces ih =>
      rw [List.forall_mem_cons] at h
      rw [List.flatMap_cons, tokens_eq_singleton h.1.1 h.1.2, ih h.2]
      rfl

/-- Pieces without the first delimiters have none of the later ones. -/
theorem not_isDelim_of_clean (hsub : ∀ c, isDelim c = true → isFirst c = true)
    (h : ∀ piece ∈ pieces, piece ≠ [] ∧ ∀ c ∈ piece, isFirst c = false) :
    ∀ piece ∈ pieces, piece ≠ [] ∧ ∀ c ∈ piece, isDelim c = false := by
  intro piece hpiece
  refine ⟨(h piece hpiece).1, fun c hc => ?_⟩
  by_contra hdelim
  have hfirst := hsub c (by simpa using hdelim)
  rw [(h piece hpiece).2 c hc] at hfirst
  cases hfirst

theorem strtokAll_eq_self (hsub : ∀ c, isDelim c = true → isFirst c = true)
    (h : ∀ piece ∈ pieces, piece ≠ [] ∧ ∀ c ∈ piece, isFirst c = false) :
    strtokAll isFirst isDelim pieces = pieces := by
  cases pieces with
  | nil => rfl
  | cons piece pieces =>
      rw [List.forall_mem_cons] at h
      have hpiece : strtok isFirst isDelim piece = [piece] := strtok_eq_singleton h.1.1 h.1.2
      rw [strtokAll_cons (by simp [hpiece]), hpiece,
        flatMap_tokens_eq_self (not_isDelim_of_clean hsub h.2)]
      rfl

/-- A text before texts without delimiters. -/
theorem strtokAll_cons_eq_append (hsub : ∀ c, isDelim c = true → isFirst c = true)
    (h : ∀ piece ∈ pieces, piece ≠ [] ∧ ∀ c ∈ piece, isFirst c = false) :
    strtokAll isFirst isDelim (piece :: pieces) = strtok isFirst isDelim piece ++ pieces := by
  by_cases hpiece : strtok isFirst isDelim piece = []
  · rw [strtokAll_cons_of_nil hpiece, strtokAll_eq_self hsub h, hpiece, List.nil_append]
  · rw [strtokAll_cons hpiece, flatMap_tokens_eq_self (not_isDelim_of_clean hsub h)]

/-- An empty text has no part in it. -/
theorem strtokAll_append_nil_cons :
    strtokAll isFirst isDelim (pieces ++ [] :: rest) =
      strtokAll isFirst isDelim (pieces ++ rest) := by
  rw [strtokAll_append, strtokAll_append, strtokAll_cons_of_nil strtok_nil, List.flatMap_cons,
    tokens_nil, List.nil_append]

/-- **The tokens of joined texts are the tokens of the texts one by one.** -/
theorem strtok_foldl_append (hsub : ∀ c, isDelim c = true → isFirst c = true)
    (hd : isDelim d = true) :
    strtok isFirst isDelim (pieces.foldl (append d) text) =
      strtokAll isFirst isDelim (text :: pieces) := by
  induction pieces generalizing text with
  | nil =>
      by_cases htext : strtok isFirst isDelim text = []
      · rw [strtokAll_cons_of_nil htext, List.foldl_nil, htext, strtokAll_nil]
      · rw [strtokAll_cons htext, List.foldl_nil, List.flatMap_nil, List.append_nil]
  | cons piece pieces ih =>
      rw [List.foldl_cons, ih]
      cases text with
      | nil => exact (strtokAll_cons_of_nil strtok_nil).symm
      | cons c text =>
          have happend : strtok isFirst isDelim (c :: text ++ d :: piece) = _ :=
            strtok_append_cons hsub hd
          rw [show append d (c :: text) piece = c :: text ++ d :: piece from rfl]
          by_cases htext : strtok isFirst isDelim (c :: text) = []
          · rw [if_pos htext] at happend
            rw [strtokAll_cons_of_nil htext, strtokAll, strtokAll, happend]
          · rw [if_neg htext] at happend
            have hne : strtok isFirst isDelim (c :: text ++ d :: piece) ≠ [] := by
              rw [happend]
              exact List.append_ne_nil_of_left_ne_nil htext _
            rw [strtokAll_cons htext, strtokAll_cons hne, happend, List.flatMap_cons,
              List.append_assoc]

end Joined

end Strtok
