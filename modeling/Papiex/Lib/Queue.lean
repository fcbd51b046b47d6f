import Mathlib.Data.List.Nodup
import Mathlib.Data.List.Basic
import Mathlib.Logic.Function.Basic

/-!
# Lists that are linked through their elements

A list has a pointer to its first element, each element a pointer to the next one and the
address of the pointer to itself.  An element is in one list at most, and is removed
without the list being named.  The links hold a family of lists (`Links.Holds`); each
operation is the operation on the lists.

## Main results

* `Links.Holds`: the pointers hold these lists.
* `Holds.insertHead`, `Holds.remove`, `Holds.clear`, `Holds.init`: the macros keep this.
-/

namespace Queue

/-- The address of a pointer to an element. -/
inductive Slot (η α : Type*) where
  | first (head : η)
  | next (elm : α)
  deriving DecidableEq

/-- The pointers of the lists. -/
structure Links (η α : Type*) where
  first : η → Option α := fun _ => none
  next : α → Option α := fun _ => none
  prev : α → Option (Slot η α) := fun _ => none

namespace Links

variable {η α : Type*}

/-- What a pointer points to. -/
def read (links : Links η α) : Slot η α → Option α
  | .first head => links.first head
  | .next elm => links.next elm

section Operations

variable [DecidableEq η] [DecidableEq α]

/-- Write a pointer. -/
def write (links : Links η α) (slot : Slot η α) (value : Option α) : Links η α :=
  match slot with
  | .first head => { links with first := Function.update links.first head value }
  | .next elm => { links with next := Function.update links.next elm value }

/-- Write where the pointer to an element is. -/
def setPrev (links : Links η α) (elm : α) (slot : Option (Slot η α)) : Links η α :=
  { links with prev := Function.update links.prev elm slot }

/-- The element there is, if there is one, is pointed to from this pointer. -/
def setPrevOf (links : Links η α) (elm : Option α) (slot : Option (Slot η α)) : Links η α :=
  match elm with
  | some elm => links.setPrev elm slot
  | none => links

/-- Empty a list. -/
def init (links : Links η α) (head : η) : Links η α := links.write (.first head) none

/-- Insert an element at the head of a list. -/
def insertHead (links : Links η α) (head : η) (elm : α) : Links η α :=
  let linked := (links.write (.next elm) (links.first head)).setPrevOf (links.first head)
    (some (.next elm))
  (linked.write (.first head) (some elm)).setPrev elm (some (.first head))

/-- Remove an element from its list; it fails if the element has no pointer to itself. -/
def remove (links : Links η α) (elm : α) : Option (Links η α) :=
  let closed := links.setPrevOf (links.next elm) (links.prev elm)
  (closed.prev elm).map fun slot => closed.write slot (closed.next elm)

/-- Clear the pointers of an element. -/
def clear (links : Links η α) (elm : α) : Links η α :=
  (links.write (.next elm) none).setPrev elm none

end Operations

/-! ## One list -/

/-- From this pointer on the list has these elements. -/
def Chain (links : Links η α) : Slot η α → List α → Prop
  | slot, [] => links.read slot = none
  | slot, elm :: rest =>
      links.read slot = some elm ∧ links.prev elm = some slot ∧ links.Chain (.next elm) rest

variable {links links' : Links η α} {slot slot' : Slot η α} {elms front back : List α}
variable {elm : α} {head : η}

/-- A list depends on its own pointers only. -/
theorem Chain.congr (h : links.Chain slot elms) (hslot : links'.read slot = links.read slot)
    (hnext : ∀ elm ∈ elms, links'.next elm = links.next elm)
    (hprev : ∀ elm ∈ elms, links'.prev elm = links.prev elm) : links'.Chain slot elms := by
  induction elms generalizing slot with
  | nil => exact hslot.trans h
  | cons elm rest ih =>
      obtain ⟨hread, hpointer, hrest⟩ := h
      refine ⟨hslot.trans hread, (hprev elm List.mem_cons_self).trans hpointer, ?_⟩
      exact ih hrest (hnext elm List.mem_cons_self)
        (fun e he => hnext e (List.mem_cons_of_mem _ he))
        (fun e he => hprev e (List.mem_cons_of_mem _ he))

theorem Chain.read_eq_head? (h : links.Chain slot elms) : links.read slot = elms.head? := by
  cases elms with
  | nil => exact h
  | cons elm rest => exact h.1

/-- The list from an element on. -/
theorem Chain.drop (h : links.Chain slot (front ++ elm :: back)) :
    links.Chain (.next elm) back := by
  induction front generalizing slot with
  | nil => exact h.2.2
  | cons first front ih => exact ih h.2.2

/-- An element is where its pointer points to. -/
theorem Chain.read_prev (h : links.Chain slot elms) (helm : elm ∈ elms)
    (hprev : links.prev elm = some slot') : links.read slot' = some elm := by
  induction elms generalizing slot with
  | nil => cases helm
  | cons first rest ih =>
      rcases List.mem_cons.mp helm with rfl | helm
      · rw [h.2.1] at hprev
        cases hprev
        exact h.1
      · exact ih h.2.2 helm

/-- What a pointer of the list points to is in the list. -/
theorem Chain.mem_of_read (h : links.Chain slot elms)
    (hslot : slot' = slot ∨ ∃ e ∈ elms, slot' = .next e) (hread : links.read slot' = some elm) :
    elm ∈ elms := by
  induction elms generalizing slot with
  | nil =>
      rcases hslot with rfl | ⟨e, he, -⟩
      · rw [show links.read slot' = none from h] at hread
        cases hread
      · cases he
  | cons first rest ih =>
      rcases hslot with rfl | ⟨e, he, rfl⟩
      · rw [h.1] at hread
        cases hread
        exact List.mem_cons_self
      · refine List.mem_cons_of_mem _ (ih h.2.2 ?_)
        rcases List.mem_cons.mp he with rfl | he
        · exact .inl rfl
        · exact .inr ⟨e, he, rfl⟩

/-- Each element has a pointer to itself. -/
theorem Chain.exists_prev (h : links.Chain slot elms) (helm : elm ∈ elms) :
    ∃ slot', links.prev elm = some slot' := by
  obtain ⟨front, back, rfl⟩ := List.append_of_mem helm
  induction front generalizing slot with
  | nil => exact ⟨slot, h.2.1⟩
  | cons first front ih => exact ih h.2.2 (by simp)

/-! ## What the operations write -/

section Writes

variable [DecidableEq η] [DecidableEq α]

theorem read_write (links : Links η α) (slot slot' : Slot η α) (value : Option α) :
    (links.write slot value).read slot' = if slot' = slot then value else links.read slot' := by
  cases slot <;> cases slot' <;> simp [write, read, Function.update_apply]

@[simp] theorem prev_write (links : Links η α) (slot : Slot η α) (value : Option α) :
    (links.write slot value).prev = links.prev := by
  cases slot <;> rfl

omit [DecidableEq η] in
@[simp] theorem read_setPrevOf (links : Links η α) (elm : Option α)
    (slot : Option (Slot η α)) (slot' : Slot η α) :
    (links.setPrevOf elm slot).read slot' = links.read slot' := by
  cases elm <;> cases slot' <;> rfl

omit [DecidableEq η] in
theorem prev_setPrevOf (links : Links η α) (elm : Option α) (slot : Option (Slot η α)) (e : α) :
    (links.setPrevOf elm slot).prev e = if elm = some e then slot else links.prev e := by
  cases elm with
  | none => rfl
  | some elm => simp [setPrevOf, setPrev, Function.update_apply, eq_comm]

/-- The pointers after an insertion. -/
theorem read_insertHead (links : Links η α) (head : η) (elm : α) (slot : Slot η α) :
    (links.insertHead head elm).read slot =
      if slot = .first head then some elm
      else if slot = .next elm then links.first head else links.read slot := by
  show (((links.write (.next elm) (links.first head)).setPrevOf (links.first head)
    (some (.next elm))).write (.first head) (some elm)).read slot = _
  rw [read_write, read_setPrevOf, read_write]

theorem prev_insertHead (links : Links η α) (head : η) (elm e : α) :
    (links.insertHead head elm).prev e =
      if e = elm then some (.first head)
      else if links.first head = some e then some (.next elm) else links.prev e := by
  show Function.update ((((links.write (.next elm) (links.first head)).setPrevOf
    (links.first head) (some (.next elm))).write (.first head) (some elm)).prev) elm
      (some (.first head)) e = _
  rw [Function.update_apply, prev_write, prev_setPrevOf, prev_write]

/-- The pointers after a removal. -/
theorem read_remove (h : links.remove elm = some links') (hprev : links.prev elm = some slot)
    (hne : links.next elm ≠ some elm) (slot' : Slot η α) :
    links'.read slot' = if slot' = slot then links.next elm else links.read slot' := by
  unfold remove at h
  obtain ⟨pointer, hpointer, rfl⟩ := Option.map_eq_some_iff.mp h
  rw [prev_setPrevOf, if_neg hne, hprev] at hpointer
  cases hpointer
  rw [read_write, read_setPrevOf]
  have hnext : (links.setPrevOf (links.next elm) (links.prev elm)).next elm = links.next elm :=
    read_setPrevOf links _ _ (.next elm)
  rw [hnext]

theorem prev_remove (h : links.remove elm = some links') (e : α) :
    links'.prev e = if links.next elm = some e then links.prev elm else links.prev e := by
  unfold remove at h
  obtain ⟨pointer, hpointer, rfl⟩ := Option.map_eq_some_iff.mp h
  rw [prev_write, prev_setPrevOf]

/-- The pointers after the pointers of an element are cleared. -/
theorem read_clear (links : Links η α) (elm : α) (slot : Slot η α) :
    (links.clear elm).read slot = if slot = .next elm then none else links.read slot :=
  read_write links (.next elm) slot none

theorem prev_clear (links : Links η α) (elm e : α) :
    (links.clear elm).prev e = if e = elm then none else links.prev e := by
  show Function.update (links.write (.next elm) none).prev elm none e = _
  rw [Function.update_apply, prev_write]

/-- An element with a pointer to itself can be removed. -/
theorem exists_remove (hprev : links.prev elm = some slot) (hne : links.next elm ≠ some elm) :
    ∃ links', links.remove elm = some links' := by
  unfold remove
  dsimp only
  rw [prev_setPrevOf, if_neg hne, hprev]
  exact ⟨_, rfl⟩

end Writes

/-! ## A family of lists -/

/-- The links hold these lists, and an element is in one of them at most, once. -/
structure Holds (links : Links η α) (lists : η → List α) : Prop where
  chain : ∀ head, links.Chain (.first head) (lists head)
  nodup : ∀ head, (lists head).Nodup
  disjoint : ∀ head head' elm, elm ∈ lists head → elm ∈ lists head' → head = head'

namespace Holds

variable {lists : η → List α}

theorem first_eq (h : links.Holds lists) (head : η) :
    links.first head = (lists head).head? :=
  (h.chain head).read_eq_head?

/-- An element that is in a list is not its own successor. -/
theorem next_ne (h : links.Holds lists) (helm : elm ∈ lists head) :
    links.next elm ≠ some elm := by
  obtain ⟨front, back, hsplit⟩ := List.append_of_mem helm
  have hchain := h.chain head
  have hnodup := h.nodup head
  rw [hsplit] at hchain hnodup
  intro hself
  have hmem := List.mem_of_mem_head? (hchain.drop.read_eq_head?.symm.trans hself)
  exact (List.nodup_cons.mp hnodup.of_append_right).1 hmem

/-- **Empty links.** -/
theorem empty : (({} : Links η α)).Holds fun _ => [] where
  chain _ := rfl
  nodup _ := List.nodup_nil
  disjoint _ _ _ h := nomatch h

section Steps

variable [DecidableEq η] [DecidableEq α]

/-- **Insertion at the head.** -/
theorem insertHead (h : links.Holds lists) (head : η) (helm : ∀ head', elm ∉ lists head') :
    (links.insertHead head elm).Holds (Function.update lists head (elm :: lists head)) := by
  refine ⟨fun head' => ?_, fun head' => ?_, fun head' head'' e he he' => ?_⟩
  · by_cases hhead : head' = head
    · subst hhead
      rw [Function.update_self]
      refine ⟨by rw [read_insertHead, if_pos rfl], by rw [prev_insertHead, if_pos rfl], ?_⟩
      -- the old list hangs on the new element
      have hchain := h.chain head'
      have hfirst := h.first_eq head'
      have hnot := helm head'
      have hnodup := h.nodup head'
      cases hlist : lists head' with
      | nil =>
          rw [hlist] at hfirst
          show (links.insertHead head' elm).read (.next elm) = none
          rw [read_insertHead, if_neg nofun, if_pos rfl, hfirst]
          rfl
      | cons a rest =>
          rw [hlist] at hchain hfirst hnot hnodup
          have hne : ∀ e ∈ a :: rest, e ≠ elm := fun e he heq => hnot (heq ▸ he)
          have hkeeps : ∀ e ∈ a :: rest, (links.insertHead head' elm).next e = links.next e := by
            intro e he
            refine (read_insertHead links head' elm (.next e)).trans ?_
            rw [if_neg nofun, if_neg fun heq => hne e he (Slot.next.inj heq)]
            rfl
          refine ⟨?_, ?_, hchain.2.2.congr ?_ ?_ ?_⟩
          · rw [read_insertHead, if_neg nofun, if_pos rfl, hfirst]
            rfl
          · rw [prev_insertHead, if_neg (hne a List.mem_cons_self), hfirst]
            exact if_pos rfl
          · exact hkeeps a List.mem_cons_self
          · exact fun e he => hkeeps e (List.mem_cons_of_mem _ he)
          · intro e he
            rw [prev_insertHead, if_neg (hne e (List.mem_cons_of_mem _ he)), hfirst, if_neg]
            intro heq
            have heq : a = e := Option.some.inj heq
            exact (List.nodup_cons.mp hnodup).1 (heq ▸ he)
    · rw [Function.update_of_ne hhead]
      have hne : ∀ e ∈ lists head', e ≠ elm := fun e he heq => helm head' (heq ▸ he)
      refine (h.chain head').congr ?_ (fun e he => ?_) fun e he => ?_
      · rw [read_insertHead, if_neg fun heq => hhead (Slot.first.inj heq), if_neg nofun]
      · refine (read_insertHead links head elm (.next e)).trans ?_
        rw [if_neg nofun, if_neg fun heq => hne e he (Slot.next.inj heq)]
        rfl
      · rw [prev_insertHead, if_neg (hne e he), if_neg]
        intro hfirst
        rw [h.first_eq] at hfirst
        exact hhead (h.disjoint head' head e he (List.mem_of_mem_head? hfirst))
  · by_cases hhead : head' = head
    · subst hhead
      rw [Function.update_self]
      exact List.nodup_cons.mpr ⟨helm head', h.nodup head'⟩
    · rw [Function.update_of_ne hhead]
      exact h.nodup head'
  · -- the new element is in the one list only
    have hmem : ∀ k, e ∈ Function.update lists head (elm :: lists head) k →
        e = elm ∧ k = head ∨ e ∈ lists k := by
      intro k hk
      by_cases hkhead : k = head
      · subst hkhead
        rw [Function.update_self] at hk
        exact (List.mem_cons.mp hk).imp_left fun heq => ⟨heq, rfl⟩
      · rw [Function.update_of_ne hkhead] at hk
        exact .inr hk
    rcases hmem head' he with ⟨rfl, rfl⟩ | hin <;> rcases hmem head'' he' with ⟨heq, rfl⟩ | hin'
    · rfl
    · exact absurd hin' (helm head'')
    · exact absurd (heq ▸ hin) (helm head')
    · exact h.disjoint head' head'' e hin hin'

/-- The list closes behind an element that is removed. -/
theorem chain_remove (h : links.Chain slot (front ++ elm :: back))
    (hremove : links.remove elm = some links') (hnodup : (front ++ elm :: back).Nodup)
    (hslot : ∀ e ∈ front ++ elm :: back, slot ≠ .next e) :
    links'.Chain slot (front ++ back) := by
  -- the element, and those after it
  have hback : links.next elm = back.head? := h.drop.read_eq_head?
  have hfresh : elm ∉ back := (List.nodup_cons.mp hnodup.of_append_right).1
  have hne : links.next elm ≠ some elm := fun hself =>
    hfresh (List.mem_of_mem_head? (hback.symm.trans hself))
  obtain ⟨pointer, hpointer⟩ := h.exists_prev (List.mem_append_right _ List.mem_cons_self)
  have hread := read_remove hremove hpointer hne
  have hprev := prev_remove hremove
  induction front generalizing slot with
  | nil =>
      have hsame : pointer = slot := Option.some.inj (hpointer.symm.trans h.2.1)
      subst hsame
      have hfirst : links'.read pointer = back.head? := by rw [hread, if_pos rfl, hback]
      cases back with
      | nil => exact hfirst
      | cons a rest =>
          have hkeeps : ∀ e ∈ a :: rest, links'.next e = links.next e := by
            intro e he
            refine (hread (.next e)).trans (if_neg fun heq => ?_)
            exact hslot e (List.mem_append_right _ (List.mem_cons_of_mem _ he)) heq.symm
          refine ⟨hfirst, ?_, h.2.2.2.2.congr (hkeeps a List.mem_cons_self)
            (fun e he => hkeeps e (List.mem_cons_of_mem _ he)) fun e he => ?_⟩
          · rw [hprev, hback]
            exact (if_pos rfl).trans hpointer
          · rw [hprev, hback, if_neg]
            intro heq
            have heq : a = e := Option.some.inj heq
            have hrest := (List.nodup_cons.mp hnodup.of_append_right).2
            exact (List.nodup_cons.mp hrest).1 (heq ▸ he)
  | cons first front ih =>
      have hnodup' : (first :: (front ++ elm :: back)).Nodup := hnodup
      obtain ⟨hnot, hnodup'⟩ := List.nodup_cons.mp hnodup'
      have helm : first ≠ elm := fun heq => hnot (heq ▸ by simp)
      refine ⟨?_, ?_, ih h.2.2 hnodup' fun e he heq => hnot (Slot.next.inj heq ▸ he)⟩
      · rw [hread, if_neg fun heq => ?_]
        · exact h.1
        · -- the pointer to the first element is not the one to the element
          have helm' := h.read_prev (List.mem_append_right _ List.mem_cons_self) hpointer
          rw [← heq, h.1] at helm'
          exact helm (Option.some.inj helm')
      · rw [hprev, hback, if_neg]
        · exact h.2.1
        · intro hhead
          exact hnot (List.mem_append_right _ (List.mem_cons_of_mem _
            (List.mem_of_mem_head? hhead)))

omit [DecidableEq α] in
/-- An element of a list that got shorter. -/
theorem mem_of_mem_update {shorter : List α} (hshorter : shorter ⊆ lists head) {head' : η}
    (h : elm ∈ Function.update lists head shorter head') : elm ∈ lists head' := by
  by_cases hhead : head' = head
  · subst hhead
    rw [Function.update_self] at h
    exact hshorter h
  · rwa [Function.update_of_ne hhead] at h

/-- **Removal.** -/
theorem remove (h : links.Holds lists) (helm : elm ∈ lists head) :
    ∃ links', links.remove elm = some links' ∧
      links'.Holds (Function.update lists head ((lists head).erase elm)) := by
  obtain ⟨pointer, hpointer⟩ := (h.chain head).exists_prev helm
  have hne := h.next_ne helm
  obtain ⟨links', hremove⟩ := exists_remove hpointer hne
  have hread := read_remove hremove hpointer hne
  have hprev := prev_remove hremove
  refine ⟨links', hremove, fun head' => ?_, fun head' => ?_, fun head' head'' e he he' => ?_⟩
  · by_cases hhead : head' = head
    · subst hhead
      rw [Function.update_self]
      obtain ⟨front, back, hsplit⟩ := List.append_of_mem helm
      have hchain := h.chain head'
      have hnodup := h.nodup head'
      rw [hsplit] at hchain hnodup
      have hnot : elm ∉ front := fun hin =>
        (List.disjoint_of_nodup_append hnodup) hin List.mem_cons_self
      rw [hsplit, List.erase_append_right _ hnot, List.erase_cons_head]
      exact chain_remove hchain hremove hnodup fun e he => nofun
    · rw [Function.update_of_ne hhead]
      -- the pointers that change are those of the list of the element
      have hother : elm ∉ lists head' := fun hin => hhead (h.disjoint head' head elm hin helm)
      have hpoints := (h.chain head).read_prev helm hpointer
      have hslot : ∀ slot, (slot = .first head' ∨ ∃ e ∈ lists head', slot = .next e) →
          links'.read slot = links.read slot := by
        intro slot hslot
        rw [hread, if_neg]
        rintro rfl
        exact hother ((h.chain head').mem_of_read hslot hpoints)
      refine (h.chain head').congr (hslot _ (.inl rfl)) (fun e he => ?_) fun e he => ?_
      · exact hslot (.next e) (.inr ⟨e, he, rfl⟩)
      · rw [hprev, if_neg]
        intro hnext
        have hin := (h.chain head).mem_of_read (.inr ⟨elm, helm, rfl⟩) hnext
        exact hhead (h.disjoint head' head e he hin)
  · by_cases hhead : head' = head
    · subst hhead
      rw [Function.update_self]
      exact (h.nodup head').erase elm
    · rw [Function.update_of_ne hhead]
      exact h.nodup head'
  · have hshorter : (lists head).erase elm ⊆ lists head := List.erase_subset
    exact h.disjoint head' head'' e (mem_of_mem_update hshorter he) (mem_of_mem_update hshorter he')

/-- **Clearing the pointers of an element in no list.** -/
theorem clear (h : links.Holds lists) (helm : ∀ head, elm ∉ lists head) :
    (links.clear elm).Holds lists := by
  refine ⟨fun head => (h.chain head).congr ?_ (fun e he => ?_) fun e he => ?_, h.nodup,
    h.disjoint⟩
  · rw [read_clear, if_neg nofun]
  · refine (read_clear links elm (.next e)).trans (if_neg fun heq => ?_)
    exact helm head (Slot.next.inj heq ▸ he)
  · rw [prev_clear, if_neg fun heq : e = elm => helm head (heq ▸ he)]

/-- **Emptying a list.** -/
theorem init (h : links.Holds lists) (head : η) :
    (links.init head).Holds (Function.update lists head []) := by
  have hread : ∀ slot, (links.init head).read slot =
      if slot = .first head then none else links.read slot := fun slot =>
    read_write links (.first head) slot none
  refine ⟨fun head' => ?_, fun head' => ?_, fun head' head'' e he he' => ?_⟩
  · by_cases hhead : head' = head
    · subst hhead
      rw [Function.update_self]
      exact (hread _).trans (if_pos rfl)
    · rw [Function.update_of_ne hhead]
      refine (h.chain head').congr ?_ (fun e he => ?_) fun e he => rfl
      · rw [hread, if_neg fun heq => hhead (Slot.first.inj heq)]
      · exact (hread (.next e)).trans (if_neg nofun)
  · by_cases hhead : head' = head
    · subst hhead
      rw [Function.update_self]
      exact List.nodup_nil
    · rw [Function.update_of_ne hhead]
      exact h.nodup head'
  · have hshorter : [] ⊆ lists head := List.nil_subset _
    exact h.disjoint head' head'' e (mem_of_mem_update hshorter he) (mem_of_mem_update hshorter he')

end Steps

end Holds

end Links

end Queue
