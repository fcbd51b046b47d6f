import Mathlib.Logic.Function.Basic

/-!
# Assignments over a store with undefined variables

An expression over a store in which a variable may be undefined.  An operator fails
if an operand is undefined, or for a reason of its own; a variable alone may be
copied undefined.  An assignment may be guarded: it does nothing if the variable of
the guard is defined.

What an assignment comes to depends only on the variables that it uses in a store,
and these can be told from the store.

## Main results

* `Expr.rvalue_eq_of_undefined`: an undefined variable makes an expression fail.
* `Statement.result_congr`: a statement depends on the variables it uses.
-/

namespace Assignment

universe u v w

variable {Name : Type u} {Op : Type v} {Value : Type w}

/-- Expressions over variables, with operators that may fail. -/
inductive Expr (Name : Type u) (Op : Type v) (Value : Type w) where
  | const (val : Value)
  | var (name : Name)
  | binary (op : Op) (left right : Expr Name Op Value)

namespace Expr

/-- The variables of an expression. -/
def vars : Expr Name Op Value → List Name
  | const _ => []
  | var name => [name]
  | binary _ left right => left.vars ++ right.vars

/-- The value of an expression as an operand, unless it fails. -/
def operand (apply : Op → Value → Value → Option Value) (store : Name → Option Value) :
    Expr Name Op Value → Option Value
  | const val => some val
  | var name => store name
  | binary op left right =>
      match left.operand apply store, right.operand apply store with
      | some a, some b => apply op a b
      | _, _ => none

/-- What an expression gives to a variable, unless it fails. -/
def rvalue (apply : Op → Value → Value → Option Value) (store : Name → Option Value) :
    Expr Name Op Value → Option (Option Value)
  | var name => some (store name)
  | expr => (expr.operand apply store).map some

variable {apply : Op → Value → Value → Option Value} {store other : Name → Option Value}

/-- The value depends only on the variables of the expression. -/
theorem operand_congr (expr : Expr Name Op Value)
    (h : ∀ name ∈ expr.vars, store name = other name) :
    expr.operand apply store = expr.operand apply other := by
  induction expr with
  | const val => rfl
  | var name => exact h name List.mem_cons_self
  | binary op left right ihleft ihright =>
      rw [operand, operand, ihleft fun name hname => h name (List.mem_append_left _ hname),
        ihright fun name hname => h name (List.mem_append_right _ hname)]

/-- An expression with an undefined variable has no value. -/
theorem operand_eq_none (expr : Expr Name Op Value) {name : Name} (hname : name ∈ expr.vars)
    (hstore : store name = none) : expr.operand apply store = none := by
  induction expr with
  | const val => cases hname
  | var other =>
      rw [vars, List.mem_singleton] at hname
      rw [operand, ← hname, hstore]
  | binary op left right ihleft ihright =>
      rcases List.mem_append.mp hname with hleft | hright
      · rw [operand, ihleft hleft]
      · rw [operand, ihright hright]
        cases left.operand apply store <;> rfl

theorem rvalue_congr (expr : Expr Name Op Value)
    (h : ∀ name ∈ expr.vars, store name = other name) :
    expr.rvalue apply store = expr.rvalue apply other := by
  cases expr with
  | const val => rfl
  | var name => rw [rvalue, rvalue, h name List.mem_cons_self]
  | binary op left right => rw [rvalue, rvalue, operand_congr _ h] <;> exact nofun

/-- With the same variable undefined, an expression gives the same in both stores. -/
theorem rvalue_eq_of_undefined (expr : Expr Name Op Value) {name : Name}
    (hname : name ∈ expr.vars) (hstore : store name = none) (hother : other name = none) :
    expr.rvalue apply store = expr.rvalue apply other := by
  cases expr with
  | const val => cases hname
  | var only =>
      rw [vars, List.mem_singleton] at hname
      rw [rvalue, rvalue, ← hname, hstore, hother]
  | binary op left right =>
      rw [rvalue, rvalue, operand_eq_none _ hname hstore, operand_eq_none _ hname hother] <;>
        exact nofun

end Expr

/-- An assignment, with the variable that must not be defined. -/
structure Statement (Name : Type u) (Op : Type v) (Value : Type w) where
  lval : Name
  guard : Option Name := none
  expr : Expr Name Op Value

namespace Statement

variable (apply : Op → Value → Value → Option Value) (store : Name → Option Value)
variable (stmt : Statement Name Op Value)

/-- The guard keeps the assignment from being made. -/
def blocked : Bool := stmt.guard.any fun name => (store name).isSome

/-- What the variable holds after the statement, unless the statement fails. -/
def result : Option (Option Value) :=
  if stmt.blocked store then some (store stmt.lval) else stmt.expr.rvalue apply store

/-- The variables on which the result depends: the guard, and then the variable itself
if it is left alone, or else the undefined variables of the expression, or all its
variables if they are defined. -/
def uses : List Name :=
  stmt.guard.toList ++
    if stmt.blocked store then [stmt.lval]
    else if stmt.expr.vars.all fun name => (store name).isSome then stmt.expr.vars
    else stmt.expr.vars.filter fun name => (store name).isNone

variable {apply store stmt} {other : Name → Option Value}

/-- **The result depends only on the variables that the statement uses.** -/
theorem result_congr (h : ∀ name ∈ stmt.uses store, store name = other name) :
    stmt.result apply store = stmt.result apply other := by
  have hguard : ∀ name ∈ stmt.guard, store name = other name := by
    intro name hname
    exact h name (List.mem_append_left _ (Option.mem_toList.mpr hname))
  have hblocked : stmt.blocked store = stmt.blocked other := by
    unfold blocked
    cases hcase : stmt.guard with
    | none => rfl
    | some name =>
        rw [Option.any_some, Option.any_some, hguard name hcase]
  have hrest := fun name hname => h name (List.mem_append_right _ hname)
  rw [result, result, ← hblocked]
  by_cases hset : stmt.blocked store = true
  · rw [if_pos hset] at hrest
    rw [if_pos hset, if_pos hset, hrest _ List.mem_cons_self]
  · rw [if_neg hset] at hrest
    rw [if_neg hset, if_neg hset]
    by_cases hdefined : (stmt.expr.vars.all fun name => (store name).isSome) = true
    · rw [if_pos hdefined] at hrest
      exact Expr.rvalue_congr _ hrest
    · rw [if_neg hdefined] at hrest
      -- an undefined variable is undefined in both stores
      rw [List.all_eq_true, not_forall] at hdefined
      obtain ⟨name, hdefined⟩ := hdefined
      obtain ⟨hname, hundefined⟩ := Classical.not_imp.mp hdefined
      have hnone : store name = none := by simpa using hundefined
      have hother : other name = none := by
        rw [← hrest name (List.mem_filter.mpr ⟨hname, by simp [hnone]⟩)]
        exact hnone
      exact Expr.rvalue_eq_of_undefined _ hname hnone hother

end Statement

end Assignment
