/-!
# Pools

A pool lends values to work with. What has been given back may be lent again, and then it still
holds what the last holder has left in it. Which value is lent, and whether a new one is made
instead, is for a keeper to decide, who knows the values by their numbers.

* `Keeper`; `Keeper.stack`: the keeper who lends what has been given back last.
* `Keeper.Reaches`: what may have been lent and given back; `Keeper.Exclusive`: nothing is lent to
  two holders at once.
* `Pool`, with `Pool.lend`, `Pool.write` and `Pool.giveBack`; `Pool.use`: all three in one.
-/

namespace Lockstep

/-- Decides which values of a pool are lent. -/
structure Keeper where
  State : Type
  /-- Before anything has been lent. -/
  initial : State
  /-- The number of the value to be lent next, and the state after it has been lent. -/
  lend : State → Nat × State
  /-- The state after the value with a number has been given back. -/
  giveBack : Nat → State → State

namespace Keeper

/-- Lends what has been given back last, or else a new value. The state holds the number of values
that have been made, and the numbers of those that are not lent. -/
def stack : Keeper where
  State := Nat × List Nat
  initial := (0, [])
  lend
    | (made, []) => (made, made + 1, [])
    | (made, number :: idle) => (number, made, idle)
  giveBack number s := (s.1, number :: s.2)

/-- The states of a keeper and the numbers that are lent then, latest first, when only what is lent
is given back. -/
inductive Reaches (K : Keeper) : K.State → List Nat → Prop
  | initial : Reaches K K.initial []
  | lend {s out} : Reaches K s out → Reaches K (K.lend s).2 ((K.lend s).1 :: out)
  | giveBack {s out number} : Reaches K s out → number ∈ out →
    Reaches K (K.giveBack number s) (out.erase number)

/-- What is lent is not lent already. -/
def Exclusive (K : Keeper) : Prop := ∀ s out, K.Reaches s out → (K.lend s).1 ∉ out

end Keeper

/-- Values that can be lent. -/
structure Pool (K : Keeper) (α : Type) where
  keeper : K.State
  /-- What has been left in the value with a number. -/
  values : Nat → α

namespace Pool

variable {K : Keeper} {α β : Type}

/-- A pool that makes all its values alike. -/
def new (K : Keeper) (a : α) : Pool K α := ⟨K.initial, fun _ => a⟩

/-- Lends a value. -/
def lend (p : Pool K α) : Nat × Pool K α :=
  let (number, keeper) := K.lend p.keeper
  (number, { p with keeper := keeper })

/-- Leaves `a` in the value with a number. -/
def write (p : Pool K α) (number : Nat) (a : α) : Pool K α :=
  { p with values := fun n => if n = number then a else p.values n }

@[simp] theorem values_write_self (p : Pool K α) (number : Nat) (a : α) :
    (p.write number a).values number = a := if_pos rfl

/-- The other values are left as they are. -/
theorem values_write_of_ne (p : Pool K α) {n number : Nat} (h : n ≠ number) (a : α) :
    (p.write number a).values n = p.values n := if_neg h

/-- Takes a value back. -/
def giveBack (p : Pool K α) (number : Nat) : Pool K α :=
  { p with keeper := K.giveBack number p.keeper }

/-- Lends a value to a computation, and takes back what that makes of it. -/
def use (p : Pool K α) (f : α → β × α) : β × Pool K α :=
  let (number, p) := p.lend
  let (b, a) := f (p.values number)
  (b, (p.write number a).giveBack number)

end Pool

end Lockstep
