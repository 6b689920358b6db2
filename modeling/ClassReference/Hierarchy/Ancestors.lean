import ClassReference.Entity

/-!
# Ancestors

In a list of classes each class may point to its parent by position. Following the parents of a
class either ends at a class without one, and the classes on the way are its ancestors, or it comes
back to a class that was visited before, and the parents run in a cycle.
-/

namespace ClassReference

/-- Parents that run in a cycle: the names on the way from a class up to and including the first
that was visited before. -/
structure Cycle where
  /-- The names on the way. -/
  chain : List String
deriving DecidableEq, Repr

/-- What is said about a cycle. -/
def Cycle.message (c : Cycle) : String :=
  "Cyclic inheritance: " ++ String.intercalate " -> " c.chain

namespace Hierarchy

/-- The parent of the class at a position. -/
def parentAt (arena : List ClassEntry) (i : Nat) : Option Nat :=
  arena[i]?.bind (·.parentIndex)

/-- The names of the classes at the given positions. -/
def namesAt (arena : List ClassEntry) (positions : List Nat) : List String :=
  positions.filterMap fun i => arena[i]?.map (·.name.full)

/-- Follows parents from `next`, after the ancestors `chain` of the class at `start`. It fails with
the positions on the way, up to and including the first that was visited before. -/
def climb {α : Type} [DecidableEq α] (parentOf : α → Option α) (start : α) :
    (steps : Nat) → (chain : List α) → (next : Option α) → Except (List α) (List α)
  | _, chain, none => .ok chain
  | 0, chain, some _ => .ok chain
  | steps + 1, chain, some p =>
    if p = start ∨ p ∈ chain then
      .error (start :: chain ++ [p])
    else
      climb parentOf start steps (chain ++ [p]) (parentOf p)

/-- The positions of the ancestors of the class at `i`, its parent first. A position at which there
is no class ends them. The number of classes bounds the number of steps, as no position is visited
twice. -/
def ancestors (arena : List ClassEntry) (i : Nat) : Except Cycle (List Nat) :=
  (climb (parentAt arena) i arena.length [] (parentAt arena i)).mapError fun visited =>
    ⟨namesAt arena visited⟩

/-- A class in a list whose parent positions are not known to be in it. -/
structure Listed where
  /-- The name of the class. -/
  name : String
  /-- Where the parent stands in the list, counted from its end if negative. -/
  parent : Option Int := none
deriving DecidableEq, Repr

/-- The class at a position, which counts from the end of the list if it is negative. -/
def listedAt (list : List Listed) (position : Int) : Option Listed :=
  let p := if position < 0 then position + list.length else position
  if p < 0 then none else list[p.toNat]?

/-- Why the ancestors of a class cannot be told. -/
inductive AncestorError where
  /-- The parents run in a cycle. -/
  | cycle (c : Cycle)
  /-- A parent is said to be at a position at which there is no class. -/
  | missing (position : Int)
deriving DecidableEq, Repr

/-- The positions of the ancestors of the class at `i`, its parent first, as the list gives them.
Each class stands at two positions, one from either end, and that bounds the number of steps. -/
def listedAncestors (list : List Listed) (i : Int) : Except AncestorError (List Int) :=
  let parentOf := fun p => (listedAt list p).bind (·.parent)
  match climb parentOf i (2 * list.length) [] (parentOf i) with
  | .error visited => .error (.cycle ⟨visited.filterMap fun p => (listedAt list p).map (·.name)⟩)
  | .ok chain =>
    match chain.find? fun p => (listedAt list p).isNone with
    | some position => .error (.missing position)
    | none => .ok chain

end Hierarchy

end ClassReference
