import TinyScript.Tree

/-!
# Sites

A site says where in a program a part of it stands. Checker and evaluator go through a program in
their own orders; what the one finds at a part is held against what the other does there by the
site that both give to it.
-/

namespace TinyScript

/-- A top-level part of a program. -/
inductive Owner where
  | global (name : String)
  | function (name : String) (arity : Nat)
deriving DecidableEq, Repr

/-- Where in a program a part stands: in which top-level part, and which parts lead to it, the
innermost first. -/
structure Site where
  owner : Owner
  place : List Nat
deriving DecidableEq, Repr

namespace Site

/-- The site of a part of what stands at a site. -/
def part (site : Site) (number : Nat) : Site := { site with place := number :: site.place }

/-- The site of the initial value of a global. -/
def initial (name : String) : Site := ⟨.global name, []⟩

/-- The site of the body of a function. -/
def body (name : String) (arity : Nat) : Site := ⟨.function name arity, []⟩

end Site

end TinyScript
