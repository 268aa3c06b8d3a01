import TinyScript.Run.Error
import TinyScript.Run.Value
import TinyScript.Scope

/-!
# The state of a run

A `Machine` is what a run reads and changes: the scope it is in, the store of lists, the sink that
takes what is printed, the number of calls under way, and the notices given. A `Run` acts on a
machine. It ends with a value, with a failure, by breaking off where a scale leaves 64 bits, or,
because loops are only given so many rounds, without an answer; the machine is there in every case,
so what was printed and assigned before a failure stays.
-/

namespace TinyScript

/-! ## Sinks -/

/-- Where printed text goes. Of a text that is written to it a sink takes the part in front that it
has room for: so many characters, depending on what it holds and on the text. -/
structure Sink where
  text : String
  room : String → String → Nat

namespace Sink

/-- The sink that takes everything. -/
def unlimited : Sink := ⟨"", fun _ offered => offered.length⟩

/-- The number of lines that a text ends. -/
def lineCount (text : String) : Nat := text.toList.count '\n'

/-- The sink that takes text until it holds so many lines. -/
def limited (lines : Nat) : Sink :=
  ⟨"", fun held offered => if lines ≤ lineCount held then 0 else offered.length⟩

/-- The part of a text that a sink has room for. -/
def fitting (sink : Sink) (text : String) : String :=
  String.ofList (text.toList.take (sink.room sink.text text))

/-- A sink behind a text, of which it holds what it had room for. -/
def write (sink : Sink) (text : String) : Sink :=
  { sink with text := sink.text ++ sink.fitting text }

/-- Whether a sink refuses a text, having no room for all of it. There is always room for no text at
all. -/
def refuses (sink : Sink) (text : String) : Bool := sink.room sink.text text < text.length

theorem write_of_taken {sink : Sink} {text : String} (h : sink.refuses text = false) :
    sink.write text = { sink with text := sink.text ++ text } := by
  have hfits : text.toList.length ≤ sink.room sink.text text := by
    rw [String.length_toList]
    exact Nat.not_lt.mp (of_decide_eq_false h)
  rw [write, fitting, List.take_of_length_le hfits, String.ofList_toList]

/-- A sink that takes every text. -/
def IsOpen (sink : Sink) : Prop := ∀ held offered, offered.length ≤ sink.room held offered

theorem isOpen_unlimited : unlimited.IsOpen := fun _ _ => Nat.le_refl _

namespace IsOpen

variable {sink : Sink}

theorem refuses (h : sink.IsOpen) (text : String) : sink.refuses text = false :=
  decide_eq_false (Nat.not_lt.mpr (h sink.text text))

theorem write (h : sink.IsOpen) (text : String) :
    sink.write text = { sink with text := sink.text ++ text } :=
  write_of_taken (h.refuses text)

end IsOpen

end Sink

/-! ## Machines -/

/-- A variable with what it holds. -/
structure Variable where
  isMutable : Bool
  value : Value
deriving DecidableEq, Repr, Inhabited

/-- What a call can invoke. -/
inductive Callable where
  /-- A function of a program, inside the scope that binds it. -/
  | function (function : Function)
  /-- The function that prints its arguments. -/
  | print
deriving Inhabited

/-- The scope of a run. -/
abbrev RunScope := Scope Variable Callable

/-- What a run tells a host on its way. -/
inductive RunNotice where
  | starting (globals functions : Nat)
  | call (function : String) (arity : Nat)
deriving DecidableEq, Repr

/-- The state of a run. -/
structure Machine where
  scope : RunScope
  lists : Lists
  sink : Sink
  /-- The number of calls of functions of the program that are under way. -/
  active : Nat
  /-- The notices given, latest first. -/
  notices : List RunNotice

/-- The scope that holds only what every program can call. -/
def RunScope.initial : RunScope := .root (Frame.empty.addFunction "print" 1 .print)

/-- A machine that has not run, with a sink. -/
def Machine.initial (sink : Sink) : Machine := ⟨.initial, .empty, sink, 0, []⟩

/-! ## Runs -/

/-- How a run ends without a value. -/
inductive Halt where
  | failed (error : RuntimeError)
  /-- A scale has left 64 bits. This is no failure that a run reports: the run breaks off. -/
  | scaleOverflow
  /-- A loop had more rounds than it was given. -/
  | outOfFuel
deriving DecidableEq, Repr

/-- Acts on a machine. -/
abbrev Run (α : Type) := EStateM Halt Machine α

namespace Run

/-- Fails. -/
def fail {α : Type} (error : RuntimeError) : Run α := fun machine =>
  .error (.failed error) machine

/-- Goes on with the result of a computation that may fail. -/
def ofExcept {α : Type} : Except RuntimeError α → Run α
  | .ok value => fun machine => .ok value machine
  | .error error => fail error

/-- Gives a notice. -/
def notify (notice : RunNotice) : Run Unit := fun machine =>
  .ok () { machine with notices := notice :: machine.notices }

/-- Prints a text. What the sink has room for is printed even if it refuses the text. -/
def print (text : String) : Run Unit := fun machine =>
  let after := { machine with sink := machine.sink.write text }
  if machine.sink.refuses text then fail .printRefused after else .ok () after

/-- Prints texts one behind the other. -/
def printEach : List String → Run Unit
  | [] => return ()
  | text :: texts => do
    print text
    printEach texts

/-- Prints a text piece by piece and then, separately, the end of its line. -/
def printLine (pieces : List String) : Run Unit := do
  printEach pieces
  print "\n"

/-- The innermost variable of a name. -/
def variableNamed (name : String) : Run Variable := fun machine =>
  match machine.scope.lookupVariable name with
  | some found => .ok found machine
  | none => fail (.undeclared name) machine

/-- Binds a variable in the innermost frame. -/
def define (name : String) (isMutable : Bool) (value : Value) : Run Unit := fun machine =>
  match machine.scope.defineVariable? name ⟨isMutable, value⟩ with
  | some scope => .ok () { machine with scope }
  | none => fail (.variableRedefined name) machine

/-- Makes the innermost variable of a name, which is mutable, hold a value. -/
def assign (name : String) (value : Value) : Run Unit := fun machine =>
  .ok () { machine with scope := machine.scope.setVariable name ⟨true, value⟩ }

/-- Makes a new list. -/
def newList (values : List Value) : Run Value := fun machine =>
  .ok (.list machine.lists.next) { machine with lists := machine.lists.add values.toArray }

/-- What a list holds. -/
def itemsOf (id : ListId) : Run (Array Value) := fun machine => .ok (machine.lists.items id) machine

/-- Puts a value into a slot of a list. -/
def put (id : ListId) (slot : Nat) (value : Value) : Run Unit := fun machine =>
  .ok () { machine with lists := machine.lists.put id slot value }

/-- The pieces of the text of a value. -/
def piecesOf (value : Value) : Run (List String) := fun machine =>
  .ok (machine.lists.pieces value) machine

/-! ## Acting inside a frame -/

/-- Acts in a frame inside the current one, which is gone behind it. -/
def inBlock {α : Type} (action : Run α) : Run α := fun machine =>
  match action { machine with scope := machine.scope.enter } with
  | .ok value after => .ok value { after with scope := after.scope.leave }
  | .error halt after => .error halt { after with scope := after.scope.leave }

/-- Acts in a frame inside another scope, which is the outer part of the current one. Behind it
the current scope is back, its outer part as the action has left it. -/
def inCallee {α : Type} (home : RunScope) (action : Run α) : Run α := fun machine =>
  match action { machine with scope := home.enter } with
  | .ok value after => .ok value { after with scope := machine.scope.regrow after.scope.leave }
  | .error halt after => .error halt { after with scope := machine.scope.regrow after.scope.leave }

/-- Acts in a scope of its own. Behind it the current scope is back. -/
def inScope {α : Type} (scope : RunScope) (action : Run α) : Run α := fun machine =>
  match action { machine with scope } with
  | .ok value after => .ok value { after with scope := machine.scope }
  | .error halt after => .error halt { after with scope := machine.scope }

/-- Counts a call as under way while acting. -/
def counted {α : Type} (action : Run α) : Run α := fun machine =>
  match action { machine with active := machine.active + 1 } with
  | .ok value after => .ok value { after with active := machine.active }
  | .error halt after => .error halt { after with active := machine.active }

end Run

end TinyScript
