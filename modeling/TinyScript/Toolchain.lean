import TinyScript.Json.Read
import TinyScript.Json.Write
import TinyScript.Parse.Program
import TinyScript.Run.Program
import TinyScript.Token.Split
import TinyScript.Tree.Decode
import TinyScript.Typing.Program

/-!
# From text to result

A program in text is cut into words, read into a tree, checked, and run. Each stage has failures
of its own; `Failure` is any of them.
-/

namespace TinyScript

/-- What can go wrong between a text and its result. -/
inductive Failure where
  | syntaxError (error : SyntaxError)
  | typeError (error : TypeError)
  | runtimeError (error : RuntimeError)
deriving DecidableEq, Repr

/-- The wording of a failure, which tells the stage. -/
def Failure.text : Failure → String
  | syntaxError error => s!"syntax error: {error.text}"
  | typeError error => s!"type error: {error.message}"
  | runtimeError error => s!"runtime error: {error.message}"

/-- How running a program ends. -/
inductive Outcome where
  | finished (result : Int)
  | failed (failure : Failure)
  /-- The run broke off where a scale left 64 bits. -/
  | scaleOverflow
  /-- A loop had more rounds than it was given. -/
  | outOfFuel
deriving DecidableEq, Repr

/-- Reads and checks a program in words. -/
def compile (settings : Typing.Settings) (tokens : List Token) : Except Failure Program :=
  match Program.parse tokens with
  | .error error => .error (.syntaxError error)
  | .ok program =>
    match program.check settings with
    | .error error => .error (.typeError error)
    | .ok annotated => .ok annotated

/-- Runs a program on a machine. -/
def Program.execute (settings : RunSettings) (fuel : Nat) (program : Program)
    (machine : Machine) : Outcome × Machine :=
  match program.run settings fuel machine with
  | .ok result machine => (.finished result, machine)
  | .error (.failed error) machine => (.failed (.runtimeError error), machine)
  | .error .scaleOverflow machine => (.scaleOverflow, machine)
  | .error .outOfFuel machine => (.outOfFuel, machine)

/-- Compiles and runs a program in text, and gives what it printed. -/
def runText (fuel : Nat) (source : String) (sink : Sink) : Outcome × Sink :=
  match compile default (Token.split source) with
  | .error failure => (.failed failure, sink)
  | .ok program =>
    let (outcome, machine) := program.execute default fuel (Machine.initial sink)
    (outcome, machine.sink)

/-- The text of an annotated tree, for tools that go on from it. -/
def Program.jsonText (program : Program) : String := program.toJson.pretty

/-- The tree that a text stands for, if it keeps to a limit on nesting. -/
def Program.ofJsonText? (limit : Nat) (text : String) : Option Program :=
  (Json.read? text).bind (Program.ofJson? limit)

end TinyScript
