import DataBinding.Script.Op

/-!
Running a script: one step after the other on the same world. A step that is broken off leaves the
world and the names as they were at that moment, and the next step goes on from there.
-/
namespace DataBinding.Script

/-- A script: its steps, and what to show after each of them. -/
structure Lines where
  steps : List Op
  views : Option (List View)

/-- What is reported of one step. -/
structure Report where
  answer : Answer
  /-- What callbacks recorded, in order. -/
  events : List Event
  /-- The views, if the script asks for any. -/
  views : Option (List Answer)

/-- The state of a script between two steps. -/
abbrev State := Machine Session

/-- The state before the first step. -/
def initial : State := { host := {} }

/-- The session at the beginning of a step. -/
def Session.fresh (s : Session) : Session :=
  { s with log := [], collected := [], answer := none }

/-- The program of one step. -/
def Op.toProgram (op : Op) : Program Session :=
  program (op.script .undefined) fun answer => .keep (fun s => { s with answer := some answer }) .done

/-- The result of a step, if the machine came to its end. -/
def outcome (m : State) : Answer :=
  match m.failure with
  | some f => .error (.failure f)
  | none => m.host.answer.getD (.error .unfinished)

/-- Runs one step. -/
def runStep (bound : Nat) (views : Option (List View)) (m : State) (op : Op) : State × Report :=
  let m := ({ m with host := m.host.fresh }.start op.toProgram).run bound
  (m, ⟨outcome m, m.host.log.reverse, views.map (·.map (m.host.view m.world))⟩)

/-- The reports of the steps, carried out in order. -/
def runSteps (bound : Nat) (views : Option (List View)) (m : State) : List Op → List Report
  | [] => []
  | op :: rest =>
    let (m, report) := runStep bound views m op
    report :: runSteps bound views m rest

/-- The reports of a script whose steps may each take `bound` steps of the machine. -/
def Lines.run (bound : Nat) (script : Lines) : List Report :=
  runSteps bound script.views initial script.steps

end DataBinding.Script
