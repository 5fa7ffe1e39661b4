import Mathlib.Logic.Relation

/-!
Machines that go step by step. A step leads to one next state or stops with a
result, so all that is reached lies on the way to the stop.
-/

namespace PascalCasl

inductive Progress (State Result : Type) where
  | further (next : State)
  | stopped (result : Result)

variable {State Result : Type} {step : State → Progress State Result}

def Leads (step : State → Progress State Result) (state next : State) : Prop :=
  step state = .further next

def Arrives (step : State → Progress State Result) : State → State → Prop :=
  Relation.ReflTransGen (Leads step)

theorem Arrives.of_further {state next : State} (moved : step state = .further next) :
    Arrives step state next :=
  Relation.ReflTransGen.single moved

theorem Arrives.trans {start middle last : State} (first : Arrives step start middle)
    (second : Arrives step middle last) : Arrives step start last :=
  Relation.ReflTransGen.trans first second

end PascalCasl
