import Trellis.Output.Expression

/-!
Signals: named values that an expression defines or that events update.
-/

namespace Trellis

/-- What sets a handler off. -/
inductive Trigger where
  | events (stream : String)
  | signal (name : String)
  | anyOf (signals : List String)
deriving DecidableEq, Repr, Inhabited

structure Handler where
  trigger : Trigger
  update : Expression
  /-- Passes the value on even if it has not changed. -/
  force : Bool
deriving Inhabited

structure Signal where
  name : String
  value : Option Json
  update : Option Expression
  handlers : List Handler
deriving Inhabited

def signalRef (name : String) : Json := .object [("signal", .str name)]

def Trigger.toJson : Trigger → Json
  | events stream => .str stream
  | signal name => signalRef name
  | anyOf signals => .arr (signals.map signalRef)

def Handler.toJson (h : Handler) : Json :=
  .object ([("events", h.trigger.toJson), ("update", .str h.update.text)] ++
    if h.force then [("force", .bool true)] else [])

namespace Signal

/-- A signal that always has the value of an expression. -/
def computed (name : String) (update : Expression) : Signal := ⟨name, none, some update, []⟩

/-- A signal that events or other signals change. -/
def reactive (name : String) (value : Option Json) (handlers : List Handler) : Signal :=
  ⟨name, value, none, handlers⟩

def toJson (s : Signal) : Json :=
  .object ([("name", .str s.name)] ++ Json.optional "value" id s.value ++
    Json.optional "update" (fun e => .str e.text) s.update ++
    Json.unlessEmpty "on" Handler.toJson s.handlers)

end Signal
end Trellis
