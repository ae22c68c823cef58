import Dispatch.Value

/-!
# Requests

A request to dispatch as a value: which member of which receiver, with which arguments.
-/

namespace Dispatch

/-- A request to dispatch. -/
inductive Request
  /-- Call what the name stands for on the receiver. -/
  | call (receiver : Value) (name : String) (args : List Value)
  /-- Construct the type imported under a simple name. -/
  | construct (simple : String) (args : List Value)
  | getField (receiver : Value) (name : String)
  /-- Read the nested type of the name or, if there is none, the field. -/
  | getFieldOrNested (receiver : Value) (name : String)
  | setField (receiver : Value) (name : String) (value : Value)

/-- A type stands for itself in a description, any other receiver for its type. -/
def Value.receiverLabel : Value → String
  | .type t => t.full
  | v => v.label

/-- A short description: the kind of request, the receiver, the name and the number of
arguments. -/
def Request.describe : Request → String
  | call receiver name args =>
    "call:" ++ receiver.receiverLabel ++ "." ++ name ++ "/" ++ toString args.length
  | construct simple args => "new:" ++ simple ++ "/" ++ toString args.length
  | getField receiver name => "get:" ++ receiver.receiverLabel ++ "." ++ name
  | getFieldOrNested receiver name => "get_or_nested:" ++ receiver.receiverLabel ++ "." ++ name
  | setField receiver name _ => "set:" ++ receiver.receiverLabel ++ "." ++ name

end Dispatch
