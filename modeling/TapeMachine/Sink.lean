/-!
# Sinks

A sink takes text. It keeps all that was written, or refuses everything.
-/

namespace TapeMachine

/-- A place to write to. -/
structure Sink where
  written : String := ""
  /-- How every write fails, if it does. -/
  failure : Option String := none

namespace Sink

/-- Adds a text behind what was written before. -/
def write (sink : Sink) (text : String) : Sink :=
  match sink with
  | ⟨written, failure⟩ => ⟨written ++ text, failure⟩

/-- Writes a text, unless the sink refuses it. -/
def put (sink : Sink) (text : String) : Except String Sink :=
  match sink.failure with
  | some failure => .error failure
  | none => .ok (sink.write text)

end Sink

end TapeMachine
