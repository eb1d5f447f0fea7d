import EventHub.Error
/-!
# Recorders

A writer that keeps the frames, takes a fixed time for each one and can be told to fail.
-/

namespace EventHub

structure Recorder where
  /-- How long each write takes, in milliseconds. -/
  delay : Nat := 0
  /-- The error that every write ends with. -/
  failure : Option Error := none
  frames : List String := []
deriving DecidableEq, Repr

namespace Recorder

def finish (r : Recorder) (frame : String) : Recorder × Except Error Unit :=
  match r.failure with
  | some e => (r, .error e)
  | none => ({ r with frames := r.frames ++ [frame] }, .ok ())

def dispose (r : Recorder) : Recorder :=
  { r with failure := some (.write .closed (.external "socket closed")) }

end Recorder

end EventHub
