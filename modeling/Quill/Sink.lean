/-!
# Sinks

Where programs print to: bytes one after another, perhaps only so many. What does not fit is cut off
at the limit, and the write fails.
-/

namespace Quill

/-- Why a sink does not take what it is given. -/
inductive SinkFault where
  /-- There is no room left. -/
  | full
  /-- What was written cannot be passed on. -/
  | flushFailed
deriving DecidableEq

namespace SinkFault

/-- The fault in words. -/
def message : SinkFault → String
  | full => "sink full"
  | flushFailed => "flush failed"

end SinkFault

/-- A sink with what it has taken so far. -/
structure Sink where
  /-- The bytes taken. -/
  written : ByteArray
  /-- The greatest number of bytes, if there is one. -/
  limit : Option Nat
  /-- Passing on what was written fails. -/
  flushFails : Bool

namespace Sink

/-- A sink that takes everything. -/
def unlimited : Sink := ⟨.empty, none, false⟩

/-- Takes the bytes as far as there is room. -/
def write (sink : Sink) (bytes : ByteArray) : Sink × Option SinkFault :=
  match sink.limit with
  | none => ({ sink with written := sink.written ++ bytes }, none)
  | some limit =>
    let room := limit - sink.written.size
    if bytes.size ≤ room then ({ sink with written := sink.written ++ bytes }, none)
    else ({ sink with written := sink.written ++ bytes.extract 0 room }, some .full)

/-- The fault of passing on what was written, if there is one. -/
def flushFault? (sink : Sink) : Option SinkFault :=
  if sink.flushFails then some .flushFailed else none

end Sink

end Quill
