import HornLogic.Fault

/-!
# Sinks

Where a session writes to.  A sink may have room for a limited number of
bytes: a text that does not fit is written as far as there is room and then
fails.
-/

namespace HornLogic

/-- The bytes written so far and the room that is left, if it is limited. -/
structure Sink where
  written : List UInt8 := []
  room : Option Nat := none
deriving DecidableEq, Inhabited

namespace Sink

def bytesOf (text : String) : List UInt8 :=
  text.toUTF8.data.toList

def full : Fault :=
  .io "sink full"

/-- Write a text, or as much of it as there is room for. -/
def write (sink : Sink) (text : String) : Sink × Except Fault Unit :=
  let bytes := bytesOf text
  match sink.room with
  | none => ({ sink with written := sink.written ++ bytes }, .ok ())
  | some room =>
      ({ written := sink.written ++ bytes.take room,
         room := some (room - bytes.length) },
        if bytes.length ≤ room then .ok () else .error full)

end Sink

end HornLogic
