import CodeAtlas.Command.Run
import CodeAtlas.Disk.Local
import Std.Time.DateTime.Timestamp

open CodeAtlas

/-- Milliseconds since the beginning of 1970. -/
def currentTime : IO Nat := do
  return (← Std.Time.Timestamp.now).toMillisecondsSinceUnixEpoch.toInt.toNat

def main (words : List String) : IO UInt32 := do
  match Request.read words with
  | .error refusal =>
    IO.print refusal.output
    if let .misuse error := refusal then IO.eprintln s!"error: {error.message}"
    return refusal.status.toUInt32
  | .ok request =>
    match ← request.run Disk.machine (← currentTime) with
    | .ok said =>
      said.notes.forM fun note => IO.eprintln note
      IO.print said.output
      return 0
    | .error (.error error) =>
      IO.eprintln s!"Error: {error.message}"
      return 1
    | .error .overflow => return 101
