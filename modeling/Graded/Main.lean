/-
# The command

Reads the file of cases that is asked for, and does what `CommandLine.perform` says: shows the
report, writes the record of the run and the chart, and reports on the way.
-/
import Graded.CommandLine
import Graded.CommandLine.Help
import Graded.Fault.Message
import Graded.Picture.Encoded
import Std.Time

namespace Graded
namespace CommandLine

/-- The moment of the clock. -/
def now : IO Moment := do
  let t := Std.Time.DateTime.ofTimestamp (← Std.Time.Timestamp.now) .UTC
  return .ofParts (t.year : Int).toNat t.month.val.toNat t.day.val.toNat t.hour.val.toNat
    t.minute.val.toNat t.second.val.toNat

/-- What a file holds, if it can be read. -/
def contents? (path : String) : IO (Option String) := do
  try return some (← IO.FS.readFile path)
  catch _ => return none

/-- The words of a text. -/
def words (text : String) : List String :=
  let groups := text.toList.splitBy fun a b => a.isWhitespace == b.isWhitespace
  (groups.filter fun g => !g.all Char.isWhitespace).map String.ofList

/-- The version of the code in the working directory, if it is kept there. -/
def commit? : IO (Option String) := do
  let some head ← contents? ".git/HEAD" | return none
  match words head with
  | ["ref:", name] => return (← contents? (".git/" ++ name)).bind fun text => (words text).head?
  | found => return found.head?

/-- Reports the notices that are serious enough. -/
def report (level : Notice.Level) (time : String) (notices : List Notice) : IO Unit :=
  for n in notices do
    if level.admits n.level then IO.eprintln (time ++ " " ++ n.level.name ++ " " ++ n.text)

/-- Reports a fault, and answers with the status of a command that fails. -/
def fail (fault : Fault Float) (otherwise : String) : IO UInt32 := do
  IO.eprintln ((fault.message?).getD otherwise)
  return 1

/-- Writes the files of a run, and answers with the status of the command. -/
def write (effect : Effect) (found : Report Float) : IO UInt32 := do
  if let some (path, text) := effect.record then
    IO.FS.createDirAll (RunRecord.directoryOf path)
    IO.FS.writeFile path text
  if let some path := effect.chart then
    match Chart.ofAverages found.averages Chart.comparedFigures with
    | .ok chart => IO.FS.writeBinFile path (Picture.ofChart chart).encoded
    | .error fault => return ← fail fault "The averages cannot be drawn"
  return UInt32.ofNat effect.status

/-- Performs a request, and answers with the status of the command. -/
def run (r : Request) : IO UInt32 := do
  let moment ← now
  match perform (α := Float) r (← contents? r.cases) moment (← commit?) with
  | .error fault => fail fault "The cases cannot be evaluated"
  | .ok ⟨(effect, found), notices⟩ =>
    IO.print effect.shown
    let status ← write effect found
    report r.level moment.written notices
    return status

end CommandLine
end Graded

/-- The command. -/
def main (arguments : List String) : IO UInt32 :=
  match Graded.CommandLine.parse arguments with
  | .request r => Graded.CommandLine.run r
  | .valueless key => Graded.CommandLine.fail key.fault "An option has no value"
  | .help => do
    IO.print (Graded.CommandLine.help "graded")
    return 0
  | .misuse => do
    IO.eprint (Graded.CommandLine.usage "graded")
    return 2
