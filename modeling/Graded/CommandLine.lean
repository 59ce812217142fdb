/-
# The command line

The command reads a list of evaluation cases, shows the report on them, and can keep a record of
the run and a chart of the averages.

* `parse` reads the arguments;
* `perform` says what a request comes to, given the text of the file of cases: what is shown, what
  is written where, what is reported, and with which status the command ends;
* `performIn` says what becomes of a folder by it.

Reading and writing themselves are left to the caller.
-/
import Graded.Chart
import Graded.Comparison.Printed
import Graded.Document.Printer
import Graded.Document.Reader
import Graded.Folder
import Graded.RunRecord

namespace Graded
namespace CommandLine

/-! ## 1. Arguments -/

/-- What is asked for. -/
structure Request where
  cases : String
  outputRoot : Option String
  runId : Option String
  plot : Bool
  /-- the least serious notices that are still reported -/
  level : Notice.Level
  deriving DecidableEq, Repr

/-- The options, those with a value and those without. -/
inductive Key where
  | cases
  | outputRoot
  | runId
  | logLevel
  | plot
  | help
  deriving DecidableEq, Repr

namespace Key

/-- The long names of the options. -/
def names : List (String × Key) :=
  [("--cases", cases), ("--output-root", outputRoot), ("--run-id", runId),
   ("--log-level", logLevel), ("--plot", plot), ("--help", help)]

/-- The short names of the options. -/
def letters : List (String × Key) := [("-c", cases), ("-o", outputRoot), ("-h", help)]

def takesValue : Key → Bool
  | plot | help => false
  | _ => true

/-- The fault of an option that was given without its value: no level can be read, and no file be
found. -/
def fault {α : Type} : Key → Fault α
  | logLevel => .notText
  | _ => .notName

end Key

/-- How one argument is read. -/
inductive Token where
  /-- a plain word -/
  | word (text : String)
  /-- an option, with the value that is part of the argument -/
  | option (key : Key) (value : Option String)
  /-- the letter for help, joined with the letter of an option whose value is the next argument -/
  | helpBefore
  /-- the end of the options -/
  | divider
  /-- an option that is not known -/
  | unknown
  /-- the beginning of several long names -/
  | ambiguous
  /-- the letter for help, joined with what is no letter of an option -/
  | refused
  deriving DecidableEq, Repr

/-- Digits of any script, and nothing else. -/
def areDigits (s : List Char) : Bool := s.all fun c => (Text.digit? c).isSome

/-- A decimal number: digits, or a point with digits after it and perhaps before it. -/
def isPlainNumber (s : List Char) : Bool :=
  match s.dropWhile (· != '.') with
  | [] => !s.isEmpty && areDigits s
  | _ :: places => areDigits (s.takeWhile (· != '.')) && !places.isEmpty && areDigits places

/-- The text without the line end that it may have. -/
def withoutLineEnd (s : List Char) : List Char :=
  if s.getLast? = some '\n' then s.dropLast else s

/-- A minus sign and a decimal number, which is a word and no option.  A line end may follow. -/
def isNegativeNumber (s : List Char) : Bool :=
  match s with
  | '-' :: rest => isPlainNumber (withoutLineEnd rest)
  | _ => false

/-- The name and the value of an argument that has an equals sign. -/
def splitValue (s : String) : String × Option String :=
  match s.toList.dropWhile (· != '=') with
  | [] => (s, none)
  | _ :: value => (String.ofList (s.toList.takeWhile (· != '=')), some (String.ofList value))

/-- An option by its long name or by a beginning of just one long name. -/
def longOption (s : String) : Token :=
  let (name, value) := splitValue s
  match Key.names.lookup name with
  | some k => .option k value
  | none => match Key.names.filter fun n => name.isPrefixOf n.1 with
    | [(_, k)] => .option k value
    | [] => if s.toList.contains ' ' then .word s else .unknown
    | _ => .ambiguous

/-- An option by its letter. -/
def letter? (c : Char) : Option Key := Key.letters.lookup (String.ofList ['-', c])

/-- What follows the letter for help: more letters, of which the last may have a value. -/
def afterHelp : List Char → Token
  | [] => .option .help none
  | c :: rest => match letter? c with
    | some .help => afterHelp rest
    | some _ => if rest.isEmpty then .helpBefore else .option .help none
    | none => .refused

/-- An option by its letter, with what follows the letter as its value. -/
def shortOption (s : String) : Token :=
  let rest := s.toList.drop 2
  match (s.toList[1]?).bind letter? with
  | some .help => match rest with
    | '=' :: more => if more.isEmpty then .refused else afterHelp more
    | rest => afterHelp rest
  | some k =>
    let value := if rest.head? = some '=' then rest.drop 1 else rest
    .option k (if rest.isEmpty then none else some (String.ofList value))
  | none => if isNegativeNumber s.toList || s.toList.contains ' ' then .word s else .unknown

/-- Reads one argument. -/
def Token.ofArgument (s : String) : Token :=
  if s = "--" then .divider
  else if s.startsWith "--" then longOption s
  else if s.startsWith "-" && s != "-" then shortOption s
  else .word s

/-- What the arguments come to. -/
inductive Asked where
  | request (r : Request)
  /-- an option that is needed was given without its value -/
  | valueless (key : Key)
  | help
  | misuse
  deriving DecidableEq, Repr

/-- What has been read so far. -/
structure Draft where
  /-- the option was given -/
  given : Bool
  cases : Option String
  outputRoot : Option String
  runId : Option String
  plot : Bool
  level : Option Notice.Level

/-- Nothing has been read. -/
def Draft.start : Draft := ⟨false, none, none, none, false, some .info⟩

/-- The levels of reporting that may be asked for.  Nothing is less serious than an info. -/
def logLevels : List (String × Notice.Level) :=
  [("DEBUG", .info), ("INFO", .info), ("WARNING", .warning), ("ERROR", .error)]

/-- The value of an option.  Two hyphens are none: they stand for the end of the options, even
where they are joined to one. -/
def joined (value : String) : Option String := if value = "--" then none else some value

/-- A draft with one more option, unless the value is not allowed. -/
def Draft.set (d : Draft) (k : Key) (value : String) : Option Draft :=
  match k with
  | .cases => some { d with given := true, cases := joined value }
  | .outputRoot => some { d with outputRoot := joined value }
  | .runId => some { d with runId := joined value }
  | .logLevel => match joined value with
    | some name => (logLevels.lookup name).map fun level => { d with level := some level }
    | none => some { d with level := none }
  | .plot | .help => none

/-- What a draft comes to when all has been read. -/
def Draft.finish (d : Draft) : Asked :=
  match d.level, d.cases with
  | none, _ => .valueless .logLevel
  | some _, none => .valueless .cases
  | some level, some cases => .request ⟨cases, d.outputRoot, d.runId, d.plot, level⟩

/-- A plain word. -/
def word? (s : String) : Option String :=
  match Token.ofArgument s with
  | .word w => some w
  | _ => none

/-- Reads the arguments one by one.  There is no place for words that are not values nor for
options that are not known, but help that is asked for after them is still given. -/
def readFrom (d : Draft) (misplaced : Bool) : List String → Asked
  | [] => if d.given && !misplaced then d.finish else .misuse
  | s :: rest =>
    match Token.ofArgument s with
    | .option .plot none => readFrom { d with plot := true } misplaced rest
    | .option .help none => .help
    | .option k (some value) => match d.set k value with
      | some d => readFrom d misplaced rest
      | none => .misuse
    | .option k none => match rest with
      | value :: rest => match (word? value).bind (d.set k) with
        | some d => readFrom d misplaced rest
        | none => .misuse
      | [] => .misuse
    | .helpBefore => if (rest.head?.bind word?).isSome then .help else .misuse
    | .word _ | .unknown => readFrom d true rest
    | .divider | .ambiguous | .refused => .misuse

/-- An argument before the end of the options is ambiguous. -/
def anyAmbiguous (arguments : List String) : Bool :=
  (arguments.takeWhile (· != "--")).any fun s => Token.ofArgument s = .ambiguous

/-- Reads the arguments of the command. -/
def parse (arguments : List String) : Asked :=
  if anyAmbiguous arguments then .misuse
  else readFrom .start false arguments

example : parse ["-c", "a.json", "--plot"] = .request ⟨"a.json", none, none, true, .info⟩ := by
  decide +kernel
example : parse ["--cases=a.json", "--out", "b"] =
    .request ⟨"a.json", some "b", none, false, .info⟩ := by decide +kernel
example : parse ["word", "-h"] = .help := by decide +kernel
example : parse ["-hx"] = .misuse := by decide +kernel
example : parse ["-c--"] = .valueless .cases := by decide +kernel
example : parse [] = .misuse := by decide +kernel

/-! ## 2. Performing a request -/

/-- What the command does. -/
structure Effect where
  status : Nat
  shown : String
  /-- the record of the run, with the path it goes to -/
  record : Option (String × String)
  /-- the path of the chart -/
  chart : Option String
  deriving DecidableEq, Repr

/-- A moment, in the two ways a run writes it. -/
structure Moment where
  /-- digits only, to name a run -/
  stamp : String
  /-- date and time, to record one -/
  written : String

namespace Moment

/-- A number of at least two digits. -/
def twoDigits (n : Nat) : String := if n < 10 then "0" ++ toString n else toString n

/-- The moment of a date and a time of day. -/
def ofParts (year month day hour minute second : Nat) : Moment :=
  let date := [toString year, twoDigits month, twoDigits day]
  let time := [twoDigits hour, twoDigits minute, twoDigits second]
  ⟨"".intercalate (date ++ time), "-".intercalate date ++ "T" ++ ":".intercalate time ++ "Z"⟩

example : (ofParts 2024 3 9 7 5 0).stamp = "20240309070500" := by decide +kernel
example : (ofParts 2024 3 9 7 5 0).written = "2024-03-09T07:05:00Z" := by decide +kernel

end Moment

variable {α : Type} [Scalar α] [Legible α]

/-- The cases in the text of a file. -/
def cases (path text : String) : Except (Fault α) (List (Document α)) := do
  match ← Document.read text with
  | .list xs => return xs
  | _ => throw (.notCases path)

/-- The path that was asked for, unless it is empty. -/
def given (path : Option String) : Option String := path.filter fun p => !p.isEmpty

/-- Where the chart of a run goes. -/
def chartPath (root runId : String) : String :=
  RunRecord.below (RunRecord.directory root runId) "comparison.png"

/-- What a request comes to.  `text` is what the file of cases holds, if there is one; the
moment names the run if the request does not. -/
def perform (r : Request) (text : Option String) (now : Moment) (commit : Option String) :
    Except (Fault α) (Noted (Effect × Report α)) := do
  let some text := text | throw (.noFile r.cases)
  let list ← cases r.cases text
  let ⟨found, notices⟩ ← report list
  let begun := .evaluating list.length r.cases :: notices
  if found.records.isEmpty then
    return ⟨(⟨1, "", none, none⟩, found), begun ++ [.nothingToEvaluate]⟩
  match given r.outputRoot with
  | none => return ⟨(⟨0, found.text, none, none⟩, found), begun⟩
  | some root =>
    let runId := (given r.runId).getD now.stamp
    let path := RunRecord.path root runId
    let members := RunRecord.ofReport found (some r.cases) now.written
    let record := RunRecord.finish commit members
    let chart := if r.plot then some (chartPath root runId) else none
    return ⟨(⟨0, found.text, some (path, record.written), chart⟩, found),
      begun ++ .recordWritten path :: chart.toList.map .chartSaved⟩

/-- What a request comes to in a folder: the effect, and the folder after it.  Of a chart only the
place is known. -/
def performIn (f : Folder) (r : Request) (now : Moment) (commit : Option String) :
    Except (Fault α) (Noted (Effect × Folder)) := do
  let text ← f.read r.cases
  let ⟨(effect, found), notices⟩ ← perform (α := α) r (some text) now commit
  let recorded ← match effect.record with
    | some (path, text) => f.write path text
    | none => pure f
  match effect.chart with
  | some path =>
    let _ ← Chart.ofAverages found.averages Chart.comparedFigures
    return ⟨(effect, ← recorded.write path ""), notices⟩
  | none => return ⟨(effect, recorded), notices⟩

end CommandLine
end Graded
