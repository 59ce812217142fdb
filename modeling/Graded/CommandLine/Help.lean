/-
# Help

What the command says of itself: a usage that names every option, and under it a line or two on
each.  The usage is a list of words on lines; a line is broken where the next word would pass the
width, and goes on under the first option.

* `fill` puts words on lines, and `flatten_fill` says that it loses none and keeps their order;
* `usage` and `help` are what is shown.
-/

namespace Graded
namespace CommandLine

/-! ## 1. Words on lines -/

/-- Words on lines of a width, after the words that a line already has.  `column` is where that
line ends, and every further line begins after `indent`.  A line has a word at least. -/
def fill (width indent column : Nat) (line : List String) : List String → List (List String)
  | [] => [line]
  | word :: words =>
    if width < column + 1 + word.length && !line.isEmpty then
      line :: fill width indent (indent + word.length) [word] words
    else fill width indent (column + 1 + word.length) (line ++ [word]) words

/-- No word is lost. -/
theorem flatten_fill (width indent column : Nat) (line words : List String) :
    (fill width indent column line words).flatten = line ++ words := by
  induction words generalizing column line with
  | nil => simp [fill]
  | cons word words ih =>
    rw [fill]
    split <;> simp [ih]

/-! ## 2. What is shown -/

/-- The width of a line. -/
def lineWidth : Nat := 78

/-- The word before a usage, with the blank after it. -/
def usageMark : String := "usage: "

/-- The options as they are used. -/
def usageWords : List String :=
  ["[-h]", "-c", "CASES", "[-o OUTPUT_ROOT]", "[--run-id RUN_ID]", "[--plot]",
   "[--log-level \x7bDEBUG,INFO,WARNING,ERROR\x7d]"]

/-- How the command of a name is used. -/
def usage (program : String) : String :=
  let indent := usageMark.length + program.length + 1
  let lines := fill lineWidth indent (usageMark.length - 1) [] (program :: usageWords)
  usageMark ++ ("\n" ++ "".pushn ' ' indent).intercalate (lines.map (" ".intercalate ·)) ++ "\n"

example : usage "graded" =
    "usage: graded [-h] -c CASES [-o OUTPUT_ROOT] [--run-id RUN_ID] [--plot]\n" ++
    "              [--log-level \x7bDEBUG,INFO,WARNING,ERROR\x7d]\n" := by decide +kernel

/-- What the command and its options are for. -/
def explanation : String :=
  "Compare query parsers with fuzzy precision and recall.\n" ++
  "\n" ++
  "options:\n" ++
  "  -h, --help            show this help message and exit\n" ++
  "  -c CASES, --cases CASES\n" ++
  "                        JSON file with a list of evaluation cases.\n" ++
  "  -o OUTPUT_ROOT, --output-root OUTPUT_ROOT\n" ++
  "                        If set, write a run summary under <output-root>/<run-\n" ++
  "                        id>/.\n" ++
  "  --run-id RUN_ID       Run identifier (default: UTC time stamp).\n" ++
  "  --plot                Save a bar chart of per-model averages next to the\n" ++
  "                        summary.\n" ++
  "  --log-level \x7bDEBUG,INFO,WARNING,ERROR\x7d\n" ++
  "                        Logging level. Default: INFO.\n"

/-- The help on the command of a name. -/
def help (program : String) : String := usage program ++ "\n" ++ explanation

end CommandLine
end Graded
