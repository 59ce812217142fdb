/-
# Folders

A folder holds files, each some steps below it.  A path leads from the folder to a file, step by
step: an empty step and a dot stay where they are, and two dots lead back.  Nothing is known of
what lies outside the folder, except that one can walk there, and that no file that is read is
there.

* `Folder.read` is what the file at the end of a path holds;
* `Folder.write` puts a file at the end of a path, and makes the folders on the way.
-/
import Graded.Fault

namespace Graded

/-- Files by the steps that lead to them. -/
structure Folder where
  files : List (List String × String)
  deriving DecidableEq, Repr

/-- Where a walk stands. -/
inductive Place where
  /-- in a folder, so many steps below the first one -/
  | below (steps : List String)
  | outside
  /-- at a file -/
  | file (text : String)
  deriving DecidableEq, Repr

namespace Folder

variable {α : Type}

/-! ## 1. Paths -/

/-- The greatest length of a step, in bytes. -/
def longestStep : Nat := 255

/-- The least length of a path that is too long, in bytes. -/
def tooLongPath : Nat := 4096

/-- The parts of a text between its slashes. -/
def betweenSlashes : List Char → List (List Char)
  | [] => [[]]
  | c :: cs =>
    if c = '/' then [] :: betweenSlashes cs
    else match betweenSlashes cs with
      | [] => [[c]]
      | s :: rest => (c :: s) :: rest

theorem betweenSlashes_ne_nil (cs : List Char) : betweenSlashes cs ≠ [] := by
  cases cs with
  | nil => simp [betweenSlashes]
  | cons c cs =>
    unfold betweenSlashes
    split
    · simp
    · split <;> simp

/-- The steps of a path. -/
def stepsOf (path : String) : List String := (betweenSlashes path.toList).map String.ofList

/-- Where a walk along a path begins. -/
def beginning (path : String) : Place := if path.startsWith "/" then .outside else .below []

/-- A path that can be walked at all. -/
def checkPath (path : String) : Except (Fault α) Unit :=
  if path.toList.contains '\x00' then .error .nullInPath
  else if tooLongPath ≤ path.utf8ByteSize then .error (.pathTooLong path)
  else .ok ()

/-! ## 2. Walks -/

/-- The text of a file. -/
def file? (f : Folder) (steps : List String) : Option String := f.files.lookup steps

/-- There are files below some steps. -/
def leadsOn (f : Folder) (steps : List String) : Bool := f.files.any fun e => steps.isPrefixOf e.1

/-- One step further.  If `make` is set, a folder that is not there is made. -/
def step (f : Folder) (make : Bool) (path : String) (p : Place) (s : String) :
    Except (Fault α) Place :=
  match p with
  | .file _ => .error (.notFolder path)
  | .outside =>
    if s = "" || s = "." || s = ".." then .ok .outside
    else if longestStep < s.utf8ByteSize then .error (.pathTooLong path)
    else if make then .ok .outside
    else .error (.noFile path)
  | .below steps =>
    if s = "" || s = "." then .ok (.below steps)
    else if s = ".." then .ok (if steps.isEmpty then .outside else .below steps.dropLast)
    else if longestStep < s.utf8ByteSize then .error (.pathTooLong path)
    else match f.file? (steps ++ [s]) with
      | some text => .ok (.file text)
      | none =>
        if make || f.leadsOn (steps ++ [s]) then .ok (.below (steps ++ [s]))
        else .error (.noFile path)

/-- What the file at the end of a path holds. -/
def read (f : Folder) (path : String) : Except (Fault α) String := do
  checkPath path
  if path.isEmpty then throw (.noFile path)
  match ← (stepsOf path).foldlM (f.step false path) (beginning path) with
  | .file text => return text
  | _ => throw (.isFolder path)

/-- The steps up to the last one that is not empty. -/
def withoutEnd (steps : List String) : List String :=
  (steps.reverse.dropWhile (·.isEmpty)).reverse

/-- Where the folders of a path lead, once they are all made. -/
def makeFolders (f : Folder) (path : String) : Except (Fault α) Place := do
  checkPath path
  match ← (withoutEnd (stepsOf path).dropLast).foldlM (f.step true path) (beginning path) with
  | .file _ => throw (.fileThere path)
  | p => return p

/-- The folder with a file at the end of a path.  A file outside is not seen. -/
def write (f : Folder) (path text : String) : Except (Fault α) Folder := do
  match ← f.makeFolders path with
  | .below steps => return ⟨(steps ++ [(stepsOf path).getLastD ""], text) :: f.files⟩
  | _ => return f

/-- The paths of the files, sorted. -/
def paths (f : Folder) : List String :=
  (f.files.map fun e => "/".intercalate e.1).mergeSort fun a b => decide (a ≤ b)

/-- What the files of a name hold. -/
def named (f : Folder) (name : String) : List String :=
  (f.files.filter fun e => e.1.getLast? == some name).map (·.2)

/-! ## 3. Examples -/

/-- A folder with one file. -/
def single (name text : String) : Folder := ⟨[([name], text)]⟩

example : stepsOf ".//a" = [".", "", "a"] := by decide +kernel
example : ((single "a" "x").step (α := Nat) false "a" (.below []) "a").toOption =
    some (.file "x") := by decide +kernel

end Folder
end Graded
