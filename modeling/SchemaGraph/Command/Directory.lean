import SchemaGraph.Command.Basic
import SchemaGraph.OrderedMap

/-!
# Commands in a directory

A directory is a map from paths to the contents of files. Running a command in it gives the
directory that the command leaves behind, what it prints, and how it exits.
-/

namespace SchemaGraph

/-- The files of a directory and of the directories in it, by their paths. -/
abbrev Directory := OrderedMap String

/-- What is left of a run: the printed text, the reported failure and the exit code. -/
structure Run where
  exit : Nat
  printed : String
  reported : String
  files : Directory

namespace Directory

/-- Whether names lead to a directory: no names at all, or the start of a file's path. -/
def isDirectory (files : Directory) (names : List String) : Bool :=
  names.isEmpty || files.names.any fun file => names.isPrefixOf (file.splitOn "/").dropLast

/-- The directory to which steps lead from the one at `place`. A step that is empty or a dot leads
nowhere else, and two dots lead to the directory above, unless that is out of sight. -/
def walk (files : Directory) (place : List String) : List String → Option (List String)
  | [] => some place
  | step :: rest =>
    if step = "" ∨ step = "." then walk files place rest
    else if step = ".." then if place.isEmpty then none else walk files place.dropLast rest
    else if isDirectory files (place ++ [step]) then walk files (place ++ [step]) rest
    else none

/-- The number of bytes in the longest name of a file. -/
def longestName : Nat := 255

/-- The number of bytes in the longest path. -/
def longestPath : Nat := 4095

/-- Whether the last step of a path can be the name of a file. -/
def isFileName (step : String) : Bool :=
  step ∉ ["", ".", ".."] && step.utf8ByteSize ≤ longestName

/-- Whether a path can be followed: it is not too long, and it does not begin at the root, which is
out of sight. -/
def isPath (path : String) : Bool :=
  path.utf8ByteSize ≤ longestPath && !"/".isPrefixOf path

/-- The place of the file that a path names, whether it is there or not: a path without steps that
lead nowhere else. -/
def locate? (files : Directory) (path : String) : Option String := do
  let steps := path.splitOn "/"
  let name := steps.getLastD ""
  if !isPath path || !isFileName name then none
  let names := (← walk files [] steps.dropLast) ++ [name]
  if isDirectory files names then none else return "/".intercalate names

/-- The contents of a file. -/
def file? (files : Directory) (path : String) : Option String :=
  (locate? files path).bind files.get?

/-- Write a file, whose directory has to be there. -/
def write? (files : Directory) (path contents : String) : Option Directory :=
  (locate? files path).map (files.insert · contents)

end Directory

namespace Command

/-- Run a command in a directory. -/
def runIn (files : Directory) (standardInput : String) (c : Command) : Run :=
  let failed (f : Failure) : Run := ⟨1, "", f.report, files⟩
  match c.run ⟨some standardInput, files.file?⟩ with
  | .error f => failed f
  | .ok answer =>
    let exit := if answer.hasErrors then 1 else 0
    match answer.written with
    | none => ⟨exit, answer.printed, "", files⟩
    | some (path, contents) =>
      match files.write? path contents with
      | some files => ⟨exit, answer.printed, "", files⟩
      | none => failed (.unwritableFile path)

end Command

end SchemaGraph
