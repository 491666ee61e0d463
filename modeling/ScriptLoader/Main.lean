import ScriptLoader.Cache.Database
import ScriptLoader.Cli.Program

/-!
# The program on a machine

A command line is run on what is known of the disk. As long as a run looks at paths that nothing is
known about, they are read and the command line is run again; what the last run changed is written.
-/

namespace ScriptLoader.Cli

/-- The path of names from the root of the disk. -/
def pathFrom (names : List String) : String := "/" ++ "/".intercalate names

/-- What is at a path of the machine. Reading a directory fails for the kind of node that it is. -/
def nodeAt (path : String) : IO (Option DiskNode) := do
  try
    let data ← IO.FS.readBinFile path
    return some (.file (.ofBytes data.toList))
  catch e =>
    match e with
    | .inappropriateType .. => return some .directory
    | _ => return none

/-- Reads a path and the directories on the way to it. -/
def learn (d : Disk) (path : String) : IO Disk := do
  let segments := FilePath.split path
  (List.range segments.length).foldlM (fun (d : Disk) n => do
    match d.locate ("/".intercalate (segments.take (n + 1))) with
    | .error _ => return d
    | .ok names =>
      if (d.node? names).isSome then return d
      match ← nodeAt (pathFrom names) with
      | some node => return d.put names node
      | none => return d) d

/-- Runs a command line until it looks at nothing new. Returns the disk that the last run began
with, too. -/
partial def runKnowing (around : Surroundings) (painted : Bool) (words known : List String)
    (d : Disk) : IO (Disk × Ending) := do
  let ending := run around painted d words
  match ending.asked.filter (!known.contains ·) with
  | [] => return (d, ending)
  | fresh => runKnowing around painted words (known ++ fresh) (← fresh.foldlM learn d)

/-- Writes what a run changed. -/
def save (before after : Disk) : IO Unit :=
  after.nodes.forM fun (names, node) => do
    if before.nodes.get? names ≠ some node then
      match node with
      | .directory => IO.FS.createDirAll (pathFrom names)
      | .file content => IO.FS.writeBinFile (pathFrom names) ⟨content.toBytes.toArray⟩

end ScriptLoader.Cli

open ScriptLoader ScriptLoader.Cli

def main (words : List String) : IO UInt32 := do
  let environment ← variableNames.filterMapM fun name => do
    return (← IO.getEnv name).map fun value => (name, value)
  let output ← IO.getStdout
  let errors ← IO.getStderr
  let home := (FilePath.split s!"{← IO.currentDir}").filter (· ≠ "")
  let painted := paints environment (← output.isTty)
  let (before, ending) ← runKnowing { environment } painted words [] { home }
  save before ending.disk
  ending.errors.forM fun piece =>
    match piece with
    | .log line => errors.putStrLn line
    | .text text => errors.putStr text
  output.putStr ending.output
  return ending.status.toUInt32
