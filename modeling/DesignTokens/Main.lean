import DesignTokens.Command.Run

/-!
The program: reads the files that its command line names, runs the command, and hands over what the
command gives.
-/

namespace DesignTokens.Command

/-- The texts of those files that can be read. -/
def readFiles (paths : List String) : IO Files :=
  paths.foldlM (fun (files : Files) (path : String) => do
    try return files.insert (plainPath path) (← IO.FS.readFile path)
    catch _ => return files) .empty

/-- Hands over a report and gives its exit code. -/
def Report.deliver (r : Report) : IO UInt32 := do
  for line in r.log do
    IO.eprintln line
  for (path, text) in r.written.toList do
    IO.FS.writeFile path text
  for line in r.output do
    IO.println line
  for f in r.raised.toList do
    IO.eprintln f.message
  return .ofNat r.exit

end DesignTokens.Command

open DesignTokens.Command in
/-- Runs a command line; one that is not understood, or that names a file that does not exist, ends
with exit code 2. -/
def main (words : List String) : IO UInt32 := do
  let some invocation := Invocation.ofWords? words | return 2
  let files ← readFiles invocation.inputs
  match invocation.run? files with
  | some report => report.deliver
  | none => return 2
