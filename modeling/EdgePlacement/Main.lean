import EdgePlacement.CommandLine.Run

/-!
The program: reads the files a request names, runs it and prints what it leaves. -/
namespace EdgePlacement

/-- The file under a path on disk. One that cannot be read counts as missing. -/
def fetchFile (path : String) : IO (String × File) := do
  try
    return (path, .bytes (← IO.FS.readBinFile path))
  catch _ =>
    return (path, .missing)

/-- The files a request names. -/
def fetchFiles (args : List String) : IO (String → File) := do
  match CommandLine.Request.ofArguments args with
  | .error _ => return fun _ => .missing
  | .ok request =>
    let paths := request.config.toList ++ [request.state] ++ request.ranking.toList
    let found ← paths.mapM fetchFile
    return fun path => (found.lookup path).getD .missing

end EdgePlacement

def main (args : List String) : IO UInt32 := do
  let files ← EdgePlacement.fetchFiles args
  let outcome := EdgePlacement.CommandLine.outcome args files
  for line in outcome.lines do
    IO.println line
  if let some complaint := outcome.complaint then
    IO.eprintln complaint
  return outcome.exitCode
