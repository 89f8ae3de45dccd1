import TokenMetadata.Fixtures

/-!
# The fixture generator

Writes the corpus to a file, or with `--check` compares the file with it and exits with 1 when they
differ. The file is the one behind `--out`, or that of the settings.
-/

namespace TokenMetadata

/-- What is asked for on the command line. -/
structure Request where
  out : Option String := none
  check : Bool := false

namespace Request

/-- Goes on reading arguments after those that made the request. -/
def addArguments (r : Request) : List String → Option Request
  | [] => some r
  | "--check" :: rest => addArguments { r with check := true } rest
  | "--out" :: path :: rest => addArguments { r with out := some path } rest
  | _ => none

end Request

/-- The part of a path in front of its last name. -/
def directory (path : String) : String :=
  String.ofList ((path.toList.reverse.dropWhile (· ≠ '/')).drop 1).reverse

/-- The variables of the settings, with names in upper case and in lower case. -/
def readEnvironment : IO Settings.Environment := do
  let upper := Settings.names.map fun name => (Settings.variableStart ++ name).toUpper
  let found ← (upper ++ upper.map String.toLower).mapM fun name => do
    let value ← IO.getEnv name
    return value.map fun v => (name, v)
  return found.filterMap id

def readIfPresent (path : String) : IO (Option String) := do
  try
    let text ← IO.FS.readFile path
    return some text
  catch _ => return none

def writeWithDirectory (path content : String) : IO Unit := do
  let parent := directory path
  if parent ≠ "" then IO.FS.createDirAll parent
  IO.FS.writeFile path content

def run (settings : Settings) (request : Request) : IO UInt32 := do
  let path := request.out.getD settings.fixturesPath
  let content ← readIfPresent path
  match Fixtures.generate settings request.check content with
  | .error fault =>
    IO.eprintln (fault.message?.getD "the fixtures cannot be read")
    return 1
  | .ok outcome =>
    match outcome with
    | .write text => writeWithDirectory path text
    | _ => pure ()
    IO.print outcome.output
    return outcome.exitCode

end TokenMetadata

open TokenMetadata in
def main (arguments : List String) : IO UInt32 := do
  let env ← readEnvironment
  match Settings.ofEnvironment env, Request.addArguments {} arguments with
  | .ok settings, some request => run settings request
  | .error refused, _ =>
    IO.eprintln (", ".intercalate (refused.map (·.1)))
    return 1
  | _, none =>
    IO.eprintln "usage: [--out PATH] [--check]"
    return 2
