import BootTrust.Command.Run
/-
The program: it takes the arguments and the environment, looks at those parts of the disk that the
command may read, runs the command, and makes the disk change as the command says. Everything that
is decided is decided in `Command`.
-/

set_option autoImplicit false

namespace BootTrust.Main

/-! ## Looking at the disk -/

/-- The path of a location for the operating system. -/
def hostPath (place : Location) : String :=
  "/" ++ String.intercalate "/" place

/-- What the operating system has at a location; a directory is shown without its entries. -/
def inspect (place : Location) : IO (Option Node) := do
  try
    let content ← IO.FS.readBinFile (hostPath place)
    return some (.file content.toList)
  catch
    | .noFileOrDirectory .. => return none
    | .inappropriateType .. => return some (.directory [])
    | e => throw e

/-- Adds to a disk what lies on the way along some components, as far as there is something. -/
def observe (disk : Disk) (place : Location) : List Component → IO Disk
  | [] => return disk
  | c :: more => do
    let place := Location.follow place c
    match disk.find? place with
    | some (.file _) => return disk
    | some (.directory _) => observe disk place more
    | none =>
      match ← inspect place with
      | none => return disk
      | some node => observe (disk.alter place fun _ => some node) place more

/-- The components of every path that a command may read or write. -/
def reach (invocation : Command.Invocation) : List (List Component) :=
  let state := [invocation.state.components, invocation.state.temporary.components]
  let config := (invocation.config.map Path.components).toList
  match invocation.action with
  | .check => config ++ state
  | .sign _ | .volume _ => config
  | .hash file => [file.components]

/-- The part of the disk that a command may read or write. -/
def snapshot (invocation : Command.Invocation) : IO Disk := do
  let here := (Path.components ⟨(← IO.currentDir).toString⟩).foldl Location.follow []
  let disk ← observe { Disk.empty with here } [] (here.map .name)
  (reach invocation).foldlM (fun disk components => observe disk here components) disk

/-! ## Changing the disk -/

def perform : Effect → IO Unit
  | .makeDirectory place => IO.FS.createDir (hostPath place)
  | .clear place => IO.FS.writeBinFile (hostPath place) .empty
  | .append place bytes => do
    let handle ← IO.FS.Handle.mk (hostPath place) .append
    handle.write ⟨bytes.toArray⟩
  | .rename source target => IO.FS.rename (hostPath source) (hostPath target)

/-! ## The host -/

/-- A host that reports no removable volumes, so no command gets as far as a post. -/
def host : Command.Host Unit where
  probe := .fixed [] [] none none
  client := .ok ⟨fun _ post => ((), .error ⟨post.url, "no network"⟩)⟩

/-- The variables of the environment that stand in for options. -/
def environment : IO (List (String × String)) := do
  let names :=
    ([.config, .state, .signEndpoint] : List Command.Setting).filterMap (·.inEnvironment?)
  names.filterMapM fun name => do
    return (← IO.getEnv name).map fun value => (name, value)

def runLine (arguments : List String) : IO UInt32 := do
  match Command.Invocation.parse (← environment) arguments with
  | none =>
    IO.eprintln "error: the arguments are not understood"
    return 2
  | some invocation =>
    let disk ← snapshot invocation
    let execution := invocation.run host disk ()
    execution.effects.forM perform
    let report := Command.Report.ofResult invocation.json execution.result
    (← IO.getStdout).write ⟨report.output.toArray⟩
    IO.eprint report.errors
    return UInt32.ofNat report.exitCode

end BootTrust.Main

def main (arguments : List String) : IO UInt32 :=
  BootTrust.Main.runLine arguments
