import CodeIndex.Program
import CodeIndex.Sandbox

/-!
# Command line

The files around the working directory are read, the program works on them, and what it changed is
stored again. Tools are scripts; they are carried out by the shell of this library.
-/

namespace CodeIndex

/-- The variables that the program looks at. -/
def Host.variableNames : List String :=
  ["PATH", "HOME", "TMPDIR"] ++
    ["DEFAULT_ANALYZER", "INDEX_EXTENSION", "JSON_FILE_NAME", "TEMP_PREFIX", "TIMEOUT_SECS",
     "PROBE_TIMEOUT_SECS", "COPY_EXCLUDE", "TOOLS__PRIMARY", "TOOLS__SECONDARY",
     "TOOLS__EXPORTER", "TOOLS__ANALYZER_SUBCOMMAND"].map ("GENERATE_INDEX_" ++ ·)

/-- Reads a file. Scripts can be executed, and machine code is left out. -/
def readFileAt (fs : FileSystem) (path : String) : IO FileSystem := do
  let bytes := (← IO.FS.readBinFile path).toList
  let mode := if bytes.take 2 = [35, 33] then 0o755 else fileMode
  if bytes.take machineCodeMark.length = machineCodeMark then pure fs
  else pure (((fs.plantOne [] ⟨path⟩ (.file mode bytes)).toOption).getD fs)

/-- Reads what a directory lists, but for files above a size, and what is below it down to a
depth. Directories behind links are left alone. -/
def readEntries (size : Nat) (fs : FileSystem) (entries : Array IO.FS.DirEntry) :
    (depth : Nat) → IO FileSystem
  | 0 => pure fs
  | depth + 1 =>
    entries.foldlM (fun fs e => do
      try
        if (← e.path.symlinkMetadata).type == .dir then
          let fs := ((fs.plantOne [] ⟨e.path.toString⟩ .dir).toOption).getD fs
          readEntries size fs (← e.path.readDir) depth
        else
          let about ← e.path.metadata
          if about.type == .file && about.byteSize.toNat ≤ size then
            readFileAt fs e.path.toString
          else pure fs
      catch _ => pure fs) fs

/-- Reads a directory, if there is one. -/
def readTree (size depth : Nat) (fs : FileSystem) (path : Path) : IO FileSystem := do
  try
    let real ← IO.FS.realPath path.text
    let fs := ((fs.plantOne [] ⟨real.toString⟩ .dir).toOption).getD fs
    readEntries size fs (← real.readDir) depth
  catch _ => pure fs

/-- Stores what has changed. -/
def storeChanges (before after : FileSystem) : IO Unit := do
  let gone := before.entries.filter fun (p, _) => (after.get? p).isNone
  for (p, e) in gone.mergeSort fun a b => b.1.length ≤ a.1.length do
    let text := (FileSystem.pathOf p).text
    if e.isDir then IO.FS.removeDir text else IO.FS.removeFile text
  for (p, e) in after.entries.mergeSort fun a b => a.1.length ≤ b.1.length do
    if before.get? p ≠ some e then
      let text := (FileSystem.pathOf p).text
      match e with
      | .dir _ => IO.FS.createDirAll text
      | .file _ _ bytes => IO.FS.writeBinFile text ⟨bytes.toArray⟩
      | _ => pure ()

/-- Names for temporary directories, different at different times. -/
def drawnNames (time : Nat) (draw : Nat) : String :=
  String.ofList (((Nat.toDigits 16 (time + draw)).reverse ++ List.replicate 6 '0').take 6)

end CodeIndex

open CodeIndex in
def main (arguments : List String) : IO UInt32 := do
  let environment ← Host.variableNames.filterMapM fun name => do
    pure ((← IO.getEnv name).map fun value => (name, value))
  let cwd : Path := ⟨(← IO.currentDir).toString⟩
  let place := (FileSystem.steps cwd).filter (· ≠ ".")
  let line := (CommandLine.read arguments).toOption
  let roots := (line.bind (·.project)).toList ++ (line.bind (·.outputDir)).toList
  let search := searchDirectories ((environment.lookup "PATH").getD "")
  let fs ← search.foldlM (readTree 65536 1) Sandbox.system
  let fs ← (cwd :: roots).foldlM (readTree 16777216 64) fs
  let time ← IO.monoNanosNow
  let host : Host := ⟨place, environment, drawnNames time, Shell.behaviour⟩
  let r := host.program (← (← IO.getStdout).isTty) arguments fs
  storeChanges fs r.files
  IO.print r.output
  IO.eprint r.diagnostics
  pure (UInt32.ofNat r.exit)
