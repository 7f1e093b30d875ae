import CodeIndex.Child.Run
import CodeIndex.Listing
import CodeIndex.Tool.Basic
import CodeIndex.WorkingCopy.Basic

/-!
# Indexing

The analyzer works in the working copy and leaves an index there, by convention `index.<extension>`
at the root. If it is elsewhere, it is searched for.

* `FileSystem.searchIndex` : the least deep file of the extension, the first of several;
* `Host.makeIndex` : runs the analyzer and finds the index it left.
-/

namespace CodeIndex

/-- Why there is no index. -/
inductive IndexingError
  | child (cause : ChildError)
  | unsuccessful (status : ExitStatus) (stderr : String)
  | noIndexLeft (root : Path) (extension : String)
  | unlisted (cause : ListingError)
  deriving Repr, DecidableEq

/-- What a tool wrote, on lines of its own after a message, if it wrote anything but blanks. -/
def diagnostics (stderr : String) : String :=
  let text := Text.trim stderr
  if text.isEmpty then "" else "\n" ++ text

namespace IndexingError

def message : IndexingError → String
  | .child e => e.message
  | .unsuccessful status stderr => "analyzer exited with " ++ status.text ++ diagnostics stderr
  | .noIndexLeft root extension =>
    "no `*." ++ extension ++ "` index produced under " ++ root.text
  | .unlisted e => "fallback index search failed: " ++ e.message

/-- The messages of what caused the error. -/
def causes : IndexingError → List String
  | .child e => e.causes
  | .unlisted e => [e.message]
  | _ => []

end IndexingError

/-- How an index was found. -/
inductive Sighting
  | expected
  | searched
  deriving Repr, DecidableEq

/-- An index and the run of the analyzer that left it. -/
structure FoundIndex where
  index : Path
  status : ExitStatus
  stdout : String
  stderr : String
  sighting : Sighting
  deriving Repr, DecidableEq

/-- How to run the analyzer. The limit is in milliseconds. -/
structure IndexerCall where
  tool : Tool
  subcommand : String
  extension : String
  timeout : Option Nat

/-- The name an index has by convention. -/
def IndexerCall.expectedName (i : IndexerCall) : String := "index." ++ i.extension

/-- The least deep file of an extension below a directory, the first of several. -/
def FileSystem.searchIndex (fs : FileSystem) (cwd : Place) (root : Path) (extension : String) :
    Except ListingError (Option Path) :=
  (fs.listingByExtension cwd (fun _ => false) root extension).map List.head?

/-- The index in a working copy. -/
def FileSystem.locateIndex (fs : FileSystem) (cwd : Place) (root : Path)
    (call : IndexerCall) : Except IndexingError (Path × Sighting) :=
  let expected := root.child call.expectedName
  if fs.isFile cwd expected then .ok (expected, .expected)
  else
    match fs.searchIndex cwd root call.extension with
    | .error e => .error (.unlisted e)
    | .ok (some found) => .ok (found, .searched)
    | .ok none => .error (.noIndexLeft root call.extension)

/-- Runs the analyzer in a working copy. An analyzer that fails is not run again. -/
def Host.makeIndex (host : Host) (copy : WorkingCopy) (call : IndexerCall) :
    Effect IndexingError FoundIndex := do
  let command : Command :=
    ⟨call.tool.path, [call.subcommand, "."], some copy.path⟩
  let out ← (host.run call.tool.name command none call.timeout).mapError .child
  if !out.status.success then throw (.unsuccessful out.status out.stderr)
  match ← Effect.look fun fs => fs.locateIndex host.cwd copy.path call with
  | .error e => throw e
  | .ok (index, sighting) => pure ⟨index, out.status, out.stdout, out.stderr, sighting⟩

end CodeIndex
