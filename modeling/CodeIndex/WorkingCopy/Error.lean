import CodeIndex.Glob.Basic
import CodeIndex.Listing

/-!
# Why a project cannot be copied
-/

namespace CodeIndex

/-- Why there is no copy of a project. -/
inductive CopyError
  | noSource (path : Path)
  | sourceIsFile (path : Path)
  | overlap (destination source : Path)
  | unnamedProject (path : Path)
  | noTempDir (cause : IoError)
  | unresolved (path : Path) (cause : IoError)
  | notRemoved (path : Path) (cause : IoError)
  | noDirectory (path : Path) (cause : IoError)
  | entryNotCopied (source target : Path) (cause : IoError)
  | unlisted (cause : ListingError)
  | badPattern (cause : GlobError)
  deriving Repr, DecidableEq

namespace CopyError

def message : CopyError → String
  | .noSource p => "source project not found: " ++ p.text
  | .sourceIsFile p => "source is not a directory: " ++ p.text
  | .overlap destination source =>
    "destination " ++ destination.text ++ " overlaps the source project " ++ source.text
  | .unnamedProject p => "project path has no final component: " ++ p.text
  | .noTempDir e => "cannot create temporary directory: " ++ e.message
  | .unresolved p e => "cannot resolve destination " ++ p.text ++ ": " ++ e.message
  | .notRemoved p e => "cannot remove existing destination " ++ p.text ++ ": " ++ e.message
  | .noDirectory p e => "cannot create directory " ++ p.text ++ ": " ++ e.message
  | .entryNotCopied source target e =>
    "cannot copy " ++ source.text ++ " to " ++ target.text ++ ": " ++ e.message
  | .unlisted e => "cannot walk source tree: " ++ e.message
  | .badPattern e => "invalid copy exclusion pattern: " ++ e.message

/-- The messages of what caused the error. -/
def causes : CopyError → List String
  | .noTempDir e => [e.message]
  | .unresolved _ e => [e.message]
  | .notRemoved _ e => [e.message]
  | .noDirectory _ e => [e.message]
  | .entryNotCopied _ _ e => [e.message]
  | .unlisted e => [e.message]
  | .badPattern e => [e.message]
  | _ => []

end CopyError

end CodeIndex
