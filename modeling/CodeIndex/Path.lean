import CodeIndex.Text.Blank
import CodeIndex.Text.Quoted

/-!
# Paths

A path is a text in which slashes separate names. Two paths may be written differently and have
the same components; what is printed is always the text.

* `Path.components` : the root, `.` in front, `..` and names, everything redundant dropped;
* `Path.join`, `Path.parent?`, `Path.fileName?`, `Path.extension?` : taking texts apart;
* `Path.absolute` : a path seen from a directory, `..` kept;
* `Path.startsWith`, `Path.le` : prefix and order by components;
* `Path.relativeTo` : the way from one directory to a path.

Nothing here looks at a file system.
-/

namespace CodeIndex

/-- A path as it was written. -/
structure Path where
  text : String
  deriving Repr, DecidableEq, Inhabited

/-- One step of a path. -/
inductive Component
  | root
  | current
  | parent
  | name (text : String)
  deriving Repr, DecidableEq

namespace Component

/-- The step as it is written in a path. -/
def text : Component → String
  | .root => "/"
  | .current => "."
  | .parent => ".."
  | .name s => s

/-- The order of steps: the root first, names last and by code point. -/
def compare : Component → Component → Ordering
  | .name a, .name b => compareOfLessAndEq a b
  | a, b => compareOfLessAndEq (rank a) (rank b)
where
  rank : Component → Nat
    | .root => 0
    | .current => 1
    | .parent => 2
    | .name _ => 3

end Component

namespace Path

instance : ToString Path := ⟨Path.text⟩

/-- The pieces of a text between slashes. -/
def pieces (text : String) : List String :=
  (Text.splitOn '/' text.toList).map String.ofList

/-- Whether the path starts at the root. -/
def isAbsolute (p : Path) : Bool := p.text.toList.head? = some '/'

/-- The pieces after the slash of the root, if there is one. -/
def body (p : Path) : List String :=
  if p.isAbsolute then (pieces p.text).drop 1 else pieces p.text

/-- The step that a piece stands for; empty pieces and `.` stand for none. -/
def step? (piece : String) : Option Component :=
  if piece = "" ∨ piece = "." then none
  else if piece = ".." then some .parent
  else some (.name piece)

/-- The steps of a path. A `.` counts only at the front of a relative path. -/
def components (p : Path) : List Component :=
  if p.isAbsolute then .root :: p.body.filterMap step?
  else
    match p.body with
    | "." :: rest => .current :: rest.filterMap step?
    | body => body.filterMap step?

/-- The path `q` seen from `p`: an absolute `q` stands alone. -/
def join (p q : Path) : Path :=
  if q.isAbsolute then q
  else if p.text.isEmpty then q
  else if p.text.toList.getLast? = some '/' then ⟨p.text ++ q.text⟩
  else ⟨p.text ++ "/" ++ q.text⟩

/-- A name below `p`. -/
def child (p : Path) (name : String) : Path := p.join ⟨name⟩

/-- The path with the given steps. -/
def ofComponents (cs : List Component) : Path :=
  cs.foldl (fun p c => p.join ⟨c.text⟩) ⟨""⟩

/-- The absolute path of a list of names. -/
def ofNames (names : List String) : Path := ⟨"/" ++ Text.joinWith "/" names⟩

/-- Whether a piece adds no step. -/
def isTrivial (piece : String) : Bool := piece = "" ∨ piece = "."

/-- Drops the trivial pieces at the end. -/
def dropTrivialEnd (ps : List String) : List String :=
  (ps.reverse.dropWhile isTrivial).reverse

/-- Drops the trivial pieces at the end, except a `.` that starts a relative path. -/
def trimEnd (absolute : Bool) : List String → List String
  | "." :: rest => if absolute then dropTrivialEnd ("." :: rest) else "." :: dropTrivialEnd rest
  | ps => dropTrivialEnd ps

/-- The path without its last step, as it was written; `none` for the root and the empty path. -/
def parent? (p : Path) : Option Path :=
  match p.components.getLast? with
  | none | some .root => none
  | _ =>
    let abs := p.isAbsolute
    let rest := trimEnd abs (trimEnd abs p.body).dropLast
    some ⟨(if abs then "/" else "") ++ Text.joinWith "/" rest⟩

/-- The last step, if it is a name. -/
def fileName? (p : Path) : Option String :=
  match p.components.getLast? with
  | some (.name s) => some s
  | _ => none

/-- A name split at its last dot, unless there is none or it comes first. -/
def splitName? (name : String) : Option (String × String) :=
  let cs := name.toList.reverse
  match cs.dropWhile (· != '.') with
  | [] => none
  | _ :: before =>
    if before.isEmpty || name = ".." then none
    else some (String.ofList before.reverse, String.ofList (cs.takeWhile (· != '.')).reverse)

/-- What follows the last dot of the file name. -/
def extension? (p : Path) : Option String :=
  (p.fileName?.bind splitName?).map Prod.snd

/-- The path itself, its parent, the parent of that, and so on. -/
def ancestors (p : Path) : List Path :=
  go (p.components.length + 1) p
where
  go : Nat → Path → List Path
    | 0, _ => []
    | fuel + 1, p =>
      match p.parent? with
      | none => [p]
      | some q => p :: go fuel q

/-- A path seen from the directory `cwd`. Redundant pieces go, `..` stays, a slash at the end
stays, and so do exactly two slashes in front. -/
def absolute (cwd p : Path) : Path :=
  let cs := p.text.toList
  let steps := p.components.filter (· != .current)
  let base : Path :=
    if p.isAbsolute then
      if cs.take 2 = ['/', '/'] ∧ cs.take 3 ≠ ['/', '/', '/'] then ⟨"//"⟩ else ⟨"/"⟩
    else cwd
  let full := (steps.filter (· != .root)).foldl (fun q c => q.join ⟨c.text⟩) base
  if cs.getLast? = some '/' then full.join ⟨""⟩ else full

/-- Whether the steps of `q` begin those of `p`. -/
def startsWith (p q : Path) : Bool := q.components.isPrefixOf p.components

/-- Whether two paths have the same steps. -/
def sameSteps (p q : Path) : Bool := p.components = q.components

/-- Compares lists of steps, a shorter list before its extensions. -/
def compareSteps : List Component → List Component → Ordering
  | [], [] => .eq
  | [], _ :: _ => .lt
  | _ :: _, [] => .gt
  | a :: as, b :: bs => (a.compare b).then (compareSteps as bs)

/-- The order of paths by their steps. -/
def compare (p q : Path) : Ordering := compareSteps p.components q.components

/-- The steps from a directory to a path, both absolute; `none` where `..` would have to be
undone. -/
def wayFrom : (taken : Bool) → List Component → List Component → Option (List Component)
  | _, [], [] => some []
  | _, a :: as, [] => some (a :: as)
  | _, [], _ :: bs => (wayFrom true [] bs).map (.parent :: ·)
  | taken, a :: as, b :: bs =>
    if !taken && a == b then wayFrom false as bs
    else if b == .current then (wayFrom true as bs).map (a :: ·)
    else if b == .parent then none
    else some (.parent :: bs.map (fun _ => .parent) ++ a :: as)

/-- The path `p` seen from the directory `base`, if there is a way. -/
def relativeTo? (p base : Path) : Option Path :=
  if p.isAbsolute != base.isAbsolute then (if p.isAbsolute then some p else none)
  else (wayFrom false p.components base.components).map ofComponents

/-- The path between quotes. -/
def quoted (p : Path) : String := Text.quoted p.text

end Path

end CodeIndex
