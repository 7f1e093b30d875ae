import CodeIndex.Text.Utf8

/-!
# Glob patterns

A pattern is a list of tokens, and a token says which bytes it can take from the front of a path.
The whole path has to be taken.

* `GlobToken` : the tokens;
* `GlobToken.accepts` : what a token takes, with what has to be true of the rest;
* `Glob.isMatch` : whether a pattern takes a path;
* `Globs.isMatch` : whether one pattern of several does.
-/

namespace CodeIndex

/-- The characters from `first` to `last`. -/
structure CharRange where
  first : Char
  last : Char
  deriving Repr, DecidableEq

/-- A token of a glob pattern. -/
inductive GlobToken
  | literal (c : Char)
  /-- Any one byte, written `?`. -/
  | anyByte
  /-- Any bytes, slashes too, written `*`. -/
  | anyBytes
  /-- Any number of directories in front, written `**/`. Alone, it takes everything. -/
  | leadingDirs
  /-- Everything below a directory, written `/**` at the end. -/
  | everythingBelow
  /-- A slash, or directories between two slashes, written `/**/`. -/
  | innerDirs
  /-- One byte of a set, or one outside it, written `[…]`. -/
  | oneOf (negated : Bool) (ranges : List CharRange)
  /-- What one of the branches takes, the empty ones not counted, written between braces. -/
  | either (branches : List (List GlobToken))
  deriving Repr

/-- Why a text is no glob pattern. -/
inductive GlobFault
  | unclosedSet
  | invalidRange (first last : Char)
  | unopenedGroup
  | unclosedGroup
  | danglingEscape
  deriving Repr, DecidableEq

/-- A text that is no glob pattern. -/
structure GlobError where
  pattern : String
  fault : GlobFault
  deriving Repr, DecidableEq

def GlobFault.message : GlobFault → String
  | .unclosedSet => "unclosed character class; missing ']'"
  | .invalidRange a b => "invalid range; '" ++ a.toString ++ "' > '" ++ b.toString ++ "'"
  | .unopenedGroup =>
    "unopened alternate group; missing '\x7b' (maybe escape '\x7d' with '[\x7d]'?)"
  | .unclosedGroup =>
    "unclosed alternate group; missing '\x7d' (maybe escape '\x7b' with '[\x7b]'?)"
  | .danglingEscape => "dangling '\\'"

def GlobError.message (e : GlobError) : String :=
  "error parsing glob '" ++ e.pattern ++ "': " ++ e.fault.message

/-- The bytes of a range whose ends are written as bytes: only the bytes next to the dash span a
range, the others stand for themselves. -/
def CharRange.holds (r : CharRange) (b : UInt8) : Bool :=
  let first := String.utf8EncodeChar r.first
  let last := String.utf8EncodeChar r.last
  if r.first = r.last then first.contains b
  else
    first.dropLast.contains b || last.tail.contains b ||
      match first.getLast?, last.head? with
      | some low, some high => low ≤ b && b ≤ high
      | _, _ => false

namespace GlobToken

/-- Whether `k` holds of what is left after some of the bytes have been taken. -/
def afterAny (k : List UInt8 → Bool) : List UInt8 → Bool
  | [] => k []
  | b :: bs => k (b :: bs) || afterAny k bs

/-- Whether `k` holds of what is left after some bytes ending in a slash. -/
def afterSlash (k : List UInt8 → Bool) : List UInt8 → Bool
  | [] => false
  | b :: bs => (b == 0x2F && k bs) || afterSlash k bs

/-- Whether `k` holds of what is left after the given bytes. -/
def afterBytes (k : List UInt8 → Bool) : List UInt8 → List UInt8 → Bool
  | [], bs => k bs
  | a :: as, b :: bs => a == b && afterBytes k as bs
  | _ :: _, [] => false

mutual

/-- Whether a token can take nothing but the empty text. -/
def isVoid : GlobToken → Bool
  | .either branches => allVoid branches
  | _ => false

/-- Whether all tokens of a list are void. -/
def isVoidList : List GlobToken → Bool
  | [] => true
  | t :: ts => isVoid t && isVoidList ts

/-- Whether all branches are void. -/
def allVoid : List (List GlobToken) → Bool
  | [] => true
  | ts :: rest => isVoidList ts && allVoid rest

end

mutual

/-- Whether the token takes bytes from the front so that `k` holds of the rest. -/
def accepts (k : List UInt8 → Bool) : GlobToken → List UInt8 → Bool
  | .literal c, bs => afterBytes k (String.utf8EncodeChar c) bs
  | .anyByte, bs =>
    match bs with
    | [] => false
    | _ :: rest => k rest
  | .anyBytes, bs => afterAny k bs
  | .leadingDirs, bs => k bs || afterSlash k bs
  | .everythingBelow, bs =>
    match bs with
    | [] => false
    | b :: rest => b == 0x2F && afterAny k rest
  | .innerDirs, bs =>
    match bs with
    | [] => false
    | b :: rest => b == 0x2F && (k rest || afterSlash k rest)
  | .oneOf negated ranges, bs =>
    match bs with
    | [] => false
    | b :: rest => (ranges.any (·.holds b) != negated) && k rest
  | .either branches, bs => if allVoid branches then k bs else acceptsOne k branches bs

/-- Whether the tokens, one after the other, take bytes so that `k` holds of the rest. -/
def acceptsAll (k : List UInt8 → Bool) : List GlobToken → List UInt8 → Bool
  | [], bs => k bs
  | t :: ts, bs => accepts (fun rest => acceptsAll k ts rest) t bs

/-- Whether one branch that is not void takes bytes so that `k` holds of the rest. -/
def acceptsOne (k : List UInt8 → Bool) : List (List GlobToken) → List UInt8 → Bool
  | [], _ => false
  | ts :: rest, bs => (!isVoidList ts && acceptsAll k ts bs) || acceptsOne k rest bs

end

end GlobToken

/-- A pattern that has been read. -/
structure Glob where
  tokens : List GlobToken
  deriving Repr

/-- Whether the pattern takes the whole path. The lone token `leadingDirs` takes every path. -/
def Glob.isMatch (g : Glob) (path : String) : Bool :=
  match g.tokens with
  | [.leadingDirs] => true
  | tokens => GlobToken.acceptsAll List.isEmpty tokens (Text.Utf8.encode path)

/-- Patterns of which any may match. -/
abbrev Globs := List Glob

def Globs.isMatch (set : Globs) (path : String) : Bool := set.any (·.isMatch path)

end CodeIndex
