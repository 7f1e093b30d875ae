/-!
# Shell arithmetic

* `arithmetic?` : the value of an expression over integers and variables.
-/

namespace CodeIndex.Shell

/-- The operators from the loosest to the tightest. -/
def operatorLevels : List (List String) :=
  [["||"], ["&&"], ["==", "!="], ["<=", ">=", "<", ">"], ["+", "-"], ["*", "/", "%"]]

def ofBool (b : Bool) : Int := if b then 1 else 0

/-- The value of an operator; division by zero has none. -/
def combine? (op : String) (a b : Int) : Option Int :=
  match op with
  | "||" => some (ofBool (a != 0 || b != 0))
  | "&&" => some (ofBool (a != 0 && b != 0))
  | "==" => some (ofBool (a == b))
  | "!=" => some (ofBool (a != b))
  | "<=" => some (ofBool (a ≤ b))
  | ">=" => some (ofBool (b ≤ a))
  | "<" => some (ofBool (a < b))
  | ">" => some (ofBool (b < a))
  | "+" => some (a + b)
  | "-" => some (a - b)
  | "*" => some (a * b)
  | "/" => if b = 0 then none else some (a.tdiv b)
  | "%" => if b = 0 then none else some (a.tmod b)
  | _ => none

def skipBlanks (cs : List Char) : List Char := cs.dropWhile Char.isWhitespace

/-- The operator of a list that is at the front, and what follows it. -/
def operatorOf? (ops : List String) (cs : List Char) : Option (String × List Char) :=
  (ops.find? fun op => op.toList.isPrefixOf cs).map fun op => (op, cs.drop op.length)

mutual

/-- The value of an expression of the given levels, and what follows. -/
def term? (value : String → Int) : (fuel : Nat) → List (List String) → List Char →
    Option (Int × List Char)
  | 0, _, _ => none
  | fuel + 1, levels, cs =>
    match levels with
    | ops :: tighter => do
      let (a, rest) ← term? value fuel tighter cs
      more? value fuel ops tighter a rest
    | [] =>
      match skipBlanks cs with
      | '(' :: rest => do
        let (a, rest) ← term? value fuel operatorLevels rest
        match skipBlanks rest with
        | ')' :: rest => some (a, rest)
        | _ => none
      | '-' :: rest => (term? value fuel [] rest).map fun (a, rest) => (-a, rest)
      | '+' :: rest => term? value fuel [] rest
      | '!' :: rest => (term? value fuel [] rest).map fun (a, rest) => (ofBool (a == 0), rest)
      | '$' :: rest => term? value fuel [] rest
      | cs =>
        let run := cs.takeWhile fun c => c.isAlphanum || c = '_'
        let rest := cs.dropWhile fun c => c.isAlphanum || c = '_'
        if run.isEmpty then none
        else if run.all Char.isDigit then
          (String.ofList run).toNat?.map fun n => (Int.ofNat n, rest)
        else some (value (String.ofList run), rest)

/-- The value of what is joined to `a` by operators of one level, from the left. -/
def more? (value : String → Int) : (fuel : Nat) → List String → List (List String) → Int →
    List Char → Option (Int × List Char)
  | 0, _, _, _, _ => none
  | fuel + 1, ops, tighter, a, cs =>
    match operatorOf? ops (skipBlanks cs) with
    | none => some (a, cs)
    | some (op, rest) => do
      let (b, rest) ← term? value fuel tighter rest
      let c ← combine? op a b
      more? value fuel ops tighter c rest

end

/-- The value of an expression. -/
def arithmetic? (value : String → Int) (cs : List Char) : Option Int := do
  let (a, rest) ← term? value (10 * cs.length + 20) operatorLevels cs
  if (skipBlanks rest).isEmpty then some a else none

end CodeIndex.Shell
