import ViewLint.Settings.Hcl.Value

/-!
# HCL expressions and what they evaluate to

An expression is evaluated against the names in scope. Everything that can go wrong (an unknown
name, operands that do not fit, a missing member) leaves it without a value. There are no functions,
so a call never has a value. Both outcomes of a choice decide its type, but only the chosen one has
to have a value.
-/

namespace ViewLint.Hcl

/-- The operators with two operands. -/
inductive Operator where
  | or
  | and
  | equal
  | notEqual
  | greater
  | greaterEqual
  | less
  | lessEqual
  | add
  | sub
  | mul
  | div
  | mod
  deriving DecidableEq

/-- An expression. -/
inductive Expr where
  | literal (v : Value)
  | reference (name : List Char)
  /-- An expression that never has a value. -/
  | call
  | negate (e : Expr)
  | not (e : Expr)
  | binary (op : Operator) (a b : Expr)
  | choice (condition yes no : Expr)
  /-- Texts, one after the other. -/
  | template (parts : List Expr)
  /-- The texts of a tuple, one after the other. -/
  | joined (e : Expr)
  | tuple (items : List Expr)
  | object (members : List (Expr × Expr))
  | attr (e : Expr) (name : List Char)
  | index (e key : Expr)
  /-- The body, for each value that the source spreads to. -/
  | splat (source body : Expr)
  /-- The value that the body of a splat is evaluated for. -/
  | item
  | forTuple (key value : List Char) (source body condition : Expr)
  | forObject (key value : List Char) (source name body condition : Expr) (grouped : Bool)

/-- The names in scope, the innermost first. The item of a splat has the empty name. -/
abbrev Scope := List (List Char × Value)

namespace Operator

/-- The result of an operator on two values. -/
def result? (op : Operator) (a b : Value) : Option Value :=
  let numbers (f : Number → Number → Option Number) : Option Value := do
    return .number (← f (← a.toNumber?) (← b.toNumber?))
  let compared (f : Number → Number → Bool) : Option Value := do
    return .bool (f (← a.toNumber?) (← b.toNumber?))
  let bools (f : Bool → Bool → Bool) : Option Value := do
    return .bool (f (← a.toBool?) (← b.toBool?))
  match op with
  | or => bools (· || ·)
  | and => bools (· && ·)
  | equal => some (.bool (a.same b))
  | notEqual => some (.bool (!a.same b))
  | greater => compared fun x y => y.less x
  | greaterEqual => compared fun x y => !x.less y
  | less => compared Number.less
  | lessEqual => compared fun x y => !y.less x
  | add => numbers Number.add?
  | sub => numbers Number.sub?
  | mul => numbers Number.mul?
  | div => numbers Number.div?
  | mod => numbers Number.mod?

end Operator

/-- The result of a choice. An outcome without a value does not matter unless it is chosen. -/
def choose? (condition : Bool) (yes no : Option Value) : Option Value :=
  match yes, no with
  | some y, some n => (Value.unify? y n).map fun (y, n) => if condition then y else n
  | _, _ => if condition then yes else no

/-- Collects members; a name that comes twice is a fault, or its values are grouped. -/
def collect? (grouped : Bool) (members : List (List Char × Value)) : Option Value :=
  (members.foldlM (fun (all : List (List Char × Value)) (name, v) =>
    match all.lookup name with
    | none => some (Value.insert name (if grouped then .tuple [v] else v) all)
    | some (.tuple vs) =>
      if grouped then some (Value.insert name (.tuple (vs ++ [v])) all) else none
    | some _ => none) []).map .object

namespace Expr

mutual

/-- The value of an expression. -/
def eval? (scope : Scope) : Expr → Option Value
  | .literal v => some v
  | .reference n => scope.lookup n
  | .call => none
  | .negate e => do return .number (← (← e.eval? scope).toNumber?).neg
  | .not e => do return .bool (!(← (← e.eval? scope).toBool?))
  | .binary op a b => do op.result? (← a.eval? scope) (← b.eval? scope)
  | .choice c y n => do
    choose? (← (← c.eval? scope).toBool?) (y.eval? scope) (n.eval? scope)
  | .template parts => do
    return .string (← (← evalAll? scope parts).mapM Value.toText?).flatten
  | .joined e => do
    match ← e.eval? scope with
    | .tuple items => return .string (← items.mapM Value.toText?).flatten
    | _ => none
  | .tuple items => do return .tuple (← evalAll? scope items)
  | .object members => do
    let members ← evalMembers? scope members
    return .object (members.foldl (fun all (name, v) => Value.insert name v all) [])
  | .attr e name => do (← e.eval? scope).attr? name
  | .index e key => do (← e.eval? scope).index? (← key.eval? scope)
  | .splat source body => do
    let items := (← source.eval? scope).spread
    return .tuple (← items.mapM fun v => body.eval? (([], v) :: scope))
  | .item => scope.lookup []
  | .forTuple key value source body condition => do
    let found ← (← (← source.eval? scope).entries?).mapM fun (k, v) => do
      let inner : Scope := (value, v) :: (key, k) :: scope
      if ← (← condition.eval? inner).toBool? then return [← body.eval? inner] else return []
    return .tuple found.flatten
  | .forObject key value source name body condition grouped => do
    let found ← (← (← source.eval? scope).entries?).mapM fun (k, v) => do
      let inner : Scope := (value, v) :: (key, k) :: scope
      if ← (← condition.eval? inner).toBool? then
        return [(← (← name.eval? inner).toText?, ← body.eval? inner)]
      else return []
    collect? grouped found.flatten

/-- The values of several expressions. -/
def evalAll? (scope : Scope) : List Expr → Option (List Value)
  | [] => some []
  | e :: rest => do return (← e.eval? scope) :: (← evalAll? scope rest)

/-- The members of an object expression, in the order in which they are written. -/
def evalMembers? (scope : Scope) : List (Expr × Expr) → Option (List (List Char × Value))
  | [] => some []
  | (key, e) :: rest => do
    return (← (← key.eval? scope).toText?, ← e.eval? scope) :: (← evalMembers? scope rest)

end

end Expr

end ViewLint.Hcl
