import Catchment.Scalar

/-!
# Flux expressions

A formula over named variables, named parameters and constants. Nothing is simplified and nothing
is rearranged: the tree is what was written.
-/
namespace Catchment

inductive Unary where
  | neg | not | exp | log | sqrt | abs | sign | sin | cos | tanh
  deriving DecidableEq, Repr

inductive Binary where
  | add | sub | mul | div | pow | lt | le | gt | ge | and | or | min | max
  deriving DecidableEq, Repr

inductive Expr (K : Type) where
  /-- An input, a state or another flux. -/
  | var (name : String)
  /-- A parameter, possibly with a value per node. -/
  | par (name : String)
  | const (value : K)
  | unary (op : Unary) (a : Expr K)
  | binary (op : Binary) (a b : Expr K)
  /-- The second expression where the first is true, the third elsewhere. -/
  | choose (c a b : Expr K)
  deriving Repr

def Unary.all : List Unary := [.neg, .not, .exp, .log, .sqrt, .abs, .sign, .sin, .cos, .tanh]

def Binary.all : List Binary :=
  [.add, .sub, .mul, .div, .pow, .lt, .le, .gt, .ge, .and, .or, .min, .max]

def Unary.name : Unary → String
  | neg => "neg"
  | not => "not"
  | exp => "exp"
  | log => "log"
  | sqrt => "sqrt"
  | abs => "abs"
  | sign => "sign"
  | sin => "sin"
  | cos => "cos"
  | tanh => "tanh"

def Binary.name : Binary → String
  | add => "add"
  | sub => "sub"
  | mul => "mul"
  | div => "div"
  | pow => "pow"
  | lt => "lt"
  | le => "le"
  | gt => "gt"
  | ge => "ge"
  | and => "and"
  | or => "or"
  | min => "min"
  | max => "max"

def Unary.ofName? (s : String) : Option Unary := Unary.all.find? fun op => op.name = s

def Binary.ofName? (s : String) : Option Binary := Binary.all.find? fun op => op.name = s

/-- The mark between the operands; `none` for the operations written as calls. -/
def Binary.mark? : Binary → Option String
  | add => some "+"
  | sub => some "-"
  | mul => some "*"
  | div => some "/"
  | pow => some "**"
  | lt => some "<"
  | le => some "<="
  | gt => some ">"
  | ge => some ">="
  | and => some "and"
  | or => some "or"
  | min => none
  | max => none

def Binary.isComparison : Binary → Bool
  | lt | le | gt | ge => true
  | _ => false

def Binary.isLogic : Binary → Bool
  | and | or => true
  | _ => false

/-- The comparison with its operands exchanged. -/
def Binary.exchanged : Binary → Binary
  | lt => gt
  | le => ge
  | gt => lt
  | ge => le
  | op => op

namespace Expr

variable {K : Type}

def children : Expr K → List (Expr K)
  | var _ | par _ | const _ => []
  | unary _ a => [a]
  | binary _ a b => [a, b]
  | choose c a b => [c, a, b]

/-- Every compound formula stands in brackets. -/
def text [Scalar K] : Expr K → String
  | var name => name
  | par name => name
  | const value => Scalar.text value
  | unary .neg a => "(-" ++ a.text ++ ")"
  | unary .not a => "(not " ++ a.text ++ ")"
  | unary op a => op.name ++ "(" ++ a.text ++ ")"
  | binary op a b =>
    match op.mark? with
    | some mark => "(" ++ a.text ++ " " ++ mark ++ " " ++ b.text ++ ")"
    | none => op.name ++ "(" ++ a.text ++ ", " ++ b.text ++ ")"
  | choose c a b => "(if " ++ c.text ++ " then " ++ a.text ++ " else " ++ b.text ++ ")"

/-- Structural equality; constants are compared as numbers. -/
def same [Scalar K] : Expr K → Expr K → Bool
  | var m, var n => m = n
  | par m, par n => m = n
  | const x, const y => Scalar.eq x y
  | unary o a, unary p b => o = p && a.same b
  | binary o a b, binary p c d => o = p && a.same c && b.same d
  | choose a b c, choose d e f => a.same d && b.same e && c.same f
  | _, _ => false

end Expr

/-- Names in order of first occurrence. -/
def firstOccurrences (names : List String) : List String :=
  names.foldl (fun seen n => if seen.contains n then seen else seen ++ [n]) []

/-- The names of several groups in order of first occurrence. -/
def orderedUnion (groups : List (List String)) : List String := firstOccurrences groups.flatten

namespace Expr

variable {K : Type}

/-- The variables read, from left to right. -/
def reads : Expr K → List String
  | var name => [name]
  | par _ | const _ => []
  | unary _ a => a.reads
  | binary _ a b => a.reads ++ b.reads
  | choose c a b => c.reads ++ a.reads ++ b.reads

/-- The parameters read, from left to right. -/
def readsParams : Expr K → List String
  | par name => [name]
  | var _ | const _ => []
  | unary _ a => a.readsParams
  | binary _ a b => a.readsParams ++ b.readsParams
  | choose c a b => c.readsParams ++ a.readsParams ++ b.readsParams

def varNames (e : Expr K) : List String := firstOccurrences e.reads

def parNames (e : Expr K) : List String := firstOccurrences e.readsParams

end Expr

end Catchment
