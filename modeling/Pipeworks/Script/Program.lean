import Pipeworks.Script.Value
/-!
Programs: functions and top-level statements.
-/
namespace Pipeworks.Script

inductive UnaryOp where
  | neg
  | plus
  | not
deriving DecidableEq, Repr

inductive BinaryOp where
  | add | sub | mul | div | rem | pow
  | lt | le | gt | ge | eq | ne
  | isIn
  | range | closedRange
deriving DecidableEq, Repr

mutual
inductive Expr where
  | literal (v : Value)
  | var (name : String)
  | array (items : List Expr)
  | map (fields : List (String × Expr))
  /-- A text with expressions in it. -/
  | template (parts : List Expr)
  | unary (op : UnaryOp) (e : Expr)
  | binary (op : BinaryOp) (a b : Expr)
  | and (a b : Expr)
  | or (a b : Expr)
  | call (name : String) (args : List Expr)
  | prop (e : Expr) (name : String)
  | index (e i : Expr)
  | method (e : Expr) (name : String) (args : List Expr)
  | block (body : List Stmt)
  | cond (test : Expr) (yes no : List Stmt)
  | whileLoop (test : Expr) (body : List Stmt)
  | loop (body : List Stmt)
  | forLoop (name : String) (items : Expr) (body : List Stmt)

inductive Stmt where
  | expr (e : Expr)
  | define (name : String) (value : Option Expr) (isConst : Bool)
  /-- Assigns to a variable, a property or an index; an operator combines with the old value. -/
  | assign (target : Expr) (op : Option BinaryOp) (value : Expr)
  | breakLoop
  | continueLoop
  | ret (value : Option Expr)
  | throw (value : Option Expr)
  | load (path : Expr)
end

instance : Inhabited Expr := ⟨.literal .unit⟩
instance : Inhabited Stmt := ⟨.breakLoop⟩

/-- A function; it is known by its name and the number of its parameters. -/
structure Function where
  name : String
  params : List String
  body : List Stmt

structure Program where
  functions : List Function
  statements : List Stmt

end Pipeworks.Script
