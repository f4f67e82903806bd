import Pipeworks.Script.Builtin
/-!
Evaluation of scripts. A run has a number of steps to spend; a loop or a call that finds none left stops it.
Values are copied on assignment and call; only a method, or a function on a variable, changes its receiver.
-/
namespace Pipeworks.Script

open Builtin (LogLine)

structure Local where
  name : String
  value : Value
  isConst : Bool

/-- Variables in scope, innermost first; what was printed, newest first; and the steps left. -/
structure State where
  locals : List Local
  log : List LogLine
  steps : Nat

/-- Why a piece of a script stopped before its end. -/
inductive Stop where
  | breakLoop
  | continueLoop
  | returned (v : Value)
  | thrown (v : Value)
  | fault (f : Fault)
  | exhausted

abbrev Eval := EStateM Stop State

/-- The functions of the script, and how many calls are open. -/
structure Context where
  functions : List Function
  depth : Nat

/-- A script may nest this many calls. -/
def deepestCall : Nat := 32

namespace Eval

def ofExcept {α : Type} (r : Except Fault α) : Eval α :=
  match r with
  | .ok a => pure a
  | .error f => throw (.fault f)

def tick : Eval Unit := fun s =>
  match s.steps with
  | 0 => .error .exhausted s
  | n + 1 => .ok () { s with steps := n }

def lookup (name : String) : Eval Value := fun s =>
  match s.locals.find? (·.name = name) with
  | some l => .ok l.value s
  | none => .error (.fault (.unknownVariable name)) s

/-- The variables after an assignment to the innermost one of a name. -/
def assigned (name : String) (v : Value) : List Local → Except Fault (List Local)
  | [] => .error (.unknownVariable name)
  | l :: rest =>
    if l.name = name then
      if l.isConst then .error (.constant name) else .ok ({ l with value := v } :: rest)
    else do return l :: (← assigned name v rest)

def store (name : String) (v : Value) : Eval Unit := fun s =>
  match assigned name v s.locals with
  | .ok locals => .ok () { s with locals }
  | .error f => .error (.fault f) s

def define (name : String) (v : Value) (isConst : Bool) : Eval Unit :=
  modify fun s => { s with locals := ⟨name, v, isConst⟩ :: s.locals }

/-- Forgets the variables defined since there were `n`. -/
def forget (n : Nat) : Eval Unit :=
  modify fun s => { s with locals := s.locals.drop (s.locals.length - n) }

def scopeSize : Eval Nat := do return (← get).locals.length

def small (v : Value) : Eval Value :=
  if v.isSmall then pure v else throw (.fault .tooLarge)

def print (l : Option LogLine) : Eval Unit :=
  match l with
  | some l => modify fun s => { s with log := l :: s.log }
  | none => pure ()

end Eval

/-- The variable at the root of a chain of properties and indexes, and the chain, outermost step last. -/
def Expr.path? : Expr → Option (String × List (String ⊕ Expr))
  | .var n => some (n, [])
  | .prop e name => e.path?.map fun (n, steps) => (n, steps ++ [.inl name])
  | .index e i => e.path?.map fun (n, steps) => (n, steps ++ [.inr i])
  | _ => none

open Eval

mutual
def eval : Nat → Context → Expr → Eval Value
  | 0, _, _ => throw .exhausted
  | fuel + 1, ctx, e =>
    match e with
    | .literal v => pure v
    | .var n => lookup n
    | .array items => do small (.array (← evalAll fuel ctx items))
    | .map fields => do small (.map (← evalFields fuel ctx [] fields))
    | .template parts => do
      small (.text (String.join ((← evalAll fuel ctx parts).map Value.toText)))
    | .unary op a => do ofExcept (Operator.unary op (← eval fuel ctx a))
    | .binary op a b => do
      let x ← eval fuel ctx a
      let y ← eval fuel ctx b
      ofExcept (Operator.apply op x y)
    | .and a b => do
      if ← evalBool fuel ctx a then return .bool (← evalBool fuel ctx b) else return .bool false
    | .or a b => do
      if ← evalBool fuel ctx a then return .bool true else return .bool (← evalBool fuel ctx b)
    | .call name args => call fuel ctx name args
    | .prop a name => do ofExcept (Access.get (← eval fuel ctx a) (.prop name))
    | .index a i => do
      let v ← eval fuel ctx a
      ofExcept (Access.get v (.index (← eval fuel ctx i)))
    | .method a name args => method fuel ctx a name args
    | .block body => block fuel ctx body
    | .cond test yes no => do
      if ← evalBool fuel ctx test then block fuel ctx yes else block fuel ctx no
    | .whileLoop test body => loopWhile fuel ctx (some test) body
    | .loop body => loopWhile fuel ctx none body
    | .forLoop name items body => do
      match ← eval fuel ctx items with
      | .array items => loopItems fuel ctx name body items
      | .range low high closed => loopRange fuel ctx name body low (if closed then high + 1 else high)
      | _ => throw (.fault .typeMismatch)

def evalAll : Nat → Context → List Expr → Eval (List Value)
  | 0, _, _ => throw .exhausted
  | _ + 1, _, [] => pure []
  | fuel + 1, ctx, e :: es => do
    let v ← eval fuel ctx e
    return v :: (← evalAll fuel ctx es)

def evalFields : Nat → Context → List (String × Value) → List (String × Expr) →
    Eval (List (String × Value))
  | 0, _, _, _ => throw .exhausted
  | _ + 1, _, acc, [] => pure acc
  | fuel + 1, ctx, acc, (k, e) :: es => do
    let v ← eval fuel ctx e
    evalFields fuel ctx (Value.put k v acc) es

def evalBool : Nat → Context → Expr → Eval Bool
  | 0, _, _ => throw .exhausted
  | fuel + 1, ctx, e => do
    match ← eval fuel ctx e with
    | .bool b => pure b
    | _ => throw (.fault .typeMismatch)

def evalPath : Nat → Context → List (String ⊕ Expr) → Eval (List Access)
  | 0, _, _ => throw .exhausted
  | _ + 1, _, [] => pure []
  | fuel + 1, ctx, .inl name :: steps => do return .prop name :: (← evalPath fuel ctx steps)
  | fuel + 1, ctx, .inr e :: steps => do
    let v ← eval fuel ctx e
    return .index v :: (← evalPath fuel ctx steps)

/-- Calls a function of the script, which sees only its parameters. -/
def callFunction : Nat → Context → Function → List Value → Eval Value
  | 0, _, _, _ => throw .exhausted
  | fuel + 1, ctx, f, args => do
    tick
    if deepestCall ≤ ctx.depth then throw (.fault .tooManyCalls)
    let outer := (← get).locals
    modify fun s => { s with locals := (f.params.zip args).reverse.map fun (n, v) => ⟨n, v, false⟩ }
    let v ← fun s =>
      match block fuel { ctx with depth := ctx.depth + 1 } f.body s with
      | .error (.returned v) s => .ok v s
      | r => r
    modify fun s => { s with locals := outer }
    return v

/-- A call by name: a function of the script, else one that every script has. The latter may change the
variable that is its first argument. -/
def call : Nat → Context → String → List Expr → Eval Value
  | 0, _, _, _ => throw .exhausted
  | fuel + 1, ctx, name, args => do
    let values ← evalAll fuel ctx args
    match ctx.functions.find? fun f => f.name = name ∧ f.params.length = args.length with
    | some f => callFunction fuel ctx f values
    | none =>
      match Builtin.apply name values with
      | none => throw (.fault (.unknownFunction name))
      | some r => do
        let out ← ofExcept r
        print out.printed
        match out.first, args with
        | some v, .var n :: _ => store n v
        | _, _ => pure ()
        return out.result

/-- A call on a receiver, which may be changed if it is a variable or a part of one. -/
def method : Nat → Context → Expr → String → List Expr → Eval Value
  | 0, _, _, _, _ => throw .exhausted
  | fuel + 1, ctx, e, name, args => do
    let (receiver, path) ← match e.path? with
      | some (root, steps) => do
        let path ← evalPath fuel ctx steps
        let v ← ofExcept (Access.getPath (← lookup root) path)
        pure (v, some (root, path))
      | none => do
        let v ← eval fuel ctx e
        pure (v, none)
    let values ← evalAll fuel ctx args
    match ctx.functions.find? fun f => f.name = name ∧ f.params.length = args.length with
    | some f => callFunction fuel ctx f values
    | none =>
      match Builtin.apply name (receiver :: values) with
      | none => throw (.fault (.unknownFunction name))
      | some r => do
        let out ← ofExcept r
        print out.printed
        match out.first, path with
        | some v, some (root, path) => do
          store root (← ofExcept (Access.setPath (← lookup root) v path))
        | _, _ => pure ()
        return out.result

/-- The value of a block is that of its last statement. -/
def block : Nat → Context → List Stmt → Eval Value
  | 0, _, _ => throw .exhausted
  | fuel + 1, ctx, body => do
    let n ← scopeSize
    let v ← statements fuel ctx .unit body
    forget n
    return v

def statements : Nat → Context → Value → List Stmt → Eval Value
  | 0, _, _, _ => throw .exhausted
  | _ + 1, _, last, [] => pure last
  | fuel + 1, ctx, _, s :: ss => do
    tick
    let v ← statement fuel ctx s
    statements fuel ctx v ss

def statement : Nat → Context → Stmt → Eval Value
  | 0, _, _ => throw .exhausted
  | fuel + 1, ctx, s =>
    match s with
    | .expr e => eval fuel ctx e
    | .define name value isConst => do
      let v ← match value with
        | some e => eval fuel ctx e
        | none => pure .unit
      define name v isConst
      return .unit
    | .assign target op value => do
      let v ← eval fuel ctx value
      match target.path? with
      | none => throw (.fault .misplaced)
      | some (root, steps) => do
        let path ← evalPath fuel ctx steps
        let whole ← lookup root
        let v ← match op with
          | none => pure v
          | some op => do
            let old ← ofExcept (Access.getPath whole path)
            ofExcept (Operator.combine op old v)
        store root (← ofExcept (Access.setPath whole v path))
        return .unit
    | .breakLoop => throw .breakLoop
    | .continueLoop => throw .continueLoop
    | .ret none => throw (.returned .unit)
    | .ret (some e) => do throw (.returned (← eval fuel ctx e))
    | .throw none => throw (.thrown .unit)
    | .throw (some e) => do throw (.thrown (← eval fuel ctx e))
    | .load e => do
      let _ ← eval fuel ctx e
      throw (.fault .noModule)

/-- One pass through the body of a loop; whether the loop goes on. -/
def pass : Nat → Context → List Stmt → Eval Bool
  | 0, _, _ => throw .exhausted
  | fuel + 1, ctx, body => do
    tick
    let n ← scopeSize
    fun s =>
      match block fuel ctx body s with
      | .ok _ s => .ok true s
      | .error .breakLoop s => .ok false { s with locals := s.locals.drop (s.locals.length - n) }
      | .error .continueLoop s => .ok true { s with locals := s.locals.drop (s.locals.length - n) }
      | .error e s => .error e s

/-- A loop with a test, or without one. -/
def loopWhile : Nat → Context → Option Expr → List Stmt → Eval Value
  | 0, _, _, _ => throw .exhausted
  | fuel + 1, ctx, test, body => fun s =>
    let tested := match test with
      | some e => evalBool fuel ctx e s
      | none => .ok true s
    match tested with
    | .error e s => .error e s
    | .ok false s => .ok .unit s
    | .ok true s =>
      match pass fuel ctx body s with
      | .error e s => .error e s
      | .ok false s => .ok .unit s
      | .ok true s => loopWhile fuel ctx test body s

def loopItems : Nat → Context → String → List Stmt → List Value → Eval Value
  | 0, _, _, _, _ => throw .exhausted
  | _ + 1, _, _, _, [] => pure .unit
  | fuel + 1, ctx, name, body, v :: vs => fun s =>
    let n := s.locals.length
    match pass fuel ctx body { s with locals := ⟨name, v, false⟩ :: s.locals } with
    | .error e s => .error e s
    | .ok goOn s =>
      let s := { s with locals := s.locals.drop (s.locals.length - n) }
      if goOn then loopItems fuel ctx name body vs s else .ok .unit s

def loopRange : Nat → Context → String → List Stmt → Int → Int → Eval Value
  | 0, _, _, _, _, _ => throw .exhausted
  | fuel + 1, ctx, name, body, i, stop => fun s =>
    if i < stop then
      let n := s.locals.length
      match pass fuel ctx body { s with locals := ⟨name, .int i, false⟩ :: s.locals } with
      | .error e s => .error e s
      | .ok goOn s =>
        let s := { s with locals := s.locals.drop (s.locals.length - n) }
        if goOn then loopRange fuel ctx name body (i + 1) stop s else .ok .unit s
    else .ok .unit s
end

end Pipeworks.Script
