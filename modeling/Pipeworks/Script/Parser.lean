import Pipeworks.Script.Program
import Pipeworks.Script.Token
/-!
From words to programs. Expressions nest at most 64 levels deep. A name that is defined as a constant may not
be the target of an assignment; which names are constants is known while parsing.
-/
namespace Pipeworks.Script.Parser

/-- The names in scope, innermost first, and whether each is a constant. -/
abbrev Names := List (String × Bool)

def deepest : Nat := 64

/-- Where an expression or statement stands: how deep, and whether within a loop. -/
structure Spot where
  level : Nat
  inLoop : Bool

def enter (spot : Spot) : Except ParseError Spot :=
  if deepest ≤ spot.level then .error .tooDeep else .ok { spot with level := spot.level + 1 }

def Spot.looping (spot : Spot) : Spot := { spot with inLoop := true }

def isConstant (names : Names) (n : String) : Bool :=
  ((names.find? (·.1 = n)).map (·.2)).getD false

/-- The fault of words that do not fit. -/
def misfit : List Token → ParseError
  | [] => .unexpectedEnd
  | .reserved s :: _ => .reservedWord s
  | _ => .unexpected

def expect (s : String) : List Token → Except ParseError (List Token)
  | .sign s' :: ts => if s' = s then .ok ts else .error .unexpected
  | ts => .error (misfit ts)

def expectWord (s : String) : List Token → Except ParseError (List Token)
  | .keyword s' :: ts => if s' = s then .ok ts else .error .unexpected
  | ts => .error (misfit ts)

/-- How an operator between two expressions binds: the higher, the tighter. -/
inductive Link where
  | op (o : BinaryOp)
  | andLink
  | orLink

def link? : Token → Option (Link × Nat)
  | .sign "||" => some (.orLink, 30)
  | .sign "&&" => some (.andLink, 60)
  | .sign "==" => some (.op .eq, 90)
  | .sign "!=" => some (.op .ne, 90)
  | .keyword "in" => some (.op .isIn, 110)
  | .sign "<" => some (.op .lt, 130)
  | .sign "<=" => some (.op .le, 130)
  | .sign ">" => some (.op .gt, 130)
  | .sign ">=" => some (.op .ge, 130)
  | .sign ".." => some (.op .range, 140)
  | .sign "..=" => some (.op .closedRange, 140)
  | .sign "+" => some (.op .add, 150)
  | .sign "-" => some (.op .sub, 150)
  | .sign "*" => some (.op .mul, 180)
  | .sign "/" => some (.op .div, 180)
  | .sign "%" => some (.op .rem, 180)
  | .sign "**" => some (.op .pow, 190)
  | _ => none

def Link.join (l : Link) (a b : Expr) : Expr :=
  match l with
  | .op o => .binary o a b
  | .andLink => .and a b
  | .orLink => .or a b

/-- Only powers group to the right. -/
def Link.toRight : Link → Bool
  | .op .pow => true
  | _ => false

/-- The operator of an assignment; `none` for plain assignment. -/
def assignment? : Token → Option (Option BinaryOp)
  | .sign "=" => some none
  | .sign "+=" => some (some .add)
  | .sign "-=" => some (some .sub)
  | .sign "*=" => some (some .mul)
  | .sign "/=" => some (some .div)
  | .sign "%=" => some (some .rem)
  | .sign "**=" => some (some .pow)
  | _ => none

/-- Whether something can be assigned to an expression. -/
def checkTarget (names : Names) : Expr → Except ParseError Unit
  | .var n => if isConstant names n then .error (.constant n) else .ok ()
  | .prop e _ => checkRoot e
  | .index e _ => checkRoot e
  | _ => .error .badTarget
where
  checkRoot : Expr → Except ParseError Unit
  | .var n => if isConstant names n then .error (.constant n) else .ok ()
  | .prop e _ => checkRoot e
  | .index e _ => checkRoot e
  | .method e _ _ => checkRoot e
  | .call .. => .ok ()
  | _ => .error .badTarget

/-- A minus before a number belongs to the number. -/
def negated : Expr → Expr
  | .literal (.int i) => if Value.fits (-i) then .literal (.int (-i)) else .unary .neg (.literal (.int i))
  | .literal (.float x) => .literal (.float (-x))
  | e => .unary .neg e

def affirmed : Expr → Expr
  | .literal (.int i) => .literal (.int i)
  | .literal (.float x) => .literal (.float x)
  | e => .unary .plus e

/-- Whether a statement may end without a semicolon. -/
def endsItself : Stmt → Bool
  | .expr (.block _) => true
  | .expr (.cond ..) => true
  | .expr (.whileLoop ..) => true
  | .expr (.loop _) => true
  | .expr (.forLoop ..) => true
  | _ => false

/-- The start of a statement that is a block, a condition or a loop. -/
def startsControl : List Token → Bool
  | .sign "\x7b" :: _ => true
  | .keyword k :: _ => ["if", "while", "loop", "for"].contains k
  | _ => false

def atEnd : List Token → Bool
  | [] => true
  | .sign ";" :: _ => true
  | .sign "\x7d" :: _ => true
  | .holeEnd :: _ => true
  | _ => false

mutual
def expr : Nat → Spot → Names → List Token → Except ParseError (Expr × List Token)
  | 0, _, _, _ => .error .unexpectedEnd
  | fuel + 1, spot, names, ts => do
    let spot ← enter spot
    let (a, ts) ← unary fuel spot names ts
    links fuel spot names 1 a ts

/-- Continues an expression with the operators that bind at least as tightly as `least`. -/
def links : Nat → Spot → Names → Nat → Expr → List Token → Except ParseError (Expr × List Token)
  | 0, _, _, _, _, _ => .error .unexpectedEnd
  | fuel + 1, spot, names, least, a, ts =>
    match ts.head?.bind link? with
    | none => .ok (a, ts)
    | some (l, p) =>
      if p < least then .ok (a, ts)
      else do
        let (b, ts) ← unary fuel spot names ts.tail
        let (b, ts) ← links fuel spot names (if l.toRight then p else p + 1) b ts
        links fuel spot names least (l.join a b) ts

def unary : Nat → Spot → Names → List Token → Except ParseError (Expr × List Token)
  | 0, _, _, _ => .error .unexpectedEnd
  | fuel + 1, spot, names, ts =>
    match ts with
    | .sign "-" :: ts => do
      let (e, ts) ← unary fuel (← enter spot) names ts
      return (negated e, ts)
    | .sign "+" :: ts => do
      let (e, ts) ← unary fuel (← enter spot) names ts
      return (affirmed e, ts)
    | .sign "!" :: ts => do
      let (e, ts) ← unary fuel (← enter spot) names ts
      return (.unary .not e, ts)
    | ts => do
      let (e, ts) ← primary fuel spot names ts
      suffixes fuel spot names e ts

def primary : Nat → Spot → Names → List Token → Except ParseError (Expr × List Token)
  | 0, _, _, _ => .error .unexpectedEnd
  | fuel + 1, spot, names, ts =>
    match ts with
    | .int i :: ts => .ok (.literal (.int i), ts)
    | .float x :: ts => .ok (.literal (.float x), ts)
    | .text s :: ts => .ok (.literal (.text s), ts)
    | .char c :: ts => .ok (.literal (.char c), ts)
    | .keyword "true" :: ts => .ok (.literal (.bool true), ts)
    | .keyword "false" :: ts => .ok (.literal (.bool false), ts)
    | .name n :: .sign "(" :: ts => do
      let (args, ts) ← arguments fuel (← enter spot) names ")" ts
      return (.call n args, ts)
    | .name n :: ts => .ok (.var n, ts)
    | .sign "(" :: .sign ")" :: ts => .ok (.literal .unit, ts)
    | .sign "(" :: ts => do
      let (e, ts) ← expr fuel (← enter spot) names ts
      return (e, ← expect ")" ts)
    | .sign "[" :: ts => do
      let (items, ts) ← arguments fuel (← enter spot) names "]" ts
      return (.array items, ts)
    | .sign "#\x7b" :: ts => do
      let (fields, ts) ← mapFields fuel (← enter spot) names [] ts
      return (.map fields, ts)
    | .templateStart :: ts => do
      let (parts, ts) ← template fuel (← enter spot) names ts
      return (.template parts, ts)
    | ts => if startsControl ts then control fuel spot names ts else .error (misfit ts)

/-- Properties, indexes and calls after an expression. -/
def suffixes : Nat → Spot → Names → Expr → List Token → Except ParseError (Expr × List Token)
  | 0, _, _, _, _ => .error .unexpectedEnd
  | fuel + 1, spot, names, e, ts =>
    match ts with
    | .sign "." :: .name n :: .sign "(" :: ts => do
      let (args, ts) ← arguments fuel (← enter spot) names ")" ts
      suffixes fuel spot names (.method e n args) ts
    | .sign "." :: .name n :: ts => suffixes fuel spot names (.prop e n) ts
    | .sign "." :: ts => .error (misfit ts)
    | .sign "[" :: ts => do
      let (i, ts) ← expr fuel (← enter spot) names ts
      suffixes fuel spot names (.index e i) (← expect "]" ts)
    | ts => .ok (e, ts)

/-- Expressions between commas up to a closing sign. -/
def arguments : Nat → Spot → Names → String → List Token → Except ParseError (List Expr × List Token)
  | 0, _, _, _, _ => .error .unexpectedEnd
  | fuel + 1, spot, names, close, ts =>
    if ts.head? == some (.sign close) then .ok ([], ts.tail)
    else do
      let (e, ts) ← expr fuel spot names ts
      match ts with
      | .sign "," :: ts => do
        let (es, ts) ← arguments fuel spot names close ts
        return (e :: es, ts)
      | ts => return ([e], ← expect close ts)

def mapFields : Nat → Spot → Names → List String → List Token → Except ParseError (List (String × Expr) × List Token)
  | 0, _, _, _, _ => .error .unexpectedEnd
  | fuel + 1, spot, names, seen, ts =>
    if ts.head? == some (.sign "\x7d") then .ok ([], ts.tail)
    else do
      let (key, ts) ← match ts with
        | .name n :: ts => pure (n, ts)
        | .text s :: ts => pure (s, ts)
        | ts => throw (misfit ts)
      if seen.contains key then throw (.duplicateField key)
      let (e, ts) ← expr fuel spot names (← expect ":" ts)
      match ts with
      | .sign "," :: ts => do
        let (es, ts) ← mapFields fuel spot names (key :: seen) ts
        return ((key, e) :: es, ts)
      | ts => return ([(key, e)], ← expect "\x7d" ts)

def template : Nat → Spot → Names → List Token → Except ParseError (List Expr × List Token)
  | 0, _, _, _ => .error .unexpectedEnd
  | fuel + 1, spot, names, ts =>
    match ts with
    | .templateText s :: ts => do
      let (parts, ts) ← template fuel spot names ts
      return (.literal (.text s) :: parts, ts)
    | .holeStart :: ts => do
      let (body, _, ts) ← statements fuel spot names ts
      match ts with
      | .holeEnd :: ts => do
        let (parts, ts) ← template fuel spot names ts
        return (.block body :: parts, ts)
      | ts => throw (misfit ts)
    | .templateEnd :: ts => .ok ([], ts)
    | ts => .error (misfit ts)

def block : Nat → Spot → Names → List Token → Except ParseError (List Stmt × List Token)
  | 0, _, _, _ => .error .unexpectedEnd
  | fuel + 1, spot, names, ts => do
    let spot ← enter spot
    let (body, _, ts) ← statements fuel spot names (← expect "\x7b" ts)
    return (body, ← expect "\x7d" ts)

def control : Nat → Spot → Names → List Token → Except ParseError (Expr × List Token)
  | 0, _, _, _ => .error .unexpectedEnd
  | fuel + 1, spot, names, ts => do
    let spot ← enter spot
    match ts with
    | .keyword "if" :: ts => do
      let (test, ts) ← expr fuel spot names ts
      let (yes, ts) ← block fuel spot names ts
      match ts with
      | .keyword "else" :: .keyword "if" :: rest => do
        let (no, ts) ← control fuel spot names (.keyword "if" :: rest)
        return (.cond test yes [.expr no], ts)
      | .keyword "else" :: ts => do
        let (no, ts) ← block fuel spot names ts
        return (.cond test yes no, ts)
      | ts => return (.cond test yes [], ts)
    | .keyword "while" :: ts => do
      let (test, ts) ← expr fuel spot names ts
      let (body, ts) ← block fuel spot.looping names ts
      return (.whileLoop test body, ts)
    | .keyword "loop" :: ts => do
      let (body, ts) ← block fuel spot.looping names ts
      return (.loop body, ts)
    | .keyword "for" :: .name n :: ts => do
      let (items, ts) ← expr fuel spot names (← expectWord "in" ts)
      let (body, ts) ← block fuel spot.looping ((n, false) :: names) ts
      return (.forLoop n items body, ts)
    | .sign "\x7b" :: _ => do
      let (body, ts) ← block fuel spot names ts
      return (.block body, ts)
    | ts => throw (misfit ts)

/-- Statements up to a closing brace or the end, and the names they define. -/
def statements : Nat → Spot → Names → List Token → Except ParseError (List Stmt × Names × List Token)
  | 0, _, _, _ => .error .unexpectedEnd
  | fuel + 1, spot, names, ts =>
    match ts with
    | [] => .ok ([], names, [])
    | .sign "\x7d" :: _ => .ok ([], names, ts)
    | .holeEnd :: _ => .ok ([], names, ts)
    | .sign ";" :: ts => statements fuel spot names ts
    | ts => do
      let (s, names, ts) ← statement fuel spot names ts
      let (ss, names, ts) ← match ts with
        | .sign ";" :: ts => statements fuel spot names ts
        | ts =>
          if atEnd ts ∨ endsItself s then statements fuel spot names ts else throw (misfit ts)
      return (s :: ss, names, ts)

def statement : Nat → Spot → Names → List Token → Except ParseError (Stmt × Names × List Token)
  | 0, _, _, _ => .error .unexpectedEnd
  | fuel + 1, spot, names, ts => do
    let spot ← enter spot
    match ts with
    | .keyword "let" :: .name n :: ts => do
      let (value, ts) ← initial fuel spot names ts
      return (.define n value false, (n, false) :: names, ts)
    | .keyword "const" :: .name n :: ts => do
      let (value, ts) ← initial fuel spot names ts
      return (.define n value true, (n, true) :: names, ts)
    | .keyword "break" :: ts =>
      if spot.inLoop then return (.breakLoop, names, ts) else throw .outsideLoop
    | .keyword "continue" :: ts =>
      if spot.inLoop then return (.continueLoop, names, ts) else throw .outsideLoop
    | .keyword "return" :: ts => do
      let (value, ts) ← optional fuel spot names ts
      return (.ret value, names, ts)
    | .keyword "throw" :: ts => do
      let (value, ts) ← optional fuel spot names ts
      return (.throw value, names, ts)
    | .keyword "import" :: ts => do
      let (path, ts) ← expr fuel spot names ts
      match ts with
      | .keyword "as" :: .name _ :: ts => return (.load path, names, ts)
      | ts => return (.load path, names, ts)
    | .keyword "fn" :: _ => throw .misplacedFunction
    | .keyword "private" :: _ => throw .misplacedFunction
    | ts =>
      if startsControl ts then do
        let (e, ts) ← control fuel spot names ts
        return (.expr e, names, ts)
      else do
        let (e, ts) ← expr fuel spot names ts
        match ts.head?.bind assignment? with
        | none => return (.expr e, names, ts)
        | some op => do
          checkTarget names e
          let (value, ts) ← expr fuel spot names ts.tail
          return (.assign e op value, names, ts)

def initial : Nat → Spot → Names → List Token → Except ParseError (Option Expr × List Token)
  | 0, _, _, _ => .error .unexpectedEnd
  | fuel + 1, spot, names, ts =>
    match ts with
    | .sign "=" :: ts => do
      let (e, ts) ← expr fuel spot names ts
      return (some e, ts)
    | ts => .ok (none, ts)

/-- An expression, unless the statement ends here. -/
def optional : Nat → Spot → Names → List Token → Except ParseError (Option Expr × List Token)
  | 0, _, _, _ => .error .unexpectedEnd
  | fuel + 1, spot, names, ts =>
    if atEnd ts then .ok (none, ts)
    else do
      let (e, ts) ← expr fuel spot names ts
      return (some e, ts)
end

def parameters : List String → List Token → Except ParseError (List String × List Token)
  | seen, .sign ")" :: ts => .ok (seen.reverse, ts)
  | seen, .name n :: .sign "," :: ts =>
    if seen.contains n then .error (.duplicateParameter n) else parameters (n :: seen) ts
  | seen, .name n :: .sign ")" :: ts =>
    if seen.contains n then .error (.duplicateParameter n) else .ok ((n :: seen).reverse, ts)
  | _, ts => .error (misfit ts)

/-- A function past the word that starts it. -/
def function (fuel : Nat) : List Token → Except ParseError (Function × List Token)
  | .name n :: .sign "(" :: ts => do
    let (params, ts) ← parameters [] ts
    let (body, ts) ← block fuel ⟨0, false⟩ (params.map (·, false)) ts
    return (⟨n, params, body⟩, ts)
  | ts => .error (misfit ts)

/-- Two functions are told apart by their names and numbers of parameters. -/
def addFunction (p : Program) (f : Function) : Except ParseError Program :=
  if p.functions.any fun g => g.name = f.name ∧ g.params.length = f.params.length then
    .error (.duplicateFunction f.name)
  else .ok { p with functions := p.functions ++ [f] }

def program : Nat → Names → Program → List Token → Except ParseError Program
  | 0, _, _, _ => .error .unexpectedEnd
  | _ + 1, _, p, [] => .ok p
  | fuel + 1, names, p, .sign ";" :: ts => program fuel names p ts
  | fuel + 1, names, p, .keyword "fn" :: ts => do
    let (f, ts) ← function fuel ts
    program fuel names (← addFunction p f) ts
  | fuel + 1, names, p, .keyword "private" :: .keyword "fn" :: ts => do
    let (f, ts) ← function fuel ts
    program fuel names (← addFunction p f) ts
  | fuel + 1, names, p, ts => do
    let (s, names, rest) ← statement fuel ⟨0, false⟩ names ts
    let p := { p with statements := p.statements ++ [s] }
    match rest with
    | .sign ";" :: rest => program fuel names p rest
    | [] => return p
    | rest => if endsItself s then program fuel names p rest else throw (misfit rest)

def parse (source : String) : Except ParseError Program := do
  let ts ← Lexer.tokens source
  program (8 * ts.length + 64) [] ⟨[], []⟩ ts

end Pipeworks.Script.Parser
