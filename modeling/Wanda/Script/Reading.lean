import Wanda.Script.Lexeme
import Wanda.Script.Tree
import Wanda.Text.Hidden

/-!
Reading scripts. The reader takes one token at a time; the expressions it is inside of stand on a
stack of frames.
-/

namespace Wanda.Script

/-- Why a token sequence is no script. What was found is `none` at the end of the input. -/
inductive Error where
  | expectedMark (expected : Mark) (found : Option Token)
  | expectedName (found : Option Token)
  | expectedExpr
  | illegal (text : String)
  | notAnExpr (found : Token)
  | integerRange (negative : Bool)
  deriving DecidableEq, Repr

def foundText : Option Token → String
  | some t => t.text Text.isHidden
  | none => "end of input"

def Error.message : Error → String
  | expectedMark m found => "expected next token to be " ++ m.text ++ ", found " ++ foundText found
  | expectedName found => "expected identifier, found " ++ foundText found
  | expectedExpr => "expected expression, found end of input"
  | illegal s => "illegal token " ++ s
  | notAnExpr t => "no prefix parse function for " ++ t.text Text.isHidden
  | integerRange negative =>
    "could not parse integer literal as i64: number too " ++
      (if negative then "small" else "large") ++ " to fit in target type"

/-- An expression part way through, waiting for one of its parts. -/
inductive Frame where
  | group
  | array (before : List Expr)
  | arguments (function : Expr) (before : List Expr)
  | key (before : List (Expr × Expr))
  | value (before : List (Expr × Expr)) (key : Expr)
  deriving Repr

inductive Purpose where
  | binding (name : String)
  | result
  | expr
  deriving DecidableEq, Repr

def Purpose.statement : Purpose → Expr → Statement
  | binding name, e => .binding name e
  | result, e => .result e
  | expr, e => .expr e

inductive State where
  | start
  | bindingName
  | bindingEquals (name : String)
  | operand (purpose : Purpose) (frames : List Frame)
  /-- An element of the innermost frame comes next, or the mark that closes the frame. -/
  | element (purpose : Purpose) (frame : Frame) (frames : List Frame)
  /-- An expression has been read; an opening parenthesis would call it. -/
  | operator (purpose : Purpose) (frames : List Frame) (e : Expr)
  deriving Repr

def integer (numeral : String) : Except Error Int64 :=
  match (Text.Numeral.value? numeral.toList).bind Text.Numeral.word? with
  | some n => .ok n
  | none => .error (.integerRange (numeral.toList.head? = some '-'))

def startExpr (purpose : Purpose) (frames : List Frame) : Token → Except Error State
  | .name s => .ok (.operator purpose frames (.name s))
  | .int s => do return .operator purpose frames (.int (← integer s))
  | .str s => .ok (.operator purpose frames (.str s))
  | .keyword .true => .ok (.operator purpose frames (.bool true))
  | .keyword .false => .ok (.operator purpose frames (.bool false))
  | .keyword .null => .ok (.operator purpose frames .null)
  | .mark .openParen => .ok (.operand purpose (.group :: frames))
  | .mark .openBracket => .ok (.element purpose (.array []) frames)
  | .mark .openBrace => .ok (.element purpose (.key []) frames)
  | .illegal s => .error (.illegal s)
  | t => .error (.notAnExpr t)

def startStatement : Token → Except Error State
  | .keyword .bind => .ok .bindingName
  | .keyword .result => .ok (.operand .result [])
  | t => startExpr .expr [] t

/-- The mark that ends a frame where an element could start, and the expression it then is. -/
def Frame.closed? : Frame → Option (Mark × Expr)
  | group => none
  | array before => some (.closeBracket, .array before)
  | arguments f before => some (.closeParen, .call f before)
  | key before => some (.closeBrace, .hash before)
  | value _ _ => none

/-- Go on after the innermost frame's part `e` with a token that does not call `e`. -/
def Frame.resume (purpose : Purpose) (frames : List Frame) (e : Expr) (t : Token) :
    Frame → Except Error State
  | group =>
    if t = .mark .closeParen then .ok (.operator purpose frames e)
    else .error (.expectedMark .closeParen (some t))
  | array before =>
    if t = .mark .comma then .ok (.operand purpose (.array (before ++ [e]) :: frames))
    else if t = .mark .closeBracket then .ok (.operator purpose frames (.array (before ++ [e])))
    else .error (.expectedMark .closeBracket (some t))
  | arguments f before =>
    if t = .mark .comma then .ok (.operand purpose (.arguments f (before ++ [e]) :: frames))
    else if t = .mark .closeParen then .ok (.operator purpose frames (.call f (before ++ [e])))
    else .error (.expectedMark .closeParen (some t))
  | key before =>
    if t = .mark .colon then .ok (.operand purpose (.value before e :: frames))
    else .error (.expectedMark .colon (some t))
  | value before k =>
    if t = .mark .closeBrace then .ok (.operator purpose frames (.hash (before ++ [(k, e)])))
    else if t = .mark .comma then .ok (.element purpose (.key (before ++ [(k, e)])) frames)
    else .error (.expectedMark .comma (some t))

def Frame.missing : Frame → Mark
  | group => .closeParen
  | array _ => .closeBracket
  | arguments _ _ => .closeParen
  | key _ => .colon
  | value _ _ => .comma

/-- The state after a token, and the statement that the token shows to be complete. -/
def State.next (t : Token) : State → Except Error (Option Statement × State)
  | start => do return (none, ← startStatement t)
  | bindingName =>
    match t with
    | .name s => .ok (none, .bindingEquals s)
    | _ => .error (.expectedName (some t))
  | bindingEquals name =>
    if t = .mark .equals then .ok (none, .operand (.binding name) [])
    else .error (.expectedMark .equals (some t))
  | operand purpose frames => do return (none, ← startExpr purpose frames t)
  | element purpose f frames =>
    match f.closed? with
    | some (m, e) =>
      if t = .mark m then .ok (none, .operator purpose frames e)
      else do return (none, ← startExpr purpose (f :: frames) t)
    | none => do return (none, ← startExpr purpose (f :: frames) t)
  | operator purpose frames e =>
    if t = .mark .openParen then .ok (none, .element purpose (.arguments e []) frames)
    else match frames with
      | f :: frames => do return (none, ← f.resume purpose frames e t)
      | [] =>
        if t = .mark .semicolon then .ok (some (purpose.statement e), .start)
        else do return (some (purpose.statement e), ← startStatement t)

def State.finish : State → Except Error (Option Statement)
  | start => .ok none
  | bindingName => .error (.expectedName none)
  | bindingEquals _ => .error (.expectedMark .equals none)
  | operand _ _ => .error .expectedExpr
  | element _ (.key _) _ => .error (.expectedMark .closeBrace none)
  | element _ _ _ => .error .expectedExpr
  | operator purpose [] e => .ok (some (purpose.statement e))
  | operator _ (f :: _) _ => .error (.expectedMark f.missing none)

def readFrom (s : State) : List Token → Except Error Script
  | [] => do return (← s.finish).toList
  | t :: ts => do
    let (done, s) ← s.next t
    return done.toList ++ (← readFrom s ts)

def readTokens (ts : List Token) : Except Error Script :=
  readFrom .start ts

def read (text : String) : Except Error Script :=
  readTokens (tokens text.toList)

end Wanda.Script
