import Recalc.Formula.Token

namespace Recalc

/-- Formulas. A range keeps its corners as they were written. -/
inductive Expr
  | number (x : Float)
  | text (s : String)
  | bool (b : Bool)
  | ref (r : Reference)
  | range (first last : Reference)
  | call (name : String) (args : List Expr)
  | binary (op : Operator) (left right : Expr)
  | neg (operand : Expr)
deriving Inhabited

namespace Expr

def isBinary : Expr → Bool
  | binary .. => true
  | _ => false

/-- Whether an operand of `op` has to stand in parentheses. Since operators associate to the left,
an operation as strong as `op` needs them on the right side only. -/
def needsParens (op : Operator) (onRight : Bool) : Expr → Bool
  | binary inner .. =>
    inner.strength < op.strength || (onRight && inner.strength == op.strength)
  | _ => false

def parenthesize (yes : Bool) (ls : List Lexeme) : List Lexeme :=
  if yes then .leftParen :: ls ++ [.rightParen] else ls

mutual

/-- The lexemes of a formula, with no more parentheses than it needs. -/
def lexemes : Expr → List Lexeme
  | number x => [.number x]
  | text s => [.text s]
  | bool b => [.bool b]
  | ref r => [.cell r.text]
  | range first last => [.cell first.text, .colon, .cell last.text]
  | call f args => .name f :: .leftParen :: argumentLexemes args ++ [.rightParen]
  | binary op left right =>
    parenthesize (left.needsParens op false) left.lexemes ++ .operator op ::
      parenthesize (right.needsParens op true) right.lexemes
  | neg operand => .operator .sub :: parenthesize operand.isBinary operand.lexemes

def argumentLexemes : List Expr → List Lexeme
  | [] => []
  | [e] => e.lexemes
  | e :: es => e.lexemes ++ .comma :: argumentLexemes es

end

/-- The text of a formula, without blanks and without the equality sign in front. -/
def toText (e : Expr) : String :=
  String.ofList (e.lexemes.flatMap Lexeme.chars)

end Expr

end Recalc
