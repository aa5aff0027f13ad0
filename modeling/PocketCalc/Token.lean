import PocketCalc.Number.Layout
import PocketCalc.Text.Quoted

/-!
# Tokens of an expression

A token has a kind and the byte positions where its spelling starts and stops. How tokens are cut
from a text is in `PocketCalc.Token.Scan`.
-/

namespace PocketCalc

/-- What a token is. -/
inductive TokenKind where
  | number (value : Float)
  | identifier (name : String)
  | plus
  | minus
  | star
  | slash
  /-- Two stars. -/
  | power
  | openParen
  | closeParen
  | comma
  deriving DecidableEq

/-- The kind of a token as messages put it. -/
def TokenKind.describe : TokenKind → String
  | .number x => "Number(" ++ String.ofList (Number.tokenStyle.write x) ++ ")"
  | .identifier name => "Identifier(" ++ Text.quotedName name ++ ")"
  | .plus => "Plus"
  | .minus => "Minus"
  | .star => "Star"
  | .slash => "Slash"
  | .power => "Power"
  | .openParen => "OpenParen"
  | .closeParen => "CloseParen"
  | .comma => "Comma"

/-- A token and the bytes it spans, from `start` up to but not including `stop`. -/
structure Token where
  kind : TokenKind
  start : Nat
  stop : Nat
  deriving DecidableEq

end PocketCalc
