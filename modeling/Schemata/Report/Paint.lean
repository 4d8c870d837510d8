import Schemata.Text.Basic

/-! # Styled text

Text for a terminal, bold or yellow where colours are wanted. -/

namespace Schemata.Report

/-- Whether text is styled. -/
structure Paint where
  colors : Bool
deriving DecidableEq, Repr

namespace Paint

/-- The sequence that ends a style. -/
def reset : String := "\x1B[0m"

/-- A text between the sequence that starts a style and the one that ends it.  Where the text itself
ends styles, the style starts again. -/
def styled (paint : Paint) (start text : String) : String :=
  if paint.colors then start ++ Text.replaceText reset (reset ++ start) text ++ reset else text

/-- A text in bold. -/
def bold (paint : Paint) (text : String) : String := paint.styled "\x1B[1m" text

/-- A text in yellow. -/
def yellow (paint : Paint) (text : String) : String := paint.styled "\x1B[33m" text

/-- The sign before a warning. -/
def warningSign (paint : Paint) : String := paint.yellow "⚠"

end Paint

end Schemata.Report
