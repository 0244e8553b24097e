/-
# Faults of a pattern

Why a text is no regular expression. A fault that has a position is reported with it, and with the line
and the column if the pattern has several lines.
-/

namespace RankingEval.Pattern

/-- Why a pattern is refused. -/
inductive Fault where
  /-- The pattern is malformed, at a position if there is one. -/
  | malformed (reason : String) (position : Option Nat)
  /-- A repetition count is out of range. -/
  | countTooLarge
  /-- Flags were combined that exclude each other. -/
  | flagsExclude
deriving DecidableEq, Repr

/-- The text of a fault: the reason, the position, and the line and column if the pattern has lines. -/
def Fault.text (pattern : String) : Fault → String
  | .countTooLarge => "the repetition number is too large"
  | .flagsExclude => "ASCII and UNICODE flags are incompatible"
  | .malformed reason none => reason
  | .malformed reason (some position) =>
    let before := pattern.toList.take position
    let line := before.count '\n' + 1
    let column := (before.reverse.takeWhile (· != '\n')).length + 1
    reason ++ " at position " ++ toString position
      ++ (if pattern.toList.contains '\n' then
        " (line " ++ toString line ++ ", column " ++ toString column ++ ")" else "")

end RankingEval.Pattern
