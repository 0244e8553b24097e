/-
# Layouts of lines

How an entry of the journal is written on a line. A layout is a text with slots: a percent sign, the name
of a field in parentheses, and how the field is to be written.
-/

import RankingEval.Number.Layout
import RankingEval.Text.Quoted

namespace RankingEval.Console

/-- The value of a field. -/
inductive Field where
  /-- A text. -/
  | text (s : String)
  /-- A whole number. -/
  | whole (n : Int)

/-- A slot of a layout. -/
structure Slot where
  /-- The name of the field. -/
  field : Option String
  /-- The signs behind the name. -/
  flags : List Char
  /-- The least width. -/
  width : Nat
  /-- The most characters of a text, or the least digits of a number. -/
  precision : Option Nat
  /-- The letter that says how the field is written. -/
  conversion : Char

/-- A piece of a layout. -/
inductive Piece where
  /-- A character that stands for itself. -/
  | literal (c : Char)
  /-- A slot. -/
  | slot (s : Slot)

/-- The name of a field up to the parenthesis that closes it, and the rest. -/
def spanName : Nat → List Char → Option (List Char × List Char)
  | _, [] => none
  | depth, c :: rest =>
    if c == ')' && depth = 0 then some ([], rest)
    else
      let depth := if c == '(' then depth + 1 else if c == ')' then depth - 1 else depth
      (spanName depth rest).map fun (name, rest) => (c :: name, rest)

/-- The number in front, if there are digits, and the rest. -/
def spanCount (cs : List Char) : Option Nat × List Char :=
  let (digits, rest) := cs.span Char.isDigit
  (if digits.isEmpty then none else some (digits.foldl (fun n d => 10 * n + (d.toNat - 48)) 0), rest)

/-- A slot from behind the percent sign, and the rest. -/
def spanSlot (cs : List Char) : Option (Slot × List Char) := do
  let (field, cs) ← match cs with
    | '(' :: rest => do
      let (name, rest) ← spanName 0 rest
      pure (some (String.ofList name), rest)
    | _ => pure (none, cs)
  let (flags, cs) := cs.span fun c => c == '-' || c == '+' || c == ' ' || c == '#' || c == '0'
  let (width, cs) := spanCount cs
  let (precision, cs) := match cs with
    | '.' :: rest =>
      let (count, rest) := spanCount rest
      (some (count.getD 0), rest)
    | _ => (none, cs)
  let cs := match cs with
    | c :: rest => if c == 'h' || c == 'l' || c == 'L' then rest else cs
    | [] => []
  match cs with
  | c :: rest => some (⟨field, flags, width.getD 0, precision, c⟩, rest)
  | [] => none

/-- The pieces of a layout; the bound is on their number. -/
def pieces : Nat → List Char → Option (List Piece)
  | _, [] => some []
  | 0, _ => none
  | n + 1, c :: rest =>
    if c == '%' then do
      let (slot, rest) ← spanSlot rest
      return .slot slot :: (← pieces n rest)
    else (pieces n rest).map (.literal c :: ·)

namespace Slot

/-- The flag is set. -/
def has (s : Slot) (flag : Char) : Bool := s.flags.contains flag

/-- Fills a text up to the width with spaces. -/
def fill (s : Slot) (text : String) : String :=
  let spaces := String.ofList (List.replicate (s.width - text.length) ' ')
  if s.has '-' then text ++ spaces else spaces ++ text

/-- A text, cut to the precision and filled. -/
def ofText (s : Slot) (text : String) : String :=
  s.fill (match s.precision with
    | some most => String.ofList (text.toList.take most)
    | none => text)

/-- A number from its sign, what stands before its digits, and its digits. -/
def ofDigits (s : Slot) (negative : Bool) (front digits : String) : String :=
  let sign := if negative then "-" else if s.has '+' then "+" else if s.has ' ' then " " else ""
  let head := sign ++ front
  let zeros := if s.has '0' && !s.has '-' then s.width - (head.length + digits.length) else 0
  s.fill (head ++ String.ofList (List.replicate zeros '0') ++ digits)

/-- A whole number in a base. -/
def ofWhole (s : Slot) (base : Nat) (front : String) (n : Int) : String :=
  let digits := Nat.toDigits base n.natAbs
  let zeros := List.replicate (s.precision.getD 0 - digits.length) '0'
  s.ofDigits (n < 0) (if s.has '#' then front else "") (String.ofList (zeros ++ digits))

/-- A text in quotes without characters beyond ASCII. -/
def plainQuoted (text : String) : String :=
  String.join ((Text.quoted text).toList.map fun c =>
    let n := c.toNat
    if n < 128 then c.toString
    else if n < 0x100 then "\\x" ++ String.ofList (Text.hexadecimal 2 n)
    else if n < 0x10000 then "\\u" ++ String.ofList (Text.hexadecimal 4 n)
    else "\\U" ++ String.ofList (Text.hexadecimal 8 n))

/-- A field written in a slot, if the slot can take it. -/
def write (s : Slot) (value : Field) : Option String :=
  let shown := match value with
    | .text t => (t, Text.quoted t, plainQuoted t)
    | .whole n => (toString n, toString n, toString n)
  match s.conversion, value with
  | 's', _ => some (s.ofText shown.1)
  | 'r', _ => some (s.ofText shown.2.1)
  | 'a', _ => some (s.ofText shown.2.2)
  | 'd', .whole n | 'i', .whole n | 'u', .whole n => some (s.ofWhole 10 "" n)
  | 'o', .whole n => some (s.ofWhole 8 "0o" n)
  | 'x', .whole n => some (s.ofWhole 16 "0x" n)
  | 'X', .whole n => some (s.ofWhole 16 "0x" n).toUpper
  | 'f', .whole n | 'F', .whole n =>
    some (s.ofDigits (n < 0) "" (Number.fixed (s.precision.getD 6) (Float.ofNat n.natAbs)))
  | 'c', .whole n => if 0 ≤ n then some (s.fill (Char.ofNat n.toNat).toString) else none
  | 'c', .text t => if t.length = 1 then some (s.fill t) else none
  | _, _ => none

end Slot

/-- A piece of a layout, written with the fields that a look-up gives. -/
def Piece.write (find : String → Option Field) : Piece → Option String
  | literal c => some c.toString
  | slot s => do
    match s.field with
    | some name =>
      let value ← find name
      if s.conversion == '%' then return "%" else s.write value
    | none => if s.conversion == '%' then return "%" else none

/-- The line that a layout gives with the fields that a look-up gives; none if it cannot be written. -/
def line? (layout : String) (find : String → Option Field) : Option String := do
  let found ← pieces layout.length layout.toList
  return String.join (← found.mapM (Piece.write find))

end RankingEval.Console
