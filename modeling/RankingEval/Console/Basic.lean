/-
# The console

The console shows what is reported, from a level on and in a layout that are set once. As long as no
layout is set, only warnings and worse are shown, as plain texts.
-/

import RankingEval.Console.Layout
import RankingEval.Failure
import RankingEval.Journal
import RankingEval.Pattern.Reader
import RankingEval.Pattern.Start

namespace RankingEval

/-- The console. -/
structure Console where
  /-- The layout of a line, once it is set. -/
  layout : Option String := none
  /-- The least level that is shown. -/
  threshold : Int := 30
  /-- What was shown. -/
  shown : String := ""

namespace Console

/-- What is reported to the console. -/
structure Report where
  /-- The name of the reporter; the root of all reporters has none. -/
  reporter : String
  /-- The level. -/
  level : Int
  /-- The text. -/
  text : String

/-- An entry of the journal as a report. -/
def Report.ofEntry (e : Entry) : Report := ⟨e.source.name, e.level.rank, e.text⟩

/-- The levels with names. -/
def levels : List (String × Int) := [
  ("DEBUG", 10), ("INFO", 20), ("WARNING", 30), ("WARN", 30), ("ERROR", 40), ("CRITICAL", 50),
  ("FATAL", 50), ("NOTSET", 0)]

/-- Names that are reserved for settings other than levels, and what fails when such a setting is used as
a level. -/
def reserved : List (String × Failure) := [("BASIC_FORMAT", .unreadable), ("_STYLES", .mistyped)]

/-- The name of a level. -/
def levelName (level : Int) : String :=
  match levels.find? fun entry => entry.2 == level with
  | some (name, _) => name
  | none => "Level " ++ toString level

/-- The character in upper case, as far as that lies in ASCII. -/
def upper (c : Char) : String :=
  match c.toNat with
  | 0x131 => "I"
  | 0x17F => "S"
  | 0xDF => "SS"
  | 0xFB05 | 0xFB06 => "ST"
  | _ => c.toUpper.toString

/-- What a name in any case sets the level to, or what fails when the level is set. -/
def levelOf (name : Datum) : Except Failure (Except Failure Int) :=
  match name with
  | .text s =>
    let key := String.join (s.toList.map upper)
    match levels.lookup key, reserved.lookup key with
    | some level, _ => .ok (.ok level)
    | none, some failure => .ok (.error failure)
    | none, none => .error .unsupported
  | _ => .error .unsupported

/-- The level if none is given. -/
def usualLevel : Datum := .text "INFO"

/-- The layout if none is given. -/
def usualLayout : String := "%(asctime)s - %(name)s - %(levelname)s - %(message)s"

/-- The layout if an empty one is given. -/
def barestLayout : String := "%(message)s"

/-- The form that some part of a layout has to have. -/
def slotPattern : String := "%\\(\\w+\\)[#0+ -]*(\\*|\\d+)?(\\.(\\*|\\d+))?[diouxefgcrsa%]"

/-- The layout has a slot. -/
def hasSlot (layout : String) : Bool :=
  match Pattern.compile { ignoreCase := true } slotPattern with
  | .ok pattern => pattern.occursIn layout
  | .error _ => false

/-- The layout that a datum gives. -/
def layoutOf (layout : Datum) : Except Failure String :=
  if layout.isMissing && !layout.isSet then .ok usualLayout
  else if !layout.isSet then .ok barestLayout
  else
    match layout with
    | .text s => if hasSlot s then .ok s else .error .unreadable
    | _ => .error .mistyped

/-- Sets the level and the layout, unless a layout is set already. The name of the level is looked at
first and used last, so that the layout is set even if the level cannot be. -/
def configure (c : Console) (level layout : Datum) : Except Failure Unit × Console :=
  match levelOf level with
  | .error failure => (.error failure, c)
  | .ok setting =>
    if c.layout.isSome then (.ok (), c)
    else
      match layoutOf layout with
      | .error failure => (.error failure, c)
      | .ok layout =>
        let c := { c with layout := some layout }
        match setting with
        | .error failure => (.error failure, c)
        | .ok threshold => (.ok (), { c with threshold })

/-- The fields of a report. What depends on the clock or the machine is left empty. -/
def fieldsOf (r : Report) : List (String × Field) := [
  ("name", .text (if r.reporter.isEmpty then "root" else r.reporter)), ("levelno", .whole r.level),
  ("levelname", .text (levelName r.level)), ("message", .text r.text), ("msg", .text r.text),
  ("threadName", .text "MainThread"), ("processName", .text "MainProcess"), ("asctime", .text "")]

/-- The console shows reports of a level. -/
def shows (c : Console) (level : Int) : Bool := 0 < level && c.threshold ≤ level

/-- What is shown where a report cannot be written in the layout. -/
def fault : String := "--- Logging error ---\n"

/-- The line of a report. -/
def lineOf (c : Console) (r : Report) : String :=
  match c.layout with
  | some layout =>
    match line? layout (fun name => (fieldsOf r).lookup name) with
    | some line => line ++ "\n"
    | none => fault
  | none => if 30 ≤ r.level then r.text ++ "\n" else ""

/-- Shows a report, if its level is shown. -/
def emit (c : Console) (r : Report) : Console :=
  if c.shows r.level then { c with shown := c.shown ++ c.lineOf r } else c

end Console

end RankingEval
