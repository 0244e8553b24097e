/-
# Arguments of the command line

An argument that starts with two hyphens names an option, in full or by any beginning that fits only one.
The value of an option follows it or stands behind an equals sign. There is nothing else to be given.
-/

import RankingEval.Text.DecimalDigit
import RankingEval.Text.Quoted

namespace RankingEval.Arguments

/-- The options. -/
inductive Opt where
  /-- Shows the help. -/
  | help
  /-- The file with the configuration. -/
  | config
  /-- The file for the text of the curves. -/
  | output
deriving DecidableEq, Repr

/-- The long names of the options, in the order in which they are listed. -/
def longNames : List (String × Opt) := [("--help", .help), ("--config", .config), ("--output", .output)]

/-- All names of the options. -/
def names : List (String × Opt) := ("-h", .help) :: longNames

/-- What an option is called in messages. -/
def Opt.title : Opt → String
  | help => "-h/--help"
  | config => "--config"
  | output => "--output"

/-- What the arguments ask for. -/
inductive Request where
  /-- The help. -/
  | help
  /-- A run, with the files that are given. -/
  | run (config output : Option String)
deriving DecidableEq, Repr

/-- What an argument is by its form. -/
inductive Form where
  /-- No option. -/
  | plain
  /-- Two hyphens, behind which nothing is an option. -/
  | separator
  /-- An option that is not known. -/
  | unknown
  /-- An option under one of its names, with the value behind the equals sign. -/
  | option (name : String) (opt : Opt) (value : Option String)
  /-- The short name of the help with further letters behind it. -/
  | cluster (letters : List Char)
deriving Repr

/-- The parts in front of the first equals sign and behind it. -/
def splitValue (s : String) : String × Option String :=
  let (front, back) := s.toList.span (· != '=')
  match back with
  | [] => (s, none)
  | _ :: rest => (String.ofList front, some (String.ofList rest))

/-- The argument is a negative number. -/
def isNegativeNumber (cs : List Char) : Bool :=
  let (_, back) := (cs.drop 1).span Text.isDecimalDigit
  match back with
  | [] => 1 < cs.length
  | '.' :: digits => !digits.isEmpty && digits.all Text.isDecimalDigit
  | _ => false

/-- The options of which an argument gives the beginning of the name. -/
def candidates (s : String) : List (String × Opt) :=
  if "--".isPrefixOf s then longNames.filter fun entry => (splitValue s).1.isPrefixOf entry.1 else []

/-- What an argument is; it may be refused because it means several options. -/
def formOf (s : String) : Except String Form :=
  let (front, value) := splitValue s
  match s.toList with
  | '-' :: c :: rest =>
    if s == "--" then .ok .separator
    else
      match names.lookup front, candidates s, c with
      | some opt, _, _ => .ok (.option front opt value)
      | none, [(name, opt)], _ => .ok (.option name opt value)
      | none, _ :: _ :: _, _ =>
        .error ("ambiguous option: " ++ s ++ " could match "
          ++ ", ".intercalate ((candidates s).map (·.1)))
      | none, [], 'h' => .ok (.cluster rest)
      | none, [], _ =>
        .ok (if isNegativeNumber ('-' :: c :: rest) || s.contains ' ' then .plain else .unknown)
  | _ => .ok .plain

/-- The forms of all arguments; behind the separator nothing is an option. -/
def formsOf : List String → Except String (List (String × Form))
  | [] => .ok []
  | s :: rest => do
    match ← formOf s with
    | .separator => return (s, .separator) :: rest.map fun t => (t, .plain)
    | form => return (s, form) :: (← formsOf rest)

/-- Refuses an option because it does not take a value. -/
def refuseValue {α : Type} (value : String) : Except String α :=
  .error ("argument " ++ Opt.help.title ++ ": ignored explicit argument " ++ Text.quoted value)

/-- The help is asked for with further letters behind the short name. Each of them that is a name of the
help asks for it again, up to the first that is not; a hyphen or a value refuses it. -/
def clusterOf : (letters : List Char) → Except String Request
  | '-' :: rest => refuseValue (String.ofList ('-' :: rest))
  | 'h' :: '=' :: rest => refuseValue (String.ofList rest)
  | 'h' :: rest => clusterOf rest
  | _ => .ok .help

/-- The request with the value of an option. -/
def given (opt : Opt) (value : String) (config output : Option String) : Option String × Option String :=
  match opt with
  | .config => (some value, output)
  | .output => (config, some value)
  | .help => (config, output)

/-- What the arguments ask for, one after the other. Arguments that are not expected are refused in the
end, all of them together. -/
def requestOf : List (String × Form) → (config output : Option String) → (extras : List String) →
    Except String Request
  | [], config, output, extras =>
    if extras.isEmpty then .ok (.run config output)
    else .error ("unrecognized arguments: " ++ " ".intercalate extras)
  | (s, form) :: rest, config, output, extras =>
    match form with
    | .cluster letters => clusterOf letters
    | .option _ .help none => .ok .help
    | .option _ .help (some value) => refuseValue value
    | .option _ opt (some value) =>
      let (config, output) := given opt value config output
      requestOf rest config output extras
    | .option _ opt none =>
      match rest with
      | (value, .plain) :: rest =>
        let (config, output) := given opt value config output
        requestOf rest config output extras
      | _ => .error ("argument " ++ opt.title ++ ": expected one argument")
    | _ => requestOf rest config output (extras ++ [s])

/-- What the arguments ask for, or why they are refused. -/
def parse (arguments : List String) : Except String Request := do
  requestOf (← formsOf arguments) none none []

/-- The name of the program. -/
def programName : String := "outlier-eval"

/-- How the program is called. -/
def usage : String := "usage: " ++ programName ++ " [-h] [--config CONFIG] [--output OUTPUT]\n"

/-- The help. -/
def help : String := usage ++ "
Precision-Recall curve evaluation of outlier rankings

options:
  -h, --help       show this help message and exit
  --config CONFIG  Path to configuration file
  --output OUTPUT  Path of the text output (overrides output.path)
"

/-- What is written where the arguments are refused. -/
def refusal (reason : String) : String := usage ++ programName ++ ": error: " ++ reason ++ "\n"

end RankingEval.Arguments
