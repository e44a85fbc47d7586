import DeviceApi.Fault
import DeviceApi.Number.Rounded

/-!
# Log lines

A run reports what it does in coloured lines: the time, the stage if there is one, and a
message in the colour of its level.
-/

namespace DeviceApi.Log

/-- The weight of a message. -/
inductive Level where
  | debug | info | warning | error | critical
  deriving DecidableEq, Repr

namespace Level

/-- Levels as numbers; a greater number has more weight. -/
def number : Level → Nat
  | .debug => 10
  | .info => 20
  | .warning => 30
  | .error => 40
  | .critical => 50

/-- All levels. -/
def all : List Level := [.debug, .info, .warning, .error, .critical]

end Level

/-- The control sequence with given parameters. -/
def control (parameters : String) : String := "\x1b[" ++ parameters ++ "m"

/-- Ends every colour. -/
def plain : String := control "0"

/-- Grey letters, for the time and for details. -/
def grey : String := control "90"

/-- Bold letters. -/
def bold : String := control "1"

/-- The colour of messages of a level given as a number. Other numbers have none. -/
def colour (level : Int) : String :=
  if level = 10 then grey
  else if level = 20 then control "96"
  else if level = 30 then control "93"
  else if level = 40 then control "91"
  else if level = 50 then control "91" ++ bold
  else plain

/-- A line from behind the time. -/
def lineBody (level : Int) (stage : Option String) (message : String) : String :=
  let tag := match stage with
    | some name => if name = "" then "" else " " ++ bold ++ "[" ++ name ++ "]" ++ plain
    | none => ""
  tag ++ " " ++ colour level ++ message ++ plain

/-- The time of a line. -/
def timeText (time : String) : String := grey ++ time ++ plain

/-- The time of day in universal time, given the seconds since the beginning of 1970. -/
def clockText (seconds : Int) : String :=
  let s := (seconds % 86400).toNat
  paddedNat 2 (s / 3600) ++ ":" ++ paddedNat 2 (s / 60 % 60) ++ ":" ++ paddedNat 2 (s % 60)

/-- The first second that the calendar knows, counted from the beginning of 1970. -/
def firstSecond : Int := -67768040609740800

/-- The last second of the years that have a number. -/
def lastNumberedSecond : Int := 67767976233532799

/-- The last second that the calendar knows. -/
def lastSecond : Int := 67768036191676799

/-- The time of day of a second that has a place in the calendar. -/
def clockText? (seconds : Int) : Except Misfit String :=
  if seconds < -Int.pow 2 63 ∨ Int.pow 2 63 ≤ seconds then .error .tooLarge
  else if seconds < firstSecond ∨ lastSecond < seconds then .error .outOfTime
  else if lastNumberedSecond < seconds then .error .tooLarge
  else .ok (clockText seconds)

/-- A message of a run. -/
structure Record where
  level : Level
  stage : Option String
  message : String
  /-- Whether the time that the stage took follows the message. -/
  timed : Bool
  deriving Repr

/-- The line of a message, given the text of the time and that of a duration. -/
def Record.line (time elapsed : String) (r : Record) : String :=
  let message := if r.timed then r.message ++ " " ++ elapsed else r.message
  time ++ lineBody r.level.number r.stage message

/-- The lines of the messages that have at least a given weight. -/
def lines (verbose : Bool) (time elapsed : String) (records : List Record) : String :=
  let least := if verbose then Level.debug else Level.info
  let shown := records.filter fun r => least.number ≤ r.level.number
  String.join (shown.map fun r => r.line time elapsed ++ "\n")

end DeviceApi.Log
