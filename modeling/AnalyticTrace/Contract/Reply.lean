import AnalyticTrace.Text.Blank
import AnalyticTrace.Text.Json

namespace AnalyticTrace

/-- The versions of a reference: of its interpreter, of its array library, and of its signal library
if it told it. -/
structure ReplyVersions where
  interpreter : String
  arrays : String
  signal : Option String
  deriving DecidableEq, Repr

/-- What a reference answers: its output, and the mean time that it took. -/
structure Reply (α : Type) where
  output : Array α
  averageNs : α
  versions : ReplyVersions
  deriving DecidableEq, Repr

/-- What became of a call of the reference. -/
inductive Outcome (α : Type) where
  | failed (status : Int) (complaint : String)
  | undecodable
  | answered (reply : Reply α)
  deriving DecidableEq, Repr

open Text (Json)

namespace Reply

def number? : Json → Option Float
  | .number n => n.toFloat?
  | _ => none

def text? : Json → Option String
  | .string s => s
  | _ => none

def textOrNull? : Json → Option (Option String)
  | .null => some none
  | json => (text? json).map some

def numbers? : Json → Option (Array Float)
  | .array items => items.toArray.mapM number?
  | _ => none

def ofParts? (output average interpreter arrays signal : Json) : Option (Reply Float) :=
  return {
    output := ← numbers? output
    averageNs := ← number? average
    versions := ⟨← text? interpreter, ← text? arrays, ← textOrNull? signal⟩ }

/-- The only member with a name. -/
def member? (members : List (Option String × Json)) (name : String) : Option Json :=
  match members.filter (·.1 == some name) with
  | [(_, value)] => some value
  | _ => none

/-- The member with a name, null where there is none. -/
def memberOrNull? (members : List (Option String × Json)) (name : String) : Option Json :=
  if members.any (·.1 == some name) then member? members name else some .null

/-- A reply has five parts, by name in any order or all five in a row. Only the last may be missing
by name, other names are ignored, and no part may come twice. -/
def ofJson? : Json → Option (Reply Float)
  | .object members => do
    guard (members.all (·.1.isSome))
    ofParts? (← member? members "output") (← member? members "avg_ns")
      (← member? members "python_version") (← member? members "numpy_version")
      (← memberOrNull? members "scipy_version")
  | .array [output, average, interpreter, arrays, signal] =>
    ofParts? output average interpreter arrays signal
  | _ => none

/-- The whole text is one reply. Its decimals become the nearest doubles, also where a reader that
only does its best would be a step away (`Text.Numeral.toFloat?`). -/
def decode? (text : String) : Option (Reply Float) := (Json.parse? text).bind ofJson?

end Reply

/-- Reads off what a finished reference left behind; only after status zero is its output looked
at. -/
def Outcome.ofProcess (status : Int) (output complaint : String) : Outcome Float :=
  if status = 0 then
    match Reply.decode? output with
    | some reply => .answered reply
    | none => .undecodable
  else .failed status (String.ofList (Text.trim complaint.toList))

end AnalyticTrace
