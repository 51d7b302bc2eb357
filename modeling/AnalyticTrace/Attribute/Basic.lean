import AnalyticTrace.Error
import AnalyticTrace.Text.Blank

namespace AnalyticTrace

/-- What can be read off a trace, sample by sample. -/
inductive Attribute where
  | value
  | hilbert
  | envelope
  | phase
  | frequency
  | bandwidth
  | sweetness
  deriving DecidableEq, Repr

namespace Attribute

def all : List Attribute := [value, hilbert, envelope, phase, frequency, bandwidth, sweetness]

def name : Attribute → String
  | value => "samplevalue"
  | hilbert => "hilbert"
  | envelope => "envelope"
  | phase => "phase"
  | frequency => "frequency"
  | bandwidth => "bandwidth"
  | sweetness => "sweetness"

instance : ToString Attribute := ⟨name⟩

/-- Position in `all`. -/
def rank (a : Attribute) : Nat := all.idxOf a

def needsAnalytic (a : Attribute) : Bool := a != value

/-- In the order of `all`; equal ones stay as they are. -/
def sort (attributes : List Attribute) : List Attribute :=
  attributes.mergeSort fun a b => a.rank ≤ b.rank

/-- Case is ignored for ASCII letters only. -/
def isNamed (s : List Char) (a : Attribute) : Bool :=
  s.map Char.toLower == a.name.toList.map Char.toLower

/-- Reads a name, ignoring blanks around it. -/
def parse (s : String) : Except ConfigError Attribute :=
  match all.find? (isNamed (Text.trim s.toList)) with
  | some a => .ok a
  | none => .error (.invalidArgument "attribute" "unknown attribute name")

end Attribute
end AnalyticTrace
