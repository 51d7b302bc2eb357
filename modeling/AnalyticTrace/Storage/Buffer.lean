import AnalyticTrace.Error
import AnalyticTrace.Storage.Strided

namespace AnalyticTrace

/-- One-dimensional storage as a caller holds it. -/
inductive Buffer (β : Type) where
  | list (items : Array β)
  | array (items : Strided β)
  | view (items : Strided β)

namespace Buffer

variable {β : Type}

/-- The items in logical order. -/
def toArray : Buffer β → Array β
  | list items => items
  | array items => items.toArray
  | view items => items.toArray

def contiguous : Buffer β → Bool
  | list _ => true
  | array items => items.contiguous
  | view items => items.contiguous

/-- The items for reading. -/
def read (b : Buffer β) : Except ConfigError (Array β) :=
  if b.contiguous then .ok b.toArray
  else match b with
    | view _ => .error (.nonContiguous "array_view")
    | _ => .error (.nonContiguous "array")

/-- The items for writing. -/
def window (b : Buffer β) : Except ConfigError (Array β) :=
  if b.contiguous then .ok b.toArray
  else match b with
    | view _ => .error (.nonContiguous "array_view_mut")
    | _ => .error (.nonContiguous "array")

/-- Puts `items` where contiguous storage has its own. -/
def store : Buffer β → Array β → Buffer β
  | list _, items => list items
  | array old, items => array (old.store items)
  | view old, items => view (old.store items)

/-- Runs a computation on the items in place; what it leaves behind stays, also where it fails. -/
def edit (act : EStateM RunError (Array β) Unit) : EStateM RunError (Buffer β) Unit := fun b =>
  match b.window with
  | .error e => .error (.config e) b
  | .ok items =>
    match act items with
    | .ok _ items => .ok () (b.store items)
    | .error e items => .error e (b.store items)

end Buffer

/-- The outcome of a fallible step as a step of a computation with a state. -/
def liftRun {β σ : Type} (r : Except RunError β) : EStateM RunError σ β := fun s =>
  match r with
  | .ok x => .ok x s
  | .error e => .error e s

/-- Fails unless the items have the expected number. -/
def expectLength {β : Type} (arg : String) (expected : Nat) : EStateM RunError (Array β) Unit :=
  fun items =>
    if items.size = expected then .ok () items
    else .error (.lengthMismatch arg expected items.size) items

/-- Writes over items that have the expected number. -/
def overwrite {β : Type} (arg : String) (expected : Nat)
    (write : Vector β expected → Vector β expected) : EStateM RunError (Array β) Unit :=
  fun items =>
    if h : items.size = expected then .ok () (write ⟨items, h⟩).toArray
    else .error (.lengthMismatch arg expected items.size) items

end AnalyticTrace
