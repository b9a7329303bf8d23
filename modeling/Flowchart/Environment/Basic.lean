/-
Environments: the variables of a run. A variable keeps the type of its first
assignment; assigning a value of the other type is a conflict and leaves the
environment as it was.
-/
import Flowchart.Assoc
import Flowchart.Value.Basic

namespace Flowchart

/-- What a name stands for, if anything. -/
abbrev Bindings := String → Option Value

/-- Variables by name, in increasing order of names. -/
structure Environment where
  entries : List (String × Value)
  sorted : Assoc.Sorted entries

/-- An assignment that would change the type of a variable. -/
structure TypeConflict where
  name : String
  bound : ValueType
  attempted : ValueType
deriving DecidableEq, Repr

def TypeConflict.message (c : TypeConflict) : String :=
  let name := c.name
  let bound := c.bound.name
  let attempted := c.attempted.name
  s!"variable `{name}` is bound to {bound}, cannot assign {attempted}"

namespace Environment

@[ext] theorem ext {a b : Environment} (h : a.entries = b.entries) : a = b := by
  cases a; cases b; cases h; rfl

instance : DecidableEq Environment := fun a b =>
  decidable_of_iff (a.entries = b.entries) ⟨ext, fun h => h ▸ rfl⟩

def empty : Environment := ⟨[], Assoc.sorted_nil⟩

instance : Inhabited Environment := ⟨empty⟩

def get? (env : Environment) (name : String) : Option Value := Assoc.get? name env.entries

def contains (env : Environment) (name : String) : Bool := (env.get? name).isSome

def size (env : Environment) : Nat := env.entries.length

/-- The type that the variable is bound to. -/
def typeOf? (env : Environment) (name : String) : Option ValueType :=
  (env.get? name).map Value.type

/-- Binds `name` to `value` whatever it was bound to. -/
def insert (env : Environment) (name : String) (value : Value) : Environment :=
  ⟨Assoc.insert name value env.entries, Assoc.sorted_insert name value env.sorted⟩

@[simp] theorem get?_empty (name : String) : empty.get? name = none := rfl

theorem get?_insert (env : Environment) (name other : String) (value : Value) :
    (env.insert name value).get? other = if other = name then some value else env.get? other :=
  Assoc.get?_insert other name value env.entries

/-- Of several entries for a name the last one counts. -/
def ofList (entries : List (String × Value)) : Environment :=
  ⟨Assoc.ofList entries, Assoc.sorted_ofList entries⟩

/-- Assigns to a variable: the value it had before and the new environment. -/
def assign (env : Environment) (name : String) (value : Value) :
    Except TypeConflict (Option Value × Environment) :=
  match env.get? name with
  | some old =>
    if old.type = value.type then .ok (some old, env.insert name value)
    else .error ⟨name, old.type, value.type⟩
  | none => .ok (none, env.insert name value)

end Environment

end Flowchart
