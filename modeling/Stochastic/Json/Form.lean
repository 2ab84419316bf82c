import Stochastic.Json.Parser

/-!
# The JSON form of a type

How values of a type are written as JSON and read back.  A record is written as
an object and also read from an array of its fields; a choice is written by its
name, or as an object whose only member is its name and holds its contents.

## Main definitions

* `JsonForm` — the two directions of a JSON form.
* `Json.members?`, `Json.choice?` — the parts of a record and of a choice.
* `JsonForm.ofText?`, `JsonForm.text` — the form as text.
-/

namespace Stochastic

/-- How values of a type are written as JSON and read back. -/
class JsonForm (α : Type) where
  toJson : α → Json
  ofJson? : Json → Option α

export JsonForm (toJson ofJson?)

namespace Json

/-! ## Scalars -/

/-- The integer that a value is, if it is written as one. -/
def int? : Json → Option Int
  | .number n => n.toInt?
  | _ => none

/-- The natural number below `limit` that a value is. -/
def natBelow? (limit : Nat) (j : Json) : Option Nat := do
  let i ← j.int?
  if 0 ≤ i ∧ i < limit then some i.toNat else none

/-- The float that a number is. -/
def float? : Json → Option Float
  | .number n => n.toFloat?
  | _ => none

/-- The text that a value is. -/
def str? : Json → Option String
  | .text s => s
  | _ => none

/-- The truth value that a value is. -/
def bool? : Json → Option Bool
  | .bool b => some b
  | _ => none

/-- The items of an array. -/
def items? : Json → Option (List Json)
  | .array items => some items
  | _ => none

/-- The member of an object with a given name; the first if it is repeated. -/
def get? (name : String) : Json → Option Json
  | .object members => members.lookup (some name)
  | _ => none

/-! ## Records and choices -/

/-- The values that the members of an object have for `name`. -/
def valuesOf (name : String) (members : List (Option String × Json)) : List Json :=
  members.filterMap fun m => if m.1 = some name then some m.2 else none

/-- The fields of an object, in the order of their names, a missing one as none.
Members with other names are skipped; a repeated field and a name without a
reading are refused. -/
def fields? (names : List String) (members : List (Option String × Json)) :
    Option (List (Option Json)) :=
  if members.all (·.1.isSome) then
    names.mapM fun name =>
      match valuesOf name members with
      | [] => some none
      | [j] => some (some j)
      | _ => none
  else none

/-- The fields of a record: those of an object, or the items of an array with as
many items as there are fields. -/
def members? (names : List String) : Json → Option (List (Option Json))
  | .object members => fields? names members
  | .array items => if items.length = names.length then some (items.map some) else none
  | _ => none

/-- The fields of a record in which every field may be missing, so that an array
may also end early. -/
def optionalMembers? (names : List String) : Json → Option (List (Option Json))
  | .object members => fields? names members
  | .array items =>
    if items.length ≤ names.length then
      some (items.map some ++ List.replicate (names.length - items.length) none)
    else none
  | _ => none

/-- The name of a choice and its contents, if it has any. -/
def choice? : Json → Option (String × Option Json)
  | .text (some name) => some (name, none)
  | .object [(some name, contents)] => some (name, some contents)
  | _ => none

/-- The name of a choice without contents, which may be written as null. -/
def unitChoice? (j : Json) : Option String :=
  match j.choice? with
  | some (name, none) => some name
  | some (name, some .null) => some name
  | _ => none

/-- A choice with contents. -/
def choice (name : String) (contents : Json) : Json := .obj [(name, contents)]

end Json

namespace JsonForm

/-- The member of a list whose name is written. -/
def ofName? {α : Type} (all : List α) (name : α → String) (j : Json) : Option α := do
  let n ← j.unitChoice?
  all.find? fun a => name a == n

/-- The text of a value. -/
def text {α : Type} [JsonForm α] (a : α) : String := (toJson a).render

/-- The value that a text spells. -/
def ofText? (α : Type) [JsonForm α] (s : String) : Option α := (Json.parse? s).bind ofJson?

instance : JsonForm Float := ⟨Json.ofFloat, Json.float?⟩

instance : JsonForm Bool := ⟨Json.bool, Json.bool?⟩

instance {α : Type} [JsonForm α] : JsonForm (List α) where
  toJson as := .array (as.map toJson)
  ofJson? j := do (← j.items?).mapM ofJson?

instance {α : Type} [JsonForm α] : JsonForm (Option α) where
  toJson
    | none => .null
    | some a => toJson a
  ofJson?
    | .null => some none
    | j => some <$> ofJson? j

end JsonForm

end Stochastic
