import Stochastic.Json.Form

/-!
# Settings of a world

## Main definitions

* `Config` — the settings, with their defaults.
* `Config.ofText?`, `Config.ofBytes?` — settings read from JSON.
-/

namespace Stochastic

/-- The settings of a world. -/
structure Config where
  /-- The seed of random draws. -/
  seed : Option Nat := none
  /-- Whether confined variables are moved to the real line. -/
  transformConstrained : Bool := false
  /-- How deeply generating programs may be nested. -/
  maxDepth : Nat := 256
  deriving DecidableEq, Repr, Inhabited

namespace Config

/-- Why settings cannot be had. -/
inductive Error where
  /-- There is no text to read. -/
  | io
  /-- The text is not that of settings. -/
  | parse
  deriving DecidableEq, Repr

/-- Seeds and depths lie below this limit. -/
def numberLimit : Nat := Nat.pow 2 64

/-- The JSON form of settings. -/
def toJson (c : Config) : Json :=
  .obj [("seed", (c.seed.map Json.nat).getD .null),
    ("transform_constrained", JsonForm.toJson c.transformConstrained),
    ("max_depth", .nat c.maxDepth)]

/-- A seed, or null for none. -/
def seedOfJson? : Json → Option (Option Nat)
  | .null => some none
  | j => some <$> j.natBelow? numberLimit

/-- The settings that a JSON value is; those left out have their defaults. -/
def ofJson? (j : Json) : Option Config := do
  match ← j.optionalMembers? ["seed", "transform_constrained", "max_depth"] with
  | [seed, constrained, depth] =>
    let defaults : Config := {}
    let seed ← match seed with
      | some j => seedOfJson? j
      | none => some defaults.seed
    let constrained ← match constrained with
      | some j => j.bool?
      | none => some defaults.transformConstrained
    let depth ← match depth with
      | some j => j.natBelow? numberLimit
      | none => some defaults.maxDepth
    return ⟨seed, constrained, depth⟩
  | _ => none

instance : JsonForm Config := ⟨toJson, ofJson?⟩

/-- The settings that a text spells. -/
def ofText? (s : String) : Except Error Config :=
  match JsonForm.ofText? Config s with
  | some c => .ok c
  | none => .error .parse

/-- The settings in the contents of a file, if there is one; its bytes must be
text. -/
def ofBytes? (contents : Option ByteArray) : Except Error Config :=
  match contents.bind String.fromUTF8? with
  | some s => ofText? s
  | none => .error .io

end Config

end Stochastic
