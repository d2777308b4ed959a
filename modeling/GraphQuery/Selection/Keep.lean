import GraphQuery.Datum

/-! Which of the requested fields a graph keeps: so many levels of them, and those whose names
are not left out. -/
namespace GraphQuery.Selection

structure Keep where
  /-- How many levels below the root are kept; none for all. -/
  levels : Option Nat := some 10
  /-- The names that are left out: a list of them, or a text that leaves out all its parts. -/
  excluded : Datum := .list []
  /-- Whether the name of the type may be among the fields. -/
  typenames : Bool := false
  deriving Repr

namespace Keep

/-- The number of levels that a bound admits; a value that bounds nothing admits all. -/
def levelsOf (bound : Datum) : Option Nat := bound.asNumber?.bind Number.floor?

/-- Reads what to keep from options. An option that is there without a value does not fall back
to the default. -/
def ofOptions (options : Datum) : Keep where
  levels := ((options.get? "maxDepth").map levelsOf).getD (some 10)
  excluded := (options.get? "excludeFields").getD (.list [])
  typenames := !(options.get "includeTypename").isFalsy

def keepsLevel (k : Keep) (level : Nat) : Bool :=
  match k.levels with
  | none => true
  | some n => level ≤ n

def excludes? (k : Keep) (name : Datum) : Option Bool :=
  match k.excluded with
  | .list names => some (names.any name.isSame)
  | .string s => name.asText?.map fun t => Text.contains t.toList s.toList
  | _ => none

def keepsName? (k : Keep) (name : Datum) : Option Bool :=
  if name.string? = some "__typename" ∧ k.typenames = false then some false
  else (k.excludes? name).map (!·)

end Keep
end GraphQuery.Selection
