import GraphQuery.Keyed
import GraphQuery.Number.Literal
import GraphQuery.Number.Text

/-! Untyped values: what a caller writes a graph in, and what responses and options come as. The
marks are the reserved elements of the surface notation. -/
namespace GraphQuery

/-- The tags that announce metadata; each takes the element after it. -/
inductive MetaTag where
  | arguments | operationName | operationParameters
  deriving DecidableEq, Repr

inductive Mark where
  | tag (t : MetaTag)
  /-- Marks a pair as a reference to a variable. -/
  | variable
  /-- A mark that means nothing in a graph. -/
  | foreign
  deriving DecidableEq, Repr

def Mark.text : Mark → String
  | .tag .arguments => "Symbol(arguments)"
  | .tag .operationName => "Symbol(operation-name)"
  | .tag .operationParameters => "Symbol(operation-params)"
  | .variable => "Symbol(variable)"
  | .foreign => "Symbol(other)"

inductive Datum where
  /-- No value, as an entry may hold where none is given. -/
  | absent
  | null
  | boolean (b : Bool)
  | number (n : Number)
  /-- An integer of any size, which is no number of a graph. -/
  | integer (i : Int)
  | string (s : String)
  | mark (m : Mark)
  | list (elements : List Datum)
  | record (entries : List (String × Datum))
  deriving Repr

namespace Datum

instance : Inhabited Datum := ⟨.absent⟩

/-- The position that a key names in a list: its digits, without leading zeros. -/
def indexOfKey? (key : String) : Option Nat :=
  match key.toList with
  | [] => none
  | '0' :: _ :: _ => none
  | cs =>
    if cs.all Char.isDigit ∧ Number.digitsValue cs < 0xFFFFFFFF then some (Number.digitsValue cs)
    else none

/-- The order in which a record keeps entries: those at positions first, in ascending order. -/
def orderEntries (entries : List (String × Datum)) : List (String × Datum) :=
  let positions := entries.filterMap fun e => (indexOfKey? e.1).map fun i => (i, e)
  (positions.mergeSort fun a b => a.1 ≤ b.1).map Prod.snd ++
    entries.filter fun e => (indexOfKey? e.1).isNone

/-- The record with some entries, which may name a key more than once. -/
def ofEntries (entries : List (String × Datum)) : Datum :=
  .record (orderEntries (Keyed.collect entries))

def entries? : Datum → Option (List (String × Datum))
  | .record entries => some entries
  | _ => none

def get? (key : String) (d : Datum) : Option Datum := d.entries?.bind (·.lookup key)

def get (key : String) (d : Datum) : Datum := (d.get? key).getD .absent

def isList : Datum → Bool
  | .list _ => true
  | _ => false

def isAbsent : Datum → Bool
  | .absent => true
  | _ => false

def isNumber : Datum → Bool
  | .number _ => true
  | _ => false

def string? : Datum → Option String
  | .string s => some s
  | _ => none

def isString (d : Datum) : Bool := d.string?.isSome

def isFalsy : Datum → Bool
  | .absent | .null => true
  | .boolean b => !b
  | .number n => n.isFalsy
  | .integer i => i == 0
  | .string s => s.isEmpty
  | _ => false

def isNothing : Datum → Bool
  | .absent | .null => true
  | _ => false

mutual

/-- The text of a value in a place where text is wanted. The elements of a list are joined by
commas, and nothing stands for those without a value. A mark has no text there, and neither has
a record with an entry in place of the rule by which records are written. -/
def asText? : Datum → Option String
  | .absent => some "undefined"
  | .null => some "null"
  | .boolean b => some (toString b)
  | .number n => some n.text
  | .integer i => some (toString i)
  | .string s => some s
  | .mark _ => none
  | .list elements => (elementTexts? elements).map (",".intercalate ·)
  | .record entries => if entries.any (·.1 == "toString") then none else some "[object Object]"

def elementTexts? : List Datum → Option (List String)
  | [] => some []
  | .absent :: rest => (elementTexts? rest).map ("" :: ·)
  | .null :: rest => (elementTexts? rest).map ("" :: ·)
  | d :: rest =>
    match d.asText?, elementTexts? rest with
    | some t, some ts => some (t :: ts)
    | _, _ => none

end

/-- The text of a value that is asked for as such; a mark has one too. -/
def written? : Datum → Option String
  | .mark m => some m.text
  | d => d.asText?

/-- The number that a value counts as where it is compared with one. -/
def asNumber? : Datum → Option Number
  | .absent => some .nan
  | .null => some .zero
  | .boolean b => some (.ofNat b.toNat)
  | .number n => some n
  | .integer i => some (.ofInt i)
  | .mark _ => none
  | d => d.asText?.map Number.ofText

/-- Whether two values are the same atom. A list or a record is the same as no other, and all
zeros are one number. -/
def isSame : Datum → Datum → Bool
  | .absent, .absent => true
  | .null, .null => true
  | .boolean a, .boolean b => a == b
  | .number a, .number b => a == b || (a.isFalsy && b.isFalsy && a.isFinite && b.isFinite)
  | .integer a, .integer b => a == b
  | .string a, .string b => a == b
  | .mark a, .mark b => a == b
  | _, _ => false

/-- Whether a value counts as a sequence without elements: it is none of a length above zero. -/
def isEmptySequence : Datum → Bool
  | .absent | .null => false
  | .list elements => elements.isEmpty
  | .string s => s.isEmpty
  | .record entries =>
    (((entries.lookup "length").getD .absent).asNumber?.map fun n => !n.isPositive).getD false
  | _ => true

/-- What a value consists of, under keys: the entries of a record, the elements of a list and
the units of a text under their positions, and nothing for any other value that is there. -/
def members? : Datum → Option (List (String × Datum))
  | .absent | .null => none
  | .record entries => some entries
  | .list elements => some (elements.zipIdx.map fun e => (toString e.2, e.1))
  | .string s => some ((Text.units s.toList).zipIdx.map fun e => (toString e.2, .string e.1))
  | _ => some []

/-- A value as messages name it: its kind, and the text of an atom or the length of a list. -/
def describe : Datum → String
  | .absent => "undefined undefined"
  | .null => "null"
  | .boolean b => "boolean " ++ toString b
  | .number n => "number " ++ n.text
  | .integer i => "bigint " ++ toString i
  | .string s => "string " ++ s
  | .mark m => m.text
  | .list xs => "array of " ++ toString xs.length
  | .record _ => "object"

theorem sizeOf_pos (d : Datum) : 0 < sizeOf d := by
  cases d <;> simp only [absent.sizeOf_spec, null.sizeOf_spec, boolean.sizeOf_spec,
    number.sizeOf_spec, integer.sizeOf_spec, string.sizeOf_spec, mark.sizeOf_spec,
    list.sizeOf_spec, record.sizeOf_spec] <;> omega

theorem sizeOf_lookup_lt {entries : List (String × Datum)} {key : String} {d : Datum}
    (h : entries.lookup key = some d) : sizeOf d < sizeOf entries := by
  induction entries with
  | nil => simp at h
  | cons e entries ih =>
    obtain ⟨k, v⟩ := e
    simp only [List.lookup_cons] at h
    split at h
    · cases h; simp; omega
    · have := ih h
      simp; omega

theorem sizeOf_get?_lt {d v : Datum} {key : String} (h : d.get? key = some v) :
    sizeOf v < sizeOf d := by
  cases d with
  | record entries =>
    have := sizeOf_lookup_lt (show entries.lookup key = some v from h)
    simp only [record.sizeOf_spec]
    omega
  | _ => cases h

theorem isString_of_members {s : String} {es : List (String × Datum)}
    (h : (Datum.string s).members? = some es) : ∀ e ∈ es, e.2.isString = true := by
  cases h
  intro e he
  obtain ⟨u, _, rfl⟩ := List.mem_map.1 he
  rfl

theorem sizeOf_member_lt {d : Datum} {es : List (String × Datum)} (h : d.members? = some es) :
    ∀ e ∈ es, e.2.isString = false → sizeOf e.2 < sizeOf d := by
  intro e he hs
  cases d with
  | record entries =>
    cases h
    have := List.sizeOf_lt_of_mem he
    obtain ⟨k, v⟩ := e
    simp at this ⊢; omega
  | list elements =>
    cases h
    obtain ⟨⟨x, i⟩, hx, rfl⟩ := List.mem_map.1 he
    have := List.sizeOf_lt_of_mem (List.fst_mem_of_mem_zipIdx hx)
    simp at this ⊢; omega
  | string s => exact absurd (isString_of_members h e he) (by simp [hs])
  | absent | null => cases h
  | boolean | number | integer | mark => cases h; cases he

theorem isString_of_get? {d v : Datum} {key : String} (h : d.get? key = some v) :
    d.isString = false := by
  cases d with
  | record => rfl
  | _ => cases h

end Datum
end GraphQuery
