import GraphQuery.Outcome
import GraphQuery.Surface.Malformed

/-! Splitting a node into metadata and positional elements. A tag takes the element after it,
whatever that is; all other elements are positional and keep their order. -/
namespace GraphQuery.Surface

structure Split where
  /-- Tags in the order of their first occurrence, each with its last value. -/
  metadata : List (MetaTag × Datum)
  positional : List Datum

namespace Split

def empty : Split := ⟨[], []⟩

def addPositional (d : Datum) (s : Split) : Split := ⟨s.metadata, d :: s.positional⟩

/-- A tag with its value in front of the rest of a node. -/
def addTag (t : MetaTag) (d : Datum) (s : Split) : Split :=
  ⟨Keyed.push t d s.metadata, s.positional⟩

def value? (s : Split) (t : MetaTag) : Option Datum := s.metadata.lookup t

theorem value?_addTag_self (t : MetaTag) (d : Datum) (s : Split) :
    (s.addTag t d).value? t = some ((s.value? t).getD d) := Keyed.lookup_push_self t d s.metadata

theorem value?_addTag_of_ne {t t' : MetaTag} (h : t' ≠ t) (d : Datum) (s : Split) :
    (s.addTag t d).value? t' = s.value? t' := Keyed.lookup_push_of_ne h d s.metadata

end Split

/-- Splits the elements of a node. The failure is a tag that comes last. -/
def splitElements : List Datum → Except MetaTag Split
  | [] => .ok .empty
  | .mark (.tag t) :: [] => .error t
  | .mark (.tag t) :: d :: rest => (splitElements rest).map (Split.addTag t d)
  | d :: rest => (splitElements rest).map (Split.addPositional d)

/-- Splits a node; a node that is no list is its own only positional element. -/
def split : Datum → Except Malformed Split
  | .list elements => (splitElements elements).mapError (.tagWithoutValue · (.list elements))
  | d => .ok ⟨[], [d]⟩

theorem mem_of_splitElements {elements : List Datum} {s : Split}
    (h : splitElements elements = .ok s) :
    (∀ d ∈ s.positional, d ∈ elements) ∧ ∀ e ∈ s.metadata, e.2 ∈ elements := by
  fun_induction splitElements elements generalizing s with
  | case1 => cases h; simp [Split.empty]
  | case2 => cases h
  | case3 t d rest ih =>
    obtain ⟨r, hr, rfl⟩ := map_eq_ok.1 h
    obtain ⟨hp, hm⟩ := ih hr
    refine ⟨fun x hx => by simp [hp x hx], fun e he => ?_⟩
    simp only [Split.addTag, Keyed.push, List.mem_cons, List.mem_filter] at he
    rcases he with rfl | ⟨he, _⟩
    · cases hl : r.metadata.lookup t with
      | none => simp
      | some v => simp [hm _ (Keyed.mem_of_lookup hl)]
    · simp [hm e he]
  | case4 d rest _ _ ih =>
    obtain ⟨r, hr, rfl⟩ := map_eq_ok.1 h
    obtain ⟨hp, hm⟩ := ih hr
    refine ⟨fun x hx => ?_, fun e he => by simp [hm e he]⟩
    simp only [Split.addPositional, List.mem_cons] at hx
    rcases hx with rfl | hx
    · simp
    · simp [hp x hx]

end GraphQuery.Surface
