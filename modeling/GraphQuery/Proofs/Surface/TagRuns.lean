import GraphQuery.Proofs.Surface.Grammar
import Mathlib.Data.List.DropRight

/-! How a list is split, told from the runs of tags in it. What stands after an even number of tags
in a row is a tag that takes what follows, or positional; what stands after an odd number of them
is the value of the tag before it. -/
namespace GraphQuery.Surface

/-- How many tags in a row a list ends in. -/
def tagRun (ds : List Datum) : Nat := (ds.rtakeWhile Form.isMetaTag).length

theorem tagRun_concat (ds : List Datum) (d : Datum) :
    tagRun (ds ++ [d]) = if Form.isMetaTag d then tagRun ds + 1 else 0 := by
  rw [tagRun, List.rtakeWhile_concat]
  split
  · rw [List.length_append, List.length_singleton, tagRun]
  · rfl

/-- The places in a list after an even number of tags in a row where an element has a property. -/
def freePlaces (p : Datum → Bool) (ds : List Datum) : List Nat :=
  (List.range ds.length).filter fun i => tagRun (ds.take i) % 2 == 0 && ds[i]?.any p

def tagPlaces (ds : List Datum) : List Nat := freePlaces Form.isMetaTag ds

def positionalPlaces (ds : List Datum) : List Nat := freePlaces (!Form.isMetaTag ·) ds

def tagAt? (ds : List Datum) (i : Nat) : Option MetaTag :=
  match ds[i]? with
  | some (.mark (.tag t)) => some t
  | _ => none

/-- The last place where a tag announces a value. -/
def lastPlace? (ds : List Datum) (t : MetaTag) : Option Nat :=
  (tagPlaces ds).reverse.find? fun i => tagAt? ds i == some t

/-- A split that gives every element the use that the run of tags before it tells. -/
structure SplitsByRuns (ds : List Datum) (s : Split) : Prop where
  positional : s.positional = (positionalPlaces ds).filterMap (ds[·]?)
  /-- Tags come in the order of their first places. -/
  tags : s.metadata.map Prod.fst = ((tagPlaces ds).filterMap (tagAt? ds)).eraseDups
  value : ∀ t, s.value? t = (lastPlace? ds t).bind (ds[· + 1]?)
  /-- Each element is used once, as positional, as a tag or as the value of the tag before it. -/
  once : (positionalPlaces ds ++ tagPlaces ds ++ (tagPlaces ds).map (· + 1)).Perm
    (List.range ds.length)
  untagged : ∀ d ∈ s.positional, Form.isMetaTag d = false

/-! The rest of a list is gone through with what stands before it in mind. -/

/-- The places of the rest of a list. -/
def freePlacesFrom (p : Datum → Bool) (before rest : List Datum) : List Nat :=
  (List.range' before.length rest.length).filter fun i =>
    tagRun ((before ++ rest).take i) % 2 == 0 && (before ++ rest)[i]?.any p

theorem freePlacesFrom_nil (p : Datum → Bool) (ds : List Datum) :
    freePlacesFrom p [] ds = freePlaces p ds := by
  rw [freePlacesFrom, freePlaces, List.nil_append, List.length_nil, List.range_eq_range']

theorem freePlacesFrom_cons (p : Datum → Bool) (before : List Datum) (d : Datum)
    (rest : List Datum) :
    freePlacesFrom p before (d :: rest) =
      if tagRun before % 2 == 0 && p d then before.length :: freePlacesFrom p (before ++ [d]) rest
      else freePlacesFrom p (before ++ [d]) rest := by
  have hrest : freePlacesFrom p (before ++ [d]) rest =
      (List.range' (before.length + 1) rest.length).filter fun i =>
        tagRun ((before ++ d :: rest).take i) % 2 == 0 && (before ++ d :: rest)[i]?.any p := by
    rw [freePlacesFrom, List.length_append, List.length_singleton, List.append_assoc]
    rfl
  rw [hrest, freePlacesFrom, List.length_cons, List.range'_succ, List.filter_cons]
  simp

theorem isMetaTag_tag (t : MetaTag) : Form.isMetaTag (.mark (.tag t)) = true := rfl

theorem tagRun_positional (before : List Datum) {d : Datum} (hd : Form.isMetaTag d = false) :
    tagRun (before ++ [d]) % 2 = 0 := by
  rw [tagRun_concat, hd]
  rfl

section
variable {before : List Datum} (h : tagRun before % 2 = 0)
include h

theorem tagRun_tag (t : MetaTag) : tagRun (before ++ [.mark (.tag t)]) % 2 = 1 := by
  rw [tagRun_concat, isMetaTag_tag, if_pos rfl]
  omega

theorem tagRun_pair (t : MetaTag) (d : Datum) :
    tagRun (before ++ [.mark (.tag t), d]) % 2 = 0 := by
  have hodd := tagRun_tag h t
  rw [List.append_cons, tagRun_concat]
  split <;> omega

theorem freePlacesFrom_positional (p : Datum → Bool) (d : Datum) (rest : List Datum) :
    freePlacesFrom p before (d :: rest) =
      if p d then before.length :: freePlacesFrom p (before ++ [d]) rest
      else freePlacesFrom p (before ++ [d]) rest := by
  rw [freePlacesFrom_cons, h]
  rfl

theorem freePlacesFrom_pair (p : Datum → Bool) (t : MetaTag) (d : Datum) (rest : List Datum) :
    freePlacesFrom p before (.mark (.tag t) :: d :: rest) =
      if p (.mark (.tag t)) then
        before.length :: freePlacesFrom p (before ++ [.mark (.tag t), d]) rest
      else freePlacesFrom p (before ++ [.mark (.tag t), d]) rest := by
  rw [freePlacesFrom_cons, freePlacesFrom_cons, h, tagRun_tag h t, ← List.append_cons]
  rfl

end

/-! A list that divides into pairs and positional elements, after a beginning that ends in an even
number of tags. -/

section
variable {rest positional : List Datum} {given : List (MetaTag × Datum)}

theorem Divides.tagRun_append (hd : Divides rest given positional) {before : List Datum}
    (h : tagRun before % 2 = 0) : tagRun (before ++ rest) % 2 = 0 := by
  induction hd generalizing before with
  | nil => rwa [List.append_nil]
  | tag t d _ ih =>
    have hrest := ih (tagRun_pair h t d)
    rwa [List.append_assoc] at hrest
  | positional hn _ ih =>
    have hrest := ih (tagRun_positional before hn)
    rwa [List.append_assoc] at hrest

theorem Divides.elements_positional (hd : Divides rest given positional) {before : List Datum}
    (h : tagRun before % 2 = 0) :
    (freePlacesFrom (!Form.isMetaTag ·) before rest).filterMap ((before ++ rest)[·]?) =
      positional := by
  induction hd generalizing before with
  | nil => rfl
  | tag t d _ ih =>
    have hrest := ih (tagRun_pair h t d)
    rw [freePlacesFrom_pair h, isMetaTag_tag, Bool.not_true, if_neg Bool.false_ne_true]
    rwa [List.append_assoc] at hrest
  | @positional d hn rest _ _ _ ih =>
    have hrest := ih (tagRun_positional before hn)
    have hplace : (before ++ d :: rest)[before.length]? = some d := by simp
    rw [List.append_assoc] at hrest
    rw [freePlacesFrom_positional h, hn, Bool.not_false, if_pos rfl,
      List.filterMap_cons_some hplace]
    exact congrArg _ hrest

/-- Each place of a tag has the tag, and after it stands the value. -/
theorem Divides.places_given (hd : Divides rest given positional) {before : List Datum}
    (h : tagRun before % 2 = 0) :
    List.Forall₂ (fun i g => tagAt? (before ++ rest) i = some g.1 ∧
      (before ++ rest)[i + 1]? = some g.2) (freePlacesFrom Form.isMetaTag before rest) given := by
  induction hd generalizing before with
  | nil => exact .nil
  | @tag t d rest _ _ _ ih =>
    have hrest := ih (tagRun_pair h t d)
    have htag : tagAt? (before ++ .mark (.tag t) :: d :: rest) before.length = some t := by
      simp [tagAt?]
    have hvalue : (before ++ .mark (.tag t) :: d :: rest)[before.length + 1]? = some d := by simp
    rw [List.append_assoc] at hrest
    rw [freePlacesFrom_pair h, isMetaTag_tag, if_pos rfl]
    exact .cons ⟨htag, hvalue⟩ hrest
  | positional hn _ ih =>
    have hrest := ih (tagRun_positional before hn)
    rw [freePlacesFrom_positional h, hn, if_neg Bool.false_ne_true]
    rwa [List.append_assoc] at hrest

/-- Two new elements come to the front. -/
theorem perm_cons_cons {α : Type} (a b : α) (l₁ l₂ l₃ : List α) :
    (l₁ ++ a :: l₂ ++ b :: l₃).Perm (a :: b :: (l₁ ++ l₂ ++ l₃)) :=
  calc
    (l₁ ++ a :: l₂ ++ b :: l₃).Perm (b :: (l₁ ++ a :: l₂ ++ l₃)) := List.perm_middle
    List.Perm _ (b :: a :: (l₁ ++ l₂ ++ l₃)) := (List.perm_middle.append_right l₃).cons b
    List.Perm _ (a :: b :: (l₁ ++ l₂ ++ l₃)) := .swap a b _

theorem Divides.places_perm (hd : Divides rest given positional) {before : List Datum}
    (h : tagRun before % 2 = 0) :
    (freePlacesFrom (!Form.isMetaTag ·) before rest ++ freePlacesFrom Form.isMetaTag before rest ++
      (freePlacesFrom Form.isMetaTag before rest).map (· + 1)).Perm
      (List.range' before.length rest.length) := by
  induction hd generalizing before with
  | nil => exact .refl _
  | tag t d _ ih =>
    have hrest := ih (tagRun_pair h t d)
    rw [List.length_append] at hrest
    rw [freePlacesFrom_pair h, freePlacesFrom_pair h, isMetaTag_tag, Bool.not_true,
      if_neg Bool.false_ne_true, if_pos rfl, List.length_cons, List.length_cons, List.range'_succ,
      List.range'_succ, List.map_cons]
    exact (perm_cons_cons _ _ _ _ _).trans ((hrest.cons _).cons _)
  | positional hn _ ih =>
    have hrest := ih (tagRun_positional before hn)
    rw [List.length_append] at hrest
    rw [freePlacesFrom_positional h, freePlacesFrom_positional h, hn, Bool.not_false, if_pos rfl,
      if_neg Bool.false_ne_true, List.length_cons, List.range'_succ]
    exact hrest.cons _

end

/-! The whole list. -/

/-- A list that cannot be split ends in a tag that stands where a tag takes what follows. -/
theorem tagRun_of_splitElements_error {rest : List Datum} {t : MetaTag}
    (hs : splitElements rest = .error t) {before : List Datum} (h : tagRun before % 2 = 0) :
    tagRun (before ++ rest) % 2 = 1 ∧ (before ++ rest).getLast? = some (.mark (.tag t)) := by
  fun_induction splitElements rest generalizing before with
  | case1 => cases hs
  | case2 t' =>
    cases hs
    exact ⟨tagRun_tag h t, by simp⟩
  | case3 t' d rest ih =>
    have hrest := ih (map_eq_error.1 hs) (tagRun_pair h t' d)
    rwa [List.append_assoc] at hrest
  | case4 d rest h₁ h₂ ih =>
    have hd : Form.isMetaTag d = false := isMetaTag_eq_false.2 fun t he => by
      cases rest with
      | nil => exact h₁ t he rfl
      | cons e rest => exact h₂ t e rest he rfl
    have hrest := ih (map_eq_error.1 hs) (tagRun_positional before hd)
    rwa [List.append_assoc] at hrest

theorem lookup_of_places {ds : List Datum} {places : List Nat} {given : List (MetaTag × Datum)}
    (h : List.Forall₂ (fun i g => tagAt? ds i = some g.1 ∧ ds[i + 1]? = some g.2) places given)
    (t : MetaTag) :
    given.lookup t = (places.find? fun i => tagAt? ds i == some t).bind (ds[· + 1]?) := by
  induction h with
  | nil => rfl
  | @cons i g _ _ hg _ ih =>
    obtain ⟨t', d⟩ := g
    by_cases ht : t = t'
    · subst ht
      rw [List.lookup_cons_self, List.find?_cons_of_pos (by simp [hg.1]), Option.bind_some, hg.2]
    · rw [Keyed.lookup_cons_of_ne ht, List.find?_cons_of_neg (by simp [hg.1, Ne.symm ht]), ih]

theorem tags_of_places {ds : List Datum} {places : List Nat} {given : List (MetaTag × Datum)}
    (h : List.Forall₂ (fun i g => tagAt? ds i = some g.1 ∧ ds[i + 1]? = some g.2) places given) :
    places.filterMap (tagAt? ds) = given.map Prod.fst := by
  induction h with
  | nil => rfl
  | cons hg _ ih => rw [List.filterMap_cons_some hg.1, List.map_cons, ih]

theorem untagged_of_divides {elements positional : List Datum} {given : List (MetaTag × Datum)}
    (h : Divides elements given positional) : ∀ d ∈ positional, Form.isMetaTag d = false := by
  induction h with
  | nil => simp
  | tag _ _ _ ih => exact ih
  | positional hd _ ih => exact List.forall_mem_cons.2 ⟨hd, ih⟩

theorem splitsByRuns_of_divides {elements positional : List Datum}
    {given : List (MetaTag × Datum)} (h : Divides elements given positional) :
    SplitsByRuns elements ⟨Keyed.collect given, positional⟩ := by
  have hnil : tagRun [] % 2 = 0 := rfl
  have hpositional := h.elements_positional hnil
  have hgiven := h.places_given hnil
  have hperm := h.places_perm hnil
  rw [List.nil_append, freePlacesFrom_nil] at hpositional hgiven
  rw [freePlacesFrom_nil, freePlacesFrom_nil] at hperm
  refine ⟨hpositional.symm, ?_, fun t => ?_, ?_, untagged_of_divides h⟩
  · rw [tagPlaces, tags_of_places hgiven]
    exact Keyed.keys_collect given
  · rw [value?_collect, lastGiven, lastPlace?]
    exact lookup_of_places (List.forall₂_reverse_iff.2 hgiven) t
  · rw [List.range_eq_range']
    exact hperm

/-- A list cannot be split exactly if it ends in an odd number of tags in a row; the fault is then
the list, and the last tag is named. Any other list is split as the runs of tags in it tell. -/
theorem split_list_by_runs (ds : List Datum) :
    ((∃ m, split (.list ds) = .error m) ↔ tagRun ds % 2 = 1) ∧
      (∀ m, split (.list ds) = .error m →
        ∃ t, ds.getLast? = some (.mark (.tag t)) ∧ m = .tagWithoutValue t (.list ds)) ∧
      (tagRun ds % 2 = 0 → ∃ s, split (.list ds) = .ok s ∧ SplitsByRuns ds s) := by
  have hnil : tagRun [] % 2 = 0 := rfl
  cases hs : splitElements ds with
  | error t =>
    have hsplit : split (.list ds) = .error (.tagWithoutValue t (.list ds)) := by
      rw [split, hs]
      rfl
    obtain ⟨hodd, hlast⟩ := tagRun_of_splitElements_error hs hnil
    rw [List.nil_append] at hodd hlast
    refine ⟨⟨fun _ => hodd, fun _ => ⟨_, hsplit⟩⟩, fun m hm => ?_, fun heven => ?_⟩
    · rw [hsplit] at hm
      cases hm
      exact ⟨t, hlast, rfl⟩
    · omega
  | ok s =>
    obtain ⟨given, hd, -⟩ := divides_of_splitElements hs
    have hsplit := split_of_divides hd
    have heven := hd.tagRun_append hnil
    rw [List.nil_append] at heven
    refine ⟨⟨fun hm => ?_, fun hodd => ?_⟩, fun m hm => ?_, fun _ => ?_⟩
    · obtain ⟨m, hm⟩ := hm
      rw [hsplit] at hm
      cases hm
    · omega
    · rw [hsplit] at hm
      cases hm
    · exact ⟨_, hsplit, splitsByRuns_of_divides hd⟩

end GraphQuery.Surface
