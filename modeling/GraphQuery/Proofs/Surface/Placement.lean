import GraphQuery.Proofs.Surface.Agreement
import GraphQuery.Proofs.Surface.Grammar

/-! Where metadata stands. A list is read by its positional elements and by the last value of each
tag, so that tags with their values can be moved past everything but a value of the same tag. -/
namespace GraphQuery.Surface

def Split.content (s : Split) : List Datum × (MetaTag → Option Datum) := (s.positional, s.value?)

/-- Two lists have the same positional elements and the same last value or none for each tag, or
both end in the same tag. -/
def SameContent (es fs : List Datum) : Prop :=
  (splitElements es).map Split.content = (splitElements fs).map Split.content

/-- Graphs that are the same but for how one list in them, at any depth among the children, is
arranged. -/
inductive Rearranged : Datum → Datum → Prop
  | list {es fs : List Datum} (h : SameContent es fs) : Rearranged (.list es) (.list fs)
  | child {before after : List Datum} {d e head : Datum} {given : List (MetaTag × Datum)}
    {children : List Datum} (hb : Divides before given (head :: children))
    (h : Rearranged d e) : Rearranged (.list (before ++ d :: after)) (.list (before ++ e :: after))

/-! Lists by their beginnings. -/

def Split.addTags (given : List (MetaTag × Datum)) (s : Split) : Split :=
  given.foldr (fun g s => s.addTag g.1 g.2) s

def Split.prepend (given : List (MetaTag × Datum)) (ds : List Datum) (s : Split) : Split :=
  ⟨(s.addTags given).metadata, ds ++ s.positional⟩

theorem Split.value?_addTags (given : List (MetaTag × Datum)) (s : Split) (t : MetaTag) :
    (s.addTags given).value? t = (s.value? t).or (lastGiven given t) := by
  induction given with
  | nil => simp [addTags, lastGiven]
  | cons g given ih =>
    obtain ⟨t', d⟩ := g
    show ((s.addTags given).addTag t' d).value? t = _
    rw [lastGiven, List.reverse_cons, List.lookup_append, ← lastGiven]
    by_cases ht : t = t'
    · subst ht
      rw [value?_addTag_self, ih]
      cases s.value? t <;> cases lastGiven given t <;> simp
    · rw [value?_addTag_of_ne ht, ih, Keyed.lookup_cons_of_ne ht]
      simp

theorem Split.value?_prepend (given : List (MetaTag × Datum)) (ds : List Datum) (s : Split)
    (t : MetaTag) : (s.prepend given ds).value? t = (s.value? t).or (lastGiven given t) :=
  value?_addTags given s t

theorem splitElements_append {before positional : List Datum} {given : List (MetaTag × Datum)}
    (h : Divides before given positional) (rest : List Datum) :
    splitElements (before ++ rest) =
      (splitElements rest).map (Split.prepend given positional) := by
  induction h with
  | nil =>
    rw [List.nil_append]
    cases splitElements rest <;> rfl
  | tag t d _ ih =>
    rw [List.cons_append, List.cons_append, splitElements, ih]
    cases splitElements rest <;> rfl
  | positional hd _ ih =>
    rw [List.cons_append, splitElements_cons hd, ih]
    cases splitElements rest <;> rfl

/-! Agreement. -/

theorem readMetadata_congr {s s' : Split} (h : s.value? = s'.value?) :
    readMetadata s = readMetadata s' := by
  rw [readMetadata, readMetadata, h]

theorem SameContent.agree {es fs : List Datum} (h : SameContent es fs) :
    Agree (readGraph (.list es)) (readGraph (.list fs)) := by
  rw [SameContent] at h
  cases hs : splitElements es with
  | error t =>
    cases hs' : splitElements fs with
    | error t' =>
      rw [hs, hs'] at h
      cases h
      exact agree_of_split_errors hs hs'
    | ok s' =>
      rw [hs, hs'] at h
      cases h
  | ok s =>
    cases hs' : splitElements fs with
    | error t' =>
      rw [hs, hs'] at h
      cases h
    | ok s' =>
      rw [hs, hs'] at h
      have hcontent : s.content = s'.content := Except.ok.inj h
      have hpositional : s.positional = s'.positional := congrArg Prod.fst hcontent
      have hvalue : s.value? = s'.value? := congrArg Prod.snd hcontent
      refine agree_of_splits hs hs' ?_
      cases hp : s.positional with
      | nil => exact .empty hp (hpositional ▸ hp)
      | cons head children =>
        refine .parts hp (hpositional ▸ hp) (.refl _) ?_ (.refl _)
        rw [readMetadata_congr hvalue]
        exact .refl _

theorem agree_child {before after : List Datum} {d e head : Datum}
    {given : List (MetaTag × Datum)} {children : List Datum}
    (hb : Divides before given (head :: children)) (hd : Form.isMetaTag d = false)
    (he : Form.isMetaTag e = false) (h : Agree (readGraph d) (readGraph e)) :
    Agree (readGraph (.list (before ++ d :: after)))
      (readGraph (.list (before ++ e :: after))) := by
  have hes := splitElements_append hb (d :: after)
  have hfs := splitElements_append hb (e :: after)
  rw [splitElements_cons hd] at hes
  rw [splitElements_cons he] at hfs
  cases hs : splitElements after with
  | error t =>
    rw [hs] at hes hfs
    exact agree_of_split_errors hes hfs
  | ok s =>
    rw [hs] at hes hfs
    have hm : readMetadata (Split.prepend given (head :: children) (s.addPositional d)) =
        readMetadata (Split.prepend given (head :: children) (s.addPositional e)) := by
      refine readMetadata_congr (funext fun t => ?_)
      rw [Split.value?_prepend, Split.value?_prepend]
      rfl
    refine agree_of_splits hes hfs
      (.parts rfl rfl (.refl _) (hm ▸ .refl _) (agree_readGraphs ?_))
    have hsame (ds : List Datum) :
        List.Forall₂ (fun d e => Agree (readGraph d) (readGraph e)) ds ds :=
      List.forall₂_same.2 fun d _ => .refl _
    exact List.rel_append (hsame children) (.cons h (hsame s.positional))

theorem Rearranged.agree {d e : Datum} (h : Rearranged d e) :
    Agree (readGraph d) (readGraph e) := by
  have hlist : ∀ {d e : Datum}, Rearranged d e →
      Form.isMetaTag d = false ∧ Form.isMetaTag e = false := by
    intro d e h
    cases h <;> exact ⟨rfl, rfl⟩
  induction h with
  | list h => exact h.agree
  | child hb h ih => exact agree_child hb (hlist h).1 (hlist h).2 ih

/-- A tag with its value stands before or after a stretch of whole pairs of other tags and
positional elements. -/
theorem sameContent_of_move {before passed positional positional' : List Datum}
    {given given' : List (MetaTag × Datum)} (hb : Divides before given positional)
    (hp : Divides passed given' positional') {t : MetaTag} (ht : t ∉ given'.map Prod.fst)
    (d : Datum) (after : List Datum) :
    SameContent (before ++ .mark (.tag t) :: d :: (passed ++ after))
      (before ++ (passed ++ .mark (.tag t) :: d :: after)) := by
  have hl : lastGiven given' t = none := by
    rw [lastGiven, List.lookup_eq_none_iff]
    intro g hg
    have hne : t ≠ g.1 := by
      rintro rfl
      exact ht (List.mem_map_of_mem (List.mem_reverse.1 hg))
    simpa using hne
  have hes : splitElements (before ++ .mark (.tag t) :: d :: (passed ++ after)) =
      (splitElements after).map fun s =>
        ((s.prepend given' positional').addTag t d).prepend given positional := by
    rw [splitElements_append hb, splitElements, splitElements_append hp]
    cases splitElements after <;> rfl
  have hfs : splitElements (before ++ (passed ++ .mark (.tag t) :: d :: after)) =
      (splitElements after).map fun s =>
        ((s.addTag t d).prepend given' positional').prepend given positional := by
    rw [splitElements_append hb, splitElements_append hp, splitElements]
    cases splitElements after <;> rfl
  have hvalue (s : Split) (x : MetaTag) :
      ((s.prepend given' positional').addTag t d).value? x =
        ((s.addTag t d).prepend given' positional').value? x := by
    rw [Split.value?_prepend]
    by_cases hx : x = t
    · subst hx
      rw [Split.value?_addTag_self, Split.value?_addTag_self, Split.value?_prepend, hl]
      simp
    · rw [Split.value?_addTag_of_ne hx, Split.value?_addTag_of_ne hx, Split.value?_prepend]
  rw [SameContent, hes, hfs]
  cases splitElements after with
  | error t' => rfl
  | ok s =>
    refine congrArg Except.ok (Prod.ext rfl (funext fun x => ?_))
    show Split.value? _ x = Split.value? _ x
    rw [Split.value?_prepend, Split.value?_prepend, hvalue]

/-- It does not matter where in a list metadata stands, nor which values of a tag come before its
last one, for whatever is done with a graph that has the list among its children or is it. A tag
with its value can be moved past whole pairs of other tags and past positional elements. -/
theorem sameOutcomes_of_rearranged :
    (∀ g h, Rearranged g h → SameOutcomes g h) ∧
      ∀ (before passed positional positional' after : List Datum)
        (given given' : List (MetaTag × Datum)) (t : MetaTag) (d : Datum),
        Divides before given positional → Divides passed given' positional' →
        t ∉ given'.map Prod.fst →
        Rearranged (.list (before ++ .mark (.tag t) :: d :: (passed ++ after)))
          (.list (before ++ (passed ++ .mark (.tag t) :: d :: after))) :=
  ⟨fun _ _ h => .of_agree h.agree,
    fun _ _ _ _ after _ _ _ d hb hp ht => .list (sameContent_of_move hb hp ht d after)⟩

theorem sameOutcomes_viewer :
    SameOutcomes
        (.list [.string "viewer", .list [.mark (.tag .operationName), .string "old",
          .string "user", .string "login", .mark (.tag .operationName), .string "new"]])
        (.list [.string "viewer", .list [.string "user", .mark (.tag .operationName),
          .string "new", .string "login"]]) ∧
      Rearranged
        (.list [.mark (.tag .operationName), .mark (.tag .arguments), .mark (.tag .arguments),
          .list [], .string "user"])
        (.list [.mark (.tag .arguments), .list [], .string "user", .mark (.tag .operationName),
          .mark (.tag .arguments)]) := by
  have hviewer : Divides [.string "viewer"] [] [.string "viewer"] := .positional rfl .nil
  have hchild : SameContent
      [.mark (.tag .operationName), .string "old", .string "user", .string "login",
        .mark (.tag .operationName), .string "new"]
      [.string "user", .mark (.tag .operationName), .string "new", .string "login"] := rfl
  have hpassed : Divides [.mark (.tag .arguments), .list [], .string "user"]
      [(.arguments, .list [])] [.string "user"] := .tag .arguments _ (.positional rfl .nil)
  exact ⟨sameOutcomes_of_rearranged.1 _ _ (.child hviewer (.list hchild)),
    sameOutcomes_of_rearranged.2 [] _ _ _ [] _ _ .operationName _ .nil hpassed (by decide)⟩

end GraphQuery.Surface
