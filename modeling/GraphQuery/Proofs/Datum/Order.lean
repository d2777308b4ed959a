import GraphQuery.Datum

/-! Entries that stand in the order of a record: a record keeps them as they are. -/
namespace GraphQuery.Datum

/-- The order of keys in a record: those that name positions before all others, ascending. -/
def KeyOrder (a b : String) : Prop :=
  match indexOfKey? a, indexOfKey? b with
  | some i, some j => i ≤ j
  | none, some _ => False
  | _, none => True

instance (a b : String) : Decidable (KeyOrder a b) :=
  match ha : indexOfKey? a, hb : indexOfKey? b with
  | some i, some j => decidable_of_iff (i ≤ j) (by simp [KeyOrder, ha, hb])
  | none, some _ => isFalse (by simp [KeyOrder, ha, hb])
  | some _, none => isTrue (by simp [KeyOrder, ha, hb])
  | none, none => isTrue (by simp [KeyOrder, ha, hb])

theorem keyOrder_of_some {a b : String} {i j : Nat} (h : KeyOrder a b)
    (ha : indexOfKey? a = some i) (hb : indexOfKey? b = some j) : i ≤ j := by
  simpa [KeyOrder, ha, hb] using h

theorem indexOfKey?_eq_none_of_keyOrder {a b : String} (h : KeyOrder a b)
    (ha : indexOfKey? a = none) : indexOfKey? b = none := by
  cases hb : indexOfKey? b with
  | none => rfl
  | some j => simp [KeyOrder, ha, hb] at h

/-- The entries at positions, each with its own. -/
def positioned (es : List (String × Datum)) : List (Nat × (String × Datum)) :=
  es.filterMap fun e => (indexOfKey? e.1).map fun i => (i, e)

theorem pairwise_positioned {es : List (String × Datum)}
    (h : (es.map Prod.fst).Pairwise KeyOrder) :
    (positioned es).Pairwise fun a b => decide (a.1 ≤ b.1) = true := by
  rw [positioned, List.pairwise_filterMap]
  rw [List.pairwise_map] at h
  refine h.imp fun {e f} hef a ha b hb => ?_
  obtain ⟨i, hi, rfl⟩ := Option.map_eq_some_iff.1 ha
  obtain ⟨j, hj, rfl⟩ := Option.map_eq_some_iff.1 hb
  exact decide_eq_true (keyOrder_of_some hef hi hj)

theorem positioned_append_filter {es : List (String × Datum)}
    (h : (es.map Prod.fst).Pairwise KeyOrder) :
    (positioned es).map Prod.snd ++ es.filter (fun e => (indexOfKey? e.1).isNone) = es := by
  induction es with
  | nil => rfl
  | cons e es ih =>
    rw [List.map_cons, List.pairwise_cons] at h
    obtain ⟨he, hes⟩ := h
    cases hi : indexOfKey? e.1 with
    | some i =>
      have := ih hes
      simp only [positioned] at this ⊢
      simpa [hi] using this
    | none =>
      have hnone : ∀ f ∈ es, indexOfKey? f.1 = none := fun f hf =>
        indexOfKey?_eq_none_of_keyOrder (he _ (List.mem_map_of_mem hf)) hi
      have hp : positioned (e :: es) = [] := by
        rw [positioned, List.filterMap_eq_nil_iff]
        intro f hf
        rcases List.mem_cons.1 hf with rfl | hf
        · rw [hi]; rfl
        · rw [hnone f hf]; rfl
      rw [hp, List.map_nil, List.nil_append, List.filter_eq_self]
      intro f hf
      rcases List.mem_cons.1 hf with rfl | hf
      · rw [hi]; rfl
      · rw [hnone f hf]; rfl

theorem orderEntries_of_pairwise {es : List (String × Datum)}
    (h : (es.map Prod.fst).Pairwise KeyOrder) : orderEntries es = es := by
  show ((positioned es).mergeSort fun a b => decide (a.1 ≤ b.1)).map Prod.snd ++ _ = es
  rw [List.mergeSort_of_pairwise (pairwise_positioned h)]
  exact positioned_append_filter h

end GraphQuery.Datum
