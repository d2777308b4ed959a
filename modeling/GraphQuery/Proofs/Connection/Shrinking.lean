import GraphQuery.Proofs.Connection.Records
import Mathlib.Logic.Function.Iterate

/-! A pass over a response makes its records fewer, unless no entry anywhere holds a wrapper; then
it leaves the response as it is. So passes come to such a response after at most as many steps as
there are records. -/
namespace GraphQuery.Connection

/-- No entry of a record anywhere in a value holds a wrapper. -/
def Unwrapped (t : Datum) : Prop := AllRecords (fun entries => ∀ e ∈ entries, ¬IsWrapper e.2) t

theorem unwrapped_record {entries : List (String × Datum)} :
    Unwrapped (.record entries) ↔ ∀ e ∈ entries, ¬IsWrapper e.2 ∧ Unwrapped e.2 := by
  rw [Unwrapped, allRecords_record]
  exact ⟨fun h e he => ⟨h.1 e he, h.2 e he⟩, fun h => ⟨fun e he => (h e he).1,
    fun e he => (h e he).2⟩⟩

mutual

/-- How many records there are in a value. -/
def recordCount : Datum → Nat
  | .list elements => recordCountAll elements
  | .record entries => recordCountEntries entries + 1
  | _ => 0

def recordCountAll : List Datum → Nat
  | [] => 0
  | d :: rest => recordCount d + recordCountAll rest

def recordCountEntries : List (String × Datum) → Nat
  | [] => 0
  | (_, d) :: rest => recordCount d + recordCountEntries rest

end

theorem recordCount_le_of_mem {entries : List (String × Datum)} {e : String × Datum}
    (h : e ∈ entries) : recordCount e.2 ≤ recordCountEntries entries := by
  induction entries with
  | nil => cases h
  | cons e' rest ih =>
    rw [recordCountEntries]
    rcases List.mem_cons.1 h with rfl | h
    · omega
    · have := ih h
      omega

theorem recordCount_get?_lt {d v : Datum} {key : String} (h : d.get? key = some v) :
    recordCount v < recordCount d := by
  cases d with
  | record entries =>
    have hv : entries.lookup key = some v := h
    have := recordCount_le_of_mem (Keyed.mem_of_lookup hv)
    rw [recordCount]
    exact Nat.lt_succ_of_le this
  | _ => cases h

theorem recordCountAll_edgeNodes_le {edges nodes : List Datum} (h : edgeNodes edges = some nodes) :
    recordCountAll nodes ≤ recordCountAll edges := by
  induction edges generalizing nodes with
  | nil => cases h; exact Nat.le_refl _
  | cons edge rest ih =>
    simp only [edgeNodes] at h
    split at h
    · next node ns hn hr =>
      cases h
      have hedge := recordCount_get?_lt hn
      have hrest := ih hr
      simp only [recordCountAll]
      omega
    · cases h

theorem recordCountAll_nodes_lt {d : Datum} {nodes : List Datum} (h : nodes? d = some nodes) :
    recordCountAll nodes < recordCount d := by
  unfold nodes? at h
  split at h
  · have := recordCountAll_edgeNodes_le h
    simp only [recordCount, recordCountEntries]
    omega
  · cases h

/-! What a pass does to a part: it makes its records fewer, unless the part is free of wrappers;
then it leaves the part. -/

def ShrinksUnless {α : Type} (size : α → Nat) (p : Prop) (a a' : α) : Prop :=
  (size a' < size a ∧ ¬p) ∨ (a' = a ∧ p)

theorem ShrinksUnless.and {α β : Type} {m : α → Nat} {n : β → Nat} {p q : Prop} {a a' : α}
    {b b' : β} (h : ShrinksUnless m p a a') (h' : ShrinksUnless n q b b') :
    (m a' + n b' < m a + n b ∧ ¬(p ∧ q)) ∨ ((a' = a ∧ b' = b) ∧ p ∧ q) := by
  rcases h with ⟨hlt, hp⟩ | ⟨rfl, hp⟩ <;> rcases h' with ⟨hlt', hq⟩ | ⟨rfl, hq⟩
  · exact .inl ⟨Nat.add_lt_add hlt hlt', fun h => hp h.1⟩
  · exact .inl ⟨Nat.add_lt_add_right hlt _, fun h => hp h.1⟩
  · exact .inl ⟨Nat.add_lt_add_left hlt' _, fun h => hq h.2⟩
  · exact .inr ⟨⟨rfl, rfl⟩, hp, hq⟩

mutual

theorem collapse_shrinks (d : Datum) :
    ShrinksUnless recordCount (Unwrapped d) d (collapse d) := by
  cases d with
  | list elements =>
    have h := collapseAll_shrinks elements
    simpa only [ShrinksUnless, collapse, recordCount, Unwrapped, allRecords_list,
      Datum.list.injEq] using h
  | record entries =>
    have h := collapseEntries_shrinks entries
    simpa only [ShrinksUnless, collapse, recordCount, unwrapped_record, Datum.record.injEq,
      Nat.add_lt_add_iff_right] using h
  | _ => exact .inr ⟨by simp [collapse], allRecords_atom rfl⟩
termination_by 2 * sizeOf d

theorem collapseAll_shrinks (ds : List Datum) :
    ShrinksUnless recordCountAll (∀ d ∈ ds, Unwrapped d) ds (collapseAll ds) := by
  cases ds with
  | nil => exact .inr ⟨by rw [collapseAll], by simp⟩
  | cons d ds =>
    have h := (collapse_shrinks d).and (collapseAll_shrinks ds)
    simpa only [ShrinksUnless, collapseAll, recordCountAll, List.forall_mem_cons,
      List.cons.injEq] using h
termination_by 2 * sizeOf ds

theorem collapseEntries_shrinks (entries : List (String × Datum)) :
    ShrinksUnless recordCountEntries (∀ e ∈ entries, ¬IsWrapper e.2 ∧ Unwrapped e.2) entries
      (collapseEntries entries) := by
  match entries with
  | [] => exact .inr ⟨by rw [collapseEntries], by simp⟩
  | (key, d) :: rest =>
    have h := (collapseEntry_shrinks d).and (collapseEntries_shrinks rest)
    simpa only [ShrinksUnless, collapseEntries, recordCountEntries, List.forall_mem_cons,
      List.cons.injEq, Prod.mk.injEq, true_and] using h
termination_by 2 * sizeOf entries

/-- A wrapper loses its own record, and the nodes have no more records than the edges. -/
theorem collapseEntry_shrinks (d : Datum) :
    ShrinksUnless recordCount (¬IsWrapper d ∧ Unwrapped d) d (collapseEntry d) := by
  cases hd : nodes? d with
  | none =>
    have h := collapse_shrinks d
    have hw := nodes?_eq_none_iff.1 hd
    simpa only [collapseEntry_of_none hd, hw, not_false_eq_true, true_and] using h
  | some nodes =>
    have hnodes := recordCountAll_nodes_lt hd
    refine .inl ⟨?_, fun h => h.1 (isWrapper_of_nodes hd)⟩
    rw [collapseEntry_of_nodes hd, recordCount]
    rcases collapseAll_shrinks nodes with ⟨hlt, -⟩ | ⟨heq, -⟩
    · omega
    · rwa [heq]
termination_by 2 * sizeOf d + 1
decreasing_by
  · omega
  · have := sizeOf_nodes_lt hd
    omega

end

theorem recordCount_collapse_le (t : Datum) : recordCount (collapse t) ≤ recordCount t := by
  rcases collapse_shrinks t with ⟨hlt, -⟩ | ⟨heq, -⟩
  · exact Nat.le_of_lt hlt
  · exact Nat.le_of_eq (congrArg recordCount heq)

theorem recordCount_collapse_eq_iff (t : Datum) :
    recordCount (collapse t) = recordCount t ↔ collapse t = t := by
  rcases collapse_shrinks t with ⟨hlt, -⟩ | ⟨heq, -⟩
  · refine ⟨fun h => absurd h (Nat.ne_of_lt hlt), fun h => by rw [h]⟩
  · simp [heq]

theorem collapse_eq_self_iff (t : Datum) : collapse t = t ↔ Unwrapped t := by
  rcases collapse_shrinks t with ⟨hlt, ht⟩ | ⟨heq, ht⟩
  · refine ⟨fun h => ?_, fun h => absurd h ht⟩
    rw [h] at hlt
    exact absurd hlt (Nat.lt_irrefl _)
  · simp [heq, ht]

theorem iterate_collapse_of_unwrapped {t : Datum} (h : Unwrapped t) (n : Nat) :
    collapse^[n] t = t :=
  Function.iterate_fixed ((collapse_eq_self_iff t).2 h) n

/-- After some passes nothing is wrapped any more, or each of them has taken a record away. -/
theorem unwrapped_or_recordCount_le (t : Datum) (n : Nat) :
    Unwrapped (collapse^[n] t) ∨ recordCount (collapse^[n] t) + n ≤ recordCount t := by
  induction n with
  | zero => exact .inr (Nat.le_refl _)
  | succ n ih =>
    rw [Function.iterate_succ_apply']
    rcases collapse_shrinks (collapse^[n] t) with ⟨hlt, hn⟩ | ⟨heq, hn⟩
    · have hle := ih.resolve_left hn
      exact .inr (by omega)
    · exact .inl (heq.symm ▸ hn)

/-- Without records there is nothing to unwrap. -/
theorem unwrapped_of_recordCount_eq_zero {t : Datum} (h : recordCount t = 0) : Unwrapped t := by
  rcases collapse_shrinks t with ⟨hlt, -⟩ | ⟨-, ht⟩
  · omega
  · exact ht

theorem unwrapped_iterate_recordCount (t : Datum) : Unwrapped (collapse^[recordCount t] t) := by
  rcases unwrapped_or_recordCount_le t (recordCount t) with h | h
  · exact h
  · exact unwrapped_of_recordCount_eq_zero (by omega)

/-- A pass never adds records. It keeps their number exactly if it changes nothing, which is so
exactly if no entry anywhere holds a wrapper. As many passes as there are records suffice to come
to a response of this kind, which further passes leave as it is. -/
theorem recordCount_collapse (t : Datum) :
    recordCount (collapse t) ≤ recordCount t ∧
      (recordCount (collapse t) = recordCount t ↔ collapse t = t) ∧
      (collapse t = t ↔ Unwrapped t) ∧
      ∃ n ≤ recordCount t, Unwrapped (collapse^[n] t) ∧
        ∀ m, n ≤ m → collapse^[m] t = collapse^[n] t := by
  refine ⟨recordCount_collapse_le t, recordCount_collapse_eq_iff t, collapse_eq_self_iff t,
    recordCount t, Nat.le_refl _, unwrapped_iterate_recordCount t, fun m hm => ?_⟩
  obtain ⟨k, rfl⟩ := Nat.exists_eq_add_of_le' hm
  rw [Function.iterate_add_apply]
  exact iterate_collapse_of_unwrapped (unwrapped_iterate_recordCount t) k

/-- A wrapper in the place of the edges of an entry. -/
def nestedEdges : Datum := .record [("a", .record [("edges", .record [("edges", .list [])])])]

/-- The first pass makes a wrapper of what is around the one that it opens, so that there is
something left for the second pass but nothing for a third one. -/
theorem recordCount_collapse_nestedEdges :
    recordCount nestedEdges = 3 ∧ recordCount (collapse nestedEdges) = 2 ∧
      ¬Unwrapped nestedEdges ∧ ¬Unwrapped (collapse nestedEdges) ∧
      Unwrapped (.record [("a", .list [])]) ∧
      ∃ n ≤ 3, ∀ m, n ≤ m → collapse^[m] nestedEdges = .record [("a", .list [])] := by
  have hopened : collapseEntry (.record [("edges", .list [])]) = .list [] := by
    rw [collapseEntry_of_nodes rfl, collapseAll]
  have hclosed : nodes? (.record [("edges", .record [("edges", .list [])])]) = none := rfl
  have hfirst : collapse nestedEdges = .record [("a", .record [("edges", .list [])])] := by
    simp only [nestedEdges, collapse, collapseEntries, collapseEntry_of_none hclosed, hopened]
  have hsecond : collapse (.record [("a", .record [("edges", .list [])])]) =
      .record [("a", .list [])] := by
    simp only [collapse, collapseEntries, hopened]
  have hthird : collapse (.record [("a", .list [])]) = .record [("a", .list [])] := by
    simp only [collapse, collapseEntries, collapseEntry_of_none (nodes?_list []), collapseAll]
  have hcount : recordCount nestedEdges = 3 := rfl
  obtain ⟨-, -, hunwrapped, n, hn, -, hstable⟩ := recordCount_collapse nestedEdges
  obtain ⟨-, -, hunwrapped', -⟩ := recordCount_collapse (collapse nestedEdges)
  rw [hcount] at hn
  rw [hfirst, hsecond] at hunwrapped'
  rw [hfirst] at hunwrapped
  rw [hfirst]
  refine ⟨hcount, rfl, fun h => ?_, fun h => ?_, (recordCount_collapse _).2.2.1.1 hthird,
    n, hn, fun m hm => ?_⟩
  · cases hunwrapped.2 h
  · cases hunwrapped'.2 h
  · rw [hstable m hm, ← hstable 3 hn]
    show collapse (collapse (collapse nestedEdges)) = _
    rw [hfirst, hsecond, hthird]

end GraphQuery.Connection
