/-! Values under keys, in order. Where a key comes more than once, its first occurrence gives the
place and its last one the value. -/
namespace GraphQuery.Keyed

variable {κ α : Type} [BEq κ]

/-- A key with its value in front of others: a later value of the same key goes before its own. -/
def push (key : κ) (value : α) (rest : List (κ × α)) : List (κ × α) :=
  (key, (rest.lookup key).getD value) :: rest.filter (·.1 != key)

/-- Each key once. -/
def collect (entries : List (κ × α)) : List (κ × α) :=
  entries.foldr (fun e rest => push e.1 e.2 rest) []

@[simp] theorem collect_nil : collect ([] : List (κ × α)) = [] := rfl

@[simp] theorem collect_cons (e : κ × α) (entries : List (κ × α)) :
    collect (e :: entries) = push e.1 e.2 (collect entries) := rfl

theorem mem_of_lookup [LawfulBEq κ] {key : κ} {value : α} {entries : List (κ × α)}
    (h : entries.lookup key = some value) : (key, value) ∈ entries := by
  induction entries with
  | nil => simp at h
  | cons e entries ih =>
    obtain ⟨k, v⟩ := e
    simp only [List.lookup_cons] at h
    split at h
    · next hk =>
      cases h
      simp [beq_iff_eq.1 hk]
    · exact List.mem_cons_of_mem _ (ih h)

theorem lookup_cons_of_ne [LawfulBEq κ] {key k : κ} (h : k ≠ key) (value : α)
    (entries : List (κ × α)) : ((key, value) :: entries).lookup k = entries.lookup k := by
  have hk : (k == key) = false := beq_false_of_ne h
  rw [List.lookup_cons, hk]

theorem exists_lookup_of_mem [LawfulBEq κ] {key : κ} {value : α} {entries : List (κ × α)}
    (h : (key, value) ∈ entries) : ∃ v, entries.lookup key = some v := by
  cases hl : entries.lookup key with
  | some v => exact ⟨v, rfl⟩
  | none => exact absurd (List.lookup_eq_none_iff.1 hl (key, value) h) (by simp)

theorem lookup_of_mem [LawfulBEq κ] {entries : List (κ × α)} (h : (entries.map Prod.fst).Nodup)
    {e : κ × α} (he : e ∈ entries) : entries.lookup e.1 = some e.2 := by
  induction entries with
  | nil => cases he
  | cons f entries ih =>
    rw [List.map_cons, List.nodup_cons] at h
    rcases List.mem_cons.1 he with rfl | he
    · exact List.lookup_cons_self
    · have hne : e.1 ≠ f.1 := fun hk => h.1 (hk ▸ List.mem_map_of_mem he)
      rw [lookup_cons_of_ne hne, ih h.2 he]

theorem lookup_filter_ne [LawfulBEq κ] {key k : κ} (h : k ≠ key) (entries : List (κ × α)) :
    (entries.filter (·.1 != key)).lookup k = entries.lookup k := by
  induction entries with
  | nil => rfl
  | cons e entries ih =>
    obtain ⟨l, a⟩ := e
    by_cases hl : l = key
    · subst hl
      simp [lookup_cons_of_ne h, ih]
    · simp [hl, List.lookup_cons, ih]

theorem lookup_push_self [LawfulBEq κ] (key : κ) (value : α) (rest : List (κ × α)) :
    (push key value rest).lookup key = some ((rest.lookup key).getD value) := by
  simp [push]

theorem lookup_push_of_ne [LawfulBEq κ] {key k : κ} (h : k ≠ key) (value : α)
    (rest : List (κ × α)) : (push key value rest).lookup k = rest.lookup k := by
  rw [push, lookup_cons_of_ne h, lookup_filter_ne h]

theorem filter_eraseDups [LawfulBEq κ] (p : κ → Bool) (keys : List κ) :
    keys.eraseDups.filter p = (keys.filter p).eraseDups := by
  match keys with
  | [] => simp
  | key :: keys =>
    have ih := filter_eraseDups p (keys.filter (!· == key))
    rw [List.eraseDups_cons, List.filter_cons, List.filter_cons, ih, List.filter_filter]
    cases hp : p key with
    | true =>
      rw [if_pos rfl, if_pos rfl, List.eraseDups_cons, List.filter_filter]
      simp only [Bool.and_comm]
    | false =>
      -- The key itself does not pass the filter, so that it need not be taken out.
      have hkeys : keys.filter (fun k => p k && !k == key) = keys.filter p :=
        List.filter_congr fun k _ => by
          by_cases hk : k = key <;> simp [hk, hp]
      rw [if_neg Bool.false_ne_true, if_neg Bool.false_ne_true, hkeys]
termination_by keys.length
decreasing_by exact Nat.lt_succ_of_le (List.length_filter_le _ _)

/-- Keys come in the order of their first occurrences. -/
theorem keys_collect [LawfulBEq κ] (entries : List (κ × α)) :
    (collect entries).map Prod.fst = (entries.map Prod.fst).eraseDups := by
  induction entries with
  | nil => simp
  | cons e entries ih =>
    have hrest : ((collect entries).filter (·.1 != e.1)).map Prod.fst =
        ((collect entries).map Prod.fst).filter (!· == e.1) := by
      rw [List.filter_map]
      rfl
    rw [collect_cons, push, List.map_cons, List.map_cons, List.eraseDups_cons, hrest, ih,
      filter_eraseDups]

/-- In the end each key has its last value. -/
theorem lookup_collect [LawfulBEq κ] (k : κ) (entries : List (κ × α)) :
    (collect entries).lookup k = entries.reverse.lookup k := by
  induction entries with
  | nil => rfl
  | cons e entries ih =>
    obtain ⟨key, value⟩ := e
    rw [collect_cons, List.reverse_cons, List.lookup_append]
    by_cases h : k = key
    · subst h
      rw [lookup_push_self, ih]
      cases entries.reverse.lookup k <;> simp
    · rw [lookup_push_of_ne h, ih, lookup_cons_of_ne h]
      simp

theorem push_of_notMem [LawfulBEq κ] {key : κ} {rest : List (κ × α)}
    (h : key ∉ rest.map Prod.fst) (value : α) : push key value rest = (key, value) :: rest := by
  have hne : ∀ e ∈ rest, e.1 ≠ key := fun e he hk => h (hk ▸ List.mem_map_of_mem he)
  have hl : rest.lookup key = none :=
    List.lookup_eq_none_iff.2 fun e he => by simpa using (hne e he).symm
  have hf : rest.filter (·.1 != key) = rest :=
    List.filter_eq_self.2 fun e he => by simpa using hne e he
  rw [push, hl, hf]
  rfl

theorem collect_of_nodup [LawfulBEq κ] {entries : List (κ × α)}
    (h : (entries.map Prod.fst).Nodup) : collect entries = entries := by
  induction entries with
  | nil => rfl
  | cons e entries ih =>
    rw [List.map_cons, List.nodup_cons] at h
    rw [collect_cons, ih h.2, push_of_notMem h.1]

end GraphQuery.Keyed
