/-! Steps that can fail: when a mapped step, a sequence of two or a step for each element
succeeds. -/
namespace GraphQuery

theorem map_eq_ok {ε α β : Type} {f : α → β} {x : Except ε α} {b : β} :
    x.map f = .ok b ↔ ∃ a, x = .ok a ∧ f a = b := by
  cases x <;> simp [Except.map]

theorem map_eq_error {ε α β : Type} {f : α → β} {x : Except ε α} {e : ε} :
    x.map f = .error e ↔ x = .error e := by
  cases x <;> simp [Except.map]

theorem bind_eq_ok {ε α β : Type} {f : α → Except ε β} {x : Except ε α} {b : β} :
    x >>= f = .ok b ↔ ∃ a, x = .ok a ∧ f a = .ok b := by
  cases x <;> simp [bind, Except.bind]

@[simp] theorem mapError_ok {ε φ α : Type} (f : ε → φ) (a : α) :
    (.ok a : Except ε α).mapError f = .ok a := rfl

@[simp] theorem mapError_error {ε φ α : Type} (f : ε → φ) (e : ε) :
    (.error e : Except ε α).mapError f = .error (f e) := rfl

theorem mapError_eq_ok {ε φ α : Type} {f : ε → φ} {x : Except ε α} {a : α} :
    x.mapError f = .ok a ↔ x = .ok a := by
  cases x <;> simp

theorem toOption_eq_some {ε α : Type} {x : Except ε α} {a : α} :
    x.toOption = some a ↔ x = .ok a := by
  cases x <;> simp [Except.toOption]

section
variable {α β : Type} {g : α → Option β} {a : α}

theorem mapM_cons_of_some {b : β} (h : g a = some b) (as : List α) :
    (a :: as).mapM g = (as.mapM g).map (b :: ·) := by
  rw [List.mapM_cons, h]
  cases as.mapM g <;> rfl

theorem mapM_cons_of_none (h : g a = none) (as : List α) :
    (a :: as).mapM g = none := by
  rw [List.mapM_cons, h]
  rfl

theorem exists_of_mapM_cons {as : List α} {bs : List β}
    (h : (a :: as).mapM g = some bs) : ∃ c cs, bs = c :: cs := by
  cases hg : g a with
  | none =>
    rw [mapM_cons_of_none hg] at h
    cases h
  | some b =>
    rw [mapM_cons_of_some hg] at h
    obtain ⟨cs, -, rfl⟩ := Option.map_eq_some_iff.1 h
    exact ⟨b, cs, rfl⟩

theorem mapM_eq_some_map {as : List α} {f : α → β} (h : ∀ a ∈ as, g a = some (f a)) :
    as.mapM g = some (as.map f) := by
  induction as with
  | nil => rfl
  | cons a as ih =>
    have hrest := ih fun b hb => h b (List.mem_cons_of_mem a hb)
    rw [mapM_cons_of_some (h a (by simp)), hrest]
    rfl

theorem exists_mapM {as : List α} (h : ∀ a ∈ as, ∃ b, g a = some b) :
    ∃ bs, as.mapM g = some bs := by
  induction as with
  | nil => exact ⟨[], rfl⟩
  | cons a as ih =>
    obtain ⟨b, hb⟩ := h a (by simp)
    obtain ⟨bs, hbs⟩ := ih fun c hc => h c (List.mem_cons_of_mem a hc)
    rw [mapM_cons_of_some hb, hbs]
    exact ⟨b :: bs, rfl⟩

end

end GraphQuery
