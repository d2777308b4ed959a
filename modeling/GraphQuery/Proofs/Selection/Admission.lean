import Mathlib.Data.List.Infix
import GraphQuery.Proofs.Selection.Paths

/-! Which fields may be kept by their names, and which of those survive: under each key the first
one, in the order of the keys. -/
namespace GraphQuery.Selection

/-- The values that count as none where there may be one. -/
def falseValues : List Datum :=
  [.absent, .null, .boolean false, .number .nan, .number .zero, .number .negativeZero, .integer 0,
    .string ""]

theorem isFalsy_iff {d : Datum} : d.isFalsy = true ↔ d ∈ falseValues := by
  cases d with
  | number x =>
    cases x with
    | finite negative m e hc =>
      have he : m = 0 → e = -1074 := by
        rintro rfl
        exact hc.2.2.2.resolve_left (by decide)
      cases negative <;>
        simpa [falseValues, Datum.isFalsy, Number.isFalsy, Number.zero, Number.negativeZero] using he
    | _ => simp [falseValues, Datum.isFalsy, Number.isFalsy, Number.zero, Number.negativeZero]
  | _ => simp [falseValues, Datum.isFalsy]

instance (d : Datum) : Decidable (d ∈ falseValues) := decidable_of_iff _ isFalsy_iff

/-- Whether options leave a name out: as one of a list, or as a part of a text. -/
def excludesName (options : Datum) (name : String) : Bool :=
  match options.get? "excludeFields" with
  | some (.list names) => names.any (·.string? == some name)
  | some (.string s) => name.toList <:+: s.toList
  | _ => false

def admits (options : Datum) (name : String) : Bool :=
  (name ≠ "__typename" ∨ options.get "includeTypename" ∉ falseValues) && !excludesName options name

def admitted (p : String → Bool) (es : List (String × Datum)) : List (String × Datum) :=
  es.filter fun e => ((e.2.get "name").string?).any p

/-- The keys of some fields, each once and in the order of the first fields. -/
def keysOf (es : List (String × Datum)) : List String := (es.map Prod.fst).eraseDups

/-! Names. -/

section
variable {options : Datum} {name : String}

theorem string_isSame (d : Datum) : (Datum.string name).isSame d = (d.string? == some name) := by
  cases d with
  | string s => simp [Datum.isSame, Datum.string?, eq_comm]
  | _ => rfl

theorem excludes?_eq {b : Bool}
    (h : (Keep.ofOptions options).excludes? (.string name) = some b) :
    b = excludesName options name := by
  rw [Keep.excludes?, Keep.ofOptions] at h
  rw [excludesName]
  cases hx : options.get? "excludeFields" with
  | none =>
    rw [hx] at h
    cases h
    rfl
  | some x =>
    rw [hx] at h
    cases x with
    | list names =>
      have hs : (Datum.string name).isSame = (·.string? == some name) := funext string_isSame
      rw [Option.getD_some, hs] at h
      exact (Option.some.inj h).symm
    | string s =>
      cases h
      exact Bool.eq_iff_iff.2 ((Text.contains_iff _ _).trans decide_eq_true_iff.symm)
    | _ => cases h

theorem keepsName?_eq_admits {b : Bool}
    (h : (Keep.ofOptions options).keepsName? (.string name) = some b) :
    b = admits options name := by
  have ht : (Keep.ofOptions options).typenames = false ↔
      options.get "includeTypename" ∈ falseValues := by
    rw [← isFalsy_iff, Keep.ofOptions, Bool.not_eq_false']
  rw [Keep.keepsName?] at h
  rw [admits]
  split at h
  · next hn =>
    obtain ⟨hn, hk⟩ := hn
    cases h
    cases hn
    simp [ht.1 hk]
  · next hn =>
    obtain ⟨x, hx, rfl⟩ := Option.map_eq_some_iff.1 h
    have hname : name ≠ "__typename" ∨ options.get "includeTypename" ∉ falseValues := by
      rw [← not_and_or]
      exact fun hn' => hn ⟨congrArg some hn'.1, ht.2 hn'.2⟩
    rw [decide_eq_true hname, excludes?_eq hx]
    rfl

end

theorem exists_keepsName? {k : Keep} {names : List Datum} (h : k.excluded = .list names)
    (name : String) : ∃ b, k.keepsName? (.string name) = some b := by
  rw [Keep.keepsName?, Keep.excludes?, h]
  split
  · exact ⟨_, rfl⟩
  · exact ⟨_, rfl⟩

/-! Which fields survive: the first under each key of those that are not left out. -/

/-- Wherever it is told whether a name is kept, it is kept if it is one of those. -/
def Keep.Agrees (k : Keep) (p : String → Bool) : Prop :=
  ∀ (name : String) (b : Bool), k.keepsName? (.string name) = some b → b = p name

theorem agrees_ofOptions (options : Datum) : (Keep.ofOptions options).Agrees (admits options) :=
  fun _ _ => keepsName?_eq_admits

section
variable {k : Keep} {p : String → Bool} {key : String} {d : Datum} {es : List (String × Datum)}

theorem admitted_cons (e : String × Datum) :
    admitted p (e :: es) =
      if ((e.2.get "name").string?).any p then e :: admitted p es else admitted p es := by
  rw [admitted, List.filter_cons]
  rfl

theorem Keep.Agrees.admitted_cons_of_name (hp : k.Agrees p) {name : String}
    (hn : d.get "name" = .string name) {b : Bool} (h : k.keepsName? (d.get "name") = some b) :
    admitted p ((key, d) :: es) = if b then (key, d) :: admitted p es else admitted p es := by
  rw [hn] at h
  rw [admitted_cons, hn, hp name b h]
  rfl

theorem eraseDups_filter_cons {seen keys : List String} (h : key ∉ seen) :
    ((key :: keys).filter (· ∉ seen)).eraseDups =
      key :: (keys.filter (· ∉ key :: seen)).eraseDups := by
  rw [List.filter_cons_of_pos (by simpa using h), List.eraseDups_cons, List.filter_filter]
  congr 3
  funext x
  by_cases hx : x = key <;> simp [hx]

/-- The survivors are what is found first under the keys that were not seen before. -/
theorem Keep.Agrees.survivors_first (hp : k.Agrees p) {seen : List String} {ds : List Datum}
    (hes : ∀ e ∈ es, ∃ name, e.2.get "name" = .string name)
    (h : survivors? k seen es = some ds) :
    List.Forall₂ (fun key d => key ∉ seen ∧ (admitted p es).lookup key = some d)
      (((admitted p es).map Prod.fst).filter (· ∉ seen)).eraseDups ds := by
  fun_induction survivors? k seen es generalizing ds with
  | case1 =>
    cases h
    exact .nil
  | case2 seen key d rest hs ih =>
    have hrest := ih (fun e he => hes e (List.mem_cons_of_mem _ he)) h
    rw [admitted_cons]
    split
    · rw [List.map_cons, List.filter_cons_of_neg (by simpa using hs)]
      refine hrest.imp fun l x hl => ⟨hl.1, ?_⟩
      have hne : l ≠ key := fun he => hl.1 (he ▸ hs)
      rw [Keyed.lookup_cons_of_ne hne, hl.2]
    · exact hrest
  | case3 => cases h
  | case4 => cases h
  | case5 seen key d rest _ _ hk ih =>
    obtain ⟨name, hn⟩ := hes _ List.mem_cons_self
    rw [hp.admitted_cons_of_name hn hk]
    exact ih (fun e he => hes e (List.mem_cons_of_mem _ he)) h
  | case6 seen key d rest hs _ hk ih =>
    obtain ⟨name, hn⟩ := hes _ List.mem_cons_self
    obtain ⟨ds, hds, rfl⟩ := Option.map_eq_some_iff.1 h
    have hrest := ih (fun e he => hes e (List.mem_cons_of_mem _ he)) hds
    rw [hp.admitted_cons_of_name hn hk, if_pos rfl, List.map_cons, eraseDups_filter_cons hs]
    refine .cons ⟨hs, by simp⟩ (hrest.imp fun l x hl => ?_)
    obtain ⟨hl, hx⟩ := hl
    rw [List.mem_cons, not_or] at hl
    exact ⟨hl.2, by rw [Keyed.lookup_cons_of_ne hl.1, hx]⟩

theorem exists_survivors? (hes : ∀ e ∈ es, e.2.isNothing = false)
    (hk : ∀ e ∈ es, ∃ b, k.keepsName? (e.2.get "name") = some b) (seen : List String) :
    ∃ ds, survivors? k seen es = some ds := by
  induction es generalizing seen with
  | nil => exact ⟨[], rfl⟩
  | cons e es ih =>
    obtain ⟨key, d⟩ := e
    have hrest := ih (fun e he => hes e (List.mem_cons_of_mem _ he))
      fun e he => hk e (List.mem_cons_of_mem _ he)
    obtain ⟨b, hb⟩ := hk _ List.mem_cons_self
    have hd := hes _ List.mem_cons_self
    rw [survivors?]
    by_cases hs : key ∈ seen
    · rw [if_pos hs]
      exact hrest seen
    · rw [if_neg hs, if_neg (by simp [hd]), hb]
      cases b with
      | false => exact hrest seen
      | true =>
        obtain ⟨ds, hds⟩ := hrest (key :: seen)
        exact ⟨d :: ds, by rw [hds]; rfl⟩

end

end GraphQuery.Selection
