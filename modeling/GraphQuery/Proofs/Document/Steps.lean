import GraphQuery.Document.Parser

/-! The parser step by step: what a reading gives, without the bound on what is left, for the
streams that begin in a known way. A stream that is stuck is one that no list of items can go on
with. -/
namespace GraphQuery.Document.Parser

variable {α β : Type} {n : Nat} {s s₁ s₂ : TokenStream} {f : Fault}

/-- The value that was read and what is left, without the bound. -/
def answer (r : Except Fault (Parsed α n)) : Except Fault (α × TokenStream) :=
  r.map fun x => (x.value, x.rest)

@[simp] theorem answer_ok (x : Parsed α n) : answer (.ok x) = .ok (x.value, x.rest) := rfl

@[simp] theorem answer_error : answer (.error f : Except Fault (Parsed α n)) = .error f := rfl

theorem answer_eq_ok {r : Except Fault (Parsed α n)} {a : α} :
    answer r = .ok (a, s) ↔ ∃ h, r = .ok ⟨a, s, h⟩ := by
  constructor
  · intro hr
    obtain ⟨⟨b, t, h⟩, rfl, he⟩ := map_eq_ok.1 hr
    cases he
    exact ⟨h, rfl⟩
  · rintro ⟨h, rfl⟩
    rfl

theorem answer_eq_error {r : Except Fault (Parsed α n)} : answer r = .error f ↔ r = .error f := by
  cases r <;> simp [answer, Except.map]

/-! Single tokens. -/

@[simp] theorem accept_next (p : Punctuator) :
    accept p (.next (.punctuator p) s) = some ⟨(), s, s.length_lt_succ⟩ := by simp [accept]

theorem accept_of_ne {p q : Punctuator} (h : q ≠ p) :
    accept p (.next (.punctuator q) s) = none := by simp [accept, h]

@[simp] theorem accept_name (p : Punctuator) (x : String) : accept p (.next (.name x) s) = none :=
  rfl

theorem exists_of_accept {p : Punctuator} {r : Parsed Unit s.length} (h : accept p s = some r) :
    ∃ s₁, s = .next (.punctuator p) s₁ := by
  unfold accept at h
  split at h
  · obtain ⟨rfl, -⟩ := Option.ite_none_right_eq_some.1 h
    exact ⟨_, rfl⟩
  · cases h

/-- What a word is at the front of a stream: a name, a number, or what is no token at all. -/
def BeginsWord : TokenStream → Prop
  | .next (.name _) _ | .next (.int _) _ | .next (.float _) _ | .fault _ => True
  | _ => False

/-- The end of an item: the next one begins, or the list is closed. -/
def EndsItem : TokenStream → Prop
  | .next (.punctuator p) _ => p = .parenClose ∨ p = .braceClose
  | s => BeginsWord s

/-- A stream that neither goes on with an item nor ends a list. -/
def Stuck : TokenStream → Prop
  | .next (.punctuator p) _ => p = .parenOpen ∨ p = .braceOpen
  | .next (.string _) _ | .next (.blockString _) _ | .fault _ => True
  | _ => False

theorem BeginsWord.endsItem (h : BeginsWord s) : EndsItem s := by
  unfold BeginsWord at h
  split at h <;> trivial

theorem accept_of_beginsWord (h : BeginsWord s) (p : Punctuator) : accept p s = none := by
  unfold BeginsWord at h
  split at h <;> first | rfl | exact absurd h id

theorem accept_of_endsItem (h : EndsItem s) {p : Punctuator} (hp : p ≠ .parenClose)
    (hb : p ≠ .braceClose) : accept p s = none := by
  unfold EndsItem at h
  split at h
  · next q t =>
    rcases h with rfl | rfl
    · exact accept_of_ne (Ne.symm hp)
    · exact accept_of_ne (Ne.symm hb)
  · exact accept_of_beginsWord h p

/-- The punctuators that end lists of arguments, of fields and of selections. -/
def IsCloser (p : Punctuator) : Prop := p = .parenClose ∨ p = .braceClose

theorem accept_of_stuck (h : Stuck s) {p : Punctuator} (hp : p ≠ .parenOpen)
    (hb : p ≠ .braceOpen) : accept p s = none := by
  unfold Stuck at h
  split at h
  · rcases h with rfl | rfl
    · exact accept_of_ne (Ne.symm hp)
    · exact accept_of_ne (Ne.symm hb)
  all_goals first | rfl | exact absurd h id

theorem accept_closer_of_stuck (h : Stuck s) {p : Punctuator} (hp : IsCloser p) :
    accept p s = none := by
  rcases hp with rfl | rfl <;> exact accept_of_stuck h (by decide) (by decide)

theorem name_of_stuck (h : Stuck s) : ∃ f, name s = .error f := by
  unfold Stuck at h
  split at h <;> first | exact ⟨_, rfl⟩ | exact absurd h id

/-! Lists of items. -/

section
variable {p : (t : TokenStream) → Except Fault (Parsed α t.length)} {close : Punctuator} {a : α}

theorem itemsUntil_of_error (h : answer (p s) = .error f) :
    answer (itemsUntil close s fun t _ => p t) = .error f := by
  rw [itemsUntil, answer_eq_error.1 h]
  rfl

theorem itemsUntil_of_close (h : answer (p s) = .ok (a, .next (.punctuator close) s₁)) :
    answer (itemsUntil close s fun t _ => p t) = .ok ([a], s₁) := by
  obtain ⟨hs, hp⟩ := answer_eq_ok.1 h
  rw [itemsUntil, hp]
  simp [bind, Except.bind, pure, Except.pure]

theorem itemsUntil_of_item (h : answer (p s) = .ok (a, s₁)) (hc : accept close s₁ = none) :
    answer (itemsUntil close s fun t _ => p t) =
      (answer (itemsUntil close s₁ fun t _ => p t)).map fun r => (a :: r.1, r.2) := by
  obtain ⟨hs, hp⟩ := answer_eq_ok.1 h
  rw [itemsUntil, hp]
  simp only [bind, Except.bind, hc]
  cases itemsUntil close s₁ fun t _ => p t <;> rfl

theorem ne_nil_of_itemsUntil {as : List α}
    (h : answer (itemsUntil close s fun t _ => p t) = .ok (as, s₁)) : as ≠ [] := by
  rw [itemsUntil] at h
  rintro rfl
  cases hp : p s with
  | error e =>
    rw [hp] at h
    cases h
  | ok r =>
    rw [hp] at h
    simp only [bind, Except.bind] at h
    split at h
    · cases h
    · cases hr : itemsUntil close r.rest fun t _ => p t with
      | error e =>
        rw [hr] at h
        cases h
      | ok rs =>
        rw [hr] at h
        cases h

/-- A list of one item is that item and what closes the list. -/
theorem item_of_itemsUntil (h : answer (itemsUntil close s fun t _ => p t) = .ok ([a], s₁)) :
    answer (p s) = .ok (a, .next (.punctuator close) s₁) := by
  cases hp : answer (p s) with
  | error e =>
    rw [itemsUntil_of_error hp] at h
    cases h
  | ok r =>
    obtain ⟨b, t⟩ := r
    cases hc : accept close t with
    | none =>
      rw [itemsUntil_of_item hp hc] at h
      obtain ⟨r, hr, he⟩ := map_eq_ok.1 h
      simp only [Prod.mk.injEq, List.cons.injEq] at he
      exact absurd he.1.2 (ne_nil_of_itemsUntil hr)
    | some _ =>
      obtain ⟨u, rfl⟩ := exists_of_accept hc
      rw [itemsUntil_of_close hp] at h
      cases h
      rfl

theorem labelled_next (x : String) :
    answer (labelled (.next (.name x) (.next (.punctuator .colon) s)) fun t _ => p t) =
      (answer (p s)).map fun r => ((x, r.1), r.2) := by
  simp only [labelled, name, expect, accept_next, bind, Except.bind, pure, Except.pure]
  cases p s <;> rfl

theorem labelled_of_error (h : name s = .error f) :
    answer (labelled s fun t _ => p t) = .error f := by
  rw [labelled, h]
  rfl

end

theorem argument_eq (constant : Bool) : answer (argument constant s) =
    (answer (labelled s fun t _ => value constant t)).map fun r => (⟨r.1.1, r.1.2⟩, r.2) := by
  rw [argument]
  cases labelled s fun t _ => value constant t <;> rfl

theorem arguments_of_none {constant : Bool} (h : accept .parenOpen s = none) :
    answer (arguments constant s) = .ok ([], s) := by
  rw [arguments, optionalItems, h]
  rfl

theorem arguments_next (constant : Bool) :
    answer (arguments constant (.next (.punctuator .parenOpen) s)) =
      answer (itemsUntil .parenClose s fun t _ => argument constant t) := by
  rw [arguments, optionalItems, accept_next]
  simp only [bind, Except.bind]
  cases itemsUntil .parenClose s fun t _ => argument constant t <;> rfl

theorem directives_of_none {constant : Bool} (h : accept .atSign s = none) :
    answer (directives constant s) = .ok ([], s) := by
  rw [directives, h]
  rfl

/-! Values. -/

section
attribute [local simp] value

@[simp] theorem value_name (constant : Bool) (x : String) :
    answer (value constant (.next (.name x) s)) = .ok (namedValue x, s) := by simp

@[simp] theorem value_int (constant : Bool) (x : String) :
    answer (value constant (.next (.int x) s)) = .ok (.int x, s) := by simp

@[simp] theorem value_float (constant : Bool) (x : String) :
    answer (value constant (.next (.float x) s)) = .ok (.float x, s) := by simp

@[simp] theorem value_string (constant : Bool) (x : String) :
    answer (value constant (.next (.string x) s)) = .ok (.string x false, s) := by simp

@[simp] theorem value_blockString (constant : Bool) (x : String) :
    answer (value constant (.next (.blockString x) s)) = .ok (.string x true, s) := by simp

@[simp] theorem value_variable (x : String) :
    answer (value false (.next (.punctuator .dollar) (.next (.name x) s))) =
      .ok (.variable x, s) := by
  rw [value]
  rfl

@[simp] theorem value_fault (constant : Bool) (l : LexicalFault) :
    answer (value constant (.fault l)) = .error (.lexical l) := by
  rw [value]
  · rfl
  all_goals simp

@[simp] theorem value_object_close (constant : Bool) :
    answer (value constant (.next (.punctuator .braceOpen) (.next (.punctuator .braceClose) s))) =
      .ok (.object [], s) := by
  rw [value, anyUntil, accept_next]
  rfl

theorem value_object {constant : Bool} (h : accept .braceClose s = none) :
    answer (value constant (.next (.punctuator .braceOpen) s)) =
      (answer (itemsUntil .braceClose s fun t _ => labelled t fun u _ => value constant u)).map
        fun r => (.object r.1, r.2) := by
  rw [value, anyUntil, h]
  simp only [bind, Except.bind]
  cases itemsUntil .braceClose s fun t _ => labelled t fun u _ => value constant u <;> rfl

end

/-! Selections. -/

section
variable {x : String} {args : List Argument}

theorem selection_of_error (h : name s = .error f) (hs : accept .spread s = none) :
    answer (selection s) = .error f := by
  rw [selection, hs]
  simp only [fieldName, h, bind, Except.bind]
  rfl

/-- A field is read up to its arguments before anything else. -/
theorem selection_name (hc : accept .colon s = none) :
    answer (selection (.next (.name x) s)) =
      match answer (arguments false s) with
      | .error f => .error f
      | .ok (args, s₁) =>
        match answer (directives false s₁) with
        | .error f => .error f
        | .ok (ds, s₂) =>
          match accept .braceOpen s₂ with
          | none => .ok (.field none x args ds none, s₂)
          | some ⟨_, s₃, _⟩ =>
            (answer (itemsUntil .braceClose s₃ fun t _ => selection t)).map fun r =>
              (.field none x args ds (some r.1), r.2) := by
  rw [selection, accept_name]
  simp only [fieldName, name, bind, Except.bind, pure, Except.pure, hc]
  cases arguments false s with
  | error e => rfl
  | ok r =>
    obtain ⟨args, s₁, h₁⟩ := r
    simp only [answer_ok]
    cases directives false s₁ with
    | error e => rfl
    | ok r =>
      obtain ⟨ds, s₂, h₂⟩ := r
      simp only [answer_ok]
      cases accept .braceOpen s₂ with
      | none => rfl
      | some r =>
        obtain ⟨_, s₃, h₃⟩ := r
        simp only
        cases itemsUntil .braceClose s₃ fun t _ => selection t <;> rfl

/-- The arguments of a field are read first, and the field does not end before them. -/
theorem arguments_of_selection (hc : accept .colon s = none) {ds : List Directive}
    {below : Option (List Selection)}
    (h : answer (selection (.next (.name x) s)) = .ok (.field none x args ds below, s₁)) :
    ∃ s₂, answer (arguments false s) = .ok (args, s₂) ∧ s₁.length ≤ s₂.length := by
  rw [selection_name hc] at h
  cases ha : answer (arguments false s) with
  | error e =>
    rw [ha] at h
    cases h
  | ok r =>
    obtain ⟨as, s₂⟩ := r
    cases hd : answer (directives false s₂) with
    | error e =>
      rw [ha] at h
      simp only [hd] at h
      cases h
    | ok r =>
      obtain ⟨bs, s₃⟩ := r
      obtain ⟨hlength, -⟩ := answer_eq_ok.1 hd
      rw [ha] at h
      simp only [hd] at h
      split at h
      · cases h
        exact ⟨_, rfl, by omega⟩
      · next s₄ hs₄ _ =>
        obtain ⟨r, hr, he⟩ := map_eq_ok.1 h
        cases he
        obtain ⟨hbelow, -⟩ := answer_eq_ok.1 hr
        exact ⟨_, rfl, by omega⟩

theorem selection_bare (hc : accept .colon s = none)
    (ha : answer (arguments false s) = .ok (args, s₁)) (hd : accept .atSign s₁ = none)
    (hb : accept .braceOpen s₁ = none) :
    answer (selection (.next (.name x) s)) = .ok (.field none x args [] none, s₁) := by
  rw [selection_name hc, ha]
  simp only [directives_of_none hd, hb]

theorem selection_below (hc : accept .colon s = none)
    (ha : answer (arguments false s) = .ok (args, .next (.punctuator .braceOpen) s₁)) :
    answer (selection (.next (.name x) s)) =
      (answer (itemsUntil .braceClose s₁ fun t _ => selection t)).map fun r =>
        (.field none x args [] (some r.1), r.2) := by
  have hd : accept .atSign (.next (.punctuator .braceOpen) s₁) = none := accept_of_ne (by decide)
  rw [selection_name hc, ha]
  simp only [directives_of_none hd, accept_next]

theorem selection_of_arguments_error (hc : accept .colon s = none)
    (ha : answer (arguments false s) = .error f) :
    answer (selection (.next (.name x) s)) = .error f := by
  rw [selection_name hc, ha]

end

/-! Operations without a header. -/

theorem operation_braceOpen (kind : OperationKind) :
    answer (operation none kind (.next (.punctuator .braceOpen) s)) =
      (answer (itemsUntil .braceClose s fun t _ => selection t)).map fun r =>
        (.operation ⟨none, kind, none, [], [], r.1⟩, r.2) := by
  have hd : accept .atSign (.next (.punctuator .braceOpen) s) = none := accept_of_ne (by decide)
  have hp : accept .parenOpen (.next (.punctuator .braceOpen) s) = none :=
    accept_of_ne (by decide)
  have ha : answer (directives false (.next (.punctuator .braceOpen) s)) =
      .ok ([], .next (.punctuator .braceOpen) s) := directives_of_none hd
  obtain ⟨h, hds⟩ := answer_eq_ok.1 ha
  simp only [operation, operationName, optionalItems, hp, hds, selectionSet, expect, accept_next,
    bind, Except.bind, pure, Except.pure]
  cases itemsUntil .braceClose s fun t _ => selection t <;> rfl

theorem definition_keyword (kind : OperationKind) :
    answer (definition (.next (.name kind.keyword) s)) = answer (operation none kind s) := by
  simp only [definition, accept_name, description, namedDefinition,
    OperationKind.ofKeyword?_keyword, Option.isSome_none, Bool.false_eq_true, false_and, if_false,
    bind, Except.bind, pure, Except.pure]
  cases operation none kind s <;> rfl

theorem definitions_of_done {d : Definition} (h : answer (definition s) = .ok (d, .done)) :
    definitions s = .ok [d] := by
  obtain ⟨hs, hd⟩ := answer_eq_ok.1 h
  rw [definitions, hd]
  rfl

theorem definitions_of_error (h : answer (definition s) = .error f) :
    definitions s = .error f := by
  rw [definitions, answer_eq_error.1 h]
  rfl

theorem ne_nil_of_definitions {ds : List Definition} (h : definitions s = .ok ds) : ds ≠ [] := by
  rw [definitions, bind_eq_ok] at h
  obtain ⟨⟨d, s₁, hs⟩, -, h⟩ := h
  rintro rfl
  cases s₁ with
  | done => cases h
  | _ =>
    obtain ⟨ds, -, h⟩ := bind_eq_ok.1 h
    cases h

/-- A document of one definition is that definition up to the end. -/
theorem definition_of_definitions {d : Definition} (h : definitions s = .ok [d]) :
    answer (definition s) = .ok (d, .done) := by
  rw [definitions, bind_eq_ok] at h
  obtain ⟨⟨d', s₁, hs⟩, hd, h⟩ := h
  cases s₁ with
  | done =>
    cases h
    exact answer_eq_ok.2 ⟨hs, hd⟩
  | _ =>
    obtain ⟨ds, hds, h⟩ := bind_eq_ok.1 h
    cases h
    exact absurd rfl (ne_nil_of_definitions hds)

end GraphQuery.Document.Parser
