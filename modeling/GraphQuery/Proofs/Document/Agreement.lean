import GraphQuery.Proofs.Document.Lexing
import GraphQuery.Proofs.Document.Steps
import GraphQuery.Proofs.Graph.Chars

/-! Readings that agree with what the text before them was made of, and lists of such readings.
What stands for nothing is not read: the reading fails, or it is stuck and fails in the next
step. -/
namespace GraphQuery.Document.Parser

open GraphQuery.Graph (trail trail_nil trail_cons_append)
open Text

variable {α β γ : Type} {s t : TokenStream} {f : Fault} {rest : List Char}

/-- What a part stands for is read and the rest is left, or there is nothing to be read. -/
def Agrees (r : Except Fault (α × TokenStream)) (a : Option α) (s : TokenStream) : Prop :=
  match a with
  | some a => r = .ok (a, s)
  | none => ∀ b t, r = .ok (b, t) → Stuck t

@[simp] theorem agrees_some {r : Except Fault (α × TokenStream)} {a : α} :
    Agrees r (some a) s ↔ r = .ok (a, s) := Iff.rfl

theorem agrees_none {r : Except Fault (α × TokenStream)} (h : ∃ f, r = .error f) :
    Agrees r none s := by
  obtain ⟨f, rfl⟩ := h
  intro b t ht
  cases ht

theorem agrees_none_of_stuck {a : α} (h : Stuck s) : Agrees (.ok (a, s)) none t := by
  intro b u hu
  cases hu
  exact h

/-- What a part stands for is read and the rest is left, or the reading fails. -/
def Yields (r : Except Fault (α × TokenStream)) (a : Option α) (s : TokenStream) : Prop :=
  match a with
  | some a => r = .ok (a, s)
  | none => ∃ f, r = .error f

@[simp] theorem yields_some {r : Except Fault (α × TokenStream)} {a : α} :
    Yields r (some a) s ↔ r = .ok (a, s) := Iff.rfl

@[simp] theorem yields_none {r : Except Fault (α × TokenStream)} :
    Yields r none s ↔ ∃ f, r = .error f := Iff.rfl

theorem Yields.agrees {r : Except Fault (α × TokenStream)} {a : Option α} (h : Yields r a s) :
    Agrees r a s := by
  cases a with
  | some a => exact h
  | none => exact agrees_none h

theorem Yields.map {r : Except Fault (α × TokenStream)} {a : Option α} (h : Yields r a s)
    (g : α → β) : Yields (r.map fun x => (g x.1, x.2)) (a.map g) s := by
  cases a with
  | some a =>
    rw [yields_some.1 h]
    rfl
  | none =>
    obtain ⟨f, hf⟩ := yields_none.1 h
    rw [hf]
    exact ⟨f, rfl⟩

/-- Where a reading leaves a stream that is stuck, its value is lost. -/
theorem Agrees.of_stuck {r : Except Fault (α × TokenStream)} {a : Option α} (h : Agrees r a s)
    (hs : Stuck s) : Agrees r none t := by
  cases a with
  | some a =>
    rw [agrees_some.1 h]
    exact agrees_none_of_stuck hs
  | none => exact h

theorem Agrees.map {r : Except Fault (α × TokenStream)} {a : Option α} (h : Agrees r a s)
    (g : α → β) : Agrees (r.map fun x => (g x.1, x.2)) (a.map g) s := by
  cases a with
  | some a =>
    rw [agrees_some.1 h]
    rfl
  | none =>
    intro b t ht
    obtain ⟨⟨a, u⟩, hr, he⟩ := map_eq_ok.1 ht
    cases he
    exact h a u hr

/-- How a list is written behind its first item, and the punctuator that closes it. -/
structure Delimiters where
  separator : Char
  closing : Char
  close : Punctuator
  separator_ignored : isIgnored separator = true
  separator_word : isWordPart separator = false
  separator_quote : (separator == '"') = false
  closing_word : isWordPart closing = false
  closing_quote : (closing == '"') = false
  closer : IsCloser close
  lex_closing : ∀ cs, lex (closing :: cs) = .next (.punctuator close) (lex cs)

def argumentDelimiters : Delimiters where
  separator := ','
  closing := ')'
  close := .parenClose
  separator_ignored := rfl
  separator_word := by decide
  separator_quote := rfl
  closing_word := by decide
  closing_quote := rfl
  closer := Or.inl rfl
  lex_closing := fun _ => lex_parenClose

def fieldDelimiters : Delimiters where
  separator := ','
  closing := '\x7d'
  close := .braceClose
  separator_ignored := rfl
  separator_word := by decide
  separator_quote := rfl
  closing_word := by decide
  closing_quote := rfl
  closer := Or.inr rfl
  lex_closing := fun _ => lex_braceClose

def selectionDelimiters : Delimiters where
  separator := ' '
  closing := '\x7d'
  close := .braceClose
  separator_ignored := rfl
  separator_word := by decide
  separator_quote := rfl
  closing_word := by decide
  closing_quote := rfl
  closer := Or.inr rfl
  lex_closing := fun _ => lex_braceClose

/-- What may stand behind a value: it adds nothing to the last token. -/
structure EndsValue (rest : List Char) : Prop where
  word : Stops isWordPart rest
  quote : Stops (· == '"') rest

/-- What may stand behind an item of a list. -/
structure EndsPart (rest : List Char) : Prop extends EndsValue rest where
  item : EndsItem (lex rest)

section
variable (d : Delimiters) {chars : γ → List Char}

theorem stops_trail {p : Char → Bool} (hs : p d.separator = false) (hc : p d.closing = false)
    (items : List γ) : Stops p (trail d.separator chars items ++ d.closing :: rest) := by
  cases items with
  | nil => exact stops_cons.2 hc
  | cons b items => exact stops_cons.2 hs

theorem endsItem_closing : EndsItem (lex (d.closing :: rest)) := by
  rw [d.lex_closing]
  exact d.closer

theorem lex_trail_cons (b : γ) (items : List γ) (cs : List Char) :
    lex (trail d.separator chars (b :: items) ++ cs) =
      lex (chars b ++ (trail d.separator chars items ++ cs)) := by
  rw [trail_cons_append, lex_ignored d.separator_ignored]

theorem endsPart_trail {items : List γ}
    (hb : ∀ b ∈ items, ∀ cs, Stops isWordPart cs → BeginsWord (lex (chars b ++ cs)))
    (rest : List Char) : EndsPart (trail d.separator chars items ++ d.closing :: rest) := by
  refine ⟨⟨stops_trail d d.separator_word d.closing_word items,
    stops_trail d d.separator_quote d.closing_quote items⟩, ?_⟩
  cases items with
  | nil => exact endsItem_closing d
  | cons b items =>
    rw [lex_trail_cons]
    exact (hb b (by simp) _ (stops_trail d d.separator_word d.closing_word items)).endsItem

variable {decode : γ → Option α} {p : (t : TokenStream) → Except Fault (Parsed α t.length)}

theorem fails_of_agrees_none (hp : ∀ s, Stuck s → ∃ f, answer (p s) = .error f)
    (h : Agrees (answer (p s)) none t) :
    ∃ f, answer (itemsUntil d.close s fun t _ => p t) = .error f := by
  cases hr : answer (p s) with
  | error f => exact ⟨f, itemsUntil_of_error hr⟩
  | ok r =>
    obtain ⟨a, u⟩ := r
    have hu := h a u hr
    obtain ⟨f, hf⟩ := hp u hu
    refine ⟨f, ?_⟩
    rw [itemsUntil_of_item hr (accept_closer_of_stuck hu d.closer), itemsUntil_of_error hf]
    rfl

/-- A list is read if its items are. An item that is nothing spoils the list: no reading of an item
begins where one is stuck. -/
theorem yields_itemsUntil (hp : ∀ s, Stuck s → ∃ f, answer (p s) = .error f) (b : γ)
    (items : List γ)
    (hi : ∀ c ∈ b :: items, ∀ cs, EndsPart cs →
      Agrees (answer (p (lex (chars c ++ cs)))) (decode c) (lex cs))
    (hb : ∀ c ∈ items, ∀ cs, Stops isWordPart cs → BeginsWord (lex (chars c ++ cs)))
    (rest : List Char) :
    Yields
      (answer (itemsUntil d.close
        (lex (chars b ++ (trail d.separator chars items ++ d.closing :: rest))) fun t _ => p t))
      ((b :: items).mapM decode) (lex rest) := by
  induction items generalizing b with
  | nil =>
    have h := hi b (by simp) _ (endsPart_trail d hb rest)
    cases hd : decode b with
    | none =>
      rw [hd] at h
      rw [mapM_cons_of_none hd]
      exact fails_of_agrees_none d hp h
    | some a =>
      rw [hd, agrees_some, trail_nil, List.nil_append, d.lex_closing] at h
      rw [mapM_cons_of_some hd]
      exact itemsUntil_of_close h
  | cons c items ih =>
    have h := hi b (by simp) _ (endsPart_trail d hb rest)
    cases hd : decode b with
    | none =>
      rw [hd] at h
      rw [mapM_cons_of_none hd]
      exact fails_of_agrees_none d hp h
    | some a =>
      rw [hd, agrees_some, lex_trail_cons] at h
      have hs : Stops isWordPart (trail d.separator chars items ++ d.closing :: rest) :=
        stops_trail d d.separator_word d.closing_word items
      have hc := hb c (by simp) _ hs
      have ht := ih c (fun e he => hi e (List.mem_cons_of_mem _ he))
        (fun e he => hb e (List.mem_cons_of_mem _ he))
      rw [itemsUntil_of_item h (accept_of_beginsWord hc _), mapM_cons_of_some hd]
      exact ht.map (a :: ·)

end

end GraphQuery.Document.Parser
