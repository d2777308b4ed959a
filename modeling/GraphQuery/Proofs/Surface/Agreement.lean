import GraphQuery.Proofs.Surface.Reading
import GraphQuery.Report

/-! Agreement of readings: the same result, or failures with the same message. It passes through
every step that reading is made of, and what reads alike has the same outcome in every use. -/
namespace GraphQuery.Surface

/-- Two readings give the same, or fail with the same message. -/
def Agree {α : Type} (x y : Except Malformed α) : Prop :=
  x.mapError Malformed.message = y.mapError Malformed.message

theorem Agree.refl {α : Type} (x : Except Malformed α) : Agree x x := rfl

theorem agree_iff {α : Type} {x y : Except Malformed α} :
    Agree x y ↔ (∃ a, x = .ok a ∧ y = .ok a) ∨
      ∃ e f, x = .error e ∧ y = .error f ∧ e.message = f.message := by
  cases x <;> cases y <;> simp [Agree, eq_comm]

theorem agree_error {α : Type} {m m' : Malformed} (h : m.message = m'.message) :
    Agree (.error m : Except Malformed α) (.error m') :=
  agree_iff.2 (Or.inr ⟨m, m', rfl, rfl, h⟩)

theorem Agree.bind {α β : Type} {x y : Except Malformed α} {f g : α → Except Malformed β}
    (h : Agree x y) (hf : ∀ a, Agree (f a) (g a)) : Agree (x >>= f) (y >>= g) := by
  rcases agree_iff.1 h with ⟨a, rfl, rfl⟩ | ⟨e, e', rfl, rfl, he⟩
  · exact hf a
  · exact agree_error he

theorem Agree.map {α β : Type} {x y : Except Malformed α} (f : α → β) (h : Agree x y) :
    Agree (x.map f) (y.map f) := by
  rcases agree_iff.1 h with ⟨a, rfl, rfl⟩ | ⟨e, e', rfl, rfl, he⟩
  · rfl
  · exact agree_error he

theorem Agree.eq_ok {α : Type} {x y : Except Malformed α} {a : α} (h : Agree x y)
    (hx : x = .ok a) : y = .ok a := by
  rcases agree_iff.1 h with ⟨b, hb, hy⟩ | ⟨e, e', he, -, -⟩
  · rw [hy, ← hb, hx]
  · rw [hx] at he
    cases he

/-! Readings of several things. The first that is refused is at the same place in both. -/

/-- Entries are read alike, whatever collection they are part of, if they have the same keys and
their values are read alike. -/
theorem agree_readEntries {es fs : List (String × Datum)}
    (h : List.Forall₂ (fun e f => e.1 = f.1 ∧ Agree (readValue e.2) (readValue f.2)) es fs)
    (whole whole' : Datum) (seen : List String) :
    Agree (readEntries whole seen (named es)) (readEntries whole' seen (named fs)) := by
  induction h generalizing seen with
  | nil =>
    show Agree (readEntries whole seen []) (readEntries whole' seen [])
    rw [readEntries, readEntries]
    exact .refl _
  | @cons e f es fs hef _ ih =>
    obtain ⟨key, d⟩ := e
    obtain ⟨key', d'⟩ := f
    obtain ⟨rfl, hv⟩ := hef
    rw [named_cons, named_cons, readEntries_cons, readEntries_cons]
    by_cases hk : key ∈ seen
    · rw [if_pos hk, if_pos hk]
      exact agree_error rfl
    · rw [if_neg hk, if_neg hk]
      exact hv.bind fun v => (ih (key :: seen)).bind fun _ => .refl _

theorem agree_readFields_write {v w : Writing} {es fs : List (String × Datum)}
    (h : List.Forall₂ (fun e f => e.1 = f.1 ∧ Agree (readValue e.2) (readValue f.2)) es fs) :
    Agree (readFields (v.write es)) (readFields (w.write fs)) := by
  rw [readFields_write, readFields_write]
  exact agree_readEntries h _ _ []

theorem agree_readParameters {ps qs : List Datum}
    (h : List.Forall₂ (fun p q => Agree (readParameter p) (readParameter q)) ps qs) :
    Agree (readParameters ps) (readParameters qs) := by
  induction h with
  | nil => exact .refl _
  | cons h _ ih =>
    rw [readParameters, readParameters]
    exact h.bind fun p => ih.bind fun _ => .refl _

theorem agree_readGraphs {ds es : List Datum}
    (h : List.Forall₂ (fun d e => Agree (readGraph d) (readGraph e)) ds es) :
    Agree (readGraphs ds) (readGraphs es) := by
  induction h with
  | nil => exact .refl _
  | cons h _ ih =>
    rw [readGraphs, readGraphs]
    exact h.bind fun n => ih.bind fun _ => .refl _

/-- What is given to the tags is read alike. -/
structure AgreeingMetadata (s s' : Split) : Prop where
  name : Agree (readOperationName (s.value? .operationName))
    (readOperationName (s'.value? .operationName))
  arguments : Agree (readArguments (s.value? .arguments)) (readArguments (s'.value? .arguments))
  parameters : Agree (readParameterList (s.value? .operationParameters))
    (readParameterList (s'.value? .operationParameters))

theorem AgreeingMetadata.agree {s s' : Split} (h : AgreeingMetadata s s') :
    Agree (readMetadata s) (readMetadata s') :=
  h.name.bind fun _ => h.arguments.bind fun _ => h.parameters.bind fun _ => .refl _

/-- The parts of two splits are read alike: there are no positional elements in either, or heads,
metadata and children agree. -/
inductive AgreeingParts (s s' : Split) : Prop
  | empty (h : s.positional = []) (h' : s'.positional = [])
  | parts {head head' : Datum} {children children' : List Datum}
    (h : s.positional = head :: children) (h' : s'.positional = head' :: children')
    (hh : Agree (readIdentifier head) (readIdentifier head'))
    (hm : Agree (readMetadata s) (readMetadata s'))
    (hc : Agree (readGraphs children) (readGraphs children'))

theorem agree_of_splits {es fs : List Datum} {s s' : Split} (hs : splitElements es = .ok s)
    (hs' : splitElements fs = .ok s') (h : AgreeingParts s s') :
    Agree (readGraph (.list es)) (readGraph (.list fs)) := by
  have he : split (.list es) = .ok s := by rw [split, hs]; rfl
  have hf : split (.list fs) = .ok s' := by rw [split, hs']; rfl
  cases h with
  | empty h h' =>
    rw [readGraph_of_no_head rfl he h, readGraph_of_no_head rfl hf h']
    exact agree_error rfl
  | parts h h' hh hm hc =>
    rw [readGraph_of_head rfl he h, readGraph_of_head rfl hf h']
    exact hh.bind fun _ => hm.bind fun _ => hc.bind fun _ => .refl _

theorem agree_of_split_errors {es fs : List Datum} {t : MetaTag} (hs : splitElements es = .error t)
    (hs' : splitElements fs = .error t) : Agree (readGraph (.list es)) (readGraph (.list fs)) := by
  rw [readGraph_of_split_error rfl (by rw [split, hs]; rfl),
    readGraph_of_split_error rfl (by rw [split, hs']; rfl)]
  exact agree_error rfl

/-! Outcomes of the uses of a graph. -/

/-- What a caller is told by a report: its kind and its message. -/
def told (r : Report) : ReportKind × String := (r.kind, r.message)

/-- A call as its caller sees it: the result, or what the report of the failure tells. -/
def outcome {ε α : Type} (report? : ε → Option Report) (x : Except ε α) :
    Except (Option (ReportKind × String)) α :=
  x.mapError fun e => (report? e).map told

theorem outcome_error {ε α : Type} {report? : ε → Option Report} {e f : ε}
    (h : (report? e).map told = (report? f).map told) :
    outcome report? (.error e : Except ε α) = outcome report? (.error f) :=
  congrArg Except.error h

/-- Two values cannot be told apart by reading them as graphs, writing them, making operations of
them under any header, or checking them against any limits. -/
structure SameOutcomes (g h : Datum) : Prop where
  graph : outcome (some ∘ Report.ofMalformed) (readGraph g) =
    outcome (some ∘ Report.ofMalformed) (readGraph h)
  text : outcome Graph.NotGraph.report? (Graph.textOf g) =
    outcome Graph.NotGraph.report? (Graph.textOf h)
  operation : ∀ o : Operation, outcome OperationFault.report? (o.textOf [g]) =
    outcome OperationFault.report? (o.textOf [h])
  underHeader : ∀ (o : Operation) (header : Datum),
    outcome OperationFault.report? (o.textOf [header, g]) =
      outcome OperationFault.report? (o.textOf [header, h])
  limits : ∀ options : Datum,
    outcome LimitFault.report? ((checkLimits g options).map (·.map Violation.message)) =
      outcome LimitFault.report? ((checkLimits h options).map (·.map Violation.message))

section
variable {g : Datum} {m : Malformed}

theorem textOf_of_error (h : readGraph g = .error m) :
    Graph.textOf g = .error (.malformed m) := by
  rw [Graph.textOf, Graph.Node.ofDatum, h]
  rfl

theorem record_of_error (o : Operation) (metadata : Datum) (h : readGraph g = .error m) :
    o.record metadata g = .error (.graph (.malformed m)) := by
  rw [Operation.record, h]
  rfl

theorem textOf_singleton_of_error (o : Operation) (h : readGraph g = .error m) :
    o.textOf [g] = .error (.graph (.malformed m)) := by
  rw [Operation.textOf, Operation.ofArguments, record_of_error o _ h]
  rfl

/-- A header is read before the graph. -/
theorem textOf_pair_of_error (o : Operation) (header : Datum) (h : readGraph g = .error m) :
    o.textOf [header, g] =
      (o.readHeader header).bind fun _ => .error (.graph (.malformed m)) := by
  rw [Operation.textOf, Operation.ofArguments]
  cases o.readHeader header with
  | error f => rfl
  | ok metadata =>
    show (o.record metadata g >>= _) = _
    rw [record_of_error o metadata h]
    rfl

theorem check_of_error (l : Limits) (h : readGraph g = .error m) :
    l.check g = .ok [.malformed m] := by
  rw [Limits.check, Graph.Node.outlineOfDatum, h]
  rfl

end

theorem SameOutcomes.of_agree {g h : Datum} (hr : Agree (readGraph g) (readGraph h)) :
    SameOutcomes g h := by
  rcases agree_iff.1 hr with ⟨r, hg, hh⟩ | ⟨m, m', hg, hh, hm⟩
  · -- Every use of a graph begins with reading it.
    refine ⟨by rw [hg, hh], ?_, fun o => ?_, fun o header => ?_, fun options => ?_⟩
    · simp only [Graph.textOf, Graph.Node.ofDatum, hg, hh]
    · simp only [Operation.textOf, Operation.ofArguments, Operation.record, hg, hh]
    · simp only [Operation.textOf, Operation.ofArguments, Operation.record, hg, hh]
    · simp only [checkLimits, Limits.check, Graph.Node.outlineOfDatum, hg, hh]
  · have htold : some (told (.ofMalformed m)) = some (told (.ofMalformed m')) := by
      simp [told, Report.ofMalformed, Report.make, hm]
    refine ⟨?_, ?_, fun o => ?_, fun o header => ?_, fun options => ?_⟩
    · rw [hg, hh]
      exact outcome_error htold
    · rw [textOf_of_error hg, textOf_of_error hh]
      exact outcome_error htold
    · rw [textOf_singleton_of_error o hg, textOf_singleton_of_error o hh]
      exact outcome_error htold
    · rw [textOf_pair_of_error o header hg, textOf_pair_of_error o header hh]
      cases o.readHeader header with
      | error f => rfl
      | ok metadata => exact outcome_error htold
    · rw [checkLimits, checkLimits]
      cases Limits.ofOptions options with
      | error f => rfl
      | ok l =>
        simp only [mapError_ok, bind, Except.bind]
        cases l.blocked.find? (!·.isString) with
        | some d => rfl
        | none =>
          simp only [check_of_error l hg, check_of_error l hh]
          exact congrArg (fun t => Except.ok [t]) hm

end GraphQuery.Surface
