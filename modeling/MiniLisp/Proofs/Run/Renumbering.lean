import MiniLisp.Proofs.Run.Alike
import MiniLisp.Proofs.Value.Procedures

/-!
# Procedures by other numbers

The number that a declared procedure gets tells it apart from the others and has no other use. So a
run that starts with some declarations already counted goes on like one that starts counting at
none: all that it does and reports is the same, but for the numbers of the procedures that it
declares (`Simulation.renumbered_lawful`).
-/

namespace MiniLisp

/-- Procedures of which the first has a number greater by a shift, as have those at the leaves of
its template. -/
inductive Procedure.Renumbered (shift : Nat) : Procedure → Procedure → Prop
  | primitive (p : Primitive) : Renumbered shift (.primitive p) (.primitive p)
  | declared {i : Nat} {name : String} {parameters : List String} {template template' : Sexp}
    (h : Sexp.Alike id (fun _ => True) (Renumbered shift) template template') :
    Renumbered shift (.declared (shift + i) name parameters template)
      (.declared i name parameters template')

/-- Values that are the same but for the numbers of procedures. -/
abbrev Value.Renumbered (shift : Nat) : Value → Value → Prop :=
  Value.Alike (fun _ => True) (Procedure.Renumbered shift)

/-- Trees that are the same but for the numbers of procedures. -/
abbrev Sexp.Renumbered (shift : Nat) : Sexp → Sexp → Prop :=
  Sexp.Alike id (fun _ => True) (Procedure.Renumbered shift)

theorem Procedure.Renumbered.faithful (shift : Nat) :
    Procedure.Faithful (Procedure.Renumbered shift) where
  primitive := .primitive
  name h := by cases h <;> rfl
  equal h h' := by
    cases h with
    | primitive p => cases h' <;> rfl
    | declared _ =>
      cases h' with
      | primitive p => rfl
      | declared _ => simp [Procedure.equal]

mutual

/-- A value is like itself if the procedures in it correspond to themselves. -/
theorem Value.alike_self {P : Procedure → Procedure → Prop} : ∀ (v : Value),
    (∀ f ∈ v.procedures, P f f) → Value.Alike (fun _ => True) P v v
  | .number x, _ => .number x
  | .boolean b, _ => .boolean b
  | .string text, _ => .string text
  | .symbol _, _ => .symbol True.intro
  | .none, _ => .none
  | .list items, h => Value.Alike.list_iff.2 (Value.alike_self_all items h)
  | .function (.primitive _), h => .function (h _ List.mem_cons_self)
  | .function (.declared _ _ _ _), h => .function (h _ List.mem_cons_self)

theorem Value.alike_self_all {P : Procedure → Procedure → Prop} : ∀ (items : List Value),
    (∀ f ∈ Value.proceduresAll items, P f f) →
      List.Forall₂ (Value.Alike (fun _ => True) P) items items
  | [], _ => .nil
  | v :: items, h =>
    .cons (Value.alike_self v fun f hf => h f (List.mem_append_left _ hf))
      (Value.alike_self_all items fun f hf => h f (List.mem_append_right _ hf))

end

/-- A tree without procedures has no numbers in it. -/
theorem Sexp.renumbered_self (shift : Nat) {t : Sexp} (h : t.procedures = []) :
    Sexp.Renumbered shift t t := by
  refine .refl t fun v hv _ => Value.alike_self v fun f hf => ?_
  have hmem : f ∈ t.procedures := (Sexp.mem_procedures t).2 ⟨v, hv, hf⟩
  rw [h] at hmem
  cases hmem

/-- Nor has a fresh environment. -/
theorem Environment.fresh_renumbered (shift : Nat) (n : String) :
    Option.Rel (Value.Renumbered shift) (Environment.fresh.get? n) (Environment.fresh.get? n) := by
  cases hget : Environment.fresh.get? n with
  | none => exact .none
  | some v =>
    exact .some (Environment.forall_fresh (P := fun v => Value.Renumbered shift v v) .number
      (fun p => .function (.primitive p)) n v hget)

/-- The state of a run that has started from `base`, and that of one that has started from nothing:
what the first one has added is what the second one has. -/
structure State.Renumbered (base s t : State) : Prop where
  environment : ∀ n, Option.Rel (Value.Renumbered base.declarations) (s.environment.get? n)
    (t.environment.get? n)
  sink : t.output.sink = s.output.sink
  written : s.output.written = base.output.written ++ t.output.written
  declarations : s.declarations = base.declarations + t.declarations
  lines : s.journal.toList.map Event.line =
    base.journal.toList.map Event.line ++ t.journal.toList.map Event.line

namespace State.Renumbered

variable {base s t : State}

theorem reported (h : Renumbered base s t) {e e' : Event} (he : e.line = e'.line) :
    Renumbered base (s.reported e) (t.reported e') where
  environment := h.environment
  sink := h.sink
  written := h.written
  declarations := h.declarations
  lines := by
    simp only [State.reported, Array.toList_push, List.map_append, h.lines, List.map_singleton, he,
      List.append_assoc]

theorem writeLine (h : Renumbered base s t) (line : String) :
    Renumbered base { s with output := s.output.writeLine line }
      { t with output := t.output.writeLine line } where
  environment := h.environment
  sink := by
    change t.output.sink.after _ = s.output.sink.after _
    rw [h.sink]
  written := by
    change s.output.written ++ s.output.sink.take _ =
      base.output.written ++ (t.output.written ++ t.output.sink.take _)
    rw [h.written, h.sink, ByteArray.append_assoc]
  declarations := h.declarations
  lines := h.lines

theorem define (h : Renumbered base s t) (n : String) {v w : Value}
    (hvw : Value.Renumbered base.declarations v w) :
    Renumbered base { s with environment := s.environment.define n v }
      { t with environment := t.environment.define n w } where
  environment m := by
    rw [Environment.get?_define, Environment.get?_define]
    split
    · exact .some hvw
    · exact h.environment m
  sink := h.sink
  written := h.written
  declarations := h.declarations
  lines := h.lines

theorem counted (h : Renumbered base s t) :
    Renumbered base { s with declarations := s.declarations + 1 }
      { t with declarations := t.declarations + 1 } where
  environment := h.environment
  sink := h.sink
  written := h.written
  declarations := by rw [h.declarations, Nat.add_assoc]
  lines := h.lines

/-- The next procedures that are declared correspond. -/
theorem procedure (h : Renumbered base s t) (name : String) (parameters : List String)
    {template template' : Sexp} (htemplate : Sexp.Renumbered base.declarations template template') :
    Procedure.Renumbered base.declarations
      (.declared s.declarations name parameters template)
      (.declared t.declarations name parameters template') := by
  rw [h.declarations]
  exact .declared htemplate

end State.Renumbered

namespace Simulation

variable {base : State}

/-- Runs on values that differ in the numbers of procedures only. -/
def renumbered (base : State) : Simulation :=
  alike (State.Renumbered base) (fun _ => True) (Procedure.Renumbered base.declarations)
    (Sexp.Renumbered base.declarations)

theorem callee_renumbered {f g : Procedure} (h : Procedure.Renumbered base.declarations f g) :
    (renumbered base).Callee f g := by
  cases h with
  | primitive p => exact .primitive p
  | declared h =>
    exact .declared rfl (fun hargs _ => h.filled (fun _ _ => rfl) hargs) fun n => ⟨rfl, rfl⟩

theorem declareAs_renumbered (n : String) (parameters : List String) {template template' : Sexp}
    (h : Sexp.Renumbered base.declarations template template') :
    (renumbered base).Runs (fun _ _ => True) (declareAs n parameters template)
      (declareAs n parameters template') := by
  intro s t hst
  rw [declareAs_apply, declareAs_apply]
  have hvalue : Value.Renumbered base.declarations
      (.function (.declared s.declarations n parameters template))
      (.function (.declared t.declarations n parameters template')) :=
    .function (State.Renumbered.procedure hst n parameters h)
  have htext := h.text_eq (Procedure.Renumbered.faithful _)
  have hdeclared : (Event.declared n parameters template).line =
      (Event.declared n parameters template').line := by
    simp only [Event.line, Event.level, Event.target, Event.message, htext]
  have hbound : (Event.bound n (.function (.declared s.declarations n parameters template))).line =
      (Event.bound n (.function (.declared t.declarations n parameters template'))).line := by
    simp only [Event.line, Event.level, Event.target, Event.message,
      hvalue.text_eq (Procedure.Renumbered.faithful _)]
  have hreported := (State.Renumbered.reported hst hdeclared).reported hbound
  exact .returned True.intro (hreported.define n hvalue).counted

theorem renumbered_laws (base : State) :
    AlikeLaws (State.Renumbered base) (fun _ => True) (Procedure.Renumbered base.declarations)
      (Sexp.Renumbered base.declarations) where
  faithful := Procedure.Renumbered.faithful _
  tree_of_alike h := h
  callee := callee_renumbered
  environment h := h.environment
  sink h := h.sink
  reported h := h.reported
  written line h := h.writeLine line
  define n h := h.define n
  declare n parameters _ _ h := declareAs_renumbered n parameters h

/-- **Numbers make no difference** to a run but for the numbers that it gives. -/
theorem renumbered_lawful (base : State) (config : Config) :
    (renumbered base).Lawful config config := by
  refine (renumbered_laws base).lawful config (fun h => h) (fun h => ?_) fun h => ?_
  · cases h with
    | expression length h =>
      have hitems := Sexp.Alike.expression_iff.1 (.expression length h)
      exact ⟨_, rfl, (renumbered_laws base).inStep hitems⟩
  · cases h with
    | placeholder index => rfl

theorem evaluate_renumbered (base : State) (config : Config) (budget : Nat) {t u : Sexp}
    (h : Sexp.Renumbered base.declarations t u) :
    (renumbered base).Runs (Value.Renumbered base.declarations) (evaluate config budget t)
      (evaluate config budget u) :=
  (renumbered_lawful base config).evaluate 0 (fun _ _ _ => .throw ⟨rfl, rfl⟩) budget h

theorem call_renumbered (base : State) (config : Config) (budget : Nat) {f g : Procedure}
    (hfg : Procedure.Renumbered base.declarations f g) {args args' : List Value}
    (hargs : List.Forall₂ (Value.Renumbered base.declarations) args args') :
    (renumbered base).Runs (Value.Renumbered base.declarations)
      (call config (evaluate config budget) f args) (call config (evaluate config budget) g args') :=
  (renumbered_lawful base config).call (fun _ _ => evaluate_renumbered base config budget)
    (evaluate_grows config budget) (.function hfg) hargs

theorem runProgram_renumbered (base : State) (config : Config) {t u : Sexp}
    (h : Sexp.Renumbered base.declarations t u) :
    (renumbered base).Runs (Value.Renumbered base.declarations) (runProgram config t)
      (runProgram config u) := by
  have hline : (Event.parsed t).line = (Event.parsed u).line := by
    simp only [Event.line, Event.level, Event.target, Event.message,
      h.text_eq (Procedure.Renumbered.faithful _)]
  exact ((renumbered_laws base).report hline).andThen (fun h _ => h)
    (fun _ _ _ => evaluate_renumbered base config _ h) fun _ => evaluate_grows _ _ u

end Simulation

end MiniLisp
