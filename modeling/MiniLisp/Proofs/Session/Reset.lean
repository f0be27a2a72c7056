import MiniLisp.Proofs.Machine.Host
import MiniLisp.Proofs.Run.Renumbering

/-!
# What a reset leaves

Programs leave bindings behind and nothing else that another program could notice, and a reset
removes the bindings. The journal and the output of a session outlive it, but they are only ever
added to; and so does the count of declarations, but the numbers that are given out by it do no more
than tell procedures apart. So after a reset a session goes on like a new one with the same sink
(`Session.reset_forgets`).
-/

namespace MiniLisp

namespace Session

/-- Two steps that are the same but for the numbers of procedures in their trees and values. -/
inductive Step.Renumbered (shift : Nat) : Step → Step → Prop
  | evaluateText (source : String) : Renumbered shift (.evaluateText source) (.evaluateText source)
  | evaluateTree {t u : Sexp} (h : Sexp.Renumbered shift t u) :
    Renumbered shift (.evaluateTree t) (.evaluateTree u)
  | call {f g : Procedure} {args args' : List Value} (hfg : Procedure.Renumbered shift f g)
    (hargs : List.Forall₂ (Value.Renumbered shift) args args') :
    Renumbered shift (.call f args) (.call g args')
  | reset : Renumbered shift .reset .reset

/-- Two answers that are the same but for the numbers of procedures: values that show the same text,
faults of the same kind and wording, or no answers. -/
inductive SameAnswer (shift : Nat) :
    Option (Except Fault Value) → Option (Except Fault Value) → Prop
  | none : SameAnswer shift none none
  | value {v w : Value} (h : Value.Renumbered shift v w) (text : v.text = w.text) :
    SameAnswer shift (some (.ok v)) (some (.ok w))
  | fault {e f : Fault} (kind : e.kind = f.kind) (message : e.message = f.message) :
    SameAnswer shift (some (.error e)) (some (.error f))

/-- A session that has gone on from `base`, and one with the same settings that has gone on in the
same way from its start. -/
structure Continues (base : State) (s t : Session) : Prop where
  config_eq : t.config = s.config
  state : State.Renumbered base s.state t.state

namespace Continues

variable {base : State} {s t : Session}

theorem run (h : Continues base s t) {x y : Run Value}
    (hxy : (Simulation.renumbered base).Runs (Value.Renumbered base.declarations) x y) :
    SameAnswer base.declarations (some (s.run x).1) (some (t.run y).1) ∧
      Continues base (s.run x).2 (t.run y).2 := by
  have key := hxy.answered h.state
  have hconfig : (t.run y).2.config = (s.run x).2.config := by
    rw [config_run, config_run, h.config_eq]
  generalize s.run x = r at key hconfig ⊢
  generalize t.run y = q at key hconfig ⊢
  cases key with
  | returned hvw hst =>
    exact ⟨.value hvw (hvw.text_eq (Procedure.Renumbered.faithful _)), hconfig, hst⟩
  | failed hef hst =>
    refine ⟨.fault hef.1 ?_, hconfig, hst⟩
    rw [Fault.message, Fault.message, hef.1, hef.2]
  | cut h => exact h.elim

/-- The same step has the same answer. -/
theorem perform (h : Continues base s t) {step step' : Step}
    (hstep : Step.Renumbered base.declarations step step') :
    SameAnswer base.declarations (s.perform step).1 (t.perform step').1 ∧
      Continues base (s.perform step).2 (t.perform step').2 := by
  cases hstep with
  | evaluateText source =>
    rw [Session.perform, Session.perform]
    cases hparse : parse source with
    | error fault =>
      rw [Session.evaluateText, Session.evaluateText, hparse]
      exact ⟨.fault rfl rfl, h⟩
    | ok tree =>
      have htree := Sexp.renumbered_self base.declarations (procedures_of_parse hparse)
      rw [evaluateText_of_parse hparse, evaluateText_of_parse hparse, h.config_eq]
      exact h.run (Simulation.runProgram_renumbered base s.config htree)
  | evaluateTree htree =>
    rw [Session.perform, Session.perform, Session.evaluateTree, Session.evaluateTree, h.config_eq]
    exact h.run (Simulation.evaluate_renumbered base s.config _ htree)
  | call hfg hargs =>
    rw [Session.perform, Session.perform, Session.call, Session.call, h.config_eq]
    exact h.run (Simulation.call_renumbered base s.config _ hfg hargs)
  | reset =>
    refine ⟨.none, h.config_eq, ?_⟩
    exact ⟨Environment.fresh_renumbered _, h.state.sink, h.state.written, h.state.declarations,
      h.state.lines⟩

theorem after (h : Continues base s t) {steps steps' : List Step}
    (hsteps : List.Forall₂ (Step.Renumbered base.declarations) steps steps') :
    Continues base (s.after steps) (t.after steps') := by
  induction hsteps generalizing s t with
  | nil => exact h
  | cons hstep _ ih => exact ih (h.perform hstep).2

/-- A session that has been reset goes on as a new one does. -/
theorem of_reset (s : Session) :
    Continues s.reset.state s.reset (start s.config s.state.output.sink) where
  config_eq := rfl
  state := ⟨Environment.fresh_renumbered _, rfl, ByteArray.append_empty.symm, rfl,
    (List.append_nil _).symm⟩

end Continues

/-- **Nothing but bindings survives a run, and a reset removes those.** An evaluation and a call,
however deeply nested, give back the count of open evaluations that they find, whether they end with
a value or with a fault. So between any two steps of a session none is open, and its settings are
those of its start. After a reset the session goes on like a new one with the same sink: the same
steps have the same answers, write the same and report events that are shown by the same lines. -/
theorem reset_forgets (config : Config) (sink : Sink) (history : List Step) :
    (∀ tree stack depth s, Machine.Reaches config ⟨.evaluate tree, stack, depth, s⟩
      (Machine.ended (evaluate config (config.maxDepth - depth) tree s) stack depth)) ∧
    (∀ f args stack depth s, Machine.Reaches config ⟨.call f args, stack, depth, s⟩
      (Machine.ended (MiniLisp.call config (evaluate config (config.maxDepth - depth)) f args s)
        stack depth)) ∧
    (∃ last, Host.After ⟨start config sink, 0⟩ history last) ∧
    (∀ last, Host.After ⟨start config sink, 0⟩ history last →
      last.depth = 0 ∧ last.session.config = config ∧
        last.session = (start config sink).after history) ∧
    let used := ((start config sink).after history).reset
    let unused := start config used.state.output.sink
    ∀ steps steps', List.Forall₂ (Step.Renumbered used.state.declarations) steps steps' →
      (∀ step step', Step.Renumbered used.state.declarations step step' →
        SameAnswer used.state.declarations ((used.after steps).perform step).1
          ((unused.after steps').perform step').1) ∧
      (used.after steps).state.output.sink = (unused.after steps').state.output.sink ∧
      (used.after steps).state.output.written =
        used.state.output.written ++ (unused.after steps').state.output.written ∧
      (used.after steps).state.journal.toList.map Event.line =
        used.state.journal.toList.map Event.line ++
          (unused.after steps').state.journal.toList.map Event.line := by
  have hevaluate := Machine.reaches_evaluate config
  refine ⟨hevaluate, fun f args stack depth s => ?_, ?_, fun last hlast => ?_, ?_⟩
  · exact Machine.reaches_call (fun tree stack s => hevaluate tree stack depth s) f args stack s
  · exact ⟨⟨(start config sink).after history, 0⟩, (Host.after_iff rfl).2 ⟨rfl, rfl⟩⟩
  · obtain ⟨hsession, hdepth⟩ := (Host.after_iff rfl).1 hlast
    exact ⟨hdepth, by rw [hsession, after_config]; rfl, hsession⟩
  · intro used unused steps steps' hsteps
    have hstart : Continues used.state used unused := by
      have h := Continues.of_reset ((start config sink).after history)
      rwa [after_config] at h
    have h := hstart.after hsteps
    exact ⟨fun step step' hstep => (h.perform hstep).1, h.state.sink.symm, h.state.written,
      h.state.lines⟩

end Session

end MiniLisp
