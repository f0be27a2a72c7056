import MiniLisp.Proofs.Run.Locality
import MiniLisp.Proofs.Run.Record
import MiniLisp.Proofs.Session.Steps

/-!
# What a fault says

A fault that comes out of a program tells the truth about the session that it leaves. A text that
cannot be read changes nothing; a name that was not defined is not defined now, and it is spelled in
the program or in a procedure that the program could reach; an overflow names the limit in force;
and after a line that could not be written nothing has happened any more
(`Session.Reachable.evaluateText_fault`).

The evaluator has many ways for a fault to come out, and on none of them is a fault caught or
replaced, or anything done after it. So what holds of a state when a fault arises (`Fault.Tells`)
still holds when the run is over, which is how `Simulation.telling` follows it.
-/

namespace MiniLisp

/-! ## Faults and states -/

/-- The last thing that has happened since `start` is that the sink failed at a line, for this
reason. Of the line there is what the sink took. -/
def State.Rejected (start : State) (reason : String) (t : State) : Prop :=
  ∃ events line,
    t.journal.toList = start.journal.toList ++ (events ++ [.printed line]) ∧
    (start.output.after events).fault? line = some reason ∧
    t.output = (start.output.after events).writeLine line ∧
    t.environment = start.environment.extended (bindings events)

/-- What a fault says of a state in which a run from `start` ends by it. -/
def Fault.Tells (config : Config) (start t : State) : Fault → Prop
  | .unreadable _ => False
  | .undefined name => t.environment.get? name = none
  | .notCallable _ => True
  | .misuse _ => True
  | .overflow limit => limit = config.maxDepth
  | .output reason => config.echo = true ∧ start.Rejected reason t

/-! ## Runs -/

namespace Simulation

/-- Runs in the same state, which has a record since `start`. A fault that does not speak of the
state may stop both; any other cuts the run in a state of which it tells the truth. -/
def telling (config : Config) (start : State) : Simulation :=
  same (fun s t => s = t ∧ ∃ events, State.Recorded config.echo start events s) (fun _ => True)
    (fun _ => True) (fun e f => e = f ∧ ∀ t, e.Tells config start t)
    fun e s _ => e.Tells config start s

variable {config : Config} {start : State}

theorem evaluateAtom_telling (v : Value) :
    (telling config start).Runs (fun v w => True ∧ v = w) (evaluateAtom v) (evaluateAtom v) := by
  refine .evaluateAtom (fun _ => True.intro) (fun _ hst => ?_) fun _ _ hget => .inr hget
  exact ⟨by rw [hst.1], fun _ _ => True.intro⟩

theorem printLine_telling (line : String) :
    (telling config start).Runs (fun _ _ => True) (Run.printLine config line)
      (Run.printLine config line) := by
  rintro s _ ⟨rfl, events, hs⟩
  have hkept := printLine_recorded config line s s ⟨rfl, events, hs⟩
  cases hrun : Run.printLine config line s with
  | ok v t =>
    rw [hrun] at hkept
    cases hkept with
    | returned h hst => exact .returned h hst
  | error e t =>
    rw [Run.printLine_apply] at hrun
    split at hrun
    case isFalse => cases hrun
    case isTrue hecho =>
      have houtput : s.output = start.output.after events := by
        rw [hs.output, if_pos hecho]
      split at hrun
      · cases hrun
      case h_2 fault hfault =>
        cases hrun
        refine .cut ⟨hecho, events, line, ?_, houtput ▸ hfault, houtput ▸ rfl, hs.environment⟩
        change (s.journal.push (.printed line)).toList = _
        rw [Array.toList_push, hs.journal, List.append_assoc]

/-- **No step of a run passes over a fault.** -/
theorem telling_laws (config : Config) (start : State) :
    SameLaws (fun s t => s = t ∧ ∃ events, State.Recorded config.echo start events s)
      (fun _ => True) (fun _ => True) (fun e f => e = f ∧ ∀ t, e.Tells config start t)
      (fun e s _ => e.Tells config start s) config config :=
  (recorded_steps _).sameLaws (fun h _ => h) (fun _ => ⟨rfl, fun _ => True.intro⟩)
    (fun _ => ⟨rfl, fun _ => True.intro⟩) evaluateAtom_telling printLine_telling

end Simulation

/-- A program that ends by a fault ends in a state of which the fault tells the truth. -/
theorem runProgram_tells {config : Config} {tree : Sexp} {s t : State} {e : Fault}
    (h : runProgram config tree s = .error e t) : e.Tells config s t := by
  have hruns : (Simulation.telling config s).Runs (fun v w => True ∧ v = w)
      (runProgram config tree) (runProgram config tree) :=
    (Simulation.telling_laws config s).runProgram (Simulation.recorded_steps _) rfl
      ⟨rfl, fun _ => rfl⟩ True.intro
  have houtcome := hruns s s ⟨rfl, [], .refl _ s⟩
  rw [h] at houtcome
  cases houtcome with
  | failed hef _ => exact hef.2 t
  | cut he => exact he

/-- A line that the sink takes but does not pass on stops a program as a refused one does. -/
example :
    let program : Sexp := .expression [.atom (.symbol "println"), .atom (.boolean true)]
    let ending (sink : Sink) := runProgram .standard program (Session.start .standard sink).state
    (∃ t, ending .refusing = .error (.output "sink is closed") t ∧ t.output.text = "") ∧
      ∃ t, ending .unflushable = .error (.output "flush failed") t ∧ t.output.text = "true\n" := by
  with_unfolding_all exact ⟨⟨_, rfl, rfl⟩, _, rfl, rfl⟩

/-! ## Sessions -/

namespace Session

/-- A fault of a program that could be read. -/
theorem evaluateText_tells {s : Session} {source : String} {tree : Sexp}
    (hparse : parse source = .ok tree) {e : Fault} (h : (s.evaluateText source).1 = .error e) :
    e.Tells s.config s.state (s.evaluateText source).2.state := by
  rw [evaluateText_of_parse hparse] at h ⊢
  cases hrun : runProgram s.config tree s.state with
  | ok v t =>
    rw [run_of_ok hrun] at h
    cases h
  | error f t =>
    rw [run_of_error hrun] at h ⊢
    cases h
    exact runProgram_tells hrun

/-- A program that spells a name nowhere does not miss it: it would miss it as well if the name were
bound, to anything. -/
theorem Reachable.spelled_of_undefined {s : Session} (h : s.Reachable) {source : String}
    {tree : Sexp} (hparse : parse source = .ok tree) {name : String}
    (hundefined : (s.evaluateText source).1 = .error (.undefined name)) :
    .symbol name ∈ tree.atoms ∨
      ∃ n v, s.environment.get? n = some v ∧ ∃ f ∈ v.procedures, f.Mentions name := by
  by_contra hspelled
  obtain ⟨htree, hbound⟩ := not_or.1 hspelled
  have havoids : tree.Avoids name := by
    refine ⟨closed_of_parse hparse, htree, fun f hf => ?_⟩
    rw [procedures_of_parse hparse] at hf
    cases hf
  have hbindings : ∀ n v, n ≠ name → s.environment.get? n = some v → v.Avoids name :=
    fun n v _ hv => ⟨h.state_sound.environment n v hv, fun f hf hmentions =>
      hbound ⟨n, v, hv, f, hf, hmentions⟩⟩
  have hapart := apart_withBinding hbindings .none
  obtain ⟨hresult, hstates⟩ := run_apart hapart (Simulation.runProgram_apart s.config havoids)
  have hother : ((s.withBinding name .none).evaluateText source).1 = .error (.undefined name) := by
    rw [evaluateText_of_parse hparse] at hundefined ⊢
    exact hresult.trans hundefined
  have hnone := evaluateText_tells hparse hother
  rw [evaluateText_of_parse hparse] at hnone
  cases hnone.symm.trans hstates.second

/-- **Faults tell the truth.** Whatever text a session evaluates that can be reached: it is refused
as unreadable exactly if it cannot be read, and then nothing has changed; a name reported as
undefined is not bound afterwards, and it is spelled in the program or in the template of a
procedure that was within reach; an overflow is of the limit of the session; and a failure to write
comes from a line that the sink refused while lines were to be written, after which nothing was
written, reported or bound. -/
theorem Reachable.evaluateText_fault {s : Session} (h : s.Reachable) (source : String) :
    let after := s.evaluateText source
    (∀ x, after.1 = .error (.unreadable x) ↔ parse source = .error x) ∧
      (∀ x, parse source = .error x → after.2 = s) ∧
      (∀ name, after.1 = .error (.undefined name) → after.2.environment.get? name = none ∧
        ∃ tree, parse source = .ok tree ∧ (.symbol name ∈ tree.atoms ∨
          ∃ n v, s.environment.get? n = some v ∧ ∃ f ∈ v.procedures, f.Mentions name)) ∧
      (∀ limit, after.1 = .error (.overflow limit) → limit = s.config.maxDepth) ∧
      ∀ fault, after.1 = .error (.output fault) →
        s.config.echo = true ∧ s.state.Rejected fault after.2.state := by
  intro after
  cases hparse : parse source with
  | error x =>
    have hafter : after = (.error (.unreadable x), s) := by
      change Session.evaluateText s source = _
      rw [Session.evaluateText, hparse]
    rw [hafter]
    refine ⟨fun y => ?_, fun y _ => rfl, fun n hn => (by cases hn), fun d hd => (by cases hd),
      fun y hy => by cases hy⟩
    rw [Except.error.injEq, Except.error.injEq, Fault.unreadable.injEq]
  | ok tree =>
    refine ⟨fun x => ⟨fun hx => ?_, fun hx => (by cases hx)⟩, fun x hx => (by cases hx),
      fun name hname => ⟨evaluateText_tells hparse hname, tree, rfl,
        h.spelled_of_undefined hparse hname⟩,
      fun limit hlimit => evaluateText_tells hparse hlimit,
      fun fault hfault => evaluateText_tells hparse hfault⟩
    exact (evaluateText_tells hparse hx).elim

/-- The name that is missing here is spelled in a template only. -/
theorem Reachable.evaluateText_fault_template :
    let s := ((Session.start ⟨3, true⟩ .unlimited).evaluateText "(function f () y)").2
    let after := s.evaluateText "(f)"
    s.Reachable ∧ after.1 = .error (.undefined "y") ∧ after.2.environment.get? "y" = none := by
  intro s after
  have hreach : s.Reachable := .evaluateText (.start _ _) _
  have hs : s.environment = Environment.fresh.define "f"
      (.function (.declared 0 "f" [] (.atom (.symbol "y")))) := by
    have hdeclaration : parse "(function f () y)" = .ok (.expression
        [.atom (.symbol "function"), .atom (.symbol "f"), .expression [],
          .atom (.symbol "y")]) := rfl
    change (Session.evaluateText _ _).2.environment = _
    rw [evaluateText_of_parse hdeclaration]
    rfl
  have hrun : ∀ t : State, t.environment = s.environment →
      runProgram ⟨3, true⟩ (.expression [.atom (.symbol "f")]) t = .error (.undefined "y")
        ((t.reported (.parsed (.expression [.atom (.symbol "f")]))).reported (.called "f" [])) := by
    intro t ht
    have hf : t.environment.get? "f" =
        some (.function (.declared 0 "f" [] (.atom (.symbol "y")))) := by
      rw [ht, hs, Environment.get?_define, if_pos rfl]
    have hy : t.environment.get? "y" = none := by
      rw [ht, hs, Environment.get?_define, if_neg (by decide)]
      exact Environment.get?_ofList_of_notMem (by
        simp [Environment.seeds, Environment.constants, Primitive.all, Operation.all,
          Arithmetic.all, Primitive.name, Operation.name, Arithmetic.name, Comparison.all,
          Comparison.name, Elementary.all, Elementary.name, Kind.name])
    let u := t.reported (.parsed (.expression [.atom (.symbol "f")]))
    have hhead : evaluate ⟨3, true⟩ 2 (.atom (.symbol "f")) u =
        .ok (.function (.declared 0 "f" [] (.atom (.symbol "y")))) u := evaluate_symbol hf
    have hbody : evaluate ⟨3, true⟩ 2 (.atom (.symbol "y")) (u.reported (.called "f" [])) =
        .error (.undefined "y") (u.reported (.called "f" [])) := by
      rw [evaluate, evaluateAtom, Run.lookup_apply]
      rw [show (u.reported (.called "f" [])).environment.get? "y" = none from hy]
    change evaluate _ 3 _ u = _
    rw [evaluate_application rfl hhead, List.mapM_nil, pure_bind, call_declared,
      Run.andThen_apply, Run.report_apply]
    dsimp only
    rw [if_pos (show ([] : List Value).length = ([] : List String).length from rfl), Sexp.filled]
    exact hbody
  have hresult : after.1 = .error (.undefined "y") := by
    have hparse : parse "(f)" = .ok (.expression [.atom (.symbol "f")]) := rfl
    change (Session.evaluateText _ _).1 = _
    have hconfig : s.config = ⟨3, true⟩ := config_evaluateText _ _
    rw [evaluateText_of_parse hparse, hconfig, run_of_error (hrun _ rfl)]
  obtain ⟨-, -, hundefined, -⟩ := Reachable.evaluateText_fault hreach "(f)"
  exact ⟨hreach, hresult, (hundefined "y" hresult).1⟩

end Session

end MiniLisp
