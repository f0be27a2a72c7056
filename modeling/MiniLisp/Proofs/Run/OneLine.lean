import MiniLisp.Proofs.Run.Record
import MiniLisp.Proofs.Value.OneLine

/-!
# Runs on one line

A program on one line, in a state whose bindings are on one line, stays on one line: its value, its
fault and each line that it prints have no line feeds in them, and neither have the bindings that it
leaves. Nothing else is ever read, so a session in which only single lines have been evaluated
answers each with one line (`Session.Twins.evaluateText`).

What has been reported and written before has no part in it. Two states that differ in their records
only (`State.Twins`) go through the same events and add the same to their records.
-/

namespace MiniLisp

/-! ## States with other records -/

/-- States that differ in their journals and in what they have written only. Their sinks take
everything, and names are bound to values on one line. -/
structure State.Twins (s t : State) : Prop where
  environment : t.environment = s.environment
  declarations : t.declarations = s.declarations
  bound : ∀ name v, s.environment.get? name = some v → v.OneLine
  sinks : s.output.sink = .unlimited ∧ t.output.sink = .unlimited

/-- Twins in which the same events have happened since two other states, and have printed lines that
are none but one. -/
structure State.Abreast (echo : Bool) (start start' s t : State) : Prop
    extends State.Twins s t where
  events : ∃ events, State.Journaled echo start events s ∧ State.Journaled echo start' events t ∧
    ∀ line ∈ printedLines events, Unbroken line

namespace State.Twins

variable {s t : State}

theorem reported (h : Twins s t) (e : Event) : Twins (s.reported e) (t.reported e) :=
  { h with }

theorem define (h : Twins s t) (name : String) {value : Value} (hvalue : value.OneLine) :
    Twins { s with environment := s.environment.define name value }
      { t with environment := t.environment.define name value } :=
  { h with
    environment := congrArg (·.define name value) h.environment
    bound := Environment.forall_define h.bound name hvalue }

theorem writeLine (h : Twins s t) (line : String) :
    Twins { s with output := s.output.writeLine line }
      { t with output := t.output.writeLine line } := by
  have hsinks : (s.output.writeLine line).sink = .unlimited ∧
      (t.output.writeLine line).sink = .unlimited := by
    rw [Output.writeLine, Output.writeLine, h.sinks.1, h.sinks.2]
    exact ⟨rfl, rfl⟩
  exact { h with sinks := hsinks }

end State.Twins

namespace State.Abreast

variable {echo : Bool} {start start' s t : State}

theorem refl (h : State.Twins start start') (echo : Bool) : Abreast echo start start' start start' :=
  ⟨h, [], .refl echo start, .refl echo start', by simp [printedLines]⟩

/-- Both states after one more event that is no line. -/
theorem quiet (h : Abreast echo start start' s t) {P : Value → Prop} {Q : Sexp → Prop} {e : Event}
    (he : Simulation.Quiet P Q e) :
    Abreast echo start start' (s.reported e) (t.reported e) := by
  obtain ⟨events, hs, ht, hlines⟩ := h.events
  refine ⟨h.toTwins.reported e, events ++ [e], hs.quiet he rfl rfl, ht.quiet he rfl rfl, ?_⟩
  have hnone : printedLines [e] = [] := by
    cases he <;> rfl
  rw [printedLines_append, hnone, List.append_nil]
  exact hlines

theorem bind (h : Abreast echo start start' s t) (name : String) {value : Value}
    (hvalue : value.OneLine) :
    Abreast echo start start'
      { s.reported (.bound name value) with environment := s.environment.define name value }
      { t.reported (.bound name value) with environment := t.environment.define name value } := by
  obtain ⟨events, hs, ht, hlines⟩ := h.events
  refine ⟨(h.toTwins.reported _).define name hvalue, events ++ [.bound name value],
    hs.extend rfl ?_, ht.extend rfl ?_, ?_⟩
  · exact (ite_self _).symm
  · exact (ite_self _).symm
  · simpa [printedLines, Event.printed?] using hlines

theorem counted (h : Abreast echo start start' s t) :
    Abreast echo start start' { s with declarations := s.declarations + 1 }
      { t with declarations := s.declarations + 1 } := by
  obtain ⟨events, hs, ht, hlines⟩ := h.events
  exact ⟨{ h.toTwins with declarations := rfl }, events, ⟨hs.journal, hs.output⟩,
    ⟨ht.journal, ht.output⟩, hlines⟩

/-- Both states after a line, which is written in both or in neither. -/
theorem printed (h : Abreast echo start start' s t) {line : String} (hline : Unbroken line)
    {s' t' : State} (htwins : State.Twins s' t')
    (hs : State.Journaled echo s [.printed line] s')
    (ht : State.Journaled echo t [.printed line] t') : Abreast echo start start' s' t' := by
  obtain ⟨events, hs', ht', hlines⟩ := h.events
  refine ⟨htwins, events ++ [.printed line], hs'.trans hs, ht'.trans ht, ?_⟩
  rw [printedLines_append]
  exact List.forall_mem_append.2 ⟨hlines, by simpa [printedLines, Event.printed?] using hline⟩

end State.Abreast

/-! ## Runs -/

namespace Simulation

variable {echo : Bool} {start start' : State}

/-- Runs of the same tree, on one line, in states that have the same records since two others. They
stop for the same fault, if for any, which is reported on one line. -/
def oneLine (echo : Bool) (start start' : State) : Simulation :=
  same (State.Abreast echo start start') Value.OneLine Sexp.OneLine
    (fun e f => e = f ∧ Unbroken e.message) fun _ _ _ => False

theorem oneLine_steps :
    StepLaws (State.Abreast echo start start') Value.OneLine Sexp.OneLine where
  atom h _ := Sexp.OneLine.atom_iff.1 h
  found h _ := ⟨by rw [h.environment], h.bound _⟩
  reported h he := h.quiet he
  bound h _ hv := h.bind _ hv
  declarations h := h.declarations
  procedure _ hn hbody parameters := hbody.declared hn.symbol _ parameters
  counted h := h.counted

theorem printLine_oneLine (config : Config) {line : String} (hline : Unbroken line) :
    (oneLine config.echo start start').Runs (fun _ _ => True) (Run.printLine config line)
      (Run.printLine config line) := by
  intro s t h
  have hreported := h.toTwins.reported (.printed line)
  rw [Run.printLine_apply, Run.printLine_apply]
  cases hecho : config.echo with
  | false =>
    rw [hecho] at h
    exact .returned True.intro (h.printed hline hreported ⟨Array.toList_push, rfl⟩
      ⟨Array.toList_push, rfl⟩)
  | true =>
    rw [hecho] at h
    have hfault : s.output.fault? line = none ∧ t.output.fault? line = none := by
      rw [Output.fault?, Output.fault?, h.sinks.1, h.sinks.2]
      exact ⟨rfl, rfl⟩
    rw [if_pos rfl, if_pos rfl, hfault.1, hfault.2]
    exact .returned True.intro (h.printed hline (hreported.writeLine line)
      ⟨Array.toList_push, rfl⟩ ⟨Array.toList_push, rfl⟩)

theorem unbroken_misuse {m : Misuse} (h : Unbroken m.message) :
    Unbroken (Fault.misuse m).message := by
  change Unbroken ("ArityOrTypeError" ++ ": " ++ m.message)
  simp only [unbroken_append, h]
  decide

/-- Every step of a run stays on one line. -/
theorem oneLine_laws (config : Config) (start start' : State) :
    SameLaws (State.Abreast config.echo start start') Value.OneLine Sexp.OneLine
      (fun e f => e = f ∧ Unbroken e.message) (fun _ _ _ => False) config config where
  cut_continues h _ := h
  hereditary := Value.OneLine.hereditary
  misuse hm := ⟨rfl, unbroken_misuse hm.message⟩
  notCallable {v} hv := by
    refine ⟨rfl, ?_⟩
    change Unbroken ("NotCallable" ++ ": " ++ (v.text ++ " is not a procedure"))
    simp only [unbroken_append, hv.text]
    decide
  unfilled {i} _ := by
    refine ⟨rfl, unbroken_misuse ?_⟩
    change Unbroken ("unfilled parameter #" ++ i.repr)
    simp only [unbroken_append, unbroken_natRepr]
    decide
  items h := h.items
  filled h hargs _ := h.filled hargs
  atom h := oneLine_steps.evaluateAtom (fun {n} hn => ⟨rfl, by
    change Unbroken ("UndefinedSymbol" ++ ": " ++ ("'" ++ n ++ "' is not defined"))
    simp only [unbroken_append, hn.symbol]
    decide⟩) h
  entered form := oneLine_steps.report (.entered form)
  called hf hargs := oneLine_steps.report (.called hf hargs)
  printLine hargs hline := printLine_oneLine config (unbroken_printedLine hargs hline)
  assign hname hv := oneLine_steps.assign hname hv
  declare _ hname hbody := oneLine_steps.declare hname hbody

theorem runProgram_oneLine (config : Config) {tree : Sexp} (h : tree.OneLine) :
    (oneLine config.echo start start').Runs (fun v w => v.OneLine ∧ v = w)
      (runProgram config tree) (runProgram config tree) := by
  refine (oneLine_laws config start start').runProgram oneLine_steps rfl ⟨rfl, ?_⟩ h
  change Unbroken ("StackOverflow" ++ ": " ++ ("evaluation exceeded depth " ++ config.maxDepth.repr))
  simp only [unbroken_append, unbroken_natRepr]
  decide

end Simulation

/-! ## Sessions -/

namespace Session

/-- Sessions that differ in what they have reported and written only. -/
structure Twins (s t : Session) : Prop where
  config_eq : t.config = s.config
  state : State.Twins s.state t.state

variable {s t : Session}

/-- A session goes on as before when its records are cleared. -/
theorem Twins.clearRecords (h : Twins s t) : Twins s t.clearRecords :=
  ⟨h.config_eq, { h.state with }⟩

/-- A new session is its own twin. -/
theorem Twins.start (config : Config) :
    Twins (Session.start config .unlimited) (Session.start config .unlimited) where
  config_eq := rfl
  state := ⟨rfl, rfl, Environment.forall_fresh .number .primitive, rfl, rfl⟩

/-- What two sessions have come to from `s` and `t` with the same answer, which is on one line. -/
structure Answered (s t : Session) (answer answer' : Except Fault Value × Session) : Prop where
  answer_eq : answer'.1 = answer.1
  value : ∀ v, answer.1 = .ok v → v.OneLine
  fault : ∀ e, answer.1 = .error e → Unbroken e.message
  config_eq : answer.2.config = s.config ∧ answer'.2.config = s.config
  state : State.Abreast s.config.echo s.state t.state answer.2.state answer'.2.state

theorem Answered.twins {answer answer' : Except Fault Value × Session}
    (h : Answered s t answer answer') : Twins answer.2 answer'.2 :=
  ⟨h.config_eq.2.trans h.config_eq.1.symm, h.state.toTwins⟩

theorem Twins.run (h : Twins s t) {x : Run Value}
    (hx : (Simulation.oneLine s.config.echo s.state t.state).Runs (fun v w => v.OneLine ∧ v = w)
      x x) : Answered s t (s.run x) (t.run x) := by
  obtain ⟨hanswer, hvalue, hfault, hstate⟩ := hx.answers id id (.refl h.state s.config.echo)
  exact ⟨hanswer, hvalue, hfault, ⟨config_run s x, (config_run t x).trans h.config_eq⟩, hstate⟩

/-- **A line is answered on one line**, whatever has been reported and written before. -/
theorem Twins.evaluateText (h : Twins s t) {source : String} (hsource : Unbroken source) :
    Answered s t (s.evaluateText source) (t.evaluateText source) := by
  cases hparse : parse source with
  | error fault =>
    rw [Session.evaluateText, Session.evaluateText, hparse]
    refine ⟨rfl, fun v hv => (by cases hv), fun e he => ?_, ⟨rfl, h.config_eq⟩, .refl h.state _⟩
    obtain rfl := Except.error.inj he
    change Unbroken ("SyntaxError" ++ ": " ++ fault.message)
    simp only [unbroken_append, unbroken_of_parse_error hsource hparse]
    decide
  | ok tree =>
    rw [evaluateText_of_parse hparse, evaluateText_of_parse hparse, h.config_eq]
    exact h.run (Simulation.runProgram_oneLine s.config (oneLine_of_parse hsource hparse))

end Session

end MiniLisp
