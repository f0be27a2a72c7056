import MiniLisp.Proofs.Run.Lockstep

/-!
# The journal is a full record

Everything that a run does to the environment and to the output is in its journal: the environment
in which it ends is the one it started in, extended by the bindings that it has reported
(`bindings`), and the output is the one it started with, after the lines that it has reported
(`echoes`), if lines are written at all. `State.Recorded` says so of a state and an earlier one, and
every evaluation keeps it, whether it succeeds or fails (`runProgram_recorded`).
-/

namespace MiniLisp

/-! ## Bindings -/

/-- The binding that an event reports. -/
def Event.binding? : Event → Option (String × Value)
  | .bound name value => some (name, value)
  | _ => none

/-- The bindings made, in order. -/
def bindings (events : List Event) : List (String × Value) :=
  events.filterMap Event.binding?

/-- An environment after some bindings, one after the other. -/
def Environment.extended (e : Environment) (bs : List (String × Value)) : Environment :=
  bs.foldl (fun e b => e.define b.1 b.2) e

@[simp] theorem bindings_append (events more : List Event) :
    bindings (events ++ more) = bindings events ++ bindings more :=
  List.filterMap_append

/-- Later bindings extend what earlier ones have made. -/
theorem Environment.extended_append (e : Environment) (bs more : List (String × Value)) :
    e.extended (bs ++ more) = (e.extended bs).extended more :=
  List.foldl_append

/-! ## Printed lines -/

/-- The line that an event has printed. -/
def Event.printed? : Event → Option String
  | .printed line => some line
  | _ => none

/-- The lines printed, in order. -/
def printedLines (events : List Event) : List String :=
  events.filterMap Event.printed?

@[simp] theorem printedLines_append (events more : List Event) :
    printedLines (events ++ more) = printedLines events ++ printedLines more :=
  List.filterMap_append

/-- What an event adds to an output that takes everything: a message of `println` and a line feed.
-/
def Event.echo (e : Event) : ByteArray :=
  if e.target = "attolisp::println" then Output.bytesOfLine e.message else .empty

/-- The printed lines, in order, each with its line feed. -/
def echoes : List Event → ByteArray
  | [] => .empty
  | e :: events => e.echo ++ echoes events

@[simp] theorem Event.echo_printed (line : String) :
    (Event.printed line).echo = Output.bytesOfLine line := rfl

/-- Only a printed line is echoed. -/
theorem Event.echo_eq_empty {e : Event} (h : ∀ line, e ≠ .printed line) : e.echo = .empty := by
  cases e with
  | printed line => exact absurd rfl (h line)
  | _ => rfl

@[simp] theorem echoes_append (events more : List Event) :
    echoes (events ++ more) = echoes events ++ echoes more := by
  induction events with
  | nil => rw [List.nil_append, echoes, ByteArray.empty_append]
  | cons e events ih => rw [List.cons_append, echoes, echoes, ih, ByteArray.append_assoc]

@[simp] theorem echoes_singleton (e : Event) : echoes [e] = e.echo := by
  rw [echoes, echoes, ByteArray.append_empty]

/-- An output after an event: a printed line has been written as far as the sink takes it. -/
def Output.afterEvent (o : Output) : Event → Output
  | .printed line => o.writeLine line
  | _ => o

def Output.after (o : Output) (events : List Event) : Output :=
  events.foldl Output.afterEvent o

theorem Output.after_append (o : Output) (events more : List Event) :
    o.after (events ++ more) = (o.after events).after more :=
  List.foldl_append

/-- **The sink is offered the printed lines**, each one once, in order and with its line feed: what
it does with the next one may depend on all of these. -/
theorem Output.receive_after (o : Output) (events : List Event) (past : List ByteArray)
    (line : ByteArray) : (o.after events).sink.receive past line =
      o.sink.receive ((printedLines events).map bytesOfLine ++ past) line := by
  induction events generalizing o with
  | nil => rfl
  | cons e events ih =>
    change ((o.afterEvent e).after events).sink.receive past line = _
    rw [ih]
    cases e <;> rfl

/-! ## Sinks without seams

What a sink of the host takes may depend on where one line ends and the next one begins. Of a sink
that counts bytes, or takes all of them, it does not.
-/

/-- A sink that takes everything, or everything up to a number of bytes. -/
inductive Sink.Seamless : Sink → Prop where
  | unlimited : Seamless .unlimited
  | bounded (room : Nat) : Seamless (.bounded room)

namespace Sink.Seamless

variable {sink : Sink}

theorem after (h : Seamless sink) (bytes : ByteArray) : Seamless (sink.after bytes) := by
  cases h with
  | unlimited => exact .unlimited
  | bounded room =>
    rw [after_bounded]
    exact .bounded _

/-- Of two pieces together it takes what it takes of one after the other. -/
theorem take_append (h : Seamless sink) (bytes more : ByteArray) :
    sink.take (bytes ++ more) = sink.take bytes ++ (sink.after bytes).take more := by
  cases h with
  | unlimited => rfl
  | bounded room =>
    rw [after_bounded, take_bounded, take_bounded, take_bounded, ByteArray.extract_append,
      Nat.zero_sub]

theorem after_append (h : Seamless sink) (bytes more : ByteArray) :
    sink.after (bytes ++ more) = (sink.after bytes).after more := by
  cases h with
  | unlimited => rfl
  | bounded room =>
    rw [after_bounded, after_bounded, after_bounded, ByteArray.size_append, Nat.sub_sub]

theorem take_empty (h : Seamless sink) : sink.take .empty = .empty := by
  cases h with
  | unlimited => rfl
  | bounded room => exact ByteArray.extract_eq_empty_iff.2 (Nat.min_le_right _ _)

theorem after_empty (h : Seamless sink) : sink.after .empty = sink := by
  cases h <;> rfl

end Sink.Seamless

theorem Output.afterEvent_of_ne (o : Output) {e : Event} (h : ∀ line, e ≠ .printed line) :
    o.afterEvent e = o := by
  cases e with
  | printed line => exact absurd rfl (h line)
  | _ => rfl

/-- An output after an event has taken the echo of the event, as far as its sink takes it. -/
theorem Output.afterEvent_eq {o : Output} (h : o.sink.Seamless) (e : Event) :
    o.afterEvent e = ⟨o.sink.after e.echo, o.written ++ o.sink.take e.echo⟩ := by
  by_cases hprinted : ∃ line, e = .printed line
  · obtain ⟨line, rfl⟩ := hprinted
    rfl
  · have hne : ∀ line, e ≠ .printed line := fun line he => hprinted ⟨line, he⟩
    rw [Event.echo_eq_empty hne, h.after_empty, h.take_empty, ByteArray.append_empty,
      Output.afterEvent_of_ne o hne]

/-- **Lines are written as if all at once.** -/
theorem Output.after_eq {o : Output} (h : o.sink.Seamless) (events : List Event) :
    o.after events = ⟨o.sink.after (echoes events), o.written ++ o.sink.take (echoes events)⟩ := by
  induction events generalizing o with
  | nil => rw [echoes, h.after_empty, h.take_empty, ByteArray.append_empty]; rfl
  | cons e events ih =>
    change (o.afterEvent e).after events = _
    rw [Output.afterEvent_eq h, ih (h.after e.echo), echoes, h.after_append, h.take_append,
      ByteArray.append_assoc]

/-! ## States -/

/-- Since `start` the events have happened, and they account for all that has been written. -/
structure State.Journaled (echo : Bool) (start : State) (events : List Event) (s : State) :
    Prop where
  journal : s.journal.toList = start.journal.toList ++ events
  output : s.output = if echo then start.output.after events else start.output

/-- The events account for all that has been bound as well. -/
structure State.Recorded (echo : Bool) (start : State) (events : List Event) (s : State) : Prop
    extends State.Journaled echo start events s where
  environment : s.environment = start.environment.extended (bindings events)

namespace State.Journaled

variable {echo : Bool} {start s t : State} {events more : List Event}

theorem refl (echo : Bool) (start : State) : Journaled echo start [] start where
  journal := (List.append_nil _).symm
  output := by cases echo <;> rfl

theorem trans (h : Journaled echo start events s) (h' : Journaled echo s more t) :
    Journaled echo start (events ++ more) t where
  journal := by rw [h'.journal, h.journal, List.append_assoc]
  output := by
    rw [h'.output, h.output]
    cases echo with
    | false => rfl
    | true => exact (Output.after_append _ _ _).symm

/-- The journal and the output of a state with one more event. -/
theorem extend (h : Journaled echo start events s) {e : Event} (journal : t.journal = s.journal.push e)
    (output : t.output = if echo then s.output.after [e] else s.output) :
    Journaled echo start (events ++ [e]) t :=
  h.trans ⟨by rw [journal, Array.toList_push], output⟩

/-- An event that is no line leaves the output as it is. -/
theorem quiet (h : Journaled echo start events s) {P : Value → Prop} {Q : Sexp → Prop}
    {e : Event} (he : Simulation.Quiet P Q e) (journal : t.journal = s.journal.push e)
    (output : t.output = s.output) : Journaled echo start (events ++ [e]) t := by
  have hquiet : s.output.after [e] = s.output := by
    cases he <;> rfl
  refine h.extend journal ?_
  rw [hquiet, ite_self, output]

end State.Journaled

namespace State.Recorded

variable {echo : Bool} {start s : State} {events : List Event}

theorem refl (echo : Bool) (start : State) : Recorded echo start [] start :=
  ⟨.refl echo start, rfl⟩

/-- The environment and the output of a state with one more event. -/
theorem extend (h : Recorded echo start events s) {e : Event} {t : State}
    (journal : t.journal = s.journal.push e)
    (environment : t.environment = s.environment.extended (bindings [e]))
    (output : t.output = if echo then s.output.after [e] else s.output) :
    Recorded echo start (events ++ [e]) t := by
  refine ⟨h.toJournaled.extend journal output, ?_⟩
  rw [environment, h.environment, bindings_append, Environment.extended_append]

/-- An event that neither binds nor prints needs no more than to be reported. -/
theorem reported (h : Recorded echo start events s) {P : Value → Prop} {Q : Sexp → Prop}
    {e : Event} (he : Simulation.Quiet P Q e) :
    Recorded echo start (events ++ [e]) (s.reported e) := by
  have hquiet : bindings [e] = [] := by
    cases he <;> rfl
  refine ⟨h.toJournaled.quiet he rfl rfl, ?_⟩
  rw [bindings_append, hquiet, List.append_nil]
  exact h.environment

theorem bound (h : Recorded echo start events s) (name : String) (value : Value) :
    Recorded echo start (events ++ [.bound name value])
      { s.reported (.bound name value) with
        environment := s.environment.define name value } := by
  refine h.extend rfl rfl ?_
  cases echo <;> rfl

theorem withDeclarations (h : Recorded echo start events s) (count : Nat) :
    Recorded echo start events { s with declarations := count } :=
  ⟨⟨h.journal, h.output⟩, h.environment⟩

end State.Recorded

/-! ## Runs -/

namespace Simulation

variable {start : State}

/-- Runs in the same state, which has a record since `start`. -/
def recorded (echo : Bool) (start : State) : Simulation :=
  same (fun s t => s = t ∧ ∃ events, State.Recorded echo start events s) (fun _ => True)
    (fun _ => True) (fun e f => e = f) fun _ _ _ => False

theorem recorded_steps (echo : Bool) :
    StepLaws (fun s t => s = t ∧ ∃ events, State.Recorded echo start events s) (fun _ => True)
      (fun _ => True) where
  atom _ _ := True.intro
  found := by
    rintro s _ n ⟨rfl, -⟩ -
    exact ⟨rfl, fun _ _ => True.intro⟩
  reported := by
    rintro s _ e ⟨rfl, events, hs⟩ he
    exact ⟨rfl, _, hs.reported he⟩
  bound := by
    rintro s _ n v ⟨rfl, events, hs⟩ - -
    exact ⟨rfl, _, hs.bound n v⟩
  declarations := by
    rintro s _ ⟨rfl, -⟩
    rfl
  procedure _ _ _ _ := True.intro
  counted := by
    rintro s _ ⟨rfl, events, hs⟩
    exact ⟨rfl, _, hs.withDeclarations _⟩

theorem printLine_recorded (config : Config) (line : String) :
    (recorded config.echo start).Runs (fun _ _ => True) (Run.printLine config line)
      (Run.printLine config line) := by
  rintro s _ ⟨rfl, events, hs⟩
  rw [Run.printLine_apply]
  cases hecho : config.echo with
  | false =>
    rw [hecho] at hs
    have hquiet := hs.extend (t := s.reported (.printed line)) rfl rfl rfl
    exact .returned True.intro ⟨rfl, _, hquiet⟩
  | true =>
    rw [hecho] at hs
    have hwritten := hs.extend (e := .printed line)
      (t := { s.reported (.printed line) with output := s.output.writeLine line }) rfl rfl rfl
    rw [if_pos rfl]
    cases s.output.fault? line with
    | none => exact .returned True.intro ⟨rfl, _, hwritten⟩
    | some fault => exact .failed rfl ⟨rfl, _, hwritten⟩

/-- Every step of a run is on record. -/
theorem recorded_laws (config : Config) (start : State) :
    SameLaws (fun s t => s = t ∧ ∃ events, State.Recorded config.echo start events s)
      (fun _ => True) (fun _ => True) (fun e f => e = f) (fun _ _ _ => False) config config :=
  (recorded_steps _).sameLaws (fun h _ => h) (fun _ => rfl) (fun _ => rfl)
    (fun _ => (recorded_steps _).evaluateAtom (fun _ => rfl) True.intro)
    (printLine_recorded config)

/-- What a computation in one state does is on record. -/
theorem exists_recorded {echo : Bool} {V : α → α → Prop} {x : Run α} {s : State}
    (h : (recorded echo s).Runs V x x) :
    ∃ events, State.Recorded echo s events (endState (x s)) := by
  have key := h s s ⟨rfl, [], .refl echo s⟩
  generalize x s = r at key ⊢
  cases key with
  | returned _ hs => exact hs.2
  | failed _ hs => exact hs.2
  | cut h => exact h.elim

end Simulation

/-! ## Evaluations -/

section Evaluations

variable (config : Config) (s : State)

theorem evaluate_runs_recorded (budget : Nat) (tree : Sexp) :
    (Simulation.recorded config.echo s).Runs (fun v w => True ∧ v = w)
      (evaluate config budget tree) (evaluate config budget tree) :=
  (Simulation.recorded_laws config s).lawful.evaluate 0 (fun _ _ _ => .throw rfl) budget
    ⟨True.intro, rfl⟩

theorem evaluate_recorded (budget : Nat) (tree : Sexp) :
    ∃ events, State.Recorded config.echo s events (endState (evaluate config budget tree s)) :=
  Simulation.exists_recorded (evaluate_runs_recorded config s budget tree)

theorem call_recorded (budget : Nat) (f : Procedure) (args : List Value) :
    ∃ events, State.Recorded config.echo s events
      (endState (call config (evaluate config budget) f args s)) := by
  refine Simulation.exists_recorded (V := fun v w => True ∧ v = w) ?_
  refine (Simulation.recorded_laws config s).lawful.call (fun t u htu => ?_)
    (evaluate_grows config budget) ⟨True.intro, rfl⟩
    (Simulation.forall₂_and_eq_iff.2 ⟨fun _ _ => True.intro, rfl⟩)
  obtain ⟨-, rfl⟩ := htu
  exact evaluate_runs_recorded config s budget t

/-- **The journal is a full record** of what a program binds and writes, whether it succeeds or
fails. -/
theorem runProgram_recorded (tree : Sexp) :
    ∃ events, State.Recorded config.echo s events (endState (runProgram config tree s)) := by
  exact Simulation.exists_recorded ((Simulation.recorded_laws config s).runProgram
    (Simulation.recorded_steps config.echo) rfl rfl True.intro)

end Evaluations

end MiniLisp
