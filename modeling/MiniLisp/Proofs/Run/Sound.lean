import MiniLisp.Proofs.Run.Lockstep
import MiniLisp.Proofs.Value.Sound

/-!
# Sound sessions

Whatever programs a session evaluates, successfully or not, its state stays sound: what names are
bound to is sound, and so is every value and every tree that its journal speaks of, which has the
arguments of each call and the value of each binding (`State.Sound`). The invariant is that of
`Value.Sound` and `Sexp.Closed`, kept by every step of a run in one state.

That every tree which is evaluated is closed cannot be seen in a journal. `evaluateWatched` hands
each tree with a placeholder to an alarm instead of evaluating it; in a sound session it makes no
difference what the alarm does.
-/

namespace MiniLisp

/-! ## Sound states -/

/-- An event that speaks of sound values and closed trees only. -/
def Event.Sound : Event → Prop
  | .parsed tree => tree.Closed
  | .entered _ => True
  | .assigned _ _ => True
  | .declared name parameters template =>
    ∀ id, Value.Sound (.function (.declared id name parameters template))
  | .bound _ value => value.Sound
  | .called _ args => ∀ v ∈ args, v.Sound
  | .printed line => ∃ args, (∀ v ∈ args, Value.Sound v) ∧ printedLine args = .ok line

theorem Event.Sound.of_quiet {e : Event} (h : Simulation.Quiet Value.Sound Sexp.Closed e) :
    e.Sound := by
  cases h with
  | parsed h => exact h
  | entered form => exact True.intro
  | assigned form name => exact True.intro
  | declared name parameters h => exact fun id => h.declared id name parameters
  | called hf hargs => exact hargs

/-- A state in which names are bound to sound values and only sound events have happened. -/
structure State.Sound (s : State) : Prop where
  environment : ∀ name v, s.environment.get? name = some v → v.Sound
  journal : ∀ e ∈ s.journal.toList, e.Sound

namespace State.Sound

variable {s : State}

theorem reported (h : s.Sound) {e : Event} (he : e.Sound) : (s.reported e).Sound where
  environment := h.environment
  journal := by
    intro f hf
    rw [State.reported, Array.toList_push, List.mem_append, List.mem_singleton] at hf
    rcases hf with hf | rfl
    · exact h.journal f hf
    · exact he

theorem define (h : s.Sound) (name : String) {value : Value} (hvalue : value.Sound) :
    State.Sound { s with environment := s.environment.define name value } where
  environment := Environment.forall_define h.environment name hvalue
  journal := h.journal

end State.Sound

/-! ## Runs that keep the state sound -/

namespace Simulation

/-- Runs in the same sound state, which stop for the same fault, if for any, and never for an
unfilled placeholder. -/
def sound : Simulation :=
  same (fun s t => s = t ∧ s.Sound) Value.Sound Sexp.Closed
    (fun e f => e = f ∧ ∀ i, e ≠ .misuse (.unfilled i)) fun _ _ _ => False

/-- The state of a run stays sound at every step that is no line. -/
theorem sound_steps : StepLaws (fun s t => s = t ∧ s.Sound) Value.Sound Sexp.Closed where
  atom h hv := h.atom hv
  found := by
    rintro s _ n ⟨rfl, hs⟩ -
    exact ⟨rfl, hs.environment n⟩
  reported := by
    rintro s _ e ⟨rfl, hs⟩ he
    exact ⟨rfl, hs.reported (.of_quiet he)⟩
  bound := by
    rintro s _ n v ⟨rfl, hs⟩ - hv
    have hreported := hs.reported (e := .bound n v) hv
    exact ⟨rfl, hreported.define n hv⟩
  declarations := by
    rintro s _ ⟨rfl, -⟩
    rfl
  procedure := by
    rintro s _ name body ⟨rfl, -⟩ - hbody parameters
    exact hbody.declared s.declarations name parameters
  counted := by
    rintro s _ ⟨rfl, hs⟩
    exact ⟨rfl, hs.environment, hs.journal⟩

theorem printLine_sound {config : Config} {args : List Value} {line : String}
    (hargs : ∀ v ∈ args, v.Sound) (hline : printedLine args = .ok line) :
    sound.Runs (fun _ _ => True) (Run.printLine config line) (Run.printLine config line) := by
  have hreported : ∀ {s : State}, s.Sound → (s.reported (.printed line)).Sound :=
    fun hs => hs.reported ⟨args, hargs, hline⟩
  refine .printLine (fun h => ?_) (fun h => ?_) (fun h => ?_) fun _ => ⟨rfl, fun i h => by cases h⟩
  · rw [h.1]
  · exact ⟨h.1 ▸ rfl, hreported h.2⟩
  · exact ⟨h.1 ▸ rfl, h.2.environment, (hreported h.2).journal⟩

/-- Every step of a run keeps a sound state sound. -/
theorem sound_laws (config : Config) :
    SameLaws (fun s t => s = t ∧ s.Sound) Value.Sound Sexp.Closed
      (fun e f => e = f ∧ ∀ i, e ≠ .misuse (.unfilled i)) (fun _ _ _ => False) config config where
  cut_continues h _ := h
  hereditary := Value.Sound.hereditary
  misuse hm := ⟨rfl, fun i h => hm.ne_unfilled i (Fault.misuse.inj h)⟩
  notCallable _ := ⟨rfl, fun i h => by cases h⟩
  unfilled h := h.not_placeholder.elim
  items h := h.items
  filled h hargs hlength := h.filled hargs hlength
  atom h := sound_steps.evaluateAtom (fun _ => ⟨rfl, fun i h => by cases h⟩) h
  entered form := sound_steps.report (.entered form)
  called hf hargs := sound_steps.report (.called hf hargs)
  printLine hargs hline := printLine_sound hargs hline
  assign hname hv := sound_steps.assign hname hv
  declare _ hname hbody := sound_steps.declare hname hbody

end Simulation

/-! ## Watching for placeholders -/

/-- Evaluation that hands a tree with placeholders to `alarm`. -/
def evaluateWatched (config : Config) (alarm : Sexp → Run Value) :
    (budget : Nat) → Sexp → Run Value
  | 0, t => if t.placeholders = [] then throw (.overflow config.maxDepth) else alarm t
  | budget + 1, t =>
    if t.placeholders = [] then
      match t with
      | .atom v => evaluateAtom v
      | .expression items =>
        evaluateExpression config (evaluateWatched config alarm budget) items
      | .placeholder index => throw (.misuse (.unfilled index))
    else alarm t

/-- A closed tree is evaluated in a sound state without an alarm. -/
theorem Simulation.evaluateWatched_sound (config : Config) (alarm : Sexp → Run Value)
    (budget : Nat) {t : Sexp} (h : t.Closed) :
    sound.Runs (fun v w => v.Sound ∧ v = w) (evaluateWatched config alarm budget t)
      (evaluate config budget t) := by
  induction budget generalizing t with
  | zero =>
    rw [evaluateWatched, if_pos h.placeholders, evaluate]
    exact .throw ⟨rfl, fun i h => by cases h⟩
  | succ budget ih =>
    cases t with
    | atom v =>
      rw [evaluateWatched, if_pos h.placeholders]
      exact (sound_laws config).atom h
    | expression items =>
      rw [evaluateWatched, if_pos h.placeholders]
      have hstep := (sound_laws config).inStep h.items
      refine (sound_laws config).lawful.evaluateExpression (fun t u htu => ?_)
        (evaluate_grows config budget) hstep
      obtain ⟨ht, rfl⟩ := htu
      exact ih ht
    | placeholder i => exact h.not_placeholder.elim

/-! ## Sessions -/

namespace Session

/-- A session that is reached by evaluating texts and by resets. -/
inductive Reachable : Session → Prop
  | start (config : Config) (sink : Sink) : Reachable (start config sink)
  | evaluateText {s : Session} (h : Reachable s) (source : String) :
    Reachable (s.evaluateText source).2
  | reset {s : Session} (h : Reachable s) : Reachable s.reset

/-- Reads a program text and evaluates it, watching for placeholders. -/
def evaluateTextWatched (s : Session) (alarm : Sexp → Run Value) (source : String) :
    Except Fault Value × Session :=
  match parse source with
  | .error fault => (.error (.unreadable fault), s)
  | .ok tree => s.run do
    Run.report (.parsed tree)
    evaluateWatched s.config alarm s.config.maxDepth tree

theorem run_sound {s : Session} (hs : s.state.Sound) {x y : Run Value}
    (h : Simulation.sound.Runs (fun v w => v.Sound ∧ v = w) x y) :
    s.run x = s.run y ∧ (∀ v, (s.run y).1 = .ok v → v.Sound) ∧
      (∀ i, (s.run y).1 ≠ .error (.misuse (.unfilled i))) ∧ (s.run y).2.state.Sound := by
  obtain ⟨hanswer, hvalue, hfault, hstate, hsound⟩ :=
    h.answers id id (s := s) (t := s) ⟨rfl, hs⟩
  have hsession : (s.run x).2 = (s.run y).2 := by
    change Session.mk (s.run x).2.config (s.run x).2.state =
      ⟨(s.run y).2.config, (s.run y).2.state⟩
    rw [config_run, config_run, hstate]
  have hrun : s.run x = s.run y := Prod.ext hanswer.symm hsession
  rw [hrun] at hvalue hfault hsound
  exact ⟨hrun, hvalue, fun i hi => hfault _ hi i rfl, hsound⟩

theorem evaluateText_sound {s : Session} (hs : s.state.Sound) (alarm : Sexp → Run Value)
    (source : String) :
    s.evaluateTextWatched alarm source = s.evaluateText source ∧
      (∀ v, (s.evaluateText source).1 = .ok v → v.Sound) ∧
      (∀ i, (s.evaluateText source).1 ≠ .error (.misuse (.unfilled i))) ∧
      (s.evaluateText source).2.state.Sound := by
  unfold evaluateTextWatched evaluateText
  cases hparse : parse source with
  | error fault =>
    exact ⟨rfl, fun v hv => (by cases hv), fun i hi => (by cases hi), hs⟩
  | ok tree =>
    have hclosed := closed_of_parse hparse
    refine run_sound hs ?_
    refine (Simulation.sound_steps.report (.parsed hclosed)).andThen (fun h _ => h)
      (fun _ _ _ => ?_) fun _ => evaluate_grows _ _ tree
    exact Simulation.evaluateWatched_sound s.config alarm s.config.maxDepth hclosed

theorem Reachable.state_sound {s : Session} (h : s.Reachable) : s.state.Sound := by
  induction h with
  | start config sink =>
    exact ⟨Environment.forall_fresh .number .primitive, fun e he => by cases he⟩
  | @evaluateText s h source ih =>
    exact (evaluateText_sound ih (fun _ => throw (.undefined "")) source).2.2.2
  | reset h ih => exact ⟨Environment.forall_fresh .number .primitive, ih.journal⟩

/-- **Sessions are sound.** In every session that can be reached names are bound to sound values
and the journal has sound events only; and whatever text it evaluates next gives a sound value, if
it gives one, never stops at an unfilled placeholder, and never evaluates a tree that has one. -/
theorem Reachable.sound {s : Session} (h : s.Reachable) :
    (∀ name v, s.environment.get? name = some v → v.Sound) ∧
      (∀ e ∈ s.state.journal.toList, e.Sound) ∧
      ∀ source, (∀ v, (s.evaluateText source).1 = .ok v → v.Sound) ∧
        (∀ i, (s.evaluateText source).1 ≠ .error (.misuse (.unfilled i))) ∧
        ∀ alarm, s.evaluateTextWatched alarm source = s.evaluateText source := by
  have hs := h.state_sound
  refine ⟨hs.environment, hs.journal, fun source => ?_⟩
  have hnext := fun alarm => evaluateText_sound hs alarm source
  obtain ⟨-, hvalue, hunfilled, -⟩ := hnext fun _ => throw (.undefined "")
  exact ⟨hvalue, hunfilled, fun alarm => (hnext alarm).1⟩

theorem Reachable.sound_declaration :
    let s := ((Session.start .standard .unlimited).evaluateText "(function twice (x) (list x x))").2
    let f := Procedure.declared 0 "twice" ["x"]
      (.expression [.atom (.symbol "list"), .placeholder 0, .placeholder 0])
    s.environment.get? "twice" = some (.function f) ∧ Value.Sound (.function f) ∧
      ∀ alarm, s.evaluateTextWatched alarm "(twice 'a')" = s.evaluateText "(twice 'a')" := by
  intro s f
  have hget : s.environment.get? "twice" = some (.function f) := by
    have hparse : parse "(function twice (x) (list x x))" = .ok (.expression
        [.atom (.symbol "function"), .atom (.symbol "twice"), .expression [.atom (.symbol "x")],
          .expression [.atom (.symbol "list"), .atom (.symbol "x"), .atom (.symbol "x")]]) := rfl
    have hs : s.environment = Environment.fresh.define "twice" (.function f) := by
      change (Session.evaluateText _ _).2.environment = _
      rw [Session.evaluateText, hparse]
      rfl
    rw [hs, Environment.get?_define, if_pos rfl]
  have hreach : s.Reachable := .evaluateText (.start _ _) _
  obtain ⟨hsound, -, hnext⟩ := Reachable.sound hreach
  exact ⟨hget, hsound _ _ hget, (hnext _).2.2⟩

end Session

end MiniLisp
