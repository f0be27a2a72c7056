import MiniLisp.Proofs.Run.Sound
import MiniLisp.Proofs.Value.Procedures

/-!
# Runs are local

A program gets at the bindings of the names that it spells, and of those that are spelled in the
templates of procedures it can reach, and at no others. A name that is spelled nowhere may be bound
to anything, or unbound: the run is the same, and the binding is the same afterwards
(`Session.Reachable.evaluateText_local`).

Two runs are followed whose environments differ at one name (`State.Apart`). The values and trees
that they come across do not spell the name. There is one scope, and calls substitute values into
bodies, so it matters that no value is a symbol by itself: a symbol that was handed over as an
argument could become the name. Sound values have none outside of templates.
-/

namespace MiniLisp

/-! ## Values and trees without a name -/

/-- A sound value in which no template spells a name. -/
def Value.Avoids (name : String) (v : Value) : Prop :=
  v.Sound ∧ ∀ f ∈ v.procedures, ¬ f.Mentions name

/-- A closed tree that does not spell a name, neither itself nor in templates. -/
structure Sexp.Avoids (name : String) (t : Sexp) : Prop where
  closed : t.Closed
  atoms : .symbol name ∉ t.atoms
  procedures : ∀ f ∈ t.procedures, ¬ f.Mentions name

theorem Value.hereditary_avoids (name : String) : Value.Hereditary (Value.Avoids name) :=
  Value.Sound.hereditary.and (Value.hereditary_procedures fun f => ¬ f.Mentions name)

namespace Sexp.Avoids

variable {name : String}

theorem items {items : List Sexp} (h : Avoids name (.expression items)) :
    ∀ t ∈ items, t.Avoids name := by
  intro t ht
  refine ⟨h.closed.items t ht, fun hmem => ?_, fun f hf => ?_⟩
  · exact h.atoms (Sexp.mem_atomsAll.2 ⟨t, ht, hmem⟩)
  · exact h.procedures f (Sexp.mem_procedures_expression.2 ⟨t, ht, hf⟩)

theorem value {v : Value} (h : Avoids name (.atom v)) (hv : ∀ n, v ≠ .symbol n) :
    v.Avoids name :=
  ⟨h.closed.atom hv, h.procedures⟩

theorem ne {n : String} (h : Avoids name (.atom (.symbol n))) : n ≠ name := by
  rintro rfl
  exact h.atoms (List.mem_singleton_self _)

/-- A body without a name makes a procedure without it. -/
theorem declared {body : Sexp} (h : body.Avoids name) (id : Nat) (n : String)
    (parameters : List String) :
    Value.Avoids name (.function (.declared id n parameters (body.abstracted parameters))) := by
  refine ⟨h.closed.declared id n parameters, fun f hf => ?_⟩
  rcases List.mem_cons.1 hf with rfl | hf
  · exact fun hmem => h.atoms ((Sexp.mem_atoms_abstracted parameters body).1 hmem).1
  · exact h.procedures f (Sexp.mem_procedures_of_abstracted hf)

end Sexp.Avoids

/-- A call with values without a name evaluates a tree without it. -/
theorem Value.Avoids.filled {name n : String} {id : Nat} {parameters : List String}
    {template : Sexp} {args : List Value}
    (h : Value.Avoids name (.function (.declared id n parameters template)))
    (hargs : ∀ v ∈ args, v.Avoids name) (hlength : args.length = parameters.length) :
    (template.filled args).Avoids name := by
  refine ⟨h.1.filled (fun v hv => (hargs v hv).1) hlength, fun hmem => ?_, fun f hf => ?_⟩
  · rcases Sexp.mem_atoms_filled args template hmem with hmem | hmem
    · exact h.2 _ List.mem_cons_self hmem
    · -- a sound value is no symbol
      cases (hargs _ hmem).1
  · rcases Sexp.mem_procedures_of_filled hf with hf | ⟨v, hv, hf⟩
    · exact h.2 f (List.mem_cons_of_mem _ hf)
    · exact (hargs v hv).2 f hf

/-! ## States that differ at one name -/

/-- Two states that differ at most in what a name is bound to: in the second one it is bound to
`value`, in the first one to what `before` says. No value of another name spells it. -/
structure State.Apart (name : String) (before : Option Value) (value : Value) (s t : State) :
    Prop where
  elsewhere : ∀ n, n ≠ name → t.environment.get? n = s.environment.get? n
  first : s.environment.get? name = before
  second : t.environment.get? name = some value
  journal : t.journal = s.journal
  output : t.output = s.output
  declarations : t.declarations = s.declarations
  avoids : ∀ n v, n ≠ name → s.environment.get? n = some v → v.Avoids name

namespace State.Apart

variable {name : String} {before : Option Value} {value : Value} {s t : State}

theorem reported (h : Apart name before value s t) (e : Event) :
    Apart name before value (s.reported e) (t.reported e) :=
  { h with journal := congrArg (·.push e) h.journal }

theorem withOutput (h : Apart name before value s t) (o : Output) :
    Apart name before value { s with output := o } { t with output := o } :=
  { h with output := rfl }

theorem withDeclarations (h : Apart name before value s t) (count : Nat) :
    Apart name before value { s with declarations := count } { t with declarations := count } :=
  { h with declarations := rfl }

theorem define (h : Apart name before value s t) {n : String} (hn : n ≠ name) {v : Value}
    (hv : v.Avoids name) :
    Apart name before value { s with environment := s.environment.define n v }
      { t with environment := t.environment.define n v } where
  elsewhere m hm := by rw [Environment.get?_define, Environment.get?_define, h.elsewhere m hm]
  first := by rw [Environment.get?_define, if_neg hn, h.first]
  second := by rw [Environment.get?_define, if_neg hn, h.second]
  journal := h.journal
  output := h.output
  declarations := h.declarations
  avoids m w hm hw := by
    rw [Environment.get?_define] at hw
    split at hw
    · obtain rfl := Option.some.inj hw
      exact hv
    · exact h.avoids m w hm hw

end State.Apart

/-! ## Runs that do not spell the name -/

namespace Simulation

section Apart

variable (name : String) (before : Option Value) (value : Value)

/-- Runs on the same values and trees, which do not spell a name, in states that differ at it. -/
def apart : Simulation :=
  same (State.Apart name before value) (Value.Avoids name) (Sexp.Avoids name) (fun e f => e = f)
    fun _ _ _ => False

variable {name before value}

theorem apart_steps :
    StepLaws (State.Apart name before value) (Value.Avoids name) (Sexp.Avoids name) where
  atom h hv := h.value hv
  found h hn := ⟨h.elsewhere _ hn.ne, fun v hget => h.avoids _ v hn.ne hget⟩
  reported h _ := h.reported _
  bound h hn hv := (h.reported _).define hn.ne hv
  declarations h := h.declarations
  procedure _ _ hbody parameters := hbody.declared _ _ parameters
  counted h := h.withDeclarations _

theorem printLine_apart (config : Config) (line : String) :
    (apart name before value).Runs (fun _ _ => True) (Run.printLine config line)
      (Run.printLine config line) := by
  refine .printLine (fun h => ?_) (fun h => h.reported _) (fun h => ?_) fun _ => rfl
  · rw [h.output]
  · rw [h.output]
    exact (h.reported _).withOutput _

theorem apart_laws (config : Config) :
    SameLaws (State.Apart name before value) (Value.Avoids name) (Sexp.Avoids name)
      (fun e f => e = f) (fun _ _ _ => False) config config where
  cut_continues h _ := h
  hereditary := Value.hereditary_avoids name
  misuse _ := rfl
  notCallable _ := rfl
  unfilled _ := rfl
  items h := h.items
  filled h hargs hlength := h.filled hargs hlength
  atom h := apart_steps.evaluateAtom (fun _ => rfl) h
  entered form := apart_steps.report (.entered form)
  called hf hargs := apart_steps.report (.called hf hargs)
  printLine _ _ := printLine_apart config _
  assign hname hv := apart_steps.assign hname hv
  declare _ hname hbody := apart_steps.declare hname hbody

theorem runProgram_apart (config : Config) {tree : Sexp} (h : tree.Avoids name) :
    (apart name before value).Runs (fun v w => v.Avoids name ∧ v = w) (runProgram config tree)
      (runProgram config tree) :=
  (apart_laws config).runProgram apart_steps rfl rfl h

end Apart

end Simulation

/-! ## Sessions -/

namespace Session

/-- A session in which a name has been bound besides. -/
def withBinding (s : Session) (name : String) (value : Value) : Session :=
  { s with state := { s.state with environment := s.environment.define name value } }

theorem apart_withBinding {s : Session} {name : String}
    (h : ∀ n v, n ≠ name → s.environment.get? n = some v → v.Avoids name) (value : Value) :
    State.Apart name (s.environment.get? name) value s.state (s.withBinding name value).state where
  elsewhere n hn := by
    rw [withBinding, Environment.get?_define, if_neg (Ne.symm hn)]
    rfl
  first := rfl
  second := by rw [withBinding, Environment.get?_define, if_pos rfl]
  journal := rfl
  output := rfl
  declarations := rfl
  avoids := h

/-- What is run in two sessions that differ at a name has the same result and leaves them
differing at the name. -/
theorem run_apart {s t : Session} {name : String} {before : Option Value} {value : Value}
    (h : State.Apart name before value s.state t.state) {x : Run Value}
    (hx : (Simulation.apart name before value).Runs (fun v w => v.Avoids name ∧ v = w) x x) :
    (t.run x).1 = (s.run x).1 ∧
      State.Apart name before value (s.run x).2.state (t.run x).2.state := by
  obtain ⟨hanswer, -, -, hstate⟩ :=
    hx.answers (F := fun _ => True) (fun hef => ⟨hef, True.intro⟩) id h
  exact ⟨hanswer, hstate⟩

/-- **Runs are local to the names they mention.** A name that neither a program nor the template of
a procedure among the values of the other names spells may be bound to anything: the program has the
same result, output and journal, binds the other names alike and leaves the name as it was. -/
theorem Reachable.evaluateText_local {s : Session} (h : s.Reachable) {source : String}
    {tree : Sexp} (hparse : parse source = .ok tree) {name : String}
    (htree : .symbol name ∉ tree.atoms)
    (hbound : ∀ n v, n ≠ name → s.environment.get? n = some v →
      ∀ f ∈ v.procedures, ¬ f.Mentions name) (value : Value) :
    let plain := s.evaluateText source
    let other := (s.withBinding name value).evaluateText source
    other.1 = plain.1 ∧ other.2.state.output = plain.2.state.output ∧
      other.2.state.journal = plain.2.state.journal ∧
      (∀ n, n ≠ name → other.2.environment.get? n = plain.2.environment.get? n) ∧
      other.2.environment.get? name = some value ∧
      plain.2.environment.get? name = s.environment.get? name := by
  intro plain other
  have havoids : tree.Avoids name := by
    refine ⟨closed_of_parse hparse, htree, fun f hf => ?_⟩
    rw [procedures_of_parse hparse] at hf
    cases hf
  have hapart := apart_withBinding (fun n v hn hv =>
    ⟨h.state_sound.environment n v hv, hbound n v hn hv⟩) value
  obtain ⟨hresult, hstates⟩ := run_apart hapart (Simulation.runProgram_apart s.config havoids)
  have hplain : plain = s.run (runProgram s.config tree) := evaluateText_of_parse hparse s
  have hother : other = (s.withBinding name value).run (runProgram s.config tree) :=
    evaluateText_of_parse hparse (s.withBinding name value)
  rw [hplain, hother]
  exact ⟨hresult, hstates.output, hstates.journal, hstates.elsewhere, hstates.second,
    hstates.first⟩

/-- The parameter of a procedure is no name that its template spells. -/
theorem Reachable.evaluateText_local_parameter :
    let s := ((Session.start .standard .unlimited).evaluateText "(function twice (x) (list x x))").2
    let plain := s.evaluateText "(twice 'a')"
    let other := (s.withBinding "x" (.symbol "x")).evaluateText "(twice 'a')"
    s.Reachable ∧ other.1 = plain.1 ∧ other.2.environment.get? "x" = some (.symbol "x") ∧
      plain.2.environment.get? "x" = s.environment.get? "x" := by
  intro s plain other
  have hreach : s.Reachable := .evaluateText (.start _ _) _
  have hparse : parse "(twice 'a')" =
      .ok (.expression [.atom (.symbol "twice"), .atom (.string "a")]) := rfl
  have hs : s.environment = Environment.fresh.define "twice" (.function (.declared 0 "twice" ["x"]
      (.expression [.atom (.symbol "list"), .placeholder 0, .placeholder 0]))) := by
    have hdeclaration : parse "(function twice (x) (list x x))" = .ok (.expression
        [.atom (.symbol "function"), .atom (.symbol "twice"), .expression [.atom (.symbol "x")],
          .expression [.atom (.symbol "list"), .atom (.symbol "x"), .atom (.symbol "x")]]) := rfl
    change (Session.evaluateText _ _).2.environment = _
    rw [evaluateText_of_parse hdeclaration]
    rfl
  have hbound : ∀ n v, s.environment.get? n = some v →
      ∀ f ∈ v.procedures, ¬ f.Mentions "x" := by
    rw [hs]
    refine Environment.forall_define (Environment.forall_fresh ?_ ?_) "twice" ?_
    · intro x f hf
      cases hf
    · intro p f hf
      obtain rfl := List.mem_singleton.1 hf
      exact id
    · intro f hf
      obtain rfl := List.mem_singleton.1 hf
      simp [Procedure.Mentions, Sexp.atoms, Sexp.atomsAll]
  have htree : .symbol "x" ∉
      (Sexp.expression [.atom (.symbol "twice"), .atom (.string "a")]).atoms := by
    simp [Sexp.atoms, Sexp.atomsAll]
  obtain ⟨hresult, -, -, -, hother, hplain⟩ := Reachable.evaluateText_local hreach hparse htree
    (fun n v _ => hbound n v) (.symbol "x")
  exact ⟨hreach, hresult, hother, hplain⟩

end Session

end MiniLisp
