import Mathlib.Data.Finset.Card
import MiniLisp.Proofs.Run.Record

/-!
# The journal of the environment

Nothing touches an environment without leaving a trace: the environment in which an evaluation ends
can be had from the one it started in and from the bindings in the journal, whether it has a value
or stops with a fault (`Session.evaluateTree_journal`). A name has the value of its last binding, a
name without a binding is as before, and no name is taken away, so that the environment grows by the
new names.

The journal also says what each binding is for. An assignment and a declaration are announced by an
event of their own, and the binding is the very next one (`Announced`). Between the two there is a
moment at which this does not hold, so it is kept by assignments and declarations as a whole and not
by every single event.
-/

namespace MiniLisp

/-! ## Replaying bindings -/

namespace Environment

variable {e : Environment} {name : String} {bs earlier later : List (String × Value)}

/-- The names that are bound. -/
def names (e : Environment) : Finset String :=
  (e.bindings.map Prod.fst).toFinset

theorem isSome_lookup_iff {l : List (String × Value)} :
    (lookup name l).isSome ↔ name ∈ l.map Prod.fst := by
  induction l with
  | nil => simp [lookup]
  | cons b l ih =>
    obtain ⟨n, v⟩ := b
    by_cases h : n = name
    · simp [lookup, h]
    · simp [lookup, h, Ne.symm h, ih]

theorem mem_names : name ∈ e.names ↔ e.contains name = true := by
  rw [names, List.mem_toFinset, contains, get?, isSome_lookup_iff]

theorem card_names (e : Environment) : e.names.card = e.size := by
  rw [names, List.toFinset_card_of_nodup e.nodup, List.length_map, size]

theorem names_define (e : Environment) (name : String) (value : Value) :
    (e.define name value).names = Insert.insert name e.names := by
  ext n
  rw [names, List.mem_toFinset, define, mem_insert_names, Finset.mem_insert, names,
    List.mem_toFinset]

theorem names_extended (e : Environment) (bs : List (String × Value)) :
    (e.extended bs).names = e.names ∪ (bs.map Prod.fst).toFinset := by
  induction bs generalizing e with
  | nil => exact (Finset.union_empty _).symm
  | cons b bs ih =>
    change ((e.define b.1 b.2).extended bs).names = _
    rw [ih, names_define, List.map_cons, List.toFinset_cons, Finset.insert_union,
      Finset.union_insert]

/-- An environment grows by the names that are new. -/
theorem size_extended (e : Environment) (bs : List (String × Value)) :
    (e.extended bs).size = e.size + ((bs.map Prod.fst).toFinset \ e.names).card := by
  rw [← card_names, ← card_names, names_extended, Nat.add_comm, Finset.card_sdiff_add_card,
    Finset.union_comm]

/-- A name without a binding is as before. -/
theorem get?_extended_of_notMem (h : name ∉ bs.map Prod.fst) :
    (e.extended bs).get? name = e.get? name := by
  induction bs generalizing e with
  | nil => rfl
  | cons b bs ih =>
    obtain ⟨hb, hbs⟩ := not_or.1 (mt List.mem_cons.2 h)
    change ((e.define b.1 b.2).extended bs).get? name = _
    rw [ih hbs, get?_define, if_neg (Ne.symm hb)]

/-- A name has the value of its last binding. -/
theorem get?_extended_of_last {value : Value} (h : name ∉ later.map Prod.fst) :
    (e.extended (earlier ++ (name, value) :: later)).get? name = some value := by
  rw [extended_append]
  change (((e.extended earlier).define name value).extended later).get? name = _
  rw [get?_extended_of_notMem h, get?_define, if_pos rfl]

end Environment

theorem mem_bindings {events : List Event} {name : String} {value : Value} :
    (name, value) ∈ bindings events ↔ .bound name value ∈ events := by
  rw [bindings, List.mem_filterMap]
  constructor
  · rintro ⟨e, he, hbinding⟩
    cases e with
    | bound n v =>
      cases hbinding
      exact he
    | _ => cases hbinding
  · exact fun h => ⟨_, h, rfl⟩

/-- A name that no event binds has no binding. -/
theorem notMem_names_bindings {events : List Event} {name : String}
    (h : ∀ value, .bound name value ∉ events) : name ∉ (bindings events).map Prod.fst := by
  rw [List.mem_map]
  rintro ⟨⟨n, value⟩, hmem, rfl⟩
  exact h value (mem_bindings.1 hmem)

/-! ## Announcements -/

/-- The first event announces the second one. -/
inductive Event.Announces : Event → Event → Prop
  | assigned (form : Form) (name : String) (value : Value) :
    Announces (.assigned form name) (.bound name value)
  | declared (id : Nat) (name : String) (parameters : List String) (template : Sexp) :
    Announces (.declared name parameters template)
      (.bound name (.function (.declared id name parameters template)))

/-- An event that neither announces another one nor is one that could be announced. -/
def Event.Aside (e : Event) : Prop :=
  ∀ f, ¬ e.Announces f ∧ ¬ f.Announces e

/-- Events among which each announcement is directly followed by the binding that it announces, and
each binding directly preceded by its announcement. -/
inductive Announced : List Event → Prop
  | nil : Announced []
  | aside {e : Event} {events : List Event} (h : e.Aside) (rest : Announced events) :
    Announced (e :: events)
  | pair {e f : Event} {events : List Event} (h : e.Announces f) (rest : Announced events) :
    Announced (e :: f :: events)

/-- What is announced does not itself announce anything. -/
theorem Event.Announces.last {e f g : Event} (h : e.Announces f) : ¬ f.Announces g := by
  cases h <;> exact nofun

namespace Announced

variable {events more earlier later : List Event} {e f : Event}

theorem append (h : Announced events) (h' : Announced more) : Announced (events ++ more) := by
  induction h with
  | nil => exact h'
  | aside he _ ih => exact .aside he ih
  | pair hef _ ih => exact .pair hef ih

/-- The event after an announcement is what it announces. -/
theorem next (h : Announced events) (hsplit : events = earlier ++ e :: later)
    (he : e.Announces f) : ∃ g rest, later = g :: rest ∧ e.Announces g := by
  induction h generalizing earlier with
  | nil => cases List.append_eq_nil_iff.1 hsplit.symm |>.2
  | aside haside _ ih =>
    cases earlier with
    | nil =>
      cases hsplit
      exact absurd he (haside f).1
    | cons _ earlier =>
      cases hsplit
      exact ih rfl
  | @pair d g _ hdg _ ih =>
    match earlier with
    | [] =>
      cases hsplit
      exact ⟨g, _, rfl, hdg⟩
    | [_] =>
      cases hsplit
      exact absurd he hdg.last
    | _ :: _ :: earlier =>
      cases hsplit
      exact ih rfl

/-- The event before one that could be announced has announced it. -/
theorem previous (h : Announced events) (hsplit : events = earlier ++ f :: later)
    (hf : e.Announces f) : ∃ before d, earlier = before ++ [d] ∧ d.Announces f := by
  induction h generalizing earlier with
  | nil => cases List.append_eq_nil_iff.1 hsplit.symm |>.2
  | @aside c _ haside _ ih =>
    cases earlier with
    | nil =>
      cases hsplit
      exact absurd hf (haside e).2
    | cons _ earlier =>
      cases hsplit
      obtain ⟨before, d, rfl, hd⟩ := ih rfl
      exact ⟨c :: before, d, rfl, hd⟩
  | @pair c g _ hcg _ ih =>
    match earlier with
    | [] =>
      cases hsplit
      exact absurd hcg hf.last
    | [_] =>
      cases hsplit
      exact ⟨[], c, rfl, hcg⟩
    | _ :: _ :: earlier =>
      cases hsplit
      obtain ⟨before, d, rfl, hd⟩ := ih rfl
      exact ⟨c :: g :: before, d, rfl, hd⟩

end Announced

/-! ## Runs -/

/-- The events since `start` have been announced. -/
def State.Announced (start s : State) : Prop :=
  ∃ events, s.journal.toList = start.journal.toList ++ events ∧ MiniLisp.Announced events

/-- A state with some more events, which are announced among themselves. -/
theorem State.Announced.extend {start s t : State} (h : start.Announced s) {more : List Event}
    (hmore : MiniLisp.Announced more) (hjournal : t.journal.toList = s.journal.toList ++ more) :
    start.Announced t := by
  obtain ⟨events, hs, hevents⟩ := h
  exact ⟨events ++ more, by rw [hjournal, hs, List.append_assoc], hevents.append hmore⟩

theorem State.Announced.reported {start s : State} (h : start.Announced s) {e : Event}
    (he : e.Aside) : start.Announced (s.reported e) :=
  h.extend (.aside he .nil) Array.toList_push

namespace Simulation

variable {start : State}

/-- Runs in the same state, since `start` with announcements. -/
def announced (start : State) : Simulation :=
  same (fun s t => s = t ∧ start.Announced s) (fun _ => True) (fun _ => True) (fun e f => e = f)
    fun _ _ _ => False

theorem report_announced {e : Event} (he : e.Aside) :
    (announced start).Runs (fun _ _ => True) (Run.report e) (Run.report e) := by
  rintro s _ ⟨rfl, hs⟩
  exact .returned True.intro ⟨rfl, hs.reported he⟩

theorem evaluateAtom_announced (v : Value) :
    (announced start).Runs (fun v w => True ∧ v = w) (evaluateAtom v) (evaluateAtom v) := by
  refine .evaluateAtom (fun _ => True.intro) (fun _ hst => ?_) fun _ _ _ => .inl rfl
  exact ⟨by rw [hst.1], fun _ _ => True.intro⟩

theorem printLine_announced (config : Config) (line : String) :
    (announced start).Runs (fun _ _ => True) (Run.printLine config line)
      (Run.printLine config line) := by
  have haside : (Event.printed line).Aside := fun f => ⟨nofun, nofun⟩
  refine .printLine (fun h => by rw [h.1]) (fun h => ?_) (fun h => ?_) fun _ => rfl
  · exact ⟨by rw [h.1], h.2.reported haside⟩
  · exact ⟨by rw [h.1], h.2.extend (.aside haside .nil) Array.toList_push⟩

theorem assign_announced (form : Form) (name : String) (value : Value) :
    (announced start).Runs (fun _ _ => True) (assignAs form name value)
      (assignAs form name value) := by
  rintro s _ ⟨rfl, hs⟩
  rw [assignAs_apply]
  refine .returned True.intro ⟨rfl, hs.extend (.pair (.assigned form name value) .nil) ?_⟩
  simp [State.reported]

theorem declare_announced (name : String) (parameters : List String) (template : Sexp) :
    (announced start).Runs (fun _ _ => True) (declareAs name parameters template)
      (declareAs name parameters template) := by
  rintro s _ ⟨rfl, hs⟩
  rw [declareAs_apply]
  have hpair := Event.Announces.declared s.declarations name parameters template
  refine .returned True.intro ⟨rfl, hs.extend (.pair hpair .nil) ?_⟩
  simp [State.reported]

/-- **Only assignments and declarations bind**, and they announce it. -/
theorem announced_laws (config : Config) (start : State) :
    SameLaws (fun s t => s = t ∧ start.Announced s) (fun _ => True) (fun _ => True)
      (fun e f => e = f) (fun _ _ _ => False) config config where
  cut_continues h _ := h
  hereditary := .trivial
  misuse _ := rfl
  notCallable _ := rfl
  unfilled _ := rfl
  items _ _ _ := True.intro
  filled _ _ _ := True.intro
  atom _ := evaluateAtom_announced _
  entered _ := report_announced fun _ => ⟨nofun, nofun⟩
  called _ _ := report_announced fun _ => ⟨nofun, nofun⟩
  printLine _ _ := printLine_announced config _
  assign _ _ := assign_announced _ _ _
  declare _ _ _ := declare_announced _ _ _

end Simulation

/-- What has happened since a state that an evaluation starts in has been announced. -/
theorem evaluate_announced (config : Config) (budget : Nat) (tree : Sexp) (s : State) :
    s.Announced (endState (evaluate config budget tree s)) := by
  have hruns := (Simulation.announced_laws config s).lawful.evaluate 0 (fun _ _ _ => .throw rfl)
    budget (t := tree) (u := tree) ⟨True.intro, rfl⟩
  have key := hruns s s ⟨rfl, [], (List.append_nil _).symm, .nil⟩
  rw [Nat.add_zero] at key
  generalize evaluate config budget tree s = r at key ⊢
  cases key with
  | returned _ hs => exact hs.2
  | failed _ hs => exact hs.2
  | cut h => exact h.elim

/-! ## Sessions -/

/-- An event of the environment is a binding, and is shown with the name and the value. -/
theorem Event.exists_of_target {e : Event} (h : e.target = "attolisp::environment") :
    ∃ name value, e = .bound name value ∧ e.message = s!"binding {name} to {value.text}" := by
  cases e with
  | bound name value => exact ⟨name, value, rfl, rfl⟩
  | _ => simp [Event.target] at h

/-- **The journal is a journal of the environment.** Whatever tree a session evaluates, and however
that ends: the bindings among the events of the evaluation, made again in this order in the
environment that it found, make the environment that it leaves. So a name has the value of its last
binding, a name without one is as before, no name is lost, and the environment has grown by the new
names. An event of an assignment or of a declaration is directly followed by the binding of its
name, and directly before each binding there is one. -/
theorem Session.evaluateTree_journal (s : Session) (tree : Sexp) :
    let after := (s.evaluateTree tree).2
    ∃ events, after.state.journal.toList = s.state.journal.toList ++ events ∧
      after.environment = s.environment.extended (bindings events) ∧
      (∀ earlier name value later, events = earlier ++ .bound name value :: later →
        (∀ other, .bound name other ∉ later) → after.environment.get? name = some value) ∧
      (∀ name, (∀ value, .bound name value ∉ events) →
        after.environment.get? name = s.environment.get? name) ∧
      (∀ name, s.environment.contains name → after.environment.contains name) ∧
      after.environment.size = s.environment.size +
        (((bindings events).map Prod.fst).toFinset \ s.environment.names).card ∧
      (∀ e ∈ events, e.target = "attolisp::environment" →
        ∃ name value, e = .bound name value ∧ e.message = s!"binding {name} to {value.text}") ∧
      (∀ earlier form name later, events = earlier ++ .assigned form name :: later →
        ∃ value rest, later = .bound name value :: rest) ∧
      (∀ earlier name parameters template later,
        events = earlier ++ .declared name parameters template :: later →
          ∃ id rest,
            later = .bound name (.function (.declared id name parameters template)) :: rest) ∧
      ∀ earlier name value later, events = earlier ++ .bound name value :: later →
        ∃ before e, earlier = before ++ [e] ∧ e.Announces (.bound name value) := by
  intro after
  have hafter : after.state =
      endState (evaluate s.config s.config.maxDepth tree s.state) := state_run s _
  obtain ⟨events, hrecorded⟩ := evaluate_recorded s.config s.state s.config.maxDepth tree
  obtain ⟨others, hothers, hannounced⟩ := evaluate_announced s.config s.config.maxDepth tree s.state
  obtain rfl : others = events :=
    List.append_cancel_left (hothers.symm.trans hrecorded.journal)
  have henvironment : after.environment = s.environment.extended (bindings others) :=
    (congrArg State.environment hafter).trans hrecorded.environment
  rw [hafter, henvironment]
  refine ⟨others, hothers, rfl, fun earlier name value later hsplit hlast => ?_,
    fun name h => ?_, fun name h => ?_, ?_, fun e _ => Event.exists_of_target,
    fun earlier form name later hsplit => ?_,
    fun earlier name parameters template later hsplit => ?_,
    fun earlier name value later hsplit => ?_⟩
  · rw [hsplit, bindings_append]
    exact Environment.get?_extended_of_last (notMem_names_bindings hlast)
  · exact Environment.get?_extended_of_notMem (notMem_names_bindings h)
  · rw [← Environment.mem_names] at h ⊢
    rw [Environment.names_extended]
    exact Finset.mem_union_left _ h
  · exact Environment.size_extended _ _
  · obtain ⟨f, rest, rfl, hf⟩ := hannounced.next hsplit (.assigned form name .none)
    cases hf with
    | assigned _ _ value => exact ⟨value, rest, rfl⟩
  · obtain ⟨f, rest, rfl, hf⟩ := hannounced.next hsplit (.declared 0 name parameters template)
    cases hf with
    | declared id => exact ⟨id, rest, rfl⟩
  · exact hannounced.previous hsplit (.assigned .define name value)

/-- An assignment inside the operand of another one binds first. -/
example :
    let s : Session := ⟨.standard, ⟨.empty, #[], .start .unlimited, 0⟩⟩
    let inner := Sexp.expression [.atom (.symbol "define"), .atom (.symbol "y"), .atom (.string "a")]
    let tree := Sexp.expression [.atom (.symbol "define"), .atom (.symbol "x"), inner]
    bindings (s.evaluateTree tree).2.state.journal.toList = [("y", .string "a"), ("x", .none)] :=
  rfl

end MiniLisp
