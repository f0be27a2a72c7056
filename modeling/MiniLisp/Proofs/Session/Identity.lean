import MiniLisp.Proofs.Machine.Procedures
import MiniLisp.Proofs.Session.Moments
import MiniLisp.Proofs.Session.Steps
import MiniLisp.Proofs.Value.Equality

/-!
# Procedures have identity

Two procedures that programs have declared are equal when they come from the same declaration. In a
session, that is so exactly when they are the same procedure: the procedures that have been declared
so far can be listed in their order, and all that have ever existed stand in the list in the place
of their number (`Procedure.ListedIn`). So each evaluation of a `function` form makes a procedure
that is unequal to all that have existed before, also to those that nothing holds any more, and
whatever else a program does only moves procedures about (`Session.Past.identified`).
-/

namespace MiniLisp

/-! ## Listed procedures -/

/-- A declared procedure stands in the list in the place of its number. -/
def Procedure.ListedIn (made : List Procedure) : Procedure → Prop
  | .primitive _ => True
  | .declared id name parameters template =>
    made[id]? = some (.declared id name parameters template)

namespace Procedure

variable {made : List Procedure} {f g : Procedure}

theorem ListedIn.eq_of_equal (hf : f.ListedIn made) (hg : g.ListedIn made)
    (h : f.equal g = true) : f = g := by
  cases f with
  | primitive p =>
    cases g with
    | primitive q => exact congrArg _ (eq_of_beq h)
    | declared => cases h
  | declared id name parameters template =>
    cases g with
    | primitive => cases h
    | declared id' name' parameters' template' =>
      obtain rfl : id = id' := eq_of_beq h
      exact Option.some.inj (hf.symm.trans hg)

theorem ListedIn.append (hf : f.ListedIn made) (more : List Procedure) :
    f.ListedIn (made ++ more) := by
  cases f with
  | primitive p => trivial
  | declared id name parameters template =>
    obtain ⟨hid, -⟩ := List.getElem?_eq_some_iff.1 hf
    exact (List.getElem?_append_left hid).trans hf

theorem listedIn_append_self (name : String) (parameters : List String) (template : Sexp) :
    ListedIn (made ++ [.declared made.length name parameters template])
      (.declared made.length name parameters template) :=
  List.getElem?_concat_length

/-- A fresh environment holds primitives only. -/
theorem listedIn_of_fresh (h : Environment.fresh.Holds f) : f.ListedIn made := by
  obtain ⟨name, v, hv, hf⟩ := h
  refine Environment.forall_fresh (P := fun v => v.Over (·.ListedIn made)) ?_ ?_ name v hv f hf
  · exact Value.over_hereditary.number
  · rintro p f hf
    obtain rfl := List.mem_singleton.1 hf
    trivial

/-- The procedure with the next number equals none of those in the list. -/
theorem ListedIn.equal_next (hf : f.ListedIn made) (name : String) (parameters : List String)
    (template : Sexp) :
    f.equal (.declared made.length name parameters template) = false ∧
      equal (.declared made.length name parameters template) f = false := by
  cases f with
  | primitive p => exact ⟨rfl, rfl⟩
  | declared id _ _ _ =>
    obtain ⟨hid, -⟩ := List.getElem?_eq_some_iff.1 hf
    exact ⟨beq_false_of_ne (Nat.ne_of_lt hid), beq_false_of_ne (Nat.ne_of_gt hid)⟩

end Procedure

/-- Two procedures are given to `eq?`. -/
theorem Operation.compute_equal_procedures (f g : Procedure) :
    Operation.equal.compute [.function f, .function g] = .ok (.boolean (g.equal f)) := by
  simp [Operation.compute, allEqual, Value.equal, f.equal_self]

namespace Session

/-! ## What has existed -/

/-- A procedure has existed by some moment of a program, before the program or in it. -/
def Existed (s : Session) (P : Procedure → Prop) (tree : Sexp) (count : Nat) (f : Procedure) :
    Prop :=
  P f ∨ ∃ earlier ≤ count, (s.moment tree earlier).Holds f

/-- The procedures that have existed in a session, from its start on, over the evaluation of texts
and over resets. What the host keeps of the answers is among them. -/
inductive Past : Session → (Procedure → Prop) → Prop
  | start (config : Config) (sink : Sink) : Past (start config sink) Environment.fresh.Holds
  | evaluateText {s : Session} {P : Procedure → Prop} (h : Past s P) (source : String) :
    Past (s.evaluateText source).2 fun f =>
      P f ∨ ∃ tree count, parse source = .ok tree ∧ s.Existed P tree count f
  | reset {s : Session} {P : Procedure → Prop} (h : Past s P) :
    Past s.reset fun f => P f ∨ Environment.fresh.Holds f

variable {s : Session} {P : Procedure → Prop} {source : String} {tree : Sexp}

/-- After the last moment nothing else comes to exist. -/
theorem Existed.at_last {last count : Nat} {f : Procedure} (h : s.Existed P tree count f)
    (hlast : ∀ count, s.moment tree (last + count) = s.moment tree last) :
    s.Existed P tree last f := by
  obtain hf | ⟨earlier, -, hf⟩ := h
  · exact .inl hf
  · rcases Nat.le_total earlier last with hle | hle
    · exact .inr ⟨earlier, hle, hf⟩
    · obtain ⟨more, rfl⟩ := Nat.exists_eq_add_of_le hle
      exact .inr ⟨last, Nat.le_refl _, hlast more ▸ hf⟩

/-- A program text brings no procedures, so at first there are those that names are bound to. -/
theorem environment_holds_of_moment_zero (hparse : parse source = .ok tree) {f : Procedure}
    (h : (s.moment tree 0).Holds f) : s.environment.Holds f := by
  obtain hf | ⟨frame, hframe, -⟩ | hf := h
  · have hnone : f ∈ tree.procedures := hf
    rw [procedures_of_parse hparse] at hnone
    cases hnone
  · cases hframe
  · exact hf

/-! ## All that have existed are listed -/

section Listed

variable {made : List Procedure}

/-- A list of the procedures declared so far, in which all that have existed are listed. -/
structure Ledger (s : Session) (P : Procedure → Prop) (made : List Procedure) : Prop where
  length_eq : made.length = s.state.declarations
  listed : ∀ f, P f → f.ListedIn made
  /-- What names are bound to has existed. -/
  bound : ∀ f, s.environment.Holds f → P f

/-- The list at some moment of a program. -/
structure LedgerAt (s : Session) (P : Procedure → Prop) (tree : Sexp) (count : Nat)
    (made : List Procedure) : Prop where
  length_eq : made.length = (s.moment tree count).state.declarations
  listed : ∀ f, s.Existed P tree count f → f.ListedIn made

/-- What a moment holds is listed. -/
theorem LedgerAt.over {count : Nat} (h : s.LedgerAt P tree count made) :
    (s.moment tree count).Over (·.ListedIn made) made.length := by
  have hover := (s.moment tree count).over_holds
  rw [← h.length_eq] at hover
  exact hover.mono fun f hf => h.listed f (.inr ⟨count, Nat.le_refl _, hf⟩)

/-- The procedure that a step makes has the next number. -/
theorem LedgerAt.eq_of_makes {count : Nat} (h : s.LedgerAt P tree count made) {next : Machine}
    {f : Procedure} (hf : (s.moment tree count).Makes next f) :
    ∃ name parameters template, f = .declared made.length name parameters template := by
  obtain ⟨_, name, parameters, template, -, -, rfl⟩ := hf.declares
  exact ⟨name, parameters, template, by rw [h.length_eq]⟩

/-- One more step, and at most one more procedure in the list. -/
theorem LedgerAt.succ {count : Nat} (h : s.LedgerAt P tree count made) :
    ∃ more, s.LedgerAt P tree (count + 1) (made ++ more) := by
  have hsplit {f : Procedure} (hf : s.Existed P tree (count + 1) f) :
      s.Existed P tree count f ∨ (s.moment tree (count + 1)).Holds f := by
    obtain hf | ⟨earlier, hle, hf⟩ := hf
    · exact .inl (.inl hf)
    · rcases Nat.lt_or_eq_of_le hle with hlt | rfl
      · exact .inl (.inr ⟨earlier, Nat.le_of_lt_succ hlt, hf⟩)
      · exact .inr hf
  cases hstep : (s.moment tree count).step s.config with
  | none =>
    have hlast : s.moment tree (count + 1) = s.moment tree count := by
      rw [moment, Machine.run_add]
      exact Machine.run_of_step_eq_none hstep 1
    refine ⟨[], ?_, fun f hf => ?_⟩
    · rw [hlast, List.append_nil, h.length_eq]
    · rw [List.append_nil]
      rcases hsplit hf with hf | hf
      · exact h.listed f hf
      · exact h.listed f (.inr ⟨count, Nat.le_refl _, hlast ▸ hf⟩)
  | some next =>
    obtain rfl : s.moment tree (count + 1) = next := Machine.run_succ_of_step hstep
    obtain hover | ⟨f, hf, hover⟩ := Machine.step_over h.over hstep
    · refine ⟨[], ?_, fun g hg => ?_⟩
      · rw [List.append_nil, hover.state.declarations_eq]
      · rw [List.append_nil]
        rcases hsplit hg with hg | hg
        · exact h.listed g hg
        · exact hover.of_holds hg
    · obtain ⟨name, parameters, template, rfl⟩ := h.eq_of_makes hf
      refine ⟨[.declared made.length name parameters template], ?_, fun g hg => ?_⟩
      · rw [List.length_append, hover.state.declarations_eq, List.length_singleton]
      · rcases hsplit hg with hg | hg
        · exact (h.listed g hg).append _
        · obtain hg | rfl := hover.of_holds hg
          · exact hg.append _
          · exact Procedure.listedIn_append_self name parameters template

/-- **At each moment of a program all that have existed are listed**, by induction on the steps. -/
theorem Ledger.exists_at (h : s.Ledger P made) (hparse : parse source = .ok tree) (count : Nat) :
    ∃ more, s.LedgerAt P tree count (made ++ more) := by
  induction count with
  | zero =>
    refine ⟨[], ?_, fun f hf => ?_⟩
    · rw [List.append_nil, h.length_eq]
      rfl
    · rw [List.append_nil]
      obtain hf | ⟨earlier, hle, hf⟩ := hf
      · exact h.listed f hf
      · obtain rfl := Nat.le_zero.1 hle
        exact h.listed f (h.bound f (environment_holds_of_moment_zero hparse hf))
  | succ count ih =>
    obtain ⟨more, hcount⟩ := ih
    obtain ⟨again, hsucc⟩ := hcount.succ
    exact ⟨more ++ again, by rwa [← List.append_assoc]⟩

end Listed

/-- **In a session all procedures that have existed are listed**, by induction on its past. -/
theorem Past.exists_ledger (h : s.Past P) : ∃ made, s.Ledger P made := by
  induction h with
  | start config sink =>
    exact ⟨[], rfl, fun f hf => Procedure.listedIn_of_fresh hf, fun f hf => hf⟩
  | reset h ih =>
    obtain ⟨made, hmade⟩ := ih
    exact ⟨made, hmade.length_eq,
      fun f hf => hf.elim (hmade.listed f) Procedure.listedIn_of_fresh, fun f hf => .inr hf⟩
  | @evaluateText s P h source ih =>
    obtain ⟨made, hmade⟩ := ih
    cases hparse : parse source with
    | error fault =>
      rw [Session.evaluateText, hparse]
      refine ⟨made, hmade.length_eq, fun f hf => ?_, fun f hf => .inl (hmade.bound f hf)⟩
      obtain hf | ⟨tree, count, htree, -⟩ := hf
      · exact hmade.listed f hf
      · cases htree
    | ok tree =>
      obtain ⟨last, hlast, hstate, -⟩ := s.exists_last_moment hparse
      obtain ⟨more, hmore⟩ := hmade.exists_at hparse last
      refine ⟨made ++ more, ?_, fun f hf => ?_, fun f hf => ?_⟩
      · rw [hmore.length_eq, hstate]
      · obtain hf | ⟨tree', count, htree, hf⟩ := hf
        · exact hmore.listed f (.inl hf)
        · obtain rfl := Except.ok.inj htree
          exact hmore.listed f (hf.at_last hlast)
      · refine .inr ⟨tree, last, rfl, .inr ⟨last, Nat.le_refl _, .inr (.inr ?_)⟩⟩
        rw [hstate]
        exact hf

/-! ## Identity -/

/-- What holds of the procedures that have existed by some moment of a program. -/
structure Identified (s : Session) (P : Procedure → Prop) (source : String) (tree : Sexp)
    (count : Nat) : Prop where
  /-- They are equal, for the host and for `eq?`, exactly if they are the same one, with the same
  name, parameters and template. -/
  equal_iff : ∀ f g, s.Existed P tree count f → s.Existed P tree count g →
    (Value.equal (.function f) (.function g) = true ↔ f = g) ∧
      (Operation.equal.compute [.function f, .function g] = .ok (.boolean true) ↔ f = g)
  /-- A `function` form that is evaluated with success makes a procedure that is unequal to all of
  them. -/
  made : ∀ operands next v,
    (s.moment tree count).control = .evaluate (.expression (.atom (.symbol "function") :: operands)) →
    (s.moment tree count).step s.config = some next → next.control = .returned v →
    ∃ g, (s.moment tree count).Makes next g ∧ ∀ f, s.Existed P tree count f →
      Value.equal (.function g) (.function f) = false ∧
        Value.equal (.function f) (.function g) = false ∧
        Operation.equal.compute [.function g, .function f] = .ok (.boolean false)
  /-- Whatever else a step does, the procedures held after it are the very ones held before. -/
  moved : ∀ next f, (s.moment tree count).step s.config = some next → next.Holds f →
    (s.moment tree count).Holds f ∨ (s.moment tree count).Makes next f
  /-- What a step binds, looks up, lists, takes out of a list, passes or returns is the very same
  value in its new place. -/
  carried : ∀ next, (s.moment tree count).step s.config = some next →
    (s.moment tree count).Carries next
  /-- What names are bound to when the program begins has existed. -/
  bound : ∀ f, s.environment.Holds f → P f
  /-- The program comes to a last moment, with its answer and its state. -/
  last : ∃ last, (∀ count, s.moment tree (last + count) = s.moment tree last) ∧
    (s.moment tree last).state = (s.evaluateText source).2.state ∧
    ∀ v, (s.evaluateText source).1 = .ok v → (s.moment tree last).control = .returned v

/-- **Procedures have identity.** At each moment of each program of a session, after any texts and
resets before, procedures that have ever existed are equal only if they are the same; a declaration
makes one that is unequal to all of them; and all else only moves them about. -/
theorem Past.identified (h : s.Past P) (hparse : parse source = .ok tree) (count : Nat) :
    s.Identified P source tree count := by
  obtain ⟨made, hmade⟩ := h.exists_ledger
  obtain ⟨more, hcount⟩ := hmade.exists_at hparse count
  have hequal {f g : Procedure} (hf : s.Existed P tree count f) (hg : s.Existed P tree count g) :
      f.equal g = true ↔ f = g := by
    constructor
    · exact (hcount.listed f hf).eq_of_equal (hcount.listed g hg)
    · rintro rfl
      exact f.equal_self
  refine ⟨fun f g hf hg => ⟨hequal hf hg, ?_⟩, fun operands next v hcontrol hstep hnext => ?_,
    fun next f hstep hf => Machine.holds_of_step hstep hf,
    fun next hstep => Machine.step_carries hstep, hmade.bound, s.exists_last_moment hparse⟩
  · rw [Operation.compute_equal_procedures, Except.ok.injEq, Value.boolean.injEq, hequal hg hf,
      eq_comm]
  · obtain ⟨g, hg⟩ | ⟨⟨e, he⟩, -⟩ := Machine.step_function hcontrol hstep
    · refine ⟨g, hg, fun f hf => ?_⟩
      obtain ⟨name, parameters, template, rfl⟩ := hcount.eq_of_makes hg
      obtain ⟨hfg, hgf⟩ := (hcount.listed f hf).equal_next name parameters template
      refine ⟨hgf, hfg, ?_⟩
      rw [Operation.compute_equal_procedures, hfg]
    · cases he.symm.trans hnext

theorem Past.identified_redeclaration :
    let text := "(function same (x) x)"
    let s := ((Session.start .standard .unlimited).evaluateText text).2
    let first := Procedure.declared 0 "same" ["x"] (.placeholder 0)
    s.environment.get? "same" = some (.function first) ∧
      ∃ tree next g, parse text = .ok tree ∧ (s.moment tree 0).step s.config = some next ∧
        (s.moment tree 0).Makes next g ∧ Value.equal (.function g) (.function first) = false := by
  intro text s first
  have hparse : parse "(function same (x) x)" = .ok (.expression [.atom (.symbol "function"),
      .atom (.symbol "same"), .expression [.atom (.symbol "x")], .atom (.symbol "x")]) := rfl
  have hget : s.environment.get? "same" = some (.function first) := by
    have hs : s.environment = Environment.fresh.define "same" (.function first) := by
      change (Session.evaluateText _ _).2.environment = _
      rw [Session.evaluateText, hparse]
      rfl
    rw [hs, Environment.get?_define, if_pos rfl]
  have hidentified := Past.identified (.evaluateText (.start .standard .unlimited) text) hparse 0
  have hcontrol (t : State) : (Machine.beginEvaluation [] 0 t s.config (.expression
      [.atom (.symbol "function"), .atom (.symbol "same"), .expression [.atom (.symbol "x")],
        .atom (.symbol "x")])).control = .returned .none := by
    rw [show s.config = .standard from config_evaluateText _ _]
    rfl
  obtain ⟨g, hmakes, hunequal⟩ := hidentified.made _ _ .none rfl rfl (hcontrol _)
  have hfirst := hidentified.bound first ⟨"same", _, hget, List.mem_cons_self⟩
  exact ⟨hget, _, _, g, hparse, rfl, hmakes, (hunequal first (.inl hfirst)).1⟩

end Session

end MiniLisp
