import MiniLisp.Proofs.Machine.Agreement

/-!
# Bounds on the stack of the machine

Every run of the machine ends, and at each moment of it the stack is bounded in two ways
(`Machine.run_ends`). The open evaluations are at most one more than the limit leaves, and the last
one is open only to report the overflow. Calls that come about through `map` and `apply` alone have
ever smaller arguments, since between two of them no evaluation can be open to make new values.

Both bounds are invariants of `step`: `Machine.Counted` for the evaluations and `Machine.Nested` for
the calls.
-/

namespace MiniLisp

namespace Machine

variable {config : Config} {stack : List Frame} {depth : Nat} {s : State}

/-! ## Open evaluations -/

/-- How many evaluations are open. -/
def opened : List Frame → Nat
  | [] => 0
  | .evaluation :: stack => opened stack + 1
  | _ :: stack => opened stack

/-- A machine with as many open evaluations as the stack has, and with this count. -/
structure Level (stack : List Frame) (depth : Nat) (m : Machine) : Prop where
  depth_eq : m.depth = depth
  opened_eq : opened m.stack = opened stack

namespace Level

theorem ended (r : EStateM.Result Fault State Value) :
    Level stack depth (Machine.ended r stack depth) := by
  cases r with
  | ok v t => exact ⟨rfl, rfl⟩
  | error e t => exact ⟨rfl, rfl⟩

theorem beginArguments (f : Procedure) (known : List Value) (rest : List Sexp) :
    Level stack depth (beginArguments stack depth s f known rest) := by
  cases rest with
  | nil => exact ⟨rfl, rfl⟩
  | cons t rest => exact ⟨rfl, rfl⟩

theorem beginRows (f : Procedure) (known : List Value) (calls : List (List Value)) :
    Level stack depth (beginRows stack depth s f known calls) := by
  cases calls with
  | nil => exact ⟨rfl, rfl⟩
  | cons row calls => exact ⟨rfl, rfl⟩

theorem beginAssignment (form : Form) (operands : List Sexp) :
    Level stack depth (beginAssignment stack depth s form operands) := by
  unfold Machine.beginAssignment
  split
  · split <;> exact ⟨rfl, rfl⟩
  · exact ⟨rfl, rfl⟩

theorem beginForm (form : Form) (operands : List Sexp) :
    Level stack depth (beginForm stack depth s form operands) := by
  unfold Machine.beginForm
  split
  · exact ⟨rfl, rfl⟩
  · exact ⟨rfl, rfl⟩
  · exact beginAssignment _ _
  · exact beginAssignment _ _
  · exact ended _

theorem beginExpression (items : List Sexp) :
    Level stack depth (beginExpression stack depth s items) := by
  unfold Machine.beginExpression
  split
  · exact ⟨rfl, rfl⟩
  · split
    · exact beginForm _ _
    · exact ⟨rfl, rfl⟩

theorem beginBody (f : Procedure) (args : List Value) :
    Level stack depth (beginBody stack depth s config f args) := by
  unfold Machine.beginBody
  split
  · split <;> exact ⟨rfl, rfl⟩
  · exact ended _
  · exact ended _
  · split <;> exact ⟨rfl, rfl⟩
  · split
    · exact beginRows _ _ _
    · exact ⟨rfl, rfl⟩

theorem beginCall (f : Procedure) (args : List Value) :
    Level stack depth (beginCall stack depth s config f args) :=
  ⟨(beginBody f args).depth_eq, (beginBody f args).opened_eq⟩

theorem resume {frame : Frame} (hframe : frame ≠ .evaluation) (v : Value) :
    Level stack depth (resume stack depth s v frame) := by
  cases frame with
  | evaluation => exact absurd rfl hframe
  | activation f args => exact ⟨rfl, rfl⟩
  | branches yes no =>
    unfold Machine.resume
    dsimp only
    split <;> exact ⟨rfl, rfl⟩
  | assignment form name =>
    unfold Machine.resume
    exact ended _
  | operator operands =>
    cases v with
    | function f => exact beginArguments f [] operands
    | _ => exact ⟨rfl, rfl⟩
  | arguments f known rest => exact beginArguments f _ rest
  | rows f known rest => exact beginRows f _ rest

end Level

theorem opened_cons_of_ne {frame : Frame} (h : frame ≠ .evaluation) (stack : List Frame) :
    opened (frame :: stack) = opened stack := by
  cases frame with
  | evaluation => exact absurd rfl h
  | _ => rfl

/-- What a machine knows of its open evaluations when its run has begun at a count. No more than
the budget are open, or one more, the last one, in which the overflow is reported. -/
structure Counted (config : Config) (start : Nat) (m : Machine) : Prop where
  depth_eq : m.depth = start + opened m.stack
  within : opened m.stack ≤ config.maxDepth - start ∨
    opened m.stack = config.maxDepth - start + 1 ∧
      m.control = .failed (.overflow config.maxDepth) ∧ ∃ below, m.stack = .evaluation :: below

namespace Counted

variable {start : Nat}

/-- Nothing changes for a machine with as many open evaluations. -/
theorem of_level {m : Machine} (hdepth : depth = start + opened stack)
    (hwithin : opened stack ≤ config.maxDepth - start) (h : Level stack depth m) :
    Counted config start m :=
  ⟨by rw [h.depth_eq, h.opened_eq, hdepth], .inl (by rw [h.opened_eq]; exact hwithin)⟩

theorem beginEvaluation (hdepth : depth = start + opened stack)
    (hwithin : opened stack ≤ config.maxDepth - start) (tree : Sexp) :
    Counted config start (beginEvaluation stack depth s config tree) := by
  unfold Machine.beginEvaluation
  split
  · rename_i hover
    refine ⟨?_, .inr ⟨?_, rfl, stack, rfl⟩⟩
    · change depth + 1 = start + (opened stack + 1)
      omega
    · change opened stack + 1 = _
      omega
  · rename_i hfits
    have hdepth' : depth + 1 = start + opened (.evaluation :: stack) := by
      change depth + 1 = start + (opened stack + 1)
      omega
    have hwithin' : opened (.evaluation :: stack) ≤ config.maxDepth - start := by
      change opened stack + 1 ≤ _
      omega
    refine of_level hdepth' hwithin' ?_
    cases tree with
    | atom v => exact .ended _
    | expression items => exact .beginExpression items
    | placeholder index => exact ⟨rfl, rfl⟩

/-- An evaluation that ends is counted no more. -/
theorem close {c c' : Control} (h : Counted config start ⟨c, .evaluation :: stack, depth, s⟩) :
    Counted config start ⟨c', stack, depth - 1, s⟩ := by
  have hdepth : depth = start + (opened stack + 1) := h.depth_eq
  have hwithin : opened stack ≤ config.maxDepth - start := by
    obtain h | ⟨h, -⟩ := h.within
    · change opened stack + 1 ≤ _ at h
      omega
    · change opened stack + 1 = _ at h
      omega
  exact ⟨by change depth - 1 = start + opened stack; omega, .inl hwithin⟩

theorem step {m next : Machine} (h : Counted config start m) (hstep : m.step config = some next) :
    Counted config start next := by
  obtain ⟨control, stack, depth, s⟩ := m
  -- the last evaluation is open only in a machine that fails
  have hwithin (hc : control ≠ .failed (.overflow config.maxDepth)) :
      opened stack ≤ config.maxDepth - start :=
    h.within.resolve_right fun ⟨_, hcontrol, _⟩ => hc hcontrol
  cases control with
  | evaluate tree =>
    cases hstep
    exact beginEvaluation h.depth_eq (hwithin Control.noConfusion) tree
  | call f args =>
    cases hstep
    exact of_level h.depth_eq (hwithin Control.noConfusion) (.beginCall f args)
  | returned v =>
    cases stack with
    | nil => cases hstep
    | cons frame stack =>
      cases hstep
      by_cases hframe : frame = .evaluation
      · subst hframe
        exact h.close
      · have hopened := opened_cons_of_ne hframe stack
        refine of_level ?_ ?_ (.resume hframe v)
        · rw [← hopened]
          exact h.depth_eq
        · rw [← hopened]
          exact hwithin Control.noConfusion
  | failed e =>
    cases stack with
    | nil => cases hstep
    | cons frame stack =>
      cases hstep
      by_cases hframe : frame = .evaluation
      · subst hframe
        exact h.close
      · have hopened := opened_cons_of_ne hframe stack
        rw [abandon_of_ne hframe]
        have hlevel : Level stack depth ⟨.failed e, stack, depth, s⟩ := ⟨rfl, rfl⟩
        refine of_level ?_ ?_ hlevel
        · rw [← hopened]
          exact h.depth_eq
        · rw [← hopened]
          refine h.within.resolve_right fun ⟨_, _, below, hbelow⟩ => hframe ?_
          exact (List.cons.inj hbelow).1

end Counted

/-! ## Calls through `map` and `apply` -/

/-- The call that the next one on top of the stack would come from, if no tree is evaluated in
between. -/
def caller : List Frame → Option (Procedure × List Value)
  | .activation f args :: _ => some (f, args)
  | .rows _ _ _ :: stack => caller stack
  | _ => none

/-- A call may come from the caller, which is a primitive and has larger arguments. -/
def Smaller (args : List Value) (stack : List Frame) : Prop :=
  ∀ p ∈ caller stack, (∃ q, p.1 = .primitive q) ∧ Value.sizes args < Value.sizes p.2

/-- A frame where it can stand. Only procedures that a program has declared evaluate trees, and
what waits in the middle of an evaluation has no caller. -/
def Fits (stack : List Frame) : Frame → Prop
  | .evaluation => ∀ p ∈ caller stack, ∀ q, p.1 ≠ .primitive q
  | .activation _ args => Smaller args stack
  | .rows _ _ rest => ∀ row ∈ rest, Smaller row stack
  | .branches _ _ | .assignment _ _ | .operator _ | .arguments _ _ _ => caller stack = none

/-- Each frame of the stack fits on those below it. -/
def Nested : List Frame → Prop
  | [] => True
  | frame :: stack => Fits stack frame ∧ Nested stack

/-- A machine whose stack is nested and whose next step keeps it so. -/
def Orderly (m : Machine) : Prop :=
  Nested m.stack ∧ match m.control with
    | .evaluate _ => Fits m.stack .evaluation
    | .call f args => Fits m.stack (.activation f args)
    | .returned _ | .failed _ => True

namespace Orderly

theorem evaluation_of_caller_eq_none (h : caller stack = none) : Fits stack .evaluation := by
  intro p hp
  rw [h] at hp
  cases hp

theorem smaller_of_caller_eq_none (h : caller stack = none) (args : List Value) :
    Smaller args stack := by
  intro p hp
  rw [h] at hp
  cases hp

theorem ended (h : Nested stack) (r : EStateM.Result Fault State Value) :
    Orderly (Machine.ended r stack depth) := by
  cases r with
  | ok v t => exact ⟨h, trivial⟩
  | error e t => exact ⟨h, trivial⟩

theorem beginRows {f : Procedure} {known : List Value} {calls : List (List Value)}
    (h : Nested stack) (hcalls : ∀ row ∈ calls, Smaller row stack) :
    Orderly (beginRows stack depth s f known calls) := by
  cases calls with
  | nil => exact ⟨h, trivial⟩
  | cons row calls =>
    exact ⟨⟨fun r hr => hcalls r (List.mem_cons_of_mem _ hr), h⟩, hcalls row List.mem_cons_self⟩

/-- A call of a primitive has its own activation for the caller of what it calls. -/
theorem smaller_activation {q : Primitive} {args inner : List Value}
    (h : Value.sizes inner < Value.sizes args) :
    Smaller inner (.activation (.primitive q) args :: stack) := by
  intro p hp
  obtain rfl := Option.mem_some.1 hp
  exact ⟨⟨q, rfl⟩, h⟩

theorem beginCall {f : Procedure} {args : List Value} (h : Nested stack)
    (hfits : Fits stack (.activation f args)) :
    Orderly (beginCall stack depth s config f args) := by
  have hnested : Nested (.activation f args :: stack) := ⟨hfits, h⟩
  unfold Machine.beginCall beginBody
  split
  · split
    · refine ⟨hnested, fun p hp q => ?_⟩
      obtain rfl := Option.mem_some.1 hp
      exact Procedure.noConfusion
    · exact ⟨hnested, trivial⟩
  · exact ended hnested _
  · exact ended hnested _
  · split
    · rename_i happly
      exact ⟨hnested, smaller_activation (sizes_lt_of_applyCall happly)⟩
    · exact ⟨hnested, trivial⟩
  · split
    · rename_i hmap
      exact beginRows hnested fun row hrow => smaller_activation (sizes_lt_of_mapCalls hmap hrow)
    · exact ⟨hnested, trivial⟩

section Evaluation

variable (h : Nested stack) (hopen : caller stack = none)
include h hopen

theorem beginArguments (f : Procedure) (known : List Value) (rest : List Sexp) :
    Orderly (beginArguments stack depth s f known rest) := by
  cases rest with
  | nil => exact ⟨h, smaller_of_caller_eq_none hopen known⟩
  | cons t rest => exact ⟨⟨hopen, h⟩, evaluation_of_caller_eq_none rfl⟩

theorem beginAssignment (form : Form) (operands : List Sexp) :
    Orderly (beginAssignment stack depth s form operands) := by
  unfold Machine.beginAssignment
  split
  · split
    · exact ⟨⟨hopen, h⟩, evaluation_of_caller_eq_none rfl⟩
    · exact ⟨h, trivial⟩
  · exact ⟨h, trivial⟩

theorem beginForm (form : Form) (operands : List Sexp) :
    Orderly (beginForm stack depth s form operands) := by
  unfold Machine.beginForm
  split
  · exact ⟨⟨hopen, h⟩, evaluation_of_caller_eq_none rfl⟩
  · exact ⟨h, trivial⟩
  · exact beginAssignment h hopen _ _
  · exact beginAssignment h hopen _ _
  · exact ended h _

theorem beginExpression (items : List Sexp) :
    Orderly (beginExpression stack depth s items) := by
  unfold Machine.beginExpression
  split
  · exact ⟨h, trivial⟩
  · split
    · exact beginForm h hopen _ _
    · exact ⟨⟨hopen, h⟩, evaluation_of_caller_eq_none rfl⟩

end Evaluation

theorem beginEvaluation (h : Nested stack) (hfits : Fits stack .evaluation) (tree : Sexp) :
    Orderly (beginEvaluation stack depth s config tree) := by
  have hnested : Nested (.evaluation :: stack) := ⟨hfits, h⟩
  unfold Machine.beginEvaluation
  split
  · exact ⟨hnested, trivial⟩
  · split
    · exact ended hnested _
    · exact beginExpression hnested rfl _
    · exact ⟨hnested, trivial⟩

theorem resume {frame : Frame} (h : Nested (frame :: stack)) (v : Value) :
    Orderly (resume stack depth s v frame) := by
  obtain ⟨hfits, h⟩ := h
  cases frame with
  | evaluation => exact ⟨h, trivial⟩
  | activation f args => exact ⟨h, trivial⟩
  | branches yes no =>
    unfold Machine.resume
    dsimp only
    split <;> exact ⟨h, evaluation_of_caller_eq_none hfits⟩
  | assignment form name =>
    unfold Machine.resume
    exact ended h _
  | operator operands =>
    cases v with
    | function f => exact beginArguments h hfits f [] operands
    | _ => exact ⟨h, trivial⟩
  | arguments f known rest => exact beginArguments h hfits f _ rest
  | rows f known rest => exact beginRows h hfits

theorem abandon {frame : Frame} (h : Nested (frame :: stack)) (e : Fault) :
    Orderly (abandon stack depth s e frame) := by
  cases frame with
  | _ => exact ⟨h.2, trivial⟩

theorem step {m next : Machine} (h : Orderly m) (hstep : m.step config = some next) :
    Orderly next := by
  obtain ⟨control, stack, depth, s⟩ := m
  obtain ⟨hnested, hcontrol⟩ := h
  cases control with
  | evaluate tree =>
    cases hstep
    exact beginEvaluation hnested hcontrol tree
  | call f args =>
    cases hstep
    exact beginCall hnested hcontrol
  | returned v =>
    cases stack with
    | nil => cases hstep
    | cons frame stack =>
      cases hstep
      exact resume hnested v
  | failed e =>
    cases stack with
    | nil => cases hstep
    | cons frame stack =>
      cases hstep
      exact abandon hnested e

end Orderly

/-- The frame is not a call of a procedure that a program has declared. -/
def Provided (frame : Frame) : Prop :=
  ∀ f args, frame = .activation f args → ∃ p, f = .primitive p

theorem nested_append {above : List Frame} (h : Nested (above ++ stack)) : Nested stack := by
  induction above with
  | nil => exact h
  | cons frame above ih => exact ih h.2

/-- Above a call of a primitive there are only calls, and each comes from the one below. -/
theorem caller_of_provided {p : Primitive} {outer : List Value} {below : List Frame}
    {between : List Frame} (h : Nested (between ++ .activation (.primitive p) outer :: below))
    (hbetween : ∀ frame ∈ between, Provided frame) :
    ∃ q args, caller (between ++ .activation (.primitive p) outer :: below) =
      some (.primitive q, args) ∧ Value.sizes args ≤ Value.sizes outer := by
  induction between with
  | nil => exact ⟨p, outer, rfl, Nat.le_refl _⟩
  | cons frame between ih =>
    obtain ⟨q, args, hcaller, hle⟩ := ih h.2 fun f hf => hbetween f (List.mem_cons_of_mem _ hf)
    have hfits := h.1
    cases frame with
    | evaluation => exact absurd rfl (hfits (.primitive q, args) hcaller q)
    | activation f inner =>
      obtain ⟨r, rfl⟩ := hbetween _ List.mem_cons_self f inner rfl
      exact ⟨r, inner, rfl, Nat.le_trans (Nat.le_of_lt (hfits _ hcaller).2) hle⟩
    | rows f known rest => exact ⟨q, args, hcaller, hle⟩
    | branches yes no => cases hcaller.symm.trans hfits
    | assignment form name => cases hcaller.symm.trans hfits
    | operator operands => cases hcaller.symm.trans hfits
    | arguments f known rest => cases hcaller.symm.trans hfits

/-- A call that comes about through primitives alone has smaller arguments than the first of
them. -/
theorem sizes_lt_of_nested {p : Primitive} {g : Procedure} {inner outer : List Value}
    {between below : List Frame}
    (h : Nested (.activation g inner :: between ++ .activation (.primitive p) outer :: below))
    (hbetween : ∀ frame ∈ between, Provided frame) : Value.sizes inner < Value.sizes outer := by
  obtain ⟨q, args, hcaller, hle⟩ := caller_of_provided h.2 hbetween
  exact Nat.lt_of_lt_of_le (h.1 _ hcaller).2 hle

/-! ## Whole runs -/

/-- What a machine that has begun with this control comes to. -/
def outcome (config : Config) (depth : Nat) : Control → Run Value
  | .evaluate tree => MiniLisp.evaluate config (config.maxDepth - depth) tree
  | .call f args => MiniLisp.call config (MiniLisp.evaluate config (config.maxDepth - depth)) f args
  | .returned v => pure v
  | .failed e => throw e

theorem reaches_outcome (config : Config) (control : Control) (depth : Nat) (s : State) :
    Reaches config ⟨control, [], depth, s⟩
      (ended (outcome config depth control s) [] depth) := by
  cases control with
  | evaluate tree => exact reaches_evaluate config tree [] depth s
  | call f args =>
    exact reaches_call (fun tree stack s => reaches_evaluate config tree stack depth s) f args [] s
  | returned v => exact .refl _
  | failed e => exact .refl _

theorem step_ended (config : Config) (r : EStateM.Result Fault State Value) (depth : Nat) :
    step config (ended r [] depth) = none := by
  cases r <;> rfl

theorem counted_run (config : Config) (control : Control) (depth : Nat) (s : State) (count : Nat) :
    Counted config depth (run config ⟨control, [], depth, s⟩ count) := by
  have hstart : Counted config depth ⟨control, [], depth, s⟩ := ⟨rfl, .inl (Nat.zero_le _)⟩
  exact run_invariant Counted.step hstart count

theorem orderly_run (config : Config) (control : Control) (depth : Nat) (s : State) (count : Nat) :
    Orderly (run config ⟨control, [], depth, s⟩ count) := by
  have hstart : Orderly ⟨control, [], depth, s⟩ := by
    refine ⟨trivial, ?_⟩
    cases control with
    | evaluate tree => exact Orderly.evaluation_of_caller_eq_none rfl
    | call f args => exact Orderly.smaller_of_caller_eq_none rfl args
    | returned v => trivial
    | failed e => trivial
  exact run_invariant Orderly.step hstart count

/-- The bounds on the stack of a machine when its budget of open evaluations is this. -/
structure Bounded (config : Config) (budget : Nat) (m : Machine) : Prop where
  /-- No more evaluations are open than one more than the budget. -/
  opened_le : opened m.stack ≤ budget + 1
  /-- The last one is the innermost and does nothing but report the overflow. -/
  overflow : opened m.stack = budget + 1 →
    m.control = .failed (.overflow config.maxDepth) ∧ ∃ below, m.stack = .evaluation :: below
  /-- Of two calls such that the inner one comes from the outer one through primitives alone, the
  inner one has smaller arguments. -/
  sizes_lt : ∀ (above between below : List Frame) (g : Procedure) (p : Primitive)
    (inner outer : List Value),
    m.stack =
      above ++ .activation g inner :: between ++ .activation (.primitive p) outer :: below →
    (∀ frame ∈ between, Provided frame) → Value.sizes inner < Value.sizes outer

theorem Bounded.of_invariants {start : Nat} {m : Machine} (hcounted : Counted config start m)
    (horderly : Orderly m) : Bounded config (config.maxDepth - start) m where
  opened_le := by
    obtain h | ⟨h, -⟩ := hcounted.within
    · exact Nat.le_succ_of_le h
    · exact Nat.le_of_eq h
  overflow hlast := by
    obtain h | ⟨-, h⟩ := hcounted.within
    · rw [hlast] at h
      exact absurd h (Nat.not_succ_le_self _)
    · exact h
  sizes_lt above between below g p inner outer hstack hbetween := by
    have hnested := horderly.1
    rw [hstack, List.append_assoc] at hnested
    exact sizes_lt_of_nested (nested_append hnested) hbetween

/-- **Every run ends, and on the way the stack is bounded.** Whatever the machine begins with, from
any state and at any count of open evaluations, it comes to an end after some number of steps, with
the result that the evaluator gives and no step left to take. At each moment before, no more
evaluations are open than the limit leaves and one more for the overflow, and calls through
primitives alone have ever smaller arguments. -/
theorem run_ends (config : Config) (control : Control) (depth : Nat) (s : State) :
    (∃ count, run config ⟨control, [], depth, s⟩ count =
        ended (outcome config depth control s) [] depth) ∧
      step config (ended (outcome config depth control s) [] depth) = none ∧
      ∀ count, Bounded config (config.maxDepth - depth)
        (run config ⟨control, [], depth, s⟩ count) := by
  refine ⟨(reaches_outcome config control depth s).exists_run, step_ended config _ depth,
    fun count => ?_⟩
  exact .of_invariants (counted_run config control depth s count)
    (orderly_run config control depth s count)

end Machine

end MiniLisp
