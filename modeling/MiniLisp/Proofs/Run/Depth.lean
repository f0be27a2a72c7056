import MiniLisp.Proofs.Run.Lockstep

/-!
# The depth limit

A larger limit changes a run only where the smaller one stopped it. The two runs start in the same
state and stay in the same states until the one with the smaller limit is cut by its overflow;
the other one goes on from there and only adds to the journal and to the output.

`evaluateTree_withLimit` says this of evaluations in a session.
-/

namespace MiniLisp

namespace Simulation

theorem printLine_ne_overflow (config : Config) (line : String) (s : State) (l : Nat)
    (t : State) : Run.printLine config line s ≠ .error (.overflow l) t := by
  obtain ⟨output, hprint | ⟨fault, hprint⟩⟩ := Run.printLine_cases config line s
  · exact fun h => by cases hprint.symm.trans h
  · exact fun h => by cases hprint.symm.trans h

theorem evaluateAtom_ne_overflow (v : Value) (s : State) (l : Nat) (t : State) :
    evaluateAtom v s ≠ .error (.overflow l) t := by
  unfold evaluateAtom
  split
  · rw [Run.lookup_apply]
    split
    · exact fun h => by cases h
    · exact fun h => by cases h
  · exact fun h => by cases h

/-- Runs in the same state owe nothing. -/
theorem equal_steps : StepLaws (· = ·) (fun _ => True) (fun _ => True) where
  atom _ _ := True.intro
  found h _ := ⟨by rw [h], fun _ _ => True.intro⟩
  reported h _ := by rw [h]
  bound h _ _ := by rw [h]
  declarations h := by rw [h]
  procedure _ _ _ _ := True.intro
  counted h := by rw [h]

section Limits

variable {fault : Fault → Fault → Prop} {cut : Fault → State → State → Prop}
  (hfault : ∀ e, (∀ l, e ≠ .overflow l) → fault e e)

include hfault

/-- A computation that never overflows corresponds to itself. -/
theorem runs_self_of_ne_overflow {V : α → α → Prop} {x : Run α} (hV : ∀ a, V a a)
    (hx : ∀ s l t, x s ≠ .error (.overflow l) t) :
    (same (· = ·) (fun _ => True) (fun _ => True) fault cut).Runs V x x := by
  rintro s t rfl
  cases h : x s with
  | ok a u => exact .returned (hV a) rfl
  | error e u => exact .failed (hfault e fun l hl => hx s l u (by rw [h, hl])) rfl

/-- **Only overflows depend on the limit.** Whatever becomes of them, runs under two limits satisfy
the laws of a simulation if all other faults correspond to themselves. -/
theorem limits_laws (hcut : ∀ {e s t u}, cut e s t → u.Continues t → cut e s u)
    (limit limit' : Nat) (echo : Bool) :
    SameLaws (· = ·) (fun _ => True) (fun _ => True) fault cut ⟨limit, echo⟩ ⟨limit', echo⟩ :=
  equal_steps.sameLaws hcut (fun _ => hfault _ fun l h => by cases h)
    (fun _ => hfault _ fun l h => by cases h)
    (fun v => runs_self_of_ne_overflow hfault (fun _ => ⟨True.intro, rfl⟩)
      (evaluateAtom_ne_overflow v))
    fun line => runs_self_of_ne_overflow hfault (fun _ => True.intro)
      (printLine_ne_overflow _ line)

end Limits

/-- Runs in the same states. The left one is cut by an overflow of its limit. -/
def bounded (limit : Nat) : Simulation :=
  same (· = ·) (fun _ => True) (fun _ => True) (fun e f => e = f ∧ ∀ l, e ≠ .overflow l)
    fun e s t => e = .overflow limit ∧ t.Continues s

theorem bounded_laws (limit limit' : Nat) (echo : Bool) :
    (bounded limit).Lawful ⟨limit, echo⟩ ⟨limit', echo⟩ :=
  (limits_laws (fun _ he => ⟨rfl, he⟩) (fun h hu => ⟨h.1, hu.trans h.2⟩) limit limit' echo).lawful

/-- An evaluation within a smaller limit corresponds to the one within a larger limit. -/
theorem evaluate_bounded (limit surplus : Nat) (echo : Bool) (tree : Sexp) :
    (bounded limit).Runs (fun v w => True ∧ v = w) (evaluate ⟨limit, echo⟩ limit tree)
      (evaluate ⟨limit + surplus, echo⟩ (limit + surplus) tree) := by
  refine (bounded_laws limit (limit + surplus) echo).evaluate surplus ?_ limit
    ⟨True.intro, rfl⟩
  -- the overflow is a cut: the larger limit may go on from here
  rintro t u - s _ rfl
  exact .cut ⟨rfl, evaluate_grows _ surplus u s⟩

end Simulation

namespace Session

/-- The same session under another depth limit. -/
def withLimit (s : Session) (limit : Nat) : Session :=
  { s with config := { s.config with maxDepth := limit } }

/-- **The depth limit only cuts runs short.** A run that does not overflow is the same under every
larger limit. One that overflows does so by its own limit, and what it has reported and written by
then is continued by the run under the larger limit. -/
theorem evaluateTree_withLimit (s : Session) (tree : Sexp) {limit : Nat}
    (h : s.config.maxDepth ≤ limit) :
    let short := s.evaluateTree tree
    let long := (s.withLimit limit).evaluateTree tree
    ((∀ d, short.1 ≠ .error (.overflow d)) →
        long.1 = short.1 ∧ long.2.state = short.2.state) ∧
      ∀ d, short.1 = .error (.overflow d) →
        d = s.config.maxDepth ∧ long.2.state.Continues short.2.state := by
  obtain ⟨⟨depth, echo⟩, state⟩ := s
  obtain ⟨surplus, rfl⟩ := Nat.exists_eq_add_of_le h
  intro short long
  have key := Simulation.evaluate_bounded depth surplus echo tree state state rfl
  generalize hx : evaluate ⟨depth, echo⟩ depth tree state = x at key
  generalize hy : evaluate ⟨depth + surplus, echo⟩ (depth + surplus) tree state = y at key
  cases key with
  | @returned v w t _ hvw ht =>
    obtain ⟨-, rfl⟩ := hvw
    cases ht
    have hshort : short = (.ok v, ⟨⟨depth, echo⟩, t⟩) := run_of_ok hx
    have hlong : long = (.ok v, ⟨⟨depth + surplus, echo⟩, t⟩) := run_of_ok hy
    rw [hshort, hlong]
    exact ⟨fun _ => ⟨rfl, rfl⟩, fun d hd => by cases hd⟩
  | @failed e f t _ hef ht =>
    obtain ⟨rfl, hover⟩ := hef
    cases ht
    have hshort : short = (.error e, ⟨⟨depth, echo⟩, t⟩) := run_of_error hx
    have hlong : long = (.error e, ⟨⟨depth + surplus, echo⟩, t⟩) := run_of_error hy
    rw [hshort, hlong]
    exact ⟨fun _ => ⟨rfl, rfl⟩, fun d hd => absurd (Except.error.inj hd) (hover d)⟩
  | @cut e t _ hcut =>
    obtain ⟨rfl, ht⟩ := hcut
    have hshort : short = (.error (.overflow depth), ⟨⟨depth, echo⟩, t⟩) := run_of_error hx
    have hlong : long.2.state = endState y := (state_run _ _).trans (congrArg endState hy)
    rw [hshort, hlong]
    refine ⟨fun hover => absurd rfl (hover depth), fun d hd => ?_⟩
    cases hd
    exact ⟨rfl, ht⟩

/-- An application within a limit of one and of two: the head is out of reach, then it is not a
function. -/
theorem evaluateTree_withLimit_two :
    let s := Session.start ⟨1, true⟩ .unlimited
    let tree := Sexp.expression [.expression []]
    (s.evaluateTree tree).1 = .error (.overflow 1) ∧
      ((s.withLimit 2).evaluateTree tree).1 = .error (.notCallable (.list [])) ∧
      ((s.withLimit 2).evaluateTree tree).2.state.Continues (s.evaluateTree tree).2.state := by
  intro s tree
  have hle : s.config.maxDepth ≤ 2 := by decide
  have h := (evaluateTree_withLimit s tree hle).2 1 rfl
  exact ⟨rfl, rfl, h.2⟩

end Session

end MiniLisp
