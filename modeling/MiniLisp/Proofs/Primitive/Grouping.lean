import MiniLisp.Proofs.Primitive.Positions
import MiniLisp.Proofs.Run.Basic

/-!
# Arguments taken together

Arithmetic on any count of numbers is arithmetic on two at a time, from the left: the first ones can
be taken together in a call of their own, whose result then stands in their place
(`Arithmetic.compute_append`). An order holds between all neighbours if it does between those up to
some number and between those from this number on (`Comparison.chain_append`).

All arguments are looked at before any of them is computed with. So it is the leftmost one that is
not a number that a refusal names, and the refusal is the same whatever comes after it.
-/

namespace MiniLisp

variable {args others : List Value}

/-! ## Numbers -/

theorem expectNumbers_append (name : String) (args others : List Value) :
    expectNumbers name (args ++ others) = (do
      return (← expectNumbers name args) ++ (← expectNumbers name others)) :=
  List.mapM_append

theorem exists_numbers (h : ∀ v ∈ args, v.kind = .number) :
    ∃ xs : List Float, args = xs.map .number := by
  induction args with
  | nil => exact ⟨[], rfl⟩
  | cons v args ih =>
    obtain ⟨hv, hargs⟩ := List.forall_mem_cons.1 h
    obtain ⟨xs, rfl⟩ := ih hargs
    cases v with
    | number x => exact ⟨x :: xs, rfl⟩
    | _ => cases hv

/-- A value is the leftmost one of some arguments that is not a number. -/
structure Value.LeftmostOther (args : List Value) (v : Value) : Prop where
  kind : v.kind ≠ .number
  leftmost : ∃ before after, args = before ++ v :: after ∧ ∀ w ∈ before, w.kind = .number

namespace Value.LeftmostOther

variable {v : Value}

theorem exists_of_kind_ne (h : ∃ v ∈ args, v.kind ≠ .number) : ∃ v, LeftmostOther args v := by
  have hfound : (args.find? (·.kind != .number)).isSome := by simpa using h
  obtain ⟨v, hv⟩ := Option.isSome_iff_exists.1 hfound
  obtain ⟨hkind, before, after, heq, hbefore⟩ := List.find?_eq_some_iff_append.1 hv
  exact ⟨v, by simpa using hkind, before, after, heq, by simpa using hbefore⟩

theorem append (h : LeftmostOther args v) (others : List Value) :
    LeftmostOther (args ++ others) v := by
  obtain ⟨before, after, rfl, hbefore⟩ := h.leftmost
  exact ⟨h.kind, before, after ++ others, by simp, hbefore⟩

theorem after_numbers (h : LeftmostOther others v) (xs : List Float) :
    LeftmostOther (xs.map .number ++ others) v := by
  obtain ⟨before, after, rfl, hbefore⟩ := h.leftmost
  refine ⟨h.kind, xs.map .number ++ before, after, by simp, fun w hw => ?_⟩
  obtain hw | hw := List.mem_append.1 hw
  · obtain ⟨x, -, rfl⟩ := List.mem_map.1 hw
    rfl
  · exact hbefore w hw

/-- It is what is refused. -/
theorem expectNumbers (h : LeftmostOther args v) (name : String) :
    expectNumbers name args = .error (.unexpected name .numbers v) := by
  obtain ⟨before, after, rfl, hbefore⟩ := h.leftmost
  obtain ⟨xs, rfl⟩ := exists_numbers hbefore
  have hother : expectNumber name v = .error (.unexpected name .numbers v) := by
    cases v with
    | number x => exact absurd rfl h.kind
    | _ => rfl
  rw [expectNumbers_append, expectNumbers_eq_ok.2 rfl, expectNumbers_cons, hother]
  rfl

end Value.LeftmostOther

theorem numbers_or_leftmost (args : List Value) :
    (∃ xs : List Float, args = xs.map .number) ∨ ∃ v : Value, v.LeftmostOther args := by
  by_cases h : ∃ v ∈ args, v.kind ≠ .number
  · exact .inr (Value.LeftmostOther.exists_of_kind_ne h)
  · exact .inl (exists_numbers fun v hv => by_contra fun hkind => h ⟨v, hv, hkind⟩)

/-! ## Arithmetic -/

namespace Arithmetic

variable (op : Arithmetic) {x : Float} {xs ys : List Float}

/-- The arguments that can be taken together before others. A difference and a quotient are cases of
their own for a number alone, so there must be two that are taken together, and others after them. -/
def Groups : Arithmetic → List Value → List Value → Prop
  | .subtract, args, others | .divide, args, others => 2 ≤ args.length ∧ others ≠ []
  | _, args, _ => args ≠ []

theorem total_of_ne_nil (h : xs ≠ []) : op.total x xs = xs.foldl op.combine x := by
  cases xs with
  | nil => exact absurd rfl h
  | cons y xs => rfl

theorem total_append_of_ne_nil (hxs : xs ≠ []) (hys : ys ≠ []) :
    op.total x (xs ++ ys) = op.total (op.total x xs) ys := by
  rw [op.total_of_ne_nil hxs, op.total_of_ne_nil hys,
    op.total_of_ne_nil (List.append_ne_nil_of_left_ne_nil hxs ys), List.foldl_append]

/-- A number alone may not be taken together, since it is negated. -/
example : (subtract.total 1 [0] == subtract.total (subtract.total 1 []) [0]) = false := by
  decide +kernel

theorem total_append_of_alone (h : ∀ y, op.alone y = y) :
    op.total x (xs ++ ys) = op.total (op.total x xs) ys := by
  have hfold : ∀ (y : Float) (zs : List Float), op.total y zs = zs.foldl op.combine y := by
    intro y zs
    cases zs with
    | nil => exact h y
    | cons z zs => rfl
  rw [hfold, hfold, hfold, List.foldl_append]

variable {op}

theorem Groups.ne_nil (h : op.Groups args others) : args ≠ [] := by
  cases op with
  | subtract | divide => exact List.ne_nil_of_length_pos (Nat.zero_lt_of_lt h.1)
  | add | multiply | maximum | minimum => exact h

theorem Groups.total_append (h : op.Groups (.number x :: xs.map .number) (ys.map .number)) :
    op.total x (xs ++ ys) = op.total (op.total x xs) ys := by
  cases op with
  | subtract | divide =>
    obtain ⟨hargs, hothers⟩ := h
    refine total_append_of_ne_nil _ ?_ (by simpa using hothers)
    exact List.ne_nil_of_length_pos (by simpa [Nat.succ_le_iff] using hargs)
  | add | multiply | maximum | minimum => exact total_append_of_alone _ fun _ => rfl

theorem compute_numbers (op : Arithmetic) (x : Float) (xs : List Float) :
    op.compute (.number x :: xs.map .number) = .ok (.number (op.total x xs)) := by
  rw [compute, expectNumbers_eq_ok.2 rfl]
  rfl

theorem compute_leftmost (op : Arithmetic) {v : Value} (h : v.LeftmostOther args) :
    op.compute args = .error (.unexpected op.name .numbers v) := by
  have hrefused := h.expectNumbers op.name
  cases args with
  | nil => cases hrefused
  | cons w args =>
    rw [expectNumbers_cons] at hrefused
    rw [compute]
    cases hw : expectNumber op.name w with
    | error m =>
      rw [hw] at hrefused
      exact congrArg _ (Except.error.inj hrefused)
    | ok x =>
      rw [hw] at hrefused
      cases hargs : expectNumbers op.name args with
      | error m =>
        rw [hargs] at hrefused
        exact congrArg _ (Except.error.inj hrefused)
      | ok xs =>
        rw [hargs] at hrefused
        cases hrefused

/-- **Arithmetic proceeds from the left**, and so does its check of the arguments. -/
theorem compute_append (h : op.Groups args others) :
    op.compute (args ++ others) = (do op.compute ((← op.compute args) :: others)) := by
  obtain ⟨xs, rfl⟩ | ⟨v, hv⟩ := numbers_or_leftmost args
  · cases xs with
    | nil => exact absurd rfl h.ne_nil
    | cons x xs =>
      have hargs : op.compute ((x :: xs).map .number) = .ok (.number (op.total x xs)) :=
        op.compute_numbers x xs
      rw [hargs]
      obtain ⟨ys, rfl⟩ | ⟨v, hv⟩ := numbers_or_leftmost others
      · have hwhole := op.compute_numbers x (xs ++ ys)
        rw [h.total_append, List.map_append] at hwhole
        exact hwhole.trans (op.compute_numbers _ ys).symm
      · exact (op.compute_leftmost (hv.after_numbers _)).trans
          (op.compute_leftmost (hv.after_numbers [op.total x xs])).symm
  · rw [op.compute_leftmost hv, op.compute_leftmost (hv.append others)]
    rfl

end Arithmetic

/-! ## Order -/

/-- **An order holds between all neighbours** if it does to the left of one of the numbers and to
its right, by induction on those to its left. -/
theorem Comparison.chain_append (rel : Comparison) (xs : List Float) (y : Float)
    (zs : List Float) :
    rel.chain (xs ++ y :: zs) = (rel.chain (xs ++ [y]) && rel.chain (y :: zs)) := by
  induction xs with
  | nil => rfl
  | cons x xs ih =>
    cases xs with
    | nil =>
      change (rel.holds x y && rel.chain (y :: zs)) = (rel.holds x y && true && rel.chain (y :: zs))
      rw [Bool.and_true]
    | cons x' xs =>
      change (rel.holds x x' && rel.chain (x' :: xs ++ y :: zs)) =
        (rel.holds x x' && rel.chain (x' :: xs ++ [y]) && rel.chain (y :: zs))
      rw [ih, Bool.and_assoc]

theorem Comparison.compute_numbers (rel : Comparison) (xs : List Float) :
    (Operation.comparison rel).compute (xs.map .number) = .ok (.boolean (rel.chain xs)) := by
  rw [Operation.compute, expectNumbers_eq_ok.2 rfl]
  rfl

theorem Comparison.compute_leftmost (rel : Comparison) {v : Value} (h : v.LeftmostOther args) :
    (Operation.comparison rel).compute args = .error (.unexpected rel.name .numbers v) := by
  rw [Operation.compute, h.expectNumbers]
  rfl

/-- The order is broken before the argument that is refused. -/
example : (Operation.comparison .less).compute [.number 2, .number 1, .none] =
    .error (.unexpected "<" .numbers .none) := rfl

/-! ## Calls -/

/-- **A call on many arguments is calls on two.** The first arguments of arithmetic can be taken
together in a call of their own: if it fails then the whole fails in the same way, and otherwise its
result can be put in their place. Of numbers an order holds throughout just if it does up to each of
them and from it on; otherwise the leftmost argument that is not a number is refused, whether or not
the order is broken before it. -/
theorem Session.call_grouped (s : Session) :
    let answer (op : Operation) (args : List Value) : Except Fault Value :=
      (s.call (.primitive (.operation op)) args).1
    (∀ (op : Arithmetic) (args others : List Value), op.Groups args others →
      (∀ fault, answer (.arithmetic op) args = .error fault →
        answer (.arithmetic op) (args ++ others) = .error fault) ∧
      ∀ v, answer (.arithmetic op) args = .ok v →
        answer (.arithmetic op) (args ++ others) = answer (.arithmetic op) (v :: others)) ∧
    ∀ rel : Comparison,
      (∀ (before : List Value) (v : Value) (after : List Value),
        (∀ w ∈ before ++ v :: after, w.kind = .number) → ∃ whole left right : Bool,
          answer (.comparison rel) (before ++ v :: after) = .ok (.boolean whole) ∧
          answer (.comparison rel) (before ++ [v]) = .ok (.boolean left) ∧
          answer (.comparison rel) (v :: after) = .ok (.boolean right) ∧
          (whole = true ↔ left = true ∧ right = true)) ∧
      ∀ args, (∃ v ∈ args, v.kind ≠ .number) → ∃ v, v.LeftmostOther args ∧
        answer (.comparison rel) args = .error (.misuse (.unexpected rel.name .numbers v)) := by
  intro answer
  have harithmetic : ∀ (op : Arithmetic) args,
      answer (.arithmetic op) args = (op.compute args).mapError .misuse :=
    fun op args => s.call_operation (.arithmetic op) args
  have hcomparison : ∀ rel args, answer (.comparison rel) args =
      ((Operation.comparison rel).compute args).mapError .misuse :=
    fun rel args => s.call_operation (.comparison rel) args
  refine ⟨fun op args others h => ?_, fun rel => ⟨fun before v after h => ?_, fun args h => ?_⟩⟩
  · simp only [harithmetic, Arithmetic.compute_append h]
    cases op.compute args with
    | error m => exact ⟨fun fault hfault => hfault, nofun⟩
    | ok r =>
      refine ⟨nofun, fun v hv => ?_⟩
      cases hv
      rfl
  · obtain ⟨xs, hnumbers⟩ := exists_numbers h
    obtain ⟨left, rest, rfl, rfl, hrest⟩ := List.append_eq_map_iff.1 hnumbers
    obtain ⟨y, right, rfl, rfl, rfl⟩ := List.map_eq_cons_iff.1 hrest
    refine ⟨rel.chain (left ++ y :: right), rel.chain (left ++ [y]), rel.chain (y :: right),
      ?_, ?_, ?_, ?_⟩
    · rw [hcomparison, hnumbers, rel.compute_numbers]
      rfl
    · have hleft : left.map Value.number ++ [.number y] = (left ++ [y]).map .number := by simp
      rw [hcomparison, hleft, rel.compute_numbers]
      rfl
    · rw [hcomparison, ← List.map_cons, rel.compute_numbers]
      rfl
    · rw [rel.chain_append, Bool.and_eq_true]
  · obtain ⟨v, hv⟩ := Value.LeftmostOther.exists_of_kind_ne h
    refine ⟨v, hv, ?_⟩
    rw [hcomparison, rel.compute_leftmost hv]
    rfl

end MiniLisp
