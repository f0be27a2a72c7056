import MiniLisp.Proofs.Number.Order
import MiniLisp.Proofs.Primitive.Grouping
import MiniLisp.Proofs.Value.Equality

/-!
# Comparisons agree with one another

The procedures that compare numbers look at them in two ways: an order is tested between all
neighbours (`Comparison.chain_iff`), and equality between the first number and every number, itself
included. The two ways meet because equal numbers are equal to one another in any order
(`allEqualNumbers_iff_isChain`): of two numbers or more it makes no difference whether each is
compared with the first one or with the one before it. What is left is the number alone, which has
no neighbour and is compared with itself, in vain if it is not a number.
-/

namespace MiniLisp

variable {xs ys : List Float}

/-! ## Order between neighbours -/

namespace Comparison

/-- The order that holds where this one holds the other way round. -/
def converse : Comparison → Comparison
  | .greater => .less
  | .greaterEqual => .lessEqual
  | .less => .greater
  | .lessEqual => .greaterEqual

theorem holds_converse (rel : Comparison) (x y : Float) :
    rel.converse.holds x y = rel.holds y x := by
  cases rel <;> rfl

theorem chain_iff (rel : Comparison) :
    rel.chain xs = true ↔ xs.IsChain fun x y => rel.holds x y = true := by
  induction xs with
  | nil => simp [chain]
  | cons x xs ih =>
    cases xs with
    | nil => simp [chain]
    | cons y xs => rw [chain, Bool.and_eq_true, ih, List.isChain_cons_cons]

/-- An order holds between neighbours if the converse does in the list that is read backwards. -/
theorem chain_reverse (rel : Comparison) (xs : List Float) :
    rel.converse.chain xs.reverse = rel.chain xs := by
  rw [Bool.eq_iff_iff, chain_iff, chain_iff, List.isChain_reverse]
  simp only [holds_converse]

theorem chain_mono {rel rel' : Comparison}
    (h : ∀ x y, rel.holds x y = true → rel'.holds x y = true) (hxs : rel.chain xs = true) :
    rel'.chain xs = true :=
  rel'.chain_iff.2 ((rel.chain_iff.1 hxs).imp h)

end Comparison

/-! ## Equality with the first number -/

theorem isChain_beq_iff_forall {x : Float} :
    (x :: xs).IsChain (fun x y => (x == y) = true) ↔ ∀ y ∈ xs, (y == x) = true := by
  induction xs generalizing x with
  | nil => simp
  | cons y xs ih =>
    rw [List.isChain_cons_cons, ih, List.forall_mem_cons, BEq.comm (a := x)]
    refine and_congr_right fun hyx => forall₂_congr fun z _ => ?_
    exact ⟨fun hzy => BEq.trans hzy hyx, fun hzx => BEq.trans hzx (BEq.symm hyx)⟩

/-- **All numbers equal the first one** if all neighbours are equal, unless there is only one, which
may not be a number. -/
theorem allEqualNumbers_iff_isChain (h : ∀ x, xs = [x] → x.isNaN = false) :
    allEqualNumbers xs = true ↔ xs.IsChain fun x y => (x == y) = true := by
  cases xs with
  | nil => simp [allEqualNumbers]
  | cons x xs =>
    rw [isChain_beq_iff_forall, allEqualNumbers, List.all_cons, Bool.and_eq_true,
      List.all_eq_true]
    refine and_iff_right_of_imp fun hxs => ?_
    cases xs with
    | nil =>
      refine (EqualityAt.of_float x).self_iff.2 ?_
      rw [h x rfl]
      exact Bool.false_ne_true
    | cons y xs =>
      have hyx := hxs y List.mem_cons_self
      exact BEq.trans (BEq.symm hyx) hyx

/-- Equal numbers are those of which each is at most and at least the next one. -/
theorem allEqualNumbers_iff_chains (h : ∀ x, xs = [x] → x.isNaN = false) :
    allEqualNumbers xs = true ↔
      Comparison.lessEqual.chain xs = true ∧ Comparison.greaterEqual.chain xs = true := by
  rw [allEqualNumbers_iff_isChain h, Comparison.chain_iff, Comparison.chain_iff]
  simp only [Comparison.holds, decide_eq_true_iff, float_beq_iff]
  constructor
  · exact fun hxs => ⟨hxs.imp fun _ _ => And.left, hxs.imp fun _ _ => And.right⟩
  · exact fun ⟨hle, hge⟩ => List.isChain_iff_getElem.2 fun i hi =>
      ⟨List.isChain_iff_getElem.1 hle i hi, List.isChain_iff_getElem.1 hge i hi⟩

/-- Equality of numbers is equality of values. -/
theorem allEqual_numbers (xs : List Float) : allEqual (xs.map .number) = allEqualNumbers xs := by
  cases xs with
  | nil => rfl
  | cons x xs =>
    rw [List.map_cons, allEqual, allEqualNumbers, ← List.map_cons, List.all_map]
    rfl

theorem allEqualNumbers_perm (h : xs.Perm ys) : allEqualNumbers xs = allEqualNumbers ys := by
  rw [← allEqual_numbers, ← allEqual_numbers, allEqual_perm (h.map _)]

/-- Two numbers are not equal and in order at once. -/
theorem not_chain_less_of_allEqualNumbers (hlength : 2 ≤ xs.length)
    (h : allEqualNumbers xs = true) : ¬ Comparison.less.chain xs = true := by
  obtain ⟨x, y, rest, rfl⟩ : ∃ x y rest, xs = x :: y :: rest := by
    match xs, hlength with
    | x :: y :: rest, _ => exact ⟨x, y, rest, rfl⟩
  have hxs := (allEqualNumbers_iff_isChain (by simp)).1 h
  intro hless
  rw [Comparison.chain, Bool.and_eq_true] at hless
  exact float_not_lt_of_beq hxs.rel (of_decide_eq_true hless.1)

/-! ## Calls -/

namespace Session

/-- What a call with these numbers gives. -/
def answer (s : Session) (op : Operation) (xs : List Float) : Except Fault Value :=
  (s.call (.primitive (.operation op)) (xs.map .number)).1

theorem answer_comparison (s : Session) (rel : Comparison) (xs : List Float) :
    s.answer (.comparison rel) xs = .ok (.boolean (rel.chain xs)) := by
  rw [answer, call_operation, rel.compute_numbers]
  rfl

theorem answer_equalNumbers (s : Session) (xs : List Float) :
    s.answer .equalNumbers xs = .ok (.boolean (allEqualNumbers xs)) := by
  rw [answer, call_operation, Operation.compute, expectNumbers_eq_ok.2 rfl]
  rfl

theorem answer_equal (s : Session) (xs : List Float) :
    s.answer .equal xs = .ok (.boolean (allEqualNumbers xs)) := by
  rw [answer, call_equal, allEqual_numbers]

/-- **The comparisons fit together.** On any numbers each of them gives a boolean. The two orders
downwards are those upwards on the reversed list; an ascending list is a non-descending one; and
equal numbers are those in order both ways, but for not-a-number alone. Equality of numbers is that
of values, does not depend on the order of the numbers, and excludes that two numbers or more
ascend. -/
theorem comparisons_coherent (s : Session) (xs : List Float) :
    ∃ greater greaterEqual less lessEqual equal : Bool,
      s.answer (.comparison .greater) xs = .ok (.boolean greater) ∧
      s.answer (.comparison .greaterEqual) xs = .ok (.boolean greaterEqual) ∧
      s.answer (.comparison .less) xs = .ok (.boolean less) ∧
      s.answer (.comparison .lessEqual) xs = .ok (.boolean lessEqual) ∧
      s.answer .equalNumbers xs = .ok (.boolean equal) ∧
      s.answer (.comparison .less) xs.reverse = .ok (.boolean greater) ∧
      s.answer (.comparison .lessEqual) xs.reverse = .ok (.boolean greaterEqual) ∧
      (less = true → lessEqual = true) ∧
      ((∀ x, xs = [x] → x.isNaN = false) →
        (equal = true ↔ lessEqual = true ∧ greaterEqual = true)) ∧
      s.answer .equal xs = .ok (.boolean equal) ∧
      (∀ ys, xs.Perm ys → s.answer .equalNumbers ys = .ok (.boolean equal)) ∧
      (2 ≤ xs.length → ¬(less = true ∧ equal = true)) := by
  refine ⟨Comparison.greater.chain xs, Comparison.greaterEqual.chain xs,
    Comparison.less.chain xs, Comparison.lessEqual.chain xs, allEqualNumbers xs,
    s.answer_comparison _ xs, s.answer_comparison _ xs, s.answer_comparison _ xs,
    s.answer_comparison _ xs, s.answer_equalNumbers xs, ?_, ?_, ?_,
    allEqualNumbers_iff_chains, s.answer_equal xs, fun ys h => ?_, fun hlength h => ?_⟩
  · rw [answer_comparison, ← Comparison.chain_reverse .greater xs]
    rfl
  · rw [answer_comparison, ← Comparison.chain_reverse .greaterEqual xs]
    rfl
  · exact Comparison.chain_mono fun x y h => decide_eq_true (float_le_of_lt (of_decide_eq_true h))
  · rw [answer_equalNumbers, allEqualNumbers_perm h]
  · exact not_chain_less_of_allEqualNumbers hlength h.2 h.1

/-- The zeros are equal whichever comes first, as each is at most the other, and so they do not
ascend. -/
theorem comparisons_coherent_zeros :
    let s := start .standard .unlimited
    s.answer .equalNumbers [0, -0] = .ok (.boolean true) ∧
      s.answer .equal [0, -0] = .ok (.boolean true) ∧
      s.answer .equalNumbers [-0, 0] = .ok (.boolean true) ∧
      s.answer (.comparison .less) [0, -0] = .ok (.boolean false) := by
  intro s
  obtain ⟨_, greaterEqual, less, lessEqual, equal, -, hge, hlt, hle, heq, -, -, -, hiff, hequal,
    hperm, hexclusive⟩ := comparisons_coherent s [0, -0]
  have hup : Comparison.lessEqual.chain [0, -0] = true := by decide +kernel
  have hdown : Comparison.greaterEqual.chain [0, -0] = true := by decide +kernel
  rw [answer_comparison, hup] at hle
  rw [answer_comparison, hdown] at hge
  cases hle
  cases hge
  obtain rfl : equal = true := (hiff (by simp)).2 ⟨rfl, rfl⟩
  obtain rfl : less = false := by simpa using hexclusive (by decide)
  exact ⟨heq, hequal, hperm _ (List.Perm.swap _ _ _), hlt⟩

/-- Not-a-number alone is in order both ways, but not equal. -/
example : Comparison.lessEqual.chain [0 / 0] = true ∧ Comparison.greaterEqual.chain [0 / 0] = true ∧
    allEqualNumbers [0 / 0] = false := by
  decide +kernel

end Session

end MiniLisp
