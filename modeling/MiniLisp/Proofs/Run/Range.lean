import MiniLisp.Proofs.Number.Integers
import MiniLisp.Proofs.Run.Depth
import MiniLisp.Proofs.Run.Steady

/-!
# Ranges

A procedure of the language, `range`, makes the list of the integers between two integers. For
integers that doubles can count, it is told which limits of the depth are enough and what it gives
then (`Session.range_exact`): each integer of the list costs three levels, two for the application
inside an application and one for the form around them.
-/

namespace MiniLisp

/-! ## The procedure -/

def rangeText : String :=
  "(function range (a b) (if (= a b) a (attach a (range (+ a 1) b))))"

/-- A call of the procedure. -/
def rangeCall (a b : Sexp) : Sexp :=
  .expression [.atom (.symbol "range"), a, b]

/-- One more than a number. -/
def successor (a : Sexp) : Sexp :=
  .expression [.atom (.symbol "+"), a, .atom (.number (.ofInt 1))]

/-- The body of the procedure, between two trees. -/
def rangeBody (a b : Sexp) : Sexp :=
  .expression [.atom (.symbol "if"), .expression [.atom (.symbol "="), a, b], a,
    .expression [.atom (.symbol "attach"), a, rangeCall (successor a) b]]

theorem parse_rangeText :
    parse rangeText = .ok (.expression [.atom (.symbol "function"), .atom (.symbol "range"),
      .expression [.atom (.symbol "a"), .atom (.symbol "b")],
      rangeBody (.atom (.symbol "a")) (.atom (.symbol "b"))]) := by
  rfl

theorem filled_rangeBody (v w : Value) :
    (rangeBody (.placeholder 0) (.placeholder 1)).filled [v, w] = rangeBody (.atom v) (.atom w) :=
  rfl

namespace Environment

/-- The operations that the procedure uses go by their names. -/
def HasRangeOperations (e : Environment) : Prop :=
  ∀ op ∈ [Operation.equalNumbers, .arithmetic .add, .attach],
    e.get? op.name = some (.function (.primitive (.operation op)))

/-- The procedure has been declared, and what it uses goes by the names it uses. -/
structure DefinesRange (e : Environment) : Prop where
  operations : e.HasRangeOperations
  declared : ∃ id, e.get? "range" = some
    (.function (.declared id "range" ["a", "b"] (rangeBody (.placeholder 0) (.placeholder 1))))

end Environment

/-- The value of a call: the list of the integers from `a` to `b`, but for one integer only that. -/
def rangeValue (a b : Int) : Value :=
  if a = b then .number (.ofInt a)
  else .list ((List.range ((b - a).toNat + 1)).map fun i : Nat => .number (.ofInt (a + i)))

theorem rangeValue_self (a : Int) : rangeValue a a = .number (.ofInt a) :=
  if_pos rfl

/-- One more integer is put before the others, or before the only one. -/
theorem attached_rangeValue {a b : Int} (h : a < b) :
    attached (.number (.ofInt a)) (rangeValue (a + 1) b) = rangeValue a b := by
  have hcount : (b - a).toNat = (b - (a + 1)).toNat + 1 := by omega
  have hshift : ∀ i : Nat, a + (i + 1 : Nat) = a + 1 + i := fun i => by omega
  have hlist : rangeValue a b = .list (.number (.ofInt a) ::
      (List.range ((b - (a + 1)).toNat + 1)).map fun i : Nat => .number (.ofInt (a + 1 + i))) := by
    rw [rangeValue, if_neg (Int.ne_of_lt h), hcount, List.range_succ_eq_map, List.map_cons,
      List.map_map]
    simp only [Function.comp_def, Nat.succ_eq_add_one, hshift, Int.natCast_zero, Int.add_zero]
  rw [hlist]
  by_cases hlast : a + 1 = b
  · subst hlast
    rw [rangeValue_self, Int.sub_self]
    simp [attached]
  · rw [rangeValue, if_neg hlast, attached]

/-! ## One call -/

/-- The tree of an integer. -/
def integer (a : Int) : Sexp :=
  .atom (.number (.ofInt a))

section OneCall

variable {e : Environment} {config : Config} {a b : Int} {budget : Nat}

/-- The body takes two levels for its test. -/
theorem gives_body_overflow (a b : Int) (h : budget < 3) :
    Gives e (evaluate config budget (rangeBody (integer a) (integer b)))
      (.error (.overflow config.maxDepth)) := by
  cases budget with
  | zero => exact .overflow _
  | succ budget => exact .conditional_error (.application_overflow rfl (Nat.lt_of_succ_lt_succ h))

variable (he : e.DefinesRange)

include he

theorem gives_equal_test (ha : a.natAbs ≤ 2 ^ 53) (hb : b.natAbs ≤ 2 ^ 53) (budget : Nat) :
    Gives e (evaluate config (budget + 2)
      (.expression [.atom (.symbol "="), integer a, integer b])) (.ok (.boolean (b = a))) := by
  refine .application rfl (he.operations .equalNumbers (by decide)) ?_
  refine (Gives.mapM (.cons (.number _ _) (.cons (.number _ _) .nil))).andThen (.operation ?_)
  change Except.ok (Value.boolean ([Float.ofInt a, Float.ofInt b].all (· == Float.ofInt a))) = _
  simp [ofInt_beq_ofInt ha ha, ofInt_beq_ofInt hb ha]

theorem gives_successor (ha : a.natAbs ≤ 2 ^ 53) (budget : Nat) :
    Gives e (evaluate config (budget + 2) (successor (integer a)))
      (.ok (.number (.ofInt (min (a + 1) (2 ^ 53))))) := by
  refine .application rfl (he.operations (.arithmetic .add) (by decide)) ?_
  refine (Gives.mapM (.cons (.number _ _) (.cons (.number _ _) .nil))).andThen (.operation ?_)
  rw [← ofInt_add_one ha]
  rfl

/-- A call takes one level for itself and hands the rest to the body. -/
theorem gives_call {t : Sexp} {result : Except Fault Value}
    (ht : Gives e (evaluate config (budget + 1) t) (.ok (.number (.ofInt a))))
    (h : Gives e (evaluate config (budget + 1) (rangeBody (integer a) (integer b))) result) :
    Gives e (evaluate config (budget + 2) (rangeCall t (integer b))) result := by
  obtain ⟨id, hid⟩ := he.declared
  refine .application rfl hid ?_
  refine (Gives.mapM (.cons ht (.cons (.number _ _) .nil))).andThen (.declared rfl ?_)
  exact filled_rangeBody (.number (.ofInt a)) (.number (.ofInt b)) ▸ h

/-- The call inside the body needs two levels more for its first operand. -/
theorem gives_call_overflow (a b : Int) (h : budget < 3) :
    Gives e (evaluate config budget (rangeCall (successor (integer a)) (integer b)))
      (.error (.overflow config.maxDepth)) := by
  rcases Nat.lt_or_eq_of_le (Nat.le_of_lt_succ h) with hlt | rfl
  · exact .application_overflow rfl hlt
  · obtain ⟨id, hid⟩ := he.declared
    refine .application rfl hid ?_
    exact (Gives.mapM_error .nil (.application_overflow rfl (by decide))).andThen_error

theorem gives_body_self (ha : a.natAbs ≤ 2 ^ 53) (budget : Nat) :
    Gives e (evaluate config (budget + 3) (rangeBody (integer a) (integer a)))
      (.ok (.number (.ofInt a))) := by
  refine .conditional (gives_equal_test he ha ha budget) ?_
  rw [decide_eq_true rfl]
  exact .number _ _

/-- The body attaches its first number to what the call inside it gives. -/
theorem gives_body_of_call (ha : a.natAbs ≤ 2 ^ 53) (hb : b.natAbs ≤ 2 ^ 53) (hne : a ≠ b)
    {result : Except Fault Value}
    (h : Gives e (evaluate config (budget + 1) (rangeCall (successor (integer a)) (integer b)))
      result) :
    Gives e (evaluate config (budget + 3) (rangeBody (integer a) (integer b)))
      (result.map (attached (.number (.ofInt a)))) := by
  refine .conditional (gives_equal_test he ha hb budget) ?_
  rw [decide_eq_false (Ne.symm hne)]
  refine .application rfl (he.operations .attach (by decide)) ?_
  cases result with
  | ok v => exact (Gives.mapM (.cons (.number _ _) (.cons h .nil))).andThen (.operation rfl)
  | error fault =>
    exact (Gives.mapM_error (.cons (.number _ _) .nil) h).andThen_error

/-! ## All calls -/

theorem gives_body_short (ha : a.natAbs ≤ 2 ^ 53) (hb : b.natAbs ≤ 2 ^ 53) (hne : a ≠ b)
    (h : budget < 5) :
    Gives e (evaluate config budget (rangeBody (integer a) (integer b)))
      (.error (.overflow config.maxDepth)) := by
  rcases Nat.lt_or_ge budget 3 with hlt | hge
  · exact gives_body_overflow a b hlt
  · obtain ⟨budget, rfl⟩ := Nat.exists_eq_add_of_le' hge
    exact gives_body_of_call he ha hb hne (gives_call_overflow he a b (by omega))

/-- From one integer to the next one the body takes three levels. -/
theorem gives_body_step (ha : a.natAbs ≤ 2 ^ 53) (hb : b.natAbs ≤ 2 ^ 53) (hne : a ≠ b)
    {result : Except Fault Value}
    (h : Gives e (evaluate config (budget + 2)
      (rangeBody (integer (min (a + 1) (2 ^ 53))) (integer b))) result) :
    Gives e (evaluate config (budget + 5) (rangeBody (integer a) (integer b)))
      (result.map (attached (.number (.ofInt a)))) :=
  gives_body_of_call he ha hb hne (gives_call he (gives_successor he ha budget) h)

/-- **The body up to `b`**, by induction on how far it is. -/
theorem gives_body_up (n : Nat) (ha : a.natAbs ≤ 2 ^ 53) (hb : b.natAbs ≤ 2 ^ 53)
    (hn : b = a + n) (budget : Nat) :
    Gives e (evaluate config budget (rangeBody (integer a) (integer b)))
      (if budget < 3 * n + 3 then .error (.overflow config.maxDepth)
        else .ok (rangeValue a b)) := by
  induction n generalizing a budget with
  | zero =>
    obtain rfl : b = a := by omega
    split
    · rename_i h
      exact gives_body_overflow b b h
    · rename_i h
      obtain ⟨budget, rfl⟩ := Nat.exists_eq_add_of_le' (Nat.ge_of_not_lt h)
      rw [rangeValue_self]
      exact gives_body_self he ha budget
  | succ n ih =>
    have hne : a ≠ b := by omega
    rcases Nat.lt_or_ge budget 5 with hlt | hge
    · rw [if_pos (by omega)]
      exact gives_body_short he ha hb hne hlt
    · obtain ⟨budget, rfl⟩ := Nat.exists_eq_add_of_le' hge
      have hnext : min (a + 1) (2 ^ 53) = a + 1 := by omega
      have hrest := ih (a := a + 1) (by omega) (by omega) (budget + 2)
      rcases Nat.lt_or_ge (budget + 2) (3 * n + 3) with hlt | hge
      · rw [if_pos hlt] at hrest
        rw [if_pos (by omega)]
        exact gives_body_step he ha hb hne (hnext ▸ hrest)
      · rw [if_neg (Nat.not_lt_of_ge hge)] at hrest
        rw [if_neg (by omega), ← attached_rangeValue (by omega)]
        change Gives e _ (Except.map _ (.ok (rangeValue (a + 1) b)))
        refine gives_body_step he ha hb hne ?_
        rwa [hnext]

/-- **The body away from `b`**: each call is further from it or at the end of the range. -/
theorem gives_body_down (ha : a.natAbs ≤ 2 ^ 53) (hb : b.natAbs ≤ 2 ^ 53) (h : b < a)
    (budget : Nat) :
    Gives e (evaluate config budget (rangeBody (integer a) (integer b)))
      (.error (.overflow config.maxDepth)) := by
  induction budget using Nat.strongRecOn generalizing a with
  | ind budget ih =>
    rcases Nat.lt_or_ge budget 5 with hlt | hge
    · exact gives_body_short he ha hb (Int.ne_of_gt h) hlt
    · obtain ⟨budget, rfl⟩ := Nat.exists_eq_add_of_le' hge
      exact gives_body_step he ha hb (Int.ne_of_gt h)
        (ih (budget + 2) (by omega) (by omega) (by omega))

end OneCall

/-- **A call of the procedure**, within any budget. -/
theorem gives_rangeCall {e : Environment} (he : e.DefinesRange) {config : Config} {a b : Int}
    (ha : a.natAbs ≤ 2 ^ 53) (hb : b.natAbs ≤ 2 ^ 53) (budget : Nat) :
    Gives e (evaluate config budget (rangeCall (integer a) (integer b)))
      (if b < a ∨ (budget : Int) < 3 * (b - a) + 4 then .error (.overflow config.maxDepth)
        else .ok (rangeValue a b)) := by
  rcases Nat.lt_or_ge budget 2 with hlt | hge
  · rw [if_pos (by omega)]
    exact .application_overflow rfl hlt
  · obtain ⟨budget, rfl⟩ := Nat.exists_eq_add_of_le' hge
    refine gives_call he (.number _ _) ?_
    rcases lt_or_ge b a with hdown | hup
    · rw [if_pos (.inl hdown)]
      exact gives_body_down he ha hb hdown _
    · convert gives_body_up he (b - a).toNat ha hb (by omega) (budget + 1) using 2
      omega

namespace Environment

theorem fresh_hasRangeOperations : fresh.HasRangeOperations := by
  intro op hop
  simp only [List.mem_cons, List.not_mem_nil, or_false] at hop
  rcases hop with rfl | rfl | rfl <;> rfl

/-- The declaration binds no name but its own. -/
theorem HasRangeOperations.define {e : Environment} (h : e.HasRangeOperations) (id : Nat) :
    (e.define "range" (.function (.declared id "range" ["a", "b"]
      (rangeBody (.placeholder 0) (.placeholder 1))))).DefinesRange where
  operations op hop := by
    have hname : "range" ≠ op.name := by
      simp only [List.mem_cons, List.not_mem_nil, or_false] at hop
      rcases hop with rfl | rfl | rfl <;> decide
    rw [get?_define, if_neg hname]
    exact h op hop
  declared := ⟨id, by rw [get?_define, if_pos rfl]⟩

end Environment

namespace Session

/-- The text declares the procedure. -/
theorem definesRange_of_text {s : Session} (hs : s.environment.HasRangeOperations)
    (hlimit : 0 < s.config.maxDepth) :
    (s.evaluateText rangeText).1 = .ok .none ∧
      (s.evaluateText rangeText).2.environment.DefinesRange := by
  obtain ⟨⟨limit, echo⟩, state⟩ := s
  rw [evaluateText_of_parse parse_rangeText]
  cases limit with
  | zero => cases hlimit
  | succ budget => exact ⟨rfl, hs.define state.declarations⟩

/-- **The procedure makes ranges, each integer in three levels.** Once its text has been evaluated,
a call of it gives the integers from the first to the last one if the limit is high enough for
them, and overflows otherwise; it overflows under every limit if the last one comes before the
first. -/
theorem range_exact :
    (∀ s : Session, s.environment.HasRangeOperations → 0 < s.config.maxDepth →
      (s.evaluateText rangeText).1 = .ok .none ∧
        (s.evaluateText rangeText).2.environment.DefinesRange) ∧
    ∀ s : Session, s.environment.DefinesRange →
      ∀ a b : Int, a.natAbs ≤ 2 ^ 53 → b.natAbs ≤ 2 ^ 53 → ∀ limit : Nat,
        let tree := rangeCall (integer a) (integer b)
        let answer : Except Fault Value :=
          if b < a ∨ (limit : Int) < 3 * (b - a) + 4 then .error (.overflow limit)
          else .ok (rangeValue a b)
        ((s.withLimit limit).evaluateTree tree).1 = answer ∧
          ∀ source, parse source = .ok tree →
            ((s.withLimit limit).evaluateText source).1 = answer := by
  refine ⟨fun s => definesRange_of_text, ?_⟩
  intro s hs a b ha hb limit tree answer
  have hgives : Gives s.environment (evaluate (s.withLimit limit).config limit tree) answer :=
    gives_rangeCall hs ha hb limit
  refine ⟨Gives.session (s := s.withLimit limit) hgives, fun source hsource => ?_⟩
  rw [evaluateText_of_parse hsource]
  exact Gives.session (s := s.withLimit limit) ((Gives.report _).andThen hgives)

/-- The limits at which the integers from -1 to 1 become possible. -/
theorem range_exact_three :
    let s := ((Session.start .standard .unlimited).evaluateText rangeText).2
    let answer (limit : Nat) := ((s.withLimit limit).evaluateText "(range -1 1)").1
    answer 9 = .error (.overflow 9) ∧
      answer 10 = .ok (.list [.number (-1), .number 0, .number 1]) ∧
      ((s.withLimit 10).evaluateText "(range 1 -1)").1 = .error (.overflow 10) := by
  intro s answer
  obtain ⟨hdeclares, hcalls⟩ := range_exact
  have hs : s.environment.DefinesRange :=
    (hdeclares (.start .standard .unlimited) Environment.fresh_hasRangeOperations (by decide)).2
  have hup : parse "(range -1 1)" = .ok (rangeCall (integer (-1)) (integer 1)) := by rfl
  have hdown : parse "(range 1 -1)" = .ok (rangeCall (integer 1) (integer (-1))) := by rfl
  have hsmall := (hcalls s hs (-1) 1 (by decide) (by decide) 9).2 _ hup
  have hlarge := (hcalls s hs (-1) 1 (by decide) (by decide) 10).2 _ hup
  have hnone := (hcalls s hs 1 (-1) (by decide) (by decide) 10).2 _ hdown
  exact ⟨hsmall, hlarge, hnone⟩

end Session

end MiniLisp
