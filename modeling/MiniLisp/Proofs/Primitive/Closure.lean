import MiniLisp.Primitive.HigherOrder

/-!
# What primitives make of their arguments

A primitive makes new numbers and booleans, and otherwise takes its arguments and their items apart
and puts them together into lists. So a property of values that numbers, booleans and none have,
and that a list has when its items do (`Value.Hereditary`), passes from the arguments of a
primitive to its result (`Operation.compute_yields`) and to the arguments that `map` and `apply`
hand on (`mapCalls_yields`, `applyCall_yields`). What they refuse they report by the name of a
primitive and by what was wrong with it (`Misuse.Concerns`), and never as an unfilled placeholder.
-/

namespace MiniLisp

/-- A property of values that is decided by the strings, symbols and procedures in them. -/
structure Value.Hereditary (P : Value → Prop) : Prop where
  number : ∀ x, P (.number x)
  boolean : ∀ b, P (.boolean b)
  none : P .none
  list : ∀ {items}, P (.list items) ↔ ∀ v ∈ items, P v

theorem Value.Hereditary.trivial : Value.Hereditary fun _ => True where
  number _ := True.intro
  boolean _ := True.intro
  none := True.intro
  list := by simp

theorem Value.Hereditary.and {P Q : Value → Prop} (hP : Value.Hereditary P)
    (hQ : Value.Hereditary Q) : Value.Hereditary fun v => P v ∧ Q v where
  number x := ⟨hP.number x, hQ.number x⟩
  boolean b := ⟨hP.boolean b, hQ.boolean b⟩
  none := ⟨hP.none, hQ.none⟩
  list {items} := by simp only [hP.list, hQ.list, forall_and]

/-- A misuse that is reported of values that satisfy `P` and of trees that satisfy `Q`. -/
inductive Misuse.Concerns (P : Value → Prop) (Q : Sexp → Prop) : Misuse → Prop
  | operandCount (form : Form) (expected got : Nat) : Concerns P Q (.operandCount form expected got)
  | notASymbol (form : Form) {tree : Sexp} (h : Q tree) : Concerns P Q (.notASymbol form tree)
  | notParameters {tree : Sexp} (h : Q tree) : Concerns P Q (.notParameters tree)
  | argumentCount {id : Nat} {name : String} {parameters : List String} {template : Sexp}
    (h : P (.function (.declared id name parameters template))) (got : Nat) :
    Concerns P Q (.argumentCount name parameters.length got)
  | primitiveCount (p : Primitive) (expected got : Nat) :
    Concerns P Q (.argumentCount p.name expected got)
  | noArguments (p : Primitive) : Concerns P Q (.noArguments p.name)
  | unexpected (p : Primitive) (demand : Demand) {v : Value} (h : P v) :
    Concerns P Q (.unexpected p.name demand v)
  | headOfEmpty : Concerns P Q .headOfEmpty
  | mapArguments (got : Nat) : Concerns P Q (.mapArguments got)

/-- None of them is the evaluation of a placeholder. -/
theorem Misuse.Concerns.ne_unfilled {P : Value → Prop} {Q : Sexp → Prop} {m : Misuse}
    (h : m.Concerns P Q) (i : Nat) : m ≠ .unfilled i := by
  cases h <;> nofun

/-- A computation whose value, if it has one, satisfies `P`, and whose misuse satisfies `M`. -/
inductive Yields (M : Misuse → Prop) (P : α → Prop) : Except Misuse α → Prop
  | ok {a} (h : P a) : Yields M P (.ok a)
  | error {m} (h : M m) : Yields M P (.error m)

namespace Yields

variable {M : Misuse → Prop} {P : α → Prop} {Q : β → Prop}

theorem bind {x : Except Misuse α} {f : α → Except Misuse β} (hx : Yields M P x)
    (hf : ∀ a, P a → Yields M Q (f a)) : Yields M Q (x >>= f) := by
  cases hx with
  | ok h => exact hf _ h
  | error h => exact .error h

theorem mapM {f : α → Except Misuse β} {l : List α} (hf : ∀ a ∈ l, Yields M Q (f a)) :
    Yields M (fun k => ∀ b ∈ k, Q b) (l.mapM f) := by
  induction l with
  | nil => exact .ok (by simp)
  | cons a l ih =>
    rw [List.mapM_cons]
    refine (hf a List.mem_cons_self).bind fun b hb => ?_
    refine (ih fun c hc => hf c (List.mem_cons_of_mem a hc)).bind fun bs hbs => ?_
    exact .ok (by simpa using ⟨hb, hbs⟩)

theorem trivial {x : Except Misuse α} (hx : Yields M P x) : Yields M (fun _ => True) x := by
  cases hx with
  | ok h => exact .ok True.intro
  | error h => exact .error h

end Yields

section Arguments

variable {P : Value → Prop} {Q : Sexp → Prop} (p : Primitive) {v : Value} {args : List Value}

theorem expectNumber_yields (hv : P v) :
    Yields (Misuse.Concerns P Q) (fun _ => True) (expectNumber p.name v) := by
  cases v with
  | number x => exact .ok True.intro
  | _ => exact .error (.unexpected p .numbers hv)

theorem expectNumbers_yields (hargs : ∀ v ∈ args, P v) :
    Yields (Misuse.Concerns P Q) (fun _ => True) (expectNumbers p.name args) :=
  (Yields.mapM fun v hv => expectNumber_yields p (hargs v hv)).trivial

theorem expectList_yields (hP : Value.Hereditary P) (hv : P v) :
    Yields (Misuse.Concerns P Q) (fun items => ∀ w ∈ items, P w) (expectList p.name v) := by
  cases v with
  | list items => exact .ok (hP.list.1 hv)
  | _ => exact .error (.unexpected p .list hv)

theorem expectLists_yields (hP : Value.Hereditary P) (hargs : ∀ v ∈ args, P v) :
    Yields (Misuse.Concerns P Q) (fun lists => ∀ items ∈ lists, ∀ w ∈ items, P w)
      (expectLists p.name args) :=
  .mapM fun v hv => expectList_yields p hP (hargs v hv)

theorem expectFunction_yields (hv : P v) :
    Yields (Misuse.Concerns P Q) (fun f => P (.function f)) (expectFunction p.name v) := by
  cases v with
  | function f => exact .ok hv
  | _ => exact .error (.unexpected p .function hv)

theorem expectOne_yields (hargs : ∀ v ∈ args, P v) :
    Yields (Misuse.Concerns P Q) P (expectOne p.name args) := by
  unfold expectOne
  split
  · exact .ok (hargs _ List.mem_cons_self)
  · exact .error (.primitiveCount p _ _)

theorem expectTwo_yields (hargs : ∀ v ∈ args, P v) :
    Yields (Misuse.Concerns P Q) (fun p => P p.1 ∧ P p.2) (expectTwo p.name args) := by
  unfold expectTwo
  split
  · exact .ok ⟨hargs _ (by simp), hargs _ (by simp)⟩
  · exact .error (.primitiveCount p _ _)

end Arguments

section Operations

variable {P : Value → Prop} {Q : Sexp → Prop} (hP : Value.Hereditary P) {args : List Value}
  (hargs : ∀ v ∈ args, P v)

include hP hargs in
theorem Arithmetic.compute_yields (op : Arithmetic) :
    Yields (Misuse.Concerns P Q) P (op.compute args) := by
  cases args with
  | nil => exact .error (.noArguments (.operation (.arithmetic op)))
  | cons v args =>
    obtain ⟨hv, hargs⟩ := List.forall_mem_cons.1 hargs
    refine (expectNumber_yields (.operation (.arithmetic op)) hv).bind fun x _ => ?_
    refine (expectNumbers_yields (.operation (.arithmetic op)) hargs).bind fun xs _ => ?_
    exact .ok (hP.number _)

include hargs in
theorem headOf_yields : Yields (Misuse.Concerns P Q) P (headOf args) := by
  cases args with
  | nil => exact .error .headOfEmpty
  | cons v args => exact .ok (hargs v List.mem_cons_self)

include hP in
theorem attached_of {v w : Value} (hv : P v) (hw : P w) : P (attached v w) := by
  cases w with
  | list items => exact hP.list.2 (by simpa using ⟨hv, hP.list.1 hw⟩)
  | _ => exact hP.list.2 (by simpa using ⟨hv, hw⟩)

include hP hargs in
/-- **What an operation computes** is made of its arguments. -/
theorem Operation.compute_yields (op : Operation) :
    Yields (Misuse.Concerns P Q) P (op.compute args) := by
  cases op with
  | arithmetic op => exact op.compute_yields hP hargs
  | power =>
    refine (expectTwo_yields (.operation .power) hargs).bind fun p hp => ?_
    refine (expectNumber_yields (.operation .power) hp.1).bind fun x _ => ?_
    refine (expectNumber_yields (.operation .power) hp.2).bind fun y _ => ?_
    exact .ok (hP.number _)
  | comparison rel =>
    refine (expectNumbers_yields (.operation (.comparison rel)) hargs).bind fun xs _ => ?_
    exact .ok (hP.boolean _)
  | equalNumbers =>
    refine (expectNumbers_yields (.operation .equalNumbers) hargs).bind fun xs _ => ?_
    exact .ok (hP.boolean _)
  | equal => exact .ok (hP.boolean _)
  | not =>
    refine (expectOne_yields (.operation .not) hargs).bind fun v hv => ?_
    split
    · exact .ok (hP.boolean _)
    · exact .error (.unexpected (.operation .not) .boolean hv)
  | elementary f =>
    refine (expectOne_yields (.operation (.elementary f)) hargs).bind fun v hv => ?_
    refine (expectNumber_yields (.operation (.elementary f)) hv).bind fun x _ => ?_
    exact .ok (hP.number _)
  | list => exact .ok (hP.list.2 hargs)
  | head | car =>
    refine (expectOne_yields (.operation .head) hargs).bind fun v hv => ?_
    refine (expectList_yields (.operation .head) hP hv).bind fun items hitems => ?_
    exact headOf_yields hitems
  | tail | cdr =>
    refine (expectOne_yields (.operation .tail) hargs).bind fun v hv => ?_
    refine (expectList_yields (.operation .tail) hP hv).bind fun items hitems => ?_
    exact .ok (hP.list.2 fun w hw => hitems w (List.mem_of_mem_tail hw))
  | attach | cons =>
    refine (expectTwo_yields (.operation .attach) hargs).bind fun p hp => ?_
    exact .ok (attached_of hP hp.1 hp.2)
  | length =>
    refine (expectOne_yields (.operation .length) hargs).bind fun v hv => ?_
    refine (expectList_yields (.operation .length) hP hv).bind fun items _ => ?_
    exact .ok (hP.number _)
  | is kind =>
    exact (expectOne_yields (.operation (.is kind)) hargs).bind fun v _ => .ok (hP.boolean _)
  | begin =>
    rw [Operation.compute]
    cases hv : args.getLast? with
    | some v => exact .ok (hargs v (List.mem_of_getLast? hv))
    | none => exact .error (.noArguments (.operation .begin))
  | only => exact expectOne_yields (.operation .only) hargs

theorem mem_zipWith_cons {column : List Value} {lists : List (List Value)}
    (hcolumn : ∀ v ∈ column, P v) (h : ∀ row ∈ lists, ∀ v ∈ row, P v) :
    ∀ row ∈ List.zipWith (· :: ·) column lists, ∀ v ∈ row, P v := by
  induction column generalizing lists with
  | nil => simp
  | cons w column ih =>
    cases lists with
    | nil => simp
    | cons l lists =>
      intro row hrow v hv
      simp only [List.zipWith_cons_cons, List.mem_cons] at hrow
      rcases hrow with rfl | hrow
      · rcases List.mem_cons.1 hv with rfl | hv
        · exact hcolumn v List.mem_cons_self
        · exact h l List.mem_cons_self v hv
      · exact ih (fun v hv => hcolumn v (List.mem_cons_of_mem _ hv))
          (fun r hr => h r (List.mem_cons_of_mem _ hr)) row hrow v hv

theorem mem_rows : ∀ {lists : List (List Value)}, (∀ items ∈ lists, ∀ v ∈ items, P v) →
    ∀ row ∈ rows lists, ∀ v ∈ row, P v
  | [], _ => by simp [rows]
  | [column], h => by simpa [rows] using h
  | column :: c :: columns, h =>
    mem_zipWith_cons (h column List.mem_cons_self)
      (mem_rows fun items hitems => h items (List.mem_cons_of_mem _ hitems))

include hP hargs in
theorem applyCall_yields :
    Yields (Misuse.Concerns P Q) (fun p => P (.function p.1) ∧ ∀ v ∈ p.2, P v)
      (applyCall args) := by
  refine (expectTwo_yields .apply hargs).bind fun p hp => ?_
  refine (expectFunction_yields .apply hp.1).bind fun f hf => ?_
  exact (expectList_yields .apply hP hp.2).bind fun items hitems => .ok ⟨hf, hitems⟩

include hP hargs in
theorem mapCalls_yields :
    Yields (Misuse.Concerns P Q) (fun p => P (.function p.1) ∧ ∀ row ∈ p.2, ∀ v ∈ row, P v)
      (mapCalls args) := by
  unfold mapCalls
  split
  · refine (expectFunction_yields .map (hargs _ List.mem_cons_self)).bind fun f hf => ?_
    refine (expectLists_yields .map hP fun v hv => hargs v (List.mem_cons_of_mem _ hv)).bind ?_
    exact fun lists hlists => .ok ⟨hf, mem_rows hlists⟩
  · exact .error (.mapArguments _)

theorem printedLine_yields :
    Yields (Misuse.Concerns P Q) (fun _ => True) (printedLine args) := by
  unfold printedLine
  split
  · exact .error (.noArguments .println)
  · exact .ok True.intro
  · exact .ok True.intro

end Operations

end MiniLisp
