import MiniLisp.Primitive.HigherOrder
import MiniLisp.Proofs.Value.Alike

/-!
# Primitives do not look into procedures

A primitive takes its arguments apart and compares them, but it never looks at more of a procedure
than its name and its identity. So on alike arguments it computes alike results, and where it
refuses the ones it refuses the others in the same words (`Operation.compute_agrees`). What `map`
and `apply` are to call corresponds as well (`mapCalls_agrees`, `applyCall_agrees`), and `println`
prints the same line (`printedLine_agrees`).
-/

namespace MiniLisp

/-- Two computations without effects agree: their results are related, or both are refused in the
same words. -/
inductive Agrees (V : α → β → Prop) : Except Misuse α → Except Misuse β → Prop
  | ok {a b} (h : V a b) : Agrees V (.ok a) (.ok b)
  | error {m n : Misuse} (h : m.message = n.message) : Agrees V (.error m) (.error n)

namespace Agrees

variable {V : α → β → Prop} {W : γ → δ → Prop}

theorem bind {x : Except Misuse α} {y : Except Misuse β} {f : α → Except Misuse γ}
    {g : β → Except Misuse δ} (hxy : Agrees V x y) (hfg : ∀ a b, V a b → Agrees W (f a) (g b)) :
    Agrees W (x >>= f) (y >>= g) := by
  cases hxy with
  | ok h => exact hfg _ _ h
  | error h => exact .error h

theorem imp {V' : α → β → Prop} {x : Except Misuse α} {y : Except Misuse β} (h : Agrees V x y)
    (himp : ∀ a b, V a b → V' a b) : Agrees V' x y := by
  cases h with
  | ok h => exact .ok (himp _ _ h)
  | error h => exact .error h

theorem mapM {f : α → Except Misuse γ} {g : β → Except Misuse δ} {l : List α} {k : List β}
    (hlk : List.Forall₂ V l k) (hfg : ∀ a b, V a b → Agrees W (f a) (g b)) :
    Agrees (List.Forall₂ W) (l.mapM f) (k.mapM g) := by
  induction hlk with
  | nil => exact .ok .nil
  | cons hab _ ih =>
    rw [List.mapM_cons, List.mapM_cons]
    refine (hfg _ _ hab).bind fun c d hcd => ih.bind fun cs ds hcds => ?_
    exact .ok (.cons hcd hcds)

end Agrees

variable {names : String → Prop} {P : Procedure → Procedure → Prop}

section Arguments

variable (hP : Procedure.Faithful P) {name : String} {v w : Value} {args args' : List Value}

theorem Misuse.message_unexpected (name : String) (demand : Demand) (v : Value) :
    (Misuse.unexpected name demand v).message =
      s!"{name} expects {demand.text}, got {v.kind.name} {v.text}" := rfl

include hP in
/-- A refused argument is named by its kind and its text. -/
theorem unexpected_agrees (V : α → β → Prop) (name : String) (demand : Demand)
    (h : Value.Alike names P v w) :
    Agrees V (.error (.unexpected name demand v)) (.error (.unexpected name demand w)) := by
  refine .error ?_
  rw [Misuse.message_unexpected, Misuse.message_unexpected, h.kind_eq, h.text_eq hP]

include hP in
theorem expectNumber_agrees (h : Value.Alike names P v w) :
    Agrees (· = ·) (expectNumber name v) (expectNumber name w) := by
  have hrefused := unexpected_agrees hP (Eq : Float → Float → Prop) name .numbers h
  cases h with
  | number x => exact .ok rfl
  | _ => exact hrefused

include hP in
theorem expectNumbers_agrees (h : List.Forall₂ (Value.Alike names P) args args') :
    Agrees (· = ·) (expectNumbers name args) (expectNumbers name args') := by
  have hall : Agrees (List.Forall₂ (· = ·)) (expectNumbers name args) _ :=
    .mapM h fun _ _ hvw => expectNumber_agrees hP hvw
  rwa [List.forall₂_eq_eq_eq] at hall

include hP in
theorem expectList_agrees (h : Value.Alike names P v w) :
    Agrees (List.Forall₂ (Value.Alike names P)) (expectList name v) (expectList name w) := by
  have hrefused := unexpected_agrees hP (List.Forall₂ (Value.Alike names P)) name .list h
  cases h with
  | list length h => exact .ok (Value.Alike.list_iff.1 (.list length h))
  | _ => exact hrefused

include hP in
theorem expectLists_agrees (h : List.Forall₂ (Value.Alike names P) args args') :
    Agrees (List.Forall₂ (List.Forall₂ (Value.Alike names P))) (expectLists name args)
      (expectLists name args') :=
  .mapM h fun _ _ hvw => expectList_agrees hP hvw

include hP in
theorem expectFunction_agrees (h : Value.Alike names P v w) :
    Agrees P (expectFunction name v) (expectFunction name w) := by
  have hrefused := unexpected_agrees hP P name .function h
  cases h with
  | function h => exact .ok h
  | _ => exact hrefused

theorem expectOne_agrees (h : List.Forall₂ (Value.Alike names P) args args') :
    Agrees (Value.Alike names P) (expectOne name args) (expectOne name args') := by
  match h with
  | .cons hv .nil => exact .ok hv
  | .nil => exact .error rfl
  | .cons _ (.cons _ h) =>
    rw [expectOne, expectOne, List.length_cons, List.length_cons, h.length_eq]
    · exact .error rfl
    all_goals simp

theorem expectTwo_agrees (h : List.Forall₂ (Value.Alike names P) args args') :
    Agrees (fun p q => Value.Alike names P p.1 q.1 ∧ Value.Alike names P p.2 q.2)
      (expectTwo name args) (expectTwo name args') := by
  match h with
  | .cons hv (.cons hw .nil) => exact .ok ⟨hv, hw⟩
  | .nil => exact .error rfl
  | .cons _ .nil => exact .error rfl
  | .cons _ (.cons _ (.cons _ h)) =>
    rw [expectTwo, expectTwo, List.length_cons, List.length_cons, List.length_cons, h.length_eq]
    · exact .error rfl
    all_goals simp

end Arguments

/-! ## Operations -/

section Operations

variable (hP : Procedure.Faithful P) {args args' : List Value}
  (h : List.Forall₂ (Value.Alike names P) args args')

include hP h in
theorem Arithmetic.compute_agrees (op : Arithmetic) :
    Agrees (Value.Alike names P) (op.compute args) (op.compute args') := by
  cases h with
  | nil => exact .error rfl
  | cons hv h =>
    refine (expectNumber_agrees hP hv).bind fun x y hxy => ?_
    refine (expectNumbers_agrees hP h).bind fun xs ys hxys => ?_
    rw [hxy, hxys]
    exact .ok (.number _)

include hP h in
theorem allEqual_eq : allEqual args = allEqual args' := by
  cases h with
  | nil => rfl
  | @cons v w l k hv h =>
    have hall : ∀ {l k : List Value}, List.Forall₂ (Value.Alike names P) l k →
        l.all (·.equal v) = k.all (·.equal w) := by
      intro l k hlk
      induction hlk with
      | nil => rfl
      | cons hab _ ih => rw [List.all_cons, List.all_cons, hab.equal_eq hP hv, ih]
    exact hall (.cons hv h)

include h in
theorem headOf_agrees : Agrees (Value.Alike names P) (headOf args) (headOf args') := by
  cases h with
  | nil => exact .error rfl
  | cons hv _ => exact .ok hv

theorem attached_alike {v w v' w' : Value} (hv : Value.Alike names P v v')
    (hw : Value.Alike names P w w') : Value.Alike names P (attached v w) (attached v' w') := by
  have hpair := Value.Alike.list_iff.2 (.cons hv (.cons hw .nil))
  cases hw with
  | list length h =>
    exact Value.Alike.list_iff.2 (.cons hv (Value.Alike.list_iff.1 (.list length h)))
  | _ => exact hpair

include hP h in
/-- **What an operation computes** of alike arguments is alike. -/
theorem Operation.compute_agrees (op : Operation) :
    Agrees (Value.Alike names P) (op.compute args) (op.compute args') := by
  cases op with
  | arithmetic op => exact op.compute_agrees hP h
  | power =>
    refine (expectTwo_agrees h).bind fun p q hpq => ?_
    refine (expectNumber_agrees hP hpq.1).bind fun x x' hx => ?_
    refine (expectNumber_agrees hP hpq.2).bind fun y y' hy => ?_
    rw [hx, hy]
    exact .ok (.number _)
  | comparison rel =>
    refine (expectNumbers_agrees hP h).bind fun xs ys hxys => ?_
    rw [hxys]
    exact .ok (.boolean _)
  | equalNumbers =>
    refine (expectNumbers_agrees hP h).bind fun xs ys hxys => ?_
    rw [hxys]
    exact .ok (.boolean _)
  | equal =>
    rw [Operation.compute, Operation.compute, allEqual_eq hP h]
    exact .ok (.boolean _)
  | not =>
    refine (expectOne_agrees h).bind fun v w hvw => ?_
    have hrefused :=
      unexpected_agrees hP (Value.Alike names P) Operation.not.name .boolean hvw
    cases hvw with
    | boolean b => exact .ok (.boolean _)
    | _ => exact hrefused
  | elementary f =>
    refine (expectOne_agrees h).bind fun v w hvw => ?_
    refine (expectNumber_agrees hP hvw).bind fun x y hxy => ?_
    rw [hxy]
    exact .ok (.number _)
  | list => exact .ok (Value.Alike.list_iff.2 h)
  | head | car =>
    refine (expectOne_agrees h).bind fun v w hvw => ?_
    exact (expectList_agrees hP hvw).bind fun _ _ hitems => headOf_agrees hitems
  | tail | cdr =>
    refine (expectOne_agrees h).bind fun v w hvw => ?_
    refine (expectList_agrees hP hvw).bind fun items items' hitems => ?_
    cases hitems with
    | nil => exact .ok (Value.Alike.list_iff.2 .nil)
    | cons _ hitems => exact .ok (Value.Alike.list_iff.2 hitems)
  | attach | cons =>
    exact (expectTwo_agrees h).bind fun p q hpq => .ok (attached_alike hpq.1 hpq.2)
  | length =>
    refine (expectOne_agrees h).bind fun v w hvw => ?_
    refine (expectList_agrees hP hvw).bind fun items items' hitems => ?_
    rw [hitems.length_eq]
    exact .ok (.number _)
  | is kind =>
    refine (expectOne_agrees h).bind fun v w hvw => ?_
    rw [hvw.kind_eq]
    exact .ok (.boolean _)
  | begin =>
    rw [Operation.compute, Operation.compute, List.getLast?_eq_getElem?,
      List.getLast?_eq_getElem?, h.length_eq]
    have hlast := rel_getElem? h (args'.length - 1)
    generalize args[args'.length - 1]? = r at hlast
    generalize args'[args'.length - 1]? = q at hlast
    cases hlast with
    | none => exact .error rfl
    | some hv => exact .ok hv
  | only => exact expectOne_agrees h

/-! ## Calls and lines -/

theorem zipWith_cons_forall₂ {R : α → β → Prop} {column : List α} {column' : List β}
    {lists : List (List α)} {lists' : List (List β)} (h : List.Forall₂ R column column')
    (hlists : List.Forall₂ (List.Forall₂ R) lists lists') :
    List.Forall₂ (List.Forall₂ R) (List.zipWith (· :: ·) column lists)
      (List.zipWith (· :: ·) column' lists') := by
  induction h generalizing lists lists' with
  | nil => exact .nil
  | cons hab _ ih =>
    cases hlists with
    | nil => exact .nil
    | cons hl hlists => exact .cons (.cons hab hl) (ih hlists)

/-- Columns that correspond have rows that correspond. -/
theorem rows_forall₂ {R : α → β → Prop} : ∀ {lists : List (List α)} {lists' : List (List β)},
    List.Forall₂ (List.Forall₂ R) lists lists' →
      List.Forall₂ (List.Forall₂ R) (rows lists) (rows lists')
  | [], _, .nil => .nil
  | [column], _, .cons h .nil => by
    rw [rows, rows, List.forall₂_map_left_iff, List.forall₂_map_right_iff]
    exact h.imp fun _ _ hab => .cons hab .nil
  | _ :: _ :: _, _, .cons h (.cons h' hs) => zipWith_cons_forall₂ h (rows_forall₂ (.cons h' hs))

include hP h in
theorem applyCall_agrees :
    Agrees (fun p q => P p.1 q.1 ∧ List.Forall₂ (Value.Alike names P) p.2 q.2) (applyCall args)
      (applyCall args') := by
  refine (expectTwo_agrees h).bind fun p q hpq => ?_
  refine (expectFunction_agrees hP hpq.1).bind fun f g hfg => ?_
  exact (expectList_agrees hP hpq.2).bind fun _ _ hitems => .ok ⟨hfg, hitems⟩

include hP h in
theorem mapCalls_agrees :
    Agrees (fun p q => P p.1 q.1 ∧ List.Forall₂ (List.Forall₂ (Value.Alike names P)) p.2 q.2)
      (mapCalls args) (mapCalls args') := by
  match h with
  | .nil => exact .error rfl
  | .cons _ .nil => exact .error rfl
  | .cons hv (.cons hw h) =>
    refine (expectFunction_agrees hP hv).bind fun f g hfg => ?_
    refine (expectLists_agrees hP (.cons hw h)).bind fun lists lists' hlists => ?_
    exact .ok ⟨hfg, rows_forall₂ hlists⟩

include hP h in
theorem printedLine_agrees : Agrees (· = ·) (printedLine args) (printedLine args') := by
  match h with
  | .nil => exact .error rfl
  | .cons hv .nil => exact .ok (hv.text_eq hP)
  | .cons hv (.cons hw h) => exact .ok ((Value.Alike.list_iff.2 (.cons hv (.cons hw h))).text_eq hP)

end Operations

end MiniLisp
