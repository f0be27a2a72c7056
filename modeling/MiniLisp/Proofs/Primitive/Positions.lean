import Mathlib.Data.List.Basic
import MiniLisp.Primitive.HigherOrder

/-!
# Arguments by position

The primitives once more, as computations that get at their arguments by position: the first of some
numbers, those from the second one on, the item of each list that stands at an index. Here a
position can be out of range, and a computation then stops in a way of its own
(`Stop.outOfRange`). It never does: each comes to what the computation by cases gives
(`Operation.computeAt_eq`, `printedLineAt_eq`, `mapCallsAt_eq`), since what is checked first, or a
loop that has nothing to go through, keeps every position in range.
-/

namespace MiniLisp

/-! ## Items -/

/-- Why a computation by position has no value. -/
inductive Stop where
  | misuse (fault : Misuse)
  /-- There is nothing at this position of so many items. -/
  | outOfRange (position length : Nat)

/-- A computation that gets at nothing by position. -/
def checked (r : Except Misuse α) : Except Stop α :=
  r.mapError .misuse

def itemAt (items : List α) (i : Nat) : Except Stop α :=
  if h : i < items.length then .ok items[i] else .error (.outOfRange i items.length)

/-- The items from a position on, which may be the one right after the last. -/
def itemsFrom (items : List α) (i : Nat) : Except Stop (List α) :=
  if i ≤ items.length then .ok (items.drop i) else .error (.outOfRange i items.length)

theorem itemAt_of_lt {items : List α} {i : Nat} (h : i < items.length) :
    itemAt items i = .ok items[i] :=
  dif_pos h

theorem itemAt_zero (a : α) (items : List α) : itemAt (a :: items) 0 = .ok a :=
  itemAt_of_lt (Nat.zero_lt_succ _)

theorem itemsFrom_one (a : α) (items : List α) : itemsFrom (a :: items) 1 = .ok items :=
  if_pos (Nat.le_add_left 1 _)

theorem mapM_eq_ok {ε : Type} {f : α → Except ε β} {g : α → β} {l : List α}
    (h : ∀ a ∈ l, f a = .ok (g a)) : l.mapM f = .ok (l.map g) := by
  induction l with
  | nil => rfl
  | cons a l ih =>
    rw [List.mapM_cons, h a List.mem_cons_self, ih fun b hb => h b (List.mem_cons_of_mem a hb)]
    rfl

/-- Numbers from at least one value are at least one. -/
theorem expectNumbers_cons (name : String) (v : Value) (args : List Value) :
    expectNumbers name (v :: args) = (do
      let x ← expectNumber name v
      return x :: (← expectNumbers name args)) := by
  rw [expectNumbers, List.mapM_cons]
  rfl

/-! ## Operations -/

/-- Any count of arguments but none. -/
def expectSome (name : String) (args : List Value) : Except Misuse Unit :=
  if args.isEmpty then .error (.noArguments name) else .ok ()

def expectCount (name : String) (count : Nat) (args : List Value) : Except Misuse Unit :=
  if args.length = count then .ok () else .error (.argumentCount name count args.length)

/-- All numbers taken together from the left. -/
def Arithmetic.foldAt (op : Arithmetic) (args : List Value) : Except Stop Value := do
  checked (expectSome op.name args)
  let numbers ← checked (expectNumbers op.name args)
  let rest ← itemsFrom numbers 1
  let first ← itemAt numbers 0
  return .number (rest.foldl op.combine first)

/-- A difference and a quotient of one number are cases of their own. -/
def Arithmetic.computeAt : Arithmetic → List Value → Except Stop Value
  | .subtract, [v] => do
    return .number (-(← checked (expectNumber Arithmetic.subtract.name v)))
  | .divide, [v] => do
    return .number (1 / (← checked (expectNumber Arithmetic.divide.name v)))
  | op, args => op.foldAt args

/-- What an operation gives for its arguments, got at by position. -/
def Operation.computeAt : Operation → List Value → Except Stop Value
  | .arithmetic op, args => op.computeAt args
  | .power, args => do
    checked (expectCount Operation.power.name 2 args)
    let numbers ← checked (expectNumbers Operation.power.name args)
    return .number ((← itemAt numbers 0) ^ (← itemAt numbers 1))
  | .equalNumbers, args => do
    let numbers ← checked (expectNumbers Operation.equalNumbers.name args)
    return .boolean (← numbers.allM fun x => return x == (← itemAt numbers 0))
  | .equal, args => do
    return .boolean (← args.allM fun v => return v.equal (← itemAt args 0))
  | .elementary f, args => do
    checked (expectCount f.name 1 args)
    return .number (f.at (← checked (expectNumber f.name (← itemAt args 0))))
  -- the others take their arguments one after the other
  | op, args => checked (op.compute args)

theorem Arithmetic.foldAt_cons (op : Arithmetic) (v : Value) (args : List Value) :
    op.foldAt (v :: args) = checked (do
      let x ← expectNumber op.name v
      return .number ((← expectNumbers op.name args).foldl op.combine x)) := by
  change (checked (expectNumbers op.name (v :: args)) >>= fun numbers =>
    itemsFrom numbers 1 >>= fun rest => itemAt numbers 0 >>= fun first =>
      pure (.number (rest.foldl op.combine first)) : Except Stop Value) = _
  rw [expectNumbers_cons]
  cases expectNumber op.name v with
  | error m => rfl
  | ok x =>
    cases expectNumbers op.name args with
    | error m => rfl
    | ok xs =>
      change (itemsFrom (x :: xs) 1 >>= fun rest => itemAt (x :: xs) 0 >>= fun first =>
        pure (.number (rest.foldl op.combine first)) : Except Stop Value) = _
      rw [itemsFrom_one, itemAt_zero]
      rfl

theorem Arithmetic.computeAt_eq (op : Arithmetic) (args : List Value) :
    op.computeAt args = checked (op.compute args) := by
  match args with
  | [] => cases op <;> rfl
  | [v] =>
    cases op with
    | subtract | divide => cases v <;> rfl
    | add | multiply | maximum | minimum => exact Arithmetic.foldAt_cons _ v []
  | v :: w :: args =>
    have hfold : op.computeAt (v :: w :: args) = op.foldAt (v :: w :: args) := by
      cases op <;> rfl
    rw [hfold, Arithmetic.foldAt_cons, Arithmetic.compute, expectNumbers_cons]
    cases expectNumber op.name v with
    | error m => rfl
    | ok x =>
      cases expectNumber op.name w with
      | error m => rfl
      | ok y => cases expectNumbers op.name args <;> rfl

/-- A loop over some items may get at the first one: where it does, there is one. -/
theorem allM_itemAt_zero (p : α → α → Bool) (a : α) (items : List α) :
    ((a :: items).allM fun b => return p b (← itemAt (a :: items) 0) : Except Stop Bool) =
      .ok ((a :: items).all (p · a)) := by
  have hstep : (fun b => do return p b (← itemAt (a :: items) 0) : α → Except Stop Bool) =
      fun b => pure (p b a) := by
    funext b
    rw [itemAt_zero]
    rfl
  rw [hstep, List.allM_pure]
  rfl

/-- **Operations keep to the positions that there are.** -/
theorem Operation.computeAt_eq (op : Operation) (args : List Value) :
    op.computeAt args = checked (op.compute args) := by
  cases op with
  | arithmetic op => exact op.computeAt_eq args
  | power =>
    match args with
    | [] | [_] => rfl
    | [v, w] => cases v <;> cases w <;> rfl
    | _ :: _ :: _ :: _ =>
      rw [Operation.computeAt, expectCount, if_neg (by simp)]
      rfl
  | equalNumbers =>
    rw [Operation.computeAt, Operation.compute]
    cases expectNumbers Operation.equalNumbers.name args with
    | error m => rfl
    | ok numbers =>
      cases numbers with
      | nil => rfl
      | cons x numbers =>
        exact congrArg (Except.map Value.boolean) (allM_itemAt_zero (· == ·) x numbers)
  | equal =>
    cases args with
    | nil => rfl
    | cons v args =>
      exact congrArg (Except.map Value.boolean) (allM_itemAt_zero Value.equal v args)
  | elementary f =>
    match args with
    | [] => rfl
    | [v] => cases v <;> rfl
    | _ :: _ :: _ =>
      rw [Operation.computeAt, expectCount, if_neg (by simp)]
      rfl
  | _ => rfl

/-! ## Lines -/

/-- What `println` prints, its one argument got at by position. -/
def printedLineAt (args : List Value) : Except Stop String := do
  checked (expectSome Primitive.println.name args)
  if args.length = 1 then
    return (← itemAt args 0).text
  else
    return (Value.list args).text

theorem printedLineAt_eq (args : List Value) : printedLineAt args = checked (printedLine args) := by
  match args with
  | [] | [_] => rfl
  | v :: w :: args =>
    rw [printedLineAt, if_neg (by simp)]
    rfl

/-! ## Rows -/

/-- How many items the shortest of some lists has. -/
def shortest (lists : List (List α)) : Nat :=
  (lists.map List.length).min?.getD 0

/-- The items of some lists at a position, in their order. -/
def rowAt (lists : List (List α)) (i : Nat) : Except Stop (List α) :=
  lists.mapM (itemAt · i)

/-- What `map` is to call, and with which arguments in turn, each got at by position. -/
def mapCallsAt : List Value → Except Stop (Procedure × List (List Value))
  | v :: column :: columns => do
    let f ← checked (expectFunction Primitive.map.name v)
    let lists ← checked (expectLists Primitive.map.name (column :: columns))
    return (f, ← (List.range (shortest lists)).mapM (rowAt lists))
  | args => .error (.misuse (.mapArguments args.length))

theorem shortest_le {lists : List (List α)} {items : List α} (h : items ∈ lists) :
    shortest lists ≤ items.length :=
  List.min?_getD_le_of_mem (List.mem_map_of_mem h)

theorem shortest_cons_cons (column next : List α) (columns : List (List α)) :
    shortest (column :: next :: columns) = min column.length (shortest (next :: columns)) := by
  simp [shortest, List.min?_cons]

/-- **The rows are the positions of the shortest column.** The default is not used. -/
theorem rows_eq (default : α) (lists : List (List α)) :
    rows lists = (List.range (shortest lists)).map fun i => lists.map (·.getD i default) := by
  induction lists with
  | nil => rfl
  | cons column columns ih =>
    cases columns with
    | nil =>
      refine List.ext_getElem (by simp [rows, shortest]) fun i hi _ => ?_
      simp only [rows, List.length_map] at hi
      simp [rows, hi]
    | cons next columns =>
      change List.zipWith (· :: ·) column (rows (next :: columns)) = _
      rw [ih]
      refine List.ext_getElem (by simp [shortest_cons_cons]) fun i hi _ => ?_
      simp only [List.length_zipWith, List.length_map, List.length_range] at hi
      have hcolumn : i < column.length := by omega
      simp [hcolumn]

theorem rowAt_of_lt (default : α) {lists : List (List α)} {i : Nat} (h : i < shortest lists) :
    rowAt lists i = .ok (lists.map (·.getD i default)) := by
  refine mapM_eq_ok fun items hitems => ?_
  have hi : i < items.length := Nat.lt_of_lt_of_le h (shortest_le hitems)
  rw [itemAt_of_lt hi, List.getD_eq_getElem?_getD, List.getElem?_eq_getElem hi, Option.getD_some]

/-- Lists are what `map` wants after a function, one at least. -/
theorem mapCalls_lists (f : Procedure) {lists : List (List Value)} (h : lists ≠ []) :
    mapCalls (.function f :: lists.map .list) = .ok (f, rows lists) := by
  cases lists with
  | nil => exact absurd rfl h
  | cons column columns =>
    have hlists : expectLists Primitive.map.name (.list column :: columns.map .list) =
        .ok (column :: columns) := expectLists_eq_ok.2 rfl
    rw [List.map_cons, mapCalls, hlists]
    rfl

theorem mapCallsAt_eq (args : List Value) : mapCallsAt args = checked (mapCalls args) := by
  match args with
  | [] | [_] => rfl
  | v :: column :: columns =>
    rw [mapCallsAt, mapCalls]
    cases expectFunction Primitive.map.name v with
    | error m => rfl
    | ok f =>
      cases expectLists Primitive.map.name (column :: columns) with
      | error m => rfl
      | ok lists =>
        have hrows : (List.range (shortest lists)).mapM (rowAt lists) = .ok (rows lists) := by
          rw [rows_eq .none]
          exact mapM_eq_ok fun i hi => rowAt_of_lt _ (List.mem_range.1 hi)
        change (do return (f, ← (List.range (shortest lists)).mapM (rowAt lists)) :
          Except Stop (Procedure × List (List Value))) = _
        rw [hrows]
        rfl

end MiniLisp
