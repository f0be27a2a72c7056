import MiniLisp.Fault
import MiniLisp.Value.Equal

/-!
# What the primitives compute

What the operations give for their arguments, and what `println` makes of its own. The count of
the arguments is checked first, then their kinds from left to right.
-/

namespace MiniLisp

/-! ## Arguments -/

/-- A value that has to be a number. -/
def expectNumber (name : String) : Value → Except Misuse Float
  | .number x => .ok x
  | v => .error (.unexpected name .numbers v)

def expectList (name : String) : Value → Except Misuse (List Value)
  | .list items => .ok items
  | v => .error (.unexpected name .list v)

def expectFunction (name : String) : Value → Except Misuse Procedure
  | .function f => .ok f
  | v => .error (.unexpected name .function v)

/-- Arguments that have to be numbers. -/
def expectNumbers (name : String) (args : List Value) : Except Misuse (List Float) :=
  args.mapM (expectNumber name)

def expectLists (name : String) (args : List Value) : Except Misuse (List (List Value)) :=
  args.mapM (expectList name)

/-- The one argument of a primitive that takes one. -/
def expectOne (name : String) : List Value → Except Misuse Value
  | [v] => .ok v
  | args => .error (.argumentCount name 1 args.length)

def expectTwo (name : String) : List Value → Except Misuse (Value × Value)
  | [v, w] => .ok (v, w)
  | args => .error (.argumentCount name 2 args.length)

theorem expectNumber_eq_ok {name : String} {v : Value} {x : Float} :
    expectNumber name v = .ok x ↔ v = .number x := by
  cases v <;> simp [expectNumber]

theorem expectList_eq_ok {name : String} {v : Value} {items : List Value} :
    expectList name v = .ok items ↔ v = .list items := by
  cases v <;> simp [expectList]

theorem expectFunction_eq_ok {name : String} {v : Value} {f : Procedure} :
    expectFunction name v = .ok f ↔ v = .function f := by
  cases v <;> simp [expectFunction]

theorem expectTwo_eq_ok {name : String} {args : List Value} {p : Value × Value} :
    expectTwo name args = .ok p ↔ args = [p.1, p.2] := by
  unfold expectTwo
  split <;> simp_all [Prod.ext_iff, eq_comm]

/-- Where each item is taken apart, all of them are. -/
theorem mapM_eq_ok_iff {ε : Type} {f : α → Except ε β} {g : β → α}
    (h : ∀ {a b}, f a = .ok b ↔ a = g b) {l : List α} {k : List β} :
    l.mapM f = .ok k ↔ l = k.map g := by
  induction l generalizing k with
  | nil => cases k <;> simp [pure, Except.pure]
  | cons a l ih =>
    rw [List.mapM_cons]
    cases ha : f a with
    | error e =>
      have hne : ∀ b, a ≠ g b := fun b hb => by simp [h.2 hb] at ha
      cases k <;> simp [bind, Except.bind, hne]
    | ok b =>
      obtain rfl := h.1 ha
      have hinj : ∀ c, g b = g c ↔ b = c := fun c => by rw [← h, ha, Except.ok.injEq]
      cases hl : l.mapM f with
      | error e =>
        have hne : ∀ k : List β, l ≠ k.map g := fun k hk => by simp [ih.2 hk] at hl
        cases k <;> simp [bind, Except.bind, hne]
      | ok bs =>
        have hrest : ∀ k : List β, l = k.map g ↔ bs = k := fun k => by
          rw [← ih, hl, Except.ok.injEq]
        cases k <;> simp [bind, Except.bind, pure, Except.pure, hinj, hrest]

theorem expectNumbers_eq_ok {name : String} {args : List Value} {xs : List Float} :
    expectNumbers name args = .ok xs ↔ args = xs.map .number :=
  mapM_eq_ok_iff expectNumber_eq_ok

theorem expectLists_eq_ok {name : String} {args : List Value} {lists : List (List Value)} :
    expectLists name args = .ok lists ↔ args = lists.map .list :=
  mapM_eq_ok_iff expectList_eq_ok

/-! ## Numbers -/

/-- The larger of two numbers; a `NaN` gives way to the other one. -/
def larger (x y : Float) : Float :=
  if x.isNaN then y else if y.isNaN then x else if x < y then y else x

/-- The smaller of two numbers; a `NaN` gives way to the other one. -/
def smaller (x y : Float) : Float :=
  if x.isNaN then y else if y.isNaN then x else if y < x then y else x

namespace Arithmetic

/-- Its value on two numbers. -/
def combine : Arithmetic → Float → Float → Float
  | .add, x, y => x + y
  | .subtract, x, y => x - y
  | .multiply, x, y => x * y
  | .divide, x, y => x / y
  | .maximum, x, y => larger x y
  | .minimum, x, y => smaller x y

/-- Its value on a number alone. -/
def alone : Arithmetic → Float → Float
  | .subtract, x => -x
  | .divide, x => 1 / x
  | _, x => x

/-- Its value on a number and those after it, taken together from the left. -/
def total (op : Arithmetic) (first : Float) : List Float → Float
  | [] => op.alone first
  | rest => rest.foldl op.combine first

/-- Its value on any arguments. -/
def compute (op : Arithmetic) : List Value → Except Misuse Value
  | [] => .error (.noArguments op.name)
  | first :: rest => do
    let x ← expectNumber op.name first
    return .number (op.total x (← expectNumbers op.name rest))

end Arithmetic

namespace Comparison

def holds : Comparison → Float → Float → Bool
  | .greater, x, y => x > y
  | .greaterEqual, x, y => x ≥ y
  | .less, x, y => x < y
  | .lessEqual, x, y => x ≤ y

/-- Whether it holds between all neighbours. -/
def chain (rel : Comparison) : List Float → Bool
  | x :: y :: rest => rel.holds x y && rel.chain (y :: rest)
  | _ => true

end Comparison

/-- Its value at a number. A half is rounded away from zero. -/
def Elementary.at : Elementary → Float → Float
  | .sin => Float.sin
  | .cos => Float.cos
  | .tan => Float.tan
  | .asin => Float.asin
  | .acos => Float.acos
  | .atan => Float.atan
  | .round => Float.round
  | .floor => Float.floor
  | .abs => Float.abs
  | .sqrt => Float.sqrt

/-- Whether all numbers equal the first one. -/
def allEqualNumbers : List Float → Bool
  | [] => true
  | x :: rest => (x :: rest).all (· == x)

/-- Whether all values equal the first one. -/
def allEqual : List Value → Bool
  | [] => true
  | v :: rest => (v :: rest).all (·.equal v)

/-! ## Lists -/

/-- The first item of a list. -/
def headOf : List Value → Except Misuse Value
  | [] => .error .headOfEmpty
  | v :: _ => .ok v

/-- Puts a value before the items of a list; what is not a list counts as a list of one. -/
def attached (v : Value) : Value → Value
  | .list items => .list (v :: items)
  | w => .list [v, w]

/-! ## Lines -/

/-- What `println` prints: one argument as it is, several as one list. -/
def printedLine : List Value → Except Misuse String
  | [] => .error (.noArguments Primitive.println.name)
  | [v] => .ok v.text
  | args => .ok (Value.list args).text

/-! ## Operations -/

/-- What an operation gives for its arguments. -/
def Operation.compute : Operation → List Value → Except Misuse Value
  | .arithmetic op, args => op.compute args
  | .power, args => do
    let (base, exponent) ← expectTwo Operation.power.name args
    let x ← expectNumber Operation.power.name base
    let y ← expectNumber Operation.power.name exponent
    return .number (x ^ y)
  | .comparison rel, args => do
    return .boolean (rel.chain (← expectNumbers rel.name args))
  | .equalNumbers, args => do
    return .boolean (allEqualNumbers (← expectNumbers Operation.equalNumbers.name args))
  | .equal, args => .ok (.boolean (allEqual args))
  | .not, args => do
    match ← expectOne Operation.not.name args with
    | .boolean b => return .boolean (!b)
    | v => throw (.unexpected Operation.not.name .boolean v)
  | .elementary f, args => do
    return .number (f.at (← expectNumber f.name (← expectOne f.name args)))
  | .list, args => .ok (.list args)
  | .head, args | .car, args => do
    let name := Operation.head.name
    headOf (← expectList name (← expectOne name args))
  | .tail, args | .cdr, args => do
    let name := Operation.tail.name
    return .list (← expectList name (← expectOne name args)).tail
  | .attach, args | .cons, args => do
    let (v, w) ← expectTwo Operation.attach.name args
    return attached v w
  | .length, args => do
    let name := Operation.length.name
    return .number (Float.ofNat (← expectList name (← expectOne name args)).length)
  | .is kind, args => do
    return .boolean ((← expectOne (Operation.is kind).name args).kind == kind)
  | .begin, args =>
    match args.getLast? with
    | some v => .ok v
    | none => .error (.noArguments Operation.begin.name)
  | .only, args => expectOne Operation.only.name args

end MiniLisp
