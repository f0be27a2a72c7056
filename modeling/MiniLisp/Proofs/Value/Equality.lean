import Mathlib
import MiniLisp.Proofs.Run.Basic

/-!
# Equality is a partial equivalence

The equality of values and that of trees are symmetric and transitive, and they are reflexive but
for the values and trees in which not-a-number occurs (`Value.equal_partialEquivalence`,
`Sexp.equal_partialEquivalence`). What stands in the template of a procedure does not count.

What is known of the equality at one value (`EqualityAt`) is passed on by each constructor in the
same way (`EqualityAt.constructor`), and by lists of values (`EqualityAt.all`).

So it makes no difference that `eq?` compares its arguments with the first one only, and which of
them is the first.
-/

namespace MiniLisp

/-- A test that is symmetric and transitive, and that all but the exceptions pass with
themselves. -/
structure PartialEquivalence (equal : α → α → Bool) (exception : α → Prop) : Prop where
  symm : ∀ {a b}, equal a b = true → equal b a = true
  trans : ∀ {a b c}, equal a b = true → equal b c = true → equal a c = true
  self_iff : ∀ a, equal a a = true ↔ ¬ exception a

/-- What a partial equivalence is at one of the things that it compares. -/
structure EqualityAt (equal : α → α → Bool) (exception : α → Prop) (a : α) : Prop where
  comm : ∀ b, equal a b = equal b a
  trans : ∀ {b c}, equal a b = true → equal b c = true → equal a c = true
  self_iff : equal a a = true ↔ ¬ exception a

theorem PartialEquivalence.of_at {equal : α → α → Bool} {exception : α → Prop}
    (h : ∀ a, EqualityAt equal exception a) : PartialEquivalence equal exception where
  symm hab := (h _).comm _ ▸ hab
  trans := (h _).trans
  self_iff a := (h a).self_iff

namespace EqualityAt

variable {equal : α → α → Bool} {exception : α → Prop}

theorem of_lawful [BEq α] [LawfulBEq α] (a : α) : EqualityAt (· == ·) (fun _ : α => False) a where
  comm b := Bool.beq_comm
  trans hab hbc := by rwa [eq_of_beq hab]
  self_iff := by simp

/-- What a constructor `make` makes is compared by what it is made of. -/
theorem constructor {inner : β → β → Bool} {innerException : β → Prop} {b : β}
    (h : EqualityAt inner innerException b) (make : β → α)
    (hmake : ∀ c d, equal (make c) (make d) = inner c d)
    (hother : ∀ c a, (∃ d, a = make d) ∨ equal (make c) a = false ∧ equal a (make c) = false)
    (hexception : exception (make b) ↔ innerException b) :
    EqualityAt equal exception (make b) where
  comm a := by
    obtain ⟨c, rfl⟩ | ⟨hba, hab⟩ := hother b a
    · rw [hmake, hmake, h.comm]
    · rw [hba, hab]
  trans {a d} hba had := by
    obtain ⟨c, rfl⟩ | ⟨hba', -⟩ := hother b a
    · obtain ⟨e, rfl⟩ | ⟨had', -⟩ := hother c d
      · rw [hmake] at hba had ⊢
        exact h.trans hba had
      · rw [had'] at had
        cases had
    · rw [hba'] at hba
      cases hba
  self_iff := by rw [hmake, h.self_iff, hexception]

/-- Lists are compared item by item. -/
theorem all {equalAll : List α → List α → Bool}
    (hall : ∀ l k, equalAll l k = true ↔ List.Forall₂ (fun a b => equal a b = true) l k)
    {l : List α} (h : ∀ a ∈ l, EqualityAt equal exception a) :
    EqualityAt equalAll (fun l => ∃ a ∈ l, exception a) l where
  comm k := by
    rw [Bool.eq_iff_iff, hall, hall]
    induction l generalizing k with
    | nil => cases k <;> simp
    | cons a l ih =>
      cases k with
      | nil => simp
      | cons b k =>
        rw [List.forall₂_cons, List.forall₂_cons, (h a List.mem_cons_self).comm,
          ih fun a ha => h a (List.mem_cons_of_mem _ ha)]
  trans {k m} hlk hkm := by
    rw [hall] at hlk hkm ⊢
    induction hlk generalizing m with
    | nil => exact hkm
    | cons hab _ ih =>
      cases hkm with
      | cons hbc hkm =>
        exact .cons ((h _ List.mem_cons_self).trans hab hbc)
          (ih (fun a ha => h a (List.mem_cons_of_mem _ ha)) hkm)
  self_iff := by
    rw [hall, List.forall₂_same]
    push Not
    exact forall₂_congr fun a ha => (h a ha).self_iff

end EqualityAt

/-! ## Not-a-number -/

/-- Not-a-number occurs in a value, at any depth of lists. -/
inductive Value.HoldsNaN : Value → Prop
  | number {x : Float} (h : x.isNaN = true) : HoldsNaN (.number x)
  | list {items : List Value} {v : Value} (hv : v ∈ items) (h : HoldsNaN v) :
    HoldsNaN (.list items)

/-- Not-a-number occurs in a tree, at any depth of expressions and of lists. -/
inductive Sexp.HoldsNaN : Sexp → Prop
  | atom {v : Value} (h : v.HoldsNaN) : HoldsNaN (.atom v)
  | expression {items : List Sexp} {t : Sexp} (ht : t ∈ items) (h : HoldsNaN t) :
    HoldsNaN (.expression items)

theorem Value.holdsNaN_number {x : Float} : (Value.number x).HoldsNaN ↔ x.isNaN = true :=
  ⟨fun h => by cases h with | number h => exact h, .number⟩

theorem Value.holdsNaN_list {items : List Value} :
    (Value.list items).HoldsNaN ↔ ∃ v ∈ items, v.HoldsNaN :=
  ⟨fun h => by cases h with | list hv h => exact ⟨_, hv, h⟩, fun ⟨_, hv, h⟩ => .list hv h⟩

theorem Sexp.holdsNaN_atom {v : Value} : (Sexp.atom v).HoldsNaN ↔ v.HoldsNaN :=
  ⟨fun h => by cases h with | atom h => exact h, .atom⟩

theorem Sexp.holdsNaN_expression {items : List Sexp} :
    (Sexp.expression items).HoldsNaN ↔ ∃ t ∈ items, t.HoldsNaN :=
  ⟨fun h => by cases h with | expression ht h => exact ⟨_, ht, h⟩, fun ⟨_, ht, h⟩ =>
    .expression ht h⟩

/-! ## Numbers, procedures, values and trees -/

theorem EqualityAt.of_float (x : Float) :
    EqualityAt (· == ·) (fun x : Float => x.isNaN = true) x where
  comm y := BEq.comm
  trans := BEq.trans
  self_iff := by rw [Float.beq_self_iff, Float.isNaN_eq_decide_eq_nan, decide_eq_true_iff]

theorem Procedure.equal_self (f : Procedure) : f.equal f = true := by
  cases f with
  | primitive p => exact beq_self_eq_true p
  | declared id _ _ _ => exact beq_self_eq_true id

/-- Procedures are compared as primitives, or by the number of their declaration. -/
theorem Procedure.equalityAt (f : Procedure) :
    EqualityAt Procedure.equal (fun _ => False) f where
  comm g := by cases f <;> cases g <;> simp [Procedure.equal, Bool.beq_comm]
  trans {g h} hfg hgh := by cases f <;> cases g <;> cases h <;> simp_all [Procedure.equal]
  self_iff := by simp [f.equal_self]

theorem Value.equalAll_iff {items others : List Value} :
    Value.equalAll items others = true ↔
      List.Forall₂ (fun v w => v.equal w = true) items others := by
  induction items generalizing others with
  | nil => cases others <;> simp [Value.equalAll]
  | cons v items ih => cases others <;> simp [Value.equalAll, ih]

theorem Sexp.equalAll_iff {items others : List Sexp} :
    Sexp.equalAll items others = true ↔
      List.Forall₂ (fun s t => s.equal t = true) items others := by
  induction items generalizing others with
  | nil => cases others <;> simp [Sexp.equalAll]
  | cons t items ih => cases others <;> simp [Sexp.equalAll, ih]

mutual

/-- A value is compared by its constructor and by what that has made it of. -/
theorem Value.equalityAt : ∀ (v : Value), EqualityAt Value.equal Value.HoldsNaN v
  | .number x => by
    refine (EqualityAt.of_float x).constructor Value.number (fun _ _ => rfl)
      (fun _ w => ?_) Value.holdsNaN_number
    cases w <;> simp [Value.equal]
  | .boolean b => by
    refine (EqualityAt.of_lawful b).constructor Value.boolean (fun _ _ => rfl)
      (fun _ w => ?_) ⟨nofun, False.elim⟩
    cases w <;> simp [Value.equal]
  | .string text => by
    refine (EqualityAt.of_lawful text).constructor Value.string (fun _ _ => rfl)
      (fun _ w => ?_) ⟨nofun, False.elim⟩
    cases w <;> simp [Value.equal]
  | .symbol name => by
    refine (EqualityAt.of_lawful name).constructor Value.symbol (fun _ _ => rfl)
      (fun _ w => ?_) ⟨nofun, False.elim⟩
    cases w <;> simp [Value.equal]
  | .none => by
    refine (EqualityAt.of_lawful ()).constructor (fun _ => Value.none) (fun _ _ => rfl)
      (fun _ w => ?_) ⟨nofun, False.elim⟩
    cases w <;> simp [Value.equal]
  | .list items => by
    have hitems := EqualityAt.all (fun _ _ => Value.equalAll_iff) (Value.equalityAt_of_mem items)
    refine hitems.constructor Value.list (fun _ _ => rfl) (fun _ w => ?_) Value.holdsNaN_list
    cases w <;> simp [Value.equal]
  | .function f => by
    refine f.equalityAt.constructor Value.function (fun _ _ => rfl)
      (fun _ w => ?_) ⟨nofun, False.elim⟩
    cases w <;> simp [Value.equal]

theorem Value.equalityAt_of_mem : ∀ (items : List Value), ∀ v ∈ items,
    EqualityAt Value.equal Value.HoldsNaN v
  | w :: items, v, h => by
    rcases List.mem_cons.1 h with hv | hv
    · exact hv ▸ Value.equalityAt w
    · exact Value.equalityAt_of_mem items v hv

end

mutual

/-- A tree is compared by its constructor and by what that has made it of. -/
theorem Sexp.equalityAt : ∀ (t : Sexp), EqualityAt Sexp.equal Sexp.HoldsNaN t
  | .atom v => by
    refine v.equalityAt.constructor Sexp.atom (fun _ _ => rfl) (fun _ t => ?_) Sexp.holdsNaN_atom
    cases t <;> simp [Sexp.equal]
  | .expression items => by
    have hitems := EqualityAt.all (fun _ _ => Sexp.equalAll_iff) (Sexp.equalityAt_of_mem items)
    refine hitems.constructor Sexp.expression (fun _ _ => rfl) (fun _ t => ?_)
      Sexp.holdsNaN_expression
    cases t <;> simp [Sexp.equal]
  | .placeholder index => by
    refine (EqualityAt.of_lawful index).constructor Sexp.placeholder (fun _ _ => rfl)
      (fun _ t => ?_) ⟨nofun, False.elim⟩
    cases t <;> simp [Sexp.equal]

theorem Sexp.equalityAt_of_mem : ∀ (items : List Sexp), ∀ t ∈ items,
    EqualityAt Sexp.equal Sexp.HoldsNaN t
  | s :: items, t, h => by
    rcases List.mem_cons.1 h with ht | ht
    · exact ht ▸ Sexp.equalityAt s
    · exact Sexp.equalityAt_of_mem items t ht

end

theorem Value.equal_partialEquivalence : PartialEquivalence Value.equal Value.HoldsNaN :=
  .of_at Value.equalityAt

theorem Sexp.equal_partialEquivalence : PartialEquivalence Sexp.equal Sexp.HoldsNaN :=
  .of_at Sexp.equalityAt

/-! ## The procedure `eq?` -/

section AllEqual

variable {args others : List Value}

/-- That all arguments equal the first one says that all of them equal one another. -/
theorem allEqual_iff : allEqual args = true ↔ ∀ v ∈ args, ∀ w ∈ args, v.equal w = true := by
  cases args with
  | nil => simp [allEqual]
  | cons first rest =>
    rw [allEqual, List.all_eq_true]
    constructor
    · intro h v hv w hw
      exact Value.equal_partialEquivalence.trans (h v hv)
        (Value.equal_partialEquivalence.symm (h w hw))
    · exact fun h v hv => h v hv first List.mem_cons_self

/-- Of two arguments or more, each is compared with another one. -/
theorem allEqual_iff_pairwise (h : 2 ≤ args.length) :
    allEqual args = true ↔ args.Pairwise fun v w => v.equal w = true := by
  rw [allEqual_iff]
  constructor
  · exact fun hall => List.pairwise_of_forall_mem_list hall
  · intro hpairs
    match args, h with
    | first :: second :: rest, _ =>
      obtain ⟨hfirst, -⟩ := List.pairwise_cons.1 hpairs
      have hsecond := hfirst second List.mem_cons_self
      -- the first one equals itself, because it equals the second one
      have hself := Value.equal_partialEquivalence.trans hsecond
        (Value.equal_partialEquivalence.symm hsecond)
      have hto : ∀ v ∈ first :: second :: rest, first.equal v = true := by
        intro v hv
        rcases List.mem_cons.1 hv with rfl | hv
        · exact hself
        · exact hfirst v hv
      exact fun v hv w hw => Value.equal_partialEquivalence.trans
        (Value.equal_partialEquivalence.symm (hto v hv)) (hto w hw)

theorem allEqual_perm (h : args.Perm others) : allEqual args = allEqual others := by
  rw [Bool.eq_iff_iff, allEqual_iff, allEqual_iff]
  simp only [h.mem_iff]

end AllEqual

theorem Session.call_equal (s : Session) (args : List Value) :
    (s.call (.primitive (.operation .equal)) args).1 = .ok (.boolean (allEqual args)) :=
  s.call_operation .equal args

/-- **Equality is a partial equivalence**, reflexive but for not-a-number. So `eq?` tells of any two
arguments or more whether every two of them are equal, in whatever order they come. -/
theorem Session.equality_partialEquivalence (s : Session) :
    PartialEquivalence Value.equal Value.HoldsNaN ∧ PartialEquivalence Sexp.equal Sexp.HoldsNaN ∧
      ∀ args : List Value, 2 ≤ args.length →
        (∃ b, (s.call (.primitive (.operation .equal)) args).1 = .ok (.boolean b) ∧
          (b = true ↔ args.Pairwise fun v w => v.equal w = true)) ∧
        ∀ others, args.Perm others →
          (s.call (.primitive (.operation .equal)) others).1 =
            (s.call (.primitive (.operation .equal)) args).1 := by
  refine ⟨Value.equal_partialEquivalence, Sexp.equal_partialEquivalence, fun args hargs =>
    ⟨⟨allEqual args, s.call_equal args, allEqual_iff_pairwise hargs⟩, fun others h => ?_⟩⟩
  rw [s.call_equal, s.call_equal, allEqual_perm h]

/-- The zeros are equal in either order, and not-a-number is not equal to itself, within lists
too. -/
theorem Session.equality_partialEquivalence_within_lists :
    let s := Session.start .standard .unlimited
    let answer (x y : Float) : Except Fault Value :=
      (s.call (.primitive (.operation .equal)) [.list [.number x], .list [.number y]]).1
    answer 0 (-0) = .ok (.boolean true) ∧ answer (-0) 0 = .ok (.boolean true) ∧
      answer (0 / 0) (0 / 0) = .ok (.boolean false) := by
  intro s answer
  obtain ⟨hvalues, -, hargs⟩ := equality_partialEquivalence s
  have hzeros : (Value.list [.number 0]).equal (.list [.number (-0)]) = true := by decide +kernel
  have hnan : (Value.list [.number (0 / 0)]).HoldsNaN :=
    .list List.mem_cons_self (.number (by decide +kernel))
  obtain ⟨⟨b, hb, hiff⟩, hperm⟩ := hargs [.list [.number 0], .list [.number (-0)]] (by decide)
  obtain ⟨⟨c, hc, hnaniff⟩, -⟩ :=
    hargs [.list [.number (0 / 0)], .list [.number (0 / 0)]] (by decide)
  have hb' : b = true := hiff.2 (List.pairwise_pair.2 hzeros)
  have hc' : c = false := by
    rw [← Bool.not_eq_true, hnaniff, List.pairwise_pair, hvalues.self_iff, not_not]
    exact hnan
  subst hb' hc'
  exact ⟨hb, (hperm _ (List.Perm.swap _ _ _)).trans hb, hc⟩

end MiniLisp
