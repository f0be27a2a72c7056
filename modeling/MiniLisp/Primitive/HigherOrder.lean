import MiniLisp.Primitive.Operation

/-!
# Arguments of the primitives that call procedures

`map` calls a function once for each position of some lists and `apply` once with the items of a
list. The values that they hand on are parts of their own arguments, and fewer, which bounds how
often such primitives can call one another.
-/

namespace MiniLisp

/-- The rows of some columns, as many as the shortest column has items. -/
def rows : List (List α) → List (List α)
  | [] => []
  | [column] => column.map fun a => [a]
  | column :: columns => List.zipWith (· :: ·) column (rows columns)

/-- What `map` is to call, and with which arguments in turn. -/
def mapCalls : List Value → Except Misuse (Procedure × List (List Value))
  | v :: column :: columns => do
    let f ← expectFunction Primitive.map.name v
    let lists ← expectLists Primitive.map.name (column :: columns)
    return (f, rows lists)
  | args => .error (.mapArguments args.length)

/-- What `apply` is to call, and with which arguments. -/
def applyCall (args : List Value) : Except Misuse (Procedure × List Value) := do
  let pair ← expectTwo Primitive.apply.name args
  let f ← expectFunction Primitive.apply.name pair.1
  let arguments ← expectList Primitive.apply.name pair.2
  return (f, arguments)

theorem mapCalls_eq_ok {args : List Value} {f : Procedure} {calls : List (List Value)}
    (h : mapCalls args = .ok (f, calls)) :
    ∃ lists, args = .function f :: lists.map .list ∧ calls = rows lists := by
  unfold mapCalls at h
  split at h
  · rename_i v column columns
    cases hf : expectFunction Primitive.map.name v with
    | error e => simp [hf, bind, Except.bind] at h
    | ok g =>
      cases hl : expectLists Primitive.map.name (column :: columns) with
      | error e => simp [hf, hl, bind, Except.bind] at h
      | ok lists =>
        simp only [hf, hl, bind, Except.bind, pure, Except.pure, Except.ok.injEq,
          Prod.mk.injEq] at h
        exact ⟨lists, by rw [expectFunction_eq_ok.1 hf, expectLists_eq_ok.1 hl, h.1], h.2.symm⟩
  · cases h

theorem applyCall_eq_ok {args arguments : List Value} {f : Procedure} :
    applyCall args = .ok (f, arguments) ↔ args = [.function f, .list arguments] := by
  constructor
  · intro h
    unfold applyCall at h
    cases ht : expectTwo Primitive.apply.name args with
    | error e => simp [ht, bind, Except.bind] at h
    | ok pair =>
      cases hf : expectFunction Primitive.apply.name pair.1 with
      | error e => simp [ht, hf, bind, Except.bind] at h
      | ok g =>
        cases hl : expectList Primitive.apply.name pair.2 with
        | error e => simp [ht, hf, hl, bind, Except.bind] at h
        | ok items =>
          simp only [ht, hf, hl, bind, Except.bind, pure, Except.pure, Except.ok.injEq,
            Prod.mk.injEq] at h
          rw [expectTwo_eq_ok.1 ht, expectFunction_eq_ok.1 hf, expectList_eq_ok.1 hl, h.1, h.2]
  · rintro rfl
    rfl

/-! ## Size of the arguments -/

/-- The total size of the items of some lists. -/
def sizesOfLists : List (List Value) → Nat
  | [] => 0
  | items :: rest => Value.sizes items + sizesOfLists rest

theorem sizes_mem_zipWith_cons {column : List Value} {lists : List (List Value)} {n : Nat}
    (hn : ∀ row ∈ lists, Value.sizes row ≤ n) :
    ∀ row ∈ List.zipWith (· :: ·) column lists, Value.sizes row ≤ Value.sizes column + n := by
  induction column generalizing lists with
  | nil => simp
  | cons v column ih =>
    cases lists with
    | nil => simp
    | cons l lists =>
      intro row hrow
      simp only [List.zipWith_cons_cons, List.mem_cons] at hrow
      rcases hrow with rfl | hrow
      · have := hn l List.mem_cons_self
        simp only [Value.sizes]
        omega
      · have := ih (fun r hr => hn r (List.mem_cons_of_mem _ hr)) row hrow
        simp only [Value.sizes]
        omega

theorem sizes_mem_map_singleton (column : List Value) :
    ∀ row ∈ column.map fun v => [v], Value.sizes row ≤ Value.sizes column := by
  induction column with
  | nil => simp
  | cons v column ih =>
    intro row hrow
    simp only [List.map_cons, List.mem_cons] at hrow
    rcases hrow with rfl | hrow
    · simp [Value.sizes]
    · have := ih row hrow
      simp only [Value.sizes]
      omega

/-- A row has no more than the columns together. -/
theorem sizes_mem_rows : ∀ (lists : List (List Value)),
    ∀ row ∈ rows lists, Value.sizes row ≤ sizesOfLists lists
  | [] => by simp [rows]
  | [column] => by
    intro row hrow
    simpa [sizesOfLists] using sizes_mem_map_singleton column row hrow
  | column :: c :: columns => by
    intro row hrow
    have := sizes_mem_zipWith_cons (sizes_mem_rows (c :: columns)) row hrow
    simpa [sizesOfLists] using this

theorem sizes_map_list (lists : List (List Value)) :
    Value.sizes (lists.map .list) = lists.length + sizesOfLists lists := by
  induction lists with
  | nil => rfl
  | cons l lists ih =>
    simp only [sizesOfLists, List.map_cons, List.length_cons, Value.sizes,
      Value.size] at ih ⊢
    omega

/-- What `map` hands on is smaller than what it was given. -/
theorem sizes_lt_of_mapCalls {args : List Value} {f : Procedure} {calls : List (List Value)}
    (h : mapCalls args = .ok (f, calls)) {row : List Value} (hrow : row ∈ calls) :
    Value.sizes row < Value.sizes args := by
  obtain ⟨lists, rfl, rfl⟩ := mapCalls_eq_ok h
  have := sizes_mem_rows lists row hrow
  simp only [Value.sizes, Value.size, sizes_map_list]
  omega

/-- What `apply` hands on is smaller than what it was given. -/
theorem sizes_lt_of_applyCall {args arguments : List Value} {f : Procedure}
    (h : applyCall args = .ok (f, arguments)) : Value.sizes arguments < Value.sizes args := by
  obtain rfl := applyCall_eq_ok.1 h
  simp only [Value.sizes, Value.size]
  omega

end MiniLisp
