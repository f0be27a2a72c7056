import MiniLisp.Value

/-!
# Environments

An environment binds names to values, each name at most once. A name that is bound again keeps
its place and takes the new value.
-/

namespace MiniLisp

/-- Bindings of names to values, in the order in which the names were first bound. -/
structure Environment where
  bindings : List (String × Value)
  nodup : (bindings.map Prod.fst).Nodup

namespace Environment

/-! ## Bindings -/

/-- The value of a name in a list of bindings. -/
def lookup (name : String) : List (String × Value) → Option Value
  | [] => none
  | (n, v) :: rest => if n = name then some v else lookup name rest

/-- Binds a name in a list of bindings, in its old place or else at the end. -/
def insert (name : String) (value : Value) : List (String × Value) → List (String × Value)
  | [] => [(name, value)]
  | (n, v) :: rest => if n = name then (n, value) :: rest else (n, v) :: insert name value rest

theorem mem_insert_names {name n : String} {value : Value} {l : List (String × Value)} :
    n ∈ (insert name value l).map Prod.fst ↔ n = name ∨ n ∈ l.map Prod.fst := by
  induction l with
  | nil => simp [insert]
  | cons p rest ih =>
    obtain ⟨m, v⟩ := p
    by_cases h : m = name
    · subst h
      simp [insert]
    · simp only [insert, h, if_false, List.map_cons, List.mem_cons, ih]
      constructor
      · rintro (h | h | h) <;> simp [h]
      · rintro (h | h | h) <;> simp [h]

theorem nodup_insert (name : String) (value : Value) :
    ∀ {l : List (String × Value)}, (l.map Prod.fst).Nodup →
      ((insert name value l).map Prod.fst).Nodup
  | [], _ => by simp [insert]
  | (n, v) :: rest, h => by
    simp only [List.map_cons, List.nodup_cons] at h
    by_cases hn : n = name
    · simp [insert, hn, hn ▸ h.1, h.2]
    · simp only [insert, hn, if_false, List.map_cons, List.nodup_cons]
      exact ⟨fun hm => (mem_insert_names.1 hm).elim hn h.1, nodup_insert name value h.2⟩

theorem lookup_insert (name n : String) (value : Value) (l : List (String × Value)) :
    lookup n (insert name value l) = if name = n then some value else lookup n l := by
  induction l with
  | nil => simp [insert, lookup]
  | cons p rest ih =>
    obtain ⟨m, v⟩ := p
    by_cases h : m = name
    · subst h
      by_cases hn : m = n <;> simp [insert, lookup, hn]
    · simp only [insert, h, if_false, lookup, ih]
      by_cases hm : m = n
      · subst hm
        simp [Ne.symm h]
      · simp [hm]

/-! ## Operations -/

def empty : Environment := ⟨[], List.nodup_nil⟩

def get? (e : Environment) (name : String) : Option Value :=
  lookup name e.bindings

def contains (e : Environment) (name : String) : Bool :=
  (e.get? name).isSome

/-- Binds a name, in place of what it was bound to before. -/
def define (e : Environment) (name : String) (value : Value) : Environment :=
  ⟨insert name value e.bindings, nodup_insert name value e.nodup⟩

def size (e : Environment) : Nat :=
  e.bindings.length

/-- The bindings of a list, a later one in place of an earlier one of the same name. -/
def ofList (l : List (String × Value)) : Environment :=
  l.foldl (fun e b => e.define b.1 b.2) empty

@[simp] theorem get?_empty (name : String) : empty.get? name = none := rfl

theorem get?_define (e : Environment) (name n : String) (value : Value) :
    (e.define name value).get? n = if name = n then some value else e.get? n :=
  lookup_insert name n value e.bindings

/-- A property of all bound values, once another value that has it has been bound. -/
theorem forall_define {P : Value → Prop} {e : Environment} (h : ∀ n v, e.get? n = some v → P v)
    (name : String) {value : Value} (hvalue : P value) :
    ∀ n v, (e.define name value).get? n = some v → P v := by
  intro n v hv
  rw [get?_define] at hv
  split at hv
  · obtain rfl := Option.some.inj hv
    exact hvalue
  · exact h n v hv

theorem forall_ofList {P : Value → Prop} {l : List (String × Value)} (h : ∀ b ∈ l, P b.2) :
    ∀ n v, (ofList l).get? n = some v → P v := by
  have hfold : ∀ e : Environment, (∀ n v, e.get? n = some v → P v) →
      ∀ n v, (l.foldl (fun e b => e.define b.1 b.2) e).get? n = some v → P v := by
    induction l with
    | nil => exact fun e he => he
    | cons b l ih =>
      intro e he
      exact ih (fun c hc => h c (List.mem_cons_of_mem _ hc)) _
        (forall_define he b.1 (h b List.mem_cons_self))
  exact hfold empty fun n v hv => by cases hv

/-- A list binds none but its own names. -/
theorem get?_ofList_of_notMem {l : List (String × Value)} {name : String}
    (h : name ∉ l.map Prod.fst) : (ofList l).get? name = none := by
  have hfold : ∀ e : Environment, e.get? name = none →
      (l.foldl (fun e b => e.define b.1 b.2) e).get? name = none := by
    induction l with
    | nil => exact fun e he => he
    | cons b l ih =>
      obtain ⟨hb, hl⟩ := not_or.1 (mt List.mem_cons.2 h)
      refine fun e he => ih hl _ ?_
      rw [get?_define, if_neg (Ne.symm hb), he]
  exact hfold empty rfl

/-! ## The fresh environment -/

/-- The numbers that a fresh environment holds: the circle constants and Euler's number. -/
def constants : List (String × Value) :=
  [("pi", .number 3.14159265358979323846),
   ("tau", .number 6.28318530717958647692),
   ("e", .number 2.71828182845904523536)]

/-- What a fresh environment binds: the constants and every primitive under its name. -/
def seeds : List (String × Value) :=
  constants ++ Primitive.all.map fun p => (p.name, .function (.primitive p))

/-- The environment that a program starts in. -/
def fresh : Environment :=
  ofList seeds

/-- A fresh environment binds numbers and primitives only. -/
theorem forall_fresh {P : Value → Prop} (hnumber : ∀ x, P (.number x))
    (hprimitive : ∀ p, P (.function (.primitive p))) : ∀ n v, fresh.get? n = some v → P v := by
  refine forall_ofList fun b hb => ?_
  rcases List.mem_append.1 hb with hb | hb
  · simp only [constants, List.mem_cons, List.not_mem_nil, or_false] at hb
    rcases hb with rfl | rfl | rfl
    · exact hnumber _
    · exact hnumber _
    · exact hnumber _
  · obtain ⟨p, -, rfl⟩ := List.mem_map.1 hb
    exact hprimitive p

end Environment

end MiniLisp
