import MiniLisp.Proofs.Reader.Marks
import MiniLisp.Template

/-!
# The leaves of a tree

The values at the leaves of a tree (`Sexp.atoms`) and the placeholders in it
(`Sexp.placeholders`), and what becomes of them when a body is made a template and when a template
is filled. A tree that the reader has made has no placeholders, and its atoms are the values of its
tokens.
-/

namespace MiniLisp

mutual

/-- The values at the leaves of a tree, from left to right. -/
def Sexp.atoms : Sexp → List Value
  | .atom v => [v]
  | .expression items => Sexp.atomsAll items
  | .placeholder _ => []

def Sexp.atomsAll : List Sexp → List Value
  | [] => []
  | s :: rest => s.atoms ++ Sexp.atomsAll rest

end

mutual

/-- The placeholders in a tree, from left to right. -/
def Sexp.placeholders : Sexp → List Nat
  | .atom _ => []
  | .expression items => Sexp.placeholdersAll items
  | .placeholder index => [index]

def Sexp.placeholdersAll : List Sexp → List Nat
  | [] => []
  | s :: rest => s.placeholders ++ Sexp.placeholdersAll rest

end

/-! ## Items -/

theorem Sexp.mem_atomsAll {v : Value} {items : List Sexp} :
    v ∈ Sexp.atomsAll items ↔ ∃ t ∈ items, v ∈ t.atoms := by
  induction items with
  | nil => simp [Sexp.atomsAll]
  | cons s items ih => simp [Sexp.atomsAll, ih]

theorem Sexp.mem_placeholdersAll {i : Nat} {items : List Sexp} :
    i ∈ Sexp.placeholdersAll items ↔ ∃ t ∈ items, i ∈ t.placeholders := by
  induction items with
  | nil => simp [Sexp.placeholdersAll]
  | cons s items ih => simp [Sexp.placeholdersAll, ih]

/-! ## Making a template -/

section Abstracted

variable (parameters : List String)

mutual

/-- A template has the atoms of the body other than the parameters. -/
theorem Sexp.mem_atoms_abstracted {v : Value} : ∀ (t : Sexp),
    v ∈ (t.abstracted parameters).atoms ↔ v ∈ t.atoms ∧ ∀ name ∈ parameters, v ≠ .symbol name
  | .atom w => by
    cases w with
    | symbol name =>
      rw [Sexp.abstracted]
      cases h : parameters.idxOf? name with
      | none =>
        have hname : name ∉ parameters := List.idxOf?_eq_none_iff.1 h
        simp only [Sexp.atoms, List.mem_singleton]
        constructor
        · rintro rfl
          exact ⟨rfl, fun other hother heq => hname (Value.symbol.inj heq ▸ hother)⟩
        · exact fun hv => hv.1
      | some index =>
        have hname : name ∈ parameters := by
          rw [← List.isSome_idxOf?, h]
          rfl
        simp only [Sexp.atoms, List.not_mem_nil, List.mem_singleton, false_iff, not_and]
        rintro rfl hv
        exact hv name hname rfl
    | _ => simp +contextual [Sexp.abstracted, Sexp.atoms]
  | .expression items => Sexp.mem_atomsAll_abstracted items
  | .placeholder index => by simp [Sexp.abstracted, Sexp.atoms]

theorem Sexp.mem_atomsAll_abstracted {v : Value} : ∀ (items : List Sexp),
    v ∈ Sexp.atomsAll (Sexp.abstractedAll parameters items) ↔
      v ∈ Sexp.atomsAll items ∧ ∀ name ∈ parameters, v ≠ .symbol name
  | [] => by simp [Sexp.abstractedAll, Sexp.atomsAll]
  | t :: items => by
    simp only [Sexp.abstractedAll, Sexp.atomsAll, List.mem_append,
      Sexp.mem_atoms_abstracted t, Sexp.mem_atomsAll_abstracted items, or_and_right]

end

mutual

/-- The placeholders of a template that are not in the body stand for parameters. -/
theorem Sexp.mem_placeholders_abstracted {i : Nat} : ∀ (t : Sexp),
    i ∈ (t.abstracted parameters).placeholders → i ∈ t.placeholders ∨ i < parameters.length
  | .atom w, h => by
    cases w with
    | symbol name =>
      rw [Sexp.abstracted] at h
      cases hindex : parameters.idxOf? name with
      | none =>
        rw [hindex] at h
        cases h
      | some index =>
        rw [hindex] at h
        obtain rfl := List.mem_singleton.1 h
        exact .inr (List.idxOf?_eq_some_iff.1 hindex).1
    | _ => simp [Sexp.abstracted, Sexp.placeholders] at h
  | .expression items, h => Sexp.mem_placeholdersAll_abstracted items h
  | .placeholder index, h => .inl h

theorem Sexp.mem_placeholdersAll_abstracted {i : Nat} : ∀ (items : List Sexp),
    i ∈ Sexp.placeholdersAll (Sexp.abstractedAll parameters items) →
      i ∈ Sexp.placeholdersAll items ∨ i < parameters.length
  | [], h => .inl h
  | t :: items, h => by
    simp only [Sexp.abstractedAll, Sexp.placeholdersAll, List.mem_append] at h ⊢
    rcases h with h | h
    · exact (Sexp.mem_placeholders_abstracted t h).imp_left .inl
    · exact (Sexp.mem_placeholdersAll_abstracted items h).imp_left .inr

end

end Abstracted

/-! ## Filling a template -/

section Filled

variable (values : List Value)

mutual

/-- A filled template has its own atoms and some of the values. -/
theorem Sexp.mem_atoms_filled {v : Value} : ∀ (t : Sexp),
    v ∈ (t.filled values).atoms → v ∈ t.atoms ∨ v ∈ values
  | .atom w, h => .inl h
  | .expression items, h => Sexp.mem_atomsAll_filled items h
  | .placeholder index, h => by
    rw [Sexp.filled] at h
    cases hvalue : values[index]? with
    | none =>
      rw [hvalue] at h
      cases h
    | some w =>
      rw [hvalue] at h
      obtain rfl := List.mem_singleton.1 h
      exact .inr (List.mem_of_getElem? hvalue)

theorem Sexp.mem_atomsAll_filled {v : Value} : ∀ (items : List Sexp),
    v ∈ Sexp.atomsAll (Sexp.filledAll values items) → v ∈ Sexp.atomsAll items ∨ v ∈ values
  | [], h => .inl h
  | t :: items, h => by
    simp only [Sexp.filledAll, Sexp.atomsAll, List.mem_append] at h ⊢
    rcases h with h | h
    · exact (Sexp.mem_atoms_filled t h).imp_left .inl
    · exact (Sexp.mem_atomsAll_filled items h).imp_left .inr

end

mutual

/-- Only the placeholders beyond the values are left. -/
theorem Sexp.mem_placeholders_filled {i : Nat} : ∀ (t : Sexp),
    i ∈ (t.filled values).placeholders → i ∈ t.placeholders ∧ values.length ≤ i
  | .atom w, h => by cases h
  | .expression items, h => Sexp.mem_placeholdersAll_filled items h
  | .placeholder index, h => by
    rw [Sexp.filled] at h
    cases hvalue : values[index]? with
    | none =>
      rw [hvalue] at h
      obtain rfl := List.mem_singleton.1 h
      exact ⟨List.mem_singleton_self _, List.getElem?_eq_none_iff.1 hvalue⟩
    | some w =>
      rw [hvalue] at h
      cases h

theorem Sexp.mem_placeholdersAll_filled {i : Nat} : ∀ (items : List Sexp),
    i ∈ Sexp.placeholdersAll (Sexp.filledAll values items) →
      i ∈ Sexp.placeholdersAll items ∧ values.length ≤ i
  | [], h => by cases h
  | t :: items, h => by
    simp only [Sexp.filledAll, Sexp.placeholdersAll, List.mem_append] at h ⊢
    rcases h with h | h
    · exact (Sexp.mem_placeholders_filled t h).imp_left .inl
    · exact (Sexp.mem_placeholdersAll_filled items h).imp_left .inr

end

end Filled

/-! ## Marks -/

mutual

theorem Sexp.leaf_mem_marks {v : Value} : ∀ (t : Sexp), .leaf v ∈ t.marks ↔ v ∈ t.atoms
  | .atom w => by simp [Sexp.marks, Sexp.atoms]
  | .expression items => by simp [Sexp.marks, Sexp.atoms, Sexp.leaf_mem_marksAll items]
  | .placeholder index => by simp [Sexp.marks, Sexp.atoms]

theorem Sexp.leaf_mem_marksAll {v : Value} : ∀ (items : List Sexp),
    .leaf v ∈ Sexp.marksAll items ↔ v ∈ Sexp.atomsAll items
  | [] => by simp [Sexp.marksAll, Sexp.atomsAll]
  | t :: items => by
    simp [Sexp.marksAll, Sexp.atomsAll, Sexp.leaf_mem_marks t,
      Sexp.leaf_mem_marksAll items]

end

mutual

theorem Sexp.hole_mem_marks {i : Nat} : ∀ (t : Sexp), .hole i ∈ t.marks ↔ i ∈ t.placeholders
  | .atom w => by simp [Sexp.marks, Sexp.placeholders]
  | .expression items => by
    simp [Sexp.marks, Sexp.placeholders, Sexp.hole_mem_marksAll items]
  | .placeholder index => by simp [Sexp.marks, Sexp.placeholders]

theorem Sexp.hole_mem_marksAll {i : Nat} : ∀ (items : List Sexp),
    .hole i ∈ Sexp.marksAll items ↔ i ∈ Sexp.placeholdersAll items
  | [] => by simp [Sexp.marksAll, Sexp.placeholdersAll]
  | t :: items => by
    simp [Sexp.marksAll, Sexp.placeholdersAll, Sexp.hole_mem_marks t,
      Sexp.hole_mem_marksAll items]

end

/-- The marks of tokens are no placeholders. -/
theorem Token.mark_ne_hole (token : Token) (i : Nat) : token.mark ≠ .hole i := by
  cases token <;> exact Mark.noConfusion

/-- A tree that the reader has made has no placeholders. -/
theorem Sexp.placeholders_of_ofTokens {tokens : List Token} {tree : Sexp}
    (h : Sexp.ofTokens tokens = .ok tree) : tree.placeholders = [] := by
  refine List.eq_nil_iff_forall_not_mem.2 fun i hi => ?_
  rw [← Sexp.hole_mem_marks, marks_of_ofTokens h, List.mem_map] at hi
  obtain ⟨token, -, htoken⟩ := hi
  exact token.mark_ne_hole i htoken

/-- An atom of a tree that the reader has made is the value of a token. -/
theorem Sexp.atoms_of_ofTokens {tokens : List Token} {tree : Sexp}
    (h : Sexp.ofTokens tokens = .ok tree) {v : Value} (hv : v ∈ tree.atoms) :
    ∃ token ∈ tokens, token.value = v := by
  rw [← Sexp.leaf_mem_marks, marks_of_ofTokens h, List.mem_map] at hv
  obtain ⟨token, htoken, hmark⟩ := hv
  refine ⟨token, htoken, ?_⟩
  cases token with
  | leftParen => cases hmark
  | rightParen => cases hmark
  | quoted text => exact Mark.leaf.inj hmark
  | literal text => exact Mark.leaf.inj hmark

end MiniLisp
