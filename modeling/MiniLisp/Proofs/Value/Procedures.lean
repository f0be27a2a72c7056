import MiniLisp.Proofs.Primitive.Closure
import MiniLisp.Proofs.Reader.Scan
import MiniLisp.Proofs.Tree.Leaves

/-!
# The procedures in a value

A value may carry procedures: it may be one, it may hold some in lists, and the template of a
procedure may hold others at its leaves. `Value.procedures` collects them all, at any depth. They
are what a program can get at by way of a value, beside the names that their templates spell
(`Procedure.Mentions`).

What evaluation makes of values and trees brings in no other procedures: a template has those of the
body, and a filled template its own and those of the arguments. So a property of procedures passes
from the arguments of a primitive to its result (`Value.hereditary_procedures`).
-/

namespace MiniLisp

mutual

/-- The procedures found in a value, in lists and in templates at any depth. -/
def Value.procedures : Value → List Procedure
  | .list items => Value.proceduresAll items
  | .function f => f.procedures
  | _ => []

def Value.proceduresAll : List Value → List Procedure
  | [] => []
  | v :: rest => v.procedures ++ Value.proceduresAll rest

/-- A procedure and those found in its template. -/
def Procedure.procedures : Procedure → List Procedure
  | .primitive p => [.primitive p]
  | .declared id name parameters template =>
    .declared id name parameters template :: template.procedures

/-- The procedures found at the leaves of a tree. -/
def Sexp.procedures : Sexp → List Procedure
  | .atom v => v.procedures
  | .expression items => Sexp.proceduresAll items
  | .placeholder _ => []

def Sexp.proceduresAll : List Sexp → List Procedure
  | [] => []
  | t :: rest => t.procedures ++ Sexp.proceduresAll rest

end

/-- A name is spelled in the template of a procedure. -/
def Procedure.Mentions (name : String) : Procedure → Prop
  | .primitive _ => False
  | .declared _ _ _ template => .symbol name ∈ template.atoms

/-! ## Lists and trees -/

theorem Value.mem_proceduresAll {f : Procedure} {items : List Value} :
    f ∈ Value.proceduresAll items ↔ ∃ v ∈ items, f ∈ v.procedures := by
  induction items with
  | nil => simp [Value.proceduresAll]
  | cons v items ih => simp [Value.proceduresAll, ih]

mutual

/-- The procedures in a tree are those in its atoms. -/
theorem Sexp.mem_procedures {f : Procedure} : ∀ (t : Sexp),
    f ∈ t.procedures ↔ ∃ v ∈ t.atoms, f ∈ v.procedures
  | .atom v => by simp [Sexp.procedures, Sexp.atoms]
  | .expression items => Sexp.mem_proceduresAll items
  | .placeholder index => by simp [Sexp.procedures, Sexp.atoms]

theorem Sexp.mem_proceduresAll {f : Procedure} : ∀ (items : List Sexp),
    f ∈ Sexp.proceduresAll items ↔ ∃ v ∈ Sexp.atomsAll items, f ∈ v.procedures
  | [] => by simp [Sexp.proceduresAll, Sexp.atomsAll]
  | t :: items => by
    simp only [Sexp.proceduresAll, Sexp.atomsAll, List.mem_append, Sexp.mem_procedures t,
      Sexp.mem_proceduresAll items, or_and_right, exists_or]

end

theorem Sexp.mem_procedures_expression {f : Procedure} {items : List Sexp} :
    f ∈ (Sexp.expression items).procedures ↔ ∃ t ∈ items, f ∈ t.procedures := by
  simp only [Sexp.mem_procedures, Sexp.atoms, Sexp.mem_atomsAll]
  constructor
  · rintro ⟨v, ⟨t, ht, hv⟩, hf⟩
    exact ⟨t, ht, v, hv, hf⟩
  · rintro ⟨t, ht, v, hv, hf⟩
    exact ⟨v, ⟨t, ht, hv⟩, hf⟩

/-- A property of the procedures in a value is one that lists hand on. -/
theorem Value.hereditary_procedures (Q : Procedure → Prop) :
    Value.Hereditary fun v => ∀ f ∈ v.procedures, Q f where
  number x f hf := by cases hf
  boolean b f hf := by cases hf
  none f hf := by cases hf
  list {items} := by
    rw [Value.procedures]
    constructor
    · exact fun h v hv f hf => h f (Value.mem_proceduresAll.2 ⟨v, hv, hf⟩)
    · intro h f hf
      obtain ⟨v, hv, hf⟩ := Value.mem_proceduresAll.1 hf
      exact h v hv f hf

/-! ## Templates -/

/-- A template has procedures of the body only. -/
theorem Sexp.mem_procedures_of_abstracted {f : Procedure} {parameters : List String} {body : Sexp}
    (h : f ∈ (body.abstracted parameters).procedures) : f ∈ body.procedures := by
  rw [Sexp.mem_procedures] at h ⊢
  obtain ⟨v, hv, hf⟩ := h
  exact ⟨v, ((Sexp.mem_atoms_abstracted parameters body).1 hv).1, hf⟩

/-- A filled template has its own procedures and those of the arguments. -/
theorem Sexp.mem_procedures_of_filled {f : Procedure} {args : List Value} {template : Sexp}
    (h : f ∈ (template.filled args).procedures) :
    f ∈ template.procedures ∨ ∃ v ∈ args, f ∈ v.procedures := by
  rw [Sexp.mem_procedures] at h ⊢
  obtain ⟨v, hv, hf⟩ := h
  rcases Sexp.mem_atoms_filled args template hv with hv | hv
  · exact .inl ⟨v, hv, hf⟩
  · exact .inr ⟨v, hv, hf⟩

/-! ## Reading -/

theorem Value.procedures_ofLiteral (text : String) : (Value.ofLiteral text).procedures = [] := by
  unfold Value.ofLiteral
  split
  · rfl
  · split <;> rfl

theorem Token.procedures_value (token : Token) : token.value.procedures = [] := by
  cases token with
  | quoted text => rfl
  | leftParen => exact Value.procedures_ofLiteral (Token.text .leftParen)
  | rightParen => exact Value.procedures_ofLiteral (Token.text .rightParen)
  | literal text => exact Value.procedures_ofLiteral text

/-- A program text spells no procedures, only their names. -/
theorem procedures_of_parse {source : String} {tree : Sexp} (h : parse source = .ok tree) :
    tree.procedures = [] := by
  obtain ⟨tokens, -, hread⟩ := exists_tokens_of_parse h
  refine List.eq_nil_iff_forall_not_mem.2 fun f hf => ?_
  obtain ⟨v, hv, hf⟩ := (Sexp.mem_procedures tree).1 hf
  obtain ⟨token, -, rfl⟩ := Sexp.atoms_of_ofTokens hread hv
  rw [token.procedures_value] at hf
  cases hf

end MiniLisp
