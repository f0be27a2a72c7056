import MiniLisp.Proofs.Primitive.Closure
import MiniLisp.Proofs.Reader.Scan
import MiniLisp.Proofs.Token.Spelling
import MiniLisp.Proofs.Tree.Leaves

/-!
# Sound values and closed trees

Not every `Value` can come out of an evaluation. A sound one (`Value.Sound`) has no symbol in it,
no string that could not have been written down, and no procedure whose template has a parameter
by its name, a placeholder without an argument or an unsound atom. A closed tree (`Sexp.Closed`) is
one that can be evaluated: it has no placeholders and, beside symbols, only sound atoms.

The two are about one another. A text is read as a closed tree (`closed_of_parse`), a closed tree
makes a sound procedure of its parameters (`Sexp.Closed.declared`), and a sound procedure that is
filled with sound values is a closed tree again (`Value.Sound.filled`), in which the whole may
start afresh.
-/

namespace MiniLisp

/-- A value that an evaluation may give. -/
inductive Value.Sound : Value → Prop
  | number (x : Float) : Sound (.number x)
  | boolean (b : Bool) : Sound (.boolean b)
  | none : Sound .none
  | string {text : String} (h : '\'' ∉ text.toList) : Sound (.string text)
  | list {items : List Value} (h : ∀ v ∈ items, Sound v) : Sound (.list items)
  | primitive (p : Primitive) : Sound (.function (.primitive p))
  | declared {id : Nat} {name : String} {parameters : List String} {template : Sexp}
    (names : ∀ parameter ∈ parameters, .symbol parameter ∉ template.atoms)
    (placeholders : ∀ i ∈ template.placeholders, i < parameters.length)
    (atoms : ∀ v ∈ template.atoms, (∀ symbol, v ≠ .symbol symbol) → Sound v) :
    Sound (.function (.declared id name parameters template))

/-- A tree that may be evaluated. -/
structure Sexp.Closed (t : Sexp) : Prop where
  placeholders : t.placeholders = []
  atoms : ∀ v ∈ t.atoms, (∀ symbol, v ≠ .symbol symbol) → v.Sound

theorem Value.Sound.hereditary : Value.Hereditary Value.Sound where
  number := .number
  boolean := .boolean
  none := .none
  list {items} := by
    constructor
    · intro h
      cases h with
      | list h => exact h
    · exact .list

/-! ## Closed trees -/

namespace Sexp.Closed

theorem atom {v : Value} (h : Closed (.atom v)) (hv : ∀ name, v ≠ .symbol name) : v.Sound :=
  h.atoms v (List.mem_singleton_self v) hv

theorem not_placeholder {i : Nat} (h : Closed (.placeholder i)) : False :=
  List.cons_ne_nil _ _ h.placeholders

theorem items {items : List Sexp} (h : Closed (.expression items)) :
    ∀ t ∈ items, t.Closed := by
  intro t ht
  refine ⟨List.eq_nil_iff_forall_not_mem.2 fun i hi => ?_, fun v hv => ?_⟩
  · refine List.not_mem_nil (a := i) ?_
    rw [← h.placeholders]
    exact Sexp.mem_placeholdersAll.2 ⟨t, ht, hi⟩
  · exact h.atoms v (Sexp.mem_atomsAll.2 ⟨t, ht, hv⟩)

/-- A closed body makes a sound procedure. -/
theorem declared {body : Sexp} (h : body.Closed) (id : Nat) (name : String)
    (parameters : List String) :
    Value.Sound (.function (.declared id name parameters (body.abstracted parameters))) := by
  refine .declared (fun parameter hparameter hmem => ?_) (fun i hi => ?_) fun v hv => ?_
  · exact ((Sexp.mem_atoms_abstracted parameters body).1 hmem).2 parameter hparameter rfl
  · rcases Sexp.mem_placeholders_abstracted parameters body hi with hi | hi
    · rw [h.placeholders] at hi
      cases hi
    · exact hi
  · exact h.atoms v ((Sexp.mem_atoms_abstracted parameters body).1 hv).1

end Sexp.Closed

/-- A call of a sound procedure with sound values evaluates a closed tree. -/
theorem Value.Sound.filled {id : Nat} {name : String} {parameters : List String} {template : Sexp}
    {args : List Value} (h : Value.Sound (.function (.declared id name parameters template)))
    (hargs : ∀ v ∈ args, v.Sound) (hlength : args.length = parameters.length) :
    (template.filled args).Closed := by
  cases h with
  | declared names placeholders atoms =>
    refine ⟨List.eq_nil_iff_forall_not_mem.2 fun i hi => ?_, fun v hv hsymbol => ?_⟩
    · obtain ⟨hmem, hle⟩ := Sexp.mem_placeholders_filled args template hi
      have hlt := placeholders i hmem
      omega
    · rcases Sexp.mem_atoms_filled args template hv with hv | hv
      · exact atoms v hv hsymbol
      · exact hargs v hv

/-! ## Reading -/

theorem Value.sound_ofLiteral (text : String)
    (h : ∀ name, Value.ofLiteral text ≠ .symbol name) : (Value.ofLiteral text).Sound := by
  revert h
  unfold Value.ofLiteral
  split
  · exact fun _ => .number _
  · split
    · exact fun _ => .boolean _
    · exact fun _ => .boolean _
    · exact fun _ => .none
    · exact fun h => absurd rfl (h _)

theorem Token.Spellable.value_sound {token : Token} (h : token.Spellable)
    (hsymbol : ∀ name, token.value ≠ .symbol name) : token.value.Sound := by
  cases token with
  | quoted text => exact .string h
  | leftParen => exact Value.sound_ofLiteral (Token.text .leftParen) hsymbol
  | rightParen => exact Value.sound_ofLiteral (Token.text .rightParen) hsymbol
  | literal text => exact Value.sound_ofLiteral text hsymbol

/-- A text is read as a closed tree. -/
theorem closed_of_parse {source : String} {tree : Sexp} (h : parse source = .ok tree) :
    tree.Closed := by
  obtain ⟨tokens, htokens, hread⟩ := exists_tokens_of_parse h
  refine ⟨Sexp.placeholders_of_ofTokens hread, fun v hv hsymbol => ?_⟩
  obtain ⟨token, htoken, rfl⟩ := Sexp.atoms_of_ofTokens hread hv
  exact (tokenize_spellable htokens token htoken).value_sound hsymbol

end MiniLisp
