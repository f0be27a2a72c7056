import MiniLisp.Proofs.Number.Readback
import MiniLisp.Proofs.Primitive.Closure
import MiniLisp.Proofs.Reader.Scan
import MiniLisp.Proofs.Text.Lines
import MiniLisp.Proofs.Tree.Leaves
import MiniLisp.Proofs.Value.Text

/-!
# Values and trees on one line

A quoted string may go over several lines, and then so does the text of each value that holds it.
Values and trees without such strings and names are written on one line (`Value.OneLine.text`,
`Sexp.OneLine.text`), as are the faults that speak of them (`Misuse.Concerns.message`). What is read
from one line is among these trees (`oneLine_of_parse`), and a body that is made a template and
filled again with values of one line remains so (`Sexp.OneLine.declared`, `Value.OneLine.filled`).
-/

namespace MiniLisp

/-- A value whose strings and names have no line feeds in them. -/
inductive Value.OneLine : Value → Prop
  | number (x : Float) : OneLine (.number x)
  | boolean (b : Bool) : OneLine (.boolean b)
  | none : OneLine .none
  | string {text : String} (h : Unbroken text) : OneLine (.string text)
  | symbol {name : String} (h : Unbroken name) : OneLine (.symbol name)
  | list {items : List Value} (h : ∀ v ∈ items, OneLine v) : OneLine (.list items)
  | primitive (p : Primitive) : OneLine (.function (.primitive p))
  | declared {id : Nat} {name : String} {parameters : List String} {template : Sexp}
    (named : Unbroken name) (atoms : ∀ v ∈ template.atoms, OneLine v) :
    OneLine (.function (.declared id name parameters template))

/-- A tree with such values at its leaves. -/
def Sexp.OneLine (t : Sexp) : Prop :=
  ∀ v ∈ t.atoms, v.OneLine

theorem Value.OneLine.list_iff {items : List Value} :
    Value.OneLine (.list items) ↔ ∀ v ∈ items, v.OneLine := by
  constructor
  · intro h
    cases h with
    | list h => exact h
  · exact .list

theorem Value.OneLine.hereditary : Value.Hereditary Value.OneLine where
  number := .number
  boolean := .boolean
  none := .none
  list := list_iff

/-! ## Trees -/

namespace Sexp.OneLine

theorem atom_iff {v : Value} : Sexp.OneLine (.atom v) ↔ v.OneLine := by
  simp [Sexp.OneLine, Sexp.atoms]

theorem symbol {name : String} (h : Sexp.OneLine (.atom (.symbol name))) : Unbroken name := by
  cases atom_iff.1 h with
  | symbol h => exact h

theorem items {items : List Sexp} (h : Sexp.OneLine (.expression items)) :
    ∀ t ∈ items, t.OneLine :=
  fun t ht v hv => h v (Sexp.mem_atomsAll.2 ⟨t, ht, hv⟩)

/-- A body on one line, and a name, make a procedure on one line. -/
theorem declared {body : Sexp} (h : body.OneLine) {name : String} (hname : Unbroken name) (id : Nat)
    (parameters : List String) :
    Value.OneLine (.function (.declared id name parameters (body.abstracted parameters))) :=
  .declared hname fun v hv => h v ((Sexp.mem_atoms_abstracted parameters body).1 hv).1

end Sexp.OneLine

/-- A call of a procedure on one line with values on one line evaluates a tree on one line. -/
theorem Value.OneLine.filled {id : Nat} {name : String} {parameters : List String}
    {template : Sexp} {args : List Value}
    (h : Value.OneLine (.function (.declared id name parameters template)))
    (hargs : ∀ v ∈ args, v.OneLine) : (template.filled args).OneLine := by
  cases h with
  | declared _ atoms =>
    intro v hv
    rcases Sexp.mem_atoms_filled args template hv with hv | hv
    · exact atoms v hv
    · exact hargs v hv

/-! ## Texts -/

theorem unbroken_floatText (x : Float) : Unbroken (floatText x) := by
  rw [Unbroken, floatText, String.toList_ofList]
  cases h : x.toModel.unpack with
  | notANumber => simp [floatChars, h]
  | infinity s => cases s <;> simp [floatChars, h]
  | zero _ | finite _ _ _ _ =>
    intro hmem
    have hfinite := mem_floatChars (x := x) (by simp [h]) (by simp [h]) '\n' hmem
    exact absurd hfinite (by decide)

theorem Primitive.unbroken_name (p : Primitive) : Unbroken p.name := by
  cases p with
  | operation op =>
    cases op with
    | arithmetic op => cases op <;> decide
    | comparison rel => cases rel <;> decide
    | elementary f => cases f <;> decide
    | is kind => cases kind <;> decide
    | _ => decide
  | _ => decide

theorem Value.OneLine.name {f : Procedure} (h : Value.OneLine (.function f)) : Unbroken f.name := by
  cases h with
  | primitive p => exact p.unbroken_name
  | declared named _ => exact named

mutual

theorem Value.unbroken_write : ∀ (v : Value) {out : String}, v.OneLine → Unbroken out →
    Unbroken (v.write out)
  | .number x, out, _, hout => by
    rw [Value.write, unbroken_append]
    exact ⟨hout, unbroken_floatText x⟩
  | .boolean b, out, _, hout => by
    rw [Value.write, unbroken_append]
    exact ⟨hout, by cases b <;> decide⟩
  | .string text, out, h, hout => by
    cases h with
    | string h => simp [Value.write, hout, h]
  | .symbol name, out, h, hout => by
    cases h with
    | symbol h =>
      simp only [Value.write, unbroken_append]
      exact ⟨⟨⟨hout, by decide⟩, h⟩, by decide⟩
  | .none, out, _, hout => by
    rw [Value.write, unbroken_append]
    exact ⟨hout, by decide⟩
  | .list items, out, h, hout => by
    rw [Value.write, unbroken_push]
    have hopen : Unbroken (out.push '[') := unbroken_push.2 ⟨hout, by decide⟩
    exact ⟨Value.unbroken_writeAll items (Value.OneLine.list_iff.1 h) (by decide) hopen, by decide⟩
  | .function f, out, h, hout => by
    simp only [Value.write, unbroken_append]
    exact ⟨⟨⟨hout, by decide⟩, h.name⟩, by decide⟩

theorem Value.unbroken_writeAll : ∀ (items : List Value) {gap out : String},
    (∀ v ∈ items, v.OneLine) → Unbroken gap → Unbroken out →
      Unbroken (Value.writeAll gap out items)
  | [], _, _, _, _, hout => hout
  | v :: items, gap, out, h, hgap, hout => by
    obtain ⟨hv, hitems⟩ := List.forall_mem_cons.1 h
    rw [Value.writeAll]
    have hfirst := Value.unbroken_write v hv (unbroken_append.2 ⟨hout, hgap⟩)
    exact Value.unbroken_writeAll items hitems (by decide) hfirst

end

/-- **A value on one line** has a text on one line. -/
theorem Value.OneLine.text {v : Value} (h : v.OneLine) : Unbroken v.text :=
  Value.unbroken_write v h (by decide)

mutual

theorem Sexp.unbroken_write : ∀ (t : Sexp) {out : String}, t.OneLine → Unbroken out →
    Unbroken (t.write out)
  | .atom v, out, h, hout => by
    by_cases hname : ∃ name, v = .symbol name
    · obtain ⟨name, rfl⟩ := hname
      rw [Sexp.write, unbroken_append]
      exact ⟨hout, h.symbol⟩
    · rw [Sexp.write_atom fun name hv => hname ⟨name, hv⟩]
      exact Value.unbroken_write v (Sexp.OneLine.atom_iff.1 h) hout
  | .expression items, out, h, hout => by
    rw [Sexp.write, unbroken_push]
    have hopen : Unbroken (out.push '(') := unbroken_push.2 ⟨hout, by decide⟩
    exact ⟨Sexp.unbroken_writeAll items h.items (by decide) hopen, by decide⟩
  | .placeholder index, out, _, hout => by
    rw [Sexp.write, unbroken_append, unbroken_append]
    exact ⟨⟨hout, by decide⟩, unbroken_natRepr index⟩

theorem Sexp.unbroken_writeAll : ∀ (items : List Sexp) {gap out : String},
    (∀ t ∈ items, t.OneLine) → Unbroken gap → Unbroken out →
      Unbroken (Sexp.writeAll gap out items)
  | [], _, _, _, _, hout => hout
  | t :: items, gap, out, h, hgap, hout => by
    obtain ⟨ht, hitems⟩ := List.forall_mem_cons.1 h
    rw [Sexp.writeAll]
    have hfirst := Sexp.unbroken_write t ht (unbroken_append.2 ⟨hout, hgap⟩)
    exact Sexp.unbroken_writeAll items hitems (by decide) hfirst

end

theorem Sexp.OneLine.text {t : Sexp} (h : t.OneLine) : Unbroken t.text :=
  Sexp.unbroken_write t h (by decide)

/-- What `println` makes of values on one line is one line. -/
theorem unbroken_printedLine {args : List Value} {line : String} (hargs : ∀ v ∈ args, v.OneLine)
    (h : printedLine args = .ok line) : Unbroken line := by
  unfold printedLine at h
  split at h
  · cases h
  · obtain rfl := Except.ok.inj h
    exact (hargs _ List.mem_cons_self).text
  · obtain rfl := Except.ok.inj h
    exact (Value.OneLine.list hargs).text

/-! ## Faults -/

theorem Form.unbroken_name (form : Form) : Unbroken form.name := by
  cases form <;> decide

theorem Demand.unbroken_text (demand : Demand) : Unbroken demand.text := by
  cases demand <;> decide

theorem Kind.unbroken_name (kind : Kind) : Unbroken kind.name := by
  cases kind <;> decide

/-- **A misuse of values and trees on one line** is reported on one line. -/
theorem Misuse.Concerns.message {m : Misuse} (h : m.Concerns Value.OneLine Sexp.OneLine) :
    Unbroken m.message := by
  cases h with
  | operandCount form expected got =>
    change Unbroken (form.name ++ " expects " ++ expected.repr ++ " operands, got " ++ got.repr)
    simp only [unbroken_append, unbroken_natRepr, form.unbroken_name]
    decide
  | @notASymbol form tree h =>
    change Unbroken (form.name ++ " expects a symbol, got " ++ tree.text)
    simp only [unbroken_append, form.unbroken_name, h.text]
    decide
  | @notParameters tree h =>
    change Unbroken ("function expects a list of parameters, got " ++ tree.text)
    simp only [unbroken_append, h.text]
    decide
  | @argumentCount id name parameters template h got =>
    change Unbroken (name ++ " expects " ++ parameters.length.repr ++ " argument(s), got " ++ got.repr)
    have hname : Unbroken name := h.name
    simp only [unbroken_append, unbroken_natRepr, hname]
    decide
  | primitiveCount p expected got =>
    change Unbroken (p.name ++ " expects " ++ expected.repr ++ " argument(s), got " ++ got.repr)
    simp only [unbroken_append, unbroken_natRepr, p.unbroken_name]
    decide
  | noArguments p =>
    change Unbroken (p.name ++ " expects at least one argument")
    simp only [unbroken_append, p.unbroken_name]
    decide
  | @unexpected p demand v h =>
    change Unbroken (p.name ++ " expects " ++ demand.text ++ ", got " ++ v.kind.name ++ " " ++ v.text)
    simp only [unbroken_append, p.unbroken_name, demand.unbroken_text, v.kind.unbroken_name, h.text]
    decide
  | headOfEmpty => decide
  | mapArguments got =>
    change Unbroken ("map expects a function and at least one list, got " ++ got.repr ++
      " argument(s)")
    simp only [unbroken_append, unbroken_natRepr]
    decide

/-! ## Reading -/

/-- A text without a line feed has tokens without one. -/
theorem unbroken_of_tokenize {source : String} (hsource : Unbroken source) {tokens : List Token}
    (h : tokenize source = .ok tokens) : ∀ token ∈ tokens, Unbroken token.text := by
  obtain ⟨l, hchars, htokens⟩ := (tokenize_scanned source).exists_layout h
  intro token htoken
  rw [← htokens] at htoken
  obtain ⟨part, hpart, rfl⟩ := List.mem_map.1 htoken
  have hspelling : '\n' ∉ part.1.spelling := fun hmem => hsource <| by
    rw [← hchars, Layout.chars]
    have hparts : '\n' ∈ charsOfParts l.parts :=
      List.mem_flatMap.2 ⟨part, hpart, List.mem_append_left _ hmem⟩
    exact List.mem_append_right _ hparts
  cases hpart : part.1 with
  | leftParen => decide
  | rightParen => decide
  | quoted text =>
    rw [hpart] at hspelling
    exact fun hmem => hspelling (List.mem_cons_of_mem _ (List.mem_append_left _ hmem))
  | literal text =>
    rw [hpart] at hspelling
    exact hspelling

theorem oneLine_ofLiteral {text : String} (h : Unbroken text) : (Value.ofLiteral text).OneLine := by
  unfold Value.ofLiteral
  split
  · exact .number _
  · split
    · exact .boolean _
    · exact .boolean _
    · exact .none
    · exact .symbol h

theorem Token.oneLine_value {token : Token} (h : Unbroken token.text) : token.value.OneLine := by
  cases token with
  | quoted text => exact .string h
  | leftParen => exact oneLine_ofLiteral h
  | rightParen => exact oneLine_ofLiteral h
  | literal text => exact oneLine_ofLiteral h

/-- What the reader leaves of its tokens was among them, and what it finds wrong by itself does not
depend on them. -/
theorem readTree_unbroken (opened : List (List Sexp)) {tokens : List Token}
    (h : ∀ token ∈ tokens, Unbroken token.text) :
    match readTree opened tokens with
    | .ok (_, rest) => ∀ token ∈ rest, Unbroken token.text
    | .error fault => Unbroken fault.message := by
  induction tokens generalizing opened with
  | nil =>
    rw [readTree]
    decide
  | cons token tokens ih =>
    have hrest : ∀ token ∈ tokens, Unbroken token.text := (List.forall_mem_cons.1 h).2
    cases token with
    | leftParen =>
      by_cases hdepth : opened.length < maxNesting
      · rw [readTree, if_pos hdepth]
        exact ih _ hrest
      · rw [readTree, if_neg hdepth]
        decide
    | rightParen =>
      match opened with
      | [] =>
        rw [readTree]
        decide
      | [items] => exact hrest
      | items :: parent :: outer => exact ih _ hrest
    | quoted text =>
      cases opened with
      | nil => exact hrest
      | cons items outer => exact ih _ hrest
    | literal text =>
      cases opened with
      | nil => exact hrest
      | cons items outer => exact ih _ hrest

theorem unbroken_of_tokenize_error {source : String} {fault : ReadFault}
    (h : tokenize source = .error fault) : Unbroken fault.message := by
  rw [tokenize, Lexer.finish] at h
  split at h
  · cases h
  · rename_i start _ _
    obtain rfl := Except.error.inj h
    change Unbroken ("unterminated string literal starting at byte " ++ start.repr)
    simp only [unbroken_append, unbroken_natRepr]
    decide

theorem unbroken_of_ofTokens_error {tokens : List Token} {fault : ReadFault}
    (htokens : ∀ token ∈ tokens, Unbroken token.text) (h : Sexp.ofTokens tokens = .error fault) :
    Unbroken fault.message := by
  have hread := readTree_unbroken [] htokens
  unfold Sexp.ofTokens at h
  cases hr : readTree [] tokens with
  | error fault' =>
    rw [hr] at hread h
    obtain rfl := Except.error.inj h
    exact hread
  | ok p =>
    obtain ⟨tree, rest⟩ := p
    rw [hr] at hread h
    cases rest with
    | nil => cases h
    | cons token rest =>
      obtain rfl := Except.error.inj h
      change Unbroken ("unexpected " ++ token.text ++ " after the end of the program")
      simp only [unbroken_append, hread token List.mem_cons_self]
      decide

/-- **What is read from one line** is a tree on one line. -/
theorem oneLine_of_parse {source : String} (hsource : Unbroken source) {tree : Sexp}
    (h : parse source = .ok tree) : tree.OneLine := by
  obtain ⟨tokens, htokens, hread⟩ := exists_tokens_of_parse h
  intro v hv
  obtain ⟨token, htoken, rfl⟩ := Sexp.atoms_of_ofTokens hread hv
  exact Token.oneLine_value (unbroken_of_tokenize hsource htokens token htoken)

/-- A line that cannot be read is refused on one line. -/
theorem unbroken_of_parse_error {source : String} (hsource : Unbroken source) {fault : ReadFault}
    (h : parse source = .error fault) : Unbroken fault.message := by
  cases htokens : tokenize source with
  | error fault' =>
    have hparse : parse source = .error fault' := by
      rw [parse, htokens]
      rfl
    obtain rfl := Except.error.inj (hparse.symm.trans h)
    exact unbroken_of_tokenize_error htokens
  | ok tokens =>
    rw [parse_of_tokenize htokens] at h
    exact unbroken_of_ofTokens_error (unbroken_of_tokenize hsource htokens) h

end MiniLisp
