import MiniLisp.Value.Text

/-!
# Texts side by side

A text is written by appending to the one before it, and what is appended does not depend on what
stands there (`Value.write_eq_append`, `Sexp.write_eq_append`). So the text of an expression is
made of the texts of its items, with one space between them and parentheses around them
(`Sexp.text_expression`).
-/

namespace MiniLisp

/-! ## Appending -/

mutual

theorem Value.write_eq_append : ∀ (v : Value) (out : String), v.write out = out ++ v.text
  | .number x, out => by simp only [Value.text, Value.write, String.empty_append]
  | .boolean b, out => by simp only [Value.text, Value.write, String.empty_append]
  | .string text, out => by
    simp only [Value.text, Value.write, String.push_eq_append, String.append_assoc,
      String.empty_append]
  | .symbol name, out => by
    simp only [Value.text, Value.write, String.append_assoc, String.empty_append]
  | .none, out => by simp only [Value.text, Value.write, String.empty_append]
  | .list items, out => by
    rw [Value.text, Value.write, Value.write, Value.writeAll_eq_append items "" (out.push '['),
      Value.writeAll_eq_append items "" ("".push '[')]
    simp only [String.push_eq_append, String.append_assoc, String.empty_append]
  | .function f, out => by
    simp only [Value.text, Value.write, String.append_assoc, String.empty_append]

theorem Value.writeAll_eq_append : ∀ (items : List Value) (gap out : String),
    Value.writeAll gap out items = out ++ Value.writeAll gap "" items
  | [], gap, out => by simp only [Value.writeAll, String.append_empty]
  | v :: items, gap, out => by
    rw [Value.writeAll, Value.writeAll, Value.writeAll_eq_append items ", " (v.write (out ++ gap)),
      Value.writeAll_eq_append items ", " (v.write ("" ++ gap)),
      Value.write_eq_append v (out ++ gap), Value.write_eq_append v ("" ++ gap)]
    simp only [String.append_assoc, String.empty_append]

end

/-- The text of an atom is that of its value, but a name is written as it is. -/
theorem Sexp.write_atom {v : Value} (h : ∀ name, v ≠ .symbol name) (out : String) :
    (Sexp.atom v).write out = v.write out := by
  cases v with
  | symbol name => exact absurd rfl (h name)
  | _ => rfl

theorem Sexp.text_atom {v : Value} (h : ∀ name, v ≠ .symbol name) :
    (Sexp.atom v).text = v.text :=
  Sexp.write_atom h ""

mutual

theorem Sexp.write_eq_append : ∀ (s : Sexp) (out : String), s.write out = out ++ s.text
  | .atom v, out => by
    by_cases h : ∃ name, v = .symbol name
    · obtain ⟨name, rfl⟩ := h
      simp only [Sexp.text, Sexp.write, String.empty_append]
    · have hv : ∀ name, v ≠ .symbol name := fun name heq => h ⟨name, heq⟩
      rw [Sexp.write_atom hv, Sexp.text_atom hv, Value.write_eq_append]
  | .expression items, out => by
    rw [Sexp.text, Sexp.write, Sexp.write, Sexp.writeAll_eq_append items "" (out.push '('),
      Sexp.writeAll_eq_append items "" ("".push '(')]
    simp only [String.push_eq_append, String.append_assoc, String.empty_append]
  | .placeholder index, out => by
    simp only [Sexp.text, Sexp.write, String.append_assoc, String.empty_append]

theorem Sexp.writeAll_eq_append : ∀ (items : List Sexp) (gap out : String),
    Sexp.writeAll gap out items = out ++ Sexp.writeAll gap "" items
  | [], gap, out => by simp only [Sexp.writeAll, String.append_empty]
  | s :: items, gap, out => by
    rw [Sexp.writeAll, Sexp.writeAll, Sexp.writeAll_eq_append items " " (s.write (out ++ gap)),
      Sexp.writeAll_eq_append items " " (s.write ("" ++ gap)),
      Sexp.write_eq_append s (out ++ gap), Sexp.write_eq_append s ("" ++ gap)]
    simp only [String.append_assoc, String.empty_append]

end

/-! ## Expressions -/

theorem Sexp.writeAll_cons (gap : String) (s : Sexp) (items : List Sexp) :
    Sexp.writeAll gap "" (s :: items) = gap ++ " ".intercalate ((s :: items).map Sexp.text) := by
  induction items generalizing gap s with
  | nil =>
    rw [Sexp.writeAll, Sexp.writeAll, Sexp.write_eq_append, String.empty_append, List.map_cons,
      List.map_nil, String.intercalate_singleton]
  | cons t items ih =>
    rw [Sexp.writeAll, Sexp.writeAll_eq_append, ih, Sexp.write_eq_append, String.empty_append,
      List.map_cons, List.map_cons, List.map_cons, String.intercalate_cons_cons]
    simp only [String.append_assoc]

/-- The text of an expression has those of its items in it, with spaces between them. -/
theorem Sexp.text_expression (items : List Sexp) :
    (Sexp.expression items).text = "(" ++ " ".intercalate (items.map Sexp.text) ++ ")" := by
  have hitems : Sexp.writeAll "" "" items = " ".intercalate (items.map Sexp.text) := by
    cases items with
    | nil => rfl
    | cons s items => rw [Sexp.writeAll_cons, String.empty_append]
  rw [Sexp.text, Sexp.write, Sexp.writeAll_eq_append, hitems]
  rfl

end MiniLisp
