import MiniLisp.Json.Skip
import MiniLisp.Proofs.Json.Scan

/-!
# Passing over what the grammar allows

A value is passed over up to its end, whatever is nested in it (`IsValue.skipValue`). The parts
between two brackets are taken one by one: each leads from an opening bracket, or from a comma, to
the place after it (`Passed`), and so all of them lead to the closing bracket (`Body.skipFrom`).
-/

namespace MiniLisp.Json

variable {outer : List Bracket} {rest : List Char}

/-! ## Steps -/

theorem skipFrom_before (text : List Char) : skipFrom outer .before text =
    match skipSpace text with
    | [] => .error .truncated
    | '[' :: rest => skipFrom (.array :: outer) .opened rest
    | '{' :: rest => skipFrom (.object :: outer) .opened rest
    | c :: rest => skipScalar (c :: rest) >>= skipFrom outer .after := by
  rw [skipFrom]
  split
  · simp [*]
  · simp [*]
  · simp [*]
  · split <;> simp [*, bind, Except.bind]

theorem skipFrom_opened_array (text : List Char) : skipFrom (.array :: outer) .opened text =
    match skipSpace text with
    | ']' :: rest => skipFrom outer .after rest
    | _ => skipFrom (.array :: outer) .before text := by
  conv_lhs => rw [skipFrom]
  split <;> simp [*]

theorem skipFrom_opened_object (text : List Char) : skipFrom (.object :: outer) .opened text =
    match skipSpace text with
    | '}' :: rest => skipFrom outer .after rest
    | _ => skipName text >>= skipFrom (.object :: outer) .before := by
  rw [skipFrom]
  split
  · simp [*]
  · split <;> simp [*, bind, Except.bind]

theorem skipFrom_after_array (text : List Char) : skipFrom (.array :: outer) .after text =
    match skipSpace text with
    | [] => .error .truncated
    | ']' :: rest => skipFrom outer .after rest
    | ',' :: rest => skipFrom (.array :: outer) .before rest
    | _ => .error .malformed := by
  rw [skipFrom]
  split <;> simp [*]

theorem skipFrom_after_object (text : List Char) : skipFrom (.object :: outer) .after text =
    match skipSpace text with
    | [] => .error .truncated
    | '}' :: rest => skipFrom outer .after rest
    | ',' :: rest => skipName rest >>= skipFrom (.object :: outer) .before
    | _ => .error .malformed := by
  rw [skipFrom]
  split
  · simp [*]
  · simp [*]
  · split <;> simp [*, bind, Except.bind]
  · simp [*]

/-! ## Brackets -/

def Bracket.closing : Bracket → Char
  | .array => ']'
  | .object => '}'

variable {bracket : Bracket}

theorem ends_closing (bracket : Bracket) : Ends (bracket.closing :: rest) := by
  rintro c ⟨⟩
  cases bracket <;> decide

theorem ends_comma : Ends (',' :: rest) := by
  rintro c ⟨⟩
  decide

/-- Space after a part does not matter. -/
theorem skipFrom_after_space {space : List Char} (h : IsSpace space) :
    skipFrom (bracket :: outer) .after (space ++ rest) =
      skipFrom (bracket :: outer) .after rest := by
  cases bracket with
  | array => rw [skipFrom_after_array, skipFrom_after_array, skipSpace_append h]
  | object => rw [skipFrom_after_object, skipFrom_after_object, skipSpace_append h]

theorem skipFrom_after_closing :
    skipFrom (bracket :: outer) .after (bracket.closing :: rest) = skipFrom outer .after rest := by
  cases bracket with
  | array => exact skipFrom_after_array _
  | object => exact skipFrom_after_object _

theorem skipFrom_opened_closing {space : List Char} (h : IsSpace space) :
    skipFrom (bracket :: outer) .opened (space ++ bracket.closing :: rest) =
      skipFrom outer .after rest := by
  cases bracket with
  | array =>
    rw [skipFrom_opened_array, skipSpace_append h]
    rfl
  | object =>
    rw [skipFrom_opened_object, skipSpace_append h]
    rfl

/-- A part between two brackets that is passed over, with what separates it from the part before. -/
def Passed (bracket : Bracket) (part : List Char) : Prop :=
  ∀ outer rest, Ends rest →
    skipFrom (bracket :: outer) .opened (part ++ rest) = skipFrom (bracket :: outer) .after rest ∧
    skipFrom (bracket :: outer) .after (',' :: (part ++ rest)) =
      skipFrom (bracket :: outer) .after rest

section Body

variable {α : Type} {part : α → List Char} {xs : List α} {text : List Char}

theorem Body.skipFrom_after (h : Body part xs text) (ne : xs ≠ [])
    (hpassed : ∀ x ∈ xs, Passed bracket (part x)) :
    skipFrom (bracket :: outer) .after (',' :: (text ++ bracket.closing :: rest)) =
      skipFrom outer .after rest := by
  induction h with
  | empty => exact absurd rfl ne
  | @last x =>
    rw [(hpassed x List.mem_cons_self _ _ (ends_closing bracket)).2, skipFrom_after_closing]
  | @cons x xs text hne h ih =>
    obtain ⟨hx, hxs⟩ := List.forall_mem_cons.1 hpassed
    rw [List.append_assoc, List.cons_append, (hx _ _ ends_comma).2]
    exact ih hne hxs

/-- The parts between two brackets are passed over. -/
theorem Body.skipFrom (h : Body part xs text) (hpassed : ∀ x ∈ xs, Passed bracket (part x)) :
    Json.skipFrom (bracket :: outer) .opened (text ++ bracket.closing :: rest) =
      Json.skipFrom outer .after rest := by
  cases h with
  | empty h => exact skipFrom_opened_closing h
  | @last x =>
    rw [(hpassed x List.mem_cons_self _ _ (ends_closing bracket)).1, skipFrom_after_closing]
  | @cons x xs text hne h =>
    obtain ⟨hx, hxs⟩ := List.forall_mem_cons.1 hpassed
    rw [List.append_assoc, List.cons_append, (hx _ _ ends_comma).1]
    exact h.skipFrom_after hne hxs

end Body

/-! ## Scalars -/

/-- The characters that no scalar starts with. -/
def marks : List Char :=
  [' ', '\n', '\t', '\r', '[', ']', '{']

theorem isSpace_of_not_mem_marks {c : Char} (h : c ∉ marks) : isSpace c = false := by
  simp only [marks, List.mem_cons, not_or] at h
  simp [isSpace, h]

theorem not_mem_marks_of_isDigit {c : Char} (h : c.isDigit) : c ∉ marks := by
  have hall : marks.all fun m => !m.isDigit := by decide
  intro hc
  have hdigit := List.all_eq_true.1 hall c hc
  rw [h] at hdigit
  cases hdigit

theorem Unsigned.exists_cons {text : List Char} (h : Unsigned text) :
    ∃ c rest, text = c :: rest ∧ c.isDigit := by
  obtain ⟨hwhole, -, -⟩ := h
  obtain ⟨ne, hdigits⟩ := hwhole.isDigit
  obtain ⟨c, rest, rfl⟩ := List.exists_cons_of_ne_nil ne
  exact ⟨c, _, rfl, hdigits c List.mem_cons_self⟩

theorem Scalar.exists_cons {text : List Char} (h : Scalar text) :
    ∃ c rest, text = c :: rest ∧ c ∉ marks := by
  cases h with
  | word h =>
    simp only [List.mem_cons, List.not_mem_nil, or_false] at h
    obtain rfl | rfl | rfl := h
    · exact ⟨'n', ['u', 'l', 'l'], rfl, by decide⟩
    · exact ⟨'t', ['r', 'u', 'e'], rfl, by decide⟩
    · exact ⟨'f', ['a', 'l', 's', 'e'], rfl, by decide⟩
  | string h => exact ⟨'"', _, rfl, by decide⟩
  | negative h => exact ⟨'-', _, rfl, by decide⟩
  | positive h =>
    obtain ⟨c, rest, rfl, hc⟩ := h.exists_cons
    exact ⟨c, rest, rfl, not_mem_marks_of_isDigit hc⟩

theorem skipWord_append (word rest : List Char) : skipWord word (word ++ rest) = .ok rest := by
  induction word with
  | nil => rfl
  | cons c word ih => rw [List.cons_append, skipWord, if_pos rfl, ih]

theorem Scalar.skipScalar {text : List Char} (h : Scalar text) (hrest : Ends rest) :
    Json.skipScalar (text ++ rest) = .ok rest := by
  cases h with
  | word h =>
    simp only [List.mem_cons, List.not_mem_nil, or_false] at h
    obtain rfl | rfl | rfl := h
    · exact skipWord_append ['u', 'l', 'l'] rest
    · exact skipWord_append ['r', 'u', 'e'] rest
    · exact skipWord_append ['a', 'l', 's', 'e'] rest
  | string h =>
    rw [List.cons_append, List.append_assoc]
    exact skipString_quoted h
  | negative h =>
    obtain ⟨n, hn⟩ := scanNumeral_append .malformed h hrest
    rw [List.cons_append, Json.skipScalar, hn]
    rfl
  | positive h =>
    obtain ⟨n, hn⟩ := scanNumeral_append .malformed h hrest
    obtain ⟨c, text, rfl, hc⟩ := h.exists_cons
    rw [List.cons_append] at hn ⊢
    rw [Json.skipScalar, if_pos hc, hn]
    · rfl
    all_goals
      rintro rfl
      cases hc

/-! ## Values -/

/-- A value that is passed over wherever it stands, with space before it. -/
def Skipped (value : List Char) : Prop :=
  ∀ outer before rest, IsSpace before → Ends rest →
    skipFrom outer .before (before ++ (value ++ rest)) = skipFrom outer .after rest

theorem Skipped.spaced {part : Spaced} (h : Skipped part.content) (hrest : Ends rest) :
    skipFrom (bracket :: outer) .before (part.text ++ rest) =
      skipFrom (bracket :: outer) .after rest := by
  rw [Spaced.text, List.append_assoc, List.append_assoc,
    h _ _ _ part.space_before (ends_of_isSpace part.space_after hrest),
    skipFrom_after_space part.space_after]

theorem IsValue.exists_cons {text : List Char} (h : IsValue text) :
    ∃ c rest, text = c :: rest ∧ isSpace c = false ∧ c ≠ ']' := by
  cases h with
  | array => exact ⟨'[', _, rfl, by decide, by decide⟩
  | object => exact ⟨'{', _, rfl, by decide, by decide⟩
  | scalar h =>
    obtain ⟨c, rest, rfl, hc⟩ := h.exists_cons
    refine ⟨c, rest, rfl, isSpace_of_not_mem_marks hc, ?_⟩
    rintro rfl
    exact hc (by decide)

theorem Scalar.skipped {text : List Char} (h : Scalar text) : Skipped text := by
  intro outer before rest hbefore hrest
  have hskip := h.skipScalar hrest
  obtain ⟨c, text, rfl, hc⟩ := h.exists_cons
  rw [List.cons_append] at hskip ⊢
  rw [skipFrom_before, skipSpace_append hbefore, skipSpace_cons (isSpace_of_not_mem_marks hc)]
  split
  · contradiction
  · rename_i heq
    cases heq
    exact absurd (by decide) hc
  · rename_i heq
    cases heq
    exact absurd (by decide) hc
  · rename_i heq
    cases heq
    rw [hskip]
    rfl

theorem skipSpace_spaced {item : Spaced} (h : IsValue item.content) (rest : List Char) :
    ∃ c text, skipSpace (item.text ++ rest) = c :: text ∧ c ≠ ']' := by
  obtain ⟨c, text, htext, hc, hclosing⟩ := h.exists_cons
  refine ⟨c, text ++ (item.after ++ rest), ?_, hclosing⟩
  rw [Spaced.text, List.append_assoc, List.append_assoc, skipSpace_append item.space_before, htext]
  exact skipSpace_cons hc

theorem passed_spaced {item : Spaced} (h : IsValue item.content) (hskip : Skipped item.content) :
    Passed .array item.text := by
  intro outer rest hrest
  constructor
  · obtain ⟨c, text, htext, hc⟩ := skipSpace_spaced h rest
    rw [skipFrom_opened_array, htext]
    split
    · rename_i heq
      exact absurd (List.cons.inj heq).1 hc
    · exact hskip.spaced hrest
  · exact (skipFrom_after_array _).trans (hskip.spaced hrest)

theorem skipSpace_entry (entry : Entry) (rest : List Char) :
    skipSpace (entry.text ++ rest) = '"' :: (entry.unquoted ++ rest) := by
  rw [Entry.text, List.append_assoc, skipSpace_append entry.name.space_before]
  exact skipSpace_cons (by decide)

theorem skipName_entry {entry : Entry} {pieces : List Piece}
    (h : Quoted entry.name.content pieces) (rest : List Char) :
    skipName (entry.text ++ rest) = .ok (entry.value.text ++ rest) := by
  have hcolon : skipSpace (entry.name.after ++ ':' :: (entry.value.text ++ rest)) =
      ':' :: (entry.value.text ++ rest) := by
    rw [skipSpace_append entry.name.space_after, skipSpace_cons (by decide)]
  have hname : skipString (entry.unquoted ++ rest) =
      .ok (entry.name.after ++ ':' :: (entry.value.text ++ rest)) := by
    rw [Entry.unquoted]
    simp only [List.append_assoc, List.cons_append]
    exact skipString_quoted h
  rw [skipName, skipSpace_entry]
  simp [hname, hcolon, bind, Except.bind, pure, Except.pure]

theorem passed_entry {entry : Entry} {pieces : List Piece} (hname : Quoted entry.name.content pieces)
    (hskip : Skipped entry.value.content) : Passed .object entry.text := by
  intro outer rest hrest
  have hpart : (skipName (entry.text ++ rest) >>= skipFrom (.object :: outer) .before) =
      skipFrom (.object :: outer) .after rest := by
    rw [skipName_entry hname]
    exact hskip.spaced hrest
  constructor
  · rw [skipFrom_opened_object, skipSpace_entry]
    exact hpart
  · exact (skipFrom_after_object _).trans hpart

theorem IsValue.skipped {text : List Char} (h : IsValue text) : Skipped text := by
  -- The brackets that are open around a value are any, so that the values in it are passed over
  -- with one more.
  induction h with
  | scalar h => exact h.skipped
  | array hbody hitems ih =>
    intro outer before rest hbefore hrest
    rw [skipFrom_before, skipSpace_append hbefore]
    simp only [List.cons_append, List.append_assoc]
    exact hbody.skipFrom fun item hitem => passed_spaced (hitems item hitem) (ih item hitem)
  | object hbody hnames hvalues ih =>
    intro outer before rest hbefore hrest
    rw [skipFrom_before, skipSpace_append hbefore]
    simp only [List.cons_append, List.append_assoc]
    refine hbody.skipFrom fun entry hentry => ?_
    obtain ⟨pieces, hname⟩ := hnames entry hentry
    exact passed_entry hname (ih entry hentry)

/-- **A value is passed over** up to its end. -/
theorem IsValue.skipValue {before value : List Char} (h : IsValue value) (hbefore : IsSpace before)
    (hrest : Ends rest) : Json.skipValue (before ++ (value ++ rest)) = .ok rest := by
  rw [Json.skipValue, h.skipped _ _ _ hbefore hrest, Json.skipFrom]

end MiniLisp.Json
