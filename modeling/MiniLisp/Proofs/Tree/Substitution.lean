import MiniLisp.Proofs.Tree.Leaves

/-!
# Substitution

A body is made a template by putting placeholders for its parameters, and the template is filled by
putting values for the placeholders. Together these two passes, which meet in the positions of the
parameters only, are one: the values are put for the names, all at once (`Sexp.filled_abstracted`).
-/

namespace MiniLisp

mutual

/-- Puts values for names at the leaves of a tree, all at once. Each name stands for its first value
in the list; other names stay, and so does everything that is not a name. -/
def Sexp.substituted (arguments : List (String × Value)) : Sexp → Sexp
  | .atom (.symbol name) =>
    match arguments.lookup name with
    | some v => .atom v
    | none => .atom (.symbol name)
  | .atom v => .atom v
  | .expression items => .expression (Sexp.substitutedAll arguments items)
  | .placeholder index => .placeholder index

def Sexp.substitutedAll (arguments : List (String × Value)) : List Sexp → List Sexp
  | [] => []
  | s :: rest => s.substituted arguments :: Sexp.substitutedAll arguments rest

end

/-! ## Positions -/

/-- The value of a parameter is the one at its first position. -/
theorem lookup_zip_eq_bind (parameters : List String) (args : List Value) (name : String) :
    (parameters.zip args).lookup name = (parameters.idxOf? name).bind (args[·]?) := by
  induction parameters generalizing args with
  | nil => rfl
  | cons parameter parameters ih =>
    rw [List.idxOf?_cons]
    cases args with
    | nil => simp
    | cons v args =>
      by_cases h : parameter = name
      · subst h
        simp
      · have hne : (name == parameter) = false := beq_eq_false_iff_ne.2 (Ne.symm h)
        have hne' : (parameter == name) = false := beq_eq_false_iff_ne.2 h
        rw [List.zip_cons_cons, List.lookup_cons, hne, hne', ih]
        cases parameters.idxOf? name <;> rfl

section Passes

variable {parameters : List String} {args : List Value}

/-- A name is replaced by a placeholder, and the placeholder by the value of the name. -/
theorem Sexp.filled_abstracted_symbol (hlength : args.length = parameters.length) (name : String) :
    ((Sexp.atom (.symbol name)).abstracted parameters).filled args =
      (Sexp.atom (.symbol name)).substituted (parameters.zip args) := by
  rw [Sexp.abstracted, Sexp.substituted, lookup_zip_eq_bind]
  cases hindex : parameters.idxOf? name with
  | none => rfl
  | some index =>
    have hlt : index < args.length := hlength ▸ (List.idxOf?_eq_some_iff.1 hindex).1
    rw [Option.bind_some, List.getElem?_eq_getElem hlt]
    dsimp only
    rw [Sexp.filled, List.getElem?_eq_getElem hlt]

mutual

/-- **Filling a template is substitution** in the body that it was made of. -/
theorem Sexp.filled_abstracted (hlength : args.length = parameters.length) :
    ∀ (body : Sexp), body.placeholders = [] →
      (body.abstracted parameters).filled args = body.substituted (parameters.zip args)
  | .atom v, _ => by
    cases v with
    | symbol name => exact Sexp.filled_abstracted_symbol hlength name
    | _ => rfl
  | .expression items, h => congrArg Sexp.expression (Sexp.filledAll_abstractedAll hlength items h)
  | .placeholder index, h => by cases h

theorem Sexp.filledAll_abstractedAll (hlength : args.length = parameters.length) :
    ∀ (items : List Sexp), Sexp.placeholdersAll items = [] →
      Sexp.filledAll args (Sexp.abstractedAll parameters items) =
        Sexp.substitutedAll (parameters.zip args) items
  | [], _ => rfl
  | t :: items, h => by
    rw [Sexp.placeholdersAll, List.append_eq_nil_iff] at h
    rw [Sexp.abstractedAll, Sexp.filledAll, Sexp.filled_abstracted hlength t h.1,
      Sexp.filledAll_abstractedAll hlength items h.2, Sexp.substitutedAll]

end

end Passes

end MiniLisp
