import MiniLisp.Reader

/-!
# What the reader keeps of its tokens

A tree is flattened by writing an expression as an opening mark, the marks of its items and a
closing mark. The reader loses, repeats and reorders nothing: the marks of the tree that it reads
and of the tokens that it leaves are the marks of the tokens that it was given
(`marks_of_readTree`). Marks determine the tree (`marks_injective`), so that this says which tree
it is.
-/

namespace MiniLisp

/-- A part of a flattened tree. -/
inductive Mark where
  | opening
  | closing
  | leaf (v : Value)
  | hole (index : Nat)

/-- What the reader sees of a token. -/
def Token.mark : Token → Mark
  | .leftParen => .opening
  | .rightParen => .closing
  | token => .leaf token.value

mutual

/-- A tree, flattened. -/
def Sexp.marks : Sexp → List Mark
  | .atom v => [.leaf v]
  | .expression items => .opening :: (Sexp.marksAll items ++ [.closing])
  | .placeholder index => [.hole index]

def Sexp.marksAll : List Sexp → List Mark
  | [] => []
  | s :: rest => s.marks ++ Sexp.marksAll rest

end

theorem Sexp.marksAll_append (items others : List Sexp) :
    Sexp.marksAll (items ++ others) = Sexp.marksAll items ++ Sexp.marksAll others := by
  induction items with
  | nil => rfl
  | cons s items ih => simp only [List.cons_append, Sexp.marksAll, ih, List.append_assoc]

/-! ## Reading -/

/-- The marks of expressions that have been opened, given as the reader keeps them. -/
def openMarks : List (List Sexp) → List Mark
  | [] => []
  | items :: outer => openMarks outer ++ .opening :: Sexp.marksAll items.reverse

theorem openMarks_cons_cons (s : Sexp) (items : List Sexp) (outer : List (List Sexp)) :
    openMarks ((s :: items) :: outer) = openMarks (items :: outer) ++ s.marks := by
  simp only [openMarks, List.reverse_cons, Sexp.marksAll_append, Sexp.marksAll,
    List.append_nil, List.append_assoc, List.cons_append]

theorem openMarks_expression (items : List Sexp) (outer : List (List Sexp)) :
    openMarks outer ++ (Sexp.expression items.reverse).marks =
      openMarks (items :: outer) ++ [.closing] := by
  simp only [openMarks, Sexp.marks, List.append_assoc, List.cons_append]

/-- The reader loses, repeats and reorders nothing. -/
theorem marks_of_readTree {opened : List (List Sexp)} {tokens rest : List Token} {tree : Sexp}
    (h : readTree opened tokens = .ok (tree, rest)) :
    tree.marks ++ rest.map Token.mark = openMarks opened ++ tokens.map Token.mark := by
  induction tokens generalizing opened with
  | nil => cases h
  | cons token tokens ih =>
    cases token with
    | leftParen =>
      simp only [readTree] at h
      split at h
      · rw [ih h]
        simp [openMarks, Sexp.marksAll, Token.mark]
      · cases h
    | rightParen =>
      cases opened with
      | nil => cases h
      | cons items outer =>
        cases outer with
        | nil =>
          cases h
          have := openMarks_expression items []
          rw [List.map_cons, Token.mark, List.append_cons, ← this]
          rfl
        | cons parent outer =>
          rw [ih h, openMarks_cons_cons, openMarks_expression, List.append_assoc]
          rfl
    | quoted text =>
      cases opened with
      | nil =>
        cases h
        rfl
      | cons items outer =>
        rw [ih h, openMarks_cons_cons, List.append_assoc]
        rfl
    | literal text =>
      cases opened with
      | nil =>
        cases h
        rfl
      | cons items outer =>
        rw [ih h, openMarks_cons_cons, List.append_assoc]
        rfl

theorem marks_of_ofTokens {tokens : List Token} {tree : Sexp}
    (h : Sexp.ofTokens tokens = .ok tree) : tree.marks = tokens.map Token.mark := by
  unfold Sexp.ofTokens at h
  cases hr : readTree [] tokens with
  | error fault =>
    rw [hr] at h
    cases h
  | ok p =>
    obtain ⟨t, rest⟩ := p
    rw [hr] at h
    cases rest with
    | nil =>
      cases h
      simpa [openMarks] using marks_of_readTree hr
    | cons token rest => cases h

/-! ## Marks determine the tree -/

mutual

/-- Marks of a tree are read off the front of a list in one way only. -/
theorem Sexp.marks_append_inj : ∀ {s t : Sexp} {a b : List Mark},
    s.marks ++ a = t.marks ++ b → s = t ∧ a = b
  | .atom v, .atom w, a, b, h => by
    simp only [Sexp.marks, List.cons_append, List.nil_append, List.cons.injEq,
      Mark.leaf.injEq] at h
    exact ⟨by rw [h.1], h.2⟩
  | .placeholder i, .placeholder j, a, b, h => by
    simp only [Sexp.marks, List.cons_append, List.nil_append, List.cons.injEq,
      Mark.hole.injEq] at h
    exact ⟨by rw [h.1], h.2⟩
  | .expression items, .expression others, a, b, h => by
    simp only [Sexp.marks, List.cons_append, List.append_assoc, List.nil_append,
      List.cons.injEq, true_and] at h
    obtain ⟨rfl, hab⟩ := Sexp.marksAll_append_inj h
    exact ⟨rfl, hab⟩
  | .atom v, .placeholder j, a, b, h => by simp [Sexp.marks] at h
  | .atom v, .expression others, a, b, h => by simp [Sexp.marks] at h
  | .placeholder i, .atom w, a, b, h => by simp [Sexp.marks] at h
  | .placeholder i, .expression others, a, b, h => by simp [Sexp.marks] at h
  | .expression items, .atom w, a, b, h => by simp [Sexp.marks] at h
  | .expression items, .placeholder j, a, b, h => by simp [Sexp.marks] at h

/-- Marks of some trees, up to a closing mark, are read in one way only. -/
theorem Sexp.marksAll_append_inj : ∀ {ss ts : List Sexp} {a b : List Mark},
    Sexp.marksAll ss ++ .closing :: a = Sexp.marksAll ts ++ .closing :: b → ss = ts ∧ a = b
  | [], [], a, b, h => by simpa [Sexp.marksAll] using h
  | s :: ss, t :: ts, a, b, h => by
    simp only [Sexp.marksAll, List.append_assoc] at h
    obtain ⟨hst, hrest⟩ := Sexp.marks_append_inj h
    obtain ⟨hsts, hab⟩ := Sexp.marksAll_append_inj hrest
    exact ⟨by rw [hst, hsts], hab⟩
  | [], t :: ts, a, b, h => by cases t <;> simp [Sexp.marksAll, Sexp.marks] at h
  | s :: ss, [], a, b, h => by cases s <;> simp [Sexp.marksAll, Sexp.marks] at h

end

theorem Sexp.marks_injective {s t : Sexp} (h : s.marks = t.marks) : s = t := by
  refine (Sexp.marks_append_inj (a := []) (b := []) ?_).1
  rw [h]

end MiniLisp
