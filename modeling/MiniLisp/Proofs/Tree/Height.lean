import MiniLisp.Proofs.Reader.Descent
import MiniLisp.Proofs.Reader.Scan

/-!
# The height of a tree

How many levels of evaluation a tree takes when each of its parts is evaluated inside the whole: one
for a leaf and for an empty expression, and one more than its tallest item for any other expression
(`Sexp.height`).

Parentheses nest no deeper than the reader allows, and a leaf inside the innermost of them is one
level more. So the tree of a program is at most one level taller than that (`height_of_parse`).
-/

namespace MiniLisp

mutual

/-- The levels of a tree. -/
def Sexp.height : Sexp → Nat
  | .expression items => Sexp.heightAll items + 1
  | _ => 1

/-- The levels of the tallest one of some trees. -/
def Sexp.heightAll : List Sexp → Nat
  | [] => 0
  | t :: rest => max t.height (Sexp.heightAll rest)

end

@[simp] theorem Sexp.height_atom (v : Value) : (Sexp.atom v).height = 1 := rfl

theorem Sexp.height_pos (t : Sexp) : 0 < t.height := by
  cases t <;> exact Nat.succ_pos _

theorem Sexp.heightAll_le_iff {items : List Sexp} {n : Nat} :
    Sexp.heightAll items ≤ n ↔ ∀ t ∈ items, t.height ≤ n := by
  induction items with
  | nil => simp [Sexp.heightAll]
  | cons t items ih => rw [Sexp.heightAll, Nat.max_le, ih, List.forall_mem_cons]

/-- The items of an expression are less tall. -/
theorem Sexp.height_items {items : List Sexp} {n : Nat}
    (h : (Sexp.expression items).height ≤ n + 1) : ∀ t ∈ items, t.height ≤ n :=
  Sexp.heightAll_le_iff.1 (Nat.le_of_succ_le_succ h)

/-! ## Reading -/

mutual

/-- A tree that is read inside `depth` open expressions fits into what the limit leaves. -/
theorem height_of_descend {depth : Nat} (hdepth : depth ≤ maxNesting) {tokens : List Token}
    {tree : Sexp} {rest : Left tokens} (h : descend depth tokens = .ok (tree, rest)) :
    tree.height + depth ≤ maxNesting + 1 := by
  match tokens with
  | [] =>
    rw [descend] at h
    cases h
  | .leftParen :: tokens =>
    rw [descend] at h
    split at h
    case isFalse => cases h
    case isTrue hlt =>
      cases hitems : descendItems (depth + 1) tokens with
      | error fault =>
        rw [hitems] at h
        cases h
      | ok p =>
        have hheight := height_of_descendItems hlt hitems
        rw [hitems] at h
        cases h
        rw [Sexp.height]
        omega
  | .rightParen :: tokens =>
    rw [descend] at h
    cases h
  | .quoted text :: tokens =>
    rw [descend] at h
    · cases h
      rw [Sexp.height_atom, Nat.add_comm]
      exact Nat.succ_le_succ hdepth
    · exact Token.noConfusion
    · exact Token.noConfusion
  | .literal text :: tokens =>
    rw [descend] at h
    · cases h
      rw [Sexp.height_atom, Nat.add_comm]
      exact Nat.succ_le_succ hdepth
    · exact Token.noConfusion
    · exact Token.noConfusion
termination_by (tokens.length, 0)

/-- So do the items of the innermost one of `depth` open expressions. -/
theorem height_of_descendItems {depth : Nat} (hdepth : depth ≤ maxNesting) {tokens : List Token}
    {items : List Sexp} {rest : Left tokens} (h : descendItems depth tokens = .ok (items, rest)) :
    Sexp.heightAll items + depth ≤ maxNesting + 1 := by
  match tokens with
  | [] =>
    rw [descendItems] at h
    cases h
  | token :: tokens =>
    by_cases hclose : token = .rightParen
    · subst hclose
      rw [descendItems] at h
      cases h
      rw [Sexp.heightAll, Nat.zero_add]
      exact Nat.le_succ_of_le hdepth
    · rw [descendItems] at h
      · cases hitem : descend depth (token :: tokens) with
        | error fault =>
          rw [hitem] at h
          cases h
        | ok p =>
          obtain ⟨item, middle⟩ := p
          have hheight := height_of_descend hdepth hitem
          rw [hitem] at h
          dsimp only at h
          cases hothers : descendItems depth middle.1 with
          | error fault =>
            rw [hothers] at h
            cases h
          | ok q =>
            have hheights := height_of_descendItems hdepth hothers
            rw [hothers] at h
            cases h
            rw [Sexp.heightAll]
            omega
      · exact hclose
termination_by (tokens.length, 1)
decreasing_by
  · exact Prod.Lex.right _ Nat.zero_lt_one
  · exact Prod.Lex.left _ _ middle.2

end

/-- **A program is at most one level taller** than parentheses may nest. -/
theorem height_of_parse {source : String} {tree : Sexp} (h : parse source = .ok tree) :
    tree.height ≤ maxNesting + 1 := by
  obtain ⟨tokens, -, hread⟩ := exists_tokens_of_parse h
  rw [Sexp.ofTokens_eq_descendProgram, descendProgram] at hread
  split at hread
  · cases hread
  · rename_i hdescend
    cases hread
    exact height_of_descend (Nat.zero_le _) hdescend
  · cases hread

end MiniLisp
