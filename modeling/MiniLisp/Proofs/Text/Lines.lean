import MiniLisp.Proofs.Token.Layout
import MiniLisp.Text.Lines

/-!
# Lines

A text is cut at its line feeds, and a carriage return before a line feed goes with it (`LinesOf`).
No line has a line feed in it (`Unbroken`), and a text that is put together of lines, each with a
line feed after it, is cut into these lines again (`splitOn_feeds`).

Which lines are blank can be told by the lexer, as blank characters are all that it passes over: a
line is blank exactly if there are no tokens in it (`isBlankLine_iff`).
-/

namespace MiniLisp

/-! ## Texts without a line feed -/

/-- A text without a line feed in it. -/
def Unbroken (text : String) : Prop :=
  '\n' ∉ text.toList

instance (text : String) : Decidable (Unbroken text) :=
  inferInstanceAs (Decidable ('\n' ∉ text.toList))

@[simp] theorem unbroken_append {text more : String} :
    Unbroken (text ++ more) ↔ Unbroken text ∧ Unbroken more := by
  simp [Unbroken]

@[simp] theorem unbroken_push {text : String} {c : Char} :
    Unbroken (text.push c) ↔ Unbroken text ∧ c ≠ '\n' := by
  simp [Unbroken, eq_comm]

@[simp] theorem unbroken_natRepr (n : Nat) : Unbroken n.repr := by
  intro h
  rw [Nat.repr, String.toList_ofList] at h
  have hdigit : '\n'.isDigit := Nat.isDigit_of_mem_toDigits (by decide) (by decide) h
  exact absurd hdigit (by decide)

/-! ## The lines of a text -/

/-- The lines of some characters: what stands before each line end, which is a line feed together
with the carriage return before it, if there is one, and what stands after the last line end, if
anything does. -/
inductive LinesOf : List Char → List String → Prop
  | nil : LinesOf [] []
  | unended {line : String} (hne : line ≠ "") (h : Unbroken line) : LinesOf line.toList [line]
  | feed {line : String} {after : List Char} {others : List String} (h : Unbroken line)
    (hreturn : line.toList.getLast? ≠ some '\r') (hafter : LinesOf after others) :
    LinesOf (line.toList ++ '\n' :: after) (line :: others)
  | returnFeed {line : String} {after : List Char} {others : List String} (h : Unbroken line)
    (hafter : LinesOf after others) :
    LinesOf (line.toList ++ '\r' :: '\n' :: after) (line :: others)

/-- A line that is read up to its line feed, which may have a carriage return before it. -/
theorem LinesOf.dropReturn {reversed after : List Char} {others : List String}
    (h : '\n' ∉ reversed) (hafter : LinesOf after others) :
    LinesOf (reversed.reverse ++ '\n' :: after)
      (String.ofList (dropReturn reversed).reverse :: others) := by
  by_cases hreturn : ∃ before, reversed = '\r' :: before
  · obtain ⟨before, rfl⟩ := hreturn
    have hline : Unbroken (String.ofList before.reverse) := by
      simpa [Unbroken] using h
    have hcut := LinesOf.returnFeed hline hafter
    rw [List.reverse_cons, List.append_assoc]
    rwa [String.toList_ofList] at hcut
  · have hdrop : MiniLisp.dropReturn reversed = reversed := by
      unfold MiniLisp.dropReturn
      split
      · exact absurd ⟨_, rfl⟩ hreturn
      · rfl
    have hline : Unbroken (String.ofList reversed.reverse) := by
      simpa [Unbroken] using h
    have hlast : (String.ofList reversed.reverse).toList.getLast? ≠ some '\r' := by
      rw [String.toList_ofList, List.getLast?_reverse]
      intro hhead
      obtain ⟨before, hbefore⟩ := List.head?_eq_some_iff.1 hhead
      exact hreturn ⟨before, hbefore⟩
    have hcut := LinesOf.feed hline hlast hafter
    rw [hdrop]
    rwa [String.toList_ofList] at hcut

/-- By induction on what is still to be read. -/
theorem linesFrom_linesOf {reversed : List Char} (h : '\n' ∉ reversed) (rest : List Char) :
    LinesOf (reversed.reverse ++ rest) (linesFrom reversed rest) := by
  induction rest generalizing reversed with
  | nil =>
    cases reversed with
    | nil => exact .nil
    | cons c reversed =>
      have hne : String.ofList (c :: reversed).reverse ≠ "" := by
        simp
      have hline : Unbroken (String.ofList (c :: reversed).reverse) := by
        rwa [Unbroken, String.toList_ofList, List.mem_reverse]
      have hcut := LinesOf.unended hne hline
      rw [String.toList_ofList] at hcut
      rw [List.append_nil]
      exact hcut
  | cons c rest ih =>
    by_cases hc : c = '\n'
    · subst hc
      rw [linesFrom]
      exact .dropReturn h (ih List.not_mem_nil)
    · rw [linesFrom]
      · have hread : LinesOf ((c :: reversed).reverse ++ rest) (linesFrom (c :: reversed) rest) :=
          ih (by simpa [eq_comm] using ⟨hc, h⟩)
        rw [List.reverse_cons, List.append_assoc, List.singleton_append] at hread
        exact hread
      · exact hc

/-- **The lines of a text** are what it is cut into at its line ends. -/
theorem linesOf_lines (source : String) : LinesOf source.toList (lines source) :=
  linesFrom_linesOf List.not_mem_nil source.toList

/-- No line has a line feed in it. -/
theorem LinesOf.unbroken {text : List Char} {ls : List String} (h : LinesOf text ls) :
    ∀ line ∈ ls, Unbroken line := by
  induction h with
  | nil => simp
  | unended _ h => simpa using h
  | feed h _ _ ih => exact List.forall_mem_cons.2 ⟨h, ih⟩
  | returnFeed h _ ih => exact List.forall_mem_cons.2 ⟨h, ih⟩

/-! ## Lines with their line feeds -/

/-- Some lines, each with a line feed after it. -/
def feeds (ls : List String) : String :=
  String.join (ls.map (·.push '\n'))

theorem feeds_cons (line : String) (ls : List String) :
    feeds (line :: ls) = line.push '\n' ++ feeds ls := by
  rw [feeds, List.map_cons, String.join_cons]
  rfl

theorem feeds_append (ls more : List String) : feeds (ls ++ more) = feeds ls ++ feeds more := by
  induction ls with
  | nil => simp [feeds]
  | cons line ls ih => rw [List.cons_append, feeds_cons, feeds_cons, ih, String.append_assoc]

/-- Lines that are written one after the other can be told apart again. -/
theorem splitOn_feeds {ls : List String} (h : ∀ line ∈ ls, Unbroken line) :
    (feeds ls).toList.splitOn '\n' = ls.map String.toList ++ [[]] := by
  induction ls with
  | nil => rfl
  | cons line ls ih =>
    obtain ⟨hline, hothers⟩ := List.forall_mem_cons.1 h
    have hfirst : (feeds (line :: ls)).toList = line.toList ++ '\n' :: (feeds ls).toList := by
      rw [feeds_cons]
      simp
    rw [hfirst, List.splitOn_append_cons_self_of_not_mem hline, ih hothers]
    rfl

/-! ## Blank lines -/

/-- **A line is blank** exactly if there are no tokens in it. -/
theorem isBlankLine_iff {line : String} : isBlankLine line = true ↔ tokenize line = .ok [] := by
  constructor
  · intro h
    have hblank : ∀ c ∈ line.toList, isBlank c := List.all_eq_true.1 h
    obtain ⟨hpending, htokens⟩ := Lexer.foldl_blanks hblank (l := .start) rfl
    rw [tokenize, Lexer.finish, hpending, htokens]
    rfl
  · intro h
    obtain ⟨l, hchars, htokens⟩ := (tokenize_scanned line).exists_layout h
    have hparts : l.parts = [] := List.map_eq_nil_iff.1 htokens
    rw [Layout.chars, hparts, charsOfParts, List.flatMap_nil, List.append_nil] at hchars
    rw [isBlankLine, ← hchars]
    exact List.all_eq_true.2 l.lead_blank

end MiniLisp
