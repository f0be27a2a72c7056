import Mathlib.Data.List.Basic
import MiniLisp.Proofs.Number.Readback
import MiniLisp.Proofs.Value.Text

/-!
# The text of a value tells the value

The values that hold no procedures, no symbols and no quotes (`Value.Data`) are told by their texts,
although nothing is escaped in them (`Value.Data.text_eq_iff`).

A text is taken apart from the left. Its first character tells whether a string, a list or a word
begins, and each of them shows where it ends: a string at the next quote, a word at the next
character that stands in no word, and a list at the bracket where no further item begins. So the
text of a value is found again at the front of a longer text, as long as that does not go on with
the word (`Value.Data.text_append_inj`).
-/

namespace MiniLisp

open Float.Model (UnpackedFloat)

/-! ## Data -/

/-- The values that are written as a word. -/
inductive Value.Scalar : Value → Prop
  | number (x : Float) : Scalar (.number x)
  | boolean (b : Bool) : Scalar (.boolean b)
  | none : Scalar .none

/-- Values built from numbers, booleans, `none` and strings without quotes by making lists. -/
inductive Value.Data : Value → Prop
  | scalar {v : Value} (h : v.Scalar) : Data v
  | string {text : String} (h : '\'' ∉ text.toList) : Data (.string text)
  | list {items : List Value} (h : ∀ v ∈ items, Data v) : Data (.list items)

/-! ## Runs of characters -/

section Runs

variable {p : Char → Bool} {run other rest more : List Char}

/-- A text does not go on with characters of the sort `p`. -/
def Stops (p : Char → Bool) (rest : List Char) : Prop :=
  ∀ c ∈ rest.head?, p c = false

theorem stops_cons {c : Char} (h : p c = false) (rest : List Char) : Stops p (c :: rest) := by
  intro d hd
  obtain rfl := Option.some.inj hd
  exact h

theorem takeWhile_run (hrun : ∀ c ∈ run, p c = true) (hrest : Stops p rest) :
    (run ++ rest).takeWhile p = run := by
  rw [List.takeWhile_append_of_pos hrun]
  cases rest with
  | nil => rw [List.takeWhile_nil, List.append_nil]
  | cons c rest =>
    rw [List.takeWhile_cons_of_neg (by rw [hrest c rfl]; exact Bool.false_ne_true),
      List.append_nil]

/-- A run of characters of one sort is found again before what does not go on with it. -/
theorem run_append_inj (hrun : ∀ c ∈ run, p c = true) (hother : ∀ c ∈ other, p c = true)
    (hrest : Stops p rest) (hmore : Stops p more) (h : run ++ rest = other ++ more) :
    run = other ∧ rest = more := by
  have heq : run = other := by
    rw [← takeWhile_run hrun hrest, h, takeWhile_run hother hmore]
  subst heq
  exact ⟨rfl, List.append_cancel_left h⟩

end Runs

/-! ## Words -/

/-- Whether a character may stand in a word. Those that begin or end anything else may not. -/
def isWordChar (c : Char) : Bool :=
  c != '\'' && c != '[' && c != ']' && c != ','

namespace WordFor

variable {u : UnpackedFloat} {text : List Char}

theorem ne_nil (h : WordFor u text) : text ≠ [] := by
  cases h <;> exact List.cons_ne_nil _ _

theorem mem (h : WordFor u text) : ∀ c ∈ text, isWordChar c = true := by
  cases h <;> exact List.all_eq_true.1 rfl

end WordFor

theorem isWordChar_of_isDigit {c : Char} (h : c.isDigit = true) : isWordChar c = true := by
  unfold isWordChar
  rw [Bool.and_eq_true, Bool.and_eq_true, Bool.and_eq_true, bne_iff_ne, bne_iff_ne, bne_iff_ne,
    bne_iff_ne]
  refine ⟨⟨⟨?_, ?_⟩, ?_⟩, ?_⟩ <;> rintro rfl <;> cases h

theorem isWordChar_of_mem_floatChars (x : Float) :
    ∀ c ∈ floatChars x, isWordChar c = true := by
  rcases floatChars_cases x with ⟨hnan, hinf⟩ | h
  · intro c hc
    rcases mem_floatChars hnan hinf c hc with hdigit | rfl | rfl
    · exact isWordChar_of_isDigit hdigit
    · decide
    · decide
  · exact h.mem

theorem floatChars_ne_nil (x : Float) : floatChars x ≠ [] := by
  rcases floatChars_cases x with ⟨hnan, hinf⟩ | h
  · -- a text that is read as a number is not empty
    intro hnil
    obtain ⟨d, hd, -⟩ := ofChars?_floatChars hnan hinf
    rw [hnil] at hd
    cases hd
  · exact h.ne_nil

/-- No number is written as a word that is not read as one. -/
theorem floatChars_ne {x : Float} {text : List Char} (hliteral : Decimal.ofChars? text = none)
    (hword : ∀ u, ¬ WordFor u text) : floatChars x ≠ text := by
  rintro rfl
  rcases floatChars_cases x with ⟨hnan, hinf⟩ | h
  · obtain ⟨d, hd, -⟩ := ofChars?_floatChars hnan hinf
    rw [hliteral] at hd
    cases hd
  · exact hword _ h

namespace Value.Scalar

variable {v w : Value}

theorem toList_text_number (x : Float) : (Value.number x).text.toList = floatChars x := by
  rw [Value.text, Value.write, String.empty_append, floatText, String.toList_ofList]

theorem text_ne_nil (h : v.Scalar) : v.text.toList ≠ [] := by
  cases h with
  | number x =>
    rw [toList_text_number]
    exact floatChars_ne_nil x
  | boolean b => cases b <;> exact List.cons_ne_nil _ _
  | none => exact List.cons_ne_nil _ _

theorem mem_text (h : v.Scalar) : ∀ c ∈ v.text.toList, isWordChar c = true := by
  cases h with
  | number x =>
    rw [toList_text_number]
    exact isWordChar_of_mem_floatChars x
  | boolean b => cases b <;> exact List.all_eq_true.1 rfl
  | none => exact List.all_eq_true.1 rfl

/-- The other words are no numbers, and are told apart. -/
theorem text_ne_number (hw : w.Scalar) (hnumber : ∀ y, w ≠ .number y) (x : Float) :
    (Value.number x).text ≠ w.text := by
  intro h
  have hchars := congrArg String.toList h
  rw [toList_text_number] at hchars
  revert hchars
  cases hw with
  | number y => exact absurd rfl (hnumber y)
  | boolean b => cases b <;> exact floatChars_ne (by decide) fun u hu => by cases hu
  | none => exact floatChars_ne (by decide) fun u hu => by cases hu

/-- The text of a word begins with nothing that begins something else. -/
theorem text_append_ne (h : v.Scalar) {c : Char} (hc : isWordChar c = false)
    (rest more : List Char) : v.text.toList ++ rest ≠ c :: more := by
  obtain ⟨d, word, hword⟩ := List.exists_cons_of_ne_nil h.text_ne_nil
  have hd : isWordChar d = true := h.mem_text d (hword ▸ List.mem_cons_self)
  rw [hword]
  rintro heq
  obtain rfl := (List.cons.inj heq).1
  rw [hc] at hd
  cases hd

theorem text_inj (hv : v.Scalar) (hw : w.Scalar) (h : v.text = w.text) : v = w := by
  cases hv with
  | number x =>
    cases hw with
    | number y =>
      refine congrArg Value.number (floatChars_injective ?_)
      rw [← toList_text_number, ← toList_text_number, h]
    | boolean b => exact absurd h (text_ne_number (.boolean b) (fun y => nofun) x)
    | none => exact absurd h (text_ne_number .none (fun y => nofun) x)
  | boolean b =>
    cases hw with
    | number y => exact absurd h.symm (text_ne_number (.boolean b) (fun y => nofun) y)
    | boolean c =>
      match b, c with
      | true, true | false, false => rfl
      | true, false | false, true => exact absurd h (by decide)
    | none => cases b <;> exact absurd h (by decide)
  | none =>
    cases hw with
    | number y => exact absurd h.symm (text_ne_number .none (fun y => nofun) y)
    | boolean c => cases c <;> exact absurd h (by decide)
    | none => rfl

end Value.Scalar

/-! ## Strings and lists -/

theorem Value.toList_text_string (text : String) :
    (Value.string text).text.toList = '\'' :: (text.toList ++ ['\'']) := by
  simp [Value.text, Value.write]

/-- A string ends at the next quote. -/
theorem string_append_inj {text other : String} {r s : List Char} (htext : '\'' ∉ text.toList)
    (hother : '\'' ∉ other.toList)
    (h : (Value.string text).text.toList ++ r = (Value.string other).text.toList ++ s) :
    text = other ∧ r = s := by
  rw [Value.toList_text_string, Value.toList_text_string, List.cons_append, List.cons_append,
    List.append_assoc, List.append_assoc, List.singleton_append, List.singleton_append] at h
  have hplain : ∀ {text : String}, '\'' ∉ text.toList → ∀ c ∈ text.toList, (c != '\'') = true :=
    fun h c hc => bne_iff_ne.2 fun heq => h (heq ▸ hc)
  obtain ⟨hchars, hrest⟩ := run_append_inj (hplain htext) (hplain hother)
    (stops_cons (by decide) r) (stops_cons (by decide) s) (List.cons.inj h).2
  exact ⟨String.toList_inj.1 hchars, (List.cons.inj hrest).2⟩

/-- The items of a list are written each after a gap. -/
theorem Value.toList_writeAll_cons (gap : String) (v : Value) (items : List Value) :
    (Value.writeAll gap "" (v :: items)).toList =
      gap.toList ++ (v.text.toList ++ (Value.writeAll ", " "" items).toList) := by
  rw [Value.writeAll, Value.writeAll_eq_append, Value.write_eq_append, String.empty_append,
    String.toList_append, String.toList_append, List.append_assoc]

theorem Value.toList_text_list (items : List Value) :
    (Value.list items).text.toList = '[' :: ((Value.writeAll "" "" items).toList ++ [']']) := by
  rw [Value.text, Value.write, Value.writeAll_eq_append, String.push_eq_append,
    String.push_eq_append]
  simp

/-- After an item of a list a word ends. -/
theorem stops_items (items : List Value) (rest : List Char) :
    Stops isWordChar ((Value.writeAll ", " "" items).toList ++ ']' :: rest) := by
  cases items with
  | nil => exact stops_cons (by decide) _
  | cons v items =>
    rw [Value.toList_writeAll_cons]
    exact stops_cons (c := ',') (by decide) _

namespace Value.Data

variable {v w : Value} {r s : List Char}

/-- No text begins with the end of a list. -/
theorem text_append_ne (h : v.Data) (rest more : List Char) :
    v.text.toList ++ rest ≠ ']' :: more := by
  cases h with
  | scalar h => exact h.text_append_ne (by decide) rest more
  | string h =>
    rw [toList_text_string]
    exact fun heq => absurd (List.cons.inj heq).1 (by decide)
  | list h =>
    rw [toList_text_list]
    exact fun heq => absurd (List.cons.inj heq).1 (by decide)

/-- What stands before an item of a list is no end of a list either. -/
theorem writeAll_append_ne (h : v.Data) {gap : String} (hgap : gap = "" ∨ gap = ", ")
    (items : List Value) (rest more : List Char) :
    (Value.writeAll gap "" (v :: items)).toList ++ rest ≠ ']' :: more := by
  rw [toList_writeAll_cons]
  rcases hgap with rfl | rfl
  · rw [List.append_assoc, List.append_assoc]
    exact h.text_append_ne _ more
  · exact fun heq => absurd (List.cons.inj heq).1 (by decide : ',' ≠ ']')

/-- The items of a list are found again, if each of them is. -/
theorem writeAll_append_inj {items : List Value} (hitems : ∀ v ∈ items, v.Data)
    (hread : ∀ v ∈ items, ∀ {w r s}, w.Data → Stops isWordChar r → Stops isWordChar s →
      v.text.toList ++ r = w.text.toList ++ s → v = w ∧ r = s) :
    ∀ {others : List Value} {gap : String}, (∀ w ∈ others, w.Data) → gap = "" ∨ gap = ", " →
      (Value.writeAll gap "" items).toList ++ ']' :: r =
        (Value.writeAll gap "" others).toList ++ ']' :: s → items = others ∧ r = s := by
  induction items with
  | nil =>
    intro others gap hothers hgap h
    cases others with
    | nil => exact ⟨rfl, (List.cons.inj h).2⟩
    | cons w others =>
      exact absurd h.symm ((hothers w List.mem_cons_self).writeAll_append_ne hgap _ _ _)
  | cons v items ih =>
    intro others gap hothers hgap h
    cases others with
    | nil => exact absurd h ((hitems v List.mem_cons_self).writeAll_append_ne hgap _ _ _)
    | cons w others =>
      rw [toList_writeAll_cons, toList_writeAll_cons, List.append_assoc, List.append_assoc,
        List.append_assoc, List.append_assoc] at h
      obtain ⟨rfl, hrest⟩ := hread v List.mem_cons_self (hothers w List.mem_cons_self)
        (stops_items items _) (stops_items others _) (List.append_cancel_left h)
      obtain ⟨rfl, hrs⟩ := ih (fun v hv => hitems v (List.mem_cons_of_mem _ hv))
        (fun v hv => hread v (List.mem_cons_of_mem _ hv))
        (fun w hw => hothers w (List.mem_cons_of_mem _ hw)) (.inr rfl) hrest
      exact ⟨rfl, hrs⟩

/-- **A value is found again** at the front of a text that does not go on with a word. -/
theorem text_append_inj (hv : v.Data) : ∀ {w : Value} {r s : List Char}, w.Data →
    Stops isWordChar r → Stops isWordChar s → v.text.toList ++ r = w.text.toList ++ s →
      v = w ∧ r = s := by
  induction hv with
  | scalar hv =>
    intro w r s hw hr hs h
    cases hw with
    | scalar hw =>
      obtain ⟨htext, hrs⟩ := run_append_inj hv.mem_text hw.mem_text hr hs h
      exact ⟨hv.text_inj hw (String.toList_inj.1 htext), hrs⟩
    | string hw =>
      rw [toList_text_string] at h
      exact absurd h (hv.text_append_ne (by decide) _ _)
    | list hw =>
      rw [toList_text_list] at h
      exact absurd h (hv.text_append_ne (by decide) _ _)
  | string hv =>
    intro w r s hw hr hs h
    cases hw with
    | scalar hw =>
      rw [toList_text_string] at h
      exact absurd h.symm (hw.text_append_ne (by decide) _ _)
    | string hw =>
      obtain ⟨rfl, hrs⟩ := string_append_inj hv hw h
      exact ⟨rfl, hrs⟩
    | list hw =>
      rw [toList_text_string, toList_text_list] at h
      exact absurd (List.cons.inj h).1 (by decide)
  | list hitems ih =>
    intro w r s hw hr hs h
    cases hw with
    | scalar hw =>
      rw [toList_text_list] at h
      exact absurd h.symm (hw.text_append_ne (by decide) _ _)
    | string hw =>
      rw [toList_text_list, toList_text_string] at h
      exact absurd (List.cons.inj h).1 (by decide)
    | list hothers =>
      rw [toList_text_list, toList_text_list, List.cons_append, List.cons_append,
        List.append_assoc, List.append_assoc] at h
      obtain ⟨rfl, hrs⟩ :=
        writeAll_append_inj hitems ih hothers (.inl rfl) (List.cons.inj h).2
      exact ⟨rfl, hrs⟩

/-- **Different data have different texts.** The zeros are different data, and not-a-number is but
one. -/
theorem text_eq_iff (hv : v.Data) (hw : w.Data) : v.text = w.text ↔ v = w := by
  refine ⟨fun h => ?_, fun h => congrArg Value.text h⟩
  refine (hv.text_append_inj (r := []) (s := []) hw (fun _ => nofun) (fun _ => nofun) ?_).1
  rw [h]

/-- Two lists that differ in the sign of a zero, with a string that looks like the end of an item. -/
theorem text_eq_iff_zeros :
    let data (x : Float) : Value := .list [.string ", 0]", .list [.number x]]
    (data 0).Data ∧ (data (-0)).Data ∧ ((data 0).text = (data (-0)).text ↔ data 0 = data (-0)) ∧
      (data 0).text = "[', 0]', [0]]" ∧ (data (-0)).text = "[', 0]', [-0]]" := by
  intro data
  have hdata : ∀ x, (data x).Data := fun x => by
    refine .list fun v hv => ?_
    rcases List.mem_cons.1 hv with rfl | hv
    · exact .string (by decide)
    · obtain rfl := List.mem_singleton.1 hv
      exact .list fun v hv => List.mem_singleton.1 hv ▸ .scalar (.number x)
  exact ⟨hdata 0, hdata (-0), text_eq_iff (hdata 0) (hdata (-0)), by decide +kernel,
    by decide +kernel⟩

end Value.Data

end MiniLisp
