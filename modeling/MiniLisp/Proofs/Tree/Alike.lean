import MiniLisp.Evaluator
import MiniLisp.Proofs.Primitive.Parametric

/-!
# Alike trees

Two trees are alike up to a renaming (`Sexp.Alike`) when they have the same shape, the names at the
leaves of the second are those of the first renamed, and the other leaves are alike values. Making a
template of alike trees gives alike templates, if the parameters are renamed along (`abstracted`),
and filling those with alike values gives alike trees (`filled`).

Trees that are alike without any renaming have the same text, so that error messages do not tell
them apart either.
-/

namespace MiniLisp

variable {names : String → Prop} {P : Procedure → Procedure → Prop} {σ τ : String → String}

/-- Trees that are the same up to a renaming of the names at the leaves and up to alike values. -/
inductive Sexp.Alike (σ : String → String) (names : String → Prop)
    (P : Procedure → Procedure → Prop) : Sexp → Sexp → Prop
  | name (n : String) : Alike σ names P (.atom (.symbol n)) (.atom (.symbol (σ n)))
  | atom {v w : Value} (hv : ∀ n, v ≠ .symbol n) (h : Value.Alike names P v w) :
    Alike σ names P (.atom v) (.atom w)
  | expression {items items' : List Sexp} (length : items.length = items'.length)
    (h : ∀ p ∈ items.zip items', Alike σ names P p.1 p.2) :
    Alike σ names P (.expression items) (.expression items')
  | placeholder (index : Nat) : Alike σ names P (.placeholder index) (.placeholder index)

mutual

/-- Renames the names at the leaves of a tree. -/
def Sexp.renamed (σ : String → String) : Sexp → Sexp
  | .atom (.symbol name) => .atom (.symbol (σ name))
  | .atom v => .atom v
  | .expression items => .expression (Sexp.renamedAll σ items)
  | .placeholder index => .placeholder index

def Sexp.renamedAll (σ : String → String) : List Sexp → List Sexp
  | [] => []
  | t :: rest => t.renamed σ :: Sexp.renamedAll σ rest

end

mutual

theorem Sexp.renamed_id : ∀ (t : Sexp), t.renamed id = t
  | .atom v => by cases v <;> rfl
  | .expression items => congrArg Sexp.expression (Sexp.renamedAll_id items)
  | .placeholder index => rfl

theorem Sexp.renamedAll_id : ∀ (items : List Sexp), Sexp.renamedAll id items = items
  | [] => rfl
  | t :: items => by rw [Sexp.renamedAll, Sexp.renamed_id t, Sexp.renamedAll_id items]

end

/-! ## Leaves other than names -/

theorem Sexp.abstracted_atom {v : Value} (h : ∀ name, v ≠ .symbol name)
    (parameters : List String) : (Sexp.atom v).abstracted parameters = .atom v := by
  cases v with
  | symbol name => exact absurd rfl (h name)
  | _ => rfl

theorem Sexp.renamed_atom {v : Value} (h : ∀ name, v ≠ .symbol name) (σ : String → String) :
    (Sexp.atom v).renamed σ = .atom v := by
  cases v with
  | symbol name => exact absurd rfl (h name)
  | _ => rfl

theorem Sexp.form?_atom {v : Value} (h : ∀ name, v ≠ .symbol name) :
    (Sexp.atom v).form? = none := by
  cases v with
  | symbol name => exact absurd rfl (h name)
  | _ => rfl

theorem expectSymbol_atom {v : Value} (h : ∀ name, v ≠ .symbol name) (form : Form) :
    expectSymbol form (.atom v) = .error (.notASymbol form (.atom v)) := by
  cases v with
  | symbol name => exact absurd rfl (h name)
  | _ => rfl

theorem Misuse.message_notASymbol (form : Form) (t : Sexp) :
    (Misuse.notASymbol form t).message = s!"{form.name} expects a symbol, got {t.text}" := rfl

theorem Misuse.message_notParameters (t : Sexp) :
    (Misuse.notParameters t).message =
      s!"function expects a list of parameters, got {t.text}" := rfl

namespace Sexp.Alike

theorem expression_iff {items items' : List Sexp} :
    Alike σ names P (.expression items) (.expression items') ↔
      List.Forall₂ (Alike σ names P) items items' := by
  constructor
  · intro h
    cases h with
    | expression length h => exact List.forall₂_iff_zip.2 ⟨length, fun hp => h _ hp⟩
  · intro h
    exact .expression h.length_eq fun p hp => (List.forall₂_iff_zip.1 h).2 hp

/-- An inserted value, which may be a symbol that is not renamed. -/
theorem of_value (hnames : ∀ n, names n → σ n = n) {v w : Value} (h : Value.Alike names P v w) :
    Alike σ names P (.atom v) (.atom w) := by
  by_cases hv : ∃ n, v = .symbol n
  · obtain ⟨n, rfl⟩ := hv
    obtain ⟨rfl, hn⟩ := h.of_symbol
    have hname : Alike σ names P (.atom (.symbol n)) (.atom (.symbol (σ n))) := .name n
    rwa [hnames n hn] at hname
  · exact .atom (fun n hn => hv ⟨n, hn⟩) h

/-! ## Texts -/

theorem writeAll_eq {items items' : List Sexp}
    (h : List.Forall₂ (fun t u => ∀ out, t.write out = u.write out) items items')
    (gap out : String) : Sexp.writeAll gap out items = Sexp.writeAll gap out items' := by
  induction h generalizing gap out with
  | nil => rfl
  | cons ht _ ih => rw [Sexp.writeAll, Sexp.writeAll, ht, ih]

theorem write_eq (hP : Procedure.Faithful P) {t u : Sexp} (h : Alike id names P t u)
    (out : String) : t.write out = u.write out := by
  induction h generalizing out with
  | name n => rfl
  | atom hv h =>
    rw [Sexp.write_atom hv, Sexp.write_atom (h.ne_symbol hv)]
    exact h.write_eq hP out
  | expression length _ ih =>
    rw [Sexp.write, Sexp.write,
      writeAll_eq (List.forall₂_iff_zip.2 ⟨length, fun hp => ih _ hp⟩)]
  | placeholder index => rfl

/-- **Alike trees have the same text.** -/
theorem text_eq (hP : Procedure.Faithful P) {t u : Sexp} (h : Alike id names P t u) :
    t.text = u.text :=
  h.write_eq hP ""

theorem form?_eq {t u : Sexp} (h : Alike id names P t u) : t.form? = u.form? := by
  cases h with
  | name n => rfl
  | atom hv h => rw [form?_atom hv, form?_atom (h.ne_symbol hv)]
  | expression length h => rfl
  | placeholder index => rfl

/-! ## Names and parameters -/

/-- Alike trees are the same name, or both are refused where a name is expected. -/
theorem expectSymbol_agrees (hP : Procedure.Faithful P) {t u : Sexp} (h : Alike id names P t u)
    (form : Form) :
    Agrees (fun n m => n = m ∧ t = .atom (.symbol n)) (expectSymbol form t)
      (expectSymbol form u) := by
  have hrefused : Agrees (fun n m => n = m ∧ t = .atom (.symbol n)) (.error (.notASymbol form t))
      (.error (.notASymbol form u)) := by
    refine .error ?_
    rw [Misuse.message_notASymbol, Misuse.message_notASymbol, h.text_eq hP]
  cases h with
  | name n => exact .ok ⟨rfl, rfl⟩
  | atom hv h =>
    rw [expectSymbol_atom hv, expectSymbol_atom (h.ne_symbol hv)]
    exact hrefused
  | expression length h => exact hrefused
  | placeholder index => exact hrefused

/-- Alike trees are the same list of parameters, which are spelled in it, or both are refused. -/
theorem expectParameters_agrees (hP : Procedure.Faithful P) {t u : Sexp}
    (h : Alike id names P t u) :
    Agrees (fun l k : List String => l = k ∧ ∀ n ∈ l, .symbol n ∈ t.atoms) (expectParameters t)
      (expectParameters u) := by
  have hrefused : Agrees (fun l k : List String => l = k ∧ ∀ n ∈ l, .symbol n ∈ t.atoms)
      (.error (.notParameters t)) (.error (.notParameters u)) := by
    refine .error ?_
    rw [Misuse.message_notParameters, Misuse.message_notParameters, h.text_eq hP]
  cases h with
  | @expression items items' length h =>
    have hall : ∀ {l l' : List Sexp}, List.Forall₂ (Alike id names P) l l' →
        Agrees (fun k k' : List String => k = k' ∧ ∀ n ∈ k, .symbol n ∈ Sexp.atomsAll l)
          (l.mapM (expectSymbol .function)) (l'.mapM (expectSymbol .function)) := by
      intro l l' hl
      induction hl with
      | nil => exact .ok ⟨rfl, fun n hn => by cases hn⟩
      | @cons t u l l' htu _ ih =>
        rw [List.mapM_cons, List.mapM_cons]
        refine (htu.expectSymbol_agrees hP .function).bind fun n m hnm => ih.bind fun k k' hk => ?_
        obtain ⟨rfl, rfl⟩ := hnm
        obtain ⟨rfl, hk⟩ := hk
        refine .ok ⟨rfl, fun x hx => ?_⟩
        rcases List.mem_cons.1 hx with rfl | hx
        · exact List.mem_cons_self
        · exact List.mem_append_right _ (hk x hx)
    exact hall (List.forall₂_iff_zip.2 ⟨length, fun hp => h _ hp⟩)
  | name n => exact hrefused
  | atom hv h => exact hrefused
  | placeholder index => exact hrefused

/-! ## Templates -/

theorem abstractedAll {parameters parameters' : List String} {items items' : List Sexp}
    (h : List.Forall₂ (fun t u => Alike τ names P (t.abstracted parameters)
      (u.abstracted parameters')) items items') :
    List.Forall₂ (Alike τ names P) (Sexp.abstractedAll parameters items)
      (Sexp.abstractedAll parameters' items') := by
  induction h with
  | nil => exact .nil
  | cons h _ ih => exact .cons h ih

/-- **Templates of alike trees are alike**, if each name has the same position among the parameters
of both and `τ` renames those that are not among them. -/
theorem abstracted {parameters parameters' : List String} {t u : Sexp}
    (h : Alike σ names P t u)
    (hindex : ∀ n, .symbol n ∈ t.atoms → parameters'.idxOf? (σ n) = parameters.idxOf? n)
    (hrest : ∀ n, .symbol n ∈ t.atoms → n ∉ parameters → τ n = σ n) :
    Alike τ names P (t.abstracted parameters) (u.abstracted parameters') := by
  induction h with
  | name n =>
    have hn := hindex n (List.mem_singleton_self _)
    rw [Sexp.abstracted, Sexp.abstracted, hn]
    cases hi : parameters.idxOf? n with
    | some index => exact .placeholder index
    | none =>
      dsimp only
      rw [← hrest n (List.mem_singleton_self _) (List.idxOf?_eq_none_iff.1 hi)]
      exact .name n
  | atom hv h =>
    rw [Sexp.abstracted_atom hv, Sexp.abstracted_atom (h.ne_symbol hv)]
    exact .atom hv h
  | expression length _ ih =>
    refine expression_iff.2 (abstractedAll (List.forall₂_iff_zip.2 ⟨length, fun hp => ?_⟩))
    have hmem := (List.of_mem_zip hp).1
    exact ih _ hp (fun n hn => hindex n (Sexp.mem_atomsAll.2 ⟨_, hmem, hn⟩))
      fun n hn => hrest n (Sexp.mem_atomsAll.2 ⟨_, hmem, hn⟩)
  | placeholder index => exact .placeholder index

theorem abstracted_same {t u : Sexp} (h : Alike id names P t u) (parameters : List String) :
    Alike id names P (t.abstracted parameters) (u.abstracted parameters) :=
  h.abstracted (fun _ _ => rfl) fun _ _ _ => rfl

theorem filledAll {args args' : List Value} {items items' : List Sexp}
    (h : List.Forall₂ (fun t u => Alike σ names P (t.filled args) (u.filled args')) items items') :
    List.Forall₂ (Alike σ names P) (Sexp.filledAll args items) (Sexp.filledAll args' items') := by
  induction h with
  | nil => exact .nil
  | cons h _ ih => exact .cons h ih

/-- **Alike templates filled with alike values are alike.** -/
theorem filled {args args' : List Value} {t u : Sexp} (h : Alike σ names P t u)
    (hnames : ∀ n, names n → σ n = n) (hargs : List.Forall₂ (Value.Alike names P) args args') :
    Alike σ names P (t.filled args) (u.filled args') := by
  induction h with
  | name n => exact .name n
  | atom hv h => exact .atom hv h
  | expression length _ ih =>
    exact expression_iff.2 (filledAll (List.forall₂_iff_zip.2 ⟨length, fun hp => ih _ hp⟩))
  | placeholder index =>
    rw [Sexp.filled, Sexp.filled]
    have hvalue := rel_getElem? hargs index
    generalize args[index]? = r at hvalue
    generalize args'[index]? = q at hvalue
    cases hvalue with
    | none => exact .placeholder index
    | some hv => exact .of_value hnames hv

/-! ## A tree and itself -/

mutual

/-- **A tree is like itself renamed**, if its leaves are like themselves. -/
theorem renamed (σ : String → String) : ∀ (t : Sexp),
    (∀ v ∈ t.atoms, (∀ n, v ≠ .symbol n) → Value.Alike names P v v) →
      Alike σ names P t (t.renamed σ)
  | .atom v, h => by
    by_cases hv : ∃ n, v = .symbol n
    · obtain ⟨n, rfl⟩ := hv
      exact .name n
    · have hv' : ∀ n, v ≠ .symbol n := fun n hn => hv ⟨n, hn⟩
      rw [Sexp.renamed_atom hv']
      exact .atom hv' (h v (List.mem_singleton_self v) hv')
  | .expression items, h => expression_iff.2 (renamedAll σ items h)
  | .placeholder index, _ => .placeholder index

theorem renamedAll (σ : String → String) : ∀ (items : List Sexp),
    (∀ v ∈ Sexp.atomsAll items, (∀ n, v ≠ .symbol n) → Value.Alike names P v v) →
      List.Forall₂ (Alike σ names P) items (Sexp.renamedAll σ items)
  | [], _ => .nil
  | t :: items, h =>
    .cons (renamed σ t fun v hv => h v (List.mem_append_left _ hv))
      (renamedAll σ items fun v hv => h v (List.mem_append_right _ hv))

end

theorem refl (t : Sexp)
    (h : ∀ v ∈ t.atoms, (∀ n, v ≠ .symbol n) → Value.Alike names P v v) : Alike id names P t t := by
  have hrenamed : Alike id names P t (t.renamed id) := renamed id t h
  rwa [Sexp.renamed_id] at hrenamed

end Sexp.Alike

/-- **A value is like itself**, if a declared procedure is related to itself whenever its template
is like itself. -/
theorem Value.SymbolsIn.alike (hP : Procedure.Faithful P)
    (hdeclared : ∀ {i name parameters template}, Sexp.Alike id names P template template →
      P (.declared i name parameters template) (.declared i name parameters template))
    {v : Value} (h : v.SymbolsIn names) : Value.Alike names P v v := by
  induction h with
  | number x => exact .number x
  | boolean b => exact .boolean b
  | string text => exact .string text
  | symbol h => exact .symbol h
  | none => exact .none
  | list _ ih => exact Value.Alike.list_iff.2 (List.forall₂_same.2 ih)
  | primitive p => exact .function (hP.primitive p)
  | declared _ ih => exact .function (hdeclared (.refl _ ih))

end MiniLisp
