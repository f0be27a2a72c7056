import Mathlib.Data.List.Forall2
import MiniLisp.Proofs.Tree.Leaves
import MiniLisp.Proofs.Value.Text
import MiniLisp.Value.Equal

/-!
# Alike values

Two values are alike (`Value.Alike`) when they are made in the same way out of the same numbers,
strings and names, and out of procedures of which a relation says that they correspond. If the
relation keeps what a program can tell about a procedure without calling it (`Procedure.Faithful`),
alike values look the same: they have the same text and kind, and equality does not tell them apart.

A value in which all symbols are of certain names (`Value.SymbolsIn`) is like itself.
-/

namespace MiniLisp

variable {names : String → Prop} {P : Procedure → Procedure → Prop}

/-- A relation between procedures that have the same name and of which equality does not tell one
side from the other. -/
structure Procedure.Faithful (P : Procedure → Procedure → Prop) : Prop where
  primitive : ∀ p, P (.primitive p) (.primitive p)
  name : ∀ {f g}, P f g → f.name = g.name
  equal : ∀ {f g f' g'}, P f g → P f' g' → f.equal f' = g.equal g'

/-- Values that are the same, except that procedures may be others to which `P` relates them. The
symbols in them are of some names only. -/
inductive Value.Alike (names : String → Prop) (P : Procedure → Procedure → Prop) :
    Value → Value → Prop
  | number (x : Float) : Alike names P (.number x) (.number x)
  | boolean (b : Bool) : Alike names P (.boolean b) (.boolean b)
  | string (text : String) : Alike names P (.string text) (.string text)
  | symbol {name : String} (h : names name) : Alike names P (.symbol name) (.symbol name)
  | none : Alike names P .none .none
  | list {items items' : List Value} (length : items.length = items'.length)
    (h : ∀ p ∈ items.zip items', Alike names P p.1 p.2) :
    Alike names P (.list items) (.list items')
  | function {f g : Procedure} (h : P f g) : Alike names P (.function f) (.function g)

/-- A value in which all symbols, but for the names in templates, satisfy `names`. -/
inductive Value.SymbolsIn (names : String → Prop) : Value → Prop
  | number (x : Float) : SymbolsIn names (.number x)
  | boolean (b : Bool) : SymbolsIn names (.boolean b)
  | string (text : String) : SymbolsIn names (.string text)
  | symbol {name : String} (h : names name) : SymbolsIn names (.symbol name)
  | none : SymbolsIn names .none
  | list {items : List Value} (h : ∀ v ∈ items, SymbolsIn names v) : SymbolsIn names (.list items)
  | primitive (p : Primitive) : SymbolsIn names (.function (.primitive p))
  | declared {id : Nat} {name : String} {parameters : List String} {template : Sexp}
    (h : ∀ v ∈ template.atoms, (∀ n, v ≠ .symbol n) → SymbolsIn names v) :
    SymbolsIn names (.function (.declared id name parameters template))

/-- What stands at a position in two related lists. -/
theorem rel_getElem? {R : α → β → Prop} {l : List α} {k : List β} (h : List.Forall₂ R l k)
    (i : Nat) : Option.Rel R l[i]? k[i]? := by
  induction h generalizing i with
  | nil => exact .none
  | cons hab _ ih =>
    cases i with
    | zero => exact .some hab
    | succ i => simpa using ih i

namespace Value.Alike

theorem list_iff {items items' : List Value} :
    Alike names P (.list items) (.list items') ↔ List.Forall₂ (Alike names P) items items' := by
  constructor
  · intro h
    cases h with
    | list length h => exact List.forall₂_iff_zip.2 ⟨length, fun hp => h _ hp⟩
  · intro h
    exact .list h.length_eq fun p hp => (List.forall₂_iff_zip.1 h).2 hp

theorem of_symbol {name : String} {w : Value} (h : Alike names P (.symbol name) w) :
    w = .symbol name ∧ names name := by
  cases h with
  | symbol h => exact ⟨rfl, h⟩

theorem ne_symbol {v w : Value} (h : Alike names P v w) (hv : ∀ name, v ≠ .symbol name) :
    ∀ name, w ≠ .symbol name := by
  rintro name rfl
  cases h with
  | symbol h => exact hv name rfl

/-- The symbols among alike values are of the names that they may be of. -/
theorem names_of_mem {args args' : List Value} (h : List.Forall₂ (Alike names P) args args') :
    ∀ n, .symbol n ∈ args ∨ .symbol n ∈ args' → names n := by
  induction h with
  | nil => rintro n (hn | hn) <;> cases hn
  | cons hvw _ ih =>
    rintro n (hn | hn)
    · rcases List.mem_cons.1 hn with rfl | hn
      · exact hvw.of_symbol.2
      · exact ih n (.inl hn)
    · rcases List.mem_cons.1 hn with rfl | hn
      · cases hvw with
        | symbol h => exact h
      · exact ih n (.inr hn)

theorem kind_eq {v w : Value} (h : Alike names P v w) : v.kind = w.kind := by
  cases h <;> rfl

/-! ## Texts -/

theorem writeAll_eq {items items' : List Value}
    (h : List.Forall₂ (fun v w => ∀ out, v.write out = w.write out) items items')
    (gap out : String) : Value.writeAll gap out items = Value.writeAll gap out items' := by
  induction h generalizing gap out with
  | nil => rfl
  | cons hv _ ih => rw [Value.writeAll, Value.writeAll, hv, ih]

theorem write_eq (hP : Procedure.Faithful P) {v w : Value} (h : Alike names P v w) (out : String) :
    v.write out = w.write out := by
  induction h generalizing out with
  | list length _ ih =>
    rw [Value.write, Value.write,
      writeAll_eq (List.forall₂_iff_zip.2 ⟨length, fun hp => ih _ hp⟩)]
  | function h => rw [Value.write, Value.write, hP.name h]
  | _ => rfl

/-- **Alike values have the same text.** -/
theorem text_eq (hP : Procedure.Faithful P) {v w : Value} (h : Alike names P v w) :
    v.text = w.text :=
  h.write_eq hP ""

/-! ## Equality -/

theorem equalAll_eq {l k l' k' : List Value}
    (h : List.Forall₂ (fun v w => ∀ {v' w'}, Alike names P v' w' → v.equal v' = w.equal w') l k)
    (h' : List.Forall₂ (Alike names P) l' k') :
    Value.equalAll l l' = Value.equalAll k k' := by
  induction h generalizing l' k' with
  | nil => cases h' <;> rfl
  | cons hv _ ih =>
    cases h' with
    | nil => rfl
    | cons hv' h' => rw [Value.equalAll, Value.equalAll, hv hv', ih h']

/-- **Equality does not tell alike values apart.** -/
theorem equal_eq (hP : Procedure.Faithful P) {v w v' w' : Value} (h : Alike names P v w)
    (h' : Alike names P v' w') : v.equal v' = w.equal w' := by
  induction h generalizing v' w' with
  | list length _ ih =>
    cases h' with
    | list length' h' =>
      rw [Value.equal, Value.equal]
      exact equalAll_eq (List.forall₂_iff_zip.2 ⟨length, fun hp => ih _ hp⟩)
        (list_iff.1 (.list length' h'))
    | _ => rfl
  | function h =>
    cases h' with
    | function h' =>
      rw [Value.equal, Value.equal]
      exact hP.equal h h'
    | _ => rfl
  | _ => cases h' <;> rfl

end Value.Alike

end MiniLisp
