import MiniLisp.Proofs.Run.Failure
import MiniLisp.Proofs.Tree.Renaming

/-!
# Trees in which `define` and `set` are interchanged

Two trees are interchanged (`Sexp.Interchanged`) when they are the same, except that an expression
that begins with `define` in one of them may begin with `set` in the other one, and the other way
round. The two names stand nowhere but at the heads of expressions, and no such expression stands
in the place of a list of parameters, where its head would be a parameter.

Making templates (`abstracted`) and filling them (`filled`) both go through a tree and put other
leaves in the place of leaves (`Sexp.Pass`). As long as no name of a form that binds something is
put in or taken out, that leaves interchanged trees interchanged.
-/

namespace MiniLisp

/-- The names of the forms that bind a value. -/
def bindingNames : List String :=
  [Form.define.name, Form.set.name]

/-- A name that no form which binds something goes by. -/
def Inert (n : String) : Prop :=
  n ∉ Form.function.name :: bindingNames

/-- An expression that begins with the name of a form that binds a value. -/
def Sexp.IsAssignment (t : Sexp) : Prop :=
  ∃ n ∈ bindingNames, ∃ operands, t = .expression (.atom (.symbol n) :: operands)

variable {names : String → Prop} {P : Procedure → Procedure → Prop}

/-- Trees that are the same up to the heads `define` and `set` of expressions and up to alike
values. At the head of an expression either of the two may stand for the other (`assignment`), and
neither stands anywhere else (`name`). An expression that begins with one of them is not the list of
parameters of a declaration (`expression`). -/
inductive Sexp.Interchanged (names : String → Prop) (P : Procedure → Procedure → Prop) :
    Sexp → Sexp → Prop
  | name {n : String} (h : n ∉ bindingNames) :
    Interchanged names P (.atom (.symbol n)) (.atom (.symbol n))
  | atom {v w : Value} (hv : ∀ n, v ≠ .symbol n) (h : Value.Alike names P v w) :
    Interchanged names P (.atom v) (.atom w)
  | assignment {n n' : String} {operands operands' : List Sexp} (hn : n ∈ bindingNames)
    (hn' : n' ∈ bindingNames) (length : operands.length = operands'.length)
    (h : ∀ p ∈ operands.zip operands', Interchanged names P p.1 p.2) :
    Interchanged names P (.expression (.atom (.symbol n) :: operands))
      (.expression (.atom (.symbol n') :: operands'))
  | expression {items items' : List Sexp}
    (hformals : ∀ target formals body,
      items = [.atom (.symbol Form.function.name), target, formals, body] → ¬formals.IsAssignment)
    (length : items.length = items'.length)
    (h : ∀ p ∈ items.zip items', Interchanged names P p.1 p.2) :
    Interchanged names P (.expression items) (.expression items')
  | placeholder (index : Nat) : Interchanged names P (.placeholder index) (.placeholder index)

/-- Procedures that were declared together, with interchanged templates. -/
inductive Procedure.Interchanged (names : String → Prop) : Procedure → Procedure → Prop
  | primitive (p : Primitive) : Interchanged names (.primitive p) (.primitive p)
  | declared {i : Nat} {name : String} {parameters : List String} {template template' : Sexp}
    (h : Sexp.Interchanged names (Interchanged names) template template') :
    Interchanged names (.declared i name parameters template)
      (.declared i name parameters template')

theorem Procedure.Interchanged.faithful (names : String → Prop) :
    Procedure.Faithful (Procedure.Interchanged names) where
  primitive := .primitive
  name h := by cases h <;> rfl
  equal h h' := by cases h <;> cases h' <;> rfl

/-! ## Names of forms -/

theorem exists_form_of_binding {n : String} (h : n ∈ bindingNames) :
    ∃ form, (form = Form.define ∨ form = .set) ∧
      (Sexp.atom (.symbol n)).form? = some form := by
  rcases List.mem_pair.1 h with rfl | rfl
  · exact ⟨.define, .inl rfl, rfl⟩
  · exact ⟨.set, .inr rfl, rfl⟩

/-! ## Passes -/

/-- A pass through trees that puts other leaves for leaves, but neither takes out the name of a form
that binds a value nor puts in one of a form that binds something. -/
structure Sexp.Pass (φ : Sexp → Sexp) : Prop where
  expression : ∀ items, φ (.expression items) = .expression (items.map φ)
  leaf : ∀ {t items}, φ t = .expression items → ∃ items', t = .expression items'
  head : ∀ n ∈ bindingNames, φ (.atom (.symbol n)) = .atom (.symbol n)
  name : ∀ {t n}, ¬Inert n → φ t = .atom (.symbol n) → t = .atom (.symbol n)

namespace Sexp.Pass

variable {φ ψ : Sexp → Sexp}

theorem isAssignment (hφ : Pass φ) {t : Sexp} (h : (φ t).IsAssignment) : t.IsAssignment := by
  obtain ⟨n, hn, operands, ht⟩ := h
  obtain ⟨items, rfl⟩ := hφ.leaf ht
  rw [hφ.expression, Sexp.expression.injEq, List.map_eq_cons_iff] at ht
  obtain ⟨head, rest, rfl, hhead, -⟩ := ht
  have hinert : ¬Inert n := fun hinert => hinert (List.mem_cons_of_mem _ hn)
  obtain rfl := hφ.name hinert hhead
  exact ⟨n, hn, rest, rfl⟩

/-- No assignment gets into the place of a list of parameters. -/
theorem formals (hφ : Pass φ) {items : List Sexp}
    (h : ∀ target formals body,
      items = [.atom (.symbol Form.function.name), target, formals, body] → ¬formals.IsAssignment) :
    ∀ target formals body,
      items.map φ = [.atom (.symbol Form.function.name), target, formals, body] →
        ¬formals.IsAssignment := by
  intro target formals body hitems hformals
  simp only [List.map_eq_cons_iff, List.map_eq_nil_iff] at hitems
  obtain ⟨head, _, rfl, hhead, target', _, rfl, -, formals', _, rfl, rfl, body', _, rfl, -, rfl⟩ :=
    hitems
  obtain rfl := hφ.name (fun hinert => hinert List.mem_cons_self) hhead
  exact h target' formals' body' rfl (hφ.isAssignment hformals)

end Sexp.Pass

namespace Sexp.Interchanged

variable {t u : Sexp}

theorem items {items items' : List Sexp}
    (hformals : ∀ target formals body,
      items = [.atom (.symbol Form.function.name), target, formals, body] → ¬formals.IsAssignment)
    (h : List.Forall₂ (Interchanged names P) items items') :
    Interchanged names P (.expression items) (.expression items') :=
  .expression hformals h.length_eq fun _ hp => (List.forall₂_iff_zip.1 h).2 hp

theorem operands {n n' : String} {operands operands' : List Sexp} (hn : n ∈ bindingNames)
    (hn' : n' ∈ bindingNames) (h : List.Forall₂ (Interchanged names P) operands operands') :
    Interchanged names P (.expression (.atom (.symbol n) :: operands))
      (.expression (.atom (.symbol n') :: operands')) :=
  .assignment hn hn' h.length_eq fun _ hp => (List.forall₂_iff_zip.1 h).2 hp

theorem application {head head' : Sexp} {operands operands' : List Sexp}
    (hform : head.form? ≠ some .function) (hhead : Interchanged names P head head')
    (h : List.Forall₂ (Interchanged names P) operands operands') :
    Interchanged names P (.expression (head :: operands)) (.expression (head' :: operands')) := by
  refine .items (fun target formals body hitems => ?_) (.cons hhead h)
  rw [(List.cons.inj hitems).1] at hform
  exact absurd rfl hform

theorem declaration {formals : List String} (hformals : ∀ n ∈ formals, n ∉ bindingNames)
    {target target' body body' : Sexp} (htarget : Interchanged names P target target')
    (hbody : Interchanged names P body body') :
    Interchanged names P (.declaration target formals body) (.declaration target' formals body') := by
  have hno : ¬(Sexp.expression (formals.map fun n => .atom (.symbol n))).IsAssignment := by
    rintro ⟨n, hn, _, heq⟩
    obtain ⟨x, _, rfl, hx, -⟩ := List.map_eq_cons_iff.1 (Sexp.expression.inj heq)
    cases hx
    exact hformals n List.mem_cons_self hn
  have hnames : List.Forall₂ (Interchanged names P) (formals.map fun n => .atom (.symbol n))
      (formals.map fun n => .atom (.symbol n)) := by
    rw [List.forall₂_same]
    intro t ht
    obtain ⟨n, hn, rfl⟩ := List.mem_map.1 ht
    exact .name (hformals n hn)
  refine .items (fun _ _ _ hitems => ?_)
    (.cons (.name (by decide)) (.cons htarget (.cons (.items ?_ hnames) (.cons hbody .nil))))
  · cases hitems
    exact hno
  · rintro _ _ _ hitems ⟨n, -, _, rfl⟩
    simp [List.map_eq_cons_iff] at hitems

/-- **A pass over interchanged trees** leaves them interchanged, if it does so at the leaves. -/
theorem pass {φ ψ : Sexp → Sexp} (hφ : Pass φ) (hψ : Pass ψ)
    (hname : ∀ n, n ∉ bindingNames →
      Interchanged names P (φ (.atom (.symbol n))) (ψ (.atom (.symbol n))))
    (hatom : ∀ v w, (∀ n, v ≠ .symbol n) → Value.Alike names P v w →
      Interchanged names P (φ (.atom v)) (ψ (.atom w)))
    (hplaceholder : ∀ i, Interchanged names P (φ (.placeholder i)) (ψ (.placeholder i)))
    (h : Interchanged names P t u) : Interchanged names P (φ t) (ψ u) := by
  have hmap : ∀ {l k : List Sexp}, l.length = k.length →
      (∀ p ∈ l.zip k, Interchanged names P (φ p.1) (ψ p.2)) →
        List.Forall₂ (Interchanged names P) (l.map φ) (k.map ψ) := by
    intro l k length h
    rw [List.forall₂_map_left_iff, List.forall₂_map_right_iff]
    exact List.forall₂_iff_zip.2 ⟨length, fun hp => h _ hp⟩
  induction h with
  | name h => exact hname _ h
  | atom hv h => exact hatom _ _ hv h
  | assignment hn hn' length _ ih =>
    rw [hφ.expression, hψ.expression, List.map_cons, List.map_cons, hφ.head _ hn, hψ.head _ hn']
    exact .operands hn hn' (hmap length ih)
  | expression hformals length _ ih =>
    rw [hφ.expression, hψ.expression]
    exact .items (hφ.formals hformals) (hmap length ih)
  | placeholder index => exact hplaceholder index

end Sexp.Interchanged

/-! ## Templates -/

theorem Sexp.pass_abstracted {parameters : List String}
    (h : ∀ n ∈ parameters, n ∉ bindingNames) : Sexp.Pass (Sexp.abstracted parameters) where
  expression items := by rw [Sexp.abstracted, Sexp.abstractedAll_eq_map]
  leaf {t items} ht := by
    cases t with
    | expression items' => exact ⟨items', rfl⟩
    | placeholder index => cases ht
    | atom v =>
      cases v with
      | symbol n =>
        rw [Sexp.abstracted] at ht
        split at ht <;> cases ht
      | _ => cases ht
  head n hn := by rw [Sexp.abstracted, List.idxOf?_eq_none_iff.2 fun hmem => h n hmem hn]
  name {t n} _ ht := by
    cases t with
    | expression items => cases ht
    | placeholder index => cases ht
    | atom v =>
      cases v with
      | symbol m =>
        rw [Sexp.abstracted] at ht
        split at ht
        · cases ht
        · exact ht
      | _ => cases ht

theorem Sexp.pass_filled {args : List Value} (h : ∀ n, .symbol n ∈ args → Inert n) :
    Sexp.Pass (Sexp.filled args) where
  expression items := by rw [Sexp.filled, Sexp.filledAll_eq_map]
  leaf {t items} ht := by
    cases t with
    | expression items' => exact ⟨items', rfl⟩
    | atom v => cases ht
    | placeholder index =>
      rw [Sexp.filled] at ht
      split at ht <;> cases ht
  head n hn := rfl
  name {t n} hn ht := by
    cases t with
    | expression items => cases ht
    | atom v => exact ht
    | placeholder index =>
      rw [Sexp.filled] at ht
      split at ht
      · rename_i hv
        cases ht
        exact absurd (h n (List.mem_of_getElem? hv)) hn
      · cases ht

namespace Sexp.Interchanged

variable {t u : Sexp}

/-- **Interchanged bodies make interchanged templates.** -/
theorem abstracted (h : Interchanged names P t u) {parameters : List String}
    (hparameters : ∀ n ∈ parameters, n ∉ bindingNames) :
    Interchanged names P (t.abstracted parameters) (u.abstracted parameters) := by
  refine h.pass (pass_abstracted hparameters) (pass_abstracted hparameters) (fun n hn => ?_)
    (fun v w hv hvw => ?_) .placeholder
  · rw [Sexp.abstracted]
    split
    · exact .placeholder _
    · exact .name hn
  · rw [Sexp.abstracted_atom hv, Sexp.abstracted_atom (hvw.ne_symbol hv)]
    exact .atom hv hvw

/-- **Interchanged templates filled with alike values are interchanged.** -/
theorem filled (h : Interchanged names P t u) {args args' : List Value}
    (hnames : ∀ n, names n → Inert n) (hargs : List.Forall₂ (Value.Alike names P) args args') :
    Interchanged names P (t.filled args) (u.filled args') := by
  have hinert : ∀ n, .symbol n ∈ args ∨ .symbol n ∈ args' → Inert n := fun n hn =>
    hnames n (Value.Alike.names_of_mem hargs n hn)
  refine h.pass (pass_filled fun n hn => hinert n (.inl hn))
    (pass_filled fun n hn => hinert n (.inr hn)) (fun n hn => .name hn)
    (fun v w hv hvw => .atom hv hvw) fun i => ?_
  rw [Sexp.filled, Sexp.filled]
  have hvalue := rel_getElem? hargs i
  generalize args[i]? = r at hvalue
  generalize args'[i]? = q at hvalue
  cases hvalue with
  | none => exact .placeholder i
  | @some v w hvw =>
    by_cases hv : ∃ n, v = .symbol n
    · obtain ⟨n, rfl⟩ := hv
      obtain ⟨rfl, hn⟩ := hvw.of_symbol
      exact .name fun hbinding => hnames n hn (List.mem_cons_of_mem _ hbinding)
    · exact .atom (fun n hn => hv ⟨n, hn⟩) hvw

/-! ## Names and parameters -/

theorem name_or_refused (h : Interchanged names P t u) :
    (∃ n, n ∉ bindingNames ∧ t = .atom (.symbol n) ∧ u = .atom (.symbol n)) ∨
      (∀ n, t ≠ .atom (.symbol n)) ∧ ∀ n, u ≠ .atom (.symbol n) := by
  cases h with
  | name h => exact .inl ⟨_, h, rfl, rfl⟩
  | atom hv h =>
    exact .inr ⟨fun n hn => hv n (Sexp.atom.inj hn),
      fun n hn => h.ne_symbol hv n (Sexp.atom.inj hn)⟩
  | assignment => exact .inr ⟨fun n => nofun, fun n => nofun⟩
  | expression => exact .inr ⟨fun n => nofun, fun n => nofun⟩
  | placeholder => exact .inr ⟨fun n => nofun, fun n => nofun⟩

/-- Interchanged items are the same names, or both lists are refused. -/
theorem names_or_refused {items items' : List Sexp}
    (h : List.Forall₂ (Interchanged names P) items items') :
    (∃ parameters, (∀ n ∈ parameters, n ∉ bindingNames) ∧
      items.mapM (expectSymbol .function) = .ok parameters ∧
        items'.mapM (expectSymbol .function) = .ok parameters) ∨
      ∃ m m', items.mapM (expectSymbol .function) = .error m ∧
        items'.mapM (expectSymbol .function) = .error m' := by
  induction h with
  | nil => exact .inl ⟨[], fun n hn => absurd hn List.not_mem_nil, rfl, rfl⟩
  | cons htu _ ih =>
    rw [List.mapM_cons, List.mapM_cons]
    rcases htu.name_or_refused with ⟨n, hn, rfl, rfl⟩ | ⟨ht, hu⟩
    · rcases ih with ⟨parameters, hparameters, hl, hk⟩ | ⟨m, m', hl, hk⟩
      · rw [hl, hk]
        exact .inl ⟨n :: parameters, List.forall_mem_cons.2 ⟨hn, hparameters⟩, rfl, rfl⟩
      · rw [hl, hk]
        exact .inr ⟨m, m', rfl, rfl⟩
    · rw [expectSymbol_of_ne ht, expectSymbol_of_ne hu]
      exact .inr ⟨_, _, rfl, rfl⟩

/-- Interchanged trees are the same list of parameters, or both are refused. -/
theorem parameters_or_refused (h : Interchanged names P t u) (ht : ¬t.IsAssignment) :
    (∃ parameters, (∀ n ∈ parameters, n ∉ bindingNames) ∧
      expectParameters t = .ok parameters ∧ expectParameters u = .ok parameters) ∨
      ∃ m m', expectParameters t = .error m ∧ expectParameters u = .error m' := by
  cases h with
  | name h => exact .inr ⟨_, _, rfl, rfl⟩
  | atom hv h => exact .inr ⟨_, _, rfl, rfl⟩
  | assignment hn hn' length h => exact absurd ⟨_, hn, _, rfl⟩ ht
  | expression hformals length h =>
    exact names_or_refused (List.forall₂_iff_zip.2 ⟨length, fun hp => h _ hp⟩)
  | placeholder => exact .inr ⟨_, _, rfl, rfl⟩

theorem form?_eq (h : Interchanged names P t u) : t.form? = u.form? := by
  cases h with
  | name h => rfl
  | atom hv h => rw [form?_atom hv, form?_atom (h.ne_symbol hv)]
  | assignment => rfl
  | expression => rfl
  | placeholder => rfl

/-- A tree that stands by itself names no form that binds a value. -/
theorem form?_ne (h : Interchanged names P t u) :
    t.form? ≠ some .define ∧ t.form? ≠ some .set := by
  cases h with
  | name h =>
    refine ⟨fun hform => h ?_, fun hform => h ?_⟩
    · exact Form.eq_name_of_ofName? hform ▸ List.mem_cons_self
    · exact Form.eq_name_of_ofName? hform ▸ List.mem_cons_of_mem _ List.mem_cons_self
  | atom hv h =>
    rw [form?_atom hv]
    exact ⟨nofun, nofun⟩
  | assignment => exact ⟨nofun, nofun⟩
  | expression => exact ⟨nofun, nofun⟩
  | placeholder => exact ⟨nofun, nofun⟩

end Sexp.Interchanged

end MiniLisp
