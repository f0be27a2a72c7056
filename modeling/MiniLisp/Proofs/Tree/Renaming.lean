import MiniLisp.Proofs.Primitive.Parametric
import MiniLisp.Proofs.Tree.Alike

/-!
# Renaming the formals of a declaration

A `Renaming` gives the formals of a declaration other names. Two trees are related by it
(`Sexp.Renamed`) when somewhere inside, where trees are evaluated, the one has a declaration with
the old formals and the other one with the new ones, and they are alike everywhere else.

Around the declaration there may be others, and a call of those substitutes into it without regard
to its formals: there is no shadowing. So the relation asks that no formal of an enclosing
declaration is one of the formals, or the word `function` itself (`Sexp.Opens`). Then it
survives what an enclosing declaration does, making a template (`Sexp.Renamed.abstracted`) and
filling it (`Sexp.Renamed.filled`), and the declaration itself makes alike templates of its two
bodies (`Sexp.Alike.abstracted_formals`).
-/

namespace MiniLisp

/-- New names for the formals of a declaration, different ones for different formals. -/
structure Renaming where
  formals : List String
  fresh : String → String
  injective : ∀ a ∈ formals, ∀ b ∈ formals, fresh a = fresh b → a = b

namespace Renaming

variable (r : Renaming)

/-- What becomes of a name in the scope of the formals. -/
def name (n : String) : String :=
  if n ∈ r.formals then r.fresh n else n

/-- A name that is neither an old formal nor a new one. -/
def Foreign (n : String) : Prop :=
  n ∉ r.formals ∧ n ∉ r.formals.map r.fresh

/-- A name that a value may have in it. As values can come to stand anywhere, it is no formal, and
no form that binds. -/
def Harmless (n : String) : Prop :=
  r.Foreign n ∧ (Form.ofName? n = none ∨ Form.ofName? n = some .conditional)

variable {r}

theorem name_of_foreign {n : String} (h : r.Foreign n) : r.name n = n :=
  if_neg h.1

theorem Harmless.ne_function {n : String} (h : r.Harmless n) : n ≠ "function" := by
  rintro rfl
  rcases h.2 with h | h <;> cases h

/-- An injective change of the items of a list keeps their positions. -/
theorem idxOf?_map {f : String → String} {n : String} {l : List String}
    (h : ∀ a ∈ l, f a = f n → a = n) : (l.map f).idxOf? (f n) = l.idxOf? n := by
  induction l with
  | nil => rfl
  | cons a l ih =>
    rw [List.map_cons, List.idxOf?_cons, List.idxOf?_cons,
      ih fun b hb => h b (List.mem_cons_of_mem _ hb)]
    by_cases ha : a = n
    · rw [ha, beq_self_eq_true, beq_self_eq_true]
    · have hfa : f a ≠ f n := fun hfa => ha (h a List.mem_cons_self hfa)
      rw [beq_eq_false_iff_ne.2 ha, beq_eq_false_iff_ne.2 hfa]

/-- A formal has the same position among the new formals as among the old ones. -/
theorem idxOf?_name {n : String} (hn : ∀ x ∈ r.formals, n ≠ r.fresh x) :
    (r.formals.map r.fresh).idxOf? (r.name n) = r.formals.idxOf? n := by
  by_cases h : n ∈ r.formals
  · rw [name, if_pos h]
    exact idxOf?_map fun a ha => r.injective a ha n h
  · rw [name, if_neg h, List.idxOf?_eq_none_iff.2 h, List.idxOf?_eq_none_iff]
    intro hmem
    obtain ⟨x, hx, hxn⟩ := List.mem_map.1 hmem
    exact hn x hx hxn.symm

end Renaming

/-! ## Declarations and what is around them -/

/-- A declaration, written as a tree. -/
def Sexp.declaration (target : Sexp) (formals : List String) (body : Sexp) : Sexp :=
  .expression [.atom (.symbol Form.function.name), target,
    .expression (formals.map fun n => .atom (.symbol n)), body]

theorem expectParameters_formals (formals : List String) :
    expectParameters (.expression (formals.map fun n => .atom (.symbol n))) = .ok formals := by
  rw [expectParameters]
  induction formals with
  | nil => rfl
  | cons n formals ih => rw [List.map_cons, List.mapM_cons, ih]; rfl

/-- How many operands a form takes. -/
def Form.arity : Form → Nat
  | .conditional | .function => 3
  | .define | .set => 2

/-- In an expression with these items before and after it, a tree stands where it is evaluated, now
or as the body of a declaration, and not where a name or a list of parameters is expected. The
parameters of a declaration around it are of names that satisfy `avoids`. In a form that is refused
for the count of its operands the place of the tree does not matter. -/
inductive Sexp.Opens (avoids : String → Prop) : List Sexp → List Sexp → Prop
  | head (after : List Sexp) : Opens avoids [] after
  | operand {head : Sexp} (h : head.form? = none) (before after : List Sexp) :
    Opens avoids (head :: before) after
  | branch {head : Sexp} (h : head.form? = some .conditional) (before after : List Sexp) :
    Opens avoids (head :: before) after
  | assigned {head : Sexp} {form : Form} (hform : form = .define ∨ form = .set)
    (h : head.form? = some form) (target : Sexp) : Opens avoids [head, target] []
  | body {head formals : Sexp} (h : head.form? = some .function) (target : Sexp)
    (hformals : ∀ n, .symbol n ∈ formals.atoms → avoids n) :
    Opens avoids [head, target, formals] []
  | refused {head : Sexp} {form : Form} (h : head.form? = some form) {before after : List Sexp}
    (hcount : before.length + 1 + after.length ≠ form.arity) : Opens avoids (head :: before) after

namespace Sexp

theorem abstractedAll_eq_map (parameters : List String) (items : List Sexp) :
    abstractedAll parameters items = items.map (·.abstracted parameters) := by
  induction items with
  | nil => rfl
  | cons t items ih => rw [abstractedAll, ih, List.map_cons]

theorem filledAll_eq_map (args : List Value) (items : List Sexp) :
    filledAll args items = items.map (·.filled args) := by
  induction items with
  | nil => rfl
  | cons t items ih => rw [filledAll, ih, List.map_cons]

/-- A head keeps its form in a template, or it has become a placeholder. -/
theorem form?_abstracted (parameters : List String) (t : Sexp) :
    (t.abstracted parameters).form? = t.form? ∨ (t.abstracted parameters).form? = none := by
  match t with
  | .atom (.symbol n) =>
    rw [abstracted]
    cases parameters.idxOf? n with
    | some index => exact .inr rfl
    | none => exact .inl rfl
  | .atom (.number _) | .atom (.boolean _) | .atom (.string _) | .atom .none | .atom (.list _)
  | .atom (.function _) | .expression _ | .placeholder _ => exact .inl rfl

/-- A head keeps its form in a filled template; one that is filled in has none, or is the one of
`if`. -/
theorem form?_filled {args : List Value}
    (hargs : ∀ n, .symbol n ∈ args → Form.ofName? n = none ∨ Form.ofName? n = some .conditional)
    (t : Sexp) : (t.filled args).form? = t.form? ∨
      t.form? = none ∧ (t.filled args).form? = some .conditional := by
  cases t with
  | atom v => exact .inl rfl
  | expression items => exact .inl rfl
  | placeholder index =>
    rw [filled]
    cases hv : args[index]? with
    | none => exact .inl rfl
    | some v =>
      cases v with
      | symbol n => exact (hargs n (List.mem_of_getElem? hv)).imp id fun h => ⟨rfl, h⟩
      | _ => exact .inl rfl

end Sexp

namespace Sexp.Opens

variable {avoids : String → Prop} {before after : List Sexp}

/-- Only the names that are spelled around the place matter. -/
theorem imp (h : Opens avoids before after) {avoids' : String → Prop}
    (himp : ∀ t ∈ before, ∀ n, .symbol n ∈ t.atoms → avoids n → avoids' n) :
    Opens avoids' before after := by
  cases h with
  | head after => exact .head after
  | operand h before after => exact .operand h before after
  | branch h before after => exact .branch h before after
  | assigned hform h target => exact .assigned hform h target
  | body h target hformals =>
    exact .body h target fun n hn => himp _ (by simp) n hn (hformals n hn)
  | refused h hcount => exact .refused h hcount

theorem abstracted (h : Opens avoids before after) (parameters : List String) :
    Opens avoids (before.map (·.abstracted parameters)) (after.map (·.abstracted parameters)) := by
  cases h with
  | head after => exact .head _
  | @operand head h before after =>
    refine .operand ?_ _ _
    rcases form?_abstracted parameters head with hform | hform
    · rw [hform, h]
    · exact hform
  | @branch head h before after =>
    rcases form?_abstracted parameters head with hform | hform
    · exact .branch (hform.trans h) _ _
    · exact .operand hform _ _
  | @assigned head form hform h target =>
    rcases form?_abstracted parameters head with hhead | hhead
    · exact .assigned hform (hhead.trans h) _
    · exact .operand hhead _ _
  | @body head formals h target hformals =>
    rcases form?_abstracted parameters head with hhead | hhead
    · exact .body (hhead.trans h) _ fun n hn =>
        hformals n ((mem_atoms_abstracted parameters formals).1 hn).1
    · exact .operand hhead _ _
  | @refused head form h before after hcount =>
    rcases form?_abstracted parameters head with hhead | hhead
    · exact .refused (hhead.trans h) (by simpa using hcount)
    · exact .operand hhead _ _

theorem filled (h : Opens avoids before after) {args : List Value}
    (hforms : ∀ n, .symbol n ∈ args → Form.ofName? n = none ∨ Form.ofName? n = some .conditional)
    (havoids : ∀ n, .symbol n ∈ args → avoids n) :
    Opens avoids (before.map (·.filled args)) (after.map (·.filled args)) := by
  have hkeep : ∀ {head : Sexp} {form : Form}, head.form? = some form →
      (head.filled args).form? = some form := by
    intro head form h
    rcases form?_filled hforms head with hform | ⟨hnone, -⟩
    · exact hform.trans h
    · rw [h] at hnone
      cases hnone
  cases h with
  | head after => exact .head _
  | @operand head h before after =>
    rcases form?_filled hforms head with hform | ⟨-, hform⟩
    · exact .operand (hform.trans h) _ _
    · exact .branch hform _ _
  | branch h before after => exact .branch (hkeep h) _ _
  | assigned hform h target => exact .assigned hform (hkeep h) _
  | @body head formals h target hformals =>
    refine .body (hkeep h) _ fun n hn => ?_
    exact (mem_atoms_filled args formals hn).elim (hformals n) (havoids n)
  | refused h hcount => exact .refused (hkeep h) (by simpa using hcount)

end Sexp.Opens

/-! ## Trees in which a declaration is renamed -/

/-- A name for a parameter around the declaration. -/
def Renaming.Around (r : Renaming) (n : String) : Prop :=
  r.Foreign n ∧ n ≠ Form.function.name

theorem Renaming.Harmless.around {r : Renaming} {n : String} (h : r.Harmless n) : r.Around n :=
  ⟨h.1, h.ne_function⟩

/-- Trees that differ in the formals of one declaration inside. -/
inductive Sexp.Renamed (r : Renaming) (P : Procedure → Procedure → Prop) : Sexp → Sexp → Prop
  | declaration {target target' body body' : Sexp}
    (htarget : Sexp.Alike id r.Harmless P target target')
    (hbody : Sexp.Alike r.name r.Harmless P body body')
    (hfresh : ∀ x ∈ r.formals, .symbol (r.fresh x) ∉ body.atoms) :
    Renamed r P (.declaration target r.formals body)
      (.declaration target' (r.formals.map r.fresh) body')
  | inside {before before' after after' : List Sexp} {t u : Sexp}
    (hopens : Sexp.Opens r.Around before after) (h : Renamed r P t u)
    (hbefore : List.Forall₂ (Sexp.Alike id r.Harmless P) before before')
    (hafter : List.Forall₂ (Sexp.Alike id r.Harmless P) after after') :
    Renamed r P (.expression (before ++ t :: after)) (.expression (before' ++ u :: after'))

namespace Sexp

variable {r : Renaming} {P : Procedure → Procedure → Prop}

/-- The formals of a declaration are out of the reach of parameters by other names. -/
theorem declaration_abstracted {parameters : List String} {target body : Sexp}
    {formals : List String} (hfunction : Form.function.name ∉ parameters)
    (hformals : ∀ x ∈ formals, x ∉ parameters) :
    (declaration target formals body).abstracted parameters =
      .declaration (target.abstracted parameters) formals (body.abstracted parameters) := by
  have hname : ∀ n, n ∉ parameters →
      (Sexp.atom (.symbol n)).abstracted parameters = .atom (.symbol n) := by
    intro n hn
    rw [abstracted, List.idxOf?_eq_none_iff.2 hn]
  have hall : formals.map (abstracted parameters ∘ fun n => Sexp.atom (.symbol n)) =
      formals.map fun n => Sexp.atom (.symbol n) :=
    List.map_congr_left fun x hx => hname x (hformals x hx)
  rw [declaration, declaration, abstracted, abstractedAll_eq_map]
  simp only [List.map_cons, List.map_nil, hname _ hfunction]
  rw [abstracted, abstractedAll_eq_map, List.map_map, hall]

theorem declaration_filled (args : List Value) (target body : Sexp) (formals : List String) :
    (declaration target formals body).filled args =
      .declaration (target.filled args) formals (body.filled args) := by
  rw [declaration, declaration, filled, filledAll_eq_map]
  simp only [List.map_cons, List.map_nil]
  rw [filled, filled, filledAll_eq_map, List.map_map]
  rfl

/-- **The two declarations make alike templates**, in which the formals are but positions. -/
theorem Alike.abstracted_formals {body body' : Sexp}
    (h : Alike r.name r.Harmless P body body')
    (hfresh : ∀ x ∈ r.formals, .symbol (r.fresh x) ∉ body.atoms) :
    Alike id r.Harmless P (body.abstracted r.formals)
      (body'.abstracted (r.formals.map r.fresh)) := by
  refine h.abstracted (fun n hn => Renaming.idxOf?_name fun x hx hnx => ?_) fun n _ hn => ?_
  · exact hfresh x hx (hnx ▸ hn)
  · exact (if_neg hn).symm

end Sexp

namespace Sexp.Renamed

variable {r : Renaming} {P : Procedure → Procedure → Prop} {t u : Sexp}

/-- **A declaration around makes templates that differ in the same way.** -/
theorem abstracted (h : Renamed r P t u) {parameters : List String}
    (haround : ∀ n ∈ parameters, r.Around n) :
    Renamed r P (t.abstracted parameters) (u.abstracted parameters) := by
  induction h with
  | @declaration target target' body body' htarget hbody hfresh =>
    have hfunction : Form.function.name ∉ parameters := fun h => (haround _ h).2 rfl
    have hformals : ∀ x ∈ r.formals, x ∉ parameters := fun x hx h => (haround x h).1.1 hx
    have hfresh' : ∀ x ∈ r.formals.map r.fresh, x ∉ parameters := fun x hx h =>
      (haround x h).1.2 hx
    rw [declaration_abstracted hfunction hformals, declaration_abstracted hfunction hfresh']
    refine .declaration (htarget.abstracted_same parameters) (hbody.abstracted ?_ ?_) ?_
    · intro n _
      by_cases hn : n ∈ parameters
      · rw [Renaming.name_of_foreign (haround n hn).1]
      · rw [List.idxOf?_eq_none_iff.2 hn, List.idxOf?_eq_none_iff, Renaming.name]
        split
        · rename_i hmem
          exact hfresh' _ (List.mem_map_of_mem hmem)
        · exact hn
    · exact fun n _ _ => rfl
    · exact fun x hx hmem => hfresh x hx ((mem_atoms_abstracted parameters body).1 hmem).1
  | @inside before before' after after' t u hopens _ hbefore hafter ih =>
    have hall : ∀ {l l' : List Sexp}, List.Forall₂ (Alike id r.Harmless P) l l' →
        List.Forall₂ (Alike id r.Harmless P) (l.map (·.abstracted parameters))
          (l'.map (·.abstracted parameters)) := by
      intro l l' h
      rw [List.forall₂_map_left_iff, List.forall₂_map_right_iff]
      exact h.imp fun _ _ h => h.abstracted_same parameters
    rw [Sexp.abstracted, Sexp.abstracted, abstractedAll_eq_map, abstractedAll_eq_map,
      List.map_append, List.map_append, List.map_cons, List.map_cons]
    exact .inside (hopens.abstracted parameters) ih (hall hbefore) (hall hafter)

/-- **A call of a declaration around evaluates trees that differ in the same way.** -/
theorem filled (h : Renamed r P t u) {args args' : List Value}
    (hargs : List.Forall₂ (Value.Alike r.Harmless P) args args') :
    Renamed r P (t.filled args) (u.filled args') := by
  have hharmless : ∀ n, .symbol n ∈ args → r.Harmless n := fun n hn =>
    Value.Alike.names_of_mem hargs n (.inl hn)
  induction h with
  | @declaration target target' body body' htarget hbody hfresh =>
    rw [declaration_filled, declaration_filled]
    refine .declaration (htarget.filled (fun _ _ => rfl) hargs)
      (hbody.filled (fun n hn => Renaming.name_of_foreign hn.1) hargs) fun x hx hmem => ?_
    rcases mem_atoms_filled args body hmem with hmem | hmem
    · exact hfresh x hx hmem
    · exact (hharmless _ hmem).1.2 (List.mem_map_of_mem hx)
  | @inside before before' after after' t u hopens _ hbefore hafter ih =>
    have hall : ∀ {l l' : List Sexp}, List.Forall₂ (Alike id r.Harmless P) l l' →
        List.Forall₂ (Alike id r.Harmless P) (l.map (·.filled args)) (l'.map (·.filled args')) := by
      intro l l' h
      rw [List.forall₂_map_left_iff, List.forall₂_map_right_iff]
      exact h.imp fun _ _ h => h.filled (fun _ _ => rfl) hargs
    rw [Sexp.filled, Sexp.filled, filledAll_eq_map, filledAll_eq_map, List.map_append,
      List.map_append, List.map_cons, List.map_cons]
    have hfilled := hopens.filled (fun n hn => (hharmless n hn).2)
      fun n hn => (hharmless n hn).around
    exact .inside hfilled ih (hall hbefore) (hall hafter)

/-- Such trees are expressions, and no forms by their heads. -/
theorem form?_eq_none (h : Renamed r P t u) : t.form? = none ∧ u.form? = none := by
  cases h with
  | declaration htarget hbody hfresh => exact ⟨rfl, rfl⟩
  | inside hopens h hbefore hafter => exact ⟨rfl, rfl⟩

end Sexp.Renamed

/-! ## Procedures -/

/-- Procedures that were declared together, and whose templates are alike or differ in the formals
of a declaration inside. -/
inductive Procedure.Renamed (r : Renaming) : Procedure → Procedure → Prop
  | primitive (p : Primitive) : Renamed r (.primitive p) (.primitive p)
  | alike {i : Nat} {name : String} {parameters parameters' : List String}
    {template template' : Sexp} (length : parameters.length = parameters'.length)
    (h : Sexp.Alike id r.Harmless (Renamed r) template template') :
    Renamed r (.declared i name parameters template) (.declared i name parameters' template')
  | renamed {i : Nat} {name : String} {parameters parameters' : List String}
    {template template' : Sexp} (length : parameters.length = parameters'.length)
    (h : Sexp.Renamed r (Renamed r) template template') :
    Renamed r (.declared i name parameters template) (.declared i name parameters' template')

theorem Procedure.Renamed.faithful (r : Renaming) : Procedure.Faithful (Procedure.Renamed r) where
  primitive := .primitive
  name h := by cases h <;> rfl
  equal h h' := by cases h <;> cases h' <;> rfl

/-! ## Places -/

/-- A place in a tree: the tree itself, or one inside an item of an expression. -/
inductive Place where
  | whole
  | inside (before : List Sexp) (place : Place) (after : List Sexp)

namespace Place

/-- The tree with another one in this place. -/
def fill (t : Sexp) : Place → Sexp
  | whole => t
  | inside before place after => .expression (before ++ place.fill t :: after)

/-- A tree in this place is evaluated when all around it is, or is the body of a declaration, and
the parameters of the declarations around it satisfy `avoids`. -/
def Opens (avoids : String → Prop) : Place → Prop
  | whole => True
  | inside before place after => Sexp.Opens avoids before after ∧ place.Opens avoids

theorem Opens.imp {avoids avoids' : String → Prop} {t : Sexp} : ∀ {place : Place},
    place.Opens avoids → (∀ n, .symbol n ∈ (place.fill t).atoms → avoids n → avoids' n) →
      place.Opens avoids'
  | whole, _, _ => True.intro
  | inside _ _ _, h, himp =>
    ⟨h.1.imp fun u hu n hn => himp n (Sexp.mem_atomsAll.2 ⟨u, List.mem_append_left _ hu, hn⟩),
      Opens.imp (t := t) h.2 fun n hn => himp n (Sexp.mem_atomsAll.2 ⟨_, by simp, hn⟩)⟩

/-- **A tree and the same tree with a declaration inside renamed** are related by the renaming. -/
theorem renamed {r : Renaming} {P : Procedure → Procedure → Prop} {target body : Sexp} :
    ∀ {place : Place}, place.Opens r.Around →
      (∀ x ∈ r.formals,
        .symbol (r.fresh x) ∉ (place.fill (.declaration target r.formals body)).atoms) →
      (∀ v ∈ (place.fill (.declaration target r.formals body)).atoms,
        (∀ n, v ≠ .symbol n) → Value.Alike r.Harmless P v v) →
      Sexp.Renamed r P (place.fill (.declaration target r.formals body))
        (place.fill (.declaration target (r.formals.map r.fresh) (body.renamed r.name)))
  | whole, _, hfresh, hatoms => by
    have hmem : ∀ {v : Value} {t : Sexp}, v ∈ t.atoms → t = target ∨ t = body →
        v ∈ (Sexp.declaration target r.formals body).atoms := by
      intro v t hv ht
      refine Sexp.mem_atomsAll.2 ⟨t, ?_, hv⟩
      rcases ht with rfl | rfl <;> simp
    refine .declaration (.refl target fun v hv => hatoms v (hmem hv (.inl rfl)))
      (.renamed r.name body fun v hv => hatoms v (hmem hv (.inr rfl))) fun x hx h => ?_
    exact hfresh x hx (hmem h (.inr rfl))
  | inside before place after, hopens, hfresh, hatoms => by
    have hmem : ∀ {v : Value} {t : Sexp},
        t ∈ before ++ place.fill (.declaration target r.formals body) :: after → v ∈ t.atoms →
          v ∈ ((inside before place after).fill (.declaration target r.formals body)).atoms :=
      fun ht hv => Sexp.mem_atomsAll.2 ⟨_, ht, hv⟩
    have hsame : ∀ {l : List Sexp}, (∀ t ∈ l,
        t ∈ before ++ place.fill (.declaration target r.formals body) :: after) →
          List.Forall₂ (Sexp.Alike id r.Harmless P) l l :=
      fun hl => List.forall₂_same.2 fun t ht =>
        .refl t fun v hv => hatoms v (hmem (hl t ht) hv)
    refine .inside hopens.1 ?_ (hsame fun t ht => by simp [ht]) (hsame fun t ht => by simp [ht])
    exact renamed hopens.2 (fun x hx h => hfresh x hx (hmem (by simp) h))
      fun v hv => hatoms v (hmem (by simp) hv)

end Place

end MiniLisp
