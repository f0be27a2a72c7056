import MiniLisp.Proofs.Run.Alike
import MiniLisp.Proofs.Tree.Renaming
import MiniLisp.Proofs.Value.Sound

/-!
# The formals of a declaration may be renamed

Calls substitute, so the formals of a procedure are no more than positions in its template. A
declaration whose formals are given fresh names, in the list of its parameters and throughout its
body, is as good as before: the program has the same result and output
(`Session.evaluateTree_renamed`).

There is no shadowing in the language, however. A declaration inside the body of another one is part
of that body like anything else, and when the parameters of the outer one are put into it, they are
also put for the formals of the inner one, if those go by the same names
(`Session.evaluateTree_renamed_shadowed`). So the names of the formals do matter where an enclosing
declaration has one of them.
-/

namespace MiniLisp

namespace Simulation

/-! ## Runs of a program and of the renamed one -/

/-- Runs of trees that are alike or differ in the formals of one declaration, on alike values and in
alike states. Faults are of the same kind and wording. -/
def renamed (r : Renaming) : Simulation where
  state := State.Alike (Value.Alike r.Harmless (Procedure.Renamed r))
  value := Value.Alike r.Harmless (Procedure.Renamed r)
  tree t u := Sexp.Alike id r.Harmless (Procedure.Renamed r) t u ∨
    Sexp.Renamed r (Procedure.Renamed r) t u
  fault e f := e.kind = f.kind ∧ e.detail = f.detail
  cut _ _ _ := False

section Renaming

variable {r : Renaming}

theorem declareAs_renamed (n : String) {parameters parameters' : List String}
    {template template' : Sexp} (length : parameters.length = parameters'.length)
    (h : (renamed r).tree template template') :
    (renamed r).Runs (fun _ _ => True) (declareAs n parameters template)
      (declareAs n parameters' template') := by
  intro s t hst
  rw [declareAs_apply, declareAs_apply, hst.declarations]
  have hvalue : (renamed r).value
      (.function (.declared s.declarations n parameters template))
      (.function (.declared s.declarations n parameters' template')) := by
    rcases h with h | h
    · exact .function (.alike length h)
    · exact .function (.renamed length h)
  exact .returned True.intro ⟨(hst.define n hvalue).environment, hst.output, rfl⟩

theorem callee_renamed {f g : Procedure} (h : Procedure.Renamed r f g) :
    (renamed r).Callee f g := by
  have hcount : ∀ {l k : List String} (name : String) (n : Nat), l.length = k.length →
      (renamed r).fault (.misuse (.argumentCount name l.length n))
        (.misuse (.argumentCount name k.length n)) := fun name n h => by rw [h]; exact ⟨rfl, rfl⟩
  cases h with
  | primitive p => exact .primitive p
  | alike length h =>
    exact .declared length (fun hargs _ => .inl (h.filled (fun _ _ => rfl) hargs))
      fun n => hcount _ n length
  | renamed length h =>
    exact .declared length (fun hargs _ => .inr (h.filled hargs)) fun n => hcount _ n length

theorem renamed_laws (r : Renaming) :
    AlikeLaws (renamed r).state r.Harmless (Procedure.Renamed r) (renamed r).tree where
  toAlikeStates := alikeStates (Procedure.Renamed.faithful r)
  tree_of_alike := .inl
  callee := callee_renamed
  declare n _ _ _ h := declareAs_renamed n rfl (.inl h)

/-! ### Expressions in step -/

/-- An expression with the renamed declaration inside it is evaluated in step. What stands in it is
alike, except for the one item with the declaration, which is no name and no list of parameters. -/
theorem inStep_inside {before before' after after' : List Sexp} {t u : Sexp}
    (hopens : Sexp.Opens r.Around before after) (h : Sexp.Renamed r (Procedure.Renamed r) t u)
    (hbefore : List.Forall₂ (Sexp.Alike id r.Harmless (Procedure.Renamed r)) before before')
    (hafter : List.Forall₂ (Sexp.Alike id r.Harmless (Procedure.Renamed r)) after after') :
    (renamed r).InStep (before ++ t :: after) (before' ++ u :: after') := by
  have htrees : ∀ {l l' : List Sexp},
      List.Forall₂ (Sexp.Alike id r.Harmless (Procedure.Renamed r)) l l' →
        List.Forall₂ (renamed r).tree (l ++ t :: after) (l' ++ u :: after') :=
    fun hl => List.rel_append (hl.imp fun _ _ h => .inl h)
      (.cons (.inr h) (hafter.imp fun _ _ h => .inl h))
  cases hopens with
  | head after =>
    cases hbefore
    exact .application h.form?_eq_none.1 h.form?_eq_none.2 (.inr h)
      (hafter.imp fun _ _ h => .inl h)
  | operand hform before after =>
    cases hbefore with
    | cons hhead hbefore =>
      exact .application hform (hhead.form?_eq ▸ hform) (.inl hhead) (htrees hbefore)
  | branch hform before after =>
    cases hbefore with
    | cons hhead hbefore => exact .conditional hform (hhead.form?_eq ▸ hform) (htrees hbefore)
  | assigned hform' hform target =>
    match hbefore, hafter with
    | .cons hhead (.cons htarget .nil), .nil =>
      exact .assignment _ hform' hform (hhead.form?_eq ▸ hform)
        ((renamed_laws r).targets htarget _) (.inr h)
  | body hform target hformals =>
    match hbefore, hafter with
    | .cons hhead (.cons htarget (.cons hparameters .nil)), .nil =>
      refine .declaration hform (hhead.form?_eq ▸ hform)
        ((renamed_laws r).declaration htarget ?_)
      refine (hparameters.expectParameters_agrees (Procedure.Renamed.faithful r)).imp ?_
      rintro l _ ⟨rfl, hl⟩
      exact fun n => declareAs_renamed n rfl (.inr (h.abstracted fun n hn => hformals n (hl n hn)))
  | @refused head form hform before after hcount =>
    cases hbefore with
    | @cons _ head' _ before' hhead hbefore =>
      have hform' : head'.form? = some form := hhead.form?_eq ▸ hform
      have hlength : (before' ++ u :: after').length = (before ++ t :: after).length := by
        simp [hbefore.length_eq, hafter.length_eq]
      have hcount' : (before ++ t :: after).length ≠ form.arity := by
        rw [List.length_append, List.length_cons]
        omega
      cases form with
      | conditional => exact .conditional hform hform' (htrees hbefore)
      | define => exact .refusal .define (.inl rfl) hform hform' hcount' hlength
      | set => exact .refusal .set (.inr rfl) hform hform' hcount' hlength
      | function =>
        exact .declaration hform hform' (declaration_of_length hcount' hlength)

theorem inStep_of_renamed {t u : Sexp} (h : Sexp.Renamed r (Procedure.Renamed r) t u) :
    ∃ items items', t = .expression items ∧ u = .expression items' ∧
      (renamed r).InStep items items' := by
  cases h with
  | declaration htarget hbody hfresh =>
    refine ⟨_, _, rfl, rfl, .declaration rfl rfl ((renamed_laws r).declaration htarget ?_)⟩
    rw [expectParameters_formals, expectParameters_formals]
    exact .ok fun n =>
      declareAs_renamed n (by simp) (.inl (hbody.abstracted_formals hfresh))
  | inside hopens h hbefore hafter =>
    exact ⟨_, _, rfl, rfl, inStep_inside hopens h hbefore hafter⟩

/-! ### The laws -/

/-- **A program and the renamed one** satisfy the laws of a simulation. -/
theorem renamed_lawful (r : Renaming) (config : Config) :
    (renamed r).Lawful config config := by
  refine (renamed_laws r).lawful config (fun h => ?_) (fun h => ?_) fun h => ?_
  · rcases h with h | h
    · exact h
    · cases h
  · rcases h with h | h
    · cases h with
      | expression length h =>
        exact ⟨_, rfl,
          (renamed_laws r).inStep (Sexp.Alike.expression_iff.1 (.expression length h))⟩
    · obtain ⟨items, items', hitems, rfl, hstep⟩ := inStep_of_renamed h
      cases hitems
      exact ⟨_, rfl, hstep⟩
  · rcases h with h | h
    · cases h with
      | placeholder index => rfl
    · cases h

theorem evaluate_renamed (r : Renaming) (config : Config) {t u : Sexp}
    (h : Sexp.Renamed r (Procedure.Renamed r) t u) :
    (renamed r).Runs (renamed r).value (evaluate config config.maxDepth t)
      (evaluate config config.maxDepth u) :=
  (renamed_lawful r config).evaluate 0 (fun _ _ _ => .throw ⟨rfl, rfl⟩) config.maxDepth (.inr h)

end Renaming

end Simulation

/-! ## Sessions -/

/-- Two results between which a renaming makes no difference: values that are alike and have the
same text, or faults of the same kind and wording. -/
inductive Renaming.SameResult (r : Renaming) : Except Fault Value → Except Fault Value → Prop
  | ok {v w : Value} (alike : Value.Alike r.Harmless (Procedure.Renamed r) v w)
    (text : v.text = w.text) : SameResult r (.ok v) (.ok w)
  | error {e f : Fault} (kind : e.kind = f.kind) (message : e.message = f.message) :
    SameResult r (.error e) (.error f)

/-- A sound value has no symbols in it. -/
theorem Value.Sound.symbolsIn {names : String → Prop} {v : Value} (h : v.Sound) :
    v.SymbolsIn names := by
  induction h with
  | number x => exact .number x
  | boolean b => exact .boolean b
  | none => exact .none
  | string _ => exact .string _
  | list _ ih => exact .list ih
  | primitive p => exact .primitive p
  | declared _ _ _ ih => exact .declared ih

namespace Session

/-- **The formals of a declaration may be renamed** to names that the program does not spell. The
declaration may be anywhere in the program where trees are evaluated, also in the bodies of other
declarations, as long as none of those has one of its formals, or a formal by the name of
`function`. Values that are bound may hold symbols, but none of the formals or of the forms that
bind. -/
theorem evaluateTree_renamed (s : Session) (r : Renaming) (place : Place) (target body : Sexp)
    (hopens : place.Opens fun n => n ∉ r.formals ∧ n ≠ Form.function.name)
    (hfresh : ∀ x ∈ r.formals,
      .symbol (r.fresh x) ∉ (place.fill (.declaration target r.formals body)).atoms)
    (hatoms : ∀ v ∈ (place.fill (.declaration target r.formals body)).atoms,
      (∀ n, v ≠ .symbol n) → v.SymbolsIn r.Harmless)
    (henvironment : ∀ n v, s.environment.get? n = some v → v.SymbolsIn r.Harmless) :
    let plain := s.evaluateTree (place.fill (.declaration target r.formals body))
    let renamed := s.evaluateTree
      (place.fill (.declaration target (r.formals.map r.fresh) (body.renamed r.name)))
    r.SameResult plain.1 renamed.1 ∧ renamed.2.state.output = plain.2.state.output := by
  intro plain renamed
  have hself : ∀ {v : Value}, v.SymbolsIn r.Harmless →
      Value.Alike r.Harmless (Procedure.Renamed r) v v :=
    Value.SymbolsIn.alike (Procedure.Renamed.faithful r) fun h => .alike rfl h
  have haround : place.Opens r.Around := hopens.imp fun n hn h => by
    refine ⟨⟨h.1, fun hmem => ?_⟩, h.2⟩
    obtain ⟨x, hx, rfl⟩ := List.mem_map.1 hmem
    exact hfresh x hx hn
  have htrees := Place.renamed haround hfresh fun v hv hname => hself (hatoms v hv hname)
  have hstate : (Simulation.renamed r).state s.state s.state := by
    refine ⟨fun n => ?_, rfl, rfl⟩
    cases hv : s.state.environment.get? n with
    | none => exact .none
    | some v => exact .some (hself (henvironment n v hv))
  have key := Simulation.evaluate_renamed r s.config htrees s.state s.state hstate
  generalize hplain : evaluate s.config s.config.maxDepth _ s.state = x at key
  generalize hrenamed : evaluate s.config s.config.maxDepth _ s.state = y at key
  cases key with
  | returned hvw hst =>
    have hplain' : plain = _ := run_of_ok hplain
    have hrenamed' : renamed = _ := run_of_ok hrenamed
    rw [hplain', hrenamed']
    exact ⟨.ok hvw (hvw.text_eq (Procedure.Renamed.faithful r)), hst.output⟩
  | failed hef hst =>
    have hplain' : plain = _ := run_of_error hplain
    have hrenamed' : renamed = _ := run_of_error hrenamed
    rw [hplain', hrenamed']
    refine ⟨.error hef.1 ?_, hst.output⟩
    rw [Fault.message, Fault.message, hef.1, hef.2]
  | cut h => exact h.elim

/-- The formal of `g`, which is declared by a call of `f` and has the formal of `f` in its body. -/
theorem evaluateTree_renamed_nested :
    let s := Session.start .standard .unlimited
    let r : Renaming := ⟨["y"], fun _ => "z", by simp⟩
    let program (y : String) : Sexp := .expression
      [.atom (.symbol "begin"),
        .declaration (.atom (.symbol "f")) ["x"] (.declaration (.atom (.symbol "g")) [y]
          (.expression [.atom (.symbol "list"), .atom (.symbol "x"), .atom (.symbol y)])),
        .expression [.atom (.symbol "f"), .atom (.string "a")],
        .expression [.atom (.symbol "g"), .atom (.string "b")]]
    r.SameResult (s.evaluateTree (program "y")).1 (s.evaluateTree (program "z")).1 ∧
      (s.evaluateTree (program "z")).2.state.output =
        (s.evaluateTree (program "y")).2.state.output := by
  intro s r program
  have hopens : (Place.inside [.atom (.symbol "begin")]
      (.inside [.atom (.symbol "function"), .atom (.symbol "f"),
        .expression [.atom (.symbol "x")]] .whole [])
      [.expression [.atom (.symbol "f"), .atom (.string "a")],
        .expression [.atom (.symbol "g"), .atom (.string "b")]]).Opens
      fun n => n ∉ r.formals ∧ n ≠ Form.function.name := by
    refine ⟨.operand rfl _ _, .body rfl _ fun n hn => ?_, trivial⟩
    obtain rfl : n = "x" := by simpa [Sexp.atoms, Sexp.atomsAll] using hn
    exact ⟨by decide, by decide⟩
  refine evaluateTree_renamed s r _ (.atom (.symbol "g"))
    (.expression [.atom (.symbol "list"), .atom (.symbol "x"), .atom (.symbol "y")]) hopens ?_ ?_ ?_
  · intro x _
    simp [Place.fill, Sexp.declaration, Sexp.atoms, Sexp.atomsAll, r, Form.name]
  · intro v hv hname
    have hparse : parse "(begin (function f (x) (function g (y) (list x y))) (f 'a') (g 'b'))" =
        .ok (program "y") := rfl
    exact ((closed_of_parse hparse).atoms v hv hname).symbolsIn
  · exact Environment.forall_fresh .number .primitive

/-- Elsewhere the names of formals do matter, as these programs show when their formal `x` is
renamed. In the first one, the enclosing declaration has the same formal. In the second one, it has
a formal by the name of `function`, so that a call of it evaluates an application in place of the
declaration. In the third one, the declaration stands where a name is expected. The last two are run
where symbols are bound: a call of the enclosing declaration puts the symbol `x` into the scope of
the formal, or it makes an application that holds the declaration a definition, so that the
declaration comes to stand where a name is expected. -/
theorem evaluateTree_renamed_elsewhere :
    let s := Session.start .standard .unlimited
    let t : Session := ⟨s.config, { s.state with
      environment := (s.environment.define "s" (.symbol "x")).define "d" (.symbol "define") }⟩
    let name (n : String) : Sexp := .atom (.symbol n)
    let shadowed (x : String) : Sexp := .expression
      [name "begin", .declaration (name "f") ["x"] (.declaration (name "g") [x] (name x)),
        .expression [name "f", .atom (.string "a")], .expression [name "g", .atom (.string "b")]]
    let applied (x : String) : Sexp := .expression
      [name "begin", .declaration (name "f") ["function"] (.declaration (name "f") [x] (name x)),
        .expression [name "f", name "list"]]
    let refused (x : String) : Sexp := .expression
      [name "define", .declaration (name "g") [x] (name x), .atom .none]
    let captured (x : String) : Sexp := .expression
      [name "begin", .declaration (name "f") ["p"] (.declaration (name "g") [x] (name "p")),
        .expression [name "f", name "s"], .expression [name "g", .atom (.string "b")]]
    let converted (x : String) : Sexp := .expression
      [name "begin", .declaration (name "f") ["p"]
          (.expression [name "p", .declaration (name "g") [x] (name x), .atom .none]),
        .expression [name "f", name "d"]]
    (s.evaluateTree (shadowed "x")).1 =
        .error (.misuse (.notASymbol .function (.atom (.string "a")))) ∧
      (s.evaluateTree (shadowed "z")).1 = .ok (.string "b") ∧
      (s.evaluateTree (applied "x")).1 = .error (.undefined "x") ∧
      (s.evaluateTree (applied "z")).1 = .error (.undefined "z") ∧
      (s.evaluateTree (refused "x")).1.mapError Fault.message =
        .error "ArityOrTypeError: define expects a symbol, got (function g (x) x)" ∧
      (s.evaluateTree (refused "z")).1.mapError Fault.message =
        .error "ArityOrTypeError: define expects a symbol, got (function g (z) z)" ∧
      (t.evaluateTree (captured "x")).1 = .ok (.string "b") ∧
      (t.evaluateTree (captured "z")).1 = .error (.undefined "x") ∧
      (t.evaluateTree (converted "x")).1.mapError Fault.message =
        .error "ArityOrTypeError: define expects a symbol, got (function g (x) x)" ∧
      (t.evaluateTree (converted "z")).1.mapError Fault.message =
        .error "ArityOrTypeError: define expects a symbol, got (function g (z) z)" := by
  with_unfolding_all exact ⟨rfl, rfl, rfl, rfl, rfl, rfl, rfl, rfl, rfl, rfl⟩

end Session

end MiniLisp
