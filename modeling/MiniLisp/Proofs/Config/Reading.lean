import MiniLisp.Config.Reader
import MiniLisp.Proofs.Json.Skip

/-!
# Configurations as objects

An object is read to the settings that its members give, however it is laid out and whatever other
members it has (`ofJson_object`). What one member makes of the settings that were read before it is
`Sets`, what all of them make of none is `SetsAll`, and the reader follows both
(`readMember_sets`, `readMembers_body`). Which settings a list of members gives, without regard to
their order, is `Gives`.
-/

namespace MiniLisp.Config

open Json

variable {rest : List Char}

/-! ## Single values -/

/-- The words for the truth values. -/
inductive Truth : List Char → Bool → Prop
  | true : Truth "true".toList true
  | false : Truth "false".toList false

theorem readNatural_whole {before text : List Char} {n : Nat} (h : Whole text n) (hn : n < UInt64.size)
    (hbefore : IsSpace before) (hrest : Ends rest) :
    readNatural (before ++ (text ++ rest)) = .ok (n, rest) := by
  have hscan := scanNumeral_whole .truncated h hrest
  have hsize : Numeral.natural? ⟨text, [], none⟩ = some n := by
    rw [Numeral.natural?, h.ofDigitChars]
    exact if_pos ⟨rfl, rfl, hn⟩
  obtain ⟨ne, hdigits⟩ := h.isDigit
  obtain ⟨c, text, rfl⟩ := List.exists_cons_of_ne_nil ne
  have hc := hdigits c List.mem_cons_self
  rw [List.cons_append] at hscan ⊢
  rw [readNatural, skipSpace_append hbefore,
    skipSpace_cons (isSpace_of_not_mem_marks (not_mem_marks_of_isDigit hc))]
  simp [hc, hscan, hsize]

theorem readBoolean_truth {before text : List Char} {b : Bool} (h : Truth text b)
    (hbefore : IsSpace before) : readBoolean (before ++ (text ++ rest)) = .ok (b, rest) := by
  rw [readBoolean, skipSpace_append hbefore]
  cases h with
  | true => rfl
  | false => rfl

/-! ## Members -/

/-- What a member of an object makes of the settings so far. -/
inductive Sets : Settings → String × List Char → Settings → Prop
  | maxDepth {s value n} (h : Whole value n) (hn : n < UInt64.size) (hs : s.maxDepth = none) :
    Sets s ("max_depth", value) { s with maxDepth := some n }
  | echo {s value b} (h : Truth value b) (hs : s.echo = none) :
    Sets s ("echo_println", value) { s with echo := some b }
  | other {s name value} (hdepth : name ≠ "max_depth") (hecho : name ≠ "echo_println") :
    Sets s (name, value) s

theorem Member.ofName_other {name : String} (hdepth : name ≠ "max_depth")
    (hecho : name ≠ "echo_println") : Member.ofName name = .other := by
  unfold Member.ofName
  split <;> simp_all

theorem Sets.has {s t : Settings} {member : String × List Char} (h : Sets s member t) :
    s.has (.ofName member.1) = false := by
  cases h with
  | maxDepth h hn hs => exact congrArg Option.isSome hs
  | echo h hs => exact congrArg Option.isSome hs
  | other hdepth hecho =>
    rw [Member.ofName_other hdepth hecho]
    rfl

theorem readSetting_sets {s t : Settings} {member : String × List Char} (h : Sets s member t)
    (hvalue : IsValue member.2) {before : List Char} (hbefore : IsSpace before)
    (hrest : Ends rest) :
    readSetting s (before ++ (member.2 ++ rest)) (.ofName member.1) = .ok (t, rest) := by
  cases h with
  | maxDepth h hn hs => exact bind_eq_ok.2 ⟨_, readNatural_whole h hn hbefore hrest, rfl⟩
  | echo h hs => exact bind_eq_ok.2 ⟨_, readBoolean_truth h hbefore, rfl⟩
  | other hdepth hecho =>
    rw [Member.ofName_other hdepth hecho]
    exact bind_eq_ok.2 ⟨_, hvalue.skipValue hbefore hrest, rfl⟩

theorem skipColon_append {space : List Char} (h : IsSpace space) :
    skipColon (space ++ ':' :: rest) = .ok rest := by
  rw [skipColon, skipSpace_append h]
  rfl

theorem readMember_sets {entry : Entry} {member : String × List Char} {s t : Settings}
    (hmember : entry.Denotes member) (h : Sets s member t) (hrest : Ends rest) :
    readMember s (entry.unquoted ++ rest) = .ok (t, entry.value.after ++ rest) := by
  obtain ⟨hname, hcontent, hvalue⟩ := hmember
  have hset := readSetting_sets h hvalue entry.value.space_before
    (ends_of_isSpace entry.value.space_after hrest)
  simp only [Entry.unquoted, Spaced.text, hcontent, List.append_assoc, List.cons_append]
  refine bind_eq_ok.2 ⟨_, readString_names hname, ?_⟩
  dsimp only
  rw [h.has]
  exact bind_eq_ok.2 ⟨_, skipColon_append entry.name.space_after, hset⟩

/-- What the members of an object make of the settings so far. -/
inductive SetsAll : Settings → List (String × List Char) → Settings → Prop
  | nil {s} : SetsAll s [] s
  | cons {s t u member members} (h : Sets s member t) (hmembers : SetsAll t members u) :
    SetsAll s (member :: members) u

theorem readMembers_last {s t : Settings} {text after : List Char}
    (hmember : readMember s text = .ok (t, after)) (hafter : skipSpace after = '}' :: rest) :
    readMembers s text = .ok (t, rest) := by
  rw [readMembers]
  split
  · rename_i heq
    cases hmember.symm.trans heq
  · rename_i heq
    cases hmember.symm.trans heq
    split <;> simp_all

theorem readMembers_next {s t : Settings} {text after name : List Char}
    (hmember : readMember s text = .ok (t, after)) (hafter : skipSpace after = ',' :: rest)
    (hrest : skipSpace rest = '"' :: name) : readMembers s text = readMembers t name := by
  conv_lhs => rw [readMembers]
  split
  · rename_i heq
    cases hmember.symm.trans heq
  · rename_i heq
    cases hmember.symm.trans heq
    split
    · simp_all
    · simp_all
    · rename_i heq
      cases hafter.symm.trans heq
      split <;> simp_all
    · simp_all

/-- The members of an object are read one by one. The reader of one member starts after the opening
quote of its name, so the text of the others is given from there on. -/
theorem readMembers_body {entries : List Entry} {members : List (String × List Char)}
    {body : List Char} (h : Body Entry.text entries body) (ne : entries ≠ [])
    (hmembers : List.Forall₂ Entry.Denotes entries members) {s t : Settings}
    (hsets : SetsAll s members t) : ∃ text,
      skipSpace (body ++ '}' :: rest) = '"' :: text ∧ readMembers s text = .ok (t, rest) := by
  induction h generalizing members s with
  | empty => exact absurd rfl ne
  | @last entry =>
    obtain _ | ⟨hmember, ⟨⟩⟩ := hmembers
    obtain _ | ⟨h, ⟨⟩⟩ := hsets
    refine ⟨_, skipSpace_entry entry _, ?_⟩
    refine readMembers_last (readMember_sets hmember h (ends_closing .object)) ?_
    exact skipSpace_append entry.value.space_after _
  | @cons entry entries body hne h ih =>
    obtain _ | ⟨hmember, hmembers⟩ := hmembers
    obtain _ | ⟨h, hsets⟩ := hsets
    obtain ⟨text, hspace, hread⟩ := ih hne hmembers hsets
    refine ⟨entry.unquoted ++ ',' :: (body ++ '}' :: rest), ?_, ?_⟩
    · rw [List.append_assoc, List.cons_append, skipSpace_entry]
    · rw [readMembers_next (readMember_sets hmember h ends_comma)
        (skipSpace_append entry.value.space_after _) hspace, hread]

/-- The members of an object are read, of which there may be none. -/
theorem readObject_body {entries : List Entry} {members : List (String × List Char)}
    {body : List Char} (h : Body Entry.text entries body)
    (hmembers : List.Forall₂ Entry.Denotes entries members) {t : Settings}
    (hsets : SetsAll ⟨none, none⟩ members t) :
    readObject (body ++ '}' :: rest) = .ok (t, rest) := by
  by_cases ne : entries = []
  · subst ne
    cases hmembers
    cases hsets
    cases h with
    | empty h =>
      rw [readObject, skipSpace_append h]
      rfl
  · obtain ⟨text, hspace, hread⟩ := readMembers_body h ne hmembers hsets
    rw [readObject, hspace]
    exact hread

theorem ofJson_setsAll {text : String} {members : List (String × List Char)} {t : Settings}
    (h : Object members text.toList) (hsets : SetsAll ⟨none, none⟩ members t) :
    ofJson text = .ok (ofSettings t) := by
  rw [ofJson]
  generalize text.toList = chars at h
  obtain ⟨hbody, hmembers, hbefore, hafter⟩ := h
  rename_i entries body before after
  have hread : readSettings (before ++ '{' :: (body ++ '}' :: after)) = .ok (t, after) := by
    rw [readSettings, skipSpace_append hbefore]
    exact readObject_body hbody hmembers hsets
  have hend : skipSpace after = [] := by
    have happend := skipSpace_append hafter []
    rwa [List.append_nil] at happend
  simp [hread, hend, bind, Except.bind, pure, Except.pure]

/-! ## Objects -/

/-- The values of the members with a name. -/
def valuesOf (name : String) (members : List (String × List Char)) : List (List Char) :=
  (members.filter (·.1 = name)).map (·.2)

/-- The members of an object give these settings: each at most once, among any others. -/
structure Gives (members : List (String × List Char)) (maxDepth : Option Nat)
    (echo : Option Bool) : Prop where
  maxDepth : List.Forall₂ (fun value n => Whole value n ∧ n < UInt64.size)
    (valuesOf "max_depth" members) maxDepth.toList
  echo : List.Forall₂ Truth (valuesOf "echo_println" members) echo.toList

variable {members : List (String × List Char)} {maxDepth : Option Nat} {echo : Option Bool}

theorem valuesOf_cons_of_eq {name : String} {value : List Char} :
    valuesOf name ((name, value) :: members) = value :: valuesOf name members := by
  simp [valuesOf]

theorem valuesOf_cons_of_ne {name other : String} {value : List Char} (h : other ≠ name) :
    valuesOf name ((other, value) :: members) = valuesOf name members := by
  simp [valuesOf, h]

theorem Gives.of_nil (h : Gives [] maxDepth echo) : maxDepth = none ∧ echo = none :=
  ⟨Option.toList_eq_nil_iff.1 (List.forall₂_nil_left_iff.1 h.maxDepth),
    Option.toList_eq_nil_iff.1 (List.forall₂_nil_left_iff.1 h.echo)⟩

/-- The first of the members gives one of the settings, which the others give no more, or none. -/
theorem Gives.of_cons {name : String} {value : List Char}
    (h : Gives ((name, value) :: members) maxDepth echo) :
    (∃ n, name = "max_depth" ∧ maxDepth = some n ∧ (Whole value n ∧ n < UInt64.size) ∧
      Gives members none echo) ∨
    (∃ b, name = "echo_println" ∧ echo = some b ∧ Truth value b ∧ Gives members maxDepth none) ∨
    (name ≠ "max_depth" ∧ name ≠ "echo_println" ∧ Gives members maxDepth echo) := by
  obtain ⟨hdepths, hechoes⟩ := h
  by_cases hdepth : name = "max_depth"
  · subst hdepth
    rw [valuesOf_cons_of_eq] at hdepths
    rw [valuesOf_cons_of_ne (by decide)] at hechoes
    cases maxDepth with
    | none => cases hdepths
    | some n =>
      obtain _ | ⟨hvalue, hdepths⟩ := hdepths
      exact .inl ⟨n, rfl, rfl, hvalue, hdepths, hechoes⟩
  by_cases hecho : name = "echo_println"
  · subst hecho
    rw [valuesOf_cons_of_ne hdepth] at hdepths
    rw [valuesOf_cons_of_eq] at hechoes
    cases echo with
    | none => cases hechoes
    | some b =>
      obtain _ | ⟨hvalue, hechoes⟩ := hechoes
      exact .inr (.inl ⟨b, rfl, rfl, hvalue, hdepths, hechoes⟩)
  · rw [valuesOf_cons_of_ne hdepth] at hdepths
    rw [valuesOf_cons_of_ne hecho] at hechoes
    exact .inr (.inr ⟨hdepth, hecho, hdepths, hechoes⟩)

/-- Members that give some settings add them to those that were read before. -/
theorem Gives.setsAll (h : Gives members maxDepth echo) {s : Settings}
    (hdepth : s.maxDepth = none ∨ maxDepth = none) (hecho : s.echo = none ∨ echo = none) :
    SetsAll s members ⟨maxDepth.or s.maxDepth, echo.or s.echo⟩ := by
  -- No setting is both read before and still to come: once a member has set it, the members after
  -- it give it no more.
  induction members generalizing maxDepth echo s with
  | nil =>
    obtain ⟨rfl, rfl⟩ := h.of_nil
    exact .nil
  | cons member members ih =>
    obtain ⟨name, value⟩ := member
    obtain ⟨n, rfl, rfl, ⟨hvalue, hn⟩, hrest⟩ | ⟨b, rfl, rfl, hvalue, hrest⟩ |
      ⟨hname, hname', hrest⟩ := h.of_cons
    · have hs : s.maxDepth = none := hdepth.resolve_right (Option.some_ne_none n)
      exact .cons (.maxDepth hvalue hn hs) (ih hrest (.inr rfl) hecho)
    · have hs : s.echo = none := hecho.resolve_right (Option.some_ne_none b)
      exact .cons (.echo hvalue hs) (ih hrest hdepth (.inr rfl))
    · exact .cons (.other hname hname') (ih hrest hdepth hecho)

/-- An object is read to the settings that its members give. -/
theorem ofJson_of_gives {text : String} (h : Object members text.toList)
    (hgives : Gives members maxDepth echo) :
    ofJson text = .ok ⟨maxDepth.getD standard.maxDepth, echo.getD standard.echo⟩ := by
  rw [ofJson_setsAll h (hgives.setsAll (.inl rfl) (.inl rfl)), ofSettings, Option.or_none,
    Option.or_none]

/-! ## Other members -/

/-- Whether a member is one of the settings. -/
def IsSetting (member : String × List Char) : Prop :=
  member.1 = "max_depth" ∨ member.1 = "echo_println"

instance : DecidablePred IsSetting :=
  fun _ => inferInstanceAs (Decidable (_ ∨ _))

theorem valuesOf_filter {name : String} (h : name = "max_depth" ∨ name = "echo_println") :
    valuesOf name (members.filter IsSetting) = valuesOf name members := by
  rw [valuesOf, valuesOf, List.filter_filter]
  congr 1
  refine List.filter_congr fun member _ => ?_
  rw [← Bool.decide_and, decide_eq_decide, and_iff_left_iff_imp]
  rintro rfl
  exact h

theorem forall₂_toList_of_perm {α β : Type} {R : α → β → Prop} {xs ys : List α} {y : Option β}
    (h : List.Forall₂ R xs y.toList) (hperm : ys.Perm xs) : List.Forall₂ R ys y.toList := by
  cases y with
  | none =>
    cases h
    rw [hperm.eq_nil]
    exact .nil
  | some y =>
    obtain _ | ⟨hx, ⟨⟩⟩ := h
    rw [List.perm_singleton.1 hperm]
    exact .cons hx .nil

theorem Gives.of_perm {others : List (String × List Char)} (h : Gives members maxDepth echo)
    (hperm : (others.filter IsSetting).Perm (members.filter IsSetting)) :
    Gives others maxDepth echo := by
  have hvalues {name : String} (hname : name = "max_depth" ∨ name = "echo_println") :
      (valuesOf name others).Perm (valuesOf name members) := by
    rw [← @valuesOf_filter others name hname, ← @valuesOf_filter members name hname]
    exact (hperm.filter _).map _
  exact ⟨forall₂_toList_of_perm h.maxDepth (hvalues (.inl rfl)),
    forall₂_toList_of_perm h.echo (hvalues (.inr rfl))⟩

/-- **Any layout of an object is read** to the settings that its members give, and the standard ones
in place of those that are missing. Two objects whose settings are the same up to their order are
read alike: the other members may be any values under any names. -/
theorem ofJson_object {text : String} (h : Object members text.toList)
    (hgives : Gives members maxDepth echo) :
    ofJson text = .ok ⟨maxDepth.getD standard.maxDepth, echo.getD standard.echo⟩ ∧
    ∀ (other : String) (others : List (String × List Char)), Object others other.toList →
      (others.filter IsSetting).Perm (members.filter IsSetting) → ofJson other = ofJson text := by
  refine ⟨ofJson_of_gives h hgives, fun other others hother hperm => ?_⟩
  rw [ofJson_of_gives h hgives, ofJson_of_gives hother (hgives.of_perm hperm)]

/-- A setting whose name is escaped, next to a member that nests one of that name beside a string of
brackets and quotes. -/
theorem ofJson_object_nested :
    ofJson "\x7b\"n\":\x7b\"max_depth\":[\"\\\"\x7d\"]\x7d,\"\\u006dax_depth\":16\x7d" =
      .ok ⟨16, true⟩ ∧
    ofJson "\x7b\"max_depth\":16\x7d" =
      ofJson "\x7b\"n\":\x7b\"max_depth\":[\"\\\"\x7d\"]\x7d,\"\\u006dax_depth\":16\x7d" := by
  let string := "\"\\\"\x7d\"".toList
  let array := "[\"\\\"\x7d\"]".toList
  let nested := "\x7b\"max_depth\":[\"\\\"\x7d\"]\x7d".toList
  let escaped := "\\u006dax_depth".toList
  let number := "16".toList
  have hstring : IsValue string :=
    .scalar (@Scalar.string ['\\', '"', '\x7d'] _
      (.cons (.escape (c := '"') (by decide)) (quoted_unescaped (by decide))))
  have harray : IsValue array :=
    @IsValue.array [.tight string] _ .last (List.forall_mem_singleton.2 hstring)
  have hnested : IsValue nested :=
    @IsValue.object [.tight "max_depth".toList array] _ .last
      (List.forall_mem_singleton.2 ⟨_, quoted_unescaped (by decide)⟩)
      (List.forall_mem_singleton.2 harray)
  have hwhole : Whole number 16 := @Whole.digits '1' ['6'] (by decide) (List.all_eq_true.1 rfl)
  have hnumber : IsValue number := .scalar (.positive (@Unsigned.mk _ _ _ [] _ hwhole .none .none))
  have hunit : Spells ['\\', 'u', '0', '0', '6', 'd'] (.unit 0x6d) :=
    .unit (@HexDigit.small 0 (by decide)) (@HexDigit.small 0 (by decide))
      (@HexDigit.small 6 (by decide)) (@HexDigit.small 13 (by decide))
  have hescaped : Names escaped "max_depth" :=
    ⟨_, .cons hunit (quoted_unescaped (by decide)), .unit (by decide) (decodes_chars _)⟩
  have hobject : Object [("n", nested), ("max_depth", number)]
      "\x7b\"n\":\x7b\"max_depth\":[\"\\\"\x7d\"]\x7d,\"\\u006dax_depth\":16\x7d".toList :=
    @Object.mk [.tight "n".toList nested, .tight escaped number] _ _ [] []
      (.cons (List.cons_ne_nil _ _) .last)
      (.cons ⟨names_unescaped (by decide), rfl, hnested⟩ (.cons ⟨hescaped, rfl, hnumber⟩ .nil))
      isSpace_nil isSpace_nil
  have hplain : Object [("max_depth", number)] "\x7b\"max_depth\":16\x7d".toList :=
    @Object.mk [.tight "max_depth".toList number] _ _ [] [] .last
      (.cons ⟨names_unescaped (by decide), rfl, hnumber⟩ .nil) isSpace_nil isSpace_nil
  have hgives : Gives [("n", nested), ("max_depth", number)] (some 16) none :=
    ⟨.cons ⟨hwhole, by decide⟩ .nil, .nil⟩
  have hread := ofJson_object hobject hgives
  exact ⟨hread.1, hread.2 _ _ hplain (by decide)⟩

end MiniLisp.Config
