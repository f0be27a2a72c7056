import MiniLisp.Config
import MiniLisp.Json.Skip

/-!
# Reading a configuration

A configuration is a JSON object whose members `max_depth` and `echo_println` may each occur once;
other members are passed over. An array of the two values in this order will do as well. What is
left out keeps its standard setting.
-/

namespace MiniLisp.Config

open Json

/-! ## Single values -/

/-- The fault of a value that is not of the kind that is wanted: it is mismatched unless what can
be seen of it is no JSON. Arrays and objects are not looked into. -/
def faultOfOther : List Char → Fault
  | [] => .truncated
  | 'n' :: rest => outcome (skipWord ['u', 'l', 'l'] rest)
  | 't' :: rest => outcome (skipWord ['r', 'u', 'e'] rest)
  | 'f' :: rest => outcome (skipWord ['a', 'l', 's', 'e'] rest)
  | '"' :: rest => outcome (readString rest)
  | '[' :: _ | '{' :: _ => .mismatched
  | '-' :: rest => numeralOutcome rest
  | c :: rest => if c.isDigit then numeralOutcome (c :: rest) else .malformed
where
  outcome {α : Type} : Except Fault α → Fault
    | .ok _ => .mismatched
    | .error fault => fault
  numeralOutcome (text : List Char) : Fault :=
    match scanNumeral .truncated text with
    | .ok (n, _) => if n.isOutOfRange then .malformed else .mismatched
    | .error fault => fault

/-- Reads a natural number, with any space before it. -/
def readNatural (text : List Char) : Except Fault (Nat × List Char) :=
  match skipSpace text with
  | [] => .error .truncated
  | c :: rest =>
    if c.isDigit then
      match scanNumeral .truncated (c :: rest) with
      | .error fault => .error fault
      | .ok (n, after) =>
        match n.natural? with
        | some size => .ok (size, after)
        | none => .error (faultOfOther (c :: rest))
    else
      .error (faultOfOther (c :: rest))

/-- Reads a boolean, with any space before it. -/
def readBoolean (text : List Char) : Except Fault (Bool × List Char) :=
  match skipSpace text with
  | 't' :: rest => do return (true, ← skipWord ['r', 'u', 'e'] rest)
  | 'f' :: rest => do return (false, ← skipWord ['a', 'l', 's', 'e'] rest)
  | rest => .error (faultOfOther rest)

/-! ## Objects -/

/-- The settings that have been read so far. -/
structure Settings where
  maxDepth : Option Nat
  echo : Option Bool
deriving DecidableEq, Repr

/-- The configuration with these settings, and the standard ones in place of the others. -/
def ofSettings (s : Settings) : Config :=
  ⟨s.maxDepth.getD standard.maxDepth, s.echo.getD standard.echo⟩

/-- A member of the object, by its name. -/
inductive Member where
  | maxDepth
  | echo
  | other
deriving DecidableEq, Repr

def Member.ofName : String → Member
  | "max_depth" => .maxDepth
  | "echo_println" => .echo
  | _ => .other

/-- Whether a member has been read before and must not be read again. -/
def Settings.has (s : Settings) : Member → Bool
  | .maxDepth => s.maxDepth.isSome
  | .echo => s.echo.isSome
  | .other => false

/-- The text after a colon, with any space before it. -/
def skipColon (text : List Char) : Except Fault (List Char) :=
  match skipSpace text with
  | [] => .error .truncated
  | ':' :: rest => .ok rest
  | _ => .error .malformed

/-- Reads the value of a member, with any space before it. -/
def readSetting (s : Settings) (text : List Char) :
    Member → Except Fault (Settings × List Char)
  | .maxDepth => do
    let (n, rest) ← readNatural text
    return ({ s with maxDepth := some n }, rest)
  | .echo => do
    let (b, rest) ← readBoolean text
    return ({ s with echo := some b }, rest)
  | .other => do return (s, ← skipValue text)

/-- Reads a member after the opening quote of its name. -/
def readMember (s : Settings) (text : List Char) : Except Fault (Settings × List Char) := do
  let (name, rest) ← readString text
  let member := Member.ofName name
  if s.has member then throw .mismatched
  readSetting s (← skipColon rest) member

theorem length_le_of_readNatural {text : List Char} {r : Nat × List Char}
    (h : readNatural text = .ok r) : r.2.length ≤ text.length := by
  unfold readNatural at h
  split at h
  · cases h
  · rename_i c rest hs
    split at h
    · split at h
      · cases h
      · rename_i n after hn
        have h1 := length_lt_of_skipSpace hs
        have h2 := length_lt_of_scanNumeral hn
        simp only [List.length_cons] at h2
        split at h
        · cases h
          simp only
          omega
        · cases h
    · cases h

theorem length_le_of_readBoolean {text : List Char} {r : Bool × List Char}
    (h : readBoolean text = .ok r) : r.2.length ≤ text.length := by
  unfold readBoolean at h
  split at h
  · rename_i rest hs
    obtain ⟨after, ha, h⟩ := bind_eq_ok.1 h
    have h1 := length_lt_of_skipSpace hs
    have h2 := length_le_of_skipWord ha
    cases h
    simp only
    omega
  · rename_i rest hs
    obtain ⟨after, ha, h⟩ := bind_eq_ok.1 h
    have h1 := length_lt_of_skipSpace hs
    have h2 := length_le_of_skipWord ha
    cases h
    simp only
    omega
  · cases h

theorem length_lt_of_skipColon {text rest : List Char} (h : skipColon text = .ok rest) :
    rest.length < text.length := by
  unfold skipColon at h
  split at h
  · cases h
  · rename_i after hs
    cases h
    exact length_lt_of_skipSpace hs
  · cases h

theorem length_le_of_readSetting {s : Settings} {text : List Char} {m : Member}
    {r : Settings × List Char} (h : readSetting s text m = .ok r) :
    r.2.length ≤ text.length := by
  cases m with
  | maxDepth =>
    obtain ⟨p, hp, h⟩ := bind_eq_ok.1 h
    cases h
    exact length_le_of_readNatural hp
  | echo =>
    obtain ⟨p, hp, h⟩ := bind_eq_ok.1 h
    cases h
    exact length_le_of_readBoolean hp
  | other =>
    obtain ⟨rest, hr, h⟩ := bind_eq_ok.1 h
    cases h
    exact length_le_of_skipFrom hr

theorem length_lt_of_readMember {s : Settings} {text : List Char} {r : Settings × List Char}
    (h : readMember s text = .ok r) : r.2.length < text.length := by
  obtain ⟨p, hp, h⟩ := bind_eq_ok.1 h
  have h1 := length_lt_of_readString hp
  simp only at h
  split at h
  · cases h
  · obtain ⟨rest, hr, h⟩ := bind_eq_ok.1 h
    have h2 := length_lt_of_skipColon hr
    have h3 := length_le_of_readSetting h
    omega

/-- Reads the members of an object, after the opening quote of the first name, and the closing
brace. -/
def readMembers (s : Settings) (text : List Char) : Except Fault (Settings × List Char) :=
  match hm : readMember s text with
  | .error fault => .error fault
  | .ok (s, after) =>
    match hs : skipSpace after with
    | [] => .error .truncated
    | '}' :: rest => .ok (s, rest)
    | ',' :: rest =>
      match hq : skipSpace rest with
      | [] => .error .truncated
      | '"' :: name =>
        have : after.length < text.length := length_lt_of_readMember hm
        have := length_lt_of_skipSpace hs
        have := length_lt_of_skipSpace hq
        readMembers s name
      | _ => .error .malformed
    | _ => .error .malformed
termination_by text.length

/-- Reads an object after its opening brace. -/
def readObject (text : List Char) : Except Fault (Settings × List Char) :=
  match skipSpace text with
  | [] => .error .truncated
  | '}' :: rest => .ok (⟨none, none⟩, rest)
  | '"' :: rest => readMembers ⟨none, none⟩ rest
  | _ => .error .malformed

/-! ## Arrays -/

/-- Goes to the next item of an array: the text before it, or nothing where the array ends, whose
bracket is left. `isFirst` says that no item came before. -/
def nextItem (isFirst : Bool) (text : List Char) : Except Fault (Option (List Char)) :=
  match skipSpace text with
  | [] => .error .truncated
  | ']' :: _ => .ok none
  | ',' :: rest =>
    if isFirst then .ok (some (',' :: rest))
    else
      match skipSpace rest with
      | [] => .error .truncated
      | ']' :: _ => .error .malformed
      | item => .ok (some item)
  | item => if isFirst then .ok (some item) else .error .malformed

/-- The text after the closing bracket of an array. -/
def skipArrayEnd (text : List Char) : Except Fault (List Char) :=
  match skipSpace text with
  | [] => .error .truncated
  | ']' :: rest => .ok rest
  | _ => .error .malformed

/-- Reads an array of at most the two settings after its opening bracket. -/
def readArray (text : List Char) : Except Fault (Settings × List Char) := do
  match ← nextItem true text with
  | none => return (⟨none, none⟩, ← skipArrayEnd text)
  | some item =>
    let (n, text) ← readNatural item
    match ← nextItem false text with
    | none => return (⟨some n, none⟩, ← skipArrayEnd text)
    | some item =>
      let (b, text) ← readBoolean item
      return (⟨some n, some b⟩, ← skipArrayEnd text)

/-! ## Whole texts -/

/-- Reads the settings that a text starts with. -/
def readSettings (text : List Char) : Except Fault (Settings × List Char) :=
  match skipSpace text with
  | '{' :: rest => readObject rest
  | '[' :: rest => readArray rest
  | rest => .error (faultOfOther rest)

/-- Reads a configuration that takes up a whole text. -/
def ofJson (text : String) : Except Fault Config := do
  let (s, rest) ← readSettings text.toList
  match skipSpace rest with
  | [] => return ofSettings s
  | _ => throw .malformed

end MiniLisp.Config
