import MiniLisp.Json.Scan

/-!
# Passing over a JSON value

A value whose content does not matter is passed over, but has to be JSON. The brackets that are
open are kept in a list, so that a value may be nested to any depth.
-/

namespace MiniLisp.Json

/-- An open bracket. -/
inductive Bracket where
  | array
  | object
deriving DecidableEq, Repr

/-- Where in a value the text has been read to. -/
inductive Place where
  /-- Right after an opening bracket. -/
  | opened
  /-- Before a value. -/
  | before
  /-- After a value. -/
  | after
deriving DecidableEq, Repr

/-- The text after a value that holds no other: a word, a number or a string. -/
def skipScalar : List Char → Except Fault (List Char)
  | [] => .error .truncated
  | 'n' :: rest => skipWord ['u', 'l', 'l'] rest
  | 't' :: rest => skipWord ['r', 'u', 'e'] rest
  | 'f' :: rest => skipWord ['a', 'l', 's', 'e'] rest
  | '"' :: rest => skipString rest
  | '-' :: rest => do return (← scanNumeral .malformed rest).2
  | c :: rest =>
    if c.isDigit then do return (← scanNumeral .malformed (c :: rest)).2
    else .error .malformed

/-- The text after the name of a member and the colon. -/
def skipName (text : List Char) : Except Fault (List Char) :=
  match skipSpace text with
  | [] => .error .truncated
  | '"' :: rest => do
    match skipSpace (← skipString rest) with
    | [] => throw .truncated
    | ':' :: rest => return rest
    | _ => throw .malformed
  | _ => .error .malformed

theorem length_lt_of_skipScalar {text rest : List Char} (h : skipScalar text = .ok rest) :
    rest.length < text.length := by
  unfold skipScalar at h
  split at h
  · cases h
  · exact Nat.lt_succ_of_le (length_le_of_skipWord h)
  · exact Nat.lt_succ_of_le (length_le_of_skipWord h)
  · exact Nat.lt_succ_of_le (length_le_of_skipWord h)
  · exact Nat.lt_succ_of_lt (length_lt_of_skipString h)
  · obtain ⟨r, hr, hp⟩ := bind_eq_ok.1 h
    exact pure_eq_ok.1 hp ▸ Nat.lt_succ_of_lt (length_lt_of_scanNumeral hr)
  · split at h
    · obtain ⟨r, hr, hp⟩ := bind_eq_ok.1 h
      exact pure_eq_ok.1 hp ▸ length_lt_of_scanNumeral hr
    · cases h

theorem length_lt_of_skipSpace {text rest : List Char} {c : Char}
    (h : skipSpace text = c :: rest) : rest.length < text.length := by
  have := length_skipSpace_le text
  rw [h] at this
  exact this

theorem length_lt_of_skipName {text rest : List Char} (h : skipName text = .ok rest) :
    rest.length < text.length := by
  unfold skipName at h
  split at h
  · cases h
  · rename_i quoted hq
    obtain ⟨after, ha, h⟩ := bind_eq_ok.1 h
    have h1 := length_lt_of_skipSpace hq
    have h2 := length_lt_of_skipString ha
    split at h
    · cases h
    · rename_i colon hc
      have h3 := length_lt_of_skipSpace hc
      cases h
      omega
    · cases h
  · cases h

/-- How many more steps than characters may be needed from a place. -/
def Place.rank : Place → Nat
  | .opened => 1
  | _ => 0

/-- The text after a value, or after the rest of one, inside the brackets that are open. -/
def skipFrom (brackets : List Bracket) (place : Place) (text : List Char) :
    Except Fault (List Char) :=
  match place, brackets with
  | .before, brackets =>
    match hs : skipSpace text with
    | [] => .error .truncated
    | '[' :: rest =>
      have := length_lt_of_skipSpace hs
      skipFrom (.array :: brackets) .opened rest
    | '{' :: rest =>
      have := length_lt_of_skipSpace hs
      skipFrom (.object :: brackets) .opened rest
    | c :: rest =>
      match hr : skipScalar (c :: rest) with
      | .error fault => .error fault
      | .ok after =>
        have := length_lt_of_skipSpace hs
        have := length_lt_of_skipScalar hr
        skipFrom brackets .after after
  | .opened, [] => .ok text
  | .opened, .array :: outer =>
    match hs : skipSpace text with
    | ']' :: rest =>
      have := length_lt_of_skipSpace hs
      skipFrom outer .after rest
    | _ => skipFrom (.array :: outer) .before text
  | .opened, .object :: outer =>
    match hs : skipSpace text with
    | '}' :: rest =>
      have := length_lt_of_skipSpace hs
      skipFrom outer .after rest
    | _ =>
      match hr : skipName text with
      | .error fault => .error fault
      | .ok after =>
        have := length_lt_of_skipName hr
        skipFrom (.object :: outer) .before after
  | .after, [] => .ok text
  | .after, .array :: outer =>
    match hs : skipSpace text with
    | [] => .error .truncated
    | ']' :: rest =>
      have := length_lt_of_skipSpace hs
      skipFrom outer .after rest
    | ',' :: rest =>
      have := length_lt_of_skipSpace hs
      skipFrom (.array :: outer) .before rest
    | _ => .error .malformed
  | .after, .object :: outer =>
    match hs : skipSpace text with
    | [] => .error .truncated
    | '}' :: rest =>
      have := length_lt_of_skipSpace hs
      skipFrom outer .after rest
    | ',' :: rest =>
      match hr : skipName rest with
      | .error fault => .error fault
      | .ok after =>
        have := length_lt_of_skipSpace hs
        have := length_lt_of_skipName hr
        skipFrom (.object :: outer) .before after
    | _ => .error .malformed
termination_by 2 * text.length + place.rank
decreasing_by all_goals simp_all only [Place.rank, List.length_cons]; omega

theorem length_le_of_skipFrom {brackets : List Bracket} {place : Place} {text rest : List Char}
    (h : skipFrom brackets place text = .ok rest) : rest.length ≤ text.length := by
  fun_induction skipFrom brackets place text with
  | case1 | case4 | case10 | case13 | case16 | case17 | case19 | case21 => cases h
  | case6 | case12 =>
    cases h
    exact Nat.le_refl _
  | case5 =>
    rename_i ih
    have := ih h
    simp only [List.length_cons] at *
    omega
  | _ =>
    rename_i ih
    have := ih h
    omega

/-- The text after a value, with any space before it. -/
def skipValue (text : List Char) : Except Fault (List Char) :=
  skipFrom [] .before text

end MiniLisp.Json
