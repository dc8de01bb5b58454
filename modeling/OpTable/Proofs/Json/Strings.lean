import Mathlib.Data.List.Basic
import OpTable.Json
import OpTable.Json.Document

/-!
# Plain strings in documents

A string of characters that stand for themselves is written without escapes, and a document that is
this string is read as it (`read?_pretty_text`).
-/

namespace OpTable.Json.Document

open Text Text.Reader

theorem bind_eq_some {α β : Type} {r : Reader α} {a : α} {s rest : List Char}
    (h : r s = some (a, rest)) (f : α → Reader β) : (r >>= f) s = f a rest := by
  show StateT.bind r f s = _
  rw [StateT.bind, h]
  rfl

/-! ### Reading -/

theorem spaced_quoted {reader : Reader Datum} {datum : Datum} {s : List Char}
    (hread : reader ('"' :: s) = some (datum, [])) :
    spaced reader ('"' :: s) = some (datum, []) := by
  have hblanks : blanks ('"' :: s) = some ((), '"' :: s) := rfl
  rw [spaced, bind_eq_some hblanks, bind_eq_some hread]
  rfl

section Reading

variable {chars : List Char} (h : ∀ c ∈ chars, isPlain c = true)

include h

theorem stringBody_plain (n : Nat) : stringBody (n + 1) (chars ++ ['"']) = some (chars, []) := by
  have hplain : Reader.takeWhile isPlain (chars ++ ['"']) = some (chars, ['"']) := by
    rw [Reader.takeWhile, List.takeWhile_append_of_pos h, List.dropWhile_append_of_pos h,
      List.takeWhile_cons_of_neg (by decide), List.dropWhile_cons_of_neg (by decide),
      List.append_nil]
  rw [stringBody, bind_eq_some hplain]
  rfl

theorem string_plain : string ('"' :: (chars ++ ['"'])) = some (String.ofList chars, []) := by
  have hmark : Reader.expect '"' ('"' :: (chars ++ ['"'])) = some ((), chars ++ ['"']) := rfl
  have hget : (get : Reader (List Char)) (chars ++ ['"']) =
      some (chars ++ ['"'], chars ++ ['"']) := rfl
  rw [string, bind_eq_some hmark, bind_eq_some hget, bind_eq_some (stringBody_plain h _)]
  rfl

theorem scalar_plain :
    scalar ('"' :: (chars ++ ['"'])) = some (.text (String.ofList chars), []) := by
  have hnext : next? ('"' :: (chars ++ ['"'])) = some (some '"', '"' :: (chars ++ ['"'])) := rfl
  rw [scalar, bind_eq_some hnext]
  exact bind_eq_some (string_plain h) _

theorem read?_plain :
    read? (String.ofList ('"' :: (chars ++ ['"']))) = some (.text (String.ofList chars)) := by
  have hnext : next? ('"' :: (chars ++ ['"'])) = some (some '"', '"' :: (chars ++ ['"'])) := rfl
  have hvalue : valueWithin 127 ('"' :: (chars ++ ['"'])) =
      some (.text (String.ofList chars), []) :=
    spaced_quoted ((bind_eq_some hnext _).trans (scalar_plain h))
  rw [read?, String.toList_ofList, hvalue]

end Reading

/-! ### Writing -/

theorem escapedChar_of_isPlain {c : Char} (h : isPlain c = true) : escapedChar c = [c] := by
  rw [isPlain, Bool.and_eq_true, Bool.and_eq_true, decide_eq_true_iff, decide_eq_true_iff,
    decide_eq_true_iff] at h
  obtain ⟨⟨hquote, hbackslash⟩, hcontrol⟩ := h
  have hne : ∀ d : Char, d.toNat < 0x20 → c ≠ d := by
    rintro d hd rfl
    omega
  rw [escapedChar, if_neg hquote, if_neg hbackslash, if_neg (hne _ (by decide)),
    if_neg (hne _ (by decide)), if_neg (hne _ (by decide)), if_neg (hne _ (by decide)),
    if_neg (hne _ (by decide)), if_neg (by omega)]

theorem quoted_of_isPlain {value : String} (h : ∀ c ∈ value.toList, isPlain c = true) :
    quoted value = '"' :: (value.toList ++ ['"']) := by
  have hchars : value.toList.flatMap escapedChar = value.toList.flatMap fun c => [c] :=
    List.flatMap_congr fun c hc => escapedChar_of_isPlain (h c hc)
  rw [quoted, hchars, List.flatMap_singleton', List.cons_append]

/-- A string that needs no escapes is read back from its text. -/
theorem read?_pretty_text {value : String} (h : ∀ c ∈ value.toList, isPlain c = true) :
    read? (Json.text value).pretty = some (.text value) := by
  rw [pretty, write, quoted_of_isPlain h, read?_plain h, String.ofList_toList]

end OpTable.Json.Document
