/-!
# Texts and cursors

A text is its list of characters. Offsets into it count the bytes of its UTF-8 form, so an offset may fall
inside a character; a cursor keeps an offset together with the text that is left from there.
-/

namespace FurthestMatch

abbrev Text := List Char

namespace Text

def size : Text → Nat
  | [] => 0
  | c :: rest => c.utf8Size + size rest

/-- The text before a byte offset and the text from it on; `none` for an offset beyond the end or inside a
character. -/
def splitAt : Text → Nat → Option (Text × Text)
  | text, 0 => some ([], text)
  | [], _ + 1 => none
  | c :: rest, n + 1 =>
    if c.utf8Size ≤ n + 1 then
      (splitAt rest (n + 1 - c.utf8Size)).map fun (before, after) => (c :: before, after)
    else none

def after? : (lead text : Text) → Option Text
  | [], text => some text
  | _ :: _, [] => none
  | a :: lead, c :: text => if a = c then after? lead text else none

theorem size_append (s t : Text) : size (s ++ t) = size s + size t := by
  induction s with
  | nil => simp [size]
  | cons c s ih => simp [size, ih, Nat.add_assoc]

theorem splitAt_append (before after : Text) : splitAt (before ++ after) (size before) = some (before, after) := by
  induction before with
  | nil => cases after <;> rfl
  | cons c before ih =>
    have hc := c.utf8Size_pos
    obtain ⟨n, hn⟩ : ∃ n, size (c :: before) = n + 1 := ⟨size (c :: before) - 1, by simp only [size]; omega⟩
    have hs : n + 1 - c.utf8Size = size before := by simp only [size] at hn; omega
    rw [List.cons_append, hn, splitAt, if_pos (by simp only [size] at hn; omega), hs, ih]
    rfl

theorem splitAt_eq_some {text before after : Text} {n : Nat} (h : splitAt text n = some (before, after)) :
    text = before ++ after ∧ size before = n := by
  induction text generalizing before n with
  | nil =>
    cases n with
    | zero => cases h; exact ⟨rfl, rfl⟩
    | succ n => cases h
  | cons c text ih =>
    cases n with
    | zero => cases h; exact ⟨rfl, rfl⟩
    | succ n =>
      rw [splitAt] at h
      split at h
      · obtain ⟨⟨before, after⟩, hs, he⟩ := Option.map_eq_some_iff.mp h
        cases he
        obtain ⟨rfl, hn⟩ := ih hs
        exact ⟨rfl, by simp only [size]; omega⟩
      · cases h

theorem after?_eq_some_iff {lead text rest : Text} : after? lead text = some rest ↔ text = lead ++ rest := by
  induction lead generalizing text with
  | nil => simp [after?]
  | cons a lead ih =>
    cases text with
    | nil => simp [after?]
    | cons c text =>
      by_cases h : a = c
      · simp [after?, h, ih]
      · simp [after?, h, Ne.symm h]

end Text

/-- A place in a text: the byte offset, and the text from there. A place beyond the end or inside a character
has no text. -/
structure Cursor where
  offset : Nat
  rest : Option Text
deriving DecidableEq, Repr

namespace Cursor

def start (text : Text) : Cursor :=
  ⟨0, some text⟩

def ofOffset (text : Text) (offset : Nat) : Cursor :=
  ⟨offset, (Text.splitAt text offset).map Prod.snd⟩

def advance (cursor : Cursor) (passed rest : Text) : Cursor :=
  ⟨cursor.offset + Text.size passed, some rest⟩

end Cursor

end FurthestMatch
