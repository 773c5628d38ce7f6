/-!
# Lines of a text

* `lines` : the pieces between line feeds; a final line feed ends the last line and opens none, and a carriage return
  in front of a line feed belongs to the end of its line;
* `lines_append_newline` : a line feed closes exactly one line.
-/

namespace Avr.Text

/-- Puts a character in front of the first line. -/
def consLine (c : Char) : List (List Char) → List (List Char)
  | [] => [[c]]
  | l :: rest => (c :: l) :: rest

/-- The lines of a text, without their ends. -/
def lines : List Char → List (List Char)
  | [] => []
  | c :: cs =>
    if c = '\n' then [] :: lines cs
    else if c = '\r' ∧ cs.head? = some '\n' then lines cs
    else consLine c (lines cs)

@[simp] theorem lines_nil : lines [] = [] := rfl

/-- A text without the characters that end lines. -/
def Unbroken (l : List Char) : Prop := '\n' ∉ l ∧ '\r' ∉ l

instance (l : List Char) : Decidable (Unbroken l) := inferInstanceAs (Decidable (_ ∧ _))

/-- A line feed closes exactly one line. -/
theorem lines_append_newline {l : List Char} (h : Unbroken l) (cs : List Char) :
    lines (l ++ '\n' :: cs) = l :: lines cs := by
  induction l with
  | nil => rfl
  | cons c l ih =>
    obtain ⟨hfeed, hreturn⟩ := h
    rw [List.mem_cons, not_or] at hfeed hreturn
    rw [List.cons_append, lines, if_neg (Ne.symm hfeed.1), if_neg fun hc => hreturn.1 hc.1.symm,
      ih ⟨hfeed.2, hreturn.2⟩]
    rfl

example : lines "NOP\r\n\rRET\r".toList = ["NOP".toList, "\rRET\r".toList] := by decide

end Avr.Text
