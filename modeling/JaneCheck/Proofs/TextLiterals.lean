import JaneCheck.Proofs.Spacing

/-!
# Texts and their literals

The literal of a text writes the quote, the backslash and the line feed behind a backslash, and
all other characters as they are. It is read as one token that denotes the text
(`readAll_literal`).
-/

namespace JaneCheck.Token

/-- How a character is written in a literal. -/
def escaped : Char → List Char
  | '"' => ['\\', '"']
  | '\\' => ['\\', '\\']
  | '\n' => ['\\', 'n']
  | c => [c]

/-- The literal of a text behind its opening quote. -/
def literalTail (cs : List Char) : List Char := cs.flatMap escaped ++ ['"']

def literal (s : String) : String := String.ofList ('"' :: literalTail s.toList)

theorem literalTail_cons (c : Char) (cs : List Char) :
    literalTail (c :: cs) = escaped c ++ literalTail cs := by
  rw [literalTail, List.flatMap_cons, List.append_assoc, literalTail]

theorem readText_escaped (c : Char) (cs : List Char) (n : Nat) :
    readText (escaped c ++ cs) n = (do
      let (value, length) ← readText cs (n + (escaped c).length)
      return (c :: value, length)) := by
  unfold escaped
  split
  · rfl
  · rfl
  · rfl
  next hquote hslash hline => exact readText_cons hquote hslash hline n

/-- Each character of the text is read back, whatever was read before it. -/
theorem readText_literalTail (cs : List Char) (n : Nat) :
    readText (literalTail cs) n = .ok (cs, n + (literalTail cs).length) := by
  induction cs generalizing n with
  | nil => rfl
  | cons c cs ih =>
    rw [literalTail_cons, readText_escaped, ih, List.length_append, Nat.add_assoc]
    rfl

/-- The literal of a text is read as the text, from the first character to the last, and then
the file ends. -/
theorem readAll_literal (file : Nat) (s : String) :
    readAll file (literal s) = .ok [⟨.text s, ⟨0, (literal s).length, file⟩⟩,
      ⟨.eof, ⟨(literal s).length, (literal s).length, file⟩⟩] := by
  have hstop : (literal s).length = 0 + 1 + (literalTail s.toList).length := by
    rw [Nat.zero_add, Nat.add_comm]
    exact String.length_ofList
  have hread : readOne '"' (literalTail s.toList) =
      .ok (.text s, (literalTail s.toList).length) := by
    have hname : Text.opensName '"' = false := by decide
    have htext : (Kind.text (String.ofList s.toList)) = .text s := by rw [String.ofList_toList]
    rw [readOne, hname, readText_literalTail, Nat.zero_add, ← htext]
    rfl
  have hstands : Stands ('"' :: literalTail s.toList) :=
    stands_cons_iff.mpr ⟨rfl, fun h => absurd h (by decide)⟩
  rw [hstop, readAll, literal, String.toList_ofList, readFrom_of_stands hstands hread,
    List.drop_length, readFrom]
  rfl

end JaneCheck.Token
