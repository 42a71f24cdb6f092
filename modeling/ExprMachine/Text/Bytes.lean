/-
  ExprMachine.Text.Bytes

  Texts cut by the bytes of their encoding.
-/

namespace ExprMachine.Text

/-- Cuts a text after so many bytes, unless it is shorter or a character goes on there. -/
def cut? : (bytes : Nat) → List Char → Option (List Char × List Char)
  | 0, text => some ([], text)
  | _ + 1, [] => none
  | bytes + 1, c :: text =>
    if c.utf8Size ≤ bytes + 1 then
      (cut? (bytes + 1 - c.utf8Size) text).map fun (front, rest) => (c :: front, rest)
    else none

/-- The two pieces make the text. -/
theorem append_of_cut {bytes : Nat} {text front rest : List Char}
    (h : cut? bytes text = some (front, rest)) : text = front ++ rest := by
  fun_induction cut? bytes text generalizing front with
  | case1 =>
    cases h
    rfl
  | case2 => cases h
  | case3 bytes c text fits ih =>
    obtain ⟨⟨front', rest'⟩, hcut, heq⟩ := Option.map_eq_some_iff.1 h
    cases heq
    rw [List.cons_append, ← ih hcut]
  | case4 => cases h

example : cut? 2 ['0', 'x', 'f'] = some (['0', 'x'], ['f']) := by decide

-- The second byte lies inside the first character.
example : cut? 1 ['é', 'f'] = none := by decide

end ExprMachine.Text
