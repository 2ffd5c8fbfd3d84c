/-!
# Cutting texts at bytes

Positions in a text that count bytes of its UTF-8 form. A text can be cut at a position only if
that lies between two characters.
-/

namespace KeywordSurvey.Text

/-- The number of bytes of a text. -/
def byteLength : List Char → Nat
  | [] => 0
  | c :: text => c.utf8Size + byteLength text

/-- The text up to a position and from it on. -/
def splitAt? : Nat → List Char → Option (List Char × List Char)
  | 0, text => some ([], text)
  | _ + 1, [] => none
  | n + 1, c :: text =>
    if c.utf8Size ≤ n + 1 then
      (splitAt? (n + 1 - c.utf8Size) text).map fun halves => (c :: halves.1, halves.2)
    else none

/-- The text between two positions. -/
def slice? (start stop : Nat) (text : List Char) : Option (List Char) := do
  let (front, _) ← splitAt? stop text
  let (_, middle) ← splitAt? start front
  some middle

/-- Cutting loses nothing. -/
theorem append_of_splitAt? :
    ∀ {n : Nat} {text front back : List Char},
      splitAt? n text = some (front, back) → front ++ back = text
  | 0, _, _, _, h => by
    simp only [splitAt?, Option.some.injEq, Prod.mk.injEq] at h
    obtain ⟨rfl, rfl⟩ := h
    rfl
  | _ + 1, [], _, _, h => by simp [splitAt?] at h
  | n + 1, c :: text, front, back, h => by
    rw [splitAt?] at h
    split at h
    · obtain ⟨halves, hhalves, heq⟩ := Option.map_eq_some_iff.mp h
      simp only [Prod.mk.injEq] at heq
      obtain ⟨rfl, rfl⟩ := heq
      rw [List.cons_append, append_of_splitAt? hhalves]
    · simp at h

end KeywordSurvey.Text
