import Mathlib.Data.List.Infix

/-!
# A word in a stream of pieces

A scanner looks for a word in a stream that comes in pieces. It keeps the end of what it has seen,
one item less than the word, and so finds the word wherever the stream is cut.
-/

namespace Streaming

variable {α : Type}

/-- The last items of a list; all of them where none are asked for. -/
def lastItems (n : ℕ) (l : List α) : List α := if n = 0 then l else l.drop (l.length - n)

/-- Look for a word in the next piece after what was kept; nothing where it is found. No word is looked for where it is empty. -/
def scan [DecidableEq α] (word kept piece : List α) : Option (List α) :=
  if word = [] then some kept
  else if word <:+: kept ++ piece then none
  else some (lastItems (word.length - 1) (kept ++ piece))

/-- What is kept of what was seen: enough of its end to find a word that starts in it. -/
def Keeps (word seen kept : List α) : Prop := kept <:+ seen ∧ (kept = seen ∨ word.length ≤ kept.length + 1)

variable {word seen kept : List α}

/-- The last items keep enough. -/
theorem keeps_lastItems (h : Keeps word seen kept) : Keeps word seen (lastItems (word.length - 1) kept) := by
  unfold lastItems
  split
  · exact h
  · refine ⟨(List.drop_suffix _ _).trans h.1, ?_⟩
    rw [List.length_drop]
    rcases h.2 with rfl | hlong
    · by_cases hshort : kept.length ≤ word.length - 1
      · rw [Nat.sub_eq_zero_of_le hshort]
        exact Or.inl rfl
      · exact Or.inr (by omega)
    · exact Or.inr (by omega)

/-- Another piece is kept with what was kept. -/
theorem Keeps.append (h : Keeps word seen kept) (piece : List α) : Keeps word (seen ++ piece) (kept ++ piece) := by
  obtain ⟨⟨before, rfl⟩, henough⟩ := h
  refine ⟨⟨before, (List.append_assoc _ _ _).symm⟩, ?_⟩
  rcases henough with heq | hlong
  · exact Or.inl (by rw [← heq])
  · refine Or.inr ?_
    rw [List.length_append]
    omega

/-- A word that was not seen is in what was seen and the next piece exactly when it is in what was kept and the next piece. -/
theorem infix_iff_of_keeps {piece : List α} (h : Keeps word seen kept) (hunseen : ¬ word <:+: seen) :
    word <:+: seen ++ piece ↔ word <:+: kept ++ piece := by
  obtain ⟨⟨before, rfl⟩, henough⟩ := h
  constructor
  · rintro ⟨a, b, hab⟩
    have hlength := congrArg List.length hab
    simp only [List.length_append] at hlength
    -- the word ends in the piece, or it would have been seen
    have hend : b.length < piece.length := by
      by_contra hge
      refine hunseen ⟨a, b.take (b.length - piece.length), ?_⟩
      have hpiece : b.drop (b.length - piece.length) = piece := by
        have hdrop := congrArg (List.drop (before.length + kept.length)) hab
        rw [List.drop_append, List.drop_of_length_le (by simp only [List.length_append]; omega), List.nil_append,
          List.drop_left' (by simp only [List.length_append])] at hdrop
        have hcut : before.length + kept.length - (a ++ word).length = b.length - piece.length := by
          rw [List.length_append]
          omega
        rw [← hcut]
        exact hdrop
      rw [← List.take_append_drop (b.length - piece.length) b, hpiece, ← List.append_assoc] at hab
      exact List.append_cancel_right hab
    -- so it starts in what was kept
    have hstart : before.length ≤ a.length := by
      rcases henough with heq | hlong
      · have := congrArg List.length heq
        simp only [List.length_append] at this
        omega
      · omega
    refine ⟨a.drop before.length, b, ?_⟩
    have hdrop := congrArg (List.drop before.length) hab
    rw [List.append_assoc before, List.drop_left, List.append_assoc, List.drop_append_of_le_length hstart] at hdrop
    rw [List.append_assoc]
    exact hdrop
  · exact fun hin => hin.trans ⟨before, [], by rw [List.append_nil, List.append_assoc]⟩

/-- The scanner finds the word when it comes, and keeps enough otherwise. -/
theorem scan_spec [DecidableEq α] (piece : List α) (hword : word ≠ []) (h : Keeps word seen kept) (hunseen : ¬ word <:+: seen) :
    (scan word kept piece = none ↔ word <:+: seen ++ piece) ∧
      ∀ kept', scan word kept piece = some kept' → Keeps word (seen ++ piece) kept' := by
  rw [infix_iff_of_keeps h hunseen]
  unfold scan
  rw [if_neg hword]
  split
  · simp_all
  · refine ⟨by simp_all, fun kept' hkept => ?_⟩
    cases hkept
    exact keeps_lastItems (h.append piece)

end Streaming
