import Mathlib.Tactic
import Mathlib.Data.List.Infix

namespace RdtChallenge.LineFraming

variable {α : Type*} {d : α}

/-- The lines, each followed by the delimiter. -/
def frame (d : α) (lines : List (List α)) : List α := lines.flatMap (· ++ [d])

@[simp] theorem frame_nil : frame d [] = [] := rfl

@[simp] theorem frame_cons (line : List α) (lines : List (List α)) :
    frame d (line :: lines) = line ++ d :: frame d lines := by
  simp [frame]

theorem frame_append (lines lines' : List (List α)) :
    frame d (lines ++ lines') = frame d lines ++ frame d lines' := List.flatMap_append

/-- The buffer holds what has arrived after the lines that have been taken. -/
def Leaves (d : α) (arrived : List α) (taken : List (List α)) (buffer : List α) : Prop :=
  frame d taken ++ buffer = arrived

variable {arrived buffer chunk line rest : List α} {taken lines : List (List α)}

theorem Leaves.arrive (h : Leaves d arrived taken buffer) (chunk : List α) :
    Leaves d (arrived ++ chunk) taken (buffer ++ chunk) := by
  unfold Leaves at *
  rw [← List.append_assoc, h]

theorem Leaves.take (h : Leaves d arrived taken (line ++ d :: rest)) :
    Leaves d arrived (taken ++ [line]) rest := by
  unfold Leaves at *
  rw [frame_append, ← h]
  simp

theorem prefix_frame_cons (hline : d ∉ line) (h : buffer <+: frame d (line :: lines)) :
    d ∉ buffer ∨ ∃ rest, buffer = line ++ d :: rest := by
  rw [frame_cons] at h
  by_cases hlen : buffer.length ≤ line.length
  · left
    have hshort : buffer <+: line :=
      List.prefix_of_prefix_length_le h (List.prefix_append _ _) hlen
    exact fun hd => hline (hshort.subset hd)
  · right
    have hwhole : line ++ [d] <+: buffer := by
      apply List.prefix_of_prefix_length_le _ h
      · simp only [List.length_append, List.length_singleton]
        omega
      · exact ⟨frame d lines, by simp⟩
    obtain ⟨rest, rfl⟩ := hwhole
    exact ⟨rest, by simp⟩

/-- What the buffer holds, when the stream is a sequence of lines and those taken are the
first of them: no delimiter, or all of the line that comes next. -/
theorem Leaves.next (h : Leaves d arrived taken buffer) (hlines : ∀ line ∈ lines, d ∉ line)
    (harrived : arrived <+: frame d lines) (htaken : taken <+: lines) :
    d ∉ buffer ∨ ∃ line rest, buffer = line ++ d :: rest ∧ taken ++ [line] <+: lines := by
  obtain ⟨later, rfl⟩ := htaken
  unfold Leaves at h
  rw [← h, frame_append, List.prefix_append_right_inj] at harrived
  cases later with
  | nil =>
    left
    rw [frame_nil, List.prefix_nil] at harrived
    simp [harrived]
  | cons line later =>
    rcases prefix_frame_cons (hlines line (by simp)) harrived with hnone | ⟨rest, hrest⟩
    · exact Or.inl hnone
    · exact Or.inr ⟨line, rest, hrest, ⟨later, by simp⟩⟩

theorem findIdx?_none [BEq α] [LawfulBEq α] (hbuffer : d ∉ buffer) :
    buffer.findIdx? (· == d) = none := by
  rw [List.findIdx?_eq_none_iff]
  intro x hx
  rw [beq_eq_false_iff_ne]
  rintro rfl
  exact hbuffer hx

theorem findIdx?_line [BEq α] [LawfulBEq α] (hline : d ∉ line) :
    (line ++ d :: rest).findIdx? (· == d) = some line.length := by
  rw [List.findIdx?_append, findIdx?_none hline]
  simp [List.findIdx?_cons]

end RdtChallenge.LineFraming
