/-! Cutting a text at every occurrence of a character. -/
namespace Crontab.Text

/-- The text before the first `sep`, and the texts after each `sep`. -/
def segments (sep : Char) : List Char → List Char × List (List Char)
  | [] => ([], [])
  | c :: rest =>
    let (first, others) := segments sep rest
    if c = sep then ([], first :: others) else (c :: first, others)

/-- The segments with a `sep` before each but the first. -/
def joined (sep : Char) (segs : List Char × List (List Char)) : List Char :=
  segs.1 ++ segs.2.flatMap (sep :: ·)

theorem joined_segments (sep : Char) (s : List Char) : joined sep (segments sep s) = s := by
  induction s with
  | nil => rfl
  | cons c rest ih =>
    simp only [segments]
    simp only [joined] at ih ⊢
    split
    · next h => simp [ih, h]
    · simp [ih]

theorem sep_notMem_segments (sep : Char) (s : List Char) :
    sep ∉ (segments sep s).1 ∧ ∀ t ∈ (segments sep s).2, sep ∉ t := by
  induction s with
  | nil => simp [segments]
  | cons c rest ih =>
    simp only [segments]
    split
    · simpa using ih
    · next h =>
      refine ⟨?_, ih.2⟩
      simpa [ih.1] using fun heq => h heq.symm

end Crontab.Text
