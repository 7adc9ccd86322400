import Crontab.Text.Numeral
import Crontab.Text.Points
import Crontab.Text.Segments
import Mathlib

/-! Trimming, cutting and joining, by what stands in the text, the digits of a numeral, and texts by
their code points. -/
namespace Crontab.Text

variable {α : Type} {p : α → Bool} {s core : List α}

/-- Neither end of the text is a character of the class. -/
structure Trimmed (p : α → Bool) (s : List α) : Prop where
  head : ∀ c ∈ s.head?, p c = false
  last : ∀ c ∈ s.getLast?, p c = false

theorem Trimmed.of_forall (h : ∀ c ∈ s, p c = false) : Trimmed p s :=
  ⟨fun c hc => h c (List.mem_of_mem_head? hc), fun c hc => h c (List.mem_of_getLast? hc)⟩

theorem isBlank_of_isSeparator {c : Char} (h : isSeparator c = true) : isBlank c = true :=
  isBlank_of_isAsciiBlank (isAsciiBlank_of_isSeparator h)

theorem isSeparator_of_isBlank {c : Char} (h : isBlank c = false) : isSeparator c = false := by
  by_contra hsep
  rw [isBlank_of_isSeparator (Bool.not_eq_false _ ▸ hsep)] at h
  contradiction

section Span

variable {run rest : List α} (hrun : ∀ c ∈ run, p c = true) (hrest : ∀ c ∈ rest.head?, p c = false)
include hrun hrest

theorem takeWhile_append_eq_left : (run ++ rest).takeWhile p = run := by
  rw [List.takeWhile_append_of_pos hrun]
  cases rest with
  | nil => simp
  | cons c rest =>
    have hc := hrest c rfl
    simp [hc]

theorem dropWhile_append_eq_right : (run ++ rest).dropWhile p = rest := by
  rw [List.dropWhile_append_of_pos hrun]
  cases rest with
  | nil => rfl
  | cons c rest =>
    have hc := hrest c rfl
    simp [hc]

end Span

theorem head?_dropWhile (p : α → Bool) (s : List α) :
    ∀ c ∈ (s.dropWhile p).head?, p c = false := by
  intro c hc
  have hnot := List.head?_dropWhile_not p s
  rw [Option.mem_def.mp hc] at hnot
  exact hnot

theorem trimEnd_eq_iff : trimEnd p s = core ↔ (∀ c ∈ core.getLast?, p c = false) ∧
    ∃ after, s = core ++ after ∧ ∀ c ∈ after, p c = true := by
  unfold trimEnd
  constructor
  · rintro rfl
    have hsplit : s.reverse.takeWhile p ++ s.reverse.dropWhile p = s.reverse :=
      List.takeWhile_append_dropWhile
    refine ⟨?_, (s.reverse.takeWhile p).reverse, ?_, ?_⟩
    · rw [List.getLast?_reverse]
      exact head?_dropWhile p s.reverse
    · rw [← List.reverse_append, hsplit, List.reverse_reverse]
    · intro c hc
      exact List.mem_takeWhile_imp (List.mem_reverse.mp hc)
  · intro h
    obtain ⟨hlast, after, rfl, hafter⟩ := h
    rw [List.reverse_append, dropWhile_append_eq_right, List.reverse_reverse]
    · exact fun c hc => hafter c (List.mem_reverse.mp hc)
    · rwa [List.head?_reverse]

theorem trim_eq_iff : trim p s = core ↔ Trimmed p core ∧ ∃ before after,
    s = before ++ core ++ after ∧ (∀ c ∈ before, p c = true) ∧ ∀ c ∈ after, p c = true := by
  unfold trim trimStart
  rw [trimEnd_eq_iff]
  constructor
  · intro h
    obtain ⟨hlast, after, hdrop, hafter⟩ := h
    have hsplit : s.takeWhile p ++ s.dropWhile p = s := List.takeWhile_append_dropWhile
    have hhead := head?_dropWhile p s
    rw [hdrop] at hsplit hhead
    refine ⟨⟨fun c hc => hhead c ?_, hlast⟩, s.takeWhile p, after, ?_, ?_, hafter⟩
    · rw [List.head?_append, Option.mem_def.mp hc]
      rfl
    · rw [List.append_assoc, hsplit]
    · exact fun c hc => List.mem_takeWhile_imp hc
  · intro h
    obtain ⟨htrimmed, before, after, rfl, hbefore, hafter⟩ := h
    refine ⟨htrimmed.last, ?_⟩
    rw [List.append_assoc, List.dropWhile_append_of_pos hbefore]
    cases core with
    | nil => exact ⟨[], by simpa using hafter, by simp⟩
    | cons c core =>
      have hc := htrimmed.head c rfl
      exact ⟨after, by simp [hc], hafter⟩

section Append

variable {before after : List α}

theorem trimEnd_append_right (h : ∀ c ∈ after, p c = true) :
    trimEnd p (s ++ after) = trimEnd p s := by
  unfold trimEnd
  rw [List.reverse_append, List.dropWhile_append_of_pos fun c hc => h c (List.mem_reverse.mp hc)]

theorem trim_append_left (h : ∀ c ∈ before, p c = true) : trim p (before ++ s) = trim p s := by
  unfold trim trimStart
  rw [List.dropWhile_append_of_pos h]

theorem trim_append_right (h : ∀ c ∈ after, p c = true) : trim p (s ++ after) = trim p s := by
  obtain ⟨htrimmed, b, a, hs, hb, ha⟩ := trim_eq_iff.mp (Eq.refl (trim p s))
  refine trim_eq_iff.mpr ⟨htrimmed, b, a ++ after, ?_, hb, List.forall_mem_append.mpr ⟨ha, h⟩⟩
  conv_lhs => rw [hs]
  simp only [List.append_assoc]

end Append

theorem trim_trim (p : α → Bool) (s : List α) : trim p (trim p s) = trim p s := by
  obtain ⟨htrimmed, _⟩ := trim_eq_iff.mp (Eq.refl (trim p s))
  exact trim_eq_iff.mpr ⟨htrimmed, [], [], by simp⟩

theorem trim_eq_nil_iff : trim p s = [] ↔ ∀ c ∈ s, p c = true := by
  rw [trim_eq_iff]
  constructor
  · rintro ⟨_, before, after, rfl, hbefore, hafter⟩
    rw [List.append_nil]
    exact List.forall_mem_append.mpr ⟨hbefore, hafter⟩
  · intro h
    exact ⟨.of_forall (by simp), s, [], by simp, h, by simp⟩

theorem strip_eq_empty_iff {s : String} : strip s = "" ↔ ∀ c ∈ s.toList, isBlank c = true := by
  rw [← trim_eq_nil_iff, strip, ← String.toList_inj, String.toList_ofList, String.toList_empty]

section NotBlank

/-! Trimming one end of a text with a character outside the class reaches no further than that. -/

variable (h : ∃ c ∈ s, p c = false)
include h

theorem trimStart_ne_nil : trimStart p s ≠ [] := by
  obtain ⟨c, hc, hnot⟩ := h
  intro hnil
  rw [List.dropWhile_eq_nil_iff.mp hnil c hc] at hnot
  contradiction

theorem trimEnd_ne_nil : trimEnd p s ≠ [] := by
  obtain ⟨c, hc, hnot⟩ := h
  obtain ⟨_, after, hs, hafter⟩ := trimEnd_eq_iff.mp (Eq.refl (trimEnd p s))
  intro hnil
  rw [hs, hnil, List.nil_append] at hc
  rw [hafter c hc] at hnot
  contradiction

theorem trimStart_append (after : List α) :
    trimStart p (s ++ after) = trimStart p s ++ after := by
  have hne := mt List.isEmpty_iff.mp (trimStart_ne_nil h)
  unfold trimStart at hne ⊢
  rw [List.dropWhile_append, if_neg hne]

theorem trimEnd_append (before : List α) : trimEnd p (before ++ s) = before ++ trimEnd p s := by
  obtain ⟨hlast, after, hs, hafter⟩ := trimEnd_eq_iff.mp (Eq.refl (trimEnd p s))
  refine trimEnd_eq_iff.mpr ⟨?_, after, ?_, hafter⟩
  · rwa [List.getLast?_append_of_ne_nil _ (trimEnd_ne_nil h)]
  · conv_lhs => rw [hs]
    simp only [List.append_assoc]

end NotBlank

theorem segments_eq_splitOn (sep : Char) (s : List Char) :
    (segments sep s).1 :: (segments sep s).2 = s.splitOn sep := by
  induction s with
  | nil => rfl
  | cons c s ih =>
    rw [List.splitOn_eq_splitOnP] at ih ⊢
    rw [List.splitOnP_cons_eq_if_modifyHead, ← ih, segments]
    by_cases h : c = sep <;> simp [h]

theorem infix_of_mem_splitOn {sep : Char} {s t : List Char} (h : t ∈ s.splitOn sep) :
    t <:+: s := by
  have hjoined := joined_segments sep s
  rw [← segments_eq_splitOn, List.mem_cons] at h
  rw [← hjoined, joined]
  rcases h with rfl | h
  · exact (List.prefix_append _ _).isInfix
  · have hmem : sep :: t ∈ (segments sep s).2.map (sep :: ·) := List.mem_map.mpr ⟨t, h, rfl⟩
    have hflat : sep :: t <:+: (segments sep s).2.flatMap (sep :: ·) :=
      List.infix_of_mem_flatten hmem
    exact ((List.suffix_cons sep t).isInfix.trans hflat).trans (List.suffix_append _ _).isInfix

theorem ofDigits_eq (digits : List ℕ) : ofDigits digits = Nat.ofDigits 10 digits.reverse := by
  rw [Nat.ofDigits_eq_foldr, List.foldr_reverse, ofDigits, ofDigitsIn]
  simp only [Nat.cast_id, add_comm]

theorem toNat_of_isDigit {c : Char} (h : c.isDigit = true) : 48 ≤ c.toNat ∧ c.toNat ≤ 57 := by
  simpa [Char.isDigit, UInt32.le_iff_toNat_le] using h

theorem digitChar_isDigit {d : ℕ} (h : d < 10) : (digitChar d).isDigit = true := by
  revert d
  decide

theorem digitOf_digitChar {d : ℕ} (h : d < 10) : digitOf (digitChar d) = d := by
  revert d
  decide

theorem digitOf_lt {c : Char} (h : c.isDigit = true) : digitOf c < 10 := by
  have hrange := toNat_of_isDigit h
  unfold digitOf
  omega

/-- A number below `10 ^ k` is written with `k` digits or fewer. -/
theorem length_numeral_le {n k : ℕ} (hk : 0 < k) (h : n < 10 ^ k) : (numeral n).length ≤ k := by
  fun_induction numeral n generalizing k with
  | case1 n _ =>
    rw [List.length_singleton]
    exact hk
  | case2 n hn ih =>
    obtain ⟨k, rfl⟩ := Nat.exists_eq_add_one.mpr hk
    have hpos : 0 < k := by
      by_contra hzero
      obtain rfl : k = 0 := by omega
      omega
    have hdiv : n / 10 < 10 ^ k := by
      rw [pow_succ] at h
      omega
    rw [List.length_append, List.length_singleton]
    exact Nat.succ_le_succ (ih hpos hdiv)

theorem forall_mem_intercalate {P : Char → Prop} {sep : List Char} {ls : List (List Char)}
    (hsep : ∀ c ∈ sep, P c) (h : ∀ l ∈ ls, ∀ c ∈ l, P c) : ∀ c ∈ sep.intercalate ls, P c := by
  induction ls with
  | nil => simp
  | cons l ls ih =>
    obtain ⟨hl, hls⟩ := List.forall_mem_cons.mp h
    cases ls with
    | nil => rwa [List.intercalate_singleton]
    | cons l' ls =>
      rw [List.intercalate_cons_cons]
      exact List.forall_mem_append.mpr ⟨List.forall_mem_append.mpr ⟨hl, hsep⟩, ih hls⟩

theorem decimal_of_nonneg {v : ℤ} (h : 0 ≤ v) : decimal v = .ofList (numeral v.toNat) := by
  cases v with
  | ofNat n => rfl
  | negSucc n => exact absurd h (by omega)

theorem decimal?_eq_some {v : ℤ} (h : v.natAbs < 10 ^ digitLimit) :
    decimal? v = some (decimal v) := by
  unfold decimal?
  rw [Nat.pow_eq, if_pos h]

theorem decimal?_eq_none_iff {v : ℤ} : decimal? v = none ↔ 10 ^ digitLimit ≤ v.natAbs := by
  by_cases h : v.natAbs < 10 ^ digitLimit
  · rw [decimal?_eq_some h]
    exact iff_of_false nofun (not_le.mpr h)
  · rw [decimal?, Nat.pow_eq, if_neg h]
    exact iff_of_true rfl (not_lt.mp h)

end Crontab.Text
