import Crontab.Proofs.Language

/-! Blanks at the ends of a line. Those that may stand there are cut off without a token being
merged, lost or changed, so the text that an entry keeps is read as the entry. -/
namespace Crontab

theorem forall₂_trans {α β γ : Type} {R : α → β → Prop} {S : β → γ → Prop} {T : α → γ → Prop}
    (htrans : ∀ a b c, R a b → S b c → T a c) {l : List α} {m : List β} {n : List γ}
    (hR : List.Forall₂ R l m) (hS : List.Forall₂ S m n) : List.Forall₂ T l n := by
  induction hR generalizing n with
  | nil => exact List.forall₂_nil_left_iff.mpr (List.forall₂_nil_left_iff.mp hS)
  | cons hab _ ih =>
    cases hS with
    | cons hbc hrest => exact .cons (htrans _ _ _ hab hbc) (ih hrest)

theorem forall₂_getD {α β : Type} {R : α → β → Prop} {l : List α} {m : List β}
    (h : List.Forall₂ R l m) {a : α} {b : β} (hab : R a b) (i : ℕ) :
    R (l.getD i a) (m.getD i b) := by
  induction h generalizing i with
  | nil => exact hab
  | cons hfirst _ ih =>
    cases i with
    | zero => exact hfirst
    | succ i => exact ih i

namespace Text

/-- The first text is the second one, cut off among the blanks at its end. -/
def IsCutOf (s t : List Char) : Prop :=
  ∃ after, t = s ++ after ∧ ∀ c ∈ after, isBlank c = true

variable {s t : List Char}

theorem IsCutOf.refl (s : List Char) : IsCutOf s s :=
  ⟨[], by simp, by simp⟩

theorem IsCutOf.cons (h : IsCutOf s t) (c : Char) : IsCutOf (c :: s) (c :: t) := by
  obtain ⟨after, rfl, hafter⟩ := h
  exact ⟨after, rfl, hafter⟩

theorem isCutOf_trimEnd (s : List Char) : IsCutOf (trimEnd isBlank s) s :=
  (trimEnd_eq_iff.mp (Eq.refl (trimEnd isBlank s))).2

theorem IsCutOf.trimEnd_eq (h : IsCutOf s t) : trimEnd isBlank s = trimEnd isBlank t := by
  obtain ⟨after, rfl, hafter⟩ := h
  exact (trimEnd_append_right hafter).symm

/-- Blanks at the end stay in the last piece. -/
theorem IsCutOf.splitOn (h : IsCutOf s t) {sep : Char} (hsep : isBlank sep = false) :
    List.Forall₂ IsCutOf (s.splitOn sep) (t.splitOn sep) := by
  obtain ⟨after, rfl, hafter⟩ := h
  induction s with
  | nil =>
    have hnot : sep ∉ after := fun hmem => by simp [hafter sep hmem] at hsep
    rw [List.nil_append, List.splitOn_nil, List.splitOn_eq_singleton hnot]
    exact .cons ⟨after, rfl, hafter⟩ .nil
  | cons c s ih =>
    rw [List.cons_append, List.splitOn_cons_eq_if_modifyHead, List.splitOn_cons_eq_if_modifyHead]
    split
    · exact .cons (.refl []) ih
    · generalize s.splitOn sep = pieces at ih
      generalize (s ++ after).splitOn sep = others at ih
      cases ih with
      | nil => exact .nil
      | cons hfirst hrest => exact .cons (hfirst.cons c) hrest

/-- What stands at the start, without the separator, stays in the first piece. -/
theorem splitOn_append {before : List Char} {sep : Char} (h : sep ∉ before) (s : List Char) :
    (before ++ s).splitOn sep = (s.splitOn sep).modifyHead (before ++ ·) := by
  induction before with
  | nil => exact (congrFun List.modifyHead_id (s.splitOn sep)).symm
  | cons c before ih =>
    obtain ⟨hc, hrest⟩ := not_or.mp (mt List.mem_cons.mpr h)
    rw [List.cons_append, List.splitOn_cons_eq_if_modifyHead, ih hrest, List.modifyHead_modifyHead]
    rw [if_neg (by simpa using Ne.symm hc)]
    rfl

end Text

namespace Atom

/-- A text of the grammar is a spelling between blanks, and all its blanks are of ASCII. -/
theorem Shape.writes_iff {shape : Shape} {text : List Char} : shape.Writes text ↔
    (∀ c ∈ text, Text.isBlank c = true → Text.isAsciiBlank c = true) ∧
      shape.Spells (Text.trim Text.isBlank text) := by
  constructor
  · intro h
    obtain ⟨before, core, after, rfl, hspells, hbefore, hafter⟩ := h
    have hcore : Text.trim Text.isBlank (before ++ core ++ after) = core :=
      Text.trim_eq_iff.mpr ⟨.of_forall hspells.not_blank, before, after, rfl,
        fun c hc => Text.isBlank_of_isAsciiBlank (hbefore c hc),
        fun c hc => Text.isBlank_of_isAsciiBlank (hafter c hc)⟩
    refine ⟨fun c hc hblank => ?_, hcore.symm ▸ hspells⟩
    rcases List.mem_append.mp hc with hc | hc
    · rcases List.mem_append.mp hc with hc | hc
      · exact hbefore c hc
      · rw [hspells.not_blank c hc] at hblank
        contradiction
    · exact hafter c hc
  · intro h
    obtain ⟨hascii, hspells⟩ := h
    obtain ⟨_, before, after, htext, hbefore, hafter⟩ :=
      Text.trim_eq_iff.mp (Eq.refl (Text.trim Text.isBlank text))
    refine ⟨before, _, after, htext, hspells, fun c hc => ?_, fun c hc => ?_⟩
    · exact hascii c (by rw [htext]; simp [hc]) (hbefore c hc)
    · exact hascii c (by rw [htext]; simp [hc]) (hafter c hc)

/-- Blanks that have been accepted at the ends of an atom may as well be missing. -/
theorem read_of_trim_eq {d : Domain} {s t : List Char} {a : Atom} (h : read d (.ofList t) = .ok a)
    (hsub : s ⊆ t) (htrim : Text.trim Text.isBlank t = Text.trim Text.isBlank s) :
    read d (.ofList s) = .ok a := by
  rw [read_eq_ok_iff, String.toList_ofList] at h ⊢
  obtain ⟨shape, hwrites, h⟩ := h
  obtain ⟨hascii, hspells⟩ := Shape.writes_iff.mp hwrites
  rw [htrim] at hspells
  exact ⟨shape, Shape.writes_iff.mpr ⟨fun c hc => hascii c (hsub hc), hspells⟩, h⟩

end Atom

namespace Field

variable {d : Domain} {f : Field}

theorem exists_not_blank (hd : ∀ v ∈ d, 0 ≤ v) {text : List Char}
    (h : read d (.ofList text) = .ok f) : ∃ c ∈ text, Text.isBlank c = false := by
  obtain ⟨_, hentries, _⟩ := (read_eq_ok_iff_denotes hd).mp h
  rw [String.toList_ofList] at hentries
  obtain ⟨entry, hentry⟩ := List.exists_mem_of_ne_nil _ (List.splitOn_ne_nil ',' text)
  obtain ⟨c, hc, hnot⟩ := hentries entry hentry
  exact ⟨c, (Text.infix_of_mem_splitOn hentry).mem hc, hnot⟩

theorem read_of_append_left {before text : List Char}
    (h : read d (.ofList (before ++ text)) = .ok f)
    (hbefore : ∀ c ∈ before, Text.isBlank c = true) : read d (.ofList text) = .ok f := by
  have hcomma : ',' ∉ before := fun hmem => absurd (hbefore ',' hmem) (by decide)
  rw [read_eq_ok_iff, String.toList_ofList] at h ⊢
  rw [Text.splitOn_append hcomma] at h
  generalize text.splitOn ',' = entries at h
  generalize f.atoms = atoms at h
  cases entries with
  | nil => exact h
  | cons entry entries =>
    cases h with
    | cons hfirst hrest =>
      refine .cons (Atom.read_of_trim_eq hfirst ?_ (Text.trim_append_left hbefore)) hrest
      exact List.subset_append_right _ _

theorem read_of_isCutOf {s t : List Char} (h : read d (.ofList t) = .ok f)
    (hcut : Text.IsCutOf s t) : read d (.ofList s) = .ok f := by
  have hentries : List.Forall₂ Text.IsCutOf (s.splitOn ',') (t.splitOn ',') :=
    hcut.splitOn (by decide)
  rw [read_eq_ok_iff, String.toList_ofList] at h ⊢
  refine forall₂_trans (fun entry other a hentry hread => ?_) hentries h
  obtain ⟨after, rfl, hafter⟩ := hentry
  exact Atom.read_of_trim_eq hread (List.subset_append_left _ _) (Text.trim_append_right hafter)

end Field

namespace Entry

namespace ReadFrom

variable {e : Entry} {tokens : List (List Char)}

theorem exists_not_blank (h : e.ReadFrom tokens) (kind : FieldKind) :
    ∃ c ∈ tokens.getD kind.position [], Text.isBlank c = false :=
  Field.exists_not_blank kind.domain_nonneg (h.fields kind)

theorem of_blank {ts : List (List Char)} {t : List Char} (h : e.ReadFrom (ts ++ [t]))
    (hlength : ts.length = 5) (hblank : ∀ c ∈ t, Text.isBlank c = true) : e.ReadFrom ts := by
  constructor
  · exact hlength.ge
  · intro kind
    have hposition : kind.position < ts.length := by
      rw [hlength]
      cases kind <;> decide
    rw [← List.getD_append _ _ _ _ hposition]
    exact h.fields kind
  · have hnone : ts.getD 5 [] = [] := List.getD_eq_default _ _ hlength.le
    have hlast : (ts ++ [t]).getD 5 [] = t := by
      rw [← hlength, List.getD_append_right _ _ _ _ le_rfl]
      simp
    have hcut : Text.IsCutOf [] t := ⟨t, rfl, hblank⟩
    rw [h.context, hnone, hlast, hcut.trimEnd_eq]

theorem of_cons {before w : List Char} {ts : List (List Char)}
    (h : e.ReadFrom ((before ++ w) :: ts))
    (hbefore : ∀ c ∈ before, Text.isBlank c = true) : e.ReadFrom (w :: ts) := by
  refine ⟨h.length, fun kind => ?_, h.context⟩
  cases kind with
  | minute => exact Field.read_of_append_left (h.fields .minute) hbefore
  | hour => exact h.fields .hour
  | dayOfMonth => exact h.fields .dayOfMonth
  | month => exact h.fields .month
  | dayOfWeek => exact h.fields .dayOfWeek

theorem of_isCutOf {ts : List (List Char)} (h : e.ReadFrom tokens)
    (hcut : List.Forall₂ Text.IsCutOf ts tokens) : e.ReadFrom ts := by
  have hget : ∀ i, Text.IsCutOf (ts.getD i []) (tokens.getD i []) := forall₂_getD hcut (.refl [])
  refine ⟨hcut.length_eq ▸ h.length, fun kind => ?_, ?_⟩
  · exact Field.read_of_isCutOf (h.fields kind) (hget kind.position)
  · rw [h.context, (hget 5).trimEnd_eq]

end ReadFrom

namespace Spaced

variable {n : ℕ} {tokens : List (List Char)} {s : List Char}

theorem dropLast {ts : List (List Char)} {t : List Char} (h : Spaced n (ts ++ [t]) s)
    (hne : ts ≠ []) : ∃ front gap, s = front ++ gap ++ t ∧ IsGap gap ∧ Spaced n ts front := by
  induction ts generalizing n s with
  | nil => contradiction
  | cons w ts ih =>
    cases ts with
    | nil =>
      cases h with
      | @cons n _ gap s _ hw hgap hs =>
        cases hs with
        | rest => exact ⟨w, gap, rfl, hgap, .word hw⟩
        | word => exact ⟨w, gap, rfl, hgap, .word hw⟩
        | cons _ _ hnil => cases hnil
    | cons v ts =>
      cases h with
      | @cons n _ gap s _ hw hgap hs =>
        obtain ⟨front, gap', rfl, hgap', hfront⟩ := ih hs (by simp)
        exact ⟨w ++ gap ++ front, gap', by simp, hgap', .cons hw hgap hfront⟩

theorem trimStart {w : List Char} {ts : List (List Char)} (h : Spaced n (w :: ts) s)
    (hw : ∃ c ∈ w, Text.isBlank c = false) : ∃ before v, w = before ++ v ∧
      (∀ c ∈ before, Text.isBlank c = true) ∧
      Spaced n (v :: ts) (Text.trimStart Text.isBlank s) := by
  have hsplit := Text.takeWhile_append_trimStart Text.isBlank w
  have hhead := Text.head?_dropWhile Text.isBlank w
  have hne := Text.trimStart_ne_nil hw
  refine ⟨w.takeWhile Text.isBlank, Text.trimStart Text.isBlank w, hsplit.symm,
    fun c hc => List.mem_takeWhile_imp hc, ?_⟩
  have hsuffix : ∀ c ∈ Text.trimStart Text.isBlank w, c ∈ w :=
    fun c hc => (List.dropWhile_suffix _).mem hc
  cases h with
  | rest _ htrimmed =>
    refine .rest hne ⟨fun c hc => Text.isSeparator_of_isBlank (hhead c hc), ?_⟩
    have hlast := htrimmed.last
    rwa [← hsplit, List.getLast?_append_of_ne_nil _ hne] at hlast
  | word hword => exact .word ⟨hne, fun c hc => hword.2 c (hsuffix c hc)⟩
  | cons hword hgap hs =>
    rw [List.append_assoc, Text.trimStart_append hw, ← List.append_assoc]
    exact .cons ⟨hne, fun c hc => hword.2 c (hsuffix c hc)⟩ hgap hs

theorem trimEnd {t : List Char} (h : Spaced n tokens s) (ht : tokens.getLast? = some t)
    (hblank : ∃ c ∈ t, Text.isBlank c = false) : ∃ ts,
      List.Forall₂ Text.IsCutOf ts tokens ∧ Spaced n ts (Text.trimEnd Text.isBlank s) := by
  have hcut := Text.isCutOf_trimEnd
  induction h with
  | @rest s hne htrimmed =>
    obtain rfl : s = t := Option.some.inj ht
    obtain ⟨hlast, after, hs, _⟩ := Text.trimEnd_eq_iff.mp (Eq.refl (Text.trimEnd Text.isBlank s))
    have hne := Text.trimEnd_ne_nil hblank
    have hhead := htrimmed.head
    rw [hs, List.head?_append_of_ne_nil _ hne] at hhead
    exact ⟨[_], .cons (hcut s) .nil,
      .rest hne ⟨hhead, fun c hc => Text.isSeparator_of_isBlank (hlast c hc)⟩⟩
  | @word n w hword =>
    obtain rfl : w = t := Option.some.inj ht
    obtain ⟨_, after, hw, _⟩ := Text.trimEnd_eq_iff.mp (Eq.refl (Text.trimEnd Text.isBlank w))
    have hforall := hword.2
    rw [hw, List.forall_mem_append] at hforall
    exact ⟨[_], .cons (hcut w) .nil, .word ⟨Text.trimEnd_ne_nil hblank, hforall.1⟩⟩
  | @cons n w gap s tokens hword hgap hs ih =>
    have hne : tokens ≠ [] := by
      rintro rfl
      cases hs
    rw [List.getLast?_cons_of_ne_nil hne] at ht
    obtain ⟨c, hc, hnot⟩ := hblank
    have hmem : c ∈ s := (hs.infix_of_mem (List.mem_of_getLast? ht)).mem hc
    obtain ⟨ts, hts, hspaced⟩ := ih ht
    rw [Text.trimEnd_append ⟨c, hmem, hnot⟩]
    exact ⟨w :: ts, .cons (.refl w) hts, .cons hword hgap hspaced⟩

end Spaced

namespace ReadFrom

variable {e : Entry} {tokens : List (List Char)} {s : List Char}

theorem spaced_trim {t : List Char} (h : e.ReadFrom tokens) (hs : Spaced 5 tokens s)
    (ht : tokens.getLast? = some t) (hblank : ∃ c ∈ t, Text.isBlank c = false) :
    ∃ ts, Spaced 5 ts (Text.trim Text.isBlank s) ∧ e.ReadFrom ts := by
  have hfirst := h.exists_not_blank .minute
  have hlength := h.length
  cases tokens with
  | nil => contradiction
  | cons w ts =>
    obtain ⟨before, v, rfl, hbefore, hstart⟩ := hs.trimStart hfirst
    have hlast : (v :: ts).getLast? = some t := by
      have hne : ts ≠ [] := by
        rintro rfl
        simp at hlength
      rwa [List.getLast?_cons_of_ne_nil hne] at ht ⊢
    obtain ⟨us, hcut, hend⟩ := hstart.trimEnd hlast hblank
    exact ⟨us, hend, (h.of_cons hbefore).of_isCutOf hcut⟩

theorem exists_last (h : e.ReadFrom tokens) (hlength : tokens.length = 5) :
    ∃ t, tokens.getLast? = some t ∧ ∃ c ∈ t, Text.isBlank c = false := by
  have hblank := h.exists_not_blank .dayOfWeek
  have hlast : tokens.getLast? = some (tokens.getD 4 []) := by
    rw [List.getLast?_eq_getElem?, List.getD_eq_getElem?_getD, hlength,
      List.getElem?_eq_getElem (by omega)]
    rfl
  exact ⟨_, hlast, hblank⟩

/-- A blank sixth token is cut off with the gap before it. -/
theorem spaced_trim_of_blank {ts : List (List Char)} {t : List Char} (h : e.ReadFrom (ts ++ [t]))
    (hs : Spaced 5 (ts ++ [t]) s) (hlength : ts.length = 5)
    (hblank : ∀ c ∈ t, Text.isBlank c = true) :
    ∃ us, Spaced 5 us (Text.trim Text.isBlank s) ∧ e.ReadFrom us := by
  have hne : ts ≠ [] := List.ne_nil_of_length_eq_add_one hlength
  obtain ⟨front, gap, rfl, hgap, hfront⟩ := hs.dropLast hne
  have hread := h.of_blank hlength hblank
  obtain ⟨u, hu, hnot⟩ := hread.exists_last hlength
  have hgap : ∀ c ∈ gap, Text.isBlank c = true :=
    fun c hc => Text.isBlank_of_isSeparator (hgap.2 c hc)
  rw [Text.trim_append_right hblank, Text.trim_append_right hgap]
  exact hread.spaced_trim hfront hu hnot

theorem exists_spaced_trim (h : e.ReadFrom tokens) (hs : Spaced 5 tokens s) :
    ∃ us, Spaced 5 us (Text.trim Text.isBlank s) ∧ e.ReadFrom us := by
  have hmost := hs.length_le
  rcases h.length.eq_or_lt with hfive | hsix
  · obtain ⟨t, ht, hblank⟩ := h.exists_last hfive.symm
    exact h.spaced_trim hs ht hblank
  · rcases List.eq_nil_or_concat' tokens with rfl | ⟨ts, t, rfl⟩
    · contradiction
    · by_cases hblank : ∃ c ∈ t, Text.isBlank c = false
      · exact h.spaced_trim hs List.getLast?_concat hblank
      · have hlength : ts.length = 5 := by
          rw [List.length_append, List.length_singleton] at hmost hsix
          omega
        exact h.spaced_trim_of_blank hs hlength (by simpa using hblank)

theorem exists_tokens_trim {line : List Char} (h : e.ReadFrom tokens)
    (htokens : Tokens tokens line) :
    ∃ us, Tokens us (Text.trim Text.isBlank line) ∧ e.ReadFrom us := by
  cases htokens with
  | blank => exact absurd h.length (by simp)
  | spaced hbefore hs hafter =>
    obtain ⟨us, hus, hread⟩ := h.exists_spaced_trim hs
    rw [Text.trim_append_right fun c hc => Text.isBlank_of_isSeparator (hafter c hc),
      Text.trim_append_left fun c hc => Text.isBlank_of_isSeparator (hbefore c hc)]
    exact ⟨us, hus.toTokens, hread⟩

end ReadFrom

/-- The text that an entry keeps is read as the entry. -/
theorem read_expression {line : String} {e : Entry} (h : read line = .ok e) :
    read e.expression = .ok e := by
  obtain ⟨hread, hexpression⟩ := read_eq_ok_iff_readFrom.mp h
  have hstrip : (Text.strip line).toList = Text.trim Text.isBlank line.toList :=
    String.toList_ofList
  obtain ⟨ts, hts, htrim⟩ := hread.exists_tokens_trim (tokens_iff.mpr rfl)
  rw [← hstrip, ← hexpression] at hts
  refine read_eq_ok_iff_readFrom.mpr ⟨tokens_iff.mp hts ▸ htrim, ?_⟩
  have htwice : Text.strip (Text.strip line) = Text.strip line := by
    unfold Text.strip
    rw [String.toList_ofList, Text.trim_trim]
  rw [hexpression, htwice]

/-- A line feed before the first atom, a vertical tab after the last, and a blank sixth token. -/
theorem read_expression_blanks : ∃ e : Entry, read "\t\n5 * * * 1\x0b \u00a0 \t" = .ok e ∧
    read e.expression = .ok e ∧ e.expression = "5 * * * 1" := by
  obtain ⟨e, he, hkept⟩ : ∃ e, read "\t\n5 * * * 1\x0b \u00a0 \t" = .ok e ∧
      e.expression = "5 * * * 1" := exists_ok_of_decide (by decide +kernel)
  exact ⟨e, he, read_expression he, hkept⟩

end Entry

end Crontab
