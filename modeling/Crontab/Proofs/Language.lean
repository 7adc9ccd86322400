import Crontab.Proofs.Entry

/-! The language of entries. A line has one sequence of tokens, and reading it decides whether the
first five of them are lists of the grammar. -/
namespace Crontab.Entry

/-- A run of characters that are no separators. -/
def IsWord (s : List Char) : Prop :=
  s ≠ [] ∧ ∀ c ∈ s, Text.isSeparator c = false

def IsGap (s : List Char) : Prop :=
  s ≠ [] ∧ ∀ c ∈ s, Text.isSeparator c = true

/-- A text as its tokens with gaps between them. After `n` words the rest is one token, which may
hold separators, but not at its ends. -/
inductive Spaced : ℕ → List (List Char) → List Char → Prop where
  | rest {s : List Char} : s ≠ [] → Text.Trimmed Text.isSeparator s → Spaced 0 [s] s
  | word {n : ℕ} {w : List Char} : IsWord w → Spaced (n + 1) [w] w
  | cons {n : ℕ} {w gap s : List Char} {tokens : List (List Char)} : IsWord w → IsGap gap →
      Spaced n tokens s → Spaced (n + 1) (w :: tokens) (w ++ gap ++ s)

/-- The tokens of a line, with separators before the first and after the last of them. -/
inductive Tokens : List (List Char) → List Char → Prop where
  | blank {line : List Char} : (∀ c ∈ line, Text.isSeparator c = true) → Tokens [] line
  | spaced {before s after : List Char} {tokens : List (List Char)} :
      (∀ c ∈ before, Text.isSeparator c = true) → Spaced 5 tokens s →
      (∀ c ∈ after, Text.isSeparator c = true) → Tokens tokens (before ++ s ++ after)

namespace Spaced

variable {n : ℕ} {tokens : List (List Char)} {s : List Char}

theorem ne_nil (h : Spaced n tokens s) : s ≠ [] := by
  cases h with
  | rest hne _ => exact hne
  | word hw => exact hw.1
  | cons hw _ _ => simp [hw.1]

theorem trimmed (h : Spaced n tokens s) : Text.Trimmed Text.isSeparator s := by
  induction h with
  | rest _ htrimmed => exact htrimmed
  | word hw => exact .of_forall hw.2
  | cons hw _ hs ih =>
    constructor
    · intro c hc
      rw [List.append_assoc, List.head?_append_of_ne_nil _ hw.1] at hc
      exact hw.2 c (List.mem_of_mem_head? hc)
    · intro c hc
      rw [List.getLast?_append_of_ne_nil _ hs.ne_nil] at hc
      exact ih.last c hc

theorem length_le (h : Spaced n tokens s) : tokens.length ≤ n + 1 := by
  induction h with
  | rest => simp
  | word => simp
  | cons _ _ _ ih => simpa using ih

theorem infix_of_mem {t : List Char} (h : Spaced n tokens s) (ht : t ∈ tokens) : t <:+: s := by
  induction h with
  | rest => exact List.mem_singleton.mp ht ▸ List.infix_rfl
  | word => exact List.mem_singleton.mp ht ▸ List.infix_rfl
  | @cons _ w gap s _ _ _ _ ih =>
    rcases List.mem_cons.mp ht with rfl | ht
    · exact ⟨[], gap ++ s, by simp⟩
    · exact (ih ht).trans (List.suffix_append _ _).isInfix

theorem words_eq (h : Spaced n tokens s) : words n s = tokens := by
  induction h with
  | rest => rfl
  | @word n w hw =>
    have hword : ∀ c ∈ w, (!Text.isSeparator c) = true := fun c hc => by simp [hw.2 c hc]
    rw [words, List.takeWhile_eq_self_iff.mpr hword, List.dropWhile_eq_nil_iff.mpr hword]
  | @cons n w gap s tokens hw hgap hs ih =>
    have hword : ∀ c ∈ w, (!Text.isSeparator c) = true := fun c hc => by simp [hw.2 c hc]
    have hstop : ∀ c ∈ (gap ++ s).head?, (!Text.isSeparator c) = false := by
      intro c hc
      rw [List.head?_append_of_ne_nil _ hgap.1] at hc
      simp [hgap.2 c (List.mem_of_mem_head? hc)]
    have hrest := Text.dropWhile_append_eq_right hgap.2 hs.trimmed.head
    rw [List.append_assoc, words, Text.takeWhile_append_eq_left hword hstop,
      Text.dropWhile_append_eq_right hword hstop]
    obtain ⟨c, gap, rfl⟩ := List.exists_cons_of_ne_nil hgap.1
    exact congrArg (w :: ·) ((congrArg (words n) hrest).trans ih)

end Spaced

theorem Spaced.toTokens {tokens : List (List Char)} {s : List Char} (h : Spaced 5 tokens s) :
    Tokens tokens s := by
  have hnone : ∀ c ∈ ([] : List Char), Text.isSeparator c = true := by simp
  simpa using Tokens.spaced hnone h hnone

theorem isGap_space : IsGap [' '] :=
  ⟨by simp, by simp [Text.isSeparator]⟩

theorem spaced_intercalate {w : List Char} {ws : List (List Char)}
    (h : ∀ v ∈ w :: ws, IsWord v) :
    Spaced (ws.length + 1) (w :: ws) ([' '].intercalate (w :: ws)) := by
  induction ws generalizing w with
  | nil =>
    rw [List.intercalate_singleton]
    exact .word (h w List.mem_cons_self)
  | cons v ws ih =>
    obtain ⟨hw, hws⟩ := List.forall_mem_cons.mp h
    rw [List.intercalate_cons_cons]
    exact .cons hw isGap_space (ih hws)

/-- The same with a last token that may hold separators. -/
theorem spaced_intercalate_concat {ws : List (List Char)} {rest : List Char}
    (h : ∀ w ∈ ws, IsWord w) (hne : rest ≠ []) (hrest : Text.Trimmed Text.isSeparator rest) :
    Spaced ws.length (ws ++ [rest]) ([' '].intercalate (ws ++ [rest])) := by
  induction ws with
  | nil =>
    rw [List.nil_append, List.intercalate_singleton]
    exact .rest hne hrest
  | cons w ws ih =>
    obtain ⟨hw, hws⟩ := List.forall_mem_cons.mp h
    obtain ⟨v, vs, hvs⟩ : ∃ v vs, ws ++ [rest] = v :: vs :=
      List.exists_cons_of_ne_nil (by simp)
    rw [List.cons_append, hvs, List.intercalate_cons_cons, ← hvs]
    exact .cons hw isGap_space (ih hws)

/-- A text that starts with a separator, but does not end with one, goes on after its gap. -/
theorem gap_of_head {c : Char} {s : List Char} (hc : Text.isSeparator c = true)
    (hlast : ∀ d ∈ (c :: s).getLast?, Text.isSeparator d = false) :
    IsGap ((c :: s).takeWhile Text.isSeparator) ∧ (c :: s).dropWhile Text.isSeparator ≠ [] ∧
      Text.Trimmed Text.isSeparator ((c :: s).dropWhile Text.isSeparator) := by
  have hsplit := List.takeWhile_append_dropWhile (p := Text.isSeparator) (l := c :: s)
  have hne : (c :: s).dropWhile Text.isSeparator ≠ [] := by
    intro hnil
    have hall := List.dropWhile_eq_nil_iff.mp hnil
    have hnot := hlast _ (List.getLast?_eq_some_getLast (List.cons_ne_nil c s))
    rw [hall _ (List.getLast_mem _)] at hnot
    contradiction
  refine ⟨⟨by simp [hc], fun d hd => List.mem_takeWhile_imp hd⟩, hne, ?_, ?_⟩
  · exact Text.head?_dropWhile Text.isSeparator (c :: s)
  · rw [← hsplit, List.getLast?_append_of_ne_nil _ hne] at hlast
    exact hlast

theorem spaced_words {n : ℕ} {s : List Char} (hne : s ≠ [])
    (h : Text.Trimmed Text.isSeparator s) : Spaced n (words n s) s := by
  induction n generalizing s with
  | zero => exact .rest hne h
  | succ n ih =>
    have hsplit := List.takeWhile_append_dropWhile (p := fun c => !Text.isSeparator c) (l := s)
    have hstop := Text.head?_dropWhile (fun c => !Text.isSeparator c) s
    have hword : ∀ c ∈ s.takeWhile fun c => !Text.isSeparator c, Text.isSeparator c = false :=
      fun c hc => by simpa using List.mem_takeWhile_imp hc
    rw [words]
    generalize s.takeWhile (fun c => !Text.isSeparator c) = w at hsplit hword ⊢
    cases hrest : s.dropWhile fun c => !Text.isSeparator c with
    | nil =>
      rw [hrest, List.append_nil] at hsplit
      subst hsplit
      exact .word ⟨hne, hword⟩
    | cons c rest =>
      rw [hrest] at hsplit hstop
      subst hsplit
      -- the word ends at a separator, and the text does not start with one
      have hc : Text.isSeparator c = true := by simpa using hstop c rfl
      have hw : w ≠ [] := by
        rintro rfl
        rw [h.head c rfl] at hc
        contradiction
      have hlast : ∀ d ∈ (c :: rest).getLast?, Text.isSeparator d = false := by
        simpa using h.last
      obtain ⟨hgap, htail, htrimmed⟩ := gap_of_head hc hlast
      have hcons := Spaced.cons ⟨hw, hword⟩ hgap (ih htail htrimmed)
      rwa [List.append_assoc, List.takeWhile_append_dropWhile] at hcons

theorem tokens_iff {tokens : List (List Char)} {line : List Char} :
    Tokens tokens line ↔ tokens = parts line := by
  unfold parts
  constructor
  · intro h
    cases h with
    | blank hline =>
      have htrim : Text.trim Text.isSeparator line = [] :=
        Text.trim_eq_iff.mpr ⟨.of_forall (by simp), line, [], by simp, hline, by simp⟩
      rw [htrim]
    | @spaced before s after _ hbefore hs hafter =>
      have htrim := Text.trim_eq_iff.mpr ⟨hs.trimmed, before, after, rfl, hbefore, hafter⟩
      obtain ⟨c, s, rfl⟩ := List.exists_cons_of_ne_nil hs.ne_nil
      rw [htrim]
      exact hs.words_eq.symm
  · rintro rfl
    have htrim := Text.trim_eq_iff.mp (Eq.refl (Text.trim Text.isSeparator line))
    obtain ⟨htrimmed, before, after, hline, hbefore, hafter⟩ := htrim
    cases hcore : Text.trim Text.isSeparator line with
    | nil =>
      apply Tokens.blank
      intro c hc
      rw [hline, hcore] at hc
      simp only [List.append_nil, List.mem_append] at hc
      exact hc.elim (hbefore c) (hafter c)
    | cons c core =>
      rw [hcore] at htrimmed hline
      rw [hline]
      exact .spaced hbefore (spaced_words (List.cons_ne_nil c core) htrimmed) hafter

theorem Tokens.length_le {tokens : List (List Char)} {line : List Char} (h : Tokens tokens line) :
    tokens.length ≤ 6 := by
  cases h with
  | blank => simp
  | spaced _ hs _ => exact hs.length_le

theorem Tokens.infix_of_mem {tokens : List (List Char)} {line t : List Char}
    (h : Tokens tokens line) (ht : t ∈ tokens) : t <:+: line := by
  cases h with
  | blank => contradiction
  | spaced _ hs _ => exact (hs.infix_of_mem ht).trans (List.infix_append _ _ _)

/-- The sixth token is all that may stand after the fifth. -/
theorem flatten_drop_parts (line : List Char) :
    ((parts line).drop 5).flatten = (parts line).getD 5 [] := by
  have hlength := (tokens_iff.mpr (Eq.refl (parts line))).length_le
  rw [List.getD_eq_getElem?_getD, ← List.head?_drop]
  rcases hrest : (parts line).drop 5 with _ | ⟨token, _ | ⟨other, rest⟩⟩
  · rfl
  · simp
  · have := congrArg List.length hrest
    simp at this
    omega

theorem read_of_length_lt {line : String} (h : (parts line.toList).length < 5) :
    read line = .error (.refused ⟨.tooFewFields (parts line.toList).length, line, none⟩) := by
  unfold read
  split
  · next hparts =>
    rw [hparts] at h
    simp only [List.length_cons] at h
    omega
  · rfl

/-- The entry is read from a line with these tokens. -/
structure ReadFrom (e : Entry) (tokens : List (List Char)) : Prop where
  length : 5 ≤ tokens.length
  fields : ∀ kind : FieldKind,
    Field.read kind.domain (.ofList (tokens.getD kind.position [])) = .ok (e.field kind)
  context : e.context = .ofList (Text.trimEnd Text.isBlank (tokens.getD 5 []))

theorem read_eq_ok_iff_readFrom {line : String} {e : Entry} : read line = .ok e ↔
    e.ReadFrom (parts line.toList) ∧ e.expression = Text.strip line := by
  rw [read_eq_ok_iff, flatten_drop_parts]
  constructor
  · intro h
    obtain ⟨hlength, hfields, hcontext, hexpression⟩ := h
    exact ⟨⟨hlength, hfields, hcontext⟩, hexpression⟩
  · intro h
    obtain ⟨⟨hlength, hfields, hcontext⟩, hexpression⟩ := h
    exact ⟨hlength, hfields, hcontext, hexpression⟩

/-- Each field is what the grammar gives to its token, and the context is the sixth token without
the blanks at its end, or nothing. -/
structure DenotedBy (e : Entry) (tokens : List (List Char)) : Prop where
  fields : ∀ (kind : FieldKind) (f : Field),
    Field.Denotes kind.domain (tokens.getD kind.position []) f ↔ f = e.field kind
  context : ∃ blanks, tokens.getD 5 [] = e.context.toList ++ blanks ∧
    (∀ c ∈ blanks, Text.isBlank c = true) ∧ ∀ c ∈ e.context.toList.getLast?, Text.isBlank c = false

/-- The grammar, the limit on numerals and the number of parts decide what is read. -/
theorem read_eq_ok_iff_denotes {line : String} {e : Entry} : read line = .ok e ↔
    5 ≤ (parts line.toList).length ∧
    (∀ kind : FieldKind, ¬ Field.Overlong ((parts line.toList).getD kind.position []) ∧
      Field.Denotes kind.domain ((parts line.toList).getD kind.position []) (e.field kind)) ∧
    e.context = .ofList (Text.trimEnd Text.isBlank ((parts line.toList).getD 5 [])) ∧
    e.expression = Text.strip line := by
  simp only [read_eq_ok_iff, Field.read_eq_ok_iff_denotes (FieldKind.domain_nonneg _),
    String.toList_ofList, flatten_drop_parts]

theorem exists_read_iff {line : String} (h : 5 ≤ (parts line.toList).length) :
    (∃ e, read line = .ok e) ↔ ∀ kind : FieldKind,
      ¬ Field.Overlong ((parts line.toList).getD kind.position []) ∧
      ∃ f, Field.Denotes kind.domain ((parts line.toList).getD kind.position []) f := by
  constructor
  · intro h kind
    obtain ⟨e, he⟩ := h
    obtain ⟨_, hfields, _⟩ := read_eq_ok_iff_denotes.mp he
    exact ⟨(hfields kind).1, e.field kind, (hfields kind).2⟩
  · intro hall
    choose hshort f hf using hall
    let e : Entry :=
      { minutes := f .minute, hours := f .hour, daysOfMonth := f .dayOfMonth, months := f .month,
        daysOfWeek := f .dayOfWeek, expression := Text.strip line,
        context := .ofList (Text.trimEnd Text.isBlank ((parts line.toList).getD 5 [])) }
    have hfield (kind : FieldKind) : e.field kind = f kind := by cases kind <;> rfl
    refine ⟨e, read_eq_ok_iff_denotes.mpr ⟨h, fun kind => ?_, rfl, rfl⟩⟩
    rw [hfield]
    exact ⟨hshort kind, hf kind⟩

theorem denotedBy_parts {line : String} {e : Entry} (h : read line = .ok e) :
    e.DenotedBy (parts line.toList) := by
  obtain ⟨_, hfields, hcontext, _⟩ := read_eq_ok_iff_denotes.mp h
  constructor
  · intro kind f
    constructor
    · exact fun hf => hf.unique (hfields kind).2
    · rintro rfl
      exact (hfields kind).2
  · have htrim := Text.trimEnd_eq_iff.mp
      (Eq.refl (Text.trimEnd Text.isBlank ((parts line.toList).getD 5 [])))
    obtain ⟨hlast, blanks, htoken, hblanks⟩ := htrim
    rw [hcontext, String.toList_ofList]
    exact ⟨blanks, htoken, hblanks, hlast⟩

/-- A line has one sequence of tokens. It is read exactly if there are five or more of them and the
first five are in the grammar of their fields, without numerals beyond the limit. The fields and
the context follow from the tokens, whatever separators stand around them. -/
theorem read_language (line : String) : ∃ tokens : List (List Char),
    (∀ ts, Tokens ts line.toList ↔ ts = tokens) ∧
    (tokens.length < 5 →
      read line = .error (.refused ⟨.tooFewFields tokens.length, line, none⟩)) ∧
    (5 ≤ tokens.length → ((∃ e, read line = .ok e) ↔ ∀ kind : FieldKind,
      ¬ Field.Overlong (tokens.getD kind.position []) ∧
      ∃ f, Field.Denotes kind.domain (tokens.getD kind.position []) f)) ∧
    ∀ e, read line = .ok e → e.DenotedBy tokens ∧ ∀ other : String, Tokens tokens other.toList →
      ∃ e', read other = .ok e' ∧ e'.fields = e.fields ∧ e'.context = e.context := by
  refine ⟨parts line.toList, fun ts => tokens_iff, read_of_length_lt, exists_read_iff, ?_⟩
  intro e he
  refine ⟨denotedBy_parts he, fun other hother => ?_⟩
  have hparts := tokens_iff.mp hother
  rw [read_eq_ok_iff, hparts] at he
  obtain ⟨hlength, hfields, hcontext, _⟩ := he
  have hread : read other = .ok { e with expression := Text.strip other } :=
    read_eq_ok_iff.mpr ⟨hlength, fun kind => by cases kind <;> exact hfields _, hcontext, rfl⟩
  exact ⟨_, hread, rfl, rfl⟩

/-- Tabs between the fields, a vertical tab before an atom, and a no-break space at the end. -/
theorem read_language_tabs : ∃ e e' : Entry,
    read "\t*/15\t 0,\x0b12 1 * 1-5  run\t it\u00a0\t" = .ok e ∧
    read "*/15 0,\x0b12 1 * 1-5 run\t it\u00a0" = .ok e' ∧
    e'.fields = e.fields ∧ e'.context = e.context ∧ e.context = "run\t it" := by
  let line := "\t*/15\t 0,\x0b12 1 * 1-5  run\t it\u00a0\t"
  let other := "*/15 0,\x0b12 1 * 1-5 run\t it\u00a0"
  have hsame : parts line.toList = parts other.toList := by decide +kernel
  have hrun : (match read line with
      | .ok e => decide (e.context = "run\t it")
      | .error _ => false) = true := by decide +kernel
  obtain ⟨tokens, htokens, _, _, hread⟩ := read_language line
  have hline : parts line.toList = tokens := (htokens _).mp (tokens_iff.mpr rfl)
  have hother : Tokens tokens other.toList := tokens_iff.mpr (hline ▸ hsame)
  cases he : read line with
  | error cause =>
    rw [he] at hrun
    contradiction
  | ok e =>
    rw [he] at hrun
    obtain ⟨e', he', hfields, hcontext⟩ := (hread e he).2 other hother
    exact ⟨e, e', rfl, he', hfields, hcontext, of_decide_eq_true hrun⟩

end Crontab.Entry
