import Crontab.Proofs.Stripping

/-! The canonical text of an entry. Every shorthand has an explicit form `a-b/n` that is read as the
same atom, and it may stand for the shorthand anywhere in a line. -/
namespace Crontab

namespace Atom

theorem Shape.isNumeral_numeral (n : ℕ) : Shape.IsNumeral (Text.numeral n) := by
  fun_induction Text.numeral n with
  | case1 n h => exact ⟨by simp, by simpa using Text.digitChar_isDigit h⟩
  | case2 n h ih =>
    have hlast : (Text.digitChar (n % 10)).isDigit = true := Text.digitChar_isDigit (by omega)
    exact ⟨by simp, List.forall_mem_append.mpr ⟨ih.2, by simpa using hlast⟩⟩

theorem Shape.value_numeral (n : ℕ) : Shape.value (Text.numeral n) = n := by
  unfold Shape.value
  fun_induction Text.numeral n with
  | case1 n h => simp [Text.digitOf_digitChar h]
  | case2 n h ih =>
    have hlast : Text.digitOf (Text.digitChar (n % 10)) = n % 10 :=
      Text.digitOf_digitChar (by omega)
    rw [List.map_append, List.reverse_append, List.map_singleton, List.reverse_singleton, hlast,
      List.singleton_append, Nat.ofDigits_cons]
    omega

/-- A numeral stands for a number with no more digits. -/
theorem Shape.value_lt {digits : List Char} (h : IsNumeral digits) :
    Shape.value digits < 10 ^ digits.length := by
  have hdigits : ∀ d ∈ (digits.map Text.digitOf).reverse, d < 10 := by
    intro d hd
    obtain ⟨c, hc, rfl⟩ := List.mem_map.mp (List.mem_reverse.mp hd)
    exact Text.digitOf_lt (h.2 c hc)
  have hlt := Nat.ofDigits_lt_base_pow_length (by norm_num) hdigits
  rw [List.length_reverse, List.length_map] at hlt
  unfold Shape.value
  exact_mod_cast hlt

/-- The numbers of the atom are natural, and short enough to be read and written. -/
def Writable (a : Atom) : Prop :=
  ∀ v ∈ [a.first, a.last, a.step], 0 ≤ v ∧ v < 10 ^ Text.digitLimit

theorem Writable.decimal? {a : Atom} (h : a.Writable) :
    ∀ v ∈ [a.first, a.last, a.step], Text.decimal? v = some (Text.decimal v) := by
  intro v hv
  obtain ⟨hnonneg, hlt⟩ := h v hv
  have hnat : v.natAbs < 10 ^ Text.digitLimit := by
    zify
    rwa [abs_of_nonneg hnonneg]
  exact Text.decimal?_eq_some hnat

def explicit (a : Atom) : Shape :=
  .numbers (Text.numeral a.first.toNat) (some (Text.numeral a.last.toNat))
    (some (Text.numeral a.step.toNat))

variable {d : Domain} {a : Atom}

theorem Writable.toList_text (h : a.Writable) : a.text.toList = a.explicit.text := by
  have hdecimal : ∀ v ∈ [a.first, a.last, a.step],
      Text.decimal v = .ofList (Text.numeral v.toNat) :=
    fun v hv => Text.decimal_of_nonneg (h v hv).1
  have hfirst := hdecimal a.first (by simp)
  have hlast := hdecimal a.last (by simp)
  have hstep := hdecimal a.step (by simp)
  simp [text, explicit, Shape.text, hfirst, hlast, hstep]

theorem numerals_explicit (a : Atom) :
    a.explicit.numerals = [a.first, a.last, a.step].map fun v => Text.numeral v.toNat := rfl

theorem explicit_spells (a : Atom) : a.explicit.Spells a.explicit.text := by
  refine Shape.spells_iff.mpr ⟨rfl, ?_⟩
  rw [numerals_explicit, List.forall_mem_map]
  exact fun v _ => Shape.isNumeral_numeral v.toNat

theorem Writable.short (h : a.Writable) : a.explicit.Short := by
  unfold Shape.Short
  rw [numerals_explicit, List.forall_mem_map]
  intro v hv
  obtain ⟨hnonneg, hlt⟩ := h v hv
  have hnat : v.toNat < 10 ^ Text.digitLimit := by
    zify
    rwa [Int.toNat_of_nonneg hnonneg]
  exact Text.length_numeral_le (by decide) hnat

theorem Writable.canonical_explicit (h : a.Writable) : a.explicit.canonical a.domain = a := by
  have hvalue : ∀ v ∈ [a.first, a.last, a.step], Shape.value (Text.numeral v.toNat) = v := by
    intro v hv
    rw [Shape.value_numeral, Int.toNat_of_nonneg (h v hv).1]
  have hfirst := hvalue a.first (by simp)
  have hlast := hvalue a.last (by simp)
  have hstep := hvalue a.step (by simp)
  simp only [explicit, Shape.canonical, hfirst, hlast, Option.map_some, hstep, Option.getD_some]

theorem Shape.canonical_domain (d : Domain) (shape : Shape) : (shape.canonical d).domain = d := by
  rcases shape with n? | ⟨first, _ | last, _ | n⟩ <;> rfl

theorem Shape.canonical_step (d : Domain) (shape : Shape) :
    (shape.canonical d).step = 1 ∨ ∃ n ∈ shape.numerals, (shape.canonical d).step = value n := by
  rcases shape with ⟨_ | n⟩ | ⟨first, _ | last, _ | n⟩
  · exact Or.inl rfl
  · exact Or.inr ⟨n, by simp [numerals], rfl⟩
  · exact Or.inl rfl
  · exact Or.inr ⟨n, by simp [numerals], rfl⟩
  · exact Or.inl rfl
  · exact Or.inr ⟨n, by simp [numerals], rfl⟩

section Read

variable {text : String} (hd : ∀ v ∈ d, 0 ≤ v ∧ v < 64) (h : read d text = .ok a)
include hd h

theorem read_writable : a.Writable := by
  obtain ⟨shape, ⟨_, _, _, _, hspells, _⟩, hshort, rfl, hvalid⟩ := read_eq_ok_iff.mp h
  obtain ⟨_, hnumerals⟩ := Shape.spells_iff.mp hspells
  obtain ⟨_, _, hfirst, hlast, hstep⟩ := hvalid
  have hlimit {k : ℕ} (hk : k ≤ Text.digitLimit) : (10 : ℤ) ^ k ≤ 10 ^ Text.digitLimit :=
    pow_le_pow_right₀ (by norm_num) hk
  have hsmall {v : ℤ} (hv : 0 ≤ v ∧ v < 64) : 0 ≤ v ∧ v < 10 ^ Text.digitLimit := by
    have hhundred := hlimit (k := 2) (by decide)
    omega
  have hshortest : (shape.canonical d).step < 10 ^ Text.digitLimit := by
    rcases shape.canonical_step d with hone | ⟨n, hn, hvalue⟩
    · rw [hone]
      exact (hsmall (by norm_num)).2
    · rw [hvalue]
      exact (Shape.value_lt (hnumerals n hn)).trans_le (hlimit (hshort n hn))
  simp only [Writable, List.forall_mem_cons]
  exact ⟨hsmall (hd _ hfirst), hsmall (hd _ hlast), ⟨hstep.le, hshortest⟩, by simp⟩

theorem read_text : read d a.text = .ok a := by
  have hwritable := read_writable hd h
  obtain ⟨shape, _, _, hcanonical, hvalid⟩ := read_eq_ok_iff.mp h
  have hdomain : a.domain = d := hcanonical ▸ shape.canonical_domain d
  have hwrites : a.explicit.Writes a.text.toList :=
    ⟨[], _, [], by simp [hwritable.toList_text], a.explicit_spells, by simp, by simp⟩
  have hsame := hwritable.canonical_explicit
  rw [hdomain] at hsame
  exact read_eq_ok_iff.mpr ⟨a.explicit, hwrites, hwritable.short, hsame.symm, hvalid⟩

/-- Nothing in the explicit form ends an atom, a list or a field. -/
theorem plain_of_mem_text : ∀ c ∈ a.text.toList, c ≠ ',' ∧ Text.isSeparator c = false := by
  have hspells := a.explicit_spells
  rw [(read_writable hd h).toList_text]
  intro c hc
  refine ⟨?_, Text.isSeparator_of_isBlank (hspells.not_blank c hc)⟩
  rintro rfl
  exact hspells.comma_notMem hc

end Read

/-- The two texts are the same, or one of them is the explicit form of the other. -/
inductive Interchanges (d : Domain) : List Char → List Char → Prop where
  | same (s : List Char) : Interchanges d s s
  | explicit {s : List Char} {a : Atom} : read d (.ofList s) = .ok a →
      Interchanges d s a.text.toList
  | shorthand {s : List Char} {a : Atom} : read d (.ofList s) = .ok a →
      Interchanges d a.text.toList s

theorem read_of_interchanges (hd : ∀ v ∈ d, 0 ≤ v ∧ v < 64) {s t : List Char}
    (hst : Interchanges d s t) (h : read d (.ofList s) = .ok a) : read d (.ofList t) = .ok a := by
  cases hst with
  | same => exact h
  | @explicit _ b hb =>
    obtain rfl : a = b := Except.ok.inj (h.symm.trans hb)
    rw [String.ofList_toList]
    exact read_text hd h
  | @shorthand _ b hb =>
    have htext := read_text hd hb
    rw [String.ofList_toList, htext] at h
    exact Except.ok.inj h ▸ hb

end Atom

namespace Field

variable {d : Domain} {f : Field}

def Interchanges (d : Domain) (s t : List Char) : Prop :=
  List.Forall₂ (Atom.Interchanges d) (s.splitOn ',') (t.splitOn ',')

theorem Interchanges.refl (d : Domain) (s : List Char) : Interchanges d s s :=
  List.forall₂_same.mpr fun entry _ => .same entry

theorem read_of_interchanges (hd : ∀ v ∈ d, 0 ≤ v ∧ v < 64) {s t : List Char}
    (hst : Interchanges d s t) (h : read d (.ofList s) = .ok f) : read d (.ofList t) = .ok f := by
  rw [read_eq_ok_iff, String.toList_ofList] at h ⊢
  have hflip : List.Forall₂ (fun y x => Atom.Interchanges d x y) (t.splitOn ',') (s.splitOn ',') :=
    hst.flip
  have hread : ∀ y x a, Atom.Interchanges d x y → Atom.read d (.ofList x) = .ok a →
      Atom.read d (.ofList y) = .ok a :=
    fun _ _ _ hxy hx => Atom.read_of_interchanges hd hxy hx
  exact forall₂_trans hread hflip h

theorem exists_read_of_mem {text : String} (h : read d text = .ok f) :
    ∀ a ∈ f.atoms, ∃ s, Atom.read d s = .ok a := by
  have hboth : List.Forall₂ (fun a entry => (∃ s, Atom.read d s = .ok a) ∧
      Atom.read d (.ofList entry) = .ok a) f.atoms (text.toList.splitOn ',') :=
    ((read_eq_ok_iff.mp h).imp fun _ _ hread => ⟨⟨_, hread⟩, hread⟩).flip
  exact ((List.forall₂_and_left _ _).mp hboth).1

theorem toList_text (f : Field) :
    f.text.toList = [','].intercalate (f.atoms.map fun a => a.text.toList) := by
  unfold text
  rw [String.toList_intercalate, List.map_map]
  rfl

theorem interchanges_text (hd : ∀ v ∈ d, 0 ≤ v ∧ v < 64) {s : List Char}
    (h : read d (.ofList s) = .ok f) : Interchanges d s f.text.toList := by
  have hplain : ∀ entry ∈ f.atoms.map (fun a => a.text.toList), ',' ∉ entry := by
    rw [List.forall_mem_map]
    intro a ha hcomma
    obtain ⟨_, hread⟩ := exists_read_of_mem h a ha
    exact (Atom.plain_of_mem_text hd hread ',' hcomma).1 rfl
  rw [read_eq_ok_iff, String.toList_ofList] at h
  unfold Interchanges
  rw [toList_text, List.splitOn_intercalate ',' hplain (by simp [atoms]),
    List.forall₂_map_right_iff]
  exact h.imp fun _ _ hread => .explicit hread

theorem text_ne_nil (hd : ∀ v ∈ d, 0 ≤ v ∧ v < 64) {s : List Char}
    (h : read d (.ofList s) = .ok f) : f.text.toList ≠ [] := by
  have hread := read_of_interchanges hd (interchanges_text hd h) h
  obtain ⟨c, hc, _⟩ := exists_not_blank (fun v hv => (hd v hv).1) hread
  exact List.ne_nil_of_mem hc

theorem isSeparator_of_mem_text (hd : ∀ v ∈ d, 0 ≤ v ∧ v < 64) {text : String}
    (h : read d text = .ok f) : ∀ c ∈ f.text.toList, Text.isSeparator c = false := by
  rw [toList_text]
  refine Text.forall_mem_intercalate (by simp [Text.isSeparator]) ?_
  rw [List.forall_mem_map]
  intro a ha c hc
  obtain ⟨_, hread⟩ := exists_read_of_mem h a ha
  exact (Atom.plain_of_mem_text hd hread c hc).2

end Field

namespace Entry

/-- The sixth tokens are the same, and so are the numbers of tokens; the lists in the first five
have interchangeable entries. -/
structure Interchanges (tokens others : List (List Char)) : Prop where
  length : others.length = tokens.length
  fields : ∀ kind : FieldKind, Field.Interchanges kind.domain (tokens.getD kind.position [])
    (others.getD kind.position [])
  rest : others.getD 5 [] = tokens.getD 5 []

theorem ReadFrom.of_interchanges {e : Entry} {tokens others : List (List Char)}
    (h : e.ReadFrom tokens) (hlength : 5 ≤ others.length)
    (hfields : ∀ kind : FieldKind, Field.Interchanges kind.domain (tokens.getD kind.position [])
      (others.getD kind.position []))
    (hcontext : Text.trimEnd Text.isBlank (others.getD 5 []) =
      Text.trimEnd Text.isBlank (tokens.getD 5 [])) : e.ReadFrom others := by
  refine ⟨hlength, fun kind => ?_, hcontext ▸ h.context⟩
  exact Field.read_of_interchanges (fun _ => kind.domain_subset) (hfields kind) (h.fields kind)

theorem Spaced.head_getD {n : ℕ} {tokens : List (List Char)} {s : List Char}
    (h : Spaced n tokens s) : ∀ c ∈ (tokens.getD n []).head?, Text.isSeparator c = false := by
  induction h with
  | rest _ htrimmed => exact htrimmed.head
  | word => simp
  | cons _ _ _ ih => exact ih

theorem trimmed_context {line : String} {e : Entry} (h : read line = .ok e) :
    Text.Trimmed Text.isSeparator e.context.toList := by
  obtain ⟨_, blanks, htoken, _, hlast⟩ := denotedBy_parts h
  refine ⟨fun c hc => ?_, fun c hc => Text.isSeparator_of_isBlank (hlast c hc)⟩
  have hhead : c ∈ ((parts line.toList).getD 5 []).head? := by
    rw [htoken, List.head?_append, Option.mem_def.mp hc]
    rfl
  have htokens := tokens_iff.mpr (Eq.refl (parts line.toList))
  generalize parts line.toList = tokens at hhead htokens
  generalize line.toList = text at htokens
  cases htokens with
  | blank => contradiction
  | spaced _ hs _ => exact hs.head_getD c hhead

theorem toList_canonicalText (e : Entry) : e.canonicalText.toList =
    [' '].intercalate (FieldKind.all.map fun kind => (e.field kind).text.toList) ++
      ' ' :: e.context.toList := by
  simp [canonicalText, fields, String.toList_intercalate, Function.comp_def]

theorem exists_canonical_tokens {e : Entry} (hwords : ∀ kind, IsWord (e.field kind).text.toList)
    (hcontext : Text.Trimmed Text.isSeparator e.context.toList) : ∃ tokens,
      Tokens tokens e.canonicalText.toList ∧ 5 ≤ tokens.length ∧
      (∀ kind : FieldKind, tokens.getD kind.position [] = (e.field kind).text.toList) ∧
      tokens.getD 5 [] = e.context.toList := by
  let words := FieldKind.all.map fun kind => (e.field kind).text.toList
  have hwords : ∀ w ∈ words, IsWord w := by
    rw [List.forall_mem_map]
    exact fun kind _ => hwords kind
  have hline := toList_canonicalText e
  by_cases hempty : e.context.toList = []
  · refine ⟨words, ?_, le_rfl, fun kind => by cases kind <;> rfl, hempty.symm⟩
    have hnone : ∀ c ∈ ([] : List Char), Text.isSeparator c = true := by simp
    have hspaced : Spaced 5 words ([' '].intercalate words) := spaced_intercalate hwords
    have htokens : Tokens words ([] ++ [' '].intercalate words ++ [' ']) :=
      Tokens.spaced hnone hspaced isGap_space.2
    rw [hline, hempty]
    exact htokens
  · refine ⟨words ++ [e.context.toList], ?_, Nat.le_succ 5, fun kind => by cases kind <;> rfl, rfl⟩
    have hjoin : [' '].intercalate (words ++ [e.context.toList]) = e.canonicalText.toList := by
      rw [hline]
      simp [words, FieldKind.all, List.intercalate_cons_cons]
    have hspaced : Spaced 5 (words ++ [e.context.toList])
        ([' '].intercalate (words ++ [e.context.toList])) :=
      spaced_intercalate_concat hwords hempty hcontext
    rw [← hjoin]
    exact hspaced.toTokens

theorem same_of_readFrom {e : Entry} {tokens : List (List Char)} {line : String}
    (h : e.ReadFrom tokens) (htokens : Tokens tokens line.toList) :
    ∃ e', read line = .ok e' ∧ e'.same e = true := by
  obtain ⟨hlength, hfields, hcontext⟩ := h
  have hread : ({ e with expression := Text.strip line } : Entry).ReadFrom (parts line.toList) := by
    rw [← tokens_iff.mp htokens]
    exact ⟨hlength, fun kind => by cases kind <;> exact hfields _, hcontext⟩
  refine ⟨_, read_eq_ok_iff_readFrom.mpr ⟨hread, rfl⟩, ?_⟩
  simp [same, fields, FieldKind.all, field]

/-- The canonical text of an entry is read as the same entry. Any atom of a line may be written in
its explicit form, and any explicit form as a shorthand for it: the line is read as the same entry,
whatever separators stand in it. -/
theorem read_canonicalText {line : String} {e : Entry} (h : read line = .ok e) :
    (∀ kind, ∀ a ∈ (e.field kind).atoms, ∀ v ∈ [a.first, a.last, a.step],
      Text.decimal? v = some (Text.decimal v)) ∧
    (∃ e', read e.canonicalText = .ok e' ∧ e'.same e = true) ∧
    ∀ (tokens others : List (List Char)) (other : String), Tokens tokens line.toList →
      Tokens others other.toList → Interchanges tokens others →
      ∃ e', read other = .ok e' ∧ e'.same e = true := by
  have hdomain (kind : FieldKind) : ∀ v ∈ kind.domain, 0 ≤ v ∧ v < 64 :=
    fun _ => kind.domain_subset
  obtain ⟨hread, _⟩ := read_eq_ok_iff_readFrom.mp h
  refine ⟨fun kind a ha => ?_, ?_, fun tokens others other htokens hothers hsame => ?_⟩
  · obtain ⟨_, ha⟩ := Field.exists_read_of_mem (hread.fields kind) a ha
    exact (Atom.read_writable (hdomain kind) ha).decimal?
  · have hwords (kind : FieldKind) : IsWord (e.field kind).text.toList :=
      ⟨Field.text_ne_nil (hdomain kind) (hread.fields kind),
        Field.isSeparator_of_mem_text (hdomain kind) (hread.fields kind)⟩
    obtain ⟨tokens, htokens, hlength, hfields, hcontext⟩ :=
      exists_canonical_tokens hwords (trimmed_context h)
    refine same_of_readFrom (hread.of_interchanges hlength (fun kind => ?_) ?_) htokens
    · rw [hfields]
      exact Field.interchanges_text (hdomain kind) (hread.fields kind)
    · rw [hcontext, hread.context, String.toList_ofList]
      exact (Text.isCutOf_trimEnd _).trimEnd_eq
  · rw [← tokens_iff.mp htokens] at hread
    have hlength : 5 ≤ others.length := hsame.length ▸ hread.length
    exact same_of_readFrom (hread.of_interchanges hlength hsame.fields (by rw [hsame.rest])) hothers

/-- Every twenty minutes, as a shorthand and in the explicit form. -/
theorem read_canonicalText_twenty_minutes : ∃ e e' e'' : Entry,
    read "*/20 08-12 * * 1\tdo  it " = .ok e ∧
    e.canonicalText = "0-59/20 8-12/1 1-31/1 1-12/1 1-1/1 do  it" ∧
    read e.canonicalText = .ok e' ∧ e'.same e = true ∧
    read "0-59/20 08-12 * * 1 do  it" = .ok e'' ∧ e''.same e = true := by
  let line := "*/20 08-12 * * 1\tdo  it "
  let other := "0-59/20 08-12 * * 1 do  it"
  obtain ⟨e, he, htext⟩ : ∃ e, read line = .ok e ∧
      e.canonicalText = "0-59/20 8-12/1 1-31/1 1-12/1 1-1/1 do  it" :=
    exists_ok_of_decide (by decide +kernel)
  have hsame : Interchanges (parts line.toList) (parts other.toList) := by
    obtain ⟨a, ha, hexplicit⟩ : ∃ a, Atom.read FieldKind.minute.domain "*/20" = .ok a ∧
        a.text = "0-59/20" := exists_ok_of_decide (by decide +kernel)
    have hentry : Atom.Interchanges FieldKind.minute.domain "*/20".toList "0-59/20".toList :=
      hexplicit ▸ .explicit ha
    have hline : parts line.toList = "*/20".toList :: (parts line.toList).tail := by decide +kernel
    have hother : parts other.toList = "0-59/20".toList :: (parts line.toList).tail := by
      decide +kernel
    generalize (parts line.toList).tail = ts at hline hother
    rw [hline, hother]
    refine ⟨by simp, fun kind => ?_, rfl⟩
    cases kind with
    | minute => exact .cons hentry .nil
    | _ => exact .refl _ _
  obtain ⟨_, ⟨e', he', hsame'⟩, hinterchange⟩ := read_canonicalText he
  obtain ⟨e'', he'', hsame''⟩ :=
    hinterchange _ _ other (tokens_iff.mpr rfl) (tokens_iff.mpr rfl) hsame
  exact ⟨e, e', e'', he, htext, he', hsame', he'', hsame''⟩

end Entry

end Crontab
