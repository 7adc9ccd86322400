import Crontab.Proofs.FieldList

/-! What the texts of atoms and fields denote: reading them decides the grammar, and gives the
progression of a shape. -/
namespace Crontab

theorem bind_eq_ok {ε α β : Type} {x : Except ε α} {f : α → Except ε β} {b : β} :
    (x >>= f) = .ok b ↔ ∃ a, x = .ok a ∧ f a = .ok b := by
  cases x with
  | error e => exact ⟨fun h => (nomatch h), fun ⟨_, h, _⟩ => (nomatch h)⟩
  | ok a => exact ⟨fun h => ⟨a, rfl, h⟩, fun ⟨_, ha, hb⟩ => (Except.ok.inj ha) ▸ hb⟩

theorem mapError_eq_ok_iff {ε ε' α : Type} {x : Except ε α} {f : ε → ε'} {a : α} :
    x.mapError f = .ok a ↔ x = .ok a := by
  cases x <;> simp [Except.mapError]

theorem mapM_eq_ok_of_forall {ε α β : Type} {f : α → Except ε β} {g : α → β} {as : List α}
    (h : ∀ a ∈ as, f a = .ok (g a)) : as.mapM f = .ok (as.map g) := by
  induction as with
  | nil => rfl
  | cons a as ih =>
    obtain ⟨ha, has⟩ := List.forall_mem_cons.mp h
    rw [List.mapM_cons, ha, ih has]
    rfl

/-- What a run gives can be found out by the run. -/
theorem exists_ok_of_decide {ε α : Type} {x : Except ε α} {p : α → Prop} [DecidablePred p]
    (h : (match x with
      | .ok a => decide (p a)
      | .error _ => false) = true) : ∃ a, x = .ok a ∧ p a := by
  cases x with
  | error e => contradiction
  | ok a => exact ⟨a, rfl, of_decide_eq_true h⟩

namespace Text

theorem isBlank_of_isDigit {c : Char} (h : c.isDigit = true) : isBlank c = false := by
  have hrange := toNat_of_isDigit h
  simp only [isBlank, isBlankPoint, Bool.or_eq_false_iff, Bool.and_eq_false_iff,
    beq_eq_false_iff_ne, decide_eq_false_iff_not]
  omega

end Text

namespace Atom

namespace Shape

variable {shape : Shape} {core digits rest : List Char}

/-- The numerals that are written, from left to right. -/
def numerals : Shape → List (List Char)
  | star n? => n?.toList
  | numbers a b? n? => a :: (b?.toList ++ n?.toList)

/-- No numeral is longer than the limit. -/
def Short (shape : Shape) : Prop :=
  ∀ digits ∈ shape.numerals, digits.length ≤ Text.digitLimit

/-- The number that a numeral stands for, whatever its length. -/
def value (digits : List Char) : ℤ :=
  (Nat.ofDigits 10 (digits.map Text.digitOf).reverse : ℕ)

/-- The progression that is written: `*` is the whole domain, `a` alone one number, and `a/n` goes
on to the end of the domain. -/
def canonical (d : Domain) : Shape → Atom
  | star n? => ⟨d.lo, d.hi, (n?.map value).getD 1, d⟩
  | numbers a none none => ⟨value a, value a, 1, d⟩
  | numbers a none (some n) => ⟨value a, d.hi, value n, d⟩
  | numbers a (some b) n? => ⟨value a, value b, (n?.map value).getD 1, d⟩

/-- What stands for an optional numeral: nothing, or a mark in front of it. -/
def marked (mark : Char) : Option (List Char) → List Char
  | none => []
  | some digits => mark :: digits

@[simp] theorem marked_none (mark : Char) : marked mark none = [] := rfl

@[simp] theorem marked_some (mark : Char) (digits : List Char) :
    marked mark (some digits) = mark :: digits := rfl

def text : Shape → List Char
  | star n? => '*' :: marked '/' n?
  | numbers a b? n? => a ++ marked '-' b? ++ marked '/' n?

theorem spells_iff : shape.Spells core ↔ core = shape.text ∧ ∀ n ∈ shape.numerals, IsNumeral n := by
  constructor
  · intro h
    cases h <;> simp_all [Shape.text, numerals]
  · intro h
    obtain ⟨rfl, h⟩ := h
    rcases shape with ⟨_ | n⟩ | ⟨a, _ | b, _ | n⟩ <;> simp_all [Shape.text, numerals]
    · exact .star
    · exact .starStep h
    · exact .single h
    · exact .singleStep h.1 h.2
    · exact .range h.1 h.2
    · simpa using Spells.rangeStep h.1 h.2.1 h.2.2

theorem isNumeral_iff : IsNumeral digits ↔ (!digits.isEmpty && digits.all Char.isDigit) = true := by
  simp [IsNumeral]

theorem isNumeral_takeWhile (h : ¬ (core.takeWhile Char.isDigit).isEmpty = true) :
    IsNumeral (core.takeWhile Char.isDigit) :=
  ⟨mt List.isEmpty_iff.mpr h, fun _ hc => List.mem_takeWhile_imp hc⟩

theorem step?_eq_some_iff {n? : Option (List Char)} :
    step? core = some n? ↔ core = marked '/' n? ∧ ∀ n ∈ n?, IsNumeral n := by
  unfold step?
  split
  · cases n? <;> simp
  · next digits =>
    by_cases hdigits : IsNumeral digits
    · rw [if_pos (isNumeral_iff.mp hdigits)]
      cases n? with
      | none => simp
      | some n => simpa using fun h => h ▸ hdigits
    · rw [if_neg (mt isNumeral_iff.mpr hdigits)]
      cases n? with
      | none => simp
      | some n => simpa using fun h => h ▸ hdigits
  · next hnil hslash =>
    cases n? with
    | none => simpa using hnil
    | some n => simpa using fun h => absurd h (hslash n)

/-- What follows a numeral: a mark, and nothing else. -/
theorem head?_marked {mark : Char} (hmark : mark.isDigit = false) (n? : Option (List Char)) :
    ∀ c ∈ (marked mark n?).head?, c.isDigit = false := by
  cases n? with
  | none => simp
  | some n => simpa using hmark

theorem IsNumeral.append_ne_star (h : IsNumeral digits) (s : List Char) :
    digits ++ rest ≠ '*' :: s := by
  obtain ⟨hne, hdigits⟩ := h
  obtain ⟨c, digits, rfl⟩ := List.exists_cons_of_ne_nil hne
  intro heq
  obtain rfl : c = '*' := (List.cons.inj heq).1
  exact absurd (hdigits _ List.mem_cons_self) (by decide)

theorem ofCore?_text (h : ∀ n ∈ shape.numerals, IsNumeral n) : ofCore? shape.text = some shape := by
  have hslash := head?_marked (rfl : '/'.isDigit = false)
  rcases shape with n? | ⟨a, b?, n?⟩
  · have hstep : step? (marked '/' n?) = some n? :=
      step?_eq_some_iff.mpr ⟨rfl, fun n hn => h n (by simpa [numerals] using hn)⟩
    simp [Shape.text, ofCore?, hstep]
  · have ha : IsNumeral a := h a List.mem_cons_self
    have hstep : step? (marked '/' n?) = some n? :=
      step?_eq_some_iff.mpr ⟨rfl, fun n hn => h n (by simp_all [numerals])⟩
    cases b? with
    | none =>
      have htake := Text.takeWhile_append_eq_left ha.2 (hslash n?)
      have hdrop := Text.dropWhile_append_eq_right ha.2 (hslash n?)
      simp only [Shape.text, marked_none, List.append_nil]
      unfold ofCore?
      split
      · next heq => exact absurd heq (ha.append_ne_star _)
      · simp only [htake, hdrop, List.isEmpty_iff, ha.1, if_false]
        cases n? <;> exact congrArg (Option.map (numbers a none)) hstep
    | some b =>
      have hb : IsNumeral b := h b (by simp [numerals])
      have hdash : ∀ c ∈ ('-' :: (b ++ marked '/' n?)).head?, c.isDigit = false := by simp
      have htake := Text.takeWhile_append_eq_left ha.2 hdash
      have hdrop := Text.dropWhile_append_eq_right ha.2 hdash
      have hlast := Text.takeWhile_append_eq_left hb.2 (hslash n?)
      have hrest := Text.dropWhile_append_eq_right hb.2 (hslash n?)
      simp only [Shape.text, marked_some, List.append_assoc, List.cons_append]
      unfold ofCore?
      split
      · next heq => exact absurd heq (ha.append_ne_star _)
      · simp only [htake, hdrop, hlast, hrest, List.isEmpty_iff, ha.1, hb.1, if_false, hstep]
        rfl

theorem eq_text_of_ofCore? (h : ofCore? core = some shape) :
    core = shape.text ∧ ∀ n ∈ shape.numerals, IsNumeral n := by
  unfold ofCore? at h
  split at h
  · next rest =>
    obtain ⟨n?, hstep, rfl⟩ := Option.map_eq_some_iff.mp h
    obtain ⟨rfl, hn⟩ := step?_eq_some_iff.mp hstep
    exact ⟨rfl, fun n h => hn n (by simpa [numerals] using h)⟩
  · by_cases hfirst : (core.takeWhile Char.isDigit).isEmpty = true
    · rw [if_pos hfirst] at h
      contradiction
    · rw [if_neg hfirst] at h
      have ha := isNumeral_takeWhile hfirst
      have hcore : core.takeWhile Char.isDigit ++ core.dropWhile Char.isDigit = core :=
        List.takeWhile_append_dropWhile
      generalize core.takeWhile Char.isDigit = a at h ha hcore
      split at h
      · next rest hdash =>
        by_cases hlast : (rest.takeWhile Char.isDigit).isEmpty = true
        · rw [if_pos hlast] at h
          contradiction
        · rw [if_neg hlast] at h
          have hb := isNumeral_takeWhile hlast
          have hrest : rest.takeWhile Char.isDigit ++ rest.dropWhile Char.isDigit = rest :=
            List.takeWhile_append_dropWhile
          obtain ⟨n?, hstep, rfl⟩ := Option.map_eq_some_iff.mp h
          obtain ⟨hmarked, hn⟩ := step?_eq_some_iff.mp hstep
          constructor
          · rw [hmarked] at hrest
            rw [← hcore, hdash]
            simp only [Shape.text, marked_some, List.append_assoc, List.cons_append, hrest]
          · simpa [numerals, ha, hb] using hn
      · obtain ⟨n?, hstep, rfl⟩ := Option.map_eq_some_iff.mp h
        obtain ⟨hmarked, hn⟩ := step?_eq_some_iff.mp hstep
        constructor
        · rw [← hcore, hmarked]
          simp [Shape.text]
        · simpa [numerals, ha] using hn

theorem ofCore?_eq_some_iff : ofCore? core = some shape ↔ shape.Spells core := by
  rw [spells_iff]
  constructor
  · exact eq_text_of_ofCore?
  · intro h
    obtain ⟨rfl, hnumerals⟩ := h
    exact ofCore?_text hnumerals

/-- Digits and three marks are all that is written. -/
theorem Spells.isDigit_or_mark (h : shape.Spells core) :
    ∀ c ∈ core, c.isDigit = true ∨ c ∈ ['*', '/', '-'] := by
  have hnumeral {n : List Char} (hn : IsNumeral n) :
      ∀ c ∈ n, c.isDigit = true ∨ c ∈ ['*', '/', '-'] :=
    fun c hc => Or.inl (hn.2 c hc)
  have hmark {mark : Char} {n : List Char} (hmem : mark ∈ ['*', '/', '-']) (hn : IsNumeral n) :
      ∀ c ∈ mark :: n, c.isDigit = true ∨ c ∈ ['*', '/', '-'] :=
    List.forall_mem_cons.mpr ⟨Or.inr hmem, hnumeral hn⟩
  cases h with
  | star => simp
  | starStep hn => exact List.forall_mem_cons.mpr ⟨by simp, hmark (by simp) hn⟩
  | single ha => exact hnumeral ha
  | singleStep ha hn => exact List.forall_mem_append.mpr ⟨hnumeral ha, hmark (by simp) hn⟩
  | range ha hb => exact List.forall_mem_append.mpr ⟨hnumeral ha, hmark (by simp) hb⟩
  | rangeStep ha hb hn =>
    refine List.forall_mem_append.mpr ⟨?_, hmark (by simp) hn⟩
    exact List.forall_mem_append.mpr ⟨hnumeral ha, hmark (by simp) hb⟩

theorem Spells.not_blank (h : shape.Spells core) : ∀ c ∈ core, Text.isBlank c = false := by
  have hmarks : Text.isBlank '*' = false ∧ Text.isBlank '/' = false ∧ Text.isBlank '-' = false := by
    decide
  intro c hc
  rcases h.isDigit_or_mark c hc with hdigit | hmark
  · exact Text.isBlank_of_isDigit hdigit
  · simp only [List.mem_cons, List.not_mem_nil, or_false] at hmark
    rcases hmark with rfl | rfl | rfl
    · exact hmarks.1
    · exact hmarks.2.1
    · exact hmarks.2.2

theorem Spells.comma_notMem (h : shape.Spells core) : ',' ∉ core := by
  intro hc
  exact absurd (h.isDigit_or_mark ',' hc) (by decide)

theorem Spells.ne_nil (h : shape.Spells core) : core ≠ [] := by
  cases h with
  | single ha => exact ha.1
  | _ => simp

theorem read?_eq_some_iff {text : List Char} : read? text = some shape ↔ shape.Writes text := by
  unfold read?
  rw [ofCore?_eq_some_iff]
  constructor
  · intro h
    have htrim := Text.trim_eq_iff.mp (Eq.refl (Text.trim Text.isAsciiBlank text))
    obtain ⟨_, before, after, htext, hbefore, hafter⟩ := htrim
    exact ⟨before, _, after, htext, h, hbefore, hafter⟩
  · intro h
    obtain ⟨before, core, after, htext, hspells, hbefore, hafter⟩ := h
    have htrimmed : Text.Trimmed Text.isAsciiBlank core := .of_forall fun c hc =>
      Bool.eq_false_iff.mpr <| mt Text.isBlank_of_isAsciiBlank <|
        Bool.eq_false_iff.mp (hspells.not_blank c hc)
    rwa [Text.trim_eq_iff.mpr ⟨htrimmed, before, after, htext, hbefore, hafter⟩]

theorem Writes.unique {text : List Char} {other : Shape} (h : shape.Writes text)
    (hother : other.Writes text) : other = shape := by
  have hread := read?_eq_some_iff.mpr h
  rw [read?_eq_some_iff.mpr hother] at hread
  exact Option.some.inj hread

theorem Writes.exists_not_blank {text : List Char} (h : shape.Writes text) :
    ∃ c ∈ text, Text.isBlank c = false := by
  obtain ⟨before, core, after, rfl, hspells, _⟩ := h
  obtain ⟨c, core, rfl⟩ := List.exists_cons_of_ne_nil hspells.ne_nil
  exact ⟨c, by simp, hspells.not_blank c List.mem_cons_self⟩

theorem Writes.strip_ne_empty {text : String} (h : shape.Writes text.toList) :
    Text.strip text ≠ "" := by
  obtain ⟨c, hc, hnot⟩ := h.exists_not_blank
  intro hblank
  rw [Text.strip_eq_empty_iff.mp hblank c hc] at hnot
  contradiction

end Shape

theorem number_cases (digits : List Char) :
    (digits.length ≤ Text.digitLimit ∧ number digits = .ok (Shape.value digits)) ∨
      (Text.digitLimit < digits.length ∧ number digits = .error (.overlong digits.length)) := by
  unfold number Text.readNumeral
  by_cases h : Text.digitLimit < digits.length
  · right
    exact ⟨h, by rw [if_pos h]⟩
  · left
    refine ⟨not_lt.mp h, ?_⟩
    rw [if_neg h, Text.ofDigits_eq]
    rfl

theorem number?_cases (digits? : Option (List Char)) :
    ((∀ digits ∈ digits?, digits.length ≤ Text.digitLimit) ∧
      number? digits? = .ok (digits?.map Shape.value)) ∨
    ∃ digits ∈ digits?, Text.digitLimit < digits.length ∧
      number? digits? = .error (.overlong digits.length) := by
  cases digits? with
  | none => exact Or.inl ⟨by simp, rfl⟩
  | some digits =>
    rcases number_cases digits with ⟨hshort, hnumber⟩ | ⟨hlong, hnumber⟩
    · exact Or.inl ⟨by simpa using hshort, by rw [number?, hnumber]; rfl⟩
    · exact Or.inr ⟨digits, rfl, hlong, by rw [number?, hnumber]; rfl⟩

theorem ofShape_cases (d : Domain) (shape : Shape) :
    (shape.Short ∧ ofShape d shape = .ok (shape.canonical d)) ∨
    ∃ digits ∈ shape.numerals, Text.digitLimit < digits.length ∧
      ofShape d shape = .error (.overlong digits.length) := by
  cases shape with
  | star n? =>
    rcases number?_cases n? with ⟨hn, hstep⟩ | ⟨n, hn, hlong, hstep⟩
    · left
      constructor
      · exact fun n h => hn n (by simpa [Shape.numerals] using h)
      · rw [ofShape, hstep]
        rfl
    · right
      refine ⟨n, by simpa [Shape.numerals] using hn, hlong, ?_⟩
      rw [ofShape, hstep]
      rfl
  | numbers a b? n? =>
    -- the numerals are converted from left to right, up to the first that is too long
    rcases number_cases a with ⟨ha, hfirst⟩ | ⟨hlong, hfirst⟩
    · rcases number?_cases b? with ⟨hb, hlast⟩ | ⟨b, hb, hlong, hlast⟩
      · rcases number?_cases n? with ⟨hn, hstep⟩ | ⟨n, hn, hlong, hstep⟩
        · left
          constructor
          · intro digits h
            simp only [Shape.numerals, List.mem_cons, List.mem_append, Option.mem_toList] at h
            rcases h with rfl | h | h
            · exact ha
            · exact hb digits h
            · exact hn digits h
          · rw [ofShape, hfirst, hlast, hstep]
            cases b? <;> cases n? <;> rfl
        · right
          refine ⟨n, by simp_all [Shape.numerals], hlong, ?_⟩
          rw [ofShape, hfirst, hlast, hstep]
          rfl
      · right
        refine ⟨b, by simp_all [Shape.numerals], hlong, ?_⟩
        rw [ofShape, hfirst, hlast]
        rfl
    · right
      refine ⟨a, List.mem_cons_self, hlong, ?_⟩
      rw [ofShape, hfirst]
      rfl

theorem ofShape_eq_ok_iff {d : Domain} {shape : Shape} {a : Atom} :
    ofShape d shape = .ok a ↔ shape.Short ∧ a = shape.canonical d := by
  rcases ofShape_cases d shape with ⟨hshort, heq⟩ | ⟨n, hn, hlong, heq⟩ <;> rw [heq]
  · simp [hshort, eq_comm]
  · constructor
    · intro h
      contradiction
    · intro h
      exact absurd (h.1 n hn) (not_le.mpr hlong)

theorem read_eq_ok_iff {d : Domain} {text : String} {a : Atom} :
    read d text = .ok a ↔ ∃ shape : Shape,
      shape.Writes text.toList ∧ shape.Short ∧ a = shape.canonical d ∧ a.Valid d := by
  unfold read
  cases hread : Shape.read? text.toList with
  | none =>
    constructor
    · intro h
      contradiction
    · intro h
      obtain ⟨shape, hwrites, _⟩ := h
      rw [Shape.read?_eq_some_iff.mpr hwrites] at hread
      contradiction
  | some shape =>
    have hwrites := Shape.read?_eq_some_iff.mp hread
    simp only [bind_eq_ok, ofShape_eq_ok_iff]
    constructor
    · intro h
      obtain ⟨b, ⟨hshort, rfl⟩, h⟩ := h
      split at h
      · next hvalid =>
        obtain rfl := Except.ok.inj h
        exact ⟨shape, hwrites, hshort, rfl, hvalid⟩
      · contradiction
    · intro h
      obtain ⟨other, hother, hshort, rfl, hvalid⟩ := h
      obtain rfl := hwrites.unique hother
      exact ⟨_, ⟨hshort, rfl⟩, if_pos hvalid⟩

theorem strip_ne_empty_of_read {d : Domain} {text : String} {a : Atom}
    (h : read d text = .ok a) : Text.strip text ≠ "" := by
  obtain ⟨shape, hwrites, _⟩ := read_eq_ok_iff.mp h
  exact hwrites.strip_ne_empty

theorem read_valid {d : Domain} {text : String} {a : Atom} (h : read d text = .ok a) :
    a.Valid d := by
  obtain ⟨_, _, _, _, hvalid⟩ := read_eq_ok_iff.mp h
  exact hvalid

/-- What the grammar gives to a text in a domain: a rising progression between two numbers of the
domain. -/
def Denotes (d : Domain) (text : List Char) (a : Atom) : Prop :=
  ∃ shape : Shape, shape.Writes text ∧ a = shape.canonical d ∧
    a.first ≤ a.last ∧ a.first ∈ d ∧ a.last ∈ d ∧ 1 ≤ a.step

/-- A text of the grammar with a numeral beyond the limit. -/
def Overlong (text : List Char) : Prop :=
  ∃ shape : Shape, shape.Writes text ∧ ¬ shape.Short

theorem Denotes.unique {d : Domain} {text : List Char} {a b : Atom} (ha : Denotes d text a)
    (hb : Denotes d text b) : a = b := by
  obtain ⟨shape, hshape, rfl, _⟩ := ha
  obtain ⟨other, hother, rfl, _⟩ := hb
  rw [hshape.unique hother]

theorem Denotes.exists_not_blank {d : Domain} {text : List Char} {a : Atom}
    (h : Denotes d text a) : ∃ c ∈ text, Text.isBlank c = false := by
  obtain ⟨shape, hshape, _⟩ := h
  exact hshape.exists_not_blank

/-- In a domain of natural numbers the grammar and the limit on numerals decide what is read. -/
theorem read_eq_ok_iff_denotes {d : Domain} (hd : ∀ v ∈ d, 0 ≤ v) {text : String} {a : Atom} :
    read d text = .ok a ↔ ¬ Overlong text.toList ∧ Denotes d text.toList a := by
  rw [read_eq_ok_iff]
  constructor
  · intro h
    obtain ⟨shape, hwrites, hshort, rfl, _, hle, hfirst, hlast, hstep⟩ := h
    refine ⟨?_, shape, hwrites, rfl, hle, hfirst, hlast, hstep⟩
    intro h
    obtain ⟨other, hother, hlong⟩ := h
    exact hlong (hother.unique hwrites ▸ hshort)
  · intro h
    obtain ⟨hshort, shape, hwrites, rfl, hle, hfirst, hlast, hstep⟩ := h
    refine ⟨shape, hwrites, ?_, rfl, hd _ hfirst, hle, hfirst, hlast, hstep⟩
    by_contra hlong
    exact hshort ⟨shape, hwrites, hlong⟩

end Atom

namespace Field

/-- What the grammar gives to a text in a domain: one atom for each entry between the commas, none
of which is blank. -/
def Denotes (d : Domain) (text : List Char) (f : Field) : Prop :=
  (∀ entry ∈ text.splitOn ',', ∃ c ∈ entry, Text.isBlank c = false) ∧
    List.Forall₂ (Atom.Denotes d) (text.splitOn ',') f.atoms

def Overlong (text : List Char) : Prop :=
  ∃ entry ∈ text.splitOn ',', Atom.Overlong entry

theorem Denotes.unique {d : Domain} {text : List Char} {f g : Field} (hf : Denotes d text f)
    (hg : Denotes d text g) : f = g := by
  have hatoms : f.atoms = g.atoms :=
    List.right_unique_forall₂' (fun _ _ _ ha hb => ha.unique hb) hf.2 hg.2
  obtain ⟨hhead, htail⟩ := List.cons.inj hatoms
  cases f
  cases g
  simp_all

theorem read_eq_ok_iff {d : Domain} {text : String} {f : Field} : read d text = .ok f ↔
    List.Forall₂ (fun entry a => Atom.read d (.ofList entry) = .ok a) (text.toList.splitOn ',')
      f.atoms := by
  have hread : read d text = .ok f ↔
      List.Forall₂ (fun x a => Text.strip x ≠ "" ∧ Atom.read d x = .ok a) (entries text) f.atoms :=
    readWith_eq_ok_iff
  rw [hread, entries, List.forall₂_map_left_iff]
  constructor
  · exact fun h => h.imp fun _ _ ha => ha.2
  · exact fun h => h.imp fun _ _ ha => ⟨Atom.strip_ne_empty_of_read ha, ha⟩

theorem read_eq_ok_iff_denotes {d : Domain} (hd : ∀ v ∈ d, 0 ≤ v) {text : String} {f : Field} :
    read d text = .ok f ↔ ¬ Overlong text.toList ∧ Denotes d text.toList f := by
  simp only [read_eq_ok_iff, Atom.read_eq_ok_iff_denotes hd, String.toList_ofList,
    List.forall₂_and_left, Overlong, not_exists, not_and]
  constructor
  · intro h
    obtain ⟨hshort, hatoms⟩ := h
    refine ⟨hshort, ?_, hatoms⟩
    have hboth := hatoms.imp fun entry a h => And.intro h.exists_not_blank h
    exact ((List.forall₂_and_left _ _).mp hboth).1
  · intro h
    obtain ⟨hshort, _, hatoms⟩ := h
    exact ⟨hshort, hatoms⟩

end Field

end Crontab
