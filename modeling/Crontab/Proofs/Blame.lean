import Crontab.Proofs.Faults

/-! What is blamed when a text is not read. An atom is refused for its form first and for its
numbers after that, and a line for the first fault of its first faulty field, which the message
names. -/
namespace Crontab

namespace Atom

theorem Shape.value_zeros_append (k : ℕ) (digits : List Char) :
    value (List.replicate k '0' ++ digits) = value digits := by
  have hzero : Text.digitOf '0' = 0 := by decide
  unfold value
  rw [List.map_append, List.map_replicate, hzero, List.reverse_append, List.reverse_replicate,
    Nat.ofDigits_append_replicate_zero]

theorem refused_expression {d : Domain} {text : String} {r : Refusal}
    (h : read d text = .error (.refused r)) : r.expression = text ∧ r.field = none := by
  by_cases hform : ∃ shape : Shape, shape.Writes text.toList
  · obtain ⟨shape, hwrites⟩ := hform
    rcases read_of_writes (d := d) hwrites with ⟨_, hread⟩ | ⟨_, _, _, hread⟩
    · rw [hread, outOfRange_eq] at h
      split_ifs at h <;> cases h
      exact ⟨rfl, rfl⟩
    · rw [hread] at h
      cases h
  · rw [read_of_not_writes hform] at h
    cases h
    exact ⟨rfl, rfl⟩

/-- In any domain, what is not in the grammar is refused for its form. The rest is the progression
of its shape if that rises between two numbers of the domain, none of them negative, and is refused
for its range if not, as long as the range can be written. Only a numeral beyond the limit, in the
text or as a bound, leaves the text without either. -/
theorem read_decides (d : Domain) (text : String) :
    ((¬ ∃ shape : Shape, shape.Writes text.toList) →
      read d text = .error (.refused ⟨.malformedAtom text, text, none⟩)) ∧
    (∀ shape : Shape, shape.Writes text.toList → shape.Short →
      let a := shape.canonical d
      read d text =
        if 0 ≤ a.first ∧ a.first ≤ a.last ∧ a.first ∈ d ∧ a.last ∈ d ∧ 1 ≤ a.step then .ok a
        else if d.Writable then
          .error (.refused ⟨.atomOutOfRange text d.text, text, none⟩)
        else .error .unwritable) ∧
    (∀ shape : Shape, shape.Writes text.toList → ¬ shape.Short →
      ∃ digits ∈ shape.numerals, Text.digitLimit < digits.length ∧
        read d text = .error (.overlong digits.length)) ∧
    (∀ r, read d text = .error (.refused r) →
      r.expression = text ∧ r.field = none ∧ r.position = -1) ∧
    ∀ k digits, Shape.value (List.replicate k '0' ++ digits) = Shape.value digits := by
  refine ⟨read_of_not_writes, ?_, ?_, ?_, Shape.value_zeros_append⟩
  · intro shape hwrites hshort a
    rcases read_of_writes (d := d) hwrites with ⟨_, hread⟩ | ⟨digits, hdigits, hlong, _⟩
    · rw [hread, outOfRange_eq, apply_ite Except.error]
      rfl
    · exact absurd (hshort digits hdigits) (not_le.mpr hlong)
  · intro shape hwrites hlong
    rcases read_of_writes (d := d) hwrites with ⟨hshort, _⟩ | hread
    · contradiction
    · exact hread
  · intro r hr
    obtain ⟨hexpression, hfield⟩ := refused_expression hr
    exact ⟨hexpression, hfield, by rw [Refusal.position, hfield]⟩

/-- A domain with negative numbers: `*` begins below zero, leading zeros and a vertical tab are
passed over, and a dash asks for a number. -/
theorem read_decides_below_zero : let d : Domain := ⟨-5, 40⟩
    read d "*" = .error (.refused ⟨.atomOutOfRange "*" "[-5,40]", "*", none⟩) ∧
    read d "\x0b0008-31/7 " = .ok ⟨8, 31, 7, d⟩ ∧
    read d "3-/5" = .error (.refused ⟨.malformedAtom "3-/5", "3-/5", none⟩) := by
  intro d
  have hwritable : d.Writable := by
    have hsmall : 10 ^ 2 ≤ 10 ^ Text.digitLimit := Nat.pow_le_pow_right (by decide) (by decide)
    exact ⟨lt_of_lt_of_le (by decide) hsmall, lt_of_lt_of_le (by decide) hsmall⟩
  let range : Shape := .numbers ['0', '0', '0', '8'] (some ['3', '1']) (some ['7'])
  have hstar : (Shape.star none).Writes "*".toList := Shape.read?_eq_some_iff.mp (by decide)
  have hrange : range.Writes "\x0b0008-31/7 ".toList := Shape.read?_eq_some_iff.mp (by decide)
  have hdash : ¬ ∃ shape : Shape, shape.Writes "3-/5".toList := by
    rintro ⟨shape, hshape⟩
    have hnone : Shape.read? "3-/5".toList = none := by decide
    rw [Shape.read?_eq_some_iff.mpr hshape] at hnone
    contradiction
  have hshort : range.Short := by
    unfold Shape.Short
    decide
  refine ⟨?_, ?_, (read_decides d "3-/5").1 hdash⟩
  · rw [(read_decides d "*").2.1 _ hstar (by simp [Shape.Short, Shape.numerals]),
      if_neg (by decide), if_pos hwritable]
    decide +kernel
  · rw [(read_decides d _).2.1 range hrange hshort]
    decide

theorem undecided_of_falling {d : Domain} (h : ¬ d.Writable) :
    (¬ ∃ a, read d "5-3" = .ok a) ∧ ¬ ∃ r, read d "5-3" = .error (.refused r) := by
  let range : Shape := .numbers ['5'] (some ['3']) none
  have hrange : range.Writes "5-3".toList := Shape.read?_eq_some_iff.mp (by decide)
  have hshort : range.Short := by
    unfold Shape.Short
    decide
  have hfalls : ¬ (range.canonical d).first ≤ (range.canonical d).last := by
    simp only [range, Shape.canonical]
    decide
  rcases read_of_writes (d := d) hrange with ⟨_, hread⟩ | ⟨digits, hdigits, hlong, _⟩
  · rw [hread, if_neg fun hvalid => hfalls hvalid.2.1, outOfRange_eq, if_neg h]
    simp
  · exact absurd (hshort digits hdigits) (not_le.mpr hlong)

/-- The numbers of `5-3` fall, but the upper bound has 4301 digits, too many for the complaint. -/
theorem read_undecided_unwritable : let d : Domain := ⟨0, 10 ^ Text.digitLimit⟩
    (¬ ∃ a, read d "5-3" = .ok a) ∧ ¬ ∃ r, read d "5-3" = .error (.refused r) := by
  have hpow (k : ℕ) : ((10 : ℤ) ^ k).natAbs = 10 ^ k := Int.natAbs_pow 10 k
  exact undecided_of_falling fun h => h.2.ne (hpow Text.digitLimit)

end Atom

theorem Field.read_error_cases {d : Domain} {text : String} {cause : ReadError}
    (hd : d.Writable) (h : Field.read d text = .error cause) :
    (∃ defect expression, cause = .refused ⟨defect, expression, none⟩) ∨
      ∃ n, cause = .overlong n := by
  obtain ⟨before, x, after, _, _, ⟨_, rfl⟩ | ⟨_, hx⟩⟩ := Field.read_eq_error_iff.mp h
  · exact Or.inl ⟨_, _, rfl⟩
  · rcases Atom.read_error_cases hd hx with ⟨_, defect, rfl⟩ | ⟨_, n, _, rfl⟩
    · exact Or.inl ⟨defect, x, rfl⟩
    · exact Or.inr ⟨n, rfl⟩

namespace Entry

variable {line : String} {cause : ReadError}

/-- A fault of a field as it is reported for the line: the same defect, with the whole line, the
name of the field and its label in the message. An over-long numeral is not blamed on the field. -/
inductive Blames (line : String) (kind : FieldKind) : ReadError → ReadError → Prop where
  | refused {r r' : Refusal} : r'.defect = r.defect → r'.expression = line →
      r'.field = some kind → r'.position = kind.position →
      r'.message = kind.label ++ ": " ++ r.message → Blames line kind (.refused r) (.refused r')
  | overlong {n : ℕ} : Blames line kind (.overlong n) (.overlong n)

theorem blames_refused_iff {kind : FieldKind} {defect : Defect} {expression : String} :
    Blames line kind (.refused ⟨defect, expression, none⟩) cause ↔
      cause = .refused ⟨defect, line, some kind⟩ := by
  constructor
  · intro h
    cases h with
    | @refused _ r hdefect hline hfield _ _ =>
      cases r
      simp only at hdefect hline hfield
      rw [hdefect, hline, hfield]
  · rintro rfl
    exact .refused rfl rfl rfl rfl rfl

theorem blames_overlong_iff {kind : FieldKind} {n : ℕ} :
    Blames line kind (.overlong n) cause ↔ cause = .overlong n := by
  constructor
  · intro h
    cases h
    rfl
  · rintro rfl
    exact .overlong

theorem readField_eq_error_iff {kind : FieldKind} {part : List Char} :
    readField line kind part = .error cause ↔
      ∃ original, Field.read kind.domain (.ofList part) = .error original ∧
        Blames line kind original cause := by
  unfold readField
  cases hread : Field.read kind.domain (.ofList part) with
  | ok f => simp
  | error original =>
    rcases Field.read_error_cases kind.domain_writable hread with
      ⟨defect, expression, rfl⟩ | ⟨n, rfl⟩
    · simp [blames_refused_iff, Refusal.inField, eq_comm]
    · simp [blames_overlong_iff, eq_comm]

theorem read_eq_error_iff (h : 5 ≤ (parts line.toList).length) : read line = .error cause ↔
    ∃ kind : FieldKind, (∀ k : FieldKind, k.position < kind.position →
      ∃ f, readField line k (token line k) = .ok f) ∧
      readField line kind (token line kind) = .error cause := by
  constructor
  · intro hread
    rcases exists_leftmost h with ⟨e, he⟩ | ⟨kind, hbefore, other, hother⟩
    · rw [he] at hread
      contradiction
    · rw [read_of_leftmost h hbefore hother] at hread
      obtain rfl := Except.error.inj hread
      exact ⟨kind, hbefore, hother⟩
  · rintro ⟨kind, hbefore, hkind⟩
    exact read_of_leftmost h hbefore hkind

structure FirstFault (tokens : List (List Char)) (kind : FieldKind) (original : ReadError) :
    Prop where
  before : ∀ k : FieldKind, k.position < kind.position →
    ∃ f, Field.read k.domain (.ofList (tokens.getD k.position [])) = .ok f
  fault : Field.read kind.domain (.ofList (tokens.getD kind.position [])) = .error original

theorem read_eq_error_iff_firstFault (h : 5 ≤ (parts line.toList).length) :
    read line = .error cause ↔ ∃ kind original, FirstFault (parts line.toList) kind original ∧
      Blames line kind original cause := by
  rw [read_eq_error_iff h]
  simp only [readField_eq_ok_iff, readField_eq_error_iff, token]
  constructor
  · rintro ⟨kind, hbefore, original, hfault, hblames⟩
    exact ⟨kind, original, ⟨hbefore, hfault⟩, hblames⟩
  · rintro ⟨kind, original, hfirst, hblames⟩
    exact ⟨kind, hfirst.before, original, hfirst.fault, hblames⟩

/-- A line with too few tokens is refused as a whole. Any other is not read exactly if one of its
fields is not. The first of these is to blame, and in it the first entry of the list that is no
atom, whatever stands in the fields after it and in the context. -/
theorem read_blames_leftmost (line : String) : ∃ tokens : List (List Char),
    (∀ ts, Tokens ts line.toList ↔ ts = tokens) ∧
    (tokens.length < 5 → ∃ r, read line = .error (.refused r) ∧
      r.defect = .tooFewFields tokens.length ∧ r.expression = line ∧ r.field = none ∧
      r.position = -1) ∧
    (5 ≤ tokens.length → ∀ cause, read line = .error cause ↔
      ∃ kind original, FirstFault tokens kind original ∧ Blames line kind original cause) ∧
    ∀ kind original, FirstFault tokens kind original →
      Field.FaultyEntry .refused (Atom.read kind.domain)
        (.ofList (tokens.getD kind.position [])) original := by
  refine ⟨parts line.toList, fun ts => tokens_iff, ?_, ?_, ?_⟩
  · intro hfew
    have hread := read_of_length_lt hfew
    exact ⟨_, hread, rfl, rfl, rfl, rfl⟩
  · intro hmany cause
    exact read_eq_error_iff_firstFault hmany
  · intro kind original hfirst
    exact Field.read_eq_error_iff.mp hfirst.fault

/-- Four fields are faulty, the hour in two of its entries: it is blamed for the first of these. -/
theorem read_blames_leftmost_hour : ∃ r,
    read "\t5 0,24,x 32 1- 7\tjob\t" = .error (.refused r) ∧
    r.expression = "\t5 0,24,x 32 1- 7\tjob\t" ∧ r.field = some .hour ∧ r.position = 1 ∧
    r.message = "hour: Expression '24' is not valid for range [0,23]" := by
  let line := "\t5 0,24,x 32 1- 7\tjob\t"
  let original : Refusal := ⟨.atomOutOfRange "24" "[0,23]", "24", none⟩
  have hparts : parts line.toList =
      ["5".toList, "0,24,x".toList, "32".toList, "1-".toList, "7".toList, "job".toList] := by
    decide +kernel
  obtain ⟨tokens, htokens, _, hmany, _⟩ := read_blames_leftmost line
  obtain rfl : _ = tokens := (htokens _).mp (tokens_iff.mpr hparts.symm)
  have hminute : Field.read ⟨0, 59⟩ "5" = .ok ⟨.single ⟨0, 59⟩ 5, []⟩ := by decide +kernel
  have hhour : Field.read ⟨0, 23⟩ "0,24,x" = .error (.refused original) := by decide +kernel
  refine ⟨⟨original.defect, line, some .hour⟩, ?_, rfl, rfl, rfl, by decide +kernel⟩
  refine (hmany (by simp) _).mpr ⟨.hour, .refused original, ⟨fun k hk => ?_, hhour⟩, ?_⟩
  · cases k with
    | minute => exact ⟨_, hminute⟩
    | _ => contradiction
  · exact blames_refused_iff.mpr rfl

end Entry

end Crontab
