import Crontab.Proofs.Language

/-! What stops the reading of a line: the leftmost fault. It is a refusal with a message, unless a
numeral beyond the limit comes first. -/
namespace Crontab

theorem bind_eq_error {ε α β : Type} {x : Except ε α} {f : α → Except ε β} {cause : ε} :
    (x >>= f) = .error cause ↔ x = .error cause ∨ ∃ a, x = .ok a ∧ f a = .error cause := by
  cases x with
  | error e =>
    constructor
    · exact fun h => Or.inl (congrArg Except.error (Except.error.inj h))
    · rintro (h | ⟨_, h, _⟩)
      · exact congrArg Except.error (Except.error.inj h)
      · contradiction
  | ok a =>
    constructor
    · exact fun h => Or.inr ⟨a, rfl, h⟩
    · rintro (h | ⟨_, h, hf⟩)
      · contradiction
      · exact (Except.ok.inj h) ▸ hf

namespace Domain

variable {d : Domain}

/-- Both bounds have few enough digits to be written. -/
def Writable (d : Domain) : Prop :=
  d.lo.natAbs < 10 ^ Text.digitLimit ∧ d.hi.natAbs < 10 ^ Text.digitLimit

instance : Decidable d.Writable :=
  inferInstanceAs (Decidable (_ ∧ _))

def text (d : Domain) : String :=
  "[" ++ Text.decimal d.lo ++ "," ++ Text.decimal d.hi ++ "]"

theorem text?_of_writable (h : d.Writable) : d.text? = some d.text := by
  obtain ⟨hlo, hhi⟩ := h
  rw [text?, Text.decimal?_eq_some hlo, Text.decimal?_eq_some hhi]
  rfl

theorem text?_of_not_writable (h : ¬ d.Writable) : d.text? = none := by
  rw [Writable, not_and_or, not_lt, not_lt, ← Text.decimal?_eq_none_iff,
    ← Text.decimal?_eq_none_iff] at h
  rcases h with h | h
  · simp [text?, h]
  · simp [text?, h]

end Domain

namespace FieldKind

theorem domain_writable (k : FieldKind) : k.domain.Writable := by
  have hsmall : 10 ^ 2 ≤ 10 ^ Text.digitLimit := Nat.pow_le_pow_right (by decide) (by decide)
  cases k <;> exact ⟨lt_of_lt_of_le (by decide) hsmall, lt_of_lt_of_le (by decide) hsmall⟩

end FieldKind

namespace Atom

variable {d : Domain} {text : String}

theorem Shape.infix_of_mem_numerals {shape : Shape} {digits : List Char}
    (h : digits ∈ shape.numerals) : digits <:+: shape.text := by
  cases shape with
  | star n? =>
    simp only [numerals, Option.mem_toList] at h
    rw [Option.mem_def.mp h, Shape.text, marked_some]
    exact ⟨['*', '/'], [], by simp⟩
  | numbers a b? n? =>
    simp only [numerals, List.mem_cons, List.mem_append, Option.mem_toList] at h
    rcases h with rfl | h | h
    · exact ⟨[], marked '-' b? ++ marked '/' n?, by simp [Shape.text]⟩
    · rw [Option.mem_def.mp h]
      exact ⟨a ++ ['-'], marked '/' n?, by simp [Shape.text]⟩
    · rw [Option.mem_def.mp h]
      exact ⟨a ++ marked '-' b? ++ ['/'], [], by simp [Shape.text]⟩

theorem Overlong.exists_run {text : List Char} (h : Overlong text) : ∃ run, run <:+: text ∧
    (∀ c ∈ run, c.isDigit = true) ∧ Text.digitLimit < run.length := by
  obtain ⟨shape, ⟨before, core, after, rfl, hspells, _⟩, hlong⟩ := h
  obtain ⟨rfl, hnumerals⟩ := Shape.spells_iff.mp hspells
  unfold Shape.Short at hlong
  push Not at hlong
  obtain ⟨run, hrun, hlength⟩ := hlong
  have hinfix : run <:+: before ++ shape.text ++ after :=
    (Shape.infix_of_mem_numerals hrun).trans (List.infix_append _ _ _)
  exact ⟨run, hinfix, (hnumerals run hrun).2, hlength⟩

theorem read_of_not_writes (h : ¬ ∃ shape : Shape, shape.Writes text.toList) :
    read d text = .error (.refused ⟨.malformedAtom text, text, none⟩) := by
  unfold read
  cases hread : Shape.read? text.toList with
  | none => rfl
  | some shape => exact absurd ⟨shape, Shape.read?_eq_some_iff.mp hread⟩ h

/-- A text of the grammar is read as its progression if that is legal, unless a numeral is too
long. -/
theorem read_of_writes {shape : Shape} (h : shape.Writes text.toList) :
    (shape.Short ∧ read d text = if (shape.canonical d).Valid d then .ok (shape.canonical d)
      else .error (.outOfRange d text)) ∨
    ∃ digits ∈ shape.numerals, Text.digitLimit < digits.length ∧
      read d text = .error (.overlong digits.length) := by
  unfold read
  rw [Shape.read?_eq_some_iff.mpr h]
  rcases ofShape_cases d shape with ⟨hshort, heq⟩ | ⟨digits, hdigits, hlong, heq⟩
  · exact Or.inl ⟨hshort, by simp only [heq]; rfl⟩
  · exact Or.inr ⟨digits, hdigits, hlong, by simp only [heq]; rfl⟩

theorem outOfRange_eq (d : Domain) (text : String) : ReadError.outOfRange d text =
    if d.Writable then .refused ⟨.atomOutOfRange text d.text, text, none⟩ else .unwritable := by
  unfold ReadError.outOfRange
  split_ifs with h
  · rw [Domain.text?_of_writable h]
  · rw [Domain.text?_of_not_writable h]

/-- A text of the grammar with a numeral beyond the limit has no outcome but that; any other text
is read or refused. -/
theorem read_cases (hd : d.Writable) (text : String) :
    (¬ Overlong text.toList ∧ ((∃ a, read d text = .ok a) ∨
      ∃ defect, read d text = .error (.refused ⟨defect, text, none⟩))) ∨
    Overlong text.toList ∧ ∃ n, Text.digitLimit < n ∧ read d text = .error (.overlong n) := by
  by_cases hform : ∃ shape : Shape, shape.Writes text.toList
  · obtain ⟨shape, hwrites⟩ := hform
    rcases read_of_writes (d := d) hwrites with ⟨hshort, hread⟩ | ⟨digits, hdigits, hlong, hread⟩
    · refine Or.inl ⟨fun h => ?_, ?_⟩
      · obtain ⟨other, hother, hnot⟩ := h
        exact hnot (hwrites.unique hother ▸ hshort)
      · by_cases hvalid : (shape.canonical d).Valid d
        · exact Or.inl ⟨_, by rw [hread, if_pos hvalid]⟩
        · exact Or.inr ⟨_, by rw [hread, if_neg hvalid, outOfRange_eq, if_pos hd]⟩
    · refine Or.inr ⟨⟨shape, hwrites, fun hshort => ?_⟩, digits.length, hlong, hread⟩
      exact absurd (hshort digits hdigits) (not_le.mpr hlong)
  · refine Or.inl ⟨?_, Or.inr ⟨_, read_of_not_writes hform⟩⟩
    rintro ⟨shape, hwrites, _⟩
    exact hform ⟨shape, hwrites⟩

theorem read_error_cases (hd : d.Writable) {cause : ReadError} (h : read d text = .error cause) :
    (¬ Overlong text.toList ∧ ∃ defect, cause = .refused ⟨defect, text, none⟩) ∨
    Overlong text.toList ∧ ∃ n, Text.digitLimit < n ∧ cause = .overlong n := by
  rcases read_cases hd text with ⟨hshort, ⟨a, ha⟩ | ⟨defect, hr⟩⟩ | ⟨hover, n, hlong, hn⟩
  · rw [ha] at h
    contradiction
  · rw [hr] at h
    exact Or.inl ⟨hshort, defect, (Except.error.inj h).symm⟩
  · rw [hn] at h
    exact Or.inr ⟨hover, n, hlong, (Except.error.inj h).symm⟩

end Atom

namespace Field

variable {d : Domain} {text : String} {cause : ReadError}

theorem read_eq_error_iff :
    read d text = .error cause ↔ FaultyEntry .refused (Atom.read d) text cause :=
  readWith_eq_error_iff

/-- The reading of the list stops at a numeral beyond the limit. -/
def Overflows (d : Domain) (text : List Char) : Prop :=
  ∃ before entry after, text.splitOn ',' = before ++ entry :: after ∧
    (∀ x ∈ before, ¬ Atom.Overlong x ∧ ∃ a, Atom.Denotes d x a) ∧ Atom.Overlong entry

theorem read_before_iff (hd : ∀ v ∈ d, 0 ≤ v) {before : List String} :
    (∀ y ∈ before, Text.strip y ≠ "" ∧ ∃ a, Atom.read d y = .ok a) ↔
      ∀ x ∈ before.map String.toList, ¬ Atom.Overlong x ∧ ∃ a, Atom.Denotes d x a := by
  simp only [List.forall_mem_map, ← exists_and_left]
  refine forall_congr' fun y => imp_congr_right fun _ => exists_congr fun a => ?_
  rw [← Atom.read_eq_ok_iff_denotes hd]
  exact and_iff_right_of_imp Atom.strip_ne_empty_of_read

theorem read_cases (hd : ∀ v ∈ d, 0 ≤ v) (hw : d.Writable) (text : String) :
    (¬ Overflows d text.toList ∧
      ((∃ f, read d text = .ok f) ∨ ∃ r, read d text = .error (.refused r))) ∨
    Overflows d text.toList ∧ ∃ n, Text.digitLimit < n ∧ read d text = .error (.overlong n) := by
  by_cases hover : Overflows d text.toList
  · obtain ⟨before, entry, after, hsplit, hbefore, hlong⟩ := id hover
    have hlists (l : List (List Char)) : (l.map String.ofList).map String.toList = l := by
      simp [Function.comp_def]
    have hentries : entries text =
        before.map .ofList ++ .ofList entry :: after.map .ofList := by
      rw [entries, hsplit, List.map_append, List.map_cons]
    obtain ⟨shape, hwrites, _⟩ := id hlong
    rw [← String.toList_ofList (l := entry)] at hwrites hlong
    rcases Atom.read_cases hw (.ofList entry) with ⟨hshort, _⟩ | ⟨_, n, hn, hread⟩
    · contradiction
    · refine Or.inr ⟨hover, n, hn, read_eq_error_iff.mpr ⟨_, _, _, hentries, ?_, ?_⟩⟩
      · rwa [read_before_iff hd, hlists]
      · exact Or.inr ⟨hwrites.strip_ne_empty, hread⟩
  · refine Or.inl ⟨hover, ?_⟩
    cases hresult : read d text with
    | ok f => exact Or.inl ⟨f, rfl⟩
    | error cause =>
      obtain ⟨before, x, after, hentries, hbefore, hx⟩ := read_eq_error_iff.mp hresult
      rcases hx with ⟨_, rfl⟩ | ⟨_, hread⟩
      · exact Or.inr ⟨_, rfl⟩
      · rcases Atom.read_error_cases hw hread with ⟨_, defect, rfl⟩ | ⟨hlong, _⟩
        · exact Or.inr ⟨_, rfl⟩
        · have hsplit := entries_eq_append_iff.mp hentries
          exact absurd ⟨_, _, _, hsplit, (read_before_iff hd).mp hbefore, hlong⟩ hover

end Field

namespace Entry

variable {line : String} {cause : ReadError}

/-- The text of a field on a line. -/
def token (line : String) (kind : FieldKind) : List Char :=
  (parts line.toList).getD kind.position []

theorem readField_cases (line : String) (kind : FieldKind) (part : List Char) :
    (¬ Field.Overflows kind.domain part ∧ ((∃ f, readField line kind part = .ok f) ∨
      ∃ r, r.expression = line ∧ readField line kind part = .error (.refused r))) ∨
    Field.Overflows kind.domain part ∧
      ∃ n, Text.digitLimit < n ∧ readField line kind part = .error (.overlong n) := by
  have hcases := Field.read_cases kind.domain_nonneg kind.domain_writable (.ofList part)
  rw [String.toList_ofList] at hcases
  rcases hcases with ⟨hfits, ⟨f, hf⟩ | ⟨r, hr⟩⟩ | ⟨hover, n, hlong, hn⟩
  · exact Or.inl ⟨hfits, Or.inl ⟨f, by rw [readField, hf]⟩⟩
  · exact Or.inl ⟨hfits, Or.inr ⟨r.inField kind line, rfl, by rw [readField, hr]⟩⟩
  · exact Or.inr ⟨hover, n, hlong, by rw [readField, hn]⟩

theorem read_of_leftmost {kind : FieldKind} (h : 5 ≤ (parts line.toList).length)
    (hbefore : ∀ k : FieldKind, k.position < kind.position →
      ∃ f, readField line k (token line k) = .ok f)
    (hkind : readField line kind (token line kind) = .error cause) :
    read line = .error cause := by
  obtain ⟨minute, hour, day, month, weekday, rest, hparts⟩ := exists_of_five_le_length h
  unfold token at hbefore hkind
  rw [hparts] at hbefore hkind
  rw [read, hparts]
  simp only [bind_eq_error]
  cases kind with
  | minute => exact Or.inl hkind
  | hour =>
    obtain ⟨minutes, hminutes⟩ := hbefore .minute (by decide)
    exact Or.inr ⟨minutes, hminutes, Or.inl hkind⟩
  | dayOfMonth =>
    obtain ⟨minutes, hminutes⟩ := hbefore .minute (by decide)
    obtain ⟨hours, hhours⟩ := hbefore .hour (by decide)
    exact Or.inr ⟨minutes, hminutes, Or.inr ⟨hours, hhours, Or.inl hkind⟩⟩
  | month =>
    obtain ⟨minutes, hminutes⟩ := hbefore .minute (by decide)
    obtain ⟨hours, hhours⟩ := hbefore .hour (by decide)
    obtain ⟨days, hdays⟩ := hbefore .dayOfMonth (by decide)
    exact Or.inr ⟨minutes, hminutes, Or.inr ⟨hours, hhours, Or.inr ⟨days, hdays, Or.inl hkind⟩⟩⟩
  | dayOfWeek =>
    obtain ⟨minutes, hminutes⟩ := hbefore .minute (by decide)
    obtain ⟨hours, hhours⟩ := hbefore .hour (by decide)
    obtain ⟨days, hdays⟩ := hbefore .dayOfMonth (by decide)
    obtain ⟨months, hmonths⟩ := hbefore .month (by decide)
    exact Or.inr ⟨minutes, hminutes, Or.inr ⟨hours, hhours, Or.inr ⟨days, hdays,
      Or.inr ⟨months, hmonths, Or.inl hkind⟩⟩⟩⟩

theorem exists_leftmost (h : 5 ≤ (parts line.toList).length) : (∃ e, read line = .ok e) ∨
    ∃ kind : FieldKind, (∀ k : FieldKind, k.position < kind.position →
      ∃ f, readField line k (token line k) = .ok f) ∧
      ∃ cause, readField line kind (token line kind) = .error cause := by
  by_cases hall : ∀ kind : FieldKind, ∃ f, readField line kind (token line kind) = .ok f
  · left
    rw [exists_read_iff h]
    intro kind
    obtain ⟨f, hf⟩ := hall kind
    rw [readField_eq_ok_iff, Field.read_eq_ok_iff_denotes kind.domain_nonneg,
      String.toList_ofList] at hf
    exact ⟨hf.1, f, hf.2⟩
  · right
    obtain ⟨kind, hkind, hleast⟩ := (measure FieldKind.position).wf.has_min
      {kind | ¬ ∃ f, readField line kind (token line kind) = .ok f} (not_forall.mp hall)
    refine ⟨kind, fun k hk => not_not.mp fun hnot => hleast k hnot hk, ?_⟩
    cases hresult : readField line kind (token line kind) with
    | ok f => exact absurd ⟨f, hresult⟩ hkind
    | error cause => exact ⟨cause, rfl⟩

/-- The reading of the line stops at a numeral beyond the limit: what stands before it on the line
is in the grammar. -/
def Overflows (line : String) : Prop :=
  5 ≤ (parts line.toList).length ∧ ∃ kind : FieldKind,
    (∀ k : FieldKind, k.position < kind.position → ¬ Field.Overlong (token line k) ∧
      ∃ f, Field.Denotes k.domain (token line k) f) ∧
    Field.Overflows kind.domain (token line kind)

theorem read_cases (line : String) :
    (¬ Overflows line ∧ ((∃ e, read line = .ok e) ∨
      ∃ r, r.expression = line ∧ read line = .error (.refused r))) ∨
    Overflows line ∧ ∃ n, Text.digitLimit < n ∧ read line = .error (.overlong n) := by
  have hread (k : FieldKind) : (∃ f, readField line k (token line k) = .ok f) ↔
      ¬ Field.Overlong (token line k) ∧ ∃ f, Field.Denotes k.domain (token line k) f := by
    simp only [readField_eq_ok_iff, Field.read_eq_ok_iff_denotes k.domain_nonneg,
      String.toList_ofList, exists_and_left]
  by_cases hlength : (parts line.toList).length < 5
  · refine Or.inl ⟨fun h => not_lt.mpr h.1 hlength, Or.inr ⟨_, ?_, read_of_length_lt hlength⟩⟩
    rfl
  · have hlength := not_lt.mp hlength
    by_cases hover : Overflows line
    · obtain ⟨_, kind, hbefore, hkind⟩ := id hover
      rcases readField_cases line kind (token line kind) with ⟨hfits, _⟩ | ⟨_, n, hlong, hn⟩
      · contradiction
      · refine Or.inr ⟨hover, n, hlong, read_of_leftmost hlength ?_ hn⟩
        exact fun k hk => (hread k).mpr (hbefore k hk)
    · refine Or.inl ⟨hover, ?_⟩
      refine (exists_leftmost hlength).imp_right fun h => ?_
      obtain ⟨kind, hbefore, cause, hcause⟩ := h
      rcases readField_cases line kind (token line kind) with
        ⟨_, ⟨f, hf⟩ | ⟨r, hline, hr⟩⟩ | ⟨hkind, _⟩
      · rw [hf] at hcause
        contradiction
      · exact ⟨r, hline, read_of_leftmost hlength hbefore hr⟩
      · exact absurd ⟨hlength, kind, fun k hk => (hread k).mp (hbefore k hk), hkind⟩ hover

theorem token_isInfix (line : String) (kind : FieldKind) : token line kind <:+: line.toList := by
  rw [token, List.getD_eq_getElem?_getD]
  cases htoken : (parts line.toList)[kind.position]? with
  | none => exact List.nil_infix
  | some t =>
    exact (tokens_iff.mpr (Eq.refl (parts line.toList))).infix_of_mem (List.mem_of_getElem? htoken)

/-- A line whose reading stops at a numeral has that many digits in a row. -/
theorem Overflows.exists_run (h : Overflows line) : ∃ run, run <:+: line.toList ∧
    (∀ c ∈ run, c.isDigit = true) ∧ Text.digitLimit < run.length := by
  obtain ⟨_, kind, _, before, entry, after, hsplit, _, hlong⟩ := h
  obtain ⟨run, hrun, hdigits, hlength⟩ := hlong.exists_run
  have hentry : entry <:+: token line kind :=
    Text.infix_of_mem_splitOn (hsplit ▸ List.mem_append_right before List.mem_cons_self)
  exact ⟨run, (hrun.trans hentry).trans (token_isInfix line kind), hdigits, hlength⟩

/-- A line is read and has no faults, or it is refused and its one fault is the message of the
refusal, unless a numeral beyond the limit stops the reading. Then there is no verdict, but that
takes more than 4300 digits in a row. -/
theorem verdict_unless_overflows (line : String) :
    (¬ Overflows line →
      (∃ e, read line = .ok e) ∧ faults line = .ok [] ∧ isValid line = .ok true ∨
      ∃ r, read line = .error (.refused r) ∧ r.expression = line ∧
        faults line = .ok [r.message] ∧ isValid line = .ok false) ∧
    (Overflows line → ∃ n, 4300 < n ∧ read line = .error (.overlong n) ∧
      faults line = .error (.overlong n) ∧ isValid line = .error (.overlong n)) ∧
    (Overflows line → ∃ run, run <:+: line.toList ∧ (∀ c ∈ run, c.isDigit = true) ∧
      4300 < run.length) := by
  have hcases := read_cases line
  refine ⟨fun hfits => ?_, fun hover => ?_, fun hover => hover.exists_run⟩
  · rcases hcases with ⟨_, ⟨e, he⟩ | ⟨r, hline, hr⟩⟩ | ⟨hover, _⟩
    · exact Or.inl ⟨⟨e, he⟩, by rw [faults, he], by rw [isValid, he]⟩
    · exact Or.inr ⟨r, hr, hline, by rw [faults, hr], by rw [isValid, hr]⟩
    · contradiction
  · rcases hcases with ⟨hfits, _⟩ | ⟨_, n, hlong, hn⟩
    · contradiction
    · exact ⟨n, hlong, hn, by rw [faults, hn], by rw [isValid, hn]⟩

/-- A numeral beyond the limit in the first place stops the reading, whatever it stands for. -/
theorem overflows_of_minute {digits : List Char} (hdigits : Atom.Shape.IsNumeral digits)
    (hlong : Text.digitLimit < digits.length) :
    Overflows (.ofList (digits ++ " * * * *".toList)) := by
  have hword : IsWord digits := ⟨hdigits.1, fun c hc =>
    Text.isSeparator_of_isBlank (Text.isBlank_of_isDigit (hdigits.2 c hc))⟩
  have hstar : IsWord ['*'] := ⟨by simp, by simp [Text.isSeparator]⟩
  have hwords : ∀ w ∈ [digits, ['*'], ['*'], ['*'], ['*']], IsWord w := by
    simpa using ⟨hword, hstar⟩
  have htokens : Tokens [digits, ['*'], ['*'], ['*'], ['*']] (digits ++ " * * * *".toList) := by
    simpa [List.intercalate_cons_cons] using (spaced_intercalate hwords).toTokens
  have hparts := tokens_iff.mp htokens
  have hcomma : ',' ∉ digits := fun h => absurd (hdigits.2 ',' h) (by decide)
  have hfirst : Atom.Overlong digits := by
    refine ⟨.numbers digits none none, ⟨[], digits, [], by simp, .single hdigits, by simp⟩, ?_⟩
    exact fun hshort => absurd (hshort digits List.mem_cons_self) (not_le.mpr hlong)
  unfold Overflows token
  rw [String.toList_ofList, ← hparts]
  refine ⟨le_rfl, .minute, fun k hk => absurd hk (Nat.not_lt_zero _), [], digits, [], ?_, ?_⟩
  · exact List.splitOn_eq_singleton hcomma
  · exact ⟨by simp, hfirst⟩

theorem Overflows.no_verdict (h : Overflows line) :
    (¬ ∃ e, read line = .ok e) ∧ (¬ ∃ r, read line = .error (.refused r)) ∧
      (¬ ∃ messages, faults line = .ok messages) ∧ ¬ ∃ valid, isValid line = .ok valid := by
  rcases read_cases line with ⟨hfits, _⟩ | ⟨_, n, _, hn⟩
  · contradiction
  · simp [faults, isValid, hn]

/-- Too many ones for a minute: the line has no verdict, although it cannot be read. -/
theorem no_verdict_on_ones :
    let line := String.ofList (List.replicate 4301 '1' ++ " * * * *".toList)
    (¬ ∃ e, read line = .ok e) ∧ (¬ ∃ r, read line = .error (.refused r)) ∧
      (¬ ∃ messages, faults line = .ok messages) ∧ ¬ ∃ valid, isValid line = .ok valid := by
  have hlength : (List.replicate 4301 '1').length = 4301 := List.length_replicate
  have hones : Atom.Shape.IsNumeral (List.replicate 4301 '1') := by
    refine ⟨List.ne_nil_of_length_eq_add_one hlength, fun c hc => ?_⟩
    rw [List.eq_of_mem_replicate hc]
    rfl
  have hlong : Text.digitLimit < (List.replicate 4301 '1').length := by
    rw [hlength]
    decide
  exact (overflows_of_minute hones hlong).no_verdict

end Entry

end Crontab
