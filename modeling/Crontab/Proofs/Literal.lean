import Crontab.Proofs.Canonical

/-! The texts of integers: blanks on both sides, at most one sign, and digits of any script with
single underscores between them. Reading decides this grammar and gives the number. -/
namespace Crontab.Text

/-- The characters of a literal after its sign, with the values of its digits. -/
inductive SpellsDigits : List Char → List ℕ → Prop
  | last {c : Char} {d : ℕ} (h : digitValue? c = some d) : SpellsDigits [c] [d]
  | more {c : Char} {d : ℕ} {cs : List Char} {ds : List ℕ} (h : digitValue? c = some d)
    (hrest : SpellsDigits cs ds) : SpellsDigits (c :: cs) (d :: ds)
  | underscore {c : Char} {d : ℕ} {cs : List Char} {ds : List ℕ} (h : digitValue? c = some d)
    (hrest : SpellsDigits cs ds) : SpellsDigits (c :: '_' :: cs) (d :: ds)

/-- The signs of a literal, each with the unit that it stands for. -/
def signs : List (List Char × ℤ) :=
  [([], 1), (['+'], 1), (['-'], -1)]

/-- The characters of a literal without the blanks around it, with its number. -/
def SpellsInteger (core : List Char) (n : ℤ) : Prop :=
  ∃ sign unit body digits, (sign, unit) ∈ signs ∧ core = sign ++ body ∧ SpellsDigits body digits ∧
    digits.length ≤ digitLimit ∧ n = unit * ofDigits digits

/-- A text is a literal of an integer, with blanks of a class on both sides. -/
def IsLiteral (blank : Char → Bool) (s : String) (n : ℤ) : Prop :=
  ∃ before core after, s.toList = before ++ core ++ after ∧ (∀ c ∈ before, blank c = true) ∧
    (∀ c ∈ after, blank c = true) ∧ SpellsInteger core n

variable {c : Char} {cs core : List Char} {ds : List ℕ} {n : ℤ}

theorem SpellsDigits.ne_nil (h : SpellsDigits cs ds) : cs ≠ [] := by
  cases h <;> exact List.cons_ne_nil _ _

theorem literalDigits?_eq_some_iff : literalDigits? cs = some ds ↔ SpellsDigits cs ds := by
  constructor
  · intro h
    fun_induction literalDigits? cs generalizing ds with
    | case1 => contradiction
    | case2 c =>
      obtain ⟨d, hd, rfl⟩ := Option.map_eq_some_iff.mp h
      exact .last hd
    | case3 c rest ih =>
      obtain ⟨d, hd, h⟩ := Option.bind_eq_some_iff.mp h
      obtain ⟨ds, hds, h⟩ := Option.bind_eq_some_iff.mp h
      obtain rfl := Option.some.inj h
      exact .underscore hd (ih hds)
    | case4 c rest _ _ ih =>
      obtain ⟨d, hd, h⟩ := Option.bind_eq_some_iff.mp h
      obtain ⟨ds, hds, h⟩ := Option.bind_eq_some_iff.mp h
      obtain rfl := Option.some.inj h
      exact .more hd (ih hds)
  · intro h
    induction h with
    | last h => rw [literalDigits?, h, Option.map_some]
    | @more c d cs ds h hrest ih =>
      have hunderscore : ∀ rest, cs ≠ '_' :: rest := by
        rintro rest rfl
        cases hrest <;> contradiction
      rw [literalDigits?.eq_4 _ _ hrest.ne_nil hunderscore, h, ih]
      rfl
    | underscore h _ ih =>
      rw [literalDigits?, h, ih]
      rfl

theorem SpellsDigits.head (h : SpellsDigits cs ds) : ∀ c ∈ cs.head?, (digitValue? c).isSome := by
  cases h with
  | last h | more h _ | underscore h _ =>
    intro c hc
    rw [← Option.some.inj hc, h]
    rfl

theorem SpellsDigits.getLast (h : SpellsDigits cs ds) :
    ∀ c ∈ cs.getLast?, (digitValue? c).isSome := by
  induction h with
  | last h =>
    intro c hc
    rw [← Option.some.inj hc]
    exact Option.isSome_of_eq_some h
  | more _ hrest ih =>
    rwa [List.getLast?_cons_of_ne_nil hrest.ne_nil]
  | underscore _ hrest ih =>
    rwa [List.getLast?_cons_cons, List.getLast?_cons_of_ne_nil hrest.ne_nil]

def unsigned? (body : List Char) : Option ℕ := do
  let digits ← literalDigits? body
  guard (digits.length ≤ digitLimit)
  return ofDigits digits

def coreInteger? : List Char → Option ℤ
  | '-' :: body => (unsigned? body).map fun (k : ℕ) => -(k : ℤ)
  | '+' :: body => (unsigned? body).map Int.ofNat
  | body => (unsigned? body).map Int.ofNat

theorem integerLiteral?_eq (s : String) :
    integerLiteral? s = coreInteger? (trim isLiteralBlank s.toList) := by
  unfold integerLiteral?
  dsimp only
  generalize trim isLiteralBlank s.toList = core
  split
  · next body =>
    rw [coreInteger?]
    change ((unsigned? body >>= fun k => pure (k : ℤ)).map fun k => -k) = _
    cases unsigned? body <;> rfl
  · rw [coreInteger?]
    rfl
  · next hminus hplus =>
    rw [coreInteger?.eq_3 _ hminus hplus]
    rfl

theorem unsigned?_eq_some_iff {k : ℕ} : unsigned? cs = some k ↔
    ∃ digits, SpellsDigits cs digits ∧ digits.length ≤ digitLimit ∧ k = ofDigits digits := by
  simp only [unsigned?, Option.bind_eq_bind, Option.bind_eq_some_iff, literalDigits?_eq_some_iff]
  refine exists_congr fun digits => and_congr_right fun _ => ?_
  by_cases hshort : digits.length ≤ digitLimit
  · simp [hshort, guard, eq_comm]
  · simp [hshort, guard]

theorem spellsInteger_iff : SpellsInteger core n ↔ ∃ sign unit body k, (sign, unit) ∈ signs ∧
    core = sign ++ body ∧ unsigned? body = some k ∧ n = unit * (k : ℤ) := by
  simp only [unsigned?_eq_some_iff]
  constructor
  · intro h
    obtain ⟨sign, unit, body, digits, hsign, hcore, hbody, hshort, hn⟩ := h
    exact ⟨sign, unit, body, _, hsign, hcore, ⟨digits, hbody, hshort, rfl⟩, hn⟩
  · intro h
    obtain ⟨sign, unit, body, _, hsign, hcore, ⟨digits, hbody, hshort, rfl⟩, hn⟩ := h
    exact ⟨sign, unit, body, digits, hsign, hcore, hbody, hshort, hn⟩

theorem ne_sign_of_isSome (h : (digitValue? c).isSome = true) : c ≠ '+' ∧ c ≠ '-' := by
  constructor <;> rintro rfl <;> revert h <;> decide

theorem coreInteger?_eq_some_iff : coreInteger? core = some n ↔ SpellsInteger core n := by
  rw [spellsInteger_iff]
  constructor
  · intro h
    unfold coreInteger? at h
    split at h <;> obtain ⟨k, hk, rfl⟩ := Option.map_eq_some_iff.mp h
    · exact ⟨['-'], -1, _, k, by decide, rfl, hk, by simp⟩
    · exact ⟨['+'], 1, _, k, by decide, rfl, hk, by simp⟩
    · exact ⟨[], 1, _, k, by decide, rfl, hk, by simp⟩
  · intro h
    obtain ⟨sign, unit, body, k, hsign, rfl, hk, rfl⟩ := h
    simp only [signs, List.mem_cons, Prod.mk.injEq, List.not_mem_nil, or_false] at hsign
    rcases hsign with ⟨rfl, rfl⟩ | ⟨rfl, rfl⟩ | ⟨rfl, rfl⟩
    · obtain ⟨digits, hdigits, _⟩ := unsigned?_eq_some_iff.mp hk
      have hhead := hdigits.head
      rw [List.nil_append, coreInteger?.eq_3, hk, Option.map_some, one_mul]
      · rfl
      · rintro rest rfl
        exact (ne_sign_of_isSome (hhead _ rfl)).2 rfl
      · rintro rest rfl
        exact (ne_sign_of_isSome (hhead _ rfl)).1 rfl
    · rw [List.singleton_append, coreInteger?, hk, one_mul]
      rfl
    · rw [List.singleton_append, coreInteger?, hk, neg_one_mul]
      rfl

/-- Blanks of a class that has no digits and no signs. -/
structure Surrounds (blank : Char → Bool) : Prop where
  digit : ∀ c, blank c = true → digitValue? c = none
  plus : blank '+' = false
  minus : blank '-' = false

theorem SpellsInteger.trimmed {blank : Char → Bool} (hblank : Surrounds blank)
    (h : SpellsInteger core n) : Trimmed blank core := by
  obtain ⟨sign, unit, body, digits, hsign, rfl, hbody, _⟩ := h
  have hdigit : ∀ c, (digitValue? c).isSome = true → blank c = false := by
    intro c hc
    by_contra hnot
    rw [hblank.digit c (Bool.eq_true_of_not_eq_false hnot)] at hc
    contradiction
  constructor
  · simp only [signs, List.mem_cons, Prod.mk.injEq, List.not_mem_nil, or_false] at hsign
    rcases hsign with ⟨rfl, rfl⟩ | ⟨rfl, rfl⟩ | ⟨rfl, rfl⟩ <;> intro c hc
    · exact hdigit c (hbody.head c hc)
    · rw [← Option.some.inj hc, hblank.plus]
    · rw [← Option.some.inj hc, hblank.minus]
  · rw [List.getLast?_append_of_ne_nil _ hbody.ne_nil]
    exact fun c hc => hdigit c (hbody.getLast c hc)

theorem coreInteger?_trim_eq_some_iff {blank : Char → Bool} (hblank : Surrounds blank)
    {s : String} : coreInteger? (trim blank s.toList) = some n ↔ IsLiteral blank s n := by
  rw [coreInteger?_eq_some_iff]
  constructor
  · intro h
    obtain ⟨_, before, after, hs, hbefore, hafter⟩ := trim_eq_iff.mp (Eq.refl (trim blank s.toList))
    exact ⟨before, _, after, hs, hbefore, hafter, h⟩
  · intro h
    obtain ⟨before, core, after, hs, hbefore, hafter, hcore⟩ := h
    rwa [trim_eq_iff.mpr ⟨hcore.trimmed hblank, before, after, hs, hbefore, hafter⟩]

def blankRanges : List (ℕ × ℕ) :=
  [(9, 13), (0x1C, 0x20), (0x85, 0x85), (0xA0, 0xA0), (0x1680, 0x1680), (0x2000, 0x200A),
   (0x2028, 0x2029), (0x202F, 0x202F), (0x205F, 0x205F), (0x3000, 0x3000)]

theorem exists_blankRange (h : isBlank c = true) :
    ∃ r ∈ blankRanges, r.1 ≤ c.toNat ∧ c.toNat ≤ r.2 := by
  simp only [isBlank, isBlankPoint, Bool.or_eq_true, Bool.and_eq_true, beq_iff_eq,
    decide_eq_true_eq] at h
  simp only [blankRanges, List.mem_cons, List.not_mem_nil, or_false, exists_eq_or_imp,
    exists_eq_left]
  omega

theorem surrounds_isBlank : Surrounds isBlank := by
  refine ⟨fun c hc => ?_, by decide, by decide⟩
  obtain ⟨r, hr, hlow, hhigh⟩ := exists_blankRange hc
  have hapart : ∀ z ∈ digitZeros, ∀ r ∈ blankRanges, z + 9 < r.1 ∨ r.2 < z := by decide
  unfold digitValue?
  rw [Option.map_eq_none_iff, List.find?_eq_none]
  intro z hz hin
  have hz' := hapart z hz r hr
  simp only [Bool.and_eq_true, decide_eq_true_eq] at hin
  omega

theorem isBlank_of_isLiteralBlank (h : isLiteralBlank c = true) : isBlank c = true := by
  unfold isLiteralBlank at h
  split at h
  · exact isBlank_of_isAsciiBlank h
  · exact h

theorem surrounds_isLiteralBlank : Surrounds isLiteralBlank :=
  ⟨fun c hc => surrounds_isBlank.digit c (isBlank_of_isLiteralBlank hc), by decide, by decide⟩

theorem integerLiteral?_eq_some_iff {s : String} :
    integerLiteral? s = some n ↔ IsLiteral isLiteralBlank s n := by
  rw [integerLiteral?_eq, coreInteger?_trim_eq_some_iff surrounds_isLiteralBlank]

theorem IsLiteral.unique {blank : Char → Bool} (hblank : Surrounds blank) {s : String} {n' : ℤ}
    (h : IsLiteral blank s n) (h' : IsLiteral blank s n') : n = n' := by
  rw [← coreInteger?_trim_eq_some_iff hblank] at h h'
  exact Option.some.inj (h.symm.trans h')

end Crontab.Text
