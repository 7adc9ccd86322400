import Crontab.Proofs.Literal
import Crontab.Settings.Mapping

/-! The integers that are made of values, and the values without one. A finite number loses its
fraction on the way, and not every other value can be complained about. -/
namespace Crontab

namespace Binary64

/-- The exact value of a finite number. -/
def rational? : Binary64 → Option ℚ
  | finite negative m e => some ((if negative then -1 else 1) * ((m : ℚ) * 2 ^ e))
  | _ => none

/-- The integer next to a number in the direction of zero. -/
def towardZero (q : ℚ) : ℤ :=
  if q < 0 then ⌈q⌉ else ⌊q⌋

@[simp] theorem towardZero_intCast (n : ℤ) : towardZero n = n := by
  simp [towardZero]

theorem towardZero_of_nonneg {q : ℚ} (h : 0 ≤ q) : towardZero q = ⌊q⌋ :=
  if_neg (not_lt.mpr h)

theorem towardZero_neg_of_nonneg {q : ℚ} (h : 0 ≤ q) : towardZero (-q) = -⌊q⌋ := by
  rcases h.eq_or_lt with rfl | hpos
  · simp [towardZero]
  · rw [towardZero, if_pos (neg_lt_zero.mpr hpos), Int.ceil_neg]

/-- Shifting by the exponent drops the fraction. -/
theorem floor_mul_zpow (m : ℕ) (e : ℤ) : ⌊(m : ℚ) * 2 ^ e⌋ =
    ((if e < 0 then m >>> (-e).toNat else m <<< e.toNat : ℕ) : ℤ) := by
  split
  · next hneg =>
    obtain ⟨k, rfl⟩ := Int.exists_eq_neg_ofNat hneg.le
    rw [Int.neg_neg, Int.toNat_natCast, Nat.shiftRight_eq_div_pow, zpow_neg, zpow_natCast,
      ← div_eq_mul_inv]
    have hfloor := Rat.floor_intCast_div_natCast m (2 ^ k)
    push_cast at hfloor ⊢
    exact hfloor
  · next hneg =>
    obtain ⟨k, rfl⟩ := Int.eq_ofNat_of_zero_le (not_lt.mp hneg)
    rw [Int.toNat_natCast, Nat.shiftLeft_eq, zpow_natCast]
    have hcast : (m : ℚ) * 2 ^ k = ((m * 2 ^ k : ℕ) : ℤ) := by push_cast; rfl
    rw [hcast, Int.floor_intCast]

theorem truncate_eq (x : Binary64) : x.truncate = x.rational?.map towardZero := by
  cases x with
  | nan => rfl
  | infinite negative => rfl
  | finite negative m e =>
    have hnonneg : (0 : ℚ) ≤ m * 2 ^ e := by positivity
    have hfloor := floor_mul_zpow m e
    cases negative with
    | false =>
      simp only [truncate, rational?, Option.map_some, Bool.false_eq_true, if_false, one_mul]
      rw [towardZero_of_nonneg hnonneg, hfloor]
    | true =>
      simp only [truncate, rational?, Option.map_some, if_true, neg_one_mul]
      rw [towardZero_neg_of_nonneg hnonneg, hfloor]

end Binary64

namespace MappingError

/-- The complaints about a configuration. The other errors say that something else has gone wrong
on the way to one. -/
def IsComplaint : MappingError → Prop
  | unknownKeys _ => True
  | notAnInteger .. => True
  | unacceptable _ => True
  | _ => False

end MappingError

namespace Value

/-- The integer that a value is equal to, or that its text denotes. -/
inductive Denotes : Value → ℤ → Prop
  | integer (n : ℤ) : Denotes (integer n) n
  | real {x : Binary64} {n : ℤ} (h : x.rational? = some (n : ℚ)) : Denotes (real x) n
  | text {s : String} {n : ℤ} (h : Text.IsLiteral Text.isLiteralBlank s n) : Denotes (text s) n

/-- The integer that is made of a value. Finite numbers lose their fractions. -/
inductive ReadAs : Value → ℤ → Prop
  | integer (n : ℤ) : ReadAs (integer n) n
  | real {x : Binary64} {q : ℚ} (h : x.rational? = some q) : ReadAs (real x) (Binary64.towardZero q)
  | text {s : String} {n : ℤ} (h : Text.IsLiteral Text.isLiteralBlank s n) : ReadAs (text s) n

inductive HasFraction : Value → Prop
  | real {x : Binary64} {q : ℚ} (h : x.rational? = some q) (hfraction : ∀ n : ℤ, q ≠ n) :
    HasFraction (real x)

/-- A value that is an integer with more digits than the limit, or holds one. -/
inductive HoldsOverlong : Value → Prop
  | integer {n : ℤ} (h : 10 ^ Text.digitLimit ≤ n.natAbs) : HoldsOverlong (integer n)
  | item {v : Value} {items : List Value} (hv : v ∈ items) (h : HoldsOverlong v) :
    HoldsOverlong (list items)
  | key {p : Value × Value} {pairs : List (Value × Value)} (hp : p ∈ pairs)
    (h : HoldsOverlong p.1) : HoldsOverlong (mapping pairs)
  | value {p : Value × Value} {pairs : List (Value × Value)} (hp : p ∈ pairs)
    (h : HoldsOverlong p.2) : HoldsOverlong (mapping pairs)

/-- No integer is made of the value, and no complaint about it either: it is infinite, or holds an
integer that is too long to be written. -/
def Escapes (v : Value) : Prop :=
  (∃ negative, v = real (.infinite negative)) ∨ (∀ n, ¬ v.ReadAs n) ∧ v.HoldsOverlong

variable {v : Value} {n n' : ℤ} {name : String} {items : List Value}
  {pairs : List (Value × Value)}

theorem itemTexts?_eq_none_iff : itemTexts? items = none ↔ ∃ v ∈ items, v.debugText? = none := by
  induction items with
  | nil => simp [itemTexts?]
  | cons v items ih =>
    rw [itemTexts?, List.exists_mem_cons_iff, ← ih]
    cases v.debugText? <;> cases itemTexts? items <;> simp

theorem pairTexts?_eq_none_iff : pairTexts? pairs = none ↔
    ∃ p ∈ pairs, p.1.debugText? = none ∨ p.2.debugText? = none := by
  induction pairs with
  | nil => simp [pairTexts?]
  | cons p pairs ih =>
    rw [pairTexts?, List.exists_mem_cons_iff, ← ih]
    cases p.1.debugText? <;> cases p.2.debugText? <;> cases pairTexts? pairs <;> simp

theorem debugText?_list_eq_none_iff :
    (list items).debugText? = none ↔ ∃ v ∈ items, v.debugText? = none := by
  rw [debugText?, ← itemTexts?_eq_none_iff]
  cases itemTexts? items <;> simp

theorem debugText?_mapping_eq_none_iff : (mapping pairs).debugText? = none ↔
    ∃ p ∈ pairs, p.1.debugText? = none ∨ p.2.debugText? = none := by
  rw [debugText?, ← pairTexts?_eq_none_iff]
  cases pairTexts? pairs <;> simp

theorem debugText?_integer_eq_none_iff :
    (integer n).debugText? = none ↔ 10 ^ Text.digitLimit ≤ n.natAbs := by
  rw [debugText?, Text.decimal?_eq_none_iff]

theorem sizeOf_lt_of_mem_list {v : Value} (h : v ∈ items) : sizeOf v < sizeOf (list items) := by
  have hlt := List.sizeOf_lt_of_mem h
  simp only [list.sizeOf_spec]
  omega

theorem sizeOf_lt_of_mem_mapping {p : Value × Value} (h : p ∈ pairs) :
    sizeOf p.1 < sizeOf (mapping pairs) ∧ sizeOf p.2 < sizeOf (mapping pairs) := by
  have hlt := List.sizeOf_lt_of_mem h
  rw [show sizeOf p = 1 + sizeOf p.1 + sizeOf p.2 from rfl] at hlt
  simp only [mapping.sizeOf_spec]
  omega

theorem holdsOverlong_of_debugText? (h : v.debugText? = none) : v.HoldsOverlong := by
  -- values are nested in lists of values, so the induction is on their size
  induction hsize : sizeOf v using Nat.strong_induction_on generalizing v with
  | _ size ih =>
    subst hsize
    cases v with
    | integer n => exact .integer (debugText?_integer_eq_none_iff.mp h)
    | list items =>
      obtain ⟨v, hv, hnone⟩ := debugText?_list_eq_none_iff.mp h
      exact .item hv (ih _ (sizeOf_lt_of_mem_list hv) hnone rfl)
    | mapping pairs =>
      obtain ⟨p, hp, hnone⟩ := debugText?_mapping_eq_none_iff.mp h
      obtain ⟨hkey, hvalue⟩ := sizeOf_lt_of_mem_mapping hp
      rcases hnone with hnone | hnone
      · exact .key hp (ih _ hkey hnone rfl)
      · exact .value hp (ih _ hvalue hnone rfl)
    | null | flag | real | text | unpaired => contradiction

theorem debugText?_eq_none_iff : v.debugText? = none ↔ v.HoldsOverlong := by
  refine ⟨holdsOverlong_of_debugText?, fun h => ?_⟩
  induction h with
  | integer h => exact debugText?_integer_eq_none_iff.mpr h
  | item hv _ ih => exact debugText?_list_eq_none_iff.mpr ⟨_, hv, ih⟩
  | key hp _ ih => exact debugText?_mapping_eq_none_iff.mpr ⟨_, hp, .inl ih⟩
  | value hp _ ih => exact debugText?_mapping_eq_none_iff.mpr ⟨_, hp, .inr ih⟩

theorem ReadAs.unique (h : v.ReadAs n) (h' : v.ReadAs n') : n = n' := by
  cases h with
  | integer n => cases h'; rfl
  | real h =>
    cases h' with
    | real h' => rw [Option.some.inj (h.symm.trans h')]
  | text h =>
    cases h' with
    | text h' => exact h.unique Text.surrounds_isLiteralBlank h'

theorem Escapes.not_readAs (h : v.Escapes) (n : ℤ) : ¬ v.ReadAs n := by
  rcases h with ⟨negative, rfl⟩ | ⟨hunread, _⟩
  · rintro (_ | hexact)
    contradiction
  · exact hunread n

/-- Only a fraction keeps a value from being the integer that is made of it. -/
theorem denotes_iff_of_readAs (h : v.ReadAs n) : v.Denotes n ↔ ¬ v.HasFraction := by
  cases h with
  | integer n => exact iff_of_true (.integer n) (nofun)
  | @real x q h =>
    constructor
    · rintro (_ | hdenotes) (⟨hq, hfraction⟩)
      exact hfraction _ (Option.some.inj (hq.symm.trans hdenotes))
    · intro hnot
      obtain ⟨n, rfl⟩ : ∃ n : ℤ, q = n := by
        by_contra hne
        exact hnot (.real h (not_exists.mp hne))
      rw [Binary64.towardZero_intCast]
      exact .real h
  | text h => exact iff_of_true (.text h) (nofun)

end Value

namespace Settings

variable {v : Value} {n : ℤ} {name : String} {cause : MappingError}

theorem toInteger_eq_ok_iff : toInteger name v = .ok n ↔ v.ReadAs n := by
  constructor
  · intro h
    unfold toInteger at h
    split at h
    · cases h
      exact .integer _
    · contradiction
    · next x hx =>
      rw [x.truncate_eq] at h
      cases hq : x.rational? with
      | none => simp [hq] at h
      | some q =>
        rw [hq] at h
        cases h
        exact .real hq
    · next s =>
      cases hs : Text.integerLiteral? s with
      | none => simp [hs] at h
      | some k =>
        rw [hs] at h
        cases h
        exact .text (Text.integerLiteral?_eq_some_iff.mp hs)
    · contradiction
  · intro h
    cases h with
    | integer n => rfl
    | @real x q h =>
      cases x with
      | nan => contradiction
      | infinite negative => contradiction
      | finite negative m e =>
        rw [toInteger, Binary64.truncate_eq, h]
        · rfl
        · simp
    | text h => rw [toInteger, Text.integerLiteral?_eq_some_iff.mpr h]

theorem toInteger_error (h : toInteger name v = .error cause) :
    cause.IsComplaint ↔ ¬ v.Escapes := by
  have hunread : ∀ n, ¬ v.ReadAs n := by
    intro n hn
    rw [toInteger_eq_ok_iff.mpr hn] at h
    contradiction
  by_cases hinfinite : ∃ negative, v = .real (.infinite negative)
  · obtain ⟨negative, rfl⟩ := hinfinite
    cases h
    exact iff_of_false id (not_not.mpr (.inl ⟨negative, rfl⟩))
  · obtain rfl : cause = integerError name v := by
      unfold toInteger at h
      split at h
      · contradiction
      · next negative => exact absurd ⟨negative, rfl⟩ hinfinite
      · split at h
        · contradiction
        · exact (Except.error.inj h).symm
      · split at h
        · contradiction
        · exact (Except.error.inj h).symm
      · exact (Except.error.inj h).symm
    unfold integerError
    split
    · next shown hshown =>
      refine iff_of_true trivial fun hescapes => ?_
      rcases hescapes with h | ⟨_, hoverlong⟩
      · exact hinfinite h
      · rw [Value.debugText?_eq_none_iff.mpr hoverlong] at hshown
        contradiction
    · next hnone =>
      have hoverlong := Value.debugText?_eq_none_iff.mp hnone
      exact iff_of_false id (not_not.mpr (.inr ⟨hunread, hoverlong⟩))

end Settings

end Crontab
