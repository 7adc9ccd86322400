import Crontab.Proofs.Faults
import Crontab.Proofs.Integers

/-! Settings from a mapping: which mappings are accepted, with which numbers, and where that is not
what the complaints about keys and values promise. -/
namespace Crontab.Settings

def unknownKeys (pairs : List (Value × Value)) : List Value :=
  (pairs.map Prod.fst).filter fun key => (nameOf? key).isNone

def namedEntries (pairs : List (Value × Value)) : List (String × Value) :=
  pairs.filterMap fun (key, value) => (nameOf? key).map (·, value)

def asPair (entry : String × Value) : Value × Value :=
  (.text entry.1, entry.2)

def readEntries (entries : List (String × Value)) : Except MappingError (List (String × ℤ)) :=
  entries.mapM fun (name, value) => return (name, ← toInteger name value)

def ofNumbers (numbers : List (String × ℤ)) : Except MappingError Settings :=
  let get (name : String) (usual : ℤ) : ℤ := (numbers.lookup name).getD usual
  (make (get "max_invalid_dates" 100) (get "min_year" 1) (get "max_year" 9999)).mapError
    .unacceptable

def ReadEntry (e : String × Value) (q : String × ℤ) : Prop :=
  e.1 = q.1 ∧ e.2.ReadAs q.2

variable {v : Value} {n : ℤ} {name : String} {cause : MappingError}
  {pairs : List (Value × Value)} {entries : List (String × Value)}

theorem ofMapping_eq (pairs : List (Value × Value)) : ofMapping pairs =
    (unknownError (unknownKeys pairs)).elim (readEntries (namedEntries pairs) >>= ofNumbers)
      .error := by
  unfold ofMapping unknownKeys
  dsimp only
  generalize unknownError _ = unknown?
  cases unknown? with
  | some e => rfl
  | none =>
    change readEntries (namedEntries pairs) >>= _ = readEntries (namedEntries pairs) >>= _
    congr 1
    funext numbers
    unfold ofNumbers
    dsimp only
    cases make _ _ _ <;> rfl

theorem nameOf?_text (h : name ∈ names) : nameOf? (.text name) = some name := by
  revert name
  decide

theorem nameOf?_eq_some_iff {key : Value} :
    nameOf? key = some name ↔ key = .text name ∧ name ∈ names := by
  constructor
  · intro h
    have hsame := List.find?_some h
    refine ⟨?_, List.mem_of_find?_eq_some h⟩
    cases key <;> simp_all [Value.sameKey, Value.number?]
  · rintro ⟨rfl, hname⟩
    exact nameOf?_text hname

theorem namedEntries_cons_text (h : name ∈ names) :
    namedEntries ((.text name, v) :: pairs) = (name, v) :: namedEntries pairs := by
  simp [namedEntries, nameOf?_text h]

theorem unknownKeys_cons_text (h : name ∈ names) :
    unknownKeys ((.text name, v) :: pairs) = unknownKeys pairs := by
  simp [unknownKeys, nameOf?_text h]

/-- A mapping without unknown keys is one of texts that name settings. -/
theorem exists_entries (h : unknownKeys pairs = []) :
    ∃ entries : List (String × Value), pairs = entries.map asPair ∧ ∀ e ∈ entries, e.1 ∈ names := by
  induction pairs with
  | nil => exact ⟨[], rfl, by simp⟩
  | cons p pairs ih =>
    obtain ⟨key, v⟩ := p
    cases hname : nameOf? key with
    | none => simp [unknownKeys, hname] at h
    | some name =>
      obtain ⟨rfl, hmem⟩ := nameOf?_eq_some_iff.mp hname
      rw [unknownKeys_cons_text hmem] at h
      obtain ⟨entries, rfl, hentries⟩ := ih h
      exact ⟨(name, v) :: entries, rfl, List.forall_mem_cons.mpr ⟨hmem, hentries⟩⟩

theorem ofMapping_asPair (h : ∀ e ∈ entries, e.1 ∈ names) :
    ofMapping (entries.map asPair) = readEntries entries >>= ofNumbers := by
  have hviews : unknownKeys (entries.map asPair) = [] ∧
      namedEntries (entries.map asPair) = entries := by
    induction entries with
    | nil => exact ⟨rfl, rfl⟩
    | cons e entries ih =>
      obtain ⟨hmem, hentries⟩ := List.forall_mem_cons.mp h
      obtain ⟨hunknown, hnamed⟩ := ih hentries
      rw [List.map_cons, asPair, unknownKeys_cons_text hmem, namedEntries_cons_text hmem, hnamed]
      exact ⟨hunknown, rfl⟩
  rw [ofMapping_eq, hviews.1, hviews.2]
  rfl

theorem readEntries_cons (e : String × Value) (entries : List (String × Value)) :
    readEntries (e :: entries) = toInteger e.1 e.2 >>= fun n =>
      readEntries entries >>= fun numbers => .ok ((e.1, n) :: numbers) := by
  unfold readEntries
  rw [List.mapM_cons, bind_assoc]
  rfl

theorem readEntries_eq_ok_iff {numbers : List (String × ℤ)} : readEntries entries = .ok numbers ↔
    List.Forall₂ ReadEntry entries numbers := by
  induction entries generalizing numbers with
  | nil =>
    rw [List.forall₂_nil_left_iff]
    exact ⟨fun h => (Except.ok.inj h).symm, fun h => congrArg Except.ok h.symm⟩
  | cons e entries ih =>
    simp only [readEntries_cons, bind_eq_ok, toInteger_eq_ok_iff, ih,
      List.forall₂_cons_left_iff]
    constructor
    · rintro ⟨n, hn, rest, hrest, hnumbers⟩
      exact ⟨(e.1, n), rest, ⟨rfl, hn⟩, hrest, (Except.ok.inj hnumbers).symm⟩
    · rintro ⟨⟨_, n⟩, rest, ⟨rfl, hn⟩, hrest, rfl⟩
      exact ⟨n, hn, rest, hrest, rfl⟩

theorem readEntries_eq_error_iff : readEntries entries = .error cause ↔
    ∃ before e after, entries = before ++ e :: after ∧ (∀ p ∈ before, ∃ n, p.2.ReadAs n) ∧
      toInteger e.1 e.2 = .error cause := by
  constructor
  · intro h
    induction entries with
    | nil => contradiction
    | cons e entries ih =>
      rw [readEntries_cons] at h
      rcases bind_eq_error.mp h with hfails | ⟨n, hn, h⟩
      · exact ⟨[], e, entries, rfl, by simp, hfails⟩
      · rcases bind_eq_error.mp h with hfails | ⟨_, _, h⟩
        · obtain ⟨before, e', after, rfl, hbefore, hstop⟩ := ih hfails
          have he := toInteger_eq_ok_iff.mp hn
          exact ⟨e :: before, e', after, rfl, List.forall_mem_cons.mpr ⟨⟨n, he⟩, hbefore⟩, hstop⟩
        · contradiction
  · rintro ⟨before, e, after, rfl, hbefore, hstop⟩
    induction before with
    | nil =>
      rw [List.nil_append, readEntries_cons, hstop]
      rfl
    | cons p before ih =>
      obtain ⟨⟨n, hn⟩, hbefore⟩ := List.forall_mem_cons.mp hbefore
      rw [List.cons_append, readEntries_cons, toInteger_eq_ok_iff.mpr hn, ih hbefore]
      rfl

theorem exists_readEntries_eq_ok_iff :
    (∃ numbers, readEntries entries = .ok numbers) ↔ ∀ e ∈ entries, ∃ n, e.2.ReadAs n := by
  constructor
  · rintro ⟨numbers, h⟩
    rw [readEntries_eq_ok_iff] at h
    induction h with
    | nil => simp
    | cons hread _ ih => exact List.forall_mem_cons.mpr ⟨⟨_, hread.2⟩, ih⟩
  · intro h
    cases hread : readEntries entries with
    | ok numbers => exact ⟨numbers, rfl⟩
    | error cause =>
      obtain ⟨before, e, after, rfl, _, he⟩ := readEntries_eq_error_iff.mp hread
      obtain ⟨n, hn⟩ := h e (by simp)
      rw [toInteger_eq_ok_iff.mpr hn] at he
      contradiction

/-- A number of some settings, by the value that a mapping supplies for it; without one it is the
usual number. -/
def Supplied (R : Value → ℤ → Prop) (pairs : List (Value × Value)) (name : String)
    (usual n : ℤ) : Prop :=
  match Value.lookup? name pairs with
  | some v => R v n
  | none => n = usual

/-- All numbers of some settings are supplied by a mapping or usual. -/
structure TakenFrom (σ : Settings) (R : Value → ℤ → Prop) (pairs : List (Value × Value)) :
    Prop where
  budget : Supplied R pairs "max_invalid_dates" 100 σ.maxInvalidDates
  minYear : Supplied R pairs "min_year" 1 σ.minYear
  maxYear : Supplied R pairs "max_year" 9999 σ.maxYear

theorem takenFrom_iff {σ : Settings} {R : Value → ℤ → Prop} : σ.TakenFrom R pairs ↔
    Supplied R pairs "max_invalid_dates" 100 σ.maxInvalidDates ∧
    Supplied R pairs "min_year" 1 σ.minYear ∧ Supplied R pairs "max_year" 9999 σ.maxYear := by
  constructor
  · rintro ⟨hb, hlo, hhi⟩
    exact ⟨hb, hlo, hhi⟩
  · rintro ⟨hb, hlo, hhi⟩
    exact ⟨hb, hlo, hhi⟩

theorem lookup?_asPair (name : String) (entries : List (String × Value)) :
    Value.lookup? name (entries.map asPair) = entries.lookup name := by
  induction entries with
  | nil => rfl
  | cons e entries ih =>
    unfold Value.lookup? at ih ⊢
    have hsame : (Value.text e.1).sameKey (.text name) = (name == e.1) := BEq.comm
    rw [List.map_cons, List.find?_cons, List.lookup_cons, ← ih]
    simp only [asPair, hsame]
    cases name == e.1 <;> rfl

/-- What has been read for a name is what the mapping supplies. -/
theorem getD_lookup_eq_iff {numbers : List (String × ℤ)} {usual : ℤ}
    (h : List.Forall₂ ReadEntry entries numbers) :
    (numbers.lookup name).getD usual = n ↔
      Supplied Value.ReadAs (entries.map asPair) name usual n := by
  unfold Supplied
  rw [lookup?_asPair]
  induction h with
  | nil => exact eq_comm
  | @cons e q entries numbers hread _ ih =>
    obtain ⟨hname, hread⟩ := hread
    rw [List.lookup_cons, List.lookup_cons, hname]
    cases name == q.1 with
    | false => exact ih
    | true =>
      constructor
      · rintro rfl
        exact hread
      · exact hread.unique

theorem make_eq_ok_iff {b lo hi : ℤ} {σ : Settings} : make b lo hi = .ok σ ↔
    b = σ.maxInvalidDates ∧ lo = σ.minYear ∧ hi = σ.maxYear := by
  constructor
  · intro h
    unfold make at h
    split_ifs at h with hb hw
    cases h
    exact ⟨(Int.toNat_of_nonneg (by omega)).symm, rfl, rfl⟩
  · rintro ⟨rfl, rfl, rfl⟩
    have hb : ¬ (σ.maxInvalidDates : ℤ) < 1 := by
      have := σ.budget_pos
      omega
    rw [make, dif_neg hb, dif_pos σ.window]
    simp only [Int.toNat_natCast]

theorem ofNumbers_eq_ok_iff {numbers : List (String × ℤ)} {σ : Settings}
    (h : List.Forall₂ ReadEntry entries numbers) :
    ofNumbers numbers = .ok σ ↔ σ.TakenFrom Value.ReadAs (entries.map asPair) := by
  unfold ofNumbers
  dsimp only
  rw [mapError_eq_ok_iff, make_eq_ok_iff, getD_lookup_eq_iff h, getD_lookup_eq_iff h, getD_lookup_eq_iff h,
    takenFrom_iff]

theorem ofNumbers_error {numbers : List (String × ℤ)} (h : ofNumbers numbers = .error cause) :
    cause.IsComplaint := by
  unfold ofNumbers at h
  dsimp only at h
  generalize make _ _ _ = made at h
  cases made with
  | ok σ => contradiction
  | error e =>
    cases h
    trivial

theorem isSome_foldl {α : Type} {f : Option α → α → Option α} (hf : ∀ o a, (f o a).isSome = true)
    {as : List α} (h : as ≠ []) (o : Option α) : (as.foldl f o).isSome = true := by
  rw [← List.dropLast_append_getLast h, List.foldl_concat]
  exact hf _ _

/-- Unknown keys are complained about exactly if all of them are texts. -/
theorem unknownError_cases (keys : List Value) :
    (keys = [] ∧ unknownError keys = none) ∨
    ∃ e, keys ≠ [] ∧ unknownError keys = some e ∧
      (e.IsComplaint ↔ ∀ key ∈ keys, key.kindName = "str") := by
  unfold unknownError
  extract_lets texts clash least
  have hcount : texts.length = keys.length ↔ ∀ key ∈ keys, key.kindName = "str" := by
    rw [List.filterMap_length_eq_length]
    refine forall₂_congr fun key _ => ?_
    cases key <;> simp [Value.kindName]
  by_cases hkeys : keys = []
  · subst hkeys
    exact .inl ⟨rfl, rfl⟩
  · refine .inr ?_
    by_cases htexts : texts.length = keys.length
    · have hne : ¬ texts.isEmpty = true := by
        intro hempty
        rw [List.isEmpty_iff.mp hempty] at htexts
        exact hkeys (List.length_eq_zero_iff.mp htexts.symm)
      rw [if_pos htexts, if_neg hne]
      exact ⟨_, hkeys, rfl, iff_of_true trivial (hcount.mp htexts)⟩
    · -- some key is no text: two neighbours clash, or else the least key is reported
      have hleast : least.isSome = true := by
        refine isSome_foldl (fun o key => ?_) hkeys none
        split
        · rfl
        · split
          · split_ifs <;> rfl
          · rfl
      obtain ⟨key, hkey⟩ := Option.isSome_iff_exists.mp hleast
      have hnot := mt hcount.mpr htexts
      rw [if_neg htexts, hkey]
      cases clash with
      | none => exact ⟨_, hkeys, rfl, iff_of_false id hnot⟩
      | some ab => exact ⟨_, hkeys, rfl, iff_of_false id hnot⟩

theorem mem_unknownKeys_iff {key : Value} : key ∈ unknownKeys pairs ↔
    (∃ v, (key, v) ∈ pairs) ∧ nameOf? key = none := by
  simp [unknownKeys, List.mem_filter]

/-- A mapping is accepted with some settings. -/
structure Accepts (pairs : List (Value × Value)) (σ : Settings) : Prop where
  known : ∀ p ∈ pairs, ∃ name ∈ names, p.1 = .text name
  integers : ∀ p ∈ pairs, ∃ n, p.2.ReadAs n
  numbers : σ.TakenFrom Value.ReadAs pairs

theorem forall_known_iff :
    (∀ p ∈ pairs, ∃ name ∈ names, p.1 = .text name) ↔ unknownKeys pairs = [] := by
  constructor
  · intro h
    rw [List.eq_nil_iff_forall_not_mem]
    intro key hkey
    obtain ⟨⟨v, hv⟩, hnone⟩ := mem_unknownKeys_iff.mp hkey
    obtain ⟨name, hname, rfl⟩ := h (key, v) hv
    rw [nameOf?_text hname] at hnone
    contradiction
  · intro h
    obtain ⟨entries, rfl, hentries⟩ := exists_entries h
    intro p hp
    obtain ⟨e, he, rfl⟩ := List.mem_map.mp hp
    exact ⟨e.1, hentries e he, rfl⟩

theorem ofMapping_eq_ok_iff {σ : Settings} : ofMapping pairs = .ok σ ↔ Accepts pairs σ := by
  constructor
  · intro h
    rcases unknownError_cases (unknownKeys pairs) with ⟨hknown, _⟩ | ⟨e, _, he, _⟩
    · obtain ⟨entries, rfl, hentries⟩ := exists_entries hknown
      rw [ofMapping_asPair hentries] at h
      obtain ⟨numbers, hread, h⟩ := bind_eq_ok.mp h
      refine ⟨forall_known_iff.mpr hknown, ?_, ?_⟩
      · exact List.forall_mem_map.mpr (exists_readEntries_eq_ok_iff.mp ⟨numbers, hread⟩)
      · exact (ofNumbers_eq_ok_iff (readEntries_eq_ok_iff.mp hread)).mp h
    · rw [ofMapping_eq, he] at h
      contradiction
  · rintro ⟨hknown, hintegers, hnumbers⟩
    obtain ⟨entries, rfl, hentries⟩ := exists_entries (forall_known_iff.mp hknown)
    rw [List.forall_mem_map] at hintegers
    obtain ⟨numbers, hread⟩ := exists_readEntries_eq_ok_iff.mpr hintegers
    rw [ofMapping_asPair hentries, hread]
    exact (ofNumbers_eq_ok_iff (readEntries_eq_ok_iff.mp hread)).mpr hnumbers

/-- What callers are promised: settings with exactly the integers of the mapping and the usual
numbers for the rest, or a complaint. -/
def AsPromised (pairs : List (Value × Value)) : Except MappingError Settings → Prop
  | .ok σ => σ.TakenFrom Value.Denotes pairs
  | .error cause => cause.IsComplaint

/-- Where the promise is broken: by an unknown key that is no text, by the first value that is no
integer if it escapes the complaint about it, and by a fraction among numbers that are accepted. -/
inductive Breaks (pairs : List (Value × Value)) : Prop
  | key {key : Value} (h : key ∈ unknownKeys pairs) (hkey : key.kindName ≠ "str")
  | value {before after : List (Value × Value)} {p : Value × Value}
    (hpairs : pairs = before ++ p :: after)
    (hknown : ∀ p ∈ pairs, ∃ name ∈ names, p.1 = .text name)
    (hbefore : ∀ p ∈ before, ∃ n, p.2.ReadAs n) (hescapes : p.2.Escapes)
  | fraction {σ : Settings} {name : String} {v : Value} (h : Accepts pairs σ)
    (hname : name ∈ names) (hv : Value.lookup? name pairs = some v) (hfraction : v.HasFraction)

theorem supplied_denotes_iff {usual : ℤ} (h : Supplied Value.ReadAs pairs name usual n) :
    Supplied Value.Denotes pairs name usual n ↔
      ∀ v, Value.lookup? name pairs = some v → ¬ v.HasFraction := by
  unfold Supplied at h ⊢
  cases hv : Value.lookup? name pairs with
  | none =>
    rw [hv] at h
    exact iff_of_true h (by simp)
  | some v =>
    rw [hv] at h
    exact (Value.denotes_iff_of_readAs h).trans (by simp)

/-- Accepted numbers are the ones of the mapping if no fraction has been lost. -/
theorem takenFrom_denotes_iff {σ : Settings} (h : σ.TakenFrom Value.ReadAs pairs) :
    σ.TakenFrom Value.Denotes pairs ↔
      ∀ name ∈ names, ∀ v, Value.lookup? name pairs = some v → ¬ v.HasFraction := by
  obtain ⟨hb, hlo, hhi⟩ := h
  simp only [names, List.forall_mem_cons, List.not_mem_nil, false_implies, implies_true, and_true,
    ← supplied_denotes_iff hb, ← supplied_denotes_iff hlo, ← supplied_denotes_iff hhi]
  exact takenFrom_iff

theorem not_asPromised_of_breaks (h : Breaks pairs) : ¬ AsPromised pairs (ofMapping pairs) := by
  cases h with
  | @key key h hkey =>
    rcases unknownError_cases (unknownKeys pairs) with ⟨hnone, _⟩ | ⟨e, _, he, hiff⟩
    · rw [hnone] at h
      contradiction
    · rw [ofMapping_eq, he]
      exact fun hcomplaint => hkey (hiff.mp hcomplaint key h)
  | @value before after p hpairs hknown hbefore hescapes =>
    obtain ⟨entries, rfl, hentries⟩ := exists_entries (forall_known_iff.mp hknown)
    obtain ⟨first, rest, rfl, rfl, hrest⟩ := List.map_eq_append_iff.mp hpairs
    obtain ⟨e, after, rfl, rfl, rfl⟩ := List.map_eq_cons_iff.mp hrest
    rw [ofMapping_asPair hentries]
    cases he : toInteger e.1 e.2 with
    | ok n => exact absurd (toInteger_eq_ok_iff.mp he) (hescapes.not_readAs n)
    | error cause =>
      have hfirst : ∀ p ∈ first, ∃ n, p.2.ReadAs n :=
        fun p hp => hbefore (asPair p) (List.mem_map_of_mem hp)
      have hread : readEntries (first ++ e :: after) = .error cause :=
        readEntries_eq_error_iff.mpr ⟨first, e, after, rfl, hfirst, he⟩
      rw [hread]
      exact mt (toInteger_error he).mp (not_not.mpr hescapes)
  | fraction h hname hv hfraction =>
    rw [ofMapping_eq_ok_iff.mpr h]
    exact fun hpromised => (takenFrom_denotes_iff h.numbers).mp hpromised _ hname _ hv hfraction

theorem breaks_of_not_asPromised (h : ¬ AsPromised pairs (ofMapping pairs)) : Breaks pairs := by
  rcases unknownError_cases (unknownKeys pairs) with ⟨hknown, _⟩ | ⟨e, _, he, hiff⟩
  · cases hresult : ofMapping pairs with
    | ok σ =>
      rw [hresult] at h
      have haccepts := ofMapping_eq_ok_iff.mp hresult
      have hlost := mt (takenFrom_denotes_iff haccepts.numbers).mpr h
      push Not at hlost
      obtain ⟨name, hname, v, hv, hfraction⟩ := hlost
      exact .fraction haccepts hname hv hfraction
    | error cause =>
      rw [hresult] at h
      have hall := forall_known_iff.mpr hknown
      obtain ⟨entries, rfl, hentries⟩ := exists_entries hknown
      rw [ofMapping_asPair hentries] at hresult
      rcases bind_eq_error.mp hresult with hread | ⟨numbers, _, hnumbers⟩
      · obtain ⟨before, e, after, rfl, hbefore, he⟩ := readEntries_eq_error_iff.mp hread
        refine .value (List.map_append) hall (List.forall_mem_map.mpr hbefore) ?_
        exact not_not.mp (mt (toInteger_error he).mpr h)
      · exact absurd (ofNumbers_error hnumbers) h
  · rw [ofMapping_eq, he] at h
    have hkeys := mt hiff.mpr h
    push Not at hkeys
    obtain ⟨key, hkey, hkind⟩ := hkeys
    exact .key hkey hkind

/-- A mapping is accepted exactly if its keys name settings, its values can be made integers and
these numbers are acceptable. The promise about it is kept unless one of three things breaks it. -/
theorem ofMapping_asPromised_iff (pairs : List (Value × Value)) :
    (∀ σ, ofMapping pairs = .ok σ ↔ Accepts pairs σ) ∧
    (AsPromised pairs (ofMapping pairs) ↔ ¬ Breaks pairs) := by
  refine ⟨fun σ => ofMapping_eq_ok_iff, fun h hbreaks => not_asPromised_of_breaks hbreaks h, ?_⟩
  intro h
  by_contra hnot
  exact h (breaks_of_not_asPromised hnot)

def twoThousandAndHalf : Binary64 :=
  .finite false (4001 <<< 41) (-42)

/-- An infinite year, a year with a fraction, and a number as a key. -/
theorem not_asPromised_infinite_fraction_key :
    ¬ AsPromised [(.text "max_year", .real (.infinite false))]
      (ofMapping [(.text "max_year", .real (.infinite false))]) ∧
    ¬ AsPromised [(.text "min_year", .real twoThousandAndHalf)]
      (ofMapping [(.text "min_year", .real twoThousandAndHalf)]) ∧
    ¬ AsPromised [(.integer 1, .integer 5)] (ofMapping [(.integer 1, .integer 5)]) := by
  have hexact : twoThousandAndHalf.rational? = some (4001 / 2) := by
    norm_num [twoThousandAndHalf, Binary64.rational?, Nat.shiftLeft_eq]
  have haccepted : ∃ σ, ofMapping [(.text "min_year", .real twoThousandAndHalf)] = .ok σ :=
    ⟨{ minYear := 2000 }, rfl⟩
  obtain ⟨σ, hσ⟩ := haccepted
  refine ⟨id, ?_, id⟩
  have hname : "min_year" ∈ names := by decide
  refine not_asPromised_of_breaks (.fraction (ofMapping_eq_ok_iff.mp hσ) hname rfl
    (.real hexact fun n hn => ?_))
  have hdouble : (4001 : ℚ) = ((2 * n : ℤ) : ℚ) := by
    push_cast
    linarith
  have hparity : (4001 : ℤ) = 2 * n := by exact_mod_cast hdouble
  omega

end Crontab.Settings
