import Mathlib

/-! Sets whose elements are visited in ascending order, each one the least above the one before. -/
namespace Crontab

variable {α : Type*}

/-- The list holds the first elements of the set, in ascending order. -/
structure ListsFirst [LT α] (S : Set α) (xs : List α) : Prop where
  ascending : xs.Pairwise (· < ·)
  mem : ∀ x ∈ xs, x ∈ S
  before : ∀ y ∈ xs, ∀ x ∈ S, x < y → x ∈ xs

/-- A finite set has a list in the order of a key that tells its elements apart. -/
theorem exists_ascending_list {β : Type*} [LinearOrder β] (key : α → β) {A : Set α}
    (hfinite : A.Finite) (hkey : A.InjOn key) :
    ∃ xs : List α, xs.Pairwise (fun x y => key x < key y) ∧ ∀ x, x ∈ xs ↔ x ∈ A := by
  classical
  obtain ⟨B, rfl⟩ := hfinite.exists_finset_coe
  induction B using Finset.induction_on_max_value key with
  | empty => exact ⟨[], List.Pairwise.nil, by simp⟩
  | insert a B ha hmax ih =>
    obtain ⟨xs, hascending, hmem⟩ := ih B.finite_toSet (hkey.mono (by simp))
    refine ⟨xs ++ [a], ?_, fun x => ?_⟩
    · rw [List.pairwise_append]
      refine ⟨hascending, List.pairwise_singleton _ _, fun x hx y hy => ?_⟩
      obtain rfl := List.mem_singleton.mp hy
      have hxB : x ∈ B := Finset.mem_coe.mp ((hmem x).mp hx)
      refine (hmax x hxB).lt_of_ne fun heq => ha ?_
      have hxy : x = y := hkey (by simp [hxB]) (by simp) heq
      exact hxy ▸ hxB
    · rw [List.mem_append, List.mem_singleton, hmem, Finset.coe_insert, Set.mem_insert_iff,
        or_comm]

variable [LinearOrder α] {S : Set α} {f : ℕ → α}

theorem ListsFirst.least_mem {xs : List α} {x : α} (h : ListsFirst {y ∈ S | x ≤ y} xs)
    (hne : xs ≠ []) (hx : x ∈ S) : x ∈ xs := by
  obtain ⟨y, ys, rfl⟩ := List.exists_cons_of_ne_nil hne
  rcases (h.mem y List.mem_cons_self).2.eq_or_lt with rfl | hlt
  · exact List.mem_cons_self
  · exact h.before y List.mem_cons_self x ⟨hx, le_rfl⟩ hlt

section Lists

variable {x : α} {xs ys : List α}

theorem ListsFirst.head_isLeast (h : ListsFirst S (x :: xs)) : IsLeast S x := by
  refine ⟨h.mem x List.mem_cons_self, fun y hy => ?_⟩
  by_contra hlt
  have hyx : y < x := not_le.mp hlt
  rcases List.mem_cons.mp (h.before x List.mem_cons_self y hy hyx) with heq | htail
  · exact hyx.ne heq
  · exact hyx.not_gt ((List.pairwise_cons.mp h.ascending).1 y htail)

theorem ListsFirst.tail (h : ListsFirst S (x :: xs)) : ListsFirst {y ∈ S | x < y} xs := by
  obtain ⟨hfirst, hascending⟩ := List.pairwise_cons.mp h.ascending
  refine ⟨hascending, fun y hy => ⟨h.mem y (List.mem_cons_of_mem x hy), hfirst y hy⟩, ?_⟩
  intro y hy z hz hlt
  have hmem := h.before y (List.mem_cons_of_mem x hy) z hz.1 hlt
  exact (List.mem_cons.mp hmem).resolve_left hz.2.ne'

theorem ListsFirst.le_getLast (h : ListsFirst S xs) {last : α} (hlast : xs.getLast? = some last)
    (hx : x ∈ xs) : x ≤ last := by
  obtain ⟨init, rfl⟩ := List.getLast?_eq_some_iff.mp hlast
  rcases List.mem_append.mp hx with hinit | hx
  · exact ((List.pairwise_append.mp h.ascending).2.2 x hinit last List.mem_cons_self).le
  · exact (List.mem_singleton.mp hx).le

theorem ListsFirst.unique (hlength : xs.length = ys.length) (h : ListsFirst S xs)
    (h' : ListsFirst S ys) : xs = ys := by
  induction xs generalizing S ys with
  | nil => exact (List.length_eq_zero_iff.mp hlength.symm).symm
  | cons x xs ih =>
    cases ys with
    | nil => contradiction
    | cons y ys =>
      obtain rfl : x = y := h.head_isLeast.unique h'.head_isLeast
      rw [ih (Nat.succ.inj hlength) h.tail h'.tail]

theorem ListsFirst.map {β : Type*} [LinearOrder β] {shift : α → β} (hshift : StrictMono shift)
    (h : ListsFirst S xs) : ListsFirst (shift '' S) (xs.map shift) := by
  refine ⟨?_, ?_, ?_⟩
  · rw [List.pairwise_map]
    exact h.ascending.imp fun hlt => hshift hlt
  · intro y hy
    obtain ⟨x, hx, rfl⟩ := List.mem_map.mp hy
    exact ⟨x, h.mem x hx, rfl⟩
  · rintro y hy _ ⟨x, hx, rfl⟩ hlt
    obtain ⟨z, hz, rfl⟩ := List.mem_map.mp hy
    exact List.mem_map.mpr ⟨x, h.before z hz x hx (hshift.lt_iff_lt.mp hlt), rfl⟩

end Lists

/-- Each value is the least element of the set above the value before it. -/
structure Visits (S : Set α) (f : ℕ → α) : Prop where
  zero_mem : f 0 ∈ S
  succ_isLeast : ∀ k, IsLeast {x ∈ S | f k < x} (f (k + 1))

namespace Visits

theorem mem (h : Visits S f) : ∀ k, f k ∈ S
  | 0 => h.zero_mem
  | k + 1 => (h.succ_isLeast k).1.1

theorem strictMono (h : Visits S f) : StrictMono f :=
  strictMono_nat_of_lt_succ fun k => (h.succ_isLeast k).1.2

theorem of_image {β : Type*} [LinearOrder β] {key : α → β} (hkey : StrictMono key)
    (h : Visits (key '' S) (key ∘ f)) : Visits S f := by
  have hmem {x : α} (hx : key x ∈ key '' S) : x ∈ S := (hkey.injective.mem_set_image).mp hx
  refine ⟨hmem h.zero_mem, fun k => ?_⟩
  obtain ⟨⟨hnext, hlt⟩, hleast⟩ := h.succ_isLeast k
  refine ⟨⟨hmem hnext, hkey.lt_iff_lt.mp hlt⟩, fun x hx => ?_⟩
  exact hkey.le_iff_le.mp (hleast ⟨Set.mem_image_of_mem key hx.1, hkey hx.2⟩)

/-- No element of the set is passed over. -/
theorem exists_eq (h : Visits S f) {x : α} {n : ℕ} (hx : x ∈ S) (hlo : f 0 ≤ x) (hhi : x ≤ f n) :
    ∃ k ≤ n, f k = x := by
  induction n with
  | zero => exact ⟨0, le_rfl, le_antisymm hlo hhi⟩
  | succ n ih =>
    by_cases hle : x ≤ f n
    · obtain ⟨k, hk, heq⟩ := ih hle
      exact ⟨k, hk.trans n.le_succ, heq⟩
    · have hge : f (n + 1) ≤ x := (h.succ_isLeast n).2 ⟨hx, not_le.mp hle⟩
      exact ⟨n + 1, le_rfl, le_antisymm hge hhi⟩

/-- If only finitely many elements lie between the start and any other, each of them is reached. -/
theorem range_succ_eq (h : Visits S f) (hfinite : ∀ x ∈ S, {y ∈ S | f 0 ≤ y ∧ y ≤ x}.Finite) :
    Set.range (fun k => f (k + 1)) = {x ∈ S | f 0 < x} := by
  ext x
  constructor
  · rintro ⟨k, rfl⟩
    exact ⟨h.mem (k + 1), h.strictMono k.succ_pos⟩
  · rintro ⟨hx, hlt⟩
    obtain ⟨n, hn⟩ : ∃ n, x ≤ f n := by
      by_contra hbelow
      push Not at hbelow
      have hmem : ∀ n, f n ∈ {y ∈ S | f 0 ≤ y ∧ y ≤ x} :=
        fun n => ⟨h.mem n, h.strictMono.monotone n.zero_le, (hbelow n).le⟩
      exact Set.infinite_of_injective_forall_mem h.strictMono.injective hmem (hfinite x hx)
    obtain ⟨k, _, rfl⟩ := h.exists_eq hx hlt.le hn
    cases k with
    | zero => exact absurd hlt (lt_irrefl _)
    | succ k => exact ⟨k, rfl⟩

theorem listsFirst (h : Visits S f) (n : ℕ) :
    ListsFirst {x ∈ S | f 0 ≤ x} ((List.range n).map f) := by
  refine ⟨?_, ?_, ?_⟩
  · rw [List.pairwise_map]
    exact List.pairwise_lt_range.imp fun hlt => h.strictMono hlt
  · intro x hx
    obtain ⟨k, _, rfl⟩ := List.mem_map.mp hx
    exact ⟨h.mem k, h.strictMono.monotone k.zero_le⟩
  · rintro y hy x ⟨hx, hlo⟩ hlt
    obtain ⟨n', hn', rfl⟩ := List.mem_map.mp hy
    obtain ⟨k, hk, rfl⟩ := h.exists_eq hx hlo hlt.le
    exact List.mem_map.mpr ⟨k, List.mem_range.mpr (hk.trans_lt (List.mem_range.mp hn')), rfl⟩

/-- The first value with a property is the least element of the set with that property. -/
theorem isLeast_of_first (h : Visits S f) {p : α → Prop} {k : ℕ} (hk : p (f k))
    (hfirst : ∀ j < k, ¬ p (f j)) : IsLeast {x ∈ S | f 0 ≤ x ∧ p x} (f k) := by
  refine ⟨⟨h.mem k, h.strictMono.monotone k.zero_le, hk⟩, ?_⟩
  intro x hx
  obtain ⟨hx, hlo, hpx⟩ := hx
  by_contra hlt
  obtain ⟨j, hj, rfl⟩ := h.exists_eq hx hlo (not_le.mp hlt).le
  rcases hj.eq_or_lt with rfl | hj
  · exact hlt le_rfl
  · exact hfirst j hj hpx

end Visits

end Crontab
