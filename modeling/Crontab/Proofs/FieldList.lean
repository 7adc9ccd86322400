import Crontab.Field.Reader
import Crontab.Proofs.Text

/-! How a list is read, by any reader of atoms, also one that keeps a state of its own: the reader
is called on the entries from left to right, each of them once, up to the first fault. -/
namespace Crontab.Field

def entries (text : String) : List String :=
  (text.toList.splitOn ',').map .ofList

theorem toList_entries (text : String) :
    (entries text).map String.toList = text.toList.splitOn ',' := by
  simp [entries, Function.comp_def]

theorem entries_eq_append_iff {text x : String} {before after : List String} :
    entries text = before ++ x :: after ↔
      text.toList.splitOn ',' =
        before.map String.toList ++ x.toList :: after.map String.toList := by
  have hinj : Function.Injective String.toList := fun _ _ => String.toList_inj.mp
  rw [← toList_entries, ← List.map_cons, ← List.map_append]
  exact (List.map_injective_iff.mpr hinj).eq_iff.symm

theorem intercalate_entries (text : String) : String.intercalate "," (entries text) = text := by
  rw [← String.toList_inj, String.toList_intercalate, toList_entries]
  exact List.intercalate_splitOn ','

theorem comma_notMem_entries {text entry : String} (h : entry ∈ entries text) :
    ',' ∉ entry.toList := by
  obtain ⟨x, hx, rfl⟩ := List.mem_map.mp h
  rw [String.toList_ofList]
  have hnone := Text.sep_notMem_segments ',' text.toList
  rw [← Text.segments_eq_splitOn] at hx
  rcases List.mem_cons.mp hx with rfl | hx
  · exact hnone.1
  · exact hnone.2 x hx

section Monad

variable {ε : Type} {m : Type → Type} [Monad m]

def readEntry (refuse : Refusal → ε) (readAtom : String → ExceptT ε m Atom) (text entry : String) :
    ExceptT ε m Atom :=
  readSegment refuse readAtom text entry.toList

variable {refuse : Refusal → ε} {readAtom : String → ExceptT ε m Atom} {text entry : String}

theorem readEntry_of_blank (h : Text.strip entry = "") :
    readEntry refuse readAtom text entry = throw (refuse ⟨.emptyListEntry text, text, none⟩) := by
  unfold readEntry readSegment
  rw [if_pos (List.all_eq_true.mpr (Text.strip_eq_empty_iff.mp h))]

theorem readEntry_of_not_blank (h : Text.strip entry ≠ "") :
    readEntry refuse readAtom text entry = readAtom entry := by
  unfold readEntry readSegment
  rw [if_neg (mt List.all_eq_true.mp (mt Text.strip_eq_empty_iff.mpr h)), String.ofList_toList]

theorem readEntry_ofList (x : List Char) : readEntry refuse readAtom text (.ofList x) =
    readSegment refuse readAtom text x := by
  unfold readEntry
  rw [String.toList_ofList]

theorem atoms_map_readWith [LawfulMonad m] :
    atoms <$> readWith refuse readAtom text =
      (entries text).mapM (readEntry refuse readAtom text) := by
  unfold entries readWith
  rw [List.mapM_map, ← Text.segments_eq_splitOn, List.mapM_cons]
  simp only [map_bind, map_pure, Function.comp_def, readEntry_ofList]
  rfl

end Monad

section Run

/-! A step of a computation that may fail and keeps a state. -/

variable {ε σ α β : Type} {x : ExceptT ε (StateM σ) α} {f : α → ExceptT ε (StateM σ) β} {s s' : σ}

theorem run_bind_eq : (x >>= f).run s = ExceptT.bindCont f (x.run s).1 (x.run s).2 := rfl

theorem run_bind_of_ok {a : α} (h : x.run s = (.ok a, s')) : (x >>= f).run s = (f a).run s' := by
  rw [run_bind_eq, h]
  rfl

theorem run_bind_of_error {e : ε} (h : x.run s = (.error e, s')) :
    (x >>= f).run s = (.error e, s') := by
  rw [run_bind_eq, h]
  rfl

theorem run_map {g : α → β} : (g <$> x).run s = ((x.run s).1.map g, (x.run s).2) := by
  rw [map_eq_pure_bind, run_bind_eq]
  cases (x.run s).1 with
  | error e => rfl
  | ok a => rfl

end Run

section Reader

variable {ε σ : Type} (refuse : Refusal → ε) (p : String → σ → Except ε Atom × σ) (text : String)

def readBy (s : σ) : Except ε Field × σ :=
  (readWith (m := StateM σ) refuse (fun x => ExceptT.mk (p x)) text).run s

def readEntries (xs : List String) (s : σ) : Except ε (List Atom) × σ :=
  (xs.mapM (readEntry (m := StateM σ) refuse (fun x => ExceptT.mk (p x)) text)).run s

/-- None of the texts is blank, and the reader, called on them in turn, gives these atoms. -/
inductive Gives : σ → List String → List Atom → σ → Prop where
  | nil {s : σ} : Gives s [] [] s
  | cons {s s' s'' : σ} {x : String} {xs : List String} {a : Atom} {as : List Atom} :
      Text.strip x ≠ "" → p x s = (.ok a, s') → Gives s' xs as s'' →
      Gives s (x :: xs) (a :: as) s''

/-- What comes of a list: the texts that the reader is called on, the result, and the last state. -/
inductive Outcome (s : σ) : List String → Except ε Field → σ → Prop where
  | failed {before after : List String} {x : String} {atoms : List Atom} {s' s'' : σ} {e : ε} :
      entries text = before ++ x :: after → Gives p s before atoms s' → Text.strip x ≠ "" →
      p x s' = (.error e, s'') → Outcome s (before ++ [x]) (.error e) s''
  | blank {before after : List String} {x : String} {atoms : List Atom} {s' : σ} :
      entries text = before ++ x :: after → Gives p s before atoms s' → Text.strip x = "" →
      Outcome s before (.error (refuse ⟨.emptyListEntry text, text, none⟩)) s'
  | read {f : Field} {s' : σ} :
      Gives p s (entries text) f.atoms s' → Outcome s (entries text) (.ok f) s'

def noting (x : String) (state : List String × σ) : Except ε Atom × List String × σ :=
  let (result, s) := p x state.2
  (result, state.1 ++ [x], s)

variable {refuse p text} {s s' : σ} {x : String} {xs : List String}

theorem readEntries_nil : readEntries refuse p text [] s = (.ok [], s) := by
  unfold readEntries
  rw [List.mapM_nil]
  rfl

theorem readEntries_cons_of_blank (h : Text.strip x = "") : readEntries refuse p text (x :: xs) s =
    (.error (refuse ⟨.emptyListEntry text, text, none⟩), s) := by
  unfold readEntries
  rw [List.mapM_cons, readEntry_of_blank h]
  rfl

theorem readEntries_cons_of_error {e : ε} (h : Text.strip x ≠ "") (hx : p x s = (.error e, s')) :
    readEntries refuse p text (x :: xs) s = (.error e, s') := by
  unfold readEntries
  rw [List.mapM_cons, readEntry_of_not_blank h]
  exact run_bind_of_error hx

theorem readEntries_cons_of_ok {a : Atom} (h : Text.strip x ≠ "") (hx : p x s = (.ok a, s')) :
    readEntries refuse p text (x :: xs) s =
      ((readEntries refuse p text xs s').1.map (a :: ·), (readEntries refuse p text xs s').2) := by
  have hrun : (ExceptT.mk (p x) : ExceptT ε (StateM σ) Atom).run s = (.ok a, s') := hx
  unfold readEntries
  rw [List.mapM_cons, readEntry_of_not_blank h, run_bind_of_ok hrun, bind_pure_comp]
  exact run_map

/-- After the entries that are read, the rest of the list is read from the state that they leave. -/
theorem Gives.readEntries_append {atoms : List Atom} (h : Gives p s xs atoms s')
    (rest : List String) : readEntries refuse p text (xs ++ rest) s =
      ((readEntries refuse p text rest s').1.map (atoms ++ ·),
        (readEntries refuse p text rest s').2) := by
  induction h with
  | @nil s =>
    rw [List.nil_append]
    rcases readEntries refuse p text rest s with ⟨_ | as, s'⟩
    · rfl
    · rfl
  | cons hx hread _ ih =>
    rw [List.cons_append, readEntries_cons_of_ok hx hread, ih]
    cases (readEntries refuse p text rest _).1 with
    | error e => rfl
    | ok as => rfl

theorem atoms_readBy : ((readBy refuse p text s).1.map atoms, (readBy refuse p text s).2) =
    readEntries refuse p text (entries text) s := by
  unfold readEntries readBy
  rw [← atoms_map_readWith, run_map]

theorem readBy_of_error {e : ε} (h : readEntries refuse p text (entries text) s = (.error e, s')) :
    readBy refuse p text s = (.error e, s') := by
  rw [← atoms_readBy] at h
  rcases hread : readBy refuse p text s with ⟨e' | f, s''⟩
  · rw [hread] at h
    cases h
    rfl
  · rw [hread] at h
    cases h

theorem readBy_of_ok {f : Field}
    (h : readEntries refuse p text (entries text) s = (.ok f.atoms, s')) :
    readBy refuse p text s = (.ok f, s') := by
  rw [← atoms_readBy] at h
  rcases hread : readBy refuse p text s with ⟨e | g, s''⟩
  · rw [hread] at h
    cases h
  · rw [hread] at h
    obtain ⟨hatoms, rfl⟩ := Prod.mk.inj h
    obtain ⟨hhead, htail⟩ := List.cons.inj (Except.ok.inj hatoms)
    cases f
    cases g
    simp_all

theorem Outcome.readBy_eq {calls : List String} {result : Except ε Field}
    (h : Outcome refuse p text s calls result s') : readBy refuse p text s = (result, s') := by
  cases h with
  | @failed before after x atoms s₁ s₂ e hentries hbefore hx hfail =>
    apply readBy_of_error
    rw [hentries, hbefore.readEntries_append, readEntries_cons_of_error hx hfail]
    rfl
  | @blank before after x atoms s₁ hentries hbefore hx =>
    apply readBy_of_error
    rw [hentries, hbefore.readEntries_append, readEntries_cons_of_blank hx]
    rfl
  | read hread =>
    apply readBy_of_ok
    rw [← List.append_nil (entries text), hread.readEntries_append, readEntries_nil]
    simp [Except.map]

theorem Gives.noting {atoms : List Atom} (h : Gives p s xs atoms s') (noted : List String) :
    Gives (noting p) (noted, s) xs atoms (noted ++ xs, s') := by
  induction h generalizing noted with
  | nil =>
    rw [List.append_nil]
    exact .nil
  | @cons s s' s'' x xs a as hx hread _ ih =>
    have hnote : Field.noting p x (noted, s) = (.ok a, noted ++ [x], s') := by
      simp only [Field.noting, hread]
    rw [List.append_cons]
    exact .cons hx hnote (ih (noted ++ [x]))

/-- The notes are the calls, and they change nothing else. -/
theorem Outcome.noting {calls : List String} {result : Except ε Field}
    (h : Outcome refuse p text s calls result s') (noted : List String) :
    Outcome refuse (noting p) text (noted, s) calls result (noted ++ calls, s') := by
  cases h with
  | @failed before after x atoms s₁ s₂ e hentries hbefore hx hfail =>
    have hnote : Field.noting p x (noted ++ before, s₁) =
        (.error e, noted ++ before ++ [x], s') := by
      simp only [Field.noting, hfail]
    rw [← List.append_assoc]
    exact .failed hentries (hbefore.noting noted) hx hnote
  | blank hentries hbefore hx => exact .blank hentries (hbefore.noting noted) hx
  | read hread => exact .read (hread.noting noted)

theorem gives_or_stops (p : String → σ → Except ε Atom × σ) (xs : List String) (s : σ) :
    (∃ atoms s', Gives p s xs atoms s') ∨ ∃ before x after atoms s', xs = before ++ x :: after ∧
      Gives p s before atoms s' ∧
      (Text.strip x = "" ∨ Text.strip x ≠ "" ∧ ∃ e s'', p x s' = (.error e, s'')) := by
  induction xs generalizing s with
  | nil => exact Or.inl ⟨[], s, .nil⟩
  | cons x xs ih =>
    by_cases hx : Text.strip x = ""
    · exact Or.inr ⟨[], x, xs, [], s, rfl, .nil, Or.inl hx⟩
    · rcases hread : p x s with ⟨e | a, s'⟩
      · exact Or.inr ⟨[], x, xs, [], s, rfl, .nil, Or.inr ⟨hx, e, s', hread⟩⟩
      · rcases ih s' with ⟨atoms, s'', hgives⟩ | ⟨before, y, after, atoms, s'', hxs, hgives, hy⟩
        · exact Or.inl ⟨a :: atoms, s'', .cons hx hread hgives⟩
        · refine Or.inr ⟨x :: before, y, after, a :: atoms, s'', ?_, .cons hx hread hgives, hy⟩
          rw [hxs, List.cons_append]

theorem exists_outcome (refuse : Refusal → ε) (p : String → σ → Except ε Atom × σ) (text : String)
    (s : σ) : ∃ calls result s', Outcome refuse p text s calls result s' := by
  rcases gives_or_stops p (entries text) s with
    ⟨atoms, s', hgives⟩ | ⟨before, x, after, atoms, s', hentries, hbefore, hx | ⟨hx, e, s'', hfail⟩⟩
  · obtain ⟨f, rfl⟩ : ∃ f : Field, f.atoms = atoms := by
      have hne : entries text ≠ [] := mt List.map_eq_nil_iff.mp (List.splitOn_ne_nil _ _)
      generalize entries text = xs at hgives hne
      cases hgives with
      | nil => contradiction
      | @cons _ _ _ _ _ a as => exact ⟨⟨a, as⟩, rfl⟩
    exact ⟨_, _, _, .read hgives⟩
  · exact ⟨_, _, _, .blank hentries hbefore hx⟩
  · exact ⟨_, _, _, .failed hentries hbefore hx hfail⟩

/-- The run of a reader with notes is the one outcome that a list has. -/
theorem readBy_noting_eq_iff {calls : List String} {result : Except ε Field} :
    readBy refuse (noting p) text ([], s) = (result, calls, s') ↔
      Outcome refuse p text s calls result s' := by
  have hrun {calls : List String} {result : Except ε Field} {s' : σ}
      (h : Outcome refuse p text s calls result s') :
      readBy refuse (noting p) text ([], s) = (result, calls, s') := (h.noting []).readBy_eq
  constructor
  · intro h
    obtain ⟨calls', result', s'', hout⟩ := exists_outcome refuse p text s
    rw [hrun hout] at h
    cases h
    exact hout
  · exact hrun

theorem readBy_eq_iff {result : Except ε Field} :
    readBy refuse p text s = (result, s') ↔ ∃ calls, Outcome refuse p text s calls result s' := by
  constructor
  · intro h
    obtain ⟨calls, result', s'', hout⟩ := exists_outcome refuse p text s
    rw [hout.readBy_eq] at h
    cases h
    exact ⟨calls, hout⟩
  · intro h
    obtain ⟨calls, hout⟩ := h
    exact hout.readBy_eq

theorem readBy_noting_result :
    (readBy refuse (noting p) text ([], s)).1 = (readBy refuse p text s).1 := by
  obtain ⟨calls, result, s', h⟩ := exists_outcome refuse p text s
  rw [readBy_noting_eq_iff.mpr h, h.readBy_eq]

end Reader

section Stateless

variable {ε σ : Type} {refuse : Refusal → ε} {q : String → Except ε Atom} {text : String} {s : σ}

/-- A reader that looks at no state reads the list as in the trivial monad. -/
theorem readEntries_stateless (xs : List String) :
    readEntries refuse (fun x s => (q x, s)) text xs s =
      ((xs.mapM (readEntry (m := Id) refuse (fun x => ExceptT.mk (q x)) text)).run, s) := by
  induction xs with
  | nil =>
    rw [readEntries_nil, List.mapM_nil]
    rfl
  | cons x xs ih =>
    rw [List.mapM_cons]
    by_cases hx : Text.strip x = ""
    · rw [readEntries_cons_of_blank hx, readEntry_of_blank hx]
      rfl
    · rw [readEntry_of_not_blank hx]
      cases hq : q x with
      | error e => exact readEntries_cons_of_error hx (by rw [hq])
      | ok a =>
        rw [readEntries_cons_of_ok hx (by rw [hq]), ih]
        generalize xs.mapM (readEntry (m := Id) refuse (fun x => ExceptT.mk (q x)) text) = rest
        cases rest with
        | error e => rfl
        | ok as => rfl

theorem readBy_stateless : readBy refuse (fun x s => (q x, s)) text s =
    ((readWith (m := Id) refuse (fun x => ExceptT.mk (q x)) text).run, s) := by
  have hall : readEntries refuse (fun x s => (q x, s)) text (entries text) s = _ :=
    readEntries_stateless (entries text)
  rw [← atoms_map_readWith] at hall
  generalize readWith (m := Id) refuse (fun x => ExceptT.mk (q x)) text = found at hall ⊢
  cases found with
  | error e => exact readBy_of_error hall
  | ok f => exact readBy_of_ok hall

theorem gives_stateless_iff {s' : σ} {xs : List String} {atoms : List Atom} :
    Gives (fun x s => (q x, s)) s xs atoms s' ↔
      s' = s ∧ List.Forall₂ (fun x a => Text.strip x ≠ "" ∧ q x = .ok a) xs atoms := by
  constructor
  · intro h
    induction h with
    | nil => exact ⟨rfl, .nil⟩
    | cons hx hread _ ih =>
      obtain ⟨hq, rfl⟩ := Prod.mk.inj hread
      exact ⟨ih.1, .cons ⟨hx, hq⟩ ih.2⟩
  · intro h
    obtain ⟨rfl, h⟩ := h
    induction h with
    | nil => exact .nil
    | cons hx _ ih => exact .cons hx.1 (by rw [hx.2]) ih

/-- The first entry of the list that gives no atom: a blank one is refused with the whole list, on
any other the reader fails. -/
def FaultyEntry (refuse : Refusal → ε) (q : String → Except ε Atom) (text : String) (cause : ε) :
    Prop :=
  ∃ before x after, entries text = before ++ x :: after ∧
    (∀ y ∈ before, Text.strip y ≠ "" ∧ ∃ a, q y = .ok a) ∧
    (Text.strip x = "" ∧ cause = refuse ⟨.emptyListEntry text, text, none⟩ ∨
      Text.strip x ≠ "" ∧ q x = .error cause)

theorem exists_gives_stateless_iff {xs : List String} :
    (∃ atoms s', Gives (fun x s => (q x, s)) s xs atoms s') ↔
      ∀ x ∈ xs, Text.strip x ≠ "" ∧ ∃ a, q x = .ok a := by
  simp only [gives_stateless_iff, exists_eq_left]
  induction xs with
  | nil => simp
  | cons x xs ih =>
    rw [List.forall_mem_cons, ← ih]
    constructor
    · intro h
      obtain ⟨atoms, hatoms⟩ := h
      obtain ⟨a, as, ha, has, rfl⟩ := List.forall₂_cons_left_iff.mp hatoms
      exact ⟨⟨ha.1, a, ha.2⟩, as, has⟩
    · intro h
      obtain ⟨⟨hx, a, ha⟩, as, has⟩ := h
      exact ⟨a :: as, .cons ⟨hx, ha⟩ has⟩

theorem readWith_eq_ok_iff {f : Field} :
    (readWith (m := Id) refuse (fun x => ExceptT.mk (q x)) text).run = .ok f ↔
      List.Forall₂ (fun x a => Text.strip x ≠ "" ∧ q x = .ok a) (entries text) f.atoms := by
  have hrun : _ = ((readWith (m := Id) refuse (fun x => ExceptT.mk (q x)) text).run, ()) :=
    readBy_stateless
  constructor
  · intro h
    rw [h] at hrun
    obtain ⟨calls, hout⟩ := readBy_eq_iff.mp hrun
    cases hout with
    | read hgives => exact (gives_stateless_iff.mp hgives).2
  · intro h
    have hgives : Gives (fun x s => (q x, s)) () (entries text) f.atoms () :=
      gives_stateless_iff.mpr ⟨rfl, h⟩
    rw [(Outcome.read hgives).readBy_eq] at hrun
    exact (Prod.mk.inj hrun).1.symm

theorem readWith_eq_error_iff {cause : ε} :
    (readWith (m := Id) refuse (fun x => ExceptT.mk (q x)) text).run = .error cause ↔
      FaultyEntry refuse q text cause := by
  have hrun : _ = ((readWith (m := Id) refuse (fun x => ExceptT.mk (q x)) text).run, ()) :=
    readBy_stateless
  constructor
  · intro h
    rw [h] at hrun
    obtain ⟨calls, hout⟩ := readBy_eq_iff.mp hrun
    cases hout with
    | failed hentries hbefore hx hfail =>
      have hread := exists_gives_stateless_iff.mp ⟨_, _, hbefore⟩
      exact ⟨_, _, _, hentries, hread, Or.inr ⟨hx, (Prod.mk.inj hfail).1⟩⟩
    | blank hentries hbefore hx =>
      have hread := exists_gives_stateless_iff.mp ⟨_, _, hbefore⟩
      exact ⟨_, _, _, hentries, hread, Or.inl ⟨hx, rfl⟩⟩
  · intro h
    obtain ⟨before, x, after, hentries, hread, hx⟩ := h
    obtain ⟨atoms, s', hbefore⟩ := exists_gives_stateless_iff.mpr hread
    rcases hx with ⟨hx, rfl⟩ | ⟨hx, hfail⟩
    · rw [(Outcome.blank hentries hbefore hx).readBy_eq] at hrun
      exact (Prod.mk.inj hrun).1.symm
    · have hstop : (q x, s') = (.error cause, s') := by rw [hfail]
      rw [(Outcome.failed hentries hbefore hx hstop).readBy_eq] at hrun
      exact (Prod.mk.inj hrun).1.symm

end Stateless

/-- The reader of atoms is called on the entries of the list in their order, each of them once, up
to the first that it fails on, or up to the first blank one, on which it is not called. Its failure
is the result, a blank entry is refused with the whole list, and otherwise the field has one atom
for each entry. -/
theorem readWith_feeds {ε σ : Type} (refuse : Refusal → ε)
    (p : String → Domain → σ → Except ε Atom × σ) (d : Domain) (text : String) (s : σ) :
    (∀ calls result s', readBy refuse (noting (p · d)) text ([], s) = (result, calls, s') ↔
      Outcome refuse (p · d) text s calls result s') ∧
    (readBy refuse (noting (p · d)) text ([], s)).1 = (readBy refuse (p · d) text s).1 ∧
    Field.read d text = (readBy .refused (fun x s => (Atom.read d x, s)) text s).1 ∧
    String.intercalate "," (entries text) = text ∧
    ∀ entry ∈ entries text, ',' ∉ entry.toList := by
  refine ⟨fun _ _ _ => readBy_noting_eq_iff, readBy_noting_result, ?_, ?_, ?_⟩
  · rw [readBy_stateless]
    rfl
  · exact intercalate_entries text
  · exact fun _ hentry => comma_notMem_entries hentry

/-- A reader that fails on its third call, whatever it is called on: after the third entry nothing
is looked at. A no-break space in second place is refused before that. -/
theorem readWith_feeds_until_fault : let d : Domain := ⟨0, 10⟩
    let third : String → Domain → ℕ → Except String Atom × ℕ := fun x d n =>
      (if n = 2 then .error "third" else .ok (.single d x.length), n + 1)
    readBy Refusal.message (noting (third · d)) "a,bb,c,,d" ([], 0) =
      (.error "third", ["a", "bb", "c"], 3) ∧
    readBy Refusal.message (noting (third · d)) "a,\u00a0,c" ([], 0) =
      (.error "Empty entry in list 'a,\\xa0,c'", ["a"], 1) := by
  intro d third
  constructor
  · have hentries : entries "a,bb,c,,d" = ["a", "bb"] ++ "c" :: ["", "d"] := by decide
    have hbefore : Gives (third · d) 0 ["a", "bb"] [.single d 1, .single d 2] 2 :=
      .cons (by decide) rfl (.cons (by decide) rfl .nil)
    have hruns := (readWith_feeds Refusal.message third d "a,bb,c,,d" 0).1
    exact (hruns _ _ _).mpr (.failed hentries hbefore (by decide) rfl)
  · have hentries : entries "a,\u00a0,c" = ["a"] ++ "\u00a0" :: ["c"] := by decide
    have hbefore : Gives (third · d) 0 ["a"] [.single d 1] 1 := .cons (by decide) rfl .nil
    have hmessage : Refusal.message ⟨.emptyListEntry "a,\u00a0,c", "a,\u00a0,c", none⟩ =
        "Empty entry in list 'a,\\xa0,c'" := by decide +kernel
    have hruns := (readWith_feeds Refusal.message third d "a,\u00a0,c" 0).1
    rw [← hmessage]
    exact (hruns _ _ _).mpr (.blank hentries hbefore (by decide))

end Crontab.Field
