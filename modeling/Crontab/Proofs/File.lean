import Crontab.Proofs.Mapping
import Crontab.Settings.File

/-! Settings from a file, whatever reads its document: they are those of the mapping that holds
them. Where that is not what callers are promised, the bytes are no text, the reader fails in a way
of its own, or the mapping breaks the promise. -/
namespace Crontab

/-- The complaints about a configuration file. Bytes that are no text are none of them, and of the
failures of a reader only the malformed document is one. -/
def FileError.IsComplaint : FileError → Prop
  | notUtf8 => False
  | document _ cause => cause = .malformed
  | mapping cause => cause.IsComplaint
  | _ => True

namespace Settings

/-- The mapping in a document that settings are made of: the one under the key of the table, if
there is one, and the whole document otherwise. An empty document is as good as an empty mapping. -/
inductive Holds (table : String) : Value → List (Value × Value) → Prop
  | empty : Holds table .null []
  | under {pairs inner : List (Value × Value)}
    (h : Value.lookup? table pairs = some (.mapping inner)) : Holds table (.mapping pairs) inner
  | whole {pairs : List (Value × Value)}
    (h : ∀ inner, Value.lookup? table pairs ≠ some (.mapping inner)) :
    Holds table (.mapping pairs) pairs

variable (name table : String) (content : FileContent)
  (read : Format → List Char → Except DocumentError Value)

def document? : Option (Except DocumentError Value) :=
  match content with
  | .bytes bytes =>
    (String.fromUTF8? bytes).map fun text => read (formatOf name) (Text.foldLineEnds text.toList)
  | _ => none

def Provides (pairs : List (Value × Value)) : Prop :=
  ∃ v, document? name content read = some (.ok v) ∧ Holds table v pairs

/-- There is a file without a document in it, and no complaint about that either. -/
inductive Unread : Prop
  | notUtf8 {bytes : ByteArray} (hcontent : content = .bytes bytes)
    (h : String.fromUTF8? bytes = none)
  | reader {cause : DocumentError} (h : document? name content read = some (.error cause))
    (hcause : cause ≠ .malformed)

/-- What callers are promised: settings with exactly the integers of the mapping in the file and the
usual numbers for the rest, or a complaint. -/
def FileAsPromised : Except FileError Settings → Prop
  | .ok σ => ∃ pairs, Provides name table content read pairs ∧ σ.TakenFrom Value.Denotes pairs
  | .error error => error.IsComplaint

variable {name table content read} {pairs : List (Value × Value)}

theorem Holds.unique {v : Value} {pairs' : List (Value × Value)} (h : Holds table v pairs)
    (h' : Holds table v pairs') : pairs = pairs' := by
  cases h with
  | empty =>
    cases h'
    rfl
  | under h =>
    cases h' with
    | under h' => simpa using h.symm.trans h'
    | whole h' => exact absurd h (h' _)
  | whole h =>
    cases h' with
    | under h' => exact absurd h' (h _)
    | whole => rfl

theorem Provides.unique {pairs' : List (Value × Value)} (h : Provides name table content read pairs)
    (h' : Provides name table content read pairs') : pairs = pairs' := by
  obtain ⟨v, hv, hholds⟩ := h
  obtain ⟨v', hv', hholds'⟩ := h'
  obtain rfl : v = v' := Except.ok.inj (Option.some.inj (hv.symm.trans hv'))
  exact hholds.unique hholds'

theorem ofDocument_of_holds {v : Value} (h : Holds table v pairs) :
    ofDocument name table v = (ofMapping pairs).mapError .mapping := by
  cases h with
  | empty => rfl
  | under h => simp only [ofDocument, h]
  | whole h =>
    simp only [ofDocument]

theorem ofDocument_of_not_holds {v : Value} (h : ∀ pairs, ¬ Holds table v pairs) :
    ofDocument name table v = .error (.noMapping name) := by
  cases v with
  | null => exact absurd .empty (h [])
  | mapping pairs =>
    by_cases hunder : ∃ inner, Value.lookup? table pairs = some (.mapping inner)
    · obtain ⟨inner, hinner⟩ := hunder
      exact absurd (.under hinner) (h inner)
    · exact absurd (.whole (not_exists.mp hunder)) (h pairs)
  | _ => rfl

variable (table) in
theorem ofFile_of_document {document : Except DocumentError Value}
    (h : document? name content read = some document) :
    ofFile name content table read =
      document.mapError (.document name) >>= ofDocument name table := by
  cases content with
  | bytes bytes =>
    obtain ⟨text, htext, rfl⟩ := Option.map_eq_some_iff.mp h
    rw [ofFile, htext]
    dsimp only
    cases read (formatOf name) (Text.foldLineEnds text.toList) <;> rfl
  | _ => contradiction

theorem ofFile_of_provides (h : Provides name table content read pairs) :
    ofFile name content table read = (ofMapping pairs).mapError .mapping := by
  obtain ⟨v, hv, hholds⟩ := h
  rw [ofFile_of_document table hv]
  exact ofDocument_of_holds hholds

variable (table) in
theorem ofFile_of_unread (h : Unread name content read) :
    ∃ error, ofFile name content table read = .error error ∧ ¬ error.IsComplaint := by
  cases h with
  | notUtf8 hcontent h =>
    refine ⟨.notUtf8, ?_, id⟩
    rw [hcontent, ofFile, h]
  | @reader cause h hcause =>
    refine ⟨.document name cause, ?_, hcause⟩
    rw [ofFile_of_document table h]
    rfl

/-- A file provides pairs, or it cannot be read in silence, or there is a complaint about it. -/
theorem file_cases (name table : String) (content : FileContent)
    (read : Format → List Char → Except DocumentError Value) :
    (∃ pairs, Provides name table content read pairs) ∨ Unread name content read ∨
      ∃ error, ofFile name content table read = .error error ∧ error.IsComplaint := by
  cases hdocument : document? name content read with
  | none =>
    cases content with
    | bytes bytes => exact .inr (.inl (.notUtf8 rfl (Option.map_eq_none_iff.mp hdocument)))
    | _ => exact .inr (.inr ⟨_, rfl, trivial⟩)
  | some document =>
    have hfile := ofFile_of_document table hdocument
    cases document with
    | error cause =>
      by_cases hcause : cause = .malformed
      · exact .inr (.inr ⟨.document name cause, hfile, hcause⟩)
      · exact .inr (.inl (.reader hdocument hcause))
    | ok v =>
      by_cases hholds : ∃ pairs, Holds table v pairs
      · obtain ⟨pairs, hholds⟩ := hholds
        exact .inl ⟨pairs, v, hdocument, hholds⟩
      · refine .inr (.inr ⟨.noMapping name, ?_, trivial⟩)
        exact hfile.trans (ofDocument_of_not_holds (not_exists.mp hholds))

theorem fileAsPromised_of_provides (h : Provides name table content read pairs) :
    FileAsPromised name table content read (ofFile name content table read) ↔
      AsPromised pairs (ofMapping pairs) := by
  rw [ofFile_of_provides h]
  cases ofMapping pairs with
  | error cause => exact Iff.rfl
  | ok σ =>
    constructor
    · rintro ⟨pairs', h', hσ⟩
      exact h.unique h' ▸ hσ
    · exact fun hσ => ⟨pairs, h, hσ⟩

/-- For every reader of documents: settings are loaded exactly from the files with a document that
holds an acceptable mapping. The promise about a file is kept unless it cannot be read in silence,
or its mapping breaks the promise about mappings. -/
theorem ofFile_asPromised_iff (name table : String) (content : FileContent)
    (read : Format → List Char → Except DocumentError Value) :
    (∀ σ, ofFile name content table read = .ok σ ↔
      ∃ pairs, Provides name table content read pairs ∧ Accepts pairs σ) ∧
    (FileAsPromised name table content read (ofFile name content table read) ↔
      ¬ Unread name content read ∧
        ∀ pairs, Provides name table content read pairs → ¬ Breaks pairs) := by
  constructor
  · intro σ
    constructor
    · intro h
      rcases file_cases name table content read with ⟨pairs, hpairs⟩ | hunread | ⟨error, herror, _⟩
      · rw [ofFile_of_provides hpairs, mapError_eq_ok_iff, ofMapping_eq_ok_iff] at h
        exact ⟨pairs, hpairs, h⟩
      · obtain ⟨error, herror, _⟩ := ofFile_of_unread table hunread
        rw [herror] at h
        contradiction
      · rw [herror] at h
        contradiction
    · rintro ⟨pairs, hpairs, haccepts⟩
      rw [ofFile_of_provides hpairs, mapError_eq_ok_iff, ofMapping_eq_ok_iff]
      exact haccepts
  · constructor
    · intro h
      refine ⟨fun hunread => ?_, fun pairs hpairs hbreaks => ?_⟩
      · obtain ⟨error, herror, hnot⟩ := ofFile_of_unread table hunread
        rw [herror] at h
        exact hnot h
      · exact not_asPromised_of_breaks hbreaks ((fileAsPromised_of_provides hpairs).mp h)
    · rintro ⟨hread, hpairs⟩
      rcases file_cases name table content read with ⟨pairs, h⟩ | hunread | ⟨error, herror, h⟩
      · exact (fileAsPromised_of_provides h).mpr
          (not_not.mp (mt breaks_of_not_asPromised (hpairs pairs h)))
      · contradiction
      · rw [herror]
        exact h

end Settings

end Crontab
