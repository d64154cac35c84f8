import Mathlib.Data.List.TakeWhile
import RelStore.Engine
/-! Names of files and collections. A valid name has no point and no space, so table collections,
index collections and the placeholder are told apart, and so are table files and drafts. -/
namespace RelStore

theorem isNameChar_of_mem {name : String} (h : isValidName name = true) {c : Char}
    (hc : c ∈ name.toList) : isNameChar c = true := by
  simp only [isValidName, Bool.and_eq_true, List.all_eq_true] at h
  exact h.2 c hc

theorem ne_empty_of_isValidName {name : String} (h : isValidName name = true) : name ≠ "" := by
  simp only [isValidName, Bool.and_eq_true, decide_eq_true_eq] at h
  exact h.1

theorem point_notMem {name : String} (h : isValidName name = true) : '.' ∉ name.toList :=
  fun hc => absurd (isNameChar_of_mem h hc) (by decide)

section Collections

variable {t c t' c' : String}

theorem toList_indexCollection (t c : String) :
    (indexCollection t c).toList = "index_".toList ++ (t.toList ++ '.' :: c.toList) := by
  simp [indexCollection, String.toList_append]

/-- The point marks where the table's name ends. -/
theorem indexCollection_inj (ht : isValidName t = true) (ht' : isValidName t' = true)
    (h : indexCollection t c = indexCollection t' c') : t = t' ∧ c = c' := by
  have hl := congrArg String.toList h
  rw [toList_indexCollection, toList_indexCollection] at hl
  have hl := List.append_cancel_left hl
  have hstem {s rest : List Char} (hs : '.' ∉ s) :
      (s ++ '.' :: rest).takeWhile (· ≠ '.') = s := by
    rw [List.takeWhile_append_of_pos fun a ha => by
      simpa using fun he : a = '.' => hs (he ▸ ha)]
    simp
  have hstems := congrArg (List.takeWhile (· ≠ '.')) hl
  rw [hstem (point_notMem ht), hstem (point_notMem ht')] at hstems
  rw [hstems] at hl
  have htail := List.append_cancel_left hl
  rw [List.cons_eq_cons] at htail
  exact ⟨String.toList_inj.mp hstems, String.toList_inj.mp htail.2⟩

theorem point_mem_indexCollection (t c : String) : '.' ∈ (indexCollection t c).toList := by
  rw [toList_indexCollection]
  simp

theorem indexCollection_ne (h : isValidName t' = true) : indexCollection t c ≠ t' := by
  intro he
  have hp := point_mem_indexCollection t c
  rw [he] at hp
  exact point_notMem h hp

theorem indexCollection_ne_placeholder : indexCollection t c ≠ Engine.placeholder := by
  intro he
  have hp := point_mem_indexCollection t c
  rw [he] at hp
  revert hp
  decide

theorem ne_placeholder (h : isValidName t = true) : t ≠ Engine.placeholder := by
  rintro rfl
  revert h
  decide

end Collections

namespace Catalog

variable {t t' : String}

theorem tableFile_inj (h : tableFile t = tableFile t') : t = t' := by
  have hl := congrArg String.toList h
  simp only [tableFile, String.toList_append] at hl
  exact String.toList_inj.mp (List.append_cancel_right hl)

theorem tableFile_ne_draftFile : tableFile t ≠ draftFile t' := by
  intro h
  have hl := congrArg (fun s : String => s.toList.getLast?) h
  simp only [tableFile, draftFile, String.toList_append] at hl
  simp at hl

theorem draftFile_inj (h : draftFile t = draftFile t') : t = t' := by
  have hl := congrArg String.toList h
  simp only [draftFile, String.toList_append] at hl
  exact String.toList_inj.mp (List.append_cancel_right hl)

/-- A draft is shorter by one byte. -/
theorem nameFits_draftFile (h : nameFits (tableFile t) = true) : nameFits (draftFile t) = true := by
  have hj : ".json".utf8ByteSize = 5 := rfl
  have ht : ".tmp".utf8ByteSize = 4 := rfl
  simp only [nameFits, tableFile, draftFile, String.utf8ByteSize_append, hj, ht,
    decide_eq_true_eq] at h ⊢
  omega

theorem isPrefixOf?_eq_some {a b rest : List Char} :
    a.isPrefixOf? b = some rest ↔ b = a ++ rest := by
  induction a generalizing b with
  | nil =>
    show some b = some rest ↔ b = rest
    exact Option.some_inj
  | cons c a ih =>
    cases b with
    | nil =>
      show none = some rest ↔ _
      simp
    | cons d b =>
      show (if c == d then a.isPrefixOf? b else none) = some rest ↔ _
      by_cases hcd : c = d
      · simp [hcd, ih]
      · simp [hcd, Ne.symm hcd]

theorem tableOfFile?_eq_some {file : String} :
    tableOfFile? file = some t ↔ t ≠ "" ∧ file = tableFile t := by
  have hfile (stem : List Char) :
      file.toList.reverse = ".json".toList.reverse ++ stem ↔
        file = tableFile (String.ofList stem.reverse) := by
    rw [← String.toList_inj, tableFile, String.toList_append,
      List.reverse_eq_iff, List.reverse_append, List.reverse_reverse]
    simp only [String.toList_ofList]
  rw [tableOfFile?]
  split
  · next h =>
    rw [isPrefixOf?_eq_some, hfile] at h
    rw [h]
    constructor
    · intro h
      cases h
    · rintro ⟨hne, he⟩
      exact absurd (tableFile_inj he).symm hne
  · next stem hne h =>
    rw [isPrefixOf?_eq_some, hfile] at h
    rw [Option.some.injEq]
    constructor
    · rintro rfl
      refine ⟨fun he => hne ?_, h⟩
      have hl := congrArg String.toList he
      rw [String.toList_ofList] at hl
      exact List.reverse_eq_nil_iff.mp hl
    · rintro ⟨-, he⟩
      exact tableFile_inj (h.symm.trans he)
  · next h =>
    refine ⟨fun h => (nomatch h), fun ⟨_, he⟩ => ?_⟩
    have hpre : (".json".toList.reverse).isPrefixOf? file.toList.reverse =
        some t.toList.reverse := by
      rw [isPrefixOf?_eq_some, hfile, List.reverse_reverse, String.ofList_toList]
      exact he
    rw [h] at hpre
    cases hpre

end Catalog

end RelStore
