import RelStore.Proofs.CalendarText
import RelStore.Proofs.CatalogText
import RelStore.Proofs.DecimalText
import RelStore.Proofs.Maps
import RelStore.Store.Snapshot
/-! Snapshots read back. Keys and payloads are printed with their kind in front, and a map comes
back from its listing. Of a float this is so when the reader of numerals gives the float back, which
may miss the last digit. -/
namespace RelStore

open Text (isDigit)

theorem OrdMap.find?_foldl_insert {κ α : Type} [Ord κ] [Std.TransOrd κ] [Std.LawfulEqOrd κ]
    {l : List (κ × α)} (hl : l.Pairwise fun a b => compare a.1 b.1 = .lt) (m : OrdMap κ α) (k : κ) :
    (l.foldl (fun m b => m.insert b.1 b.2) m).find? k = (lookup k l).or (m.find? k) := by
  induction l generalizing m with
  | nil => rfl
  | cons b l ih =>
    obtain ⟨hb, hl⟩ := List.pairwise_cons.mp hl
    rw [List.foldl_cons, ih hl, lookup]
    by_cases hk : k = b.1
    · have hnone : lookup k l = none := by
        rw [Option.eq_none_iff_forall_not_mem]
        intro a ha
        exact ne_of_compare_lt (hb _ ((lookup_eq_some_iff hl).mp ha)) hk.symm
      rw [hnone, hk, find?_insert_self, if_pos Std.ReflOrd.compare_self]
      rfl
    · rw [find?_insert_of_ne hk, if_neg fun h => hk (Std.LawfulEqOrd.eq_of_compare h)]

theorem OrdMap.ofList_bindings {κ α : Type} [Ord κ] [Std.TransOrd κ] [Std.LawfulEqOrd κ]
    (m : OrdMap κ α) : ofList m.bindings = m := by
  ext k : 1
  rw [ofList, find?_foldl_insert m.ascending]
  exact Option.or_none

section Numerals

theorem Decimal.head_scientific {d : Decimal} (h : d.coefficient ≠ 0) :
    d.scientific.1.head? ≠ some '0' := by
  obtain ⟨ds, hds⟩ : ∃ ds, ds = Text.natDigits d.coefficient := ⟨_, rfl⟩
  have hhead : ds.head? ≠ some '0' := hds ▸ Text.head_natDigits h
  obtain ⟨z, hz⟩ := trailing_zeros ds
  simp only [scientific, ← hds]
  generalize (ds.reverse.dropWhile fun c => decide (c = '0')).reverse = kept at hz ⊢
  by_cases hk : kept = []
  · obtain ⟨c, hc⟩ := List.exists_mem_of_ne_nil ds (hds ▸ Text.natDigits_ne_nil _)
    rw [hk, List.nil_append] at hz
    have hpos : z ≠ 0 := by
      rintro rfl
      rw [hz] at hc
      cases hc
    rw [hz, List.head?_replicate, if_neg hpos] at hhead
    exact absurd rfl hhead
  · rwa [if_neg hk, ← List.head?_append_of_ne_nil kept hk, ← hz]

namespace Json.Number

theorem isDigits_zero : IsDigits ['0'] := ⟨List.cons_ne_nil _ _, by simp [isDigit]⟩

theorem isDigits_replicate_append {ds : List Char} (h : IsDigits ds) (n : Nat) :
    IsDigits (List.replicate n '0' ++ ds) ∧ IsDigits (ds ++ List.replicate n '0') := by
  have hzeros : ∀ c ∈ List.replicate n '0', isDigit c = true := fun _ => Text.isDigit_of_mem_zeros
  exact ⟨⟨by simp [h.1], List.forall_mem_append.mpr ⟨hzeros, h.2⟩⟩,
    ⟨by simp [h.1], List.forall_mem_append.mpr ⟨h.2, hzeros⟩⟩⟩

theorem isDigits_take {ds : List Char} {n : Nat} (h : IsDigits ds) (hn : n ≠ 0) :
    IsDigits (ds.take n) :=
  ⟨by simp [h.1, hn], fun c hc => h.2 c (List.mem_of_mem_take hc)⟩

theorem isDigits_drop {ds : List Char} {n : Nat} (h : IsDigits ds) (hn : ds.drop n ≠ []) :
    IsDigits (ds.drop n) :=
  ⟨hn, fun c hc => h.2 c (List.mem_of_mem_drop hc)⟩

/-- A numeral without an exponent may begin with a zero that stands alone. -/
theorem wellFormed_plain (negative : Bool) {whole ds : List Char} (hwhole : IsDigits whole)
    (hhead : whole = ['0'] ∨ whole.head? ≠ some '0') (hds : IsDigits ds) :
    (Number.mk negative whole (some ds) none).WellFormed where
  whole := hwhole
  needless := by
    rintro ⟨hz, hlong⟩
    rcases hhead with rfl | hhead
    · exact absurd hlong (Nat.lt_irrefl 1)
    · exact hhead hz
  fraction := by
    rintro ds ⟨⟩
    exact hds
  exponent := by
    rintro e ⟨⟩

/-- One digit, the others as a fraction, and an exponent. -/
theorem wellFormed_scientific (negative down : Bool) {ds : List Char} (h : IsDigits ds) (n : Nat) :
    (Number.mk negative (ds.take 1) (if ds.drop 1 = [] then none else some (ds.drop 1))
      (some (down, Text.natDigits n))).WellFormed where
  whole := isDigits_take h Nat.one_ne_zero
  needless := by
    rintro ⟨-, hlong⟩
    rw [List.length_take] at hlong
    omega
  fraction := by
    intro fraction hf
    split at hf
    · cases hf
    · next hdrop =>
      cases hf
      exact isDigits_drop h hdrop
  exponent := by
    rintro e ⟨⟩
    exact ⟨Text.natDigits_ne_nil _, fun _ hc => Text.isDigit_of_mem_natDigits hc⟩

/-- The digits begin with a zero only where they stand for nothing else. -/
theorem wellFormed_ofBinary64 {x : Binary64} (hx : x.isFinite = true) :
    (ofBinary64 x).WellFormed := by
  have hfin : x.magnitude < Binary64.infinity := of_decide_eq_true hx
  obtain ⟨d, hd⟩ : ∃ d, d = Decimal.shortest .toEven x.magnitude := ⟨_, rfl⟩
  obtain ⟨z, hne, hdig, -, -⟩ := d.scientific_spec
  have hhead : x.magnitude ≠ 0 → d.scientific.1.head? ≠ some '0' := by
    intro hm
    refine Decimal.head_scientific fun hc => hm ?_
    rw [← Decimal.magnitude_shortest .toEven hfin, ← hd, Decimal.magnitude_eq, hc, Nat.zero_mul]
    rfl
  obtain ⟨⟨ds, first⟩, hs⟩ : ∃ p, p = d.scientific := ⟨_, rfl⟩
  rw [← hs] at hne hdig hhead
  have hds : IsDigits ds := ⟨hne, hdig⟩
  simp only [ofBinary64, ← hd, ← hs]
  split
  · exact wellFormed_plain _ isDigits_zero (.inl rfl) isDigits_zero
  · next hm =>
    have hhead : ds.head? ≠ some '0' := hhead hm
    split
    · exact wellFormed_plain _ isDigits_zero (.inl rfl) (isDigits_replicate_append hds _).1
    · split
      · split
        · refine wellFormed_plain _ (isDigits_replicate_append hds _).2 (.inr ?_) isDigits_zero
          rwa [List.head?_append_of_ne_nil ds hne]
        · next hlong =>
          refine wellFormed_plain _ (isDigits_take hds (Nat.succ_ne_zero _)) (.inr ?_)
            (isDigits_drop hds fun hnil => hlong (List.drop_eq_nil_iff.mp hnil))
          rwa [List.head?_take, if_neg (Nat.succ_ne_zero _)]
      · exact wellFormed_scientific _ _ hds _

end Json.Number

end Numerals

/-- The reader of numerals gives a float back as it was. -/
def Value.ReadsBack : Value → Prop
  | .float x => (Json.ofBinary64 x).float? = some x
  | _ => True

def Payload.ReadsBack : Payload → Prop
  | .blob _ => True
  | .rowIds ids => ∀ v ∈ ids, v.ReadsBack

def Collection.ReadsBack (c : Collection) : Prop :=
  ∀ v p, c.find? v = some p → v.ReadsBack ∧ p.ReadsBack

def Content.ReadsBack (c : Content) : Prop :=
  ∀ db cs, c.find? db = some cs → ∀ n coll, cs.find? n = some coll → Collection.ReadsBack coll

section Decidable

instance (v : Value) : Decidable v.ReadsBack := by
  unfold Value.ReadsBack
  split <;> infer_instance

instance (p : Payload) : Decidable p.ReadsBack := by
  unfold Payload.ReadsBack
  split <;> infer_instance

theorem OrdMap.forall_find?_iff {κ α : Type} [Ord κ] [Std.LawfulEqOrd κ] {m : OrdMap κ α}
    {P : κ → α → Prop} : (∀ k a, m.find? k = some a → P k a) ↔ ∀ b ∈ m.bindings, P b.1 b.2 := by
  simp only [find?_eq_some_iff, Prod.forall]

instance (c : Collection) : Decidable (Collection.ReadsBack c) :=
  decidable_of_iff (∀ b ∈ c.bindings, b.1.ReadsBack ∧ b.2.ReadsBack) (by
    simp only [Collection.ReadsBack, OrdMap.forall_find?_iff])

instance (c : Content) : Decidable c.ReadsBack :=
  decidable_of_iff (∀ b ∈ c.bindings, ∀ b' ∈ b.2.bindings, Collection.ReadsBack b'.2) (by
    simp only [Content.ReadsBack, OrdMap.forall_find?_iff])

end Decidable

namespace Snapshot

open Json (Printable ofFields ofText printable_ofFields printable_items mapM_map named?_ofFields
  text?_ofText)

theorem printable_ofText (s : String) : Printable (ofText s) := rfl

theorem variant?_ofFields (kind : String) (j : Json) :
    (ofFields [(kind, j)]).variant? = some (kind, j) := by
  rw [Json.variant?, named?_ofFields]
  rfl

theorem isFinite_of_readsBack {x : Binary64} (h : (Value.float x).ReadsBack) : x.isFinite = true := by
  rw [Value.ReadsBack, Json.ofBinary64] at h
  split at h
  · next hx => exact hx
  · cases h

theorem printable_valueJson {v : Value} (h : v.ReadsBack) : Printable (valueJson v) := by
  cases v with
  | float x =>
    have hx := isFinite_of_readsBack h
    simp only [valueJson, printable_ofFields, List.forall_mem_singleton, Json.ofBinary64, if_pos hx]
    exact Json.Number.wellFormed_ofBinary64 hx
  | int i =>
    simp only [valueJson, printable_ofFields, List.forall_mem_singleton]
    exact Json.Number.wellFormed_ofInt _
  | bit b => simp [valueJson, printable_ofFields, Printable]
  | date d => simp [valueJson, printable_ofFields, printable_ofText]
  | dateTime t => simp [valueJson, printable_ofFields, printable_ofText]
  | string s => simp [valueJson, printable_ofFields, printable_ofText]

theorem value?_valueJson {v : Value} (h : v.ReadsBack) : value? (valueJson v) = some v := by
  cases v with
  | bit b => simp [value?, valueJson, variant?_ofFields, Json.bool?]
  | int i =>
    have hmin : -9223372036854775808 ≤ i.toInt := Int64.minValue_le_toInt i
    have hmax : i.toInt ≤ Int64.maxValue.toInt := Int64.toInt_le i
    have hread := Json.Number.value?_ofInt (i := i.toInt) (by omega) (by have := i.toInt_lt; omega)
    simp [value?, valueJson, variant?_ofFields, Json.int?, Json.numeric?, hread, hmin, hmax]
  | float x =>
    rw [Value.ReadsBack] at h
    simp [value?, valueJson, variant?_ofFields, h]
  | date d =>
    simp [value?, valueJson, variant?_ofFields, text?_ofText, CalendarFormat.readDate_dateText]
  | dateTime t =>
    have hread := CalendarFormat.readDateTime_dateTimeText (f := .iso) (t := t) (by decide) (.inl rfl)
    simp [value?, valueJson, variant?_ofFields, text?_ofText, hread]
  | string s => simp [value?, valueJson, variant?_ofFields, text?_ofText]

theorem printable_payloadJson {p : Payload} (h : p.ReadsBack) : Printable (payloadJson p) := by
  cases p with
  | blob s => simp [payloadJson, printable_ofFields, printable_ofText]
  | rowIds ids =>
    simp only [payloadJson, printable_ofFields, List.forall_mem_singleton, Printable,
      printable_items, List.forall_mem_map]
    exact fun v hv => printable_valueJson (h v hv)

theorem payload?_payloadJson {p : Payload} (h : p.ReadsBack) : payload? (payloadJson p) = some p := by
  cases p with
  | blob s => simp [payload?, payloadJson, variant?_ofFields, text?_ofText]
  | rowIds ids =>
    have hids := mapM_map fun v hv => value?_valueJson (h v hv)
    simp [payload?, payloadJson, variant?_ofFields, Json.items?, hids]

theorem document?_documentJson {v : Value} {p : Payload} (hv : v.ReadsBack) (hp : p.ReadsBack) :
    document? (documentJson v p) = some (v, p) := by
  have hfields : (documentJson v p).record? ["id", "payload"] = some [valueJson v, payloadJson p] := by
    rw [documentJson, Json.record?, named?_ofFields]
    · simp
    · intro items he
      cases he
  simp [document?, hfields, value?_valueJson hv, payload?_payloadJson hp]

theorem printable_collectionJson {c : Collection} (h : c.ReadsBack) :
    Printable (collectionJson c) := by
  simp only [collectionJson, Printable, printable_items, List.forall_mem_map]
  intro b hb
  obtain ⟨hv, hp⟩ := h b.1 b.2 (OrdMap.find?_eq_some_iff.mpr hb)
  simp only [documentJson, printable_ofFields, List.forall_mem_cons]
  exact ⟨printable_valueJson hv, printable_payloadJson hp, by simp⟩

theorem collection?_collectionJson {c : Collection} (h : c.ReadsBack) :
    collection? (collectionJson c) = some c := by
  have hdocuments : (c.bindings.map fun b => documentJson b.1 b.2).mapM document? = some c.bindings :=
    mapM_map fun b hb => by
      obtain ⟨hv, hp⟩ := h b.1 b.2 (OrdMap.find?_eq_some_iff.mpr hb)
      exact document?_documentJson hv hp
  rw [collection?, collectionJson, Json.items?, Option.bind_some, hdocuments, Option.map_some,
    OrdMap.ofList_bindings]

/-- A map printed as an object, one field a binding. -/
theorem bindings_of_fields {α : Type} {m : OrdMap String α} {json : α → Json}
    {read : Json → Option α} (h : ∀ k a, m.find? k = some a → read (json a) = some a) :
    (m.bindings.map fun b => (b.1, json b.2)).mapM
      (fun f => (read f.2).map fun a => (f.1, a)) = some m.bindings :=
  mapM_map fun b hb => by rw [h b.1 b.2 (OrdMap.find?_eq_some_iff.mpr hb), Option.map_some]

def collectionsJson (cs : Collections) : Json :=
  .ofFields (cs.bindings.map fun b => (b.1, collectionJson b.2))

theorem collections?_collectionsJson {cs : Collections}
    (h : ∀ n coll, cs.find? n = some coll → Collection.ReadsBack coll) :
    collections? (collectionsJson cs) = some cs := by
  have hfields := bindings_of_fields fun n coll hn => collection?_collectionJson (h n coll hn)
  simp only [collections?, collectionsJson, named?_ofFields, Option.bind_eq_bind, Option.bind_some,
    hfields]
  exact congrArg some cs.ofList_bindings

theorem printable_collectionsJson {cs : Collections}
    (h : ∀ n coll, cs.find? n = some coll → Collection.ReadsBack coll) :
    Printable (collectionsJson cs) := by
  simp only [collectionsJson, printable_ofFields, List.forall_mem_map]
  exact fun b hb => printable_collectionJson (h b.1 b.2 (OrdMap.find?_eq_some_iff.mpr hb))

theorem contentJson_eq (c : Content) : contentJson c =
    ofFields [("databases", ofFields (c.bindings.map fun b => (b.1, collectionsJson b.2)))] := rfl

/-- What is written is read as it was. -/
theorem read?_write {c : Content} (h : c.ReadsBack) : read? (write c) = some c := by
  have hprint : Printable (contentJson c) := by
    simp only [contentJson_eq, printable_ofFields, List.forall_mem_singleton, List.forall_mem_map]
    exact fun b hb => printable_collectionsJson (h b.1 b.2 (OrdMap.find?_eq_some_iff.mpr hb))
  have hfields := bindings_of_fields fun db cs hdb => collections?_collectionsJson (h db cs hdb)
  have hrecord : (contentJson c).record? ["databases"] =
      some [ofFields (c.bindings.map fun b => (b.1, collectionsJson b.2))] := by
    rw [contentJson_eq, Json.record?, named?_ofFields]
    · simp
    · intro items he
      cases he
  rw [read?, write, String.toList_ofList, Json.read?_compact hprint, Option.bind_some]
  simp only [content?, hrecord, named?_ofFields, Option.bind_eq_bind, Option.bind_some, hfields]
  exact congrArg some c.ofList_bindings

end Snapshot

end RelStore
