import RelStore.Proofs.Similarity
/-! Two insertions in either order. Where both orders succeed they lead to the same databases, and the
ids that stand in another order in index entries are seen by no later request. -/
namespace RelStore

namespace Relation

theorem insertRow_comm {r q : Row} (h : r.id ≠ q.id) (R : Relation) :
    (R.insertRow r).insertRow q = (R.insertRow q).insertRow r := by
  rw [insertRow, insertRow, OrdMap.insert_comm h]
  rfl

end Relation

namespace Database

variable {D D₁ D₂ D₁₂ D₂₁ : Database} {T T' : String} {values values' : List String}

theorem table_update_insertRow {r : Row} {X : String} {R R₁ : Relation} (hR : D.find? X = some R)
    (hR₁ : (D.update T (·.insertRow r)).find? X = some R₁) : R₁.table = R.table := by
  have htables := congrFun (tables_update_of_rows (D := D) (T := T) (f := Relation.insertRow r)
    fun _ => rfl) X
  rw [tables, tables, hR, hR₁] at htables
  exact Option.some.inj htables

/-- A row read for the same table is the same row, whatever came in before. -/
theorem insertRow_comm (h : D.Sound) (hd : ∀ s ∈ values, fieldDelimiter ∉ s.toList)
    (hd' : ∀ s ∈ values', fieldDelimiter ∉ s.toList) (h₁ : D.insertRow T values = .ok D₁)
    (h₁₂ : D₁.insertRow T' values' = .ok D₁₂) (h₂ : D.insertRow T' values' = .ok D₂)
    (h₂₁ : D₂.insertRow T values = .ok D₂₁) : D₁₂ = D₂₁ := by
  have hs₁ := h.insertRow hd h₁
  have hs₂ := h.insertRow hd' h₂
  obtain ⟨R, r, hR, hr, -, -, rfl⟩ := (insertRow_eq_ok h).mp h₁
  obtain ⟨R', r', hR', hr', -, -, rfl⟩ := (insertRow_eq_ok h).mp h₂
  obtain ⟨R₁, q', hR₁, hq', hunique, -, rfl⟩ := (insertRow_eq_ok hs₁).mp h₁₂
  obtain ⟨R₂, q, hR₂, hq, -, -, rfl⟩ := (insertRow_eq_ok hs₂).mp h₂₁
  rw [table_update_insertRow hR' hR₁] at hq'
  rw [table_update_insertRow hR hR₂] at hq
  cases hq'.symm.trans hr'
  cases hq.symm.trans hr
  apply OrdMap.update_comm
  by_cases hT : T = T'
  · refine .inr (Relation.insertRow_comm fun hid => ?_)
    -- The second row would not have been new.
    subst hT
    have hnew := (Relation.of_checkUnique rfl (hs₁.shaped hR₁) hunique).1
    cases hR₁.symm.trans (OrdMap.find?_update_of_some hR)
    change (R.rows.insert r.id r.fields).find? r'.id = none at hnew
    rw [hid, OrdMap.find?_insert_self] at hnew
    cases hnew
  · exact .inl hT

end Database

namespace World

variable {W W₁ W₂ : World} {i j : Nat} {q q' T T' db : String} {values values' : List String}

/-- What an insertion that is acknowledged has done. -/
theorem of_insertion (hq : Command.decode q = .ok (.insert T values))
    (hdone : (W.handle i q).1 = .done) : ∃ db D D', (W.sessions i).selected = .ok db ∧
      W.databases.find? db = some D ∧ D.insertRow T values = .ok D' ∧
      (W.handle i q).2 = ⟨W.databases.insert db D', W.sessions⟩ := by
  rw [handle, Databases.handle, hq] at hdone ⊢
  cases ha : W.databases.run (W.sessions i) (.insert T values) with
  | error e =>
    simp only [ha] at hdone
    cases hdone
  | ok answer =>
    obtain ⟨db, hdb, hrun⟩ := Except.bind_eq_ok.mp ha
    obtain ⟨D, hD, hrun⟩ := Except.bind_eq_ok.mp hrun
    obtain ⟨D', hD', he⟩ := Except.bind_eq_ok.mp hrun
    cases he
    refine ⟨db, D, D', hdb, Databases.of_database hD, hD', ?_⟩
    simp only [ha]
    exact congrArg _ (Function.update_eq_self i W.sessions)

/-- Two insertions that succeed in either order lead to the same world. -/
theorem insertions_comm (h : W.databases.Sound) (hd : ∀ s ∈ values, fieldDelimiter ∉ s.toList)
    (hd' : ∀ s ∈ values', fieldDelimiter ∉ s.toList)
    (hq : Command.decode q = .ok (.insert T values))
    (hq' : Command.decode q' = .ok (.insert T' values')) (h₁ : (W.handle i q).1 = .done)
    (h₁₂ : ((W.handle i q).2.handle j q').1 = .done) (h₂ : (W.handle j q').1 = .done)
    (h₂₁ : ((W.handle j q').2.handle i q).1 = .done) :
    ((W.handle i q).2.handle j q').2 = ((W.handle j q').2.handle i q).2 := by
  obtain ⟨db, D, D₁, hdb, hD, hi₁, hnext₁⟩ := of_insertion hq h₁
  obtain ⟨db', D', D₂, hdb', hD', hi₂, hnext₂⟩ := of_insertion hq' h₂
  obtain ⟨_, E', D₁₂, hsame', hE', hi₁₂, hlast⟩ := of_insertion hq' h₁₂
  obtain ⟨_, E, D₂₁, hsame, hE, hi₂₁, hlast'⟩ := of_insertion hq h₂₁
  rw [hlast, hlast', hnext₁, hnext₂]
  rw [hnext₁] at hsame' hE'
  rw [hnext₂] at hsame hE
  cases hsame.symm.trans hdb
  cases hsame'.symm.trans hdb'
  dsimp only at hE hE' ⊢
  refine congrArg (World.mk · W.sessions) ?_
  by_cases hne : db = db'
  · subst hne
    rw [OrdMap.find?_insert_self] at hE hE'
    cases hE
    cases hE'
    cases hD.symm.trans hD'
    rw [OrdMap.insert_insert, OrdMap.insert_insert,
      Database.insertRow_comm (h.databases db D hD) hd hd' hi₁ hi₁₂ hi₂ hi₂₁]
  · rw [OrdMap.find?_insert_of_ne hne, hD] at hE
    rw [OrdMap.find?_insert_of_ne (Ne.symm hne), hD'] at hE'
    cases hE
    cases hE'
    cases hi₁.symm.trans hi₂₁
    cases hi₂.symm.trans hi₁₂
    exact OrdMap.insert_comm hne _ _ _

end World

namespace System

variable {S S' : System} {i j : Nat} {q q' T T' : String} {values values' : List String}

theorem catalog_of_insertion (hq : Command.decode q = .ok (.insert T values))
    (hdone : (S.handle i q).1 = .done) : (S.handle i q).2.backend.catalog = S.backend.catalog := by
  have hdone : (Service.handleRequest ⟨S.backend, S.sessions i⟩ q).1 = .done := hdone
  obtain ⟨o, hrun, -⟩ := Service.run_of_answered hq (by rw [hdone]; rfl)
  obtain ⟨db, -, hinsert⟩ := (Step.bind_eq_ok_of_read (Step.lift_run _ _)).mp hrun
  exact Engine.catalog_of_insert hinsert

/-- Similar systems answer any further requests alike. -/
theorem Similar.replies (h : S.Similar S') (hS : S.Reachable) (hS' : S'.Reachable)
    {later : List (Nat × String)} (size : ∀ r ∈ later, r.2.utf8ByteSize < 2 ^ 63) :
    S.replies later = S'.replies later := by
  induction later generalizing S S' with
  | nil => rfl
  | cons r later ih =>
    obtain ⟨hr, hlater⟩ := List.forall_mem_cons.mp size
    obtain ⟨hresponse, hnext⟩ := h.handle hS hS' r.1 hr
    rw [System.replies, System.replies, hresponse,
      ih hnext (hS.handle r.1 hr) (hS'.handle r.1 hr) hlater]

/-- Two insertions that succeed in either order lead to similar systems. -/
theorem Reachable.insertions_similar (h : S.Reachable) (size : q.utf8ByteSize < 2 ^ 63)
    (size' : q'.utf8ByteSize < 2 ^ 63) (hq : Command.decode q = .ok (.insert T values))
    (hq' : Command.decode q' = .ok (.insert T' values')) (h₁ : (S.handle i q).1 = .done)
    (h₁₂ : ((S.handle i q).2.handle j q').1 = .done) (h₂ : (S.handle j q').1 = .done)
    (h₂₁ : ((S.handle j q').2.handle i q).1 = .done) :
    ((S.handle i q).2.handle j q').2.Similar ((S.handle j q').2.handle i q).2 := by
  have hcatalog := (catalog_of_insertion hq' h₁₂).trans (catalog_of_insertion hq h₁)
  have hcatalog' := (catalog_of_insertion hq h₂₁).trans (catalog_of_insertion hq' h₂)
  obtain ⟨W, hW⟩ := h.holds
  obtain ⟨hr₁, hW₁⟩ := hW.handle i size
  obtain ⟨hr₁₂, hW₁₂⟩ := hW₁.handle j size'
  obtain ⟨hr₂, hW₂⟩ := hW.handle j size'
  obtain ⟨hr₂₁, hW₂₁⟩ := hW₂.handle i size
  rw [hr₁] at h₁
  rw [hr₁₂] at h₁₂
  rw [hr₂] at h₂
  rw [hr₂₁] at h₂₁
  rw [← World.insertions_comm hW.sound (Command.feasible_of_decode size hq)
    (Command.feasible_of_decode size' hq') hq hq' h₁ h₁₂ h₂ h₂₁] at hW₂₁
  exact hW₁₂.similar hW₂₁ (hcatalog'.trans hcatalog.symm)

end System

/-- The order of the ids in index entries is seen by no request: similar systems answer alike and
stay similar. So two insertions that are acknowledged in either order may come in either: whatever
is then asked for is answered the same. -/
theorem insertion_order_unobservable {S : System} (h : S.Reachable) :
    (∀ S' : System, S'.Reachable → S.Similar S' → ∀ i request, request.utf8ByteSize < 2 ^ 63 →
      (S.handle i request).1 = (S'.handle i request).1 ∧
        (S.handle i request).2.Similar (S'.handle i request).2) ∧
    ∀ (i j : Nat) (q q' T T' : String) (values values' : List String),
      q.utf8ByteSize < 2 ^ 63 → q'.utf8ByteSize < 2 ^ 63 →
      Command.decode q = .ok (.insert T values) → Command.decode q' = .ok (.insert T' values') →
      (S.handle i q).1 = .done → ((S.handle i q).2.handle j q').1 = .done →
      (S.handle j q').1 = .done → ((S.handle j q').2.handle i q).1 = .done →
      ∀ later : List (Nat × String), (∀ r ∈ later, r.2.utf8ByteSize < 2 ^ 63) →
        ((S.handle i q).2.handle j q').2.replies later =
          ((S.handle j q').2.handle i q).2.replies later := by
  constructor
  · intro S' h' hsimilar i request size
    exact hsimilar.handle h h' i size
  · intro i j q q' T T' values values' size size' hq hq' h₁ h₁₂ h₂ h₂₁ later hlater
    have hsimilar := h.insertions_similar size size' hq hq' h₁ h₁₂ h₂ h₂₁
    exact hsimilar.replies ((h.handle i size).handle j size') ((h.handle j size').handle i size)
      hlater

/-- An index has an entry already for a value that two more rows will hold. -/
def sharedEntry : List (Nat × String) :=
  [(0, "2 4 d"), (0, "7 d"), (0, "2 5 t 29 id 29 a"), (0, "10 6 t a"), (0, "8 t 1#5"), (1, "7 d")]

theorem insertion_order_unobservable_sharedEntry :
    let S := System.asked .inMemory sharedEntry
    let S₁ := ((S.handle 0 "8 t 3#5").2.handle 1 "8 t 2#5").2
    let S₂ := ((S.handle 1 "8 t 2#5").2.handle 0 "8 t 3#5").2
    S₁.replies [(1, "9 16 t 17 3"), (0, "19 18 16 t")] =
        S₂.replies [(1, "9 16 t 17 3"), (0, "19 18 16 t")] ∧
      (S₁.handle 0 "9 16 t 17 2").1 = (S₂.handle 0 "9 16 t 17 2").1 := by
  obtain ⟨hreach, hholds⟩ := System.asked_inMemory_holds sharedEntry (by decide)
  generalize System.asked .inMemory sharedEntry = S at hreach hholds ⊢
  intro S S₁ S₂
  have size : "8 t 3#5".utf8ByteSize < 2 ^ 63 := by decide
  have size' : "8 t 2#5".utf8ByteSize < 2 ^ 63 := by decide
  obtain ⟨hr₁, hholds₁⟩ := hholds.handle 0 size
  obtain ⟨hr₂, hholds₂⟩ := hholds.handle 1 size'
  obtain ⟨hr₁₂, -⟩ := hholds₁.handle 1 size'
  obtain ⟨hr₂₁, -⟩ := hholds₂.handle 0 size
  have hq : Command.decode "8 t 3#5" = .ok (.insert "t" ["3", "5"]) := by decide +kernel
  have hq' : Command.decode "8 t 2#5" = .ok (.insert "t" ["2", "5"]) := by decide +kernel
  have h₁ : (S.handle 0 "8 t 3#5").1 = .done := hr₁.trans (by decide +kernel)
  have h₂ : (S.handle 1 "8 t 2#5").1 = .done := hr₂.trans (by decide +kernel)
  have h₁₂ : ((S.handle 0 "8 t 3#5").2.handle 1 "8 t 2#5").1 = .done :=
    hr₁₂.trans (by decide +kernel)
  have h₂₁ : ((S.handle 1 "8 t 2#5").2.handle 0 "8 t 3#5").1 = .done :=
    hr₂₁.trans (by decide +kernel)
  have hsimilar : S₁.Similar S₂ := hreach.insertions_similar size size' hq hq' h₁ h₁₂ h₂ h₂₁
  obtain ⟨-, hlater⟩ := insertion_order_unobservable hreach
  have hreach₁ : S₁.Reachable := (hreach.handle 0 size).handle 1 size'
  have hreach₂ : S₂.Reachable := (hreach.handle 1 size').handle 0 size
  obtain ⟨hstep, -⟩ := insertion_order_unobservable hreach₁
  exact ⟨hlater 0 1 _ _ _ _ _ _ size size' hq hq' h₁ h₁₂ h₂ h₂₁ _ (by decide),
    (hstep S₂ hreach₂ hsimilar 0 _ (by decide)).1⟩

end RelStore
