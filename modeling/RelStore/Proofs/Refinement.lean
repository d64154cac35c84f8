import RelStore.Proofs.CatalogSteps
import RelStore.Proofs.Checks
import RelStore.Proofs.TableCollections
/-! A step on the backend refines what it means for databases: it fails with the same error, or
ends in a state that holds the result. The steps of an operation are gone through in turn. -/
namespace RelStore

/-- `r` is what the step means, `done` relates the two results, and `kept` is left by a failure. -/
def Refines {α β : Type} (x : Step Backend α) (b : Backend) (r : Except Error β)
    (done : α → β → Backend → Prop) (kept : Backend → Prop) : Prop :=
  match r with
  | .ok y => ∃ a b', x b = (.ok a, b') ∧ done a y b'
  | .error e => ∃ b', x b = (.error e, b') ∧ kept b'

namespace Refines

variable {α β γ δ ε : Type} {x : Step Backend α} {f : α → Step Backend γ} {b b' : Backend}
  {done : γ → δ → Backend → Prop} {kept : Backend → Prop}

theorem pure {a : γ} {y : δ} (h : done a y b) : Refines (pure a) b (.ok y) done kept :=
  ⟨a, b, rfl, h⟩

theorem fail {e : Error} (h : kept b) :
    Refines (throw e : Step Backend γ) b (.error e : Except Error δ) done kept := ⟨b, rfl, h⟩

/-- A step that only reads or checks. -/
theorem bind {r : Except Error β} {g : β → α} {k : β → Except Error δ} (hx : x b = (r.map g, b))
    (hb : kept b) (hf : ∀ y, r = .ok y → Refines (f (g y)) b (k y) done kept) :
    Refines (x >>= f) b (r >>= k) done kept := by
  cases r with
  | error e => exact ⟨b, Step.bind_run_error hx, hb⟩
  | ok y =>
    have h := hf y rfl
    rw [Except.ok_bind]
    unfold Refines at h ⊢
    rw [Step.bind_run_ok hx]
    exact h

theorem check {r : Except Error α} {k : α → Except Error δ} (hb : kept b)
    (hf : ∀ y, r = .ok y → Refines (f y) b (k y) done kept) :
    Refines ((liftM r : Step Backend α) >>= f) b (r >>= k) done kept := by
  refine bind (g := id) ?_ hb hf
  cases r <;> rfl

/-- A step that always succeeds, of which the meaning shows nothing. -/
theorem step {a : α} {r : Except Error δ} (hx : x b = (.ok a, b'))
    (hf : Refines (f a) b' r done kept) : Refines (x >>= f) b r done kept := by
  unfold Refines at hf ⊢
  rw [Step.bind_run_ok hx]
  exact hf

theorem of_error {e : Error} {k : β → Except Error δ} (hx : x b = (.error e, b')) (hb : kept b') :
    Refines (x >>= f) b ((.error e : Except Error β) >>= k) done kept :=
  ⟨b', Step.bind_run_error hx, hb⟩

theorem guard {p q : Prop} [Decidable p] [Decidable q] {e : Error} {y : Step Backend γ}
    {s : Except Error δ} (hpq : p ↔ q) (hb : kept b) (h : ¬ q → Refines y b s done kept) :
    Refines (if p then throw e else y) b (if q then .error e else s) done kept := by
  by_cases hq : q
  · rw [if_pos hq, if_pos (hpq.mpr hq)]
    exact fail hb
  · rw [if_neg hq, if_neg fun hp => hq (hpq.mp hp)]
    exact h hq

theorem imp {y : Step Backend γ} {r : Except Error δ} {done' : γ → δ → Backend → Prop}
    {kept' : Backend → Prop} (h : Refines y b r done kept)
    (hdone : ∀ a z b', r = .ok z → done a z b' → done' a z b') (hkept : ∀ b', kept b' → kept' b') :
    Refines y b r done' kept' := by
  cases r with
  | ok z =>
    obtain ⟨a, b', hy, h⟩ := h
    exact ⟨a, b', hy, hdone a z b' rfl h⟩
  | error e =>
    obtain ⟨b', hy, h⟩ := h
    exact ⟨b', hy, hkept b' h⟩

theorem exists_ok_iff {y : Step Backend γ} {r : Except Error δ} (h : Refines y b r done kept) :
    (∃ a, (y b).1 = .ok a) ↔ ∃ z, r = .ok z := by
  cases r with
  | ok z =>
    obtain ⟨a, b', hy, -⟩ := h
    exact ⟨fun _ => ⟨z, rfl⟩, fun _ => ⟨a, congrArg Prod.fst hy⟩⟩
  | error e =>
    obtain ⟨b', hy, -⟩ := h
    refine ⟨fun ⟨a, ha⟩ => ?_, fun ⟨z, hz⟩ => nomatch hz⟩
    rw [hy] at ha
    cases ha

theorem of_ok {y : Step Backend γ} {r : Except Error δ} {a : γ} (h : Refines y b r done kept)
    (hy : y b = (.ok a, b')) : ∃ z, r = .ok z ∧ done a z b' := by
  cases r with
  | ok z =>
    obtain ⟨a₀, b₀, hy₀, hdone⟩ := h
    rw [hy] at hy₀
    cases hy₀
    exact ⟨z, rfl, hdone⟩
  | error e =>
    obtain ⟨b₀, hy₀, -⟩ := h
    rw [hy] at hy₀
    cases hy₀

end Refines

namespace Backend

variable {α : Type} {b : Backend} {cat cat' : Catalog} {c : Content} {s' : Store}
  {db T : String} {D : Database} {es : OrdMap String Entry} {cs : Collections}

theorem onCatalog_run {step : Step Catalog α} {r : Except Error α} (h : step b.catalog = (r, cat')) :
    onCatalog step b = (r, { b with catalog := cat' }) := by rw [onCatalog, h]

theorem onStore_run {step : Step Store α} {r : Except Error α} (h : step b.store = (r, s')) :
    onStore step b = (r, { b with store := s' }) := by rw [onStore, h]

theorem onStore_eq_ok {step : Step Store α} {a : α} {b' : Backend} :
    onStore step b = (.ok a, b') ↔ step b.store = (.ok a, b'.store) ∧ b'.catalog = b.catalog := by
  obtain ⟨r, s, hrun⟩ : ∃ r s, step b.store = (r, s) := ⟨_, _, rfl⟩
  rw [onStore_run hrun, hrun, Prod.mk.injEq, Prod.mk.injEq, and_assoc]
  refine and_congr_right fun _ => ⟨?_, ?_⟩
  · rintro rfl
    exact ⟨rfl, rfl⟩
  · rintro ⟨rfl, hcatalog⟩
    rw [← hcatalog]

theorem requireDatabase_run (b : Backend) (db : String) : Engine.requireDatabase db b =
    (if b.catalog.databaseExists db then .ok () else .error (.databaseNotFound db), b) := by
  rw [Engine.requireDatabase, Step.bind_run_ok (Step.get_run b), Step.ite_run]
  cases b.catalog.databaseExists db <;> rfl

theorem getTable_run (b : Backend) (db T : String) :
    Engine.getTable db T b = (b.catalog.table db T, b) := by
  rw [Engine.getTable, Step.bind_run_ok (Step.get_run b)]
  cases b.catalog.table db T <;> rfl

theorem getContent_run : Engine.getContent b = (.ok b.store.content, b) := rfl

/-- The backend holds one database, over a catalog and a content with the others. -/
structure Stores (b : Backend) (cat : Catalog) (c : Content) (db : String) (D : Database)
    (es : OrdMap String Entry) (cs : Collections) : Prop where
  catalog : b.catalog = cat.insert db (.folder es)
  folder : FolderOf D.tables es
  store : b.store.At c db cs
  collections : CollectionsOf D cs

def Shows (cat : Catalog) (c : Content) (db : String) (D : Database) (b : Backend) : Prop :=
  ∃ es cs, b.Stores cat c db D es cs

/-- Of the other databases nothing changes. -/
structure ChangesWithin (b : Backend) (db : String) (b' : Backend) : Prop where
  catalog : ∀ X, X ≠ db → b'.catalog.find? X = b.catalog.find? X
  content : ∀ X, X ≠ db → b'.store.content.find? X = b.store.content.find? X

theorem Shows.changesWithin {b' : Backend} (h : Shows b.catalog b.store.content db D b') :
    b.ChangesWithin db b' := by
  obtain ⟨es, cs, hstores⟩ := h
  constructor
  · intro X hX
    rw [hstores.catalog, OrdMap.find?_insert_of_ne hX]
  · intro X hX
    rw [hstores.store.content, Content.find?_set_of_ne hX]

/-- The change is acknowledged, and the result is held. -/
def Changed (cat : Catalog) (c : Content) (db : String) (o : Outcome) (D : Database)
    (b : Backend) : Prop :=
  o.response = .done ∧ Shows cat c db D b

namespace Stores

theorem shows (h : b.Stores cat c db D es cs) : Shows cat c db D b := ⟨es, cs, h⟩

theorem entries (h : b.Stores cat c db D es cs) : b.catalog.find? db = some (.folder es) := by
  rw [h.catalog, OrdMap.find?_insert_self]

theorem content (h : b.Stores cat c db D es cs) : b.store.content.find? db = some cs := by
  rw [h.store.content, Content.find?_set_self, h.collections.nonempty]
  rfl

theorem table (h : b.Stores cat c db D es cs) (hD : D.Sound) (hdb : isValidName db = true)
    (T : String) : b.catalog.table db T = (D.relation T).map (·.table) :=
  h.folder.table hD h.entries hdb

theorem databaseExists (h : b.Stores cat c db D es cs) (hdb : isValidName db = true) :
    b.catalog.databaseExists db = true := by
  rw [Catalog.databaseExists, hdb, Catalog.entries?_eq h.entries]
  rfl

theorem table_eq (h : b.Stores cat c db D es cs) (hD : D.Sound) (hdb : isValidName db = true)
    {R : Relation} (hR : D.find? T = some R) : b.catalog.table db T = .ok R.table := by
  rw [h.table hD hdb, hD.relation hR]
  rfl

theorem requireDatabase_run (h : b.Stores cat c db D es cs) (hdb : isValidName db = true) :
    Engine.requireDatabase db b = (.ok (), b) := by
  rw [Backend.requireDatabase_run, h.databaseExists hdb, if_pos rfl]

theorem getTable_run (h : b.Stores cat c db D es cs) (hD : D.Sound) (hdb : isValidName db = true)
    (T : String) : Engine.getTable db T b = ((D.relation T).map (·.table), b) := by
  rw [Backend.getTable_run, h.table hD hdb]

end Stores

end Backend

end RelStore
