import RelStore.Proofs.FailedRequests
import RelStore.Proofs.RowChanges
/-! What a command does to the catalog depends on the catalog alone: of two runs that begin with the
same catalog and both succeed, whatever they find in the store, the same catalog is left. Two such
runs are followed step by step, with what is known of each pair of results. -/
namespace RelStore

/-- Where both steps succeed from the same catalog, their results are related and the catalog that
they leave is the same. -/
def CatalogsAgree {α β : Type} (p : α → β → Prop) (x : Step Backend α) (y : Step Backend β) : Prop :=
  ∀ b c, b.catalog = c.catalog → ∀ a a' b' c', x b = (.ok a, b') → y c = (.ok a', c') →
    p a a' ∧ b'.catalog = c'.catalog

/-- A step that succeeds leaves the catalog alone. -/
def KeepsCatalog {α : Type} (x : Step Backend α) : Prop :=
  ∀ b a b', x b = (.ok a, b') → b'.catalog = b.catalog

section Keeping

variable {α : Type}

theorem KeepsCatalog.lift (r : Except Error α) : KeepsCatalog (liftM r : Step Backend α) := by
  intro b a b' h
  rw [Step.lift_run] at h
  cases h
  rfl

theorem KeepsCatalog.getContent : KeepsCatalog Engine.getContent := by
  intro b a b' h
  cases h
  rfl

theorem KeepsCatalog.onStore (x : Step Store α) : KeepsCatalog (Backend.onStore x) :=
  fun _ _ _ h => (Backend.onStore_eq_ok.mp h).2

end Keeping

namespace CatalogsAgree

variable {α β γ δ : Type} {p : α → β → Prop} {q : γ → δ → Prop} {x : Step Backend α}
  {y : Step Backend β}

theorem pure {a : α} {a' : β} (h : p a a') :
    CatalogsAgree p (pure a : Step Backend α) (pure a' : Step Backend β) := by
  intro b c hcatalog a₁ a₂ b' c' hx hy
  cases hx
  cases hy
  exact ⟨h, hcatalog⟩

theorem bind {f : α → Step Backend γ} {g : β → Step Backend δ} (h : CatalogsAgree p x y)
    (hf : ∀ a a', p a a' → CatalogsAgree q (f a) (g a')) : CatalogsAgree q (x >>= f) (y >>= g) := by
  intro b c hcatalog r r' b' c' hx hy
  obtain ⟨a, b₁, hxa, hfa⟩ := Step.bind_eq_ok.mp hx
  obtain ⟨a', c₁, hya, hga⟩ := Step.bind_eq_ok.mp hy
  obtain ⟨hp, hcatalog₁⟩ := h b c hcatalog a a' b₁ c₁ hxa hya
  exact hf a a' hp b₁ c₁ hcatalog₁ r r' b' c' hfa hga

/-- Where the results are the same, what follows goes by one of them. -/
theorem bind_eq {x y : Step Backend α} {f : α → Step Backend γ} {g : α → Step Backend δ}
    (h : CatalogsAgree Eq x y) (hf : ∀ a, CatalogsAgree q (f a) (g a)) :
    CatalogsAgree q (x >>= f) (y >>= g) := by
  refine bind h ?_
  rintro a _ rfl
  exact hf a

/-- A step that goes by the catalog and leaves it alone. -/
theorem reading {r : Catalog → Except Error α} (h : ∀ b, x b = (r b.catalog, b)) :
    CatalogsAgree Eq x x := by
  intro b c hcatalog a a' b' c' hx hy
  rw [h] at hx hy
  cases (Prod.mk.inj hx).2
  cases (Prod.mk.inj hy).2
  refine ⟨?_, hcatalog⟩
  have hr := (Prod.mk.inj hx).1
  rw [hcatalog, (Prod.mk.inj hy).1] at hr
  exact (Except.ok.inj hr).symm

theorem keeping (hx : KeepsCatalog x) (hy : KeepsCatalog y) :
    CatalogsAgree (fun _ _ => True) x y := by
  intro b c hcatalog a a' b' c' ha ha'
  rw [hx b a b' ha, hy c a' c' ha']
  exact ⟨trivial, hcatalog⟩

theorem onStore (x : Step Store α) (y : Step Store β) :
    CatalogsAgree (fun _ _ => True) (Backend.onStore x) (Backend.onStore y) :=
  keeping (.onStore x) (.onStore y)

theorem results (r : Except Error α) (r' : Except Error β) :
    CatalogsAgree (fun _ _ => True) (liftM r : Step Backend α) (liftM r' : Step Backend β) :=
  keeping (.lift r) (.lift r')

theorem content : CatalogsAgree (fun _ _ => True) Engine.getContent Engine.getContent :=
  keeping .getContent .getContent

theorem onCatalog (x : Step Catalog α) :
    CatalogsAgree Eq (Backend.onCatalog x) (Backend.onCatalog x) := by
  intro b c hcatalog a a' b' c' hx hy
  rw [Backend.onCatalog, hcatalog] at hx
  rw [Backend.onCatalog] at hy
  generalize x c.catalog = result at hx hy
  obtain ⟨r, catalog⟩ := result
  cases hx
  cases hy
  exact ⟨rfl, rfl⟩

theorem lift (r : Except Error α) : CatalogsAgree Eq (liftM r : Step Backend α) (liftM r) :=
  reading (r := fun _ => r) fun b => Step.lift_run r b

theorem get : CatalogsAgree (fun b c : Backend => b.catalog = c.catalog)
    (MonadState.get : Step Backend Backend) MonadState.get := by
  intro b c hcatalog a a' b' c' hx hy
  cases hx
  cases hy
  exact ⟨hcatalog, hcatalog⟩

/-- A check may fail in either run. -/
theorem guard {s t : Prop} [Decidable s] [Decidable t] {e e' : Error} (h : CatalogsAgree p x y) :
    CatalogsAgree p (if s then throw e else x) (if t then throw e' else y) := by
  intro b c hcatalog a a' b' c' hx hy
  by_cases hs : s
  · rw [if_pos hs] at hx
    cases hx
  by_cases ht : t
  · rw [if_pos ht] at hy
    cases hy
  rw [if_neg hs] at hx
  rw [if_neg ht] at hy
  exact h b c hcatalog a a' b' c' hx hy

theorem forM {ι : Type} {f : ι → Step Backend PUnit} (l : List ι)
    (h : ∀ i ∈ l, CatalogsAgree (fun _ _ => True) (f i) (f i)) :
    CatalogsAgree (fun _ _ => True) (l.forM f) (l.forM f) := by
  induction l with
  | nil => exact pure trivial
  | cons i l ih =>
    obtain ⟨hi, hl⟩ := List.forall_mem_cons.mp h
    exact bind hi fun _ _ _ => ih hl

end CatalogsAgree

namespace Engine

open CatalogsAgree (reading lift guard)

theorem requireDatabase_agree (db : String) :
    CatalogsAgree Eq (requireDatabase db) (requireDatabase db) :=
  reading (r := fun c => if c.databaseExists db then .ok () else .error (.databaseNotFound db))
    fun b => Backend.requireDatabase_run b db

theorem getTable_agree (db name : String) :
    CatalogsAgree Eq (getTable db name) (getTable db name) :=
  reading (r := fun c => c.table db name) fun b => Backend.getTable_run b db name

/-- Whether two operations agree is a matter of the catalog and not of the results. -/
abbrev Agrees (x : Step Backend Outcome) : Prop := CatalogsAgree (fun _ _ => True) x x

theorem createDatabase_agrees (name : String) : Agrees (createDatabase name) := by
  refine .bind .content fun _ _ _ => guard (.bind (.onCatalog _) fun _ _ _ => ?_)
  exact .bind (.onStore _ _) fun _ _ _ => .pure trivial

theorem dropDatabase_agrees (name : String) : Agrees (dropDatabase name) :=
  .bind (.onCatalog _) fun _ _ _ => .bind (.onStore _ _) fun _ _ _ => .pure trivial

theorem insert_keepsCatalog (db table : String) (values : List String) :
    KeepsCatalog (insert db table values) := fun _ _ _ => catalog_of_insert

theorem delete_keepsCatalog (db table id : String) : KeepsCatalog (delete db table id) :=
  fun _ _ _ => catalog_of_delete

theorem select_keepsCatalog (db table : String) (projection : Projection)
    (predicates : List Predicate) : KeepsCatalog (select db table projection predicates) := by
  intro b o b' h
  have hsame := select_readOnly db table projection predicates b
  rw [h] at hsame
  exact congrArg Backend.catalog hsame

/-- The rest of an operation that has written a definition is a matter of the store. -/
theorem build_agrees {b : Bool} (x : Except Error Column) (f : Column → Step Store Unit)
    (message : String) : Agrees (do
      if b then Backend.onStore (f (← x))
      return .done 0 message) := by
  cases b with
  | false => exact .pure trivial
  | true => exact .bind_eq (lift x) fun c => .bind (.onStore _ _) fun _ _ _ => .pure trivial

theorem addPrimaryKey_agrees (db table column : String) : Agrees (addPrimaryKey db table column) := by
  refine .bind (requireDatabase_agree db) fun _ _ _ => .bind_eq (getTable_agree db table) fun t => ?_
  refine .bind_eq (lift _) fun c => guard (.bind .content fun _ _ _ => ?_)
  refine .bind (.results _ _) fun _ _ _ => .bind_eq (.onCatalog _) fun updated => ?_
  exact build_agrees _ _ _

theorem addUnique_agrees (db table column : String) : Agrees (addUnique db table column) := by
  refine .bind (requireDatabase_agree db) fun _ _ _ => .bind_eq (getTable_agree db table) fun t => ?_
  refine .bind_eq (lift _) fun c => .bind .content fun _ _ _ => ?_
  refine .bind (.results _ _) fun _ _ _ => .bind_eq (.onCatalog _) fun updated => ?_
  exact build_agrees _ _ _

theorem addIndex_agrees (db table column : String) : Agrees (addIndex db table column) := by
  refine .bind (requireDatabase_agree db) fun _ _ _ => .bind_eq (.onCatalog _) fun updated => ?_
  exact .bind_eq (lift _) fun c => .bind (.onStore _ _) fun _ _ _ => .pure trivial

theorem addForeignKey_agrees (db table column parent parentColumn : String) :
    Agrees (addForeignKey db table column parent parentColumn) := by
  refine .bind (requireDatabase_agree db) fun _ _ _ => .bind_eq (getTable_agree db table) ?_
  intro child
  refine .bind_eq (getTable_agree db parent) fun parentTable => .bind_eq (lift _) fun own => ?_
  refine .bind_eq (lift _) fun target => guard (guard (.bind .content fun _ _ _ => ?_))
  exact .bind (.results _ _) fun _ _ _ => .bind (.onCatalog _) fun _ _ _ => .pure trivial

theorem dropTable_agrees (db name : String) : Agrees (dropTable db name) := by
  refine .bind (requireDatabase_agree db) fun _ _ _ => .bind_eq (getTable_agree db name) fun t => ?_
  split
  · exact fun _ _ _ _ _ _ _ hx => (nomatch hx)
  · refine .bind (.forM _ fun fk _ => .bind (.onCatalog _) fun _ _ _ => .pure trivial) fun _ _ _ => ?_
    refine .bind (.onStore _ _) fun _ _ _ => .bind (.onStore _ _) fun _ _ _ => ?_
    refine .bind (.onCatalog _) fun _ _ _ => .bind .get fun b c hcatalog => ?_
    rw [hcatalog]
    refine .bind_eq (lift _) fun tables => ?_
    by_cases hempty : tables.isEmpty = true
    · rw [if_pos hempty]
      exact .bind (.onStore _ _) fun _ _ _ => .pure trivial
    · rw [if_neg hempty]
      exact .pure trivial

theorem createTable_agrees (db name : String) (columns : List (String × ColumnType)) :
    Agrees (createTable db name columns) := by
  refine .bind (requireDatabase_agree db) fun _ _ _ => .bind (.onCatalog _) fun _ _ _ => ?_
  exact .bind (.onStore _ _) fun _ _ _ => .bind (.onStore _ _) fun _ _ _ => .pure trivial

/-- Where creating a table fails, too, it leaves a catalog that is a matter of the one before. -/
theorem createTable_catalog (b : Backend) (db name : String) (columns : List (String × ColumnType)) :
    (createTable db name columns b).2.catalog =
      if b.catalog.databaseExists db then (Catalog.createTable db name columns b.catalog).2
      else b.catalog := by
  rw [createTable, Step.bind_run, Backend.requireDatabase_run]
  by_cases hdb : b.catalog.databaseExists db = true
  · rw [if_pos hdb, if_pos hdb]
    dsimp only
    rw [Step.bind_run, Backend.onCatalog]
    obtain ⟨_ | t, catalog⟩ := Catalog.createTable db name columns b.catalog
    · rfl
    · dsimp only
      rw [Step.bind_run, Backend.onStore]
      dsimp only
      obtain ⟨_ | _, s⟩ := Store.createCollection db name b.store
      · rfl
      · dsimp only
        rw [Step.bind_run, Backend.onStore]
        dsimp only
        obtain ⟨_ | _, s'⟩ := Store.dropCollection db placeholder s <;> rfl
  · rw [if_neg hdb, if_neg hdb]

end Engine

theorem Session.run_agrees (s : Session) (c : Command) : Engine.Agrees (s.run c) := by
  have hselected {op : String → Step Backend Outcome} (hop : ∀ db, Engine.Agrees (op db)) :
      Engine.Agrees (do op (← s.selected)) :=
    .bind_eq (.lift _) hop
  cases c with
  | createDatabase n => exact Engine.createDatabase_agrees n
  | dropDatabase n => exact Engine.dropDatabase_agrees n
  | useDatabase n =>
    exact .bind (Engine.requireDatabase_agree n) fun _ _ _ => .pure trivial
  | createTable n columns => exact hselected fun db => Engine.createTable_agrees db n columns
  | dropTable n => exact hselected fun db => Engine.dropTable_agrees db n
  | insert t values =>
    exact hselected fun db => .keeping (Engine.insert_keepsCatalog db t values)
      (Engine.insert_keepsCatalog db t values)
  | delete t id =>
    exact hselected fun db => .keeping (Engine.delete_keepsCatalog db t id)
      (Engine.delete_keepsCatalog db t id)
  | addPrimaryKey t c => exact hselected fun db => Engine.addPrimaryKey_agrees db t c
  | addForeignKey t c p pc => exact hselected fun db => Engine.addForeignKey_agrees db t c p pc
  | addUnique t c => exact hselected fun db => Engine.addUnique_agrees db t c
  | addIndex t c => exact hselected fun db => Engine.addIndex_agrees db t c
  | select t projection predicates =>
    have hkeeps := fun db => Engine.select_keepsCatalog db t projection predicates
    exact hselected fun db => .keeping (hkeeps db) (hkeeps db)

/-- What creating a table leaves of the catalog, done or not, is a matter of the catalog. -/
theorem Session.createTable_catalog (s : Session) (n : String) (columns : List (String × ColumnType))
    {b c : Backend} (h : b.catalog = c.catalog) :
    (s.run (.createTable n columns) b).2.catalog = (s.run (.createTable n columns) c).2.catalog := by
  cases hdb : s.selected with
  | error e =>
    have hrun (b : Backend) : s.run (.createTable n columns) b = (.error e, b) := by
      simp only [Session.run, hdb]
      rfl
    rw [hrun, hrun, h]
  | ok db =>
    have hrun (b : Backend) :
        s.run (.createTable n columns) b = Engine.createTable db n columns b := by
      simp only [Session.run, hdb]
      rfl
    rw [hrun, hrun, Engine.createTable_catalog, Engine.createTable_catalog, h]

end RelStore
