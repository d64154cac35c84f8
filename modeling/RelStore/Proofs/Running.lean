import Mathlib.Data.List.Forall2
import RelStore.Error
/-! Running operations: what a sequence of steps gives is told by what each step gives. -/
namespace RelStore

universe u v

namespace Except

variable {ε : Type u} {α β : Type v}

theorem ok_bind (a : α) (f : α → Except ε β) : (Except.ok a >>= f) = f a := rfl

theorem bind_eq_ok {x : Except ε α} {f : α → Except ε β} {b : β} :
    x >>= f = .ok b ↔ ∃ a, x = .ok a ∧ f a = .ok b := by
  constructor
  · intro h
    cases x with
    | error e => cases h
    | ok a => exact ⟨a, rfl, h⟩
  · rintro ⟨a, rfl, h⟩
    exact h

theorem map_eq_ok {x : Except ε α} {f : α → β} {b : β} :
    x.map f = .ok b ↔ ∃ a, x = .ok a ∧ f a = b := by
  cases x <;> simp [Except.map]

theorem toOption_eq_some {x : Except ε α} {a : α} : x.toOption = some a ↔ x = .ok a := by
  cases x <;> simp [Except.toOption]

theorem isOk_iff {x : Except ε α} : x.isOk = true ↔ ∃ a, x = .ok a := by
  cases x <;> simp [Except.isOk, Except.toBool]

end Except

section Lists

variable {ε : Type u} {α β : Type v} {f : α → Except ε β}

theorem mapM_eq_ok_iff {l : List α} {r : List β} :
    l.mapM f = .ok r ↔ List.Forall₂ (fun a b => f a = .ok b) l r := by
  induction l generalizing r with
  | nil =>
    rw [List.mapM_nil, List.forall₂_nil_left_iff]
    constructor
    · intro h
      cases h
      rfl
    · intro h
      rw [h]
      rfl
  | cons a l ih =>
    rw [List.mapM_cons, List.forall₂_cons_left_iff, Except.bind_eq_ok]
    constructor
    · rintro ⟨b, hb, h⟩
      obtain ⟨bs, hbs, he⟩ := Except.bind_eq_ok.mp h
      cases he
      exact ⟨b, bs, hb, ih.mp hbs, rfl⟩
    · rintro ⟨b, bs, hb, hbs, rfl⟩
      exact ⟨b, hb, Except.bind_eq_ok.mpr ⟨bs, ih.mpr hbs, rfl⟩⟩

theorem exists_mapM_eq_ok_iff {l : List α} :
    (∃ r, l.mapM f = .ok r) ↔ ∀ a ∈ l, ∃ b, f a = .ok b := by
  simp only [mapM_eq_ok_iff]
  induction l with
  | nil => exact ⟨fun _ a ha => (List.not_mem_nil ha).elim, fun _ => ⟨[], .nil⟩⟩
  | cons a l ih =>
    rw [List.forall_mem_cons, ← ih]
    constructor
    · rintro ⟨r, h⟩
      cases h with
      | cons hb hr => exact ⟨⟨_, hb⟩, _, hr⟩
    · rintro ⟨⟨b, hb⟩, r, hr⟩
      exact ⟨b :: r, .cons hb hr⟩

theorem exists_of_mem_right {γ : Type*} {R : α → γ → Prop} {l : List α} {r : List γ} {b : γ}
    (h : List.Forall₂ R l r) (hb : b ∈ r) : ∃ a ∈ l, R a b := by
  induction h with
  | nil => cases hb
  | @cons a b' l r hab _ ih =>
    rcases List.mem_cons.mp hb with rfl | hb
    · exact ⟨a, List.mem_cons_self, hab⟩
    · obtain ⟨a, ha, hab⟩ := ih hb
      exact ⟨a, List.mem_cons_of_mem _ ha, hab⟩

theorem mem_iff_of_mapM_eq_ok {l : List α} {r : List β} {b : β} (h : l.mapM f = .ok r) :
    b ∈ r ↔ ∃ a ∈ l, f a = .ok b := by
  have hall := mapM_eq_ok_iff.mp h
  constructor
  · exact exists_of_mem_right hall
  · rintro ⟨a, ha, hb⟩
    obtain ⟨b', hb', hab⟩ := exists_of_mem_right hall.flip ha
    cases hb.symm.trans hab
    exact hb'

theorem forM_eq_ok_iff {g : α → Except ε PUnit} {l : List α} :
    l.forM g = .ok ⟨⟩ ↔ ∀ a ∈ l, g a = .ok ⟨⟩ := by
  induction l with
  | nil => exact ⟨fun _ _ h => (List.not_mem_nil h).elim, fun _ => rfl⟩
  | cons a l ih =>
    change (g a >>= fun _ => l.forM g) = _ ↔ _
    rw [Except.bind_eq_ok, List.forall_mem_cons, ← ih]
    constructor
    · rintro ⟨_, h⟩
      exact h
    · intro h
      exact ⟨⟨⟩, h⟩

end Lists

namespace Step

variable {σ : Type} {α β : Type}

theorem pure_run (a : α) (s : σ) : (pure a : Step σ α) s = (.ok a, s) := rfl

theorem throw_run (e : Error) (s : σ) : (throw e : Step σ α) s = (.error e, s) := rfl

theorem get_run (s : σ) : (get : Step σ σ) s = (.ok s, s) := rfl

theorem lift_run (x : Except Error α) (s : σ) : (liftM x : Step σ α) s = (x, s) := rfl

theorem modify_run (f : σ → σ) (s : σ) : (modify f : Step σ PUnit) s = (.ok ⟨⟩, f s) := rfl

theorem ite_run (p : Prop) [Decidable p] (x y : Step σ α) (s : σ) :
    (if p then x else y) s = if p then x s else y s := by
  split <;> rfl

theorem bind_run (x : Step σ α) (f : α → Step σ β) (s : σ) :
    (x >>= f) s =
      match x s with
      | (.ok a, s) => f a s
      | (.error e, s) => (.error e, s) := by
  obtain ⟨⟨r, s'⟩, h⟩ : ∃ p, x s = p := ⟨_, rfl⟩
  rw [h]
  show (ExceptT.bind x f) s = _
  simp only [ExceptT.bind, ExceptT.mk, bind, StateT.bind, h]
  cases r <;> rfl

theorem bind_run_ok {x : Step σ α} {f : α → Step σ β} {s s' : σ} {a : α} (h : x s = (.ok a, s')) :
    (x >>= f) s = f a s' := by rw [bind_run, h]

theorem bind_run_error {x : Step σ α} {f : α → Step σ β} {s s' : σ} {e : Error}
    (h : x s = (.error e, s')) : (x >>= f) s = (.error e, s') := by rw [bind_run, h]

/-- A sequence succeeds only if each of its steps does. -/
theorem bind_eq_ok {x : Step σ α} {f : α → Step σ β} {s s' : σ} {b : β} :
    (x >>= f) s = (.ok b, s') ↔ ∃ a s₁, x s = (.ok a, s₁) ∧ f a s₁ = (.ok b, s') := by
  constructor
  · intro h
    rw [bind_run] at h
    split at h
    · next a s₁ hx => exact ⟨a, s₁, hx, h⟩
    · cases h
  · rintro ⟨a, s₁, hx, h⟩
    rwa [bind_run_ok hx]

/-- So does a sequence that begins with a step which only reads. -/
theorem bind_eq_ok_of_read {x : Step σ α} {f : α → Step σ β} {s s' : σ} {r : Except Error α} {b : β}
    (hx : x s = (r, s)) : (x >>= f) s = (.ok b, s') ↔ ∃ a, r = .ok a ∧ f a s = (.ok b, s') := by
  rw [bind_eq_ok, hx]
  constructor
  · rintro ⟨a, s₁, he, h⟩
    cases he
    exact ⟨a, rfl, h⟩
  · rintro ⟨a, rfl, h⟩
    exact ⟨a, s, rfl, h⟩

theorem tryCatch_run (x : Step σ α) (f : Error → Step σ α) (s : σ) :
    (tryCatch x f) s =
      match x s with
      | (.ok a, s) => (.ok a, s)
      | (.error e, s) => f e s := by
  obtain ⟨⟨r, s'⟩, h⟩ : ∃ p, x s = p := ⟨_, rfl⟩
  rw [h]
  show (ExceptT.tryCatch x f) s = _
  simp only [ExceptT.tryCatch, ExceptT.mk, bind, StateT.bind, h]
  cases r <;> rfl

end Step

end RelStore
