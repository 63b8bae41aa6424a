import EventSchema.Workspace
import Mathlib.Data.List.Forall2

/-!
# Running computations

Reports and actions are computations with a state that may fail. `execute` runs one from a state;
the equations below say how it goes on over the steps that computations are put together from, so
that later statements are about outcomes and states and never about the layers of the monad.
-/

namespace EventSchema

universe u

variable {ε σ α β : Type u}

/-- The outcome of a computation from a state, and the state that it leaves. -/
def execute (x : ExceptT ε (StateM σ) α) (s : σ) : Except ε α × σ := x.run.run s

theorem execute_pure (a : α) (s : σ) :
    execute (pure a : ExceptT ε (StateM σ) α) s = (.ok a, s) := rfl

/-- A change of the state gives what it gives, and leaves the new state. -/
theorem execute_modifyGet (f : σ → α × σ) (s : σ) :
    execute (modifyGet f : ExceptT ε (StateM σ) α) s = (.ok (f s).1, (f s).2) := rfl

/-- A computation goes on from the outcome and the state of its first part, and stops if that
failed. -/
theorem execute_bind (x : ExceptT ε (StateM σ) α) (f : α → ExceptT ε (StateM σ) β) (s : σ) :
    execute (x >>= f) s =
      match execute x s with
      | (.ok a, t) => execute (f a) t
      | (.error e, t) => (.error e, t) := by
  simp only [execute, ExceptT.run_bind, StateT.run_bind]
  rcases x.run.run s with ⟨r, t⟩
  cases r <;> rfl

/-- What follows a success goes on from its state. -/
theorem execute_bind_ok {x : ExceptT ε (StateM σ) α} {f : α → ExceptT ε (StateM σ) β} {s t : σ}
    {a : α} (h : execute x s = (.ok a, t)) : execute (x >>= f) s = execute (f a) t := by
  rw [execute_bind, h]

/-- A computation that succeeds has a first part that succeeds. -/
theorem execute_bind_eq_ok {x : ExceptT ε (StateM σ) α} {f : α → ExceptT ε (StateM σ) β} {s : σ}
    {b : β} (h : (execute (x >>= f) s).1 = .ok b) :
    ∃ a t, execute x s = (.ok a, t) ∧ (execute (f a) t).1 = .ok b := by
  rw [execute_bind] at h
  rcases hx : execute x s with ⟨_ | a, t⟩ <;> rw [hx] at h
  · cases h
  · exact ⟨a, t, rfl, h⟩

/-- Nothing follows an error. -/
theorem execute_bind_error {x : ExceptT ε (StateM σ) α} {f : α → ExceptT ε (StateM σ) β} {s t : σ}
    {e : ε} (h : execute x s = (.error e, t)) : execute (x >>= f) s = (.error e, t) := by
  rw [execute_bind, h]

/-- A computation that fails does so in its first part or after it. -/
theorem execute_bind_eq_error {x : ExceptT ε (StateM σ) α} {f : α → ExceptT ε (StateM σ) β} {s : σ}
    {e : ε} (h : (execute (x >>= f) s).1 = .error e) :
    (∃ t, execute x s = (.error e, t)) ∨
      ∃ a t, execute x s = (.ok a, t) ∧ (execute (f a) t).1 = .error e := by
  rw [execute_bind] at h
  rcases hx : execute x s with ⟨e' | a, t⟩ <;> rw [hx] at h
  · cases h
    exact .inl ⟨t, rfl⟩
  · exact .inr ⟨a, t, rfl, h⟩

/-! ### Changes that are carried along -/

/-- A computation carries a change of the state along: from the changed state the outcome is the
same, and the state that is left is changed alike. -/
def Carries (p : σ → σ) (x : ExceptT ε (StateM σ) α) : Prop :=
  ∀ s, execute x (p s) = ((execute x s).1, p (execute x s).2)

namespace Carries

variable {p : σ → σ} {x : ExceptT ε (StateM σ) α} {f : α → ExceptT ε (StateM σ) β}

theorem pure (a : α) : Carries p (Pure.pure a : ExceptT ε (StateM σ) α) := fun _ ↦ rfl

theorem throw (e : ε) : Carries p (MonadExcept.throw e : ExceptT ε (StateM σ) α) := fun _ ↦ rfl

/-- A change of the state that two steps carry along is carried along by both. -/
theorem bind (hx : Carries p x) (hf : ∀ a, Carries p (f a)) : Carries p (x >>= f) := by
  intro s
  rw [execute_bind, execute_bind, hx s]
  rcases execute x s with ⟨_ | a, t⟩
  · rfl
  · exact hf a t

end Carries

/-! ### Outcomes alone -/

section Outcomes

variable {ε δ : Type} {α β : Type u}

/-- Two steps that succeed have succeeded one after the other. -/
theorem bind_eq_ok {x : Except ε α} {f : α → Except ε β} {b : β} (h : x >>= f = .ok b) :
    ∃ a, x = .ok a ∧ f a = .ok b := by
  rcases x with e | a
  · cases h
  · exact ⟨a, rfl, h⟩

/-- Two steps fail where the first or the second of them fails. -/
theorem bind_eq_error {x : Except ε α} {f : α → Except ε β} {e : ε} (h : x >>= f = .error e) :
    x = .error e ∨ ∃ a, x = .ok a ∧ f a = .error e := by
  rcases x with e' | a
  · cases h
    exact .inl rfl
  · exact .inr ⟨a, rfl, h⟩

/-- What succeeds has a result. -/
theorem exists_of_isOk {x : Except ε α} (h : x.isOk = true) : ∃ a, x = .ok a := by
  rcases x with e | a
  · cases h
  · exact ⟨a, rfl⟩

/-- Going through a list gives a result for each of its elements, in order. -/
theorem forall₂_of_mapM_ok {f : α → Except ε β} {as : List α} {bs : List β}
    (h : as.mapM f = .ok bs) :
    List.Forall₂ (fun a b ↦ f a = .ok b) as bs := by
  induction as generalizing bs with
  | nil =>
    cases h
    exact .nil
  | cons a as ih =>
    rw [List.mapM_cons] at h
    obtain ⟨b, hb, h⟩ := bind_eq_ok h
    obtain ⟨bs', hbs, h⟩ := bind_eq_ok h
    cases h
    exact .cons hb (ih hbs)

/-- What each result has of its element the results have of their elements, in order. -/
theorem map_eq_of_mapM_ok {γ : Type u} {f : α → Except ε β} {as : List α}
    {bs : List β} (h : as.mapM f = .ok bs) {g : β → γ} {g' : α → γ}
    (hf : ∀ a b, f a = .ok b → g b = g' a) : bs.map g = as.map g' := by
  have hall := forall₂_of_mapM_ok h
  clear h
  induction hall with
  | nil => rfl
  | cons hb _ ih => rw [List.map_cons, List.map_cons, hf _ _ hb, ih]

/-- The results of a list are those of its elements. -/
theorem mem_of_mapM_ok {f : α → Except ε β} {as : List α} {bs : List β}
    (h : as.mapM f = .ok bs) {b : β} :
    b ∈ bs ↔ ∃ a ∈ as, f a = .ok b := by
  induction as generalizing bs with
  | nil =>
    cases h
    simp
  | cons a as ih =>
    rw [List.mapM_cons] at h
    obtain ⟨b', hb, h⟩ := bind_eq_ok h
    obtain ⟨bs', hbs, h⟩ := bind_eq_ok h
    cases h
    rw [List.mem_cons, ih hbs, List.exists_mem_cons_iff, hb, Except.ok.injEq, eq_comm]

/-- Where a list succeeds, each of its elements does. -/
theorem exists_of_mapM_ok {f : α → Except ε β} {as : List α} {bs : List β} (h : as.mapM f = .ok bs)
    {a : α} (ha : a ∈ as) : ∃ b, f a = .ok b := by
  induction as generalizing bs with
  | nil => cases ha
  | cons a' as ih =>
    rw [List.mapM_cons] at h
    obtain ⟨b, hb, h⟩ := bind_eq_ok h
    obtain ⟨bs', hbs, -⟩ := bind_eq_ok h
    rcases List.mem_cons.1 ha with rfl | ha
    · exact ⟨b, hb⟩
    · exact ih hbs ha

theorem mapError_ok (f : ε → δ) (a : α) : (.ok a : Except ε α).mapError f = .ok a := rfl

/-- Renaming errors makes no success. -/
theorem mapError_eq_ok {f : ε → δ} {x : Except ε α} {a : α} (h : x.mapError f = .ok a) :
    x = .ok a := by
  rcases x with e | b
  · cases h
  · cases h
    rfl

/-- An error that was renamed comes from another one. -/
theorem mapError_eq_error {f : ε → δ} {x : Except ε α} {e : δ} (h : x.mapError f = .error e) :
    ∃ e', x = .error e' ∧ e = f e' := by
  rcases x with e' | a
  · cases h
    exact ⟨e', rfl, rfl⟩
  · cases h

end Outcomes

end EventSchema

namespace EventSchema.Reporting

variable {ε δ α : Type}

/-! ### Reports -/

/-- The outcome of a run is its outcome from the empty journal. -/
theorem outcome_eq (x : Reporting ε α) : x.outcome = execute x [] := rfl

/-- A message goes to the end of the journal. -/
theorem execute_report (level : Level) (text : String) (j : Journal) :
    execute (report level text : Reporting ε Unit) j = (.ok (), j ++ [⟨level, text⟩]) := rfl

/-- A result is given as it is and reports nothing. -/
theorem execute_ofExcept (r : Except ε α) (j : Journal) : execute (ofExcept r) j = (r, j) := rfl

/-- Renaming an error changes the result alone. -/
theorem execute_mapError (f : ε → δ) (x : Reporting ε α) (j : Journal) :
    execute (mapError f x) j = ((execute x j).1.mapError f, (execute x j).2) := rfl

/-- A computation does not look at what was reported before, and adds to it. -/
def Appends (x : Reporting ε α) : Prop := ∀ earlier : Journal, Carries (earlier ++ ·) x

namespace Appends

variable {β : Type} {x : Reporting ε α} {f : α → Reporting ε β}

/-- Such a computation may be run by itself, and its lines added afterwards. -/
theorem execute_eq (h : x.Appends) (j : Journal) :
    execute x j = (x.outcome.1, j ++ x.outcome.2) := by
  have hj : execute x (j ++ []) = (x.outcome.1, j ++ x.outcome.2) := h j []
  rwa [List.append_nil] at hj

theorem pure (a : α) : Appends (Pure.pure a : Reporting ε α) := fun _ ↦ Carries.pure a

theorem throw (e : ε) : Appends (MonadExcept.throw e : Reporting ε α) := fun _ ↦ Carries.throw e

/-- What stops at once reports nothing. -/
theorem throw_bind (e : ε) (f : α → Reporting ε β) : Appends (MonadExcept.throw e >>= f) :=
  fun _ _ ↦ rfl

theorem bind (hx : x.Appends) (hf : ∀ a, (f a).Appends) : Appends (x >>= f) :=
  fun earlier ↦ (hx earlier).bind fun a ↦ hf a earlier

theorem report (level : Level) (text : String) :
    Appends (Reporting.report level text : Reporting ε Unit) := fun earlier j ↦
  Prod.ext rfl (List.append_assoc earlier j _)

theorem ofExcept (r : Except ε α) : Appends (Reporting.ofExcept r) := fun _ _ ↦ rfl

/-- Renaming an error does not change what is reported. -/
theorem mapError {g : ε → δ} (hx : x.Appends) : Appends (Reporting.mapError g x) :=
  fun earlier j ↦ by
  rw [execute_mapError, execute_mapError, hx earlier j]

end Appends

end EventSchema.Reporting
