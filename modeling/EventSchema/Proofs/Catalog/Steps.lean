import EventSchema.Catalog.Inclusion
import EventSchema.Proofs.Computation

/-!
# Steps over included files

Resolving includes is made of steps that remember files and come to something. `Gives` says that a
step keeps a property of all files that are remembered and that what it comes to has a property, if
it comes to anything. It is closed under the ways in which steps are put together.
-/

namespace EventSchema.Catalog

variable {I : IncludedFile → Prop} {file : IncludedFile}

/-- A step that keeps a property of the files that are remembered, and what it comes to has a
property. -/
def Gives {α : Type} (I : IncludedFile → Prop) (Q : α → Prop) (x : InclusionM α) : Prop :=
  ∀ s j a s', (∀ f ∈ s.files, I f) → (execute (x.run s) j).1 = .ok (a, s') →
  (∀ f ∈ s'.files, I f) ∧ Q a

namespace Gives

variable {α β : Type} {x : InclusionM α} {f : α → InclusionM β}
  {Q : α → Prop} {R : β → Prop} {a : α}

theorem pure (ha : Q a) : Gives I Q (Pure.pure a) := fun s j b s' hs h ↦ by
  cases h
  exact ⟨hs, ha⟩

theorem fail (e : CatalogError) : Gives I Q (InclusionM.fail e) := fun s j b s' _ h ↦ by
  cases h

theorem lift {r : Except CatalogError α} (hr : ∀ a, r = .ok a → Q a) :
    Gives I Q (liftM (Reporting.ofExcept r) : InclusionM α) := fun s j b s' hs h ↦ by
  cases r with
  | ok b =>
    cases h
    exact ⟨hs, hr b rfl⟩
  | error e => cases h

theorem onPool {y : StateM Pool α} (h : ∀ pool, Q (y.run pool).1) :
    Gives I Q (InclusionM.onPool y) :=
  fun s j b s' hs h' ↦ by
    cases h'
    exact ⟨hs, h s.pool⟩

theorem get : Gives I (fun s ↦ ∀ f ∈ s.files, I f) (MonadState.get : InclusionM Includes) :=
  fun s j b s' hs h ↦ by
    cases h
    exact ⟨hs, hs⟩

theorem add (hfile : I file) :
    Gives I (fun _ ↦ True)
      (modifyThe Includes fun s ↦ { s with files := s.files ++ [file] } : InclusionM Unit) :=
  fun s j b s' hs h ↦ by
    cases h
    exact ⟨List.forall_mem_append.2 ⟨hs, List.forall_mem_singleton.2 hfile⟩, trivial⟩

theorem warn (text : String) : Gives I (fun _ ↦ True) (InclusionM.warn text) :=
  fun s j b s' hs h ↦ by
  cases h
  exact ⟨hs, trivial⟩

theorem bind (hx : Gives I Q x) (hf : ∀ a, Q a → Gives I R (f a)) : Gives I R (x >>= f) :=
  fun s j b s' hs h ↦ by
    obtain ⟨⟨a, t⟩, j', hrun, h⟩ := execute_bind_eq_ok h
    obtain ⟨ht, ha⟩ := hx s j a t hs (congrArg Prod.fst hrun)
    exact hf a ha t j' b s' ht h

theorem mono (hx : Gives I Q x) {R : α → Prop} (h : ∀ a, Q a → R a) : Gives I R x :=
  fun s j a s' hs hrun ↦
  (hx s j a s' hs hrun).imp_right (h a)

theorem mapM {S : α → β → Prop} {as : List α} (hf : ∀ a ∈ as, Gives I (S a) (f a)) :
    Gives I (List.Forall₂ S as) (as.mapM f) := by
  induction as with
  | nil => exact .pure .nil
  | cons a as ih =>
    rw [List.mapM_cons]
    exact (hf a List.mem_cons_self).bind fun b hb ↦
      (ih fun a' ha' ↦ hf a' (List.mem_cons_of_mem a ha')).bind fun bs hbs ↦ .pure (.cons hb hbs)

theorem forM {f : α → InclusionM PUnit} {as : List α}
    (hf : ∀ a ∈ as, Gives I (fun _ ↦ True) (f a)) :
    Gives I (fun _ ↦ True) (as.forM f) := by
  induction as with
  | nil => exact .pure trivial
  | cons a as ih =>
    exact (hf a List.mem_cons_self).bind fun _ _ ↦ ih fun a' ha' ↦
      hf a' (List.mem_cons_of_mem a ha')

end Gives

end EventSchema.Catalog
