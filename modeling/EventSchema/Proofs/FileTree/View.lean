import EventSchema.FileTree.Basic
import EventSchema.Proofs.Tables

/-!
# What stands in a file tree

A file tree is seen through its view: what stands at each trail, a file with its text or a
directory. The view does not show in which order the entries of a directory came in. Everything that
stands lies in directories (`view_of_append`).

`put` and `remove` change the view at and below one trail and nowhere else.
-/

namespace EventSchema

/-- What can stand at a trail. -/
inductive Standing where
  /-- A file with its text. -/
  | file (text : String)
  /-- A directory. -/
  | dir
  deriving DecidableEq

namespace FileTree

variable {t u new : FileTree} {n : String} {p q trail : List String} {es : List (String × FileTree)}

/-- What a tree itself is. -/
def standing : FileTree → Standing
  | .file text => .file text
  | .dir _ => .dir

/-- What stands at a trail. -/
def view (t : FileTree) (trail : List String) : Option Standing := (t.get? trail).map standing

/-! ### Looking along a trail -/

@[simp] theorem get?_nil (t : FileTree) : t.get? [] = some t := by
  cases t <;> rfl

theorem get?_dir_cons (es : List (String × FileTree)) (n : String) (q : List String) :
    (FileTree.dir es).get? (n :: q) = (Entries.get? es n).bind fun t ↦ t.get? q := by
  rw [get?]
  cases Entries.get? es n <;> rfl

/-- What stands at a trail is had step by step. -/
theorem get?_append (t : FileTree) (p q : List String) :
    t.get? (p ++ q) = (t.get? p).bind fun u ↦ u.get? q := by
  induction p generalizing t with
  | nil => simp
  | cons n p ih =>
    cases t with
    | file text => rfl
    | dir es =>
      rw [List.cons_append, get?_dir_cons, get?_dir_cons, Option.bind_assoc]
      exact congrArg _ (funext ih)

@[simp] theorem view_nil (t : FileTree) : t.view [] = some t.standing := by
  rw [view, get?_nil]
  rfl

@[simp] theorem view_file_cons {text : String} : (FileTree.file text).view (n :: q) = none := rfl

theorem view_dir_cons (es : List (String × FileTree)) (n : String) (q : List String) :
    (FileTree.dir es).view (n :: q) = (Entries.get? es n).bind fun t ↦ t.view q := by
  rw [view, get?_dir_cons, Option.map_bind]
  rfl

/-- Below a trail stands what the entry at its end holds. -/
theorem view_append_of_get? (h : t.get? p = some u) (q : List String) :
    t.view (p ++ q) = u.view q := by
  rw [view, get?_append, h]
  rfl

/-- Nothing is seen at a trail exactly if nothing stands there. -/
theorem view_eq_none_iff : t.view p = none ↔ t.get? p = none := Option.map_eq_none_iff

/-- A directory is seen at a trail exactly if one stands there. -/
theorem view_eq_dir_iff : t.view p = some .dir ↔ ∃ es, t.get? p = some (.dir es) := by
  rw [view]
  cases t.get? p with
  | none => simp
  | some u => cases u <;> simp [standing]

/-- A file is seen at a trail exactly if it stands there. -/
theorem view_eq_file_iff {text : String} : t.view p = some (.file text) ↔
    t.get? p = some (.file text) := by
  rw [view]
  cases t.get? p with
  | none => simp
  | some u => cases u <;> simp [standing]

/-- What stands lies in directories. -/
theorem view_of_append (h : t.view (p ++ q) ≠ none) (hq : q ≠ []) : t.view p = some .dir := by
  obtain ⟨n, q, rfl⟩ := List.exists_cons_of_ne_nil hq
  rw [ne_eq, view_eq_none_iff, get?_append] at h
  cases hp : t.get? p with
  | none => exact absurd (by rw [hp]; rfl) h
  | some u =>
    cases u with
    | file text => exact absurd (by rw [hp]; rfl) h
    | dir es => rw [view, hp]; rfl

/-- Nothing stands below what is no directory. -/
theorem view_append_eq_none (h : t.view p ≠ some .dir) (hq : q ≠ []) : t.view (p ++ q) = none :=
  Decidable.not_not.1 fun hne ↦ h (view_of_append hne hq)

/-- Nothing stands below a trail at which nothing stands. -/
theorem view_eq_none_below (h : t.view p = none) (hpq : p <+: q) : t.view q = none := by
  obtain ⟨s, rfl⟩ := hpq
  by_cases hs : s = []
  · rwa [hs, List.append_nil]
  · exact view_append_eq_none (by simp [h]) hs

/-! ### Changing one place -/

/-- Putting something below a directory changes the entry on the way alone. -/
theorem put_cons (new : FileTree) (n : String) (es : List (String × FileTree))
    (htrail : trail ≠ []) :
    put new (n :: trail) (.dir es) =
      ((Entries.get? es n).map fun t ↦ .dir (Entries.put es n (put new trail t))).getD
        (.dir es) := by
  obtain ⟨m, trail, rfl⟩ := List.exists_cons_of_ne_nil htrail
  rw [put]
  cases Entries.get? es n <;> rfl

/-- Removing something below a directory changes the entry on the way alone. -/
theorem remove_cons (n : String) (es : List (String × FileTree)) (htrail : trail ≠ []) :
    remove (n :: trail) (.dir es) =
      ((Entries.get? es n).map fun t ↦ .dir (Entries.put es n (remove trail t))).getD
        (.dir es) := by
  obtain ⟨m, trail, rfl⟩ := List.exists_cons_of_ne_nil htrail
  rw [remove]
  cases Entries.get? es n <;> rfl

/-- An entry that is put into a directory is seen under its name. -/
theorem view_dir_put (es : List (String × FileTree)) (n m : String)
    (t : FileTree) (q : List String) :
    (FileTree.dir (Entries.put es n t)).view (m :: q) =
      if n = m then t.view q else (FileTree.dir es).view (m :: q) := by
  rw [view_dir_cons, view_dir_cons, Entries.get?_put]
  split <;> rfl

/-- An entry that is erased is gone, and the others stay. -/
theorem get?_erase (es : List (String × FileTree)) (n m : String) :
    Entries.get? (Entries.erase es n) m = if n = m then none else Entries.get? es m := by
  induction es with
  | nil => simp [Entries.erase]
  | cons e es ih =>
    obtain ⟨k, t⟩ := e
    have herase : Entries.erase ((k, t) :: es) n =
        if k = n then Entries.erase es n else (k, t) :: Entries.erase es n := by
      by_cases hk : k = n <;> simp [Entries.erase, hk]
    rw [herase, Entries.get?_cons]
    by_cases hk : k = n
    · rw [if_pos hk, ih, hk]
      split <;> rfl
    · rw [if_neg hk, Entries.get?_cons, ih]
      by_cases hkm : k = m
      · rw [if_pos hkm, if_pos hkm, if_neg fun hnm ↦ hk (hkm.trans hnm.symm)]
      · rw [if_neg hkm, if_neg hkm]

/-- Something stands where it was put, if the directory for it is there. -/
theorem get?_put_self (h : t.view p = some .dir) (n : String) :
    (put new (p ++ [n]) t).get? (p ++ [n]) = some new := by
  induction p generalizing t with
  | nil =>
    obtain ⟨es, hes⟩ := view_eq_dir_iff.1 h
    obtain rfl : t = .dir es := Option.some.inj ((get?_nil t).symm.trans hes)
    simp [put, get?, Entries.get?_put]
  | cons m p ih =>
    cases t with
    | file text => cases h
    | dir es =>
      rw [view_dir_cons] at h
      obtain ⟨u, hu, h⟩ := Option.bind_eq_some_iff.1 h
      rw [List.cons_append, put_cons _ _ _ (by simp), hu]
      simp only [Option.map_some, Option.getD_some]
      rw [get?_dir_cons, Entries.get?_put, if_pos rfl]
      exact ih h

/-- What is put into a directory is seen there with all that it holds. -/
theorem view_put_append (h : t.view p = some .dir) (n : String) (q : List String) :
    (put new (p ++ [n]) t).view (p ++ [n] ++ q) = new.view q :=
  view_append_of_get? (get?_put_self h n) q

/-- Nothing stands at or below a place that was cleared. -/
theorem view_remove_append (hp : p ≠ []) (q : List String) : (remove p t).view (p ++ q) = none := by
  induction p generalizing t with
  | nil => exact absurd rfl hp
  | cons n p ih =>
    cases t with
    | file text => simp [remove]
    | dir es =>
      by_cases hnil : p = []
      · rw [hnil, remove, List.cons_append, view_dir_cons, get?_erase, if_pos rfl]
        rfl
      · rw [remove_cons _ _ hnil, List.cons_append]
        cases hu : Entries.get? es n with
        | none =>
          rw [Option.map_none, Option.getD_none, view_dir_cons, hu]
          rfl
        | some u =>
          rw [Option.map_some, Option.getD_some, view_dir_put, if_pos rfl]
          exact ih hnil

/-- A change of a tree that goes down along a trail, and changes the entry at its end alone. -/
structure IsLocal (change : List String → FileTree → FileTree) : Prop where
  file : ∀ n p text, change (n :: p) (.file text) = .file text
  single : ∀ n es, ∃ es', change [n] (.dir es) = .dir es' ∧
    ∀ m, n ≠ m → Entries.get? es' m = Entries.get? es m
  cons : ∀ n p es, p ≠ [] → change (n :: p) (.dir es) =
    ((Entries.get? es n).map fun t ↦ .dir (Entries.put es n (change p t))).getD (.dir es)

/-- Such a change leaves all as it is but at and below the trail. -/
theorem IsLocal.view_elsewhere {change : List String → FileTree → FileTree}
    (hchange : IsLocal change) (h : ¬ p <+: q) : (change p t).view q = t.view q := by
  induction p generalizing t q with
  | nil => exact absurd List.nil_prefix h
  | cons n p ih =>
    cases t with
    | file text => rw [hchange.file]
    | dir es =>
      by_cases hp : p = []
      · obtain ⟨es', hes', hother⟩ := hchange.single n es
        rw [hp, hes']
        cases q with
        | nil => simp [standing]
        | cons m q =>
          have hnm : n ≠ m := fun hnm ↦ h (by simp [hp, hnm])
          rw [view_dir_cons, view_dir_cons, hother m hnm]
      · rw [hchange.cons _ _ _ hp]
        cases hu : Entries.get? es n with
        | none => rfl
        | some u =>
          rw [Option.map_some, Option.getD_some]
          cases q with
          | nil => simp [standing]
          | cons m q =>
            rw [view_dir_put]
            split
            · next hnm =>
              rw [ih fun hpq ↦ h (List.cons_prefix_cons.2 ⟨hnm, hpq⟩), view_dir_cons, ← hnm, hu]
              rfl
            · rfl

/-- Putting something at a trail is a change at its end alone. -/
theorem isLocal_put (new : FileTree) : IsLocal (put new) where
  file _ _ _ := by rw [put]
  single n es := ⟨_, by rw [put], fun m hnm ↦ by rw [Entries.get?_put, if_neg hnm]⟩
  cons n _ es hp := put_cons new n es hp

/-- Removing what stands at a trail is a change at its end alone. -/
theorem isLocal_remove : IsLocal remove where
  file _ _ _ := by rw [remove]
  single n es := ⟨_, by rw [remove], fun m hnm ↦ by rw [get?_erase, if_neg hnm]⟩
  cons n _ es hp := remove_cons n es hp

end FileTree

end EventSchema
