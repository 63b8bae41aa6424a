import EventSchema.Proofs.Catalog.Keys
import EventSchema.Proofs.Catalog.Regrouping
import Mathlib.Data.List.Perm.Subperm

/-!
# Asking for entities

Entities are asked for one after another. What was worked out is kept, and a failure keeps nothing,
so each answer is the one that would be given if nothing had been asked for before (`answers_eq`).

An answer is settled by the walk from its name along the ancestors that definitions name
(`ancestorAt`). The walk comes back to a name, or it leaves the definitions, or it ends in a
definition without an ancestor, and these exclude each other. The first two are the failures of a
walk, and where it ends the attributes of the parent are overlaid with those of the definition
itself (`answers_along_ancestry`).
-/

namespace EventSchema

variable {definitions : Table Definition} {categories : Table Uid}
  {names walk : List String} {n m : String} {d : Definition} {x : LineageError}
  {e parent : Entity} {k : Nat}

/-! ### The ancestors of a name -/

/-- The name that stands some steps above a name. The walk goes on as long as its names are defined
and their definitions have an ancestor, and its last name need not be defined. -/
def ancestorAt (definitions : Table Definition) (n : String) : Nat → Option String
  | 0 => some n
  | k + 1 => (ancestorAt definitions n k).bind fun m ↦ (definitions.get? m).bind Definition.ancestor

/-- The walk from a name comes to some name twice. -/
def ComesBack (definitions : Table Definition) (n : String) : Prop :=
  ∃ i j m, i < j ∧ ancestorAt definitions n i = some m ∧ ancestorAt definitions n j = some m

/-- The walk from a name comes to a name that is not defined. -/
def LeavesDefinitions (definitions : Table Definition) (n : String) : Prop :=
  ∃ k m, ancestorAt definitions n k = some m ∧ definitions.get? m = none

/-- A definition that a name leads to extends a name that is not defined. -/
def ExtendsUndefined (definitions : Table Definition) (n : String) (d : Definition)
    (ancestor : String) : Prop :=
  ∃ k m, ancestorAt definitions n k = some m ∧ definitions.get? m = some d ∧
    d.ancestor = some ancestor ∧ definitions.get? ancestor = none

/-- The next name of a walk is the ancestor of the last one. -/
theorem ancestorAt_succ (hm : ancestorAt definitions n k = some m) :
    ancestorAt definitions n (k + 1) = (definitions.get? m).bind Definition.ancestor := by
  rw [ancestorAt, hm, Option.bind_some]

/-- A walk may be continued from any of its names. -/
theorem ancestorAt_add (definitions : Table Definition) (n : String) (i t : Nat) :
    ancestorAt definitions n (i + t) = (ancestorAt definitions n i).bind fun m ↦
      ancestorAt definitions m t := by
  induction t with
  | zero => exact (Option.bind_fun_some _).symm
  | succ t ih =>
    rw [Nat.add_succ, ancestorAt, ih, Option.bind_assoc]
    rfl

/-- A walk that has ended does not go on. -/
theorem ancestorAt_eq_none_of_le {i : Nat} (hi : ancestorAt definitions n i = none) (hik : i ≤ k) :
    ancestorAt definitions n k = none := by
  obtain ⟨t, rfl⟩ := Nat.exists_eq_add_of_le hik
  rw [ancestorAt_add, hi, Option.bind_none]

/-- A walk that comes back goes on forever. -/
theorem ComesBack.ancestorAt_ne_none (h : ComesBack definitions n) (k : Nat) :
    ancestorAt definitions n k ≠ none := by
  obtain ⟨i, j, m, hij, hi, hj⟩ := h
  induction k using Nat.strongRecOn with
  | _ k ih =>
    intro hk
    rcases Nat.lt_or_ge k j with hlt | hge
    · cases hj.symm.trans (ancestorAt_eq_none_of_le hk (Nat.le_of_lt hlt))
    -- from the second time on the walk is as it was from the first time on
    · obtain ⟨t, rfl⟩ := Nat.exists_eq_add_of_le hge
      refine ih (i + t) (Nat.add_lt_add_right hij t) ?_
      rw [ancestorAt_add, hi, ← hj, ← ancestorAt_add, hk]

/-- The walk from a name ends after some steps, at a name that has no ancestor or no definition. -/
structure EndsAt (definitions : Table Definition) (n : String) (k : Nat) (m : String) : Prop where
  comesTo : ancestorAt definitions n k = some m
  last : (definitions.get? m).bind Definition.ancestor = none

/-- A walk ends at a name that is not defined. -/
theorem endsAt_of_undefined (hm : ancestorAt definitions n k = some m)
    (h : definitions.get? m = none) :
    EndsAt definitions n k m := ⟨hm, by rw [h, Option.bind_none]⟩

/-- A walk ends at a definition without an ancestor. -/
theorem endsAt_of_root (hm : ancestorAt definitions n k = some m) (hd : definitions.get? m = some d)
    (hroot : d.ancestor = none) : EndsAt definitions n k m :=
  ⟨hm, by rw [hd, Option.bind_some, hroot]⟩

namespace EndsAt

variable {k' : Nat} {m' : String}

/-- No name stands behind the end of a walk. -/
theorem ancestorAt_eq_none (h : EndsAt definitions n k m) (hk : k < k') :
    ancestorAt definitions n k' = none :=
  ancestorAt_eq_none_of_le ((ancestorAt_succ h.comesTo).trans h.last) hk

/-- A walk that ends comes to no name twice. -/
theorem not_comesBack (h : EndsAt definitions n k m) : ¬ ComesBack definitions n := fun hback ↦
  hback.ancestorAt_ne_none (k + 1) (h.ancestorAt_eq_none (Nat.lt_succ_self k))

/-- A walk has one end. -/
theorem unique (h : EndsAt definitions n k m) (h' : EndsAt definitions n k' m') :
    k = k' ∧ m = m' := by
  rcases Nat.lt_trichotomy k k' with hlt | rfl | hgt
  · cases h'.comesTo.symm.trans (h.ancestorAt_eq_none hlt)
  · exact ⟨rfl, Option.some.inj (h.comesTo.symm.trans h'.comesTo)⟩
  · cases h.comesTo.symm.trans (h'.ancestorAt_eq_none hgt)

end EndsAt

/-! ### What a lineage is worked out with -/

/-- A walk under way: the names that were seen and the next one are the first ancestors of its
origin, none of the former twice, and their definitions were found. -/
structure Walked (definitions : Table Definition) (origin : String) (walk : List String)
    (below : List Definition) (n : String) : Prop where
  nodup : walk.Nodup
  follows : ∀ i ≤ walk.length, ancestorAt definitions origin i = (walk ++ [n])[i]?
  found : List.Forall₂ (fun m d ↦ definitions.get? m = some d) walk.reverse below

namespace Walked

variable {origin : String} {below : List Definition}

theorem start (definitions : Table Definition) (n : String) : Walked definitions n [] [] n where
  nodup := .nil
  follows i hi := by
    obtain rfl := Nat.le_zero.1 hi
    rfl
  found := .nil

/-- The next name of a walk stands as many steps up as names were seen. -/
theorem ancestorAt_length (h : Walked definitions origin walk below n) :
    ancestorAt definitions origin walk.length = some n := by
  rw [h.follows _ (Nat.le_refl _), List.getElem?_concat_length]

/-- A walk goes on to the ancestor of a definition that it did not see before. -/
theorem step (h : Walked definitions origin walk below n) (hn : n ∉ walk)
    (hd : definitions.get? n = some d) (hm : d.ancestor = some m) :
    Walked definitions origin (walk ++ [n]) (d :: below) m where
  nodup := List.nodup_append.2 ⟨h.nodup, by simp, fun a ha b hb ↦ by
    rw [List.mem_singleton.1 hb]
    exact fun heq ↦ hn (heq ▸ ha)⟩
  follows i hi := by
    rw [List.length_append, List.length_singleton] at hi
    rcases Nat.lt_or_ge walk.length i with hlt | hle
    · obtain rfl : i = walk.length + 1 := Nat.le_antisymm hi hlt
      rw [ancestorAt_succ h.ancestorAt_length, hd, Option.bind_some, hm]
      exact (by simp : ((walk ++ [n]) ++ [m])[walk.length + 1]? = some m).symm
    · have hlt : i < (walk ++ [n]).length := by
        rw [List.length_append, List.length_singleton]
        exact Nat.lt_succ_of_le hle
      rw [h.follows i hle, List.getElem?_append_left hlt]
  found := by
    rw [List.reverse_append, List.reverse_singleton, List.singleton_append]
    exact .cons hd h.found

/-- A walk sees no more names than there are definitions. -/
theorem length_le (h : Walked definitions origin walk below n) :
    walk.length ≤ definitions.size := by
  have hdefined : walk ⊆ definitions.names := by
    intro m hm
    obtain ⟨i, hi, hget⟩ := List.getElem_of_mem (List.mem_reverse.2 hm)
    have hbelow : i < below.length := h.found.length_eq ▸ hi
    have hfound := h.found.get hi hbelow
    rw [List.get_eq_getElem, hget] at hfound
    exact Table.mem_names_iff.2 ⟨_, hfound⟩
  have hlength := (List.subperm_of_subset h.nodup hdefined).length_le
  rwa [Table.names, Entries.names, List.length_map] at hlength

/-- The definition that was found last is that of the name before the next one, which it extends. -/
theorem last (h : Walked definitions origin walk (d :: below) n) :
    ∃ k m, ancestorAt definitions origin k = some m ∧ definitions.get? m = some d ∧
    d.ancestor = some n := by
  rcases walk.eq_nil_or_concat with rfl | ⟨earlier, m, rfl⟩
  · cases h.found
  · rw [List.concat_eq_append] at h
    have hfound := h.found
    rw [List.reverse_append, List.reverse_singleton, List.singleton_append,
      List.forall₂_cons] at hfound
    have hm : ancestorAt definitions origin earlier.length = some m := by
      rw [h.follows _ (by simp), List.append_assoc, List.getElem?_append_right (Nat.le_refl _)]
      simp
    have hn := h.ancestorAt_length
    rw [List.length_append, List.length_singleton, ancestorAt_succ hm, hfound.1,
      Option.bind_some] at hn
    exact ⟨_, m, hm, hfound.1, hn⟩

end Walked

/-- The names up to the first one that the walk from a name comes back to, which is the last of
them. -/
def ComesBackAlong (definitions : Table Definition) (n : String) (walk : List String) : Prop :=
  ∃ seen m, walk = seen ++ [m] ∧ seen.Nodup ∧ m ∈ seen ∧ ∀ i ≤ seen.length,
  ancestorAt definitions n i = walk[i]?

/-- A walk that comes back along some names comes back. -/
theorem ComesBackAlong.comesBack (h : ComesBackAlong definitions n walk) :
    ComesBack definitions n := by
  obtain ⟨seen, m, rfl, -, hm, hwalk⟩ := h
  obtain ⟨i, hi, rfl⟩ := List.getElem_of_mem hm
  refine ⟨i, seen.length, seen[i], hi, ?_, ?_⟩
  · rw [hwalk i (Nat.le_of_lt hi), List.getElem?_append_left hi, List.getElem?_eq_getElem hi]
  · rw [hwalk _ (Nat.le_refl _), List.getElem?_concat_length]

/-- How a walk can end, and what its lineage is then. -/
inductive WalkOutcome (definitions : Table Definition) (n : String) :
    Except LineageError (List Definition) → Prop
  /-- It comes back to a name. -/
  | comesBack (walk : List String) (h : ComesBackAlong definitions n walk) :
    WalkOutcome definitions n (.error (.cyclic walk))
  /-- There is no definition to begin with. -/
  | undefined (h : definitions.get? n = none) : WalkOutcome definitions n (.error (.undefined n))
  /-- A definition extends a name that is not defined. -/
  | ancestorUndefined (d : Definition) (ancestor : String)
      (h : ExtendsUndefined definitions n d ancestor) :
    WalkOutcome definitions n (.error (.ancestorUndefined d.kind d.name ancestor))
  /-- It ends in a definition without an ancestor. -/
  | root (k : Nat) (m : String) (d : Definition) (chain : List Definition)
    (hm : ancestorAt definitions n k = some m) (hd : definitions.get? m = some d)
    (hroot : d.ancestor = none) :
    WalkOutcome definitions n (.ok chain)

/-- A walk under way ends as one from its origin, if enough fuel is left. -/
theorem Walked.outcome {origin : String} {fuel : Nat} {below : List Definition}
    (h : Walked definitions origin walk below n) (hfuel : definitions.size < fuel + walk.length) :
    WalkOutcome definitions origin (lineageFrom definitions origin fuel walk below n) := by
  induction fuel generalizing walk below n with
  | zero => exact absurd h.length_le (by omega)
  | succ fuel ih =>
    unfold lineageFrom
    by_cases hseen : n ∈ walk
    · rw [if_pos (List.contains_iff_mem.2 hseen)]
      exact .comesBack _ ⟨walk, n, rfl, h.nodup, hseen, h.follows⟩
    · rw [if_neg fun hcontains ↦ hseen (List.contains_iff_mem.1 hcontains)]
      cases hn : definitions.get? n with
      | none =>
        cases below with
        | nil =>
          -- nothing was found, so the walk is at its origin
          obtain rfl : walk = [] := List.reverse_eq_nil_iff.1 (List.forall₂_nil_right_iff.1 h.found)
          obtain rfl : origin = n := Option.some.inj h.ancestorAt_length
          exact .undefined hn
        | cons d below =>
          obtain ⟨k, m, hm, hd, hancestor⟩ := h.last
          exact .ancestorUndefined d n ⟨k, m, hm, hd, hancestor, hn⟩
      | some d =>
        cases hancestor : d.ancestor with
        | none =>
          dsimp only
          rw [hancestor]
          exact .root walk.length n d _ h.ancestorAt_length hn hancestor
        | some ancestor =>
          dsimp only
          rw [hancestor]
          refine ih (h.step hseen hn hancestor) ?_
          rw [List.length_append, List.length_singleton]
          omega

/-- The fuel of a lineage suffices, whatever the definitions extend. -/
theorem walkOutcome_lineage (definitions : Table Definition) (n : String) :
    WalkOutcome definitions n (lineage definitions n) :=
  (Walked.start definitions n).outcome (Nat.lt_succ_self _)

/-! ### The failures of a walk -/

/-- Whether a failure is one of a walk. -/
def LineageError.isOfWalk : LineageError → Bool
  | .cyclic _ => true
  | .undefined _ => true
  | .ancestorUndefined _ _ _ => true
  | _ => false

/-- A circle is reported with the names up to the first one that is seen again. -/
theorem comesBackAlong_of_lineage (h : lineage definitions n = .error (.cyclic walk)) :
    ComesBackAlong definitions n walk := by
  have houtcome := walkOutcome_lineage definitions n
  rw [h] at houtcome
  cases houtcome with
  | comesBack walk hwalk => exact hwalk

/-- A definition that extends an undefined name is the last one of its walk. -/
theorem ExtendsUndefined.endsAt {ancestor : String}
    (h : ExtendsUndefined definitions n d ancestor) :
    ∃ k m, EndsAt definitions n (k + 1) ancestor ∧ ancestorAt definitions n k = some m ∧
      definitions.get? m = some d := by
  obtain ⟨k, m, hm, hd, hancestor, hmissing⟩ := h
  refine ⟨k, m, endsAt_of_undefined ?_ hmissing, hm, hd⟩
  rw [ancestorAt_succ hm, hd, Option.bind_some, hancestor]

/-- A lineage is cyclic exactly if the walk comes back. -/
theorem lineage_cyclic_iff : (∃ walk, lineage definitions n = .error (.cyclic walk)) ↔
    ComesBack definitions n := by
  constructor
  · rintro ⟨walk, hwalk⟩
    exact (comesBackAlong_of_lineage hwalk).comesBack
  · intro h
    have houtcome := walkOutcome_lineage definitions n
    generalize lineage definitions n = r at houtcome
    cases houtcome with
    | comesBack walk => exact ⟨walk, rfl⟩
    | undefined hn => exact absurd h (endsAt_of_undefined (k := 0) rfl hn).not_comesBack
    | ancestorUndefined d ancestor hextends =>
      obtain ⟨k, m, hend, -⟩ := hextends.endsAt
      exact absurd h hend.not_comesBack
    | root k m d chain hm hd hroot => exact absurd h (endsAt_of_root hm hd hroot).not_comesBack

/-- A walk may come back to a name other than the one that it began with. -/
example : lineage (.ofList [("logon", { (default : Definition) with ancestor := some "session" }),
    ("session", { (default : Definition) with ancestor := some "activity" }),
    ("activity", { (default : Definition) with ancestor := some "session" })]) "logon" =
      .error (.cyclic ["logon", "session", "activity", "session"]) := rfl

/-- The undefined name of a lineage is the one that is asked for, and has no definition. -/
theorem lineage_undefined_iff : lineage definitions n = .error (.undefined m) ↔
    m = n ∧ definitions.get? n = none := by
  constructor
  · intro h
    have houtcome := walkOutcome_lineage definitions n
    rw [h] at houtcome
    cases houtcome with
    | undefined hn => exact ⟨rfl, hn⟩
  · rintro ⟨rfl, hm⟩
    rw [lineage]
    unfold lineageFrom
    rw [hm]
    rfl

/-- An ancestor is undefined exactly if a definition on the walk extends it. -/
theorem lineage_ancestorUndefined_iff {kind : EntityKind} {child ancestor : String} :
    lineage definitions n = .error (.ancestorUndefined kind child ancestor) ↔
      ∃ d, ExtendsUndefined definitions n d ancestor ∧ d.kind = kind ∧ d.name = child := by
  constructor
  · intro h
    have houtcome := walkOutcome_lineage definitions n
    rw [h] at houtcome
    cases houtcome with
    | ancestorUndefined d ancestor hextends => exact ⟨d, hextends, rfl, rfl⟩
  · rintro ⟨d, hextends, rfl, rfl⟩
    obtain ⟨k, m, hend, hm, hd⟩ := hextends.endsAt
    have houtcome := walkOutcome_lineage definitions n
    generalize lineage definitions n = r at houtcome
    cases houtcome with
    | comesBack walk h => exact absurd h.comesBack hend.not_comesBack
    | undefined hn => cases (hend.unique (endsAt_of_undefined (k := 0) rfl hn)).1
    | ancestorUndefined d' ancestor' hextends' =>
      obtain ⟨k', m', hend', hm', hd'⟩ := hextends'.endsAt
      obtain ⟨hk, rfl⟩ := hend.unique hend'
      obtain rfl : k = k' := Nat.succ.inj hk
      obtain rfl : m = m' := Option.some.inj (hm.symm.trans hm')
      rw [Option.some.inj (hd.symm.trans hd')]
    | root k' m' d' chain hm' hd' hroot =>
      obtain ⟨-, rfl⟩ := hend.unique (endsAt_of_root hm' hd' hroot)
      obtain ⟨-, -, -, -, -, hmissing⟩ := hextends
      cases hmissing.symm.trans hd'

/-- A lineage leaves the definitions exactly if its walk does. -/
theorem lineage_leaves_iff :
    ((∃ m, lineage definitions n = .error (.undefined m)) ∨
      ∃ kind child ancestor,
        lineage definitions n = .error (.ancestorUndefined kind child ancestor)) ↔
        LeavesDefinitions definitions n := by
  constructor
  · rintro (⟨m, h⟩ | ⟨kind, child, ancestor, h⟩)
    · exact ⟨0, n, rfl, (lineage_undefined_iff.1 h).2⟩
    · obtain ⟨d, hextends, -, -⟩ := lineage_ancestorUndefined_iff.1 h
      obtain ⟨k, m, hend, -⟩ := hextends.endsAt
      obtain ⟨-, -, -, -, -, hmissing⟩ := hextends
      exact ⟨k + 1, ancestor, hend.comesTo, hmissing⟩
  · rintro ⟨k, m, hm, hmissing⟩
    have hend := endsAt_of_undefined hm hmissing
    have houtcome := walkOutcome_lineage definitions n
    generalize lineage definitions n = r at houtcome
    cases houtcome with
    | comesBack walk h => exact absurd h.comesBack hend.not_comesBack
    | undefined hn => exact .inl ⟨n, rfl⟩
    | ancestorUndefined d ancestor hextends => exact .inr ⟨_, _, _, rfl⟩
    | root k' m' d chain hm' hd hroot =>
      obtain ⟨-, rfl⟩ := hend.unique (endsAt_of_root hm' hd hroot)
      cases hmissing.symm.trans hd

/-! ### The failures of an entity -/

/-- What fails while a category is looked up is no failure of the walk. -/
theorem isOfWalk_of_categoryUid {event : String} {category : Json}
    (h : categoryUid categories event category = .error x) : x.isOfWalk = false := by
  unfold categoryUid at h
  split at h
  · cases h
  · rcases bind_eq_error h with h | ⟨found, -, h⟩
    · obtain ⟨y, -, rfl⟩ := mapError_eq_error h
      rfl
    · cases found with
      | none => cases h; rfl
      | some name =>
        dsimp only at h
        split at h <;> cases h
        rfl

/-- What fails while an event class is numbered is no failure of the walk. -/
theorem isOfWalk_of_eventUids {chain : List Definition}
    (h : eventUids categories chain d = .error x) :
    x.isOfWalk = false := by
  unfold eventUids at h
  dsimp only at h
  split at h
  · split at h <;> cases h
    rfl
  · rcases bind_eq_error h with h | ⟨category, -, h⟩
    · exact isOfWalk_of_categoryUid h
    · cases huid : d.uid with
      | none => rw [huid] at h; cases h
      | some own =>
        rw [huid] at h
        rcases bind_eq_error h with h | ⟨uid, -, h⟩
        · unfold scopedUid at h
          split at h <;> cases h
          rfl
        · cases h

/-- Once there is a lineage, no failure is one of a walk. -/
theorem isOfWalk_of_ofLineage {chain : List Definition}
    (h : Entity.ofLineage categories chain d = .error x) :
    x.isOfWalk = false := by
  unfold Entity.ofLineage at h
  cases hkind : d.kind with
  | event =>
    rw [hkind] at h
    rcases bind_eq_error h with h | ⟨uids, -, h⟩
    · exact isOfWalk_of_eventUids h
    · cases h
  | object =>
    rw [hkind] at h
    rcases bind_eq_error h with h | ⟨uids, -, h⟩ <;> cases h

/-- An entity fails as a walk does if and only if its lineage fails so. -/
theorem ofName_eq_error_iff (hx : x.isOfWalk = true) :
    Entity.ofName definitions categories n = .error x ↔ lineage definitions n = .error x := by
  constructor
  · intro h
    rcases bind_eq_error h with h | ⟨chain, hchain, h⟩
    · exact h
    · obtain ⟨ancestors, d, -, rfl⟩ := descends_of_lineage hchain
      rw [List.getLast?_concat] at h
      cases (isOfWalk_of_ofLineage h).symm.trans hx
  · intro h
    rw [Entity.ofName, h]
    rfl

/-! ### Attributes of a parent and its own -/

/-- The attributes of a parent overlaid with those of a definition: attributes that only one of them
has are taken over, those that both have are refined, and names that are new come last. -/
structure Overlaid (parent own all : Table Attribute) : Prop where
  names : all.names = parent.names ++ own.names.removeAll parent.names
  shared : ∀ key a b, parent.get? key = some a → own.get? key = some b →
    all.get? key = some (a.refine b)
  inherited : ∀ key, own.get? key = none → all.get? key = parent.get? key
  own : ∀ key, parent.get? key = none → all.get? key = own.get? key

/-- Refining attributes is overlaying them. -/
theorem overlaid_refineAttributes (parent : Table Attribute) (d : Definition) :
    Overlaid parent d.attributes (refineAttributes parent d) where
  names := names_refineAttributes parent d
  shared key a b ha hb := by
    rw [get?_refineAttributes, ha, hb]
    rfl
  inherited key hkey := by
    rw [get?_refineAttributes, hkey]
    cases parent.get? key <;> rfl
  own key hkey := by
    rw [get?_refineAttributes, hkey]
    cases d.attributes.get? key <;> rfl

/-- A name leads to one lineage only. -/
theorem Descends.unique {ancestors ancestors' : List Definition} {d' : Definition}
    (h : Descends definitions n ancestors d) (h' : Descends definitions n ancestors' d') :
    ancestors = ancestors' ∧ d = d' := by
  induction h generalizing ancestors' d' with
  | root hd hroot =>
    obtain rfl := Option.some.inj (hd.symm.trans h'.get?)
    cases h' with
    | root => exact ⟨rfl, rfl⟩
    | child _ hchild => cases hroot.symm.trans hchild
  | child hd hchild hparent ih =>
    obtain rfl := Option.some.inj (hd.symm.trans h'.get?)
    cases h' with
    | root _ hroot => cases hroot.symm.trans hchild
    | child _ hchild' hparent' =>
      obtain rfl := Option.some.inj (hchild.symm.trans hchild')
      obtain ⟨rfl, rfl⟩ := ih hparent'
      exact ⟨rfl, rfl⟩

/-- An entity has the attributes of its parent, overlaid with its own. -/
theorem overlaid_of_ofName {ancestor : String} (he : Entity.ofName definitions categories n = .ok e)
    (hd : definitions.get? n = some d) (hancestor : d.ancestor = some ancestor)
    (hparent : Entity.ofName definitions categories ancestor = .ok parent) :
    Overlaid parent.attributes d.attributes e.attributes := by
  obtain ⟨chain, hchain, hattributes⟩ := attributes_of_ofName he
  obtain ⟨above, habove, hparentAttributes⟩ := attributes_of_ofName hparent
  obtain ⟨ancestors, d', hdescends, rfl⟩ := descends_of_lineage hchain
  obtain ⟨ancestors', p, hdescends', rfl⟩ := descends_of_lineage habove
  obtain rfl := Option.some.inj (hd.symm.trans hdescends.get?)
  obtain ⟨rfl, -⟩ := hdescends.unique (.child hd hancestor hdescends')
  rw [hattributes, lineageAttributes_concat, hparentAttributes]
  exact overlaid_refineAttributes _ d

/-! ### Answers -/

/-- The answers to names that are asked for one after another. The entity of an answer is kept, and
a failure keeps nothing. -/
def answers (definitions : Table Definition) (categories : Table Uid) (known : ResolvedEntities) :
    List String → List (Except LineageError Entity)
  | [] => []
  | n :: rest =>
    match (resolve definitions categories known n).outcome.1 with
    | .ok (e, known') => .ok e :: answers definitions categories known' rest
    | .error x => .error x :: answers definitions categories known rest

/-- The answer to a name if nothing was asked for before. -/
def freshAnswer (definitions : Table Definition) (categories : Table Uid) (n : String) :
    Except LineageError Entity :=
  (resolve definitions categories .empty n).outcome.1.map Prod.fst

/-- Whatever entities are kept, an answer is the entity of its name or the failure of that. -/
theorem HoldsEntities.outcome_resolve {known : ResolvedEntities}
    (h : HoldsEntities definitions categories names known) (n : String) :
    (EventSchema.resolve definitions categories known n).outcome.1.map Prod.fst =
      Entity.ofName definitions categories n := by
  unfold EventSchema.resolve
  split
  · next e he => exact ((h.get?_iff n e).1 he).2.symm
  · cases hof : Entity.ofName definitions categories n <;> rfl

/-- A fresh answer is the entity of the name. -/
theorem freshAnswer_eq (definitions : Table Definition) (categories : Table Uid) (n : String) :
    freshAnswer definitions categories n = Entity.ofName definitions categories n :=
  holdsEntities_empty.outcome_resolve n

/-- Whatever was asked before, each answer is the entity of its name. -/
theorem HoldsEntities.answers_eq {known : ResolvedEntities}
    (h : HoldsEntities definitions categories names known) (asked : List String) :
    answers definitions categories known asked =
      asked.map (Entity.ofName definitions categories) := by
  induction asked generalizing names known with
  | nil => rfl
  | cons n rest ih =>
    have hanswer := h.outcome_resolve n
    rw [List.map_cons, ← hanswer, answers]
    split
    · next e known' hresolve => rw [ih (h.resolve hresolve), hresolve]; rfl
    · next x hresolve => rw [ih h, hresolve]; rfl

/-- How the answer to a name follows from the walk along its ancestors. -/
structure AnswersAlong (definitions : Table Definition)
    (answer : String → Except LineageError Entity) (n : String) :
    Prop where
  cyclic_iff : (∃ walk, answer n = .error (.cyclic walk)) ↔ ComesBack definitions n
  cyclic : ∀ walk, answer n = .error (.cyclic walk) → ComesBackAlong definitions n walk
  leaves_iff : ((∃ m, answer n = .error (.undefined m)) ∨
    ∃ kind child ancestor, answer n = .error (.ancestorUndefined kind child ancestor)) ↔
    LeavesDefinitions definitions n
  undefined_iff : ∀ m, answer n = .error (.undefined m) ↔ m = n ∧ definitions.get? n = none
  ancestorUndefined_iff :
    ∀ kind child ancestor, answer n = .error (.ancestorUndefined kind child ancestor) ↔
    ∃ d, ExtendsUndefined definitions n d ancestor ∧ d.kind = kind ∧ d.name = child
  overlaid : ∀ d ancestor e parent, definitions.get? n = some d → d.ancestor = some ancestor →
    answer n = .ok e →
    answer ancestor = .ok parent → Overlaid parent.attributes d.attributes e.attributes

/-- The entity of a name follows from the walk along its ancestors. -/
theorem answersAlong_ofName (definitions : Table Definition) (categories : Table Uid) (n : String) :
    AnswersAlong definitions (Entity.ofName definitions categories) n where
  cyclic_iff := (exists_congr fun _ ↦ ofName_eq_error_iff rfl).trans lineage_cyclic_iff
  cyclic _ h := comesBackAlong_of_lineage ((ofName_eq_error_iff rfl).1 h)
  leaves_iff := (or_congr (exists_congr fun _ ↦ ofName_eq_error_iff rfl)
    (exists_congr fun _ ↦ exists_congr fun _ ↦
    exists_congr fun _ ↦ ofName_eq_error_iff rfl)).trans lineage_leaves_iff
  undefined_iff _ := (ofName_eq_error_iff rfl).trans lineage_undefined_iff
  ancestorUndefined_iff _ _ _ := (ofName_eq_error_iff rfl).trans lineage_ancestorUndefined_iff
  overlaid _ _ _ _ hd hancestor he hparent := overlaid_of_ofName he hd hancestor hparent

/-- **Asking for entities.** Whatever the definitions extend and whichever names are asked for in
whichever order, each answer is the one that would be given if nothing had been asked for before. It
fails because of the walk along the ancestors exactly where that comes back to a name or leaves the
definitions, and an entity has the attributes of its parent overlaid with those of its own
definition. -/
theorem answers_along_ancestry (definitions : Table Definition) (categories : Table Uid) :
    (∀ asked, answers definitions categories .empty asked =
      asked.map (freshAnswer definitions categories)) ∧
      ∀ n, AnswersAlong definitions (freshAnswer definitions categories) n := by
  have hfresh : freshAnswer definitions categories = Entity.ofName definitions categories :=
    funext (freshAnswer_eq definitions categories)
  rw [hfresh]
  exact ⟨holdsEntities_empty.answers_eq, answersAlong_ofName definitions categories⟩

end EventSchema
