import Mathlib.Data.List.Induction
import EventSchema.Json.Merge
import EventSchema.Proofs.Tables

/-!
# Values at the key paths of merged objects

A path of member names leads from an object to what stands at its end (`Json.at?`), or the object
says nothing there since a member on the way is missing (`Json.Silent`). Laying one object over
another keeps each value that the upper one gives, and a value of the lower one where the upper one
is silent (`Json.at?_merge_iff`). Values laid over each other one after another, the highest first
(`Json.overlaid`), so give at a path what one of them gives and those above it leave open
(`Json.at?_overlaid_iff`).
-/

namespace EventSchema.Json

variable {v w x lower upper : Json} {ls us ms : Entries Json} {n : String} {path : List String}

/-! ### Paths -/

/-- Whether a value is an object. -/
def isObject : Json → Bool
  | .obj _ => true
  | _ => false

theorem exists_of_isObject (h : v.isObject = true) : ∃ ms, v = .obj ms := by
  cases v with
  | obj ms => exact ⟨ms, rfl⟩
  | _ => cases h

/-- The value at the end of a path of member names. -/
def at? : Json → List String → Option Json
  | v, [] => some v
  | v, n :: path => (v.member? n).bind (at? · path)

/-- An object says nothing at a path: some member on the way is missing. -/
def Silent : Json → List String → Prop
  | _, [] => False
  | v, n :: path => v.isObject = true ∧ ∀ w, v.member? n = some w → w.Silent path

/-- A path goes through the member of its first name. -/
theorem at?_cons (ms : Entries Json) (n : String) (path : List String) :
    (Json.obj ms).at? (n :: path) = (Entries.get? ms n).bind (at? · path) := rfl

/-- An object is silent at a path if what stands at its first name is silent at the rest. -/
theorem silent_cons_iff :
    (Json.obj ms).Silent (n :: path) ↔ ∀ v, Entries.get? ms n = some v → v.Silent path := by
  rw [Silent]
  exact and_iff_right rfl

/-- What is no object says something at every path. -/
theorem not_silent_of_not_object (h : v.isObject = false) : ¬ v.Silent path := by
  cases path with
  | nil => exact id
  | cons n path =>
    intro hsilent
    rw [hsilent.1] at h
    cases h

/-- Nothing is below what is no object. -/
theorem at?_of_not_object (h : v.isObject = false) (hx : v.at? path = some x) : path = [] := by
  cases path with
  | nil => rfl
  | cons n path =>
    cases v with
    | obj ms => cases h
    | _ => cases hx

/-! ### Objects with their names once -/

/-- Values without parts are well formed. -/
theorem wellFormed_of_scalar (hitems : ∀ items, v ≠ .arr items) (hmembers : ∀ ms, v ≠ .obj ms) :
    v.WellFormed := by
  cases v with
  | arr items => exact absurd rfl (hitems items)
  | obj ms => exact absurd rfl (hmembers ms)
  | _ => simp [WellFormed]

theorem wellFormedMembers_iff : WellFormedMembers ms ↔ ∀ m ∈ ms, m.2.WellFormed := by
  induction ms with
  | nil => rw [WellFormedMembers]; exact ⟨fun _ ↦ List.forall_mem_nil _, fun _ ↦ trivial⟩
  | cons m ms ih => rw [WellFormedMembers, ih, List.forall_mem_cons]

theorem wellFormedItems_iff {vs : List Json} : WellFormedItems vs ↔ ∀ v ∈ vs, v.WellFormed := by
  induction vs with
  | nil => rw [WellFormedItems]; exact ⟨fun _ ↦ List.forall_mem_nil _, fun _ ↦ trivial⟩
  | cons v vs ih => rw [WellFormedItems, ih, List.forall_mem_cons]

/-- An object is well formed if it has each name once and its members are. -/
theorem wellFormed_obj_iff :
    (Json.obj ms).WellFormed ↔ (Entries.names ms).Nodup ∧ ∀ m ∈ ms, m.2.WellFormed := by
  rw [WellFormed, wellFormedMembers_iff]

/-- A member of a well-formed object is well formed. -/
theorem WellFormed.of_get? (h : (Json.obj ms).WellFormed) (hv : Entries.get? ms n = some v) :
    v.WellFormed :=
  (wellFormed_obj_iff.1 h).2 (n, v) (Entries.mem_of_get? hv)

theorem wellFormed_obj_nil : (Json.obj []).WellFormed :=
  wellFormed_obj_iff.2 ⟨List.nodup_nil, List.forall_mem_nil _⟩

/-- A well-formed object stays so when a well-formed value is put into it. -/
theorem WellFormed.put (h : (Json.obj ms).WellFormed) (hv : v.WellFormed) (n : String) :
    (Json.obj (Entries.put ms n v)).WellFormed := by
  obtain ⟨hnodup, hmembers⟩ := wellFormed_obj_iff.1 h
  refine wellFormed_obj_iff.2 ⟨Entries.nodup_names_put hnodup _ _, ?_⟩
  rintro ⟨k, w⟩ hmem
  have hget := Entries.get?_of_mem (Entries.nodup_names_put hnodup n v) hmem
  rw [Entries.get?_put] at hget
  split at hget
  · cases hget
    exact hv
  · exact hmembers _ (Entries.mem_of_get? hget)

/-- A well-formed object stays so when members are left out. -/
theorem WellFormed.filter (h : (Json.obj ms).WellFormed) (p : String × Json → Bool) :
    (Json.obj (ms.filter p)).WellFormed := by
  obtain ⟨hnodup, hmembers⟩ := wellFormed_obj_iff.1 h
  exact wellFormed_obj_iff.2
    ⟨Entries.nodup_names_filter hnodup p, fun m hm ↦ hmembers m (List.mem_filter.1 hm).1⟩

/-! ### Laying one value over another -/

/-- Objects are merged by their members. -/
theorem merge_obj (ls us : Entries Json) :
    (Json.obj ls).merge (.obj us) = .obj (mergeMembers ls us) := by
  rw [merge]

/-- A value that is no object changes nothing, and nothing changes one. -/
theorem merge_of_not_object (h : lower.isObject = false ∨ upper.isObject = false) :
    lower.merge upper = lower := by
  cases lower with
  | obj ls =>
    cases upper with
    | obj us => rcases h with h | h <;> cases h
    | _ => simp [merge]
  | _ => simp [merge]

/-- What comes to stand where a value is laid over what stands there, if anything does. -/
def laidOver : Option Json → Json → Json
  | some (.obj lower), .obj upper => .obj (mergeMembers lower upper)
  | _, v => v

/-- Objects on both sides are merged. -/
theorem laidOver_obj (ls us : Entries Json) :
    laidOver (some (.obj ls)) (.obj us) = .obj (mergeMembers ls us) := rfl

/-- Where one of two values is no object, the upper one stands. -/
theorem laidOver_of_not_object {o : Option Json}
    (h : v.isObject = false ∨ ∀ w, o = some w → w.isObject = false) :
    laidOver o v = v := by
  unfold laidOver
  split
  · rcases h with h | h
    · cases h
    · cases h _ rfl
  · rfl

/-- Two objects are merged, and otherwise the upper value stands. -/
theorem laidOver_some :
    laidOver (some lower) upper = if lower.isObject && upper.isObject then lower.merge upper
    else upper := by
  cases hlower : lower.isObject with
  | false => exact laidOver_of_not_object (.inr fun _ hw ↦ Option.some.inj hw ▸ hlower)
  | true =>
    cases hupper : upper.isObject with
    | false => exact laidOver_of_not_object (.inl hupper)
    | true =>
      obtain ⟨ls, rfl⟩ := exists_of_isObject hlower
      obtain ⟨us, rfl⟩ := exists_of_isObject hupper
      exact (merge_obj ls us).symm

/-- Members are merged one by one. -/
theorem mergeMembers_cons :
    mergeMembers ls ((n, v) :: us) =
      mergeMembers (Entries.put ls n (laidOver (Entries.get? ls n) v)) us := by
  cases hget : Entries.get? ls n with
  | none => simp [mergeMembers, hget, laidOver]
  | some w => cases w <;> cases v <;> simp [mergeMembers, hget, laidOver]

/-- A member of merged objects is that of the upper one laid over that of the lower one. -/
theorem get?_mergeMembers (hus : (Entries.names us).Nodup) (ls : Entries Json) (n : String) :
    Entries.get? (mergeMembers ls us) n =
      ((Entries.get? us n).map (laidOver (Entries.get? ls n))).or (Entries.get? ls n) := by
  induction us generalizing ls with
  | nil => rw [mergeMembers]; rfl
  | cons member us ih =>
    obtain ⟨k, v⟩ := member
    obtain ⟨hk, hus⟩ := List.nodup_cons.1 hus
    rw [mergeMembers_cons, ih hus, Entries.get?_put, Entries.get?_cons]
    split
    · next heq =>
      subst heq
      rw [Entries.get?_eq_none_iff.2 hk]
      rfl
    · rfl

/-- Merging keeps names apart. -/
theorem WellFormed.mergeMembers (us : List (String × Json)) :
    ∀ {ls : Entries Json}, (∀ m ∈ us, m.2.WellFormed) →
    (Json.obj ls).WellFormed → (Json.obj (mergeMembers ls us)).WellFormed := by
  -- the members of the upper object are fewer or nested less deeply from step to step
  induction us using (measure (sizeOf : List (String × Json) → Nat)).wf.induction with
  | _ us ih =>
  intro ls hus hls
  cases us with
  | nil => rwa [Json.mergeMembers]
  | cons member us =>
    obtain ⟨n, v⟩ := member
    obtain ⟨hv, hus⟩ := List.forall_mem_cons.1 hus
    have hrest : sizeOf us < sizeOf ((n, v) :: us) := by
      rw [List.cons.sizeOf_spec]
      omega
    rw [mergeMembers_cons]
    refine ih us hrest hus (hls.put ?_ n)
    unfold laidOver
    split
    · next below above hbelow =>
      have habove : sizeOf above < sizeOf ((n, Json.obj above) :: us) := by
        rw [List.cons.sizeOf_spec, Prod.mk.sizeOf_spec, Json.obj.sizeOf_spec]
        omega
      exact ih above habove (wellFormed_obj_iff.1 hv).2 (hls.of_get? hbelow)
    · exact hv

/-- Well-formed values are merged to a well-formed value. -/
theorem WellFormed.merge (hlower : lower.WellFormed) (hupper : upper.WellFormed) :
    (lower.merge upper).WellFormed := by
  cases lower with
  | obj ls =>
    cases upper with
    | obj us =>
      rw [merge_obj]
      exact WellFormed.mergeMembers us (wellFormed_obj_iff.1 hupper).2 hlower
    | _ => rwa [merge_of_not_object (.inr rfl)]
  | _ => rwa [merge_of_not_object (.inl rfl)]

/-- **What stands at a path of merged objects.** A value that is no object comes from the upper
object, or from the lower one where the upper one is silent. -/
theorem at?_merge_iff (hus : (Json.obj us).WellFormed) (hx : x.isObject = false) :
    ((Json.obj ls).merge (.obj us)).at? path = some x ↔
      (Json.obj us).at? path = some x ∨ (Json.obj us).Silent path ∧
      (Json.obj ls).at? path = some x := by
  induction path generalizing ls us with
  | nil =>
    have hnot {ms : Entries Json} : (Json.obj ms).at? [] ≠ some x := fun h ↦ by
      cases h
      cases hx
    rw [merge_obj]
    exact ⟨fun h ↦ absurd h hnot, fun h ↦ h.elim (fun h ↦ absurd h hnot) fun h ↦ absurd h.2 hnot⟩
  | cons n path ih =>
    rw [merge_obj, at?_cons, at?_cons, at?_cons, silent_cons_iff,
      get?_mergeMembers (wellFormed_obj_iff.1 hus).1]
    cases hupper : Entries.get? us n with
    | none =>
      -- the upper object says nothing from here on
      exact ⟨fun h ↦ .inr ⟨nofun, h⟩, fun h ↦ h.elim nofun And.right⟩
    | some v =>
      have hv : v.WellFormed := hus.of_get? hupper
      have hsilent : (∀ w, some v = some w → w.Silent path) ↔ v.Silent path :=
        ⟨fun h ↦ h v rfl, fun h w hw ↦ Option.some.inj hw ▸ h⟩
      rw [hsilent]
      change (laidOver (Entries.get? ls n) v).at? path = some x ↔ v.at? path = some x ∨ _
      cases hobject : v.isObject with
      | false =>
        rw [laidOver_of_not_object (.inl hobject)]
        exact ⟨.inl, fun h ↦ h.elim id fun h ↦ absurd h.1 (not_silent_of_not_object hobject)⟩
      | true =>
        obtain ⟨above, rfl⟩ := exists_of_isObject hobject
        cases hlower : Entries.get? ls n with
        | none => exact ⟨.inl, fun h ↦ h.elim id fun h ↦ nomatch h.2⟩
        | some w =>
          cases hobject : w.isObject with
          | false =>
            rw [laidOver_of_not_object (.inr fun _ hw ↦ Option.some.inj hw ▸ hobject)]
            refine ⟨.inl, fun h ↦ h.elim id fun ⟨hsilent, hbelow⟩ ↦ ?_⟩
            -- a value that is no object has nothing below it
            rw [at?_of_not_object hobject hbelow] at hsilent
            exact hsilent.elim
          | true =>
            obtain ⟨below, rfl⟩ := exists_of_isObject hobject
            rw [laidOver_obj, ← merge_obj]
            exact ih hv

/-! ### Several layers -/

/-- Values laid over one another, the highest first. -/
def overlaid (layers : List Json) : Json :=
  layers.foldl (fun upper lower ↦ lower.merge upper) (.obj [])

/-- The lowest of several layers lies below what the others come to. -/
theorem overlaid_concat (layers : List Json) (v : Json) :
    overlaid (layers ++ [v]) = v.merge (overlaid layers) := by
  rw [overlaid, List.foldl_concat]
  rfl

/-- Merging an empty object changes nothing. -/
theorem merge_empty (v : Json) : v.merge (.obj []) = v := by
  cases v with
  | obj ms => rw [merge_obj, mergeMembers]
  | _ => exact merge_of_not_object (.inl rfl)

/-- Merging does not change whether a value is an object. -/
theorem isObject_merge : (lower.merge upper).isObject = lower.isObject := by
  cases lower with
  | obj ls =>
    cases upper with
    | obj us => rw [merge_obj]; rfl
    | _ => rw [merge_of_not_object (.inr rfl)]
  | _ => rw [merge_of_not_object (.inl rfl)]

/-- Layers that are objects with their names once. -/
def Layered (layers : List Json) : Prop := ∀ l ∈ layers, l.isObject = true ∧ l.WellFormed

/-- Layers come to a well-formed object. -/
theorem Layered.overlaid {layers : List Json} (h : Layered layers) :
    (overlaid layers).isObject = true ∧ (Json.overlaid layers).WellFormed := by
  induction layers using List.reverseRecOn with
  | nil => exact ⟨rfl, wellFormed_obj_nil⟩
  | append_singleton layers l ih =>
    obtain ⟨hlayers, hl⟩ := List.forall_mem_append.1 h
    obtain ⟨hobject, hwell⟩ := hl l List.mem_cons_self
    rw [overlaid_concat]
    exact ⟨isObject_merge.trans hobject, hwell.merge (ih hlayers).2⟩

/-- **What stands at a path of layered objects.** A value that is no object comes from a layer above
which nothing is said at the path. -/
theorem at?_overlaid_iff {layers : List Json} (h : Layered layers) (hx : x.isObject = false) :
    (overlaid layers).at? path = some x ↔
      ∃ above l below, layers = above ++ l :: below ∧ l.at? path = some x ∧
      (overlaid above).Silent path := by
  induction layers using List.reverseRecOn with
  | nil =>
    constructor
    · intro hpath
      cases path with
      | nil => cases hpath; cases hx
      | cons n path => cases hpath
    · rintro ⟨above, l, below, heq, -⟩
      cases above <;> cases heq
  | append_singleton layers low ih =>
    obtain ⟨hlayers, hlow⟩ := List.forall_mem_append.1 h
    obtain ⟨hobject, hwell⟩ := Layered.overlaid hlayers
    obtain ⟨us, hus⟩ := exists_of_isObject hobject
    obtain ⟨ls, rfl⟩ := exists_of_isObject (hlow low List.mem_cons_self).1
    rw [overlaid_concat, hus, at?_merge_iff (hus ▸ hwell) hx, ← hus, ih hlayers]
    constructor
    · rintro (⟨above, l, below, rfl, hpath, hsilent⟩ | ⟨hsilent, hpath⟩)
      · exact ⟨above, l, below ++ [.obj ls], by simp, hpath, hsilent⟩
      · exact ⟨layers, .obj ls, [], rfl, hpath, hsilent⟩
    · rintro ⟨above, l, below, heq, hpath, hsilent⟩
      rcases List.eq_nil_or_concat below with rfl | ⟨below, last, rfl⟩
      · obtain ⟨habove, hl⟩ := List.append_inj' heq rfl
        exact .inr ⟨habove ▸ hsilent, List.singleton_inj.1 hl ▸ hpath⟩
      · rw [List.concat_eq_append, ← List.cons_append, ← List.append_assoc] at heq
        exact .inl ⟨above, l, below, (List.append_inj' heq rfl).1, hpath, hsilent⟩

end EventSchema.Json
