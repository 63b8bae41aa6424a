import EventSchema.Proofs.Json.Merging

/-!
# What merging makes of two objects

Laying an object over another one settles every key path (`Json.overlays_merge`): where the upper
object gives a value, that value stands; where it leaves the path open, a value of the lower one
stays; and nothing else comes to stand. On every level the names of the lower object come first,
followed by the new names of the upper one. Laying the upper object over the result once more
changes nothing, since each of its members is in the result already (`Json.mergeMembers_eq_self`).
-/

namespace EventSchema.Json

variable {v w x lower upper merged : Json} {ls us ms : Entries Json}
  {n : String} {path : List String}

/-! ### Open paths -/

/-- A value leaves a path open: nothing stands at its end, and nothing but objects stands on the way
there. -/
structure LeavesOpen (v : Json) (path : List String) : Prop where
  at?_eq_none : v.at? path = none
  isObject_before : ∀ q, q <+: path → q ≠ path → ∀ x, v.at? q = some x → x.isObject = true

theorem at?_nil (v : Json) : v.at? [] = some v := by
  cases v <;> rfl

theorem at?_cons_of_not_object (h : v.isObject = false) : v.at? (n :: path) = none := by
  cases v with
  | obj ms => cases h
  | _ => rfl

/-- A value is silent at the paths that it leaves open. -/
theorem silent_iff_leavesOpen : v.Silent path ↔ v.LeavesOpen path := by
  induction path generalizing v with
  | nil => exact ⟨fun h ↦ h.elim, fun h ↦ nomatch (at?_nil v).symm.trans h.at?_eq_none⟩
  | cons n path ih =>
    cases hobject : v.isObject with
    | false =>
      refine iff_of_false (not_silent_of_not_object hobject) fun h ↦ ?_
      rw [h.isObject_before [] List.nil_prefix (List.cons_ne_nil n path).symm v (at?_nil v)]
        at hobject
      cases hobject
    | true =>
      obtain ⟨ms, rfl⟩ := exists_of_isObject hobject
      rw [silent_cons_iff]
      constructor
      · intro h
        refine ⟨?_, fun q hq hne x hx ↦ ?_⟩
        · rw [at?_cons, Option.bind_eq_none_iff]
          exact fun w hw ↦ (ih.1 (h w hw)).at?_eq_none
        · cases q with
          | nil => exact Option.some.inj ((at?_nil _).symm.trans hx) ▸ rfl
          | cons m q =>
            obtain ⟨rfl, hlead⟩ := List.cons_prefix_cons.1 hq
            obtain ⟨w, hw, hx⟩ := Option.bind_eq_some_iff.1 hx
            exact (ih.1 (h w hw)).isObject_before q hlead (fun heq ↦ hne (heq ▸ rfl)) x hx
      · intro h w hw
        refine ih.2 ⟨?_, fun q hq hne x hx ↦ ?_⟩
        · have hnone := h.at?_eq_none
          rwa [at?_cons, hw, Option.bind_some] at hnone
        · refine h.isObject_before (n :: q) (List.cons_prefix_cons.2 ⟨rfl, hq⟩)
            (fun heq ↦ hne (List.cons.inj heq).2) x ?_
          rw [at?_cons, hw, Option.bind_some, hx]

/-! ### Names -/

/-- The names of the object at a path, none if no object stands there. -/
def namesAt (v : Json) (path : List String) : List String :=
  ((v.at? path).bind members?).elim [] Entries.names

theorem namesAt_of_at? (h : v.at? path = some (.obj ms)) : v.namesAt path = Entries.names ms := by
  rw [namesAt, h]
  rfl

theorem namesAt_cons (hget : Entries.get? ms n = some v) :
    (Json.obj ms).namesAt (n :: path) = v.namesAt path := by
  rw [namesAt, at?_cons, hget, Option.bind_some, namesAt]

theorem namesAt_cons_of_none (hget : Entries.get? ms n = none) :
    (Json.obj ms).namesAt (n :: path) = [] := by
  rw [namesAt, at?_cons, hget]
  rfl

theorem namesAt_of_not_object (h : v.isObject = false) : v.namesAt path = [] := by
  cases path with
  | nil =>
    cases v with
    | obj ms => cases h
    | _ => rfl
  | cons n path => rw [namesAt, at?_cons_of_not_object h]; rfl

/-- Names that stand first, followed by those of others that are new. -/
def followedBy (names others : List String) : List String := names ++ others.filter (· ∉ names)

theorem followedBy_nil (names : List String) : followedBy names [] = names := List.append_nil names

theorem nil_followedBy (names : List String) : followedBy [] names = names :=
  List.filter_eq_self.2 fun _ _ ↦ decide_eq_true List.not_mem_nil

/-- Merging keeps the names of the lower members and adds the new ones behind them. -/
theorem names_mergeMembers (hus : (Entries.names us).Nodup) (ls : Entries Json) :
    Entries.names (mergeMembers ls us) = followedBy (Entries.names ls) (Entries.names us) := by
  induction us generalizing ls with
  | nil => rw [mergeMembers]; exact (followedBy_nil _).symm
  | cons member us ih =>
    obtain ⟨n, v⟩ := member
    obtain ⟨hn, hus⟩ := List.nodup_cons.1 hus
    have hnames : Entries.names ((n, v) :: us) = n :: Entries.names us := rfl
    rw [mergeMembers_cons, ih hus, Entries.names_put, hnames, followedBy, followedBy]
    by_cases hmem : n ∈ Entries.names ls
    · rw [if_pos hmem, List.filter_cons_of_neg (by simpa using hmem)]
    · rw [if_neg hmem, List.filter_cons_of_pos (by simpa using hmem), List.append_assoc]
      refine congrArg (Entries.names ls ++ n :: ·) (List.filter_congr fun m hm ↦ ?_)
      -- the name that was added does not come again
      have hne : m ≠ n := fun heq ↦ hn (heq ▸ hm)
      simp [hne]

/-- On every level the names of the lower object are followed by the new names of the upper one. -/
theorem names_of_at?_merge (hus : (Json.obj us).WellFormed)
    (h : ((Json.obj ls).merge (.obj us)).at? path = some (.obj ms)) :
    Entries.names ms = followedBy ((Json.obj ls).namesAt path) ((Json.obj us).namesAt path) := by
  induction path generalizing ls us with
  | nil =>
    rw [merge_obj, at?_nil] at h
    cases h
    exact names_mergeMembers (wellFormed_obj_iff.1 hus).1 ls
  | cons n path ih =>
    rw [merge_obj, at?_cons, get?_mergeMembers (wellFormed_obj_iff.1 hus).1] at h
    cases hupper : Entries.get? us n with
    | none =>
      rw [hupper, Option.map_none, Option.none_or, ← at?_cons] at h
      rw [namesAt_cons_of_none hupper, followedBy_nil]
      exact (namesAt_of_at? h).symm
    | some v =>
      rw [hupper, Option.map_some, Option.some_or, Option.bind_some] at h
      rw [namesAt_cons hupper]
      -- below a value of the upper object that is not merged nothing of the lower one stands
      have hfresh (hlaid : laidOver (Entries.get? ls n) v = v)
          (hlower : (Json.obj ls).namesAt (n :: path) = []) :
          Entries.names ms = followedBy ((Json.obj ls).namesAt (n :: path)) (v.namesAt path) := by
        rw [hlaid] at h
        rw [hlower, nil_followedBy, namesAt_of_at? h]
      cases hobject : v.isObject with
      | false =>
        rw [laidOver_of_not_object (.inl hobject)] at h
        cases at?_of_not_object hobject h
        rw [at?_nil] at h
        cases h
        cases hobject
      | true =>
        obtain ⟨above, rfl⟩ := exists_of_isObject hobject
        cases hlower : Entries.get? ls n with
        | none =>
          exact hfresh (laidOver_of_not_object (.inr fun w hw ↦ nomatch hlower.symm.trans hw))
            (namesAt_cons_of_none hlower)
        | some w =>
          cases hobject : w.isObject with
          | false =>
            refine hfresh (laidOver_of_not_object (.inr fun w' hw ↦ ?_)) ?_
            · exact Option.some.inj (hlower.symm.trans hw) ▸ hobject
            · rw [namesAt_cons hlower, namesAt_of_not_object hobject]
          | true =>
            obtain ⟨below, rfl⟩ := exists_of_isObject hobject
            rw [hlower, laidOver_obj, ← merge_obj] at h
            rw [namesAt_cons hlower]
            exact ih (hus.of_get? hupper) h

/-! ### Merging again -/

/-- Members that change nothing where they are laid over leave all as it is. -/
theorem mergeMembers_eq_self
    (h : ∀ m ∈ us, ∃ w, Entries.get? ms m.1 = some w ∧ laidOver (some w) m.2 = w) :
    mergeMembers ms us = ms := by
  induction us with
  | nil => rw [mergeMembers]
  | cons member us ih =>
    obtain ⟨⟨w, hget, hlaid⟩, hus⟩ := List.forall_mem_cons.1 h
    rw [mergeMembers_cons, hget, hlaid, Entries.put_self hget, ih hus]

/-- What is laid over something once more changes nothing. -/
theorem laidOver_laidOver (hv : v.WellFormed) (o : Option Json) :
    laidOver (some (laidOver o v)) v = laidOver o v := by
  induction v using (measure (sizeOf : Json → Nat)).wf.induction generalizing o with
  | _ v ih =>
  cases v with
  | obj above =>
    obtain ⟨hnodup, hmembers⟩ := wellFormed_obj_iff.1 hv
    have hmember (m : String × Json) (hm : m ∈ above) (o : Option Json) :
        laidOver (some (laidOver o m.2)) m.2 = laidOver o m.2 := by
      refine ih m.2 ?_ (hmembers m hm) o
      have hsize := List.sizeOf_lt_of_mem hm
      obtain ⟨n, w⟩ := m
      rw [Prod.mk.sizeOf_spec] at hsize
      change sizeOf w < sizeOf (Json.obj above)
      rw [Json.obj.sizeOf_spec]
      omega
    -- an object that is not merged with anything is merged with itself
    have hself : laidOver (some (.obj above)) (.obj above) = .obj above := by
      rw [laidOver_obj, mergeMembers_eq_self fun m hm ↦
        ⟨m.2, Entries.get?_of_mem hnodup hm, hmember m hm none⟩]
    cases o with
    | none => exact hself
    | some w =>
      cases hobject : w.isObject with
      | false => rwa [laidOver_of_not_object (.inr fun _ hw ↦ Option.some.inj hw ▸ hobject)]
      | true =>
        obtain ⟨below, rfl⟩ := exists_of_isObject hobject
        rw [laidOver_obj, laidOver_obj, mergeMembers_eq_self fun m hm ↦
          ⟨_, ?_, hmember m hm (Entries.get? below m.1)⟩]
        rw [get?_mergeMembers hnodup, Entries.get?_of_mem hnodup hm, Option.map_some,
          Option.some_or]
  | _ => rw [laidOver_of_not_object (.inl rfl), laidOver_of_not_object (.inl rfl)]

theorem merge_merge (hus : (Json.obj us).WellFormed) (ls : Entries Json) :
    ((Json.obj ls).merge (.obj us)).merge (.obj us) = (Json.obj ls).merge (.obj us) := by
  have h := laidOver_laidOver hus (some (.obj ls))
  rwa [laidOver_obj, laidOver_obj, ← merge_obj, ← merge_obj] at h

/-! ### Merged objects -/

/-- A value is one object laid over another: what stands at its paths and in which order its names
stand. -/
structure Overlays (lower upper merged : Json) : Prop where
  /-- Values of the upper object stand. -/
  gives : ∀ path x, x.isObject = false → upper.at? path = some x → merged.at? path = some x
  /-- Values of the lower object stay where the upper one leaves their paths open. -/
  keeps : ∀ path x, x.isObject = false → lower.at? path = some x →
    upper.LeavesOpen path → merged.at? path = some x
  /-- No other value stands anywhere. -/
  no_other : ∀ path x, x.isObject = false → merged.at? path = some x →
    upper.at? path = some x ∨ lower.at? path = some x ∧ upper.LeavesOpen path
  /-- On every level the names of the lower object come first, then the new names of the upper
  one. -/
  names : ∀ path ms, merged.at? path = some (.obj ms) →
    Entries.names ms = followedBy (lower.namesAt path) (upper.namesAt path)
  /-- Laying the upper object over it once more changes nothing. -/
  again : merged.merge upper = merged

/-- **Laying an object over another one settles every path.** -/
theorem overlays_merge (hus : (Json.obj us).WellFormed) (ls : Entries Json) :
    Overlays (.obj ls) (.obj us) ((Json.obj ls).merge (.obj us)) where
  gives _ _ hx hupper := (at?_merge_iff hus hx).2 (.inl hupper)
  keeps _ _ hx hlower hopen :=
  (at?_merge_iff hus hx).2 (.inr ⟨silent_iff_leavesOpen.2 hopen, hlower⟩)
  no_other _ _ hx hmerged :=
    ((at?_merge_iff hus hx).1 hmerged).imp_right fun ⟨hsilent, hlower⟩ ↦
      ⟨hlower, silent_iff_leavesOpen.1 hsilent⟩
  names _ _ hmerged := names_of_at?_merge hus hmerged
  again := merge_merge hus ls

/-- Members of an object: two objects and a number. -/
def lowerMembers : Entries Json :=
  [("range", .obj [("first", .int 1), ("last", .int 9)]), ("label", .obj [("text", .str "low")]),
    ("step", .int 2)]

/-- Members that meet them: an object, a null and an object in the place of the number, and one that
is new. -/
def upperMembers : Entries Json :=
  [("step", .obj [("by", .int 3)]), ("range", .obj [("last", .int 5), ("open", .bool true)]),
    ("label", .null), ("note", .obj [])]

theorem overlays_merge_upperMembers :
    (Json.obj upperMembers).WellFormed ∧
      Overlays (.obj lowerMembers) (.obj upperMembers) (.obj
        [("range", .obj [("first", .int 1), ("last", .int 5), ("open", .bool true)]),
          ("label", .null), ("step", .obj [("by", .int 3)]), ("note", .obj [])]) := by
  have hwell : (Json.obj upperMembers).WellFormed := by
    simp [upperMembers, WellFormed, WellFormedMembers, Entries.names]
  have hmerge : (Json.obj lowerMembers).merge (.obj upperMembers) = .obj
      [("range", .obj [("first", .int 1), ("last", .int 5), ("open", .bool true)]),
        ("label", .null), ("step", .obj [("by", .int 3)]), ("note", .obj [])] := by
    simp [lowerMembers, upperMembers, merge, mergeMembers, Entries.get?, Entries.put]
  exact ⟨hwell, hmerge ▸ overlays_merge hwell lowerMembers⟩

end EventSchema.Json
