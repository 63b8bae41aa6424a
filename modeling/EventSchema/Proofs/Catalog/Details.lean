import EventSchema.Catalog.Detail
import EventSchema.Proofs.Json.Merging

/-!
# Details without shared objects

A JSON value as a detail has all its objects its own (`Detail.ofJson`). Laying one such detail over
another is merging the values, and neither looks at the pool nor changes it (`Detail.merge_ofJson`),
and the value is had back from it, whatever the pool (`Detail.freeze_ofJson`). Members without
objects among them are not shared (`Detail.shareMembers_ofMembers`).
-/

namespace EventSchema.Catalog.Detail

variable {v w : Json} {ms ls us : Entries Json} {n : String} {fuel : Nat} {pool : Pool}

/-! ### Members -/

/-- A value that is no object is held as it is. -/
theorem ofJson_of_not_object (h : v.isObject = false) : ofJson v = .plain v := by
  cases v with
  | obj ms => cases h
  | _ => simp [ofJson]

theorem isObject_ofJson : (ofJson v).isObject = v.isObject := by
  cases v with
  | obj ms => rw [ofJson]; rfl
  | _ => simp [ofJson, isObject, Json.isObject]

theorem ofMembers_cons (m : String × Json) (ms : Entries Json) :
    ofMembers (m :: ms) = (m.1, ofJson m.2) :: ofMembers ms := by
  rw [ofMembers]

theorem ofMembers_eq (ms : Entries Json) : ofMembers ms = Entries.mapValues ofJson ms := by
  induction ms with
  | nil => rw [ofMembers]; rfl
  | cons m ms ih =>
    rw [ofMembers, ih]
    rfl

theorem names_ofMembers (ms : Entries Json) : Entries.names (ofMembers ms) = Entries.names ms := by
  rw [ofMembers_eq, Entries.names_mapValues]

theorem get?_ofMembers (ms : Entries Json) (n : String) :
    Entries.get? (ofMembers ms) n = (Entries.get? ms n).map ofJson := by
  induction ms with
  | nil => rw [ofMembers]; rfl
  | cons m ms ih =>
    rw [ofMembers, Entries.get?_cons, Entries.get?_cons, ih]
    split <;> rfl

/-- Putting a value into members is putting it into their details. -/
theorem put_ofMembers (ms : Entries Json) (n : String) (v : Json) :
    Entries.put (ofMembers ms) n (ofJson v) = ofMembers (Entries.put ms n v) := by
  induction ms with
  | nil => rw [ofMembers, Entries.put, Entries.put, ofMembers, ofMembers]
  | cons m ms ih =>
    rw [ofMembers, Entries.put, Entries.put, ih]
    split <;> rw [ofMembers]

/-- Putting a value where none stands is doing so in the details. -/
theorem putNew_ofMembers (ms : Entries Json) (n : String) (v : Json) :
    Entries.putNew (ofMembers ms) n (ofJson v) = ofMembers (Entries.putNew ms n v) := by
  have hhas : Entries.has (ofMembers ms) n = Entries.has ms n := by
    rw [Entries.has, Entries.has, get?_ofMembers, Option.isSome_map]
  rw [Entries.putNew, Entries.putNew, hhas, put_ofMembers]
  split <;> rfl

/-- Members are left out of details as of the value. -/
theorem filter_ofMembers (ms : Entries Json) (p : String → Bool) :
    (ofMembers ms).filter (fun e ↦ p e.1) = ofMembers (ms.filter fun e ↦ p e.1) := by
  rw [ofMembers_eq, ofMembers_eq, Entries.mapValues, List.filter_map]
  rfl

theorem erase_ofMembers (ms : Entries Json) (n : String) :
    Entries.erase (ofMembers ms) n = ofMembers (Entries.erase ms n) :=
  filter_ofMembers ms fun k ↦ k ≠ n

theorem append_ofMembers (ms ls : Entries Json) :
    ofMembers ms ++ ofMembers ls = ofMembers (ms ++ ls) := by
  simp only [ofMembers_eq, Entries.mapValues, List.map_append]

/-! ### Nesting -/

/-- A member is less deep than its object. -/
theorem depth_le_of_mem {m : String × Json} (h : m ∈ ms) :
    (ofJson m.2).depth ≤ depthOfMembers (ofMembers ms) := by
  induction ms with
  | nil => cases h
  | cons member ms ih =>
    rw [ofMembers, depthOfMembers]
    rcases List.mem_cons.1 h with rfl | h
    · exact Nat.le_max_left _ _
    · exact Nat.le_trans (ih h) (Nat.le_max_right _ _)

/-! ### Merging -/

/-- Putting members over members one after another is merging them, where one step puts a value over
another. -/
theorem foldlM_ofMembers {f : Entries Detail → String × Detail → StateM Pool (Entries Detail)}
    (us : Entries Json) (hf : ∀ m ∈ us, ∀ ls, f (ofMembers ls) (m.1, ofJson m.2) =
      pure (ofMembers (Entries.put ls m.1 (Json.laidOver (Entries.get? ls m.1) m.2))))
    (ls : Entries Json) :
    (ofMembers us).foldlM f (ofMembers ls) = pure (ofMembers (Json.mergeMembers ls us)) := by
  induction us generalizing ls with
  | nil => rw [Json.mergeMembers, ofMembers]; rfl
  | cons m us ih =>
    obtain ⟨hm, hus⟩ := List.forall_mem_cons.1 hf
    rw [ofMembers, List.foldlM_cons, hm, pure_bind, ih hus, ← Json.mergeMembers_cons]

/-- Laying details over details is merging their values, with fuel for the nesting of the upper
ones. -/
theorem overlay_ofJson (lower upper : Json) (hfuel : (ofJson upper).depth < fuel) :
    overlay fuel (ofJson lower) (ofJson upper) = pure (ofJson (lower.merge upper)) := by
  induction fuel generalizing lower upper with
  | zero => cases hfuel
  | succ fuel ih =>
    rw [overlay]
    funext pool
    cases hlower : lower.isObject with
    | false =>
      rw [Json.merge_of_not_object (.inl hlower), ofJson_of_not_object hlower]
      rfl
    | true =>
      obtain ⟨ls, rfl⟩ := Json.exists_of_isObject hlower
      cases hupper : upper.isObject with
      | false =>
        rw [Json.merge_of_not_object (.inr hupper), ofJson_of_not_object hupper, ofJson]
        rfl
      | true =>
        obtain ⟨us, rfl⟩ := Json.exists_of_isObject hupper
        rw [ofJson, depth] at hfuel
        rw [Json.merge_obj, ofJson, ofJson, ofJson]
        change (List.foldlM _ (ofMembers ls) (ofMembers us) >>= fun merged ↦
          (pure (own merged) : StateM Pool Detail)) pool = _
        rw [foldlM_ofMembers us fun m hm ls ↦ ?_]
        · rfl
        have hdepth : (ofJson m.2).depth < fuel :=
          Nat.lt_of_le_of_lt (depth_le_of_mem hm) (Nat.lt_of_succ_lt_succ hfuel)
        dsimp only
        rw [get?_ofMembers]
        cases hbelow : Entries.get? ls m.1 with
        | none => exact congrArg pure (put_ofMembers ls m.1 m.2)
        | some below =>
          dsimp only [Option.map_some]
          rw [isObject_ofJson, isObject_ofJson, ih below m.2 hdepth, pure_bind, put_ofMembers,
            put_ofMembers, Json.laidOver_some]
          split <;> rfl

/-- Laying a value over another neither looks at the shared objects nor changes them. -/
theorem merge_ofJson (lower upper : Json) (pool : Pool) :
    (merge (ofJson lower) (ofJson upper)).run pool = (ofJson (lower.merge upper), pool) := by
  have hfuel : (ofJson upper).depth < mergeFuel pool (ofJson upper) := by
    rw [mergeFuel]
    omega
  change (overlay (mergeFuel pool (ofJson upper)) (ofJson lower) (ofJson upper)).run pool = _
  rw [overlay_ofJson lower upper hfuel]
  rfl

/-! ### Values -/

/-- With fuel for its depth, a detail gives its value back. -/
theorem freezeWith_ofJson (v : Json) (hfuel : (ofJson v).depth ≤ fuel) :
    freezeWith pool fuel (ofJson v) = v := by
  induction fuel generalizing v with
  | zero =>
    cases hobject : v.isObject with
    | true =>
      obtain ⟨ms, rfl⟩ := Json.exists_of_isObject hobject
      rw [ofJson, depth] at hfuel
      omega
    | false => rw [ofJson_of_not_object hobject, freezeWith]
  | succ fuel ih =>
    cases hobject : v.isObject with
    | false => rw [ofJson_of_not_object hobject, freezeWith]
    | true =>
      obtain ⟨ms, rfl⟩ := Json.exists_of_isObject hobject
      rw [ofJson, depth] at hfuel
      rw [ofJson, freezeWith, ofMembers_eq, Entries.mapValues, List.map_map]
      refine congrArg Json.obj ?_
      conv_rhs => rw [← List.map_id ms]
      refine List.map_congr_left fun m hm ↦ ?_
      exact congrArg (m.1, ·)
        (ih m.2 (Nat.le_trans (depth_le_of_mem hm) (Nat.le_of_succ_le_succ hfuel)))

/-- A value is had back from its details. -/
theorem freeze_ofJson (pool : Pool) (v : Json) : freeze pool (ofJson v) = v := by
  refine freezeWith_ofJson v ?_
  rw [mergeFuel]
  omega

theorem freeze_ofMembers (pool : Pool) (ms : Entries Json) :
    Entries.mapValues (freeze pool) (ofMembers ms) = ms := by
  rw [ofMembers_eq, Entries.mapValues, Entries.mapValues, List.map_map]
  conv_rhs => rw [← List.map_id ms]
  refine List.map_congr_left fun m _ ↦ ?_
  exact congrArg (m.1, ·) (freeze_ofJson pool m.2)

/-! ### Sharing -/

/-- Members without objects among them stay as they are. -/
theorem shareMembers_ofMembers (h : ∀ m ∈ ms, m.2.isObject = false) :
    shareMembers (ofMembers ms) = pure (ofMembers ms) := by
  induction ms with
  | nil => rw [ofMembers, shareMembers]
  | cons m ms ih =>
    obtain ⟨hm, hms⟩ := List.forall_mem_cons.1 h
    rw [ofMembers, shareMembers, ofJson_of_not_object hm, share, ih hms]
    · rfl
    · exact nofun

end EventSchema.Catalog.Detail
