import EventSchema.Proofs.Payload.Correction

/-!
# Reconciling payloads

What reconciling a payload does as a whole, where no two pairs have a field in common. It is refused
exactly if it gives a number with a label that is not its own; else each number that has a label
stands beside it, and neither the other members nor the order of the pairs matter
(`Payload.reconciles`). A payload that was reconciled is left as it is when it is reconciled again,
unless a number for other values was given as a text alone (`Payload.repeats_of_reconcile`).
-/

namespace EventSchema.Payload

open SiblingPair

variable {data out : Payload} {pairs : List SiblingPair} {p : SiblingPair} {key : String}

/-! ### Refused payloads, and the order of pairs -/

theorem reconcile_error_iff (hapart : (pairs.flatMap fields).Nodup) :
    (∃ x, data.reconcile pairs = .error x) ↔
    ∃ p ∈ pairs, p.Contradicts (data.value p.idField) (data.value p.labelField) := by
  constructor
  · rintro ⟨x, hx⟩
    by_contra hnone
    have hall : ∀ p ∈ pairs, ∃ c, p.Rule (data.value p.idField) (data.value p.labelField) c := by
      intro p hp
      rcases p.correction_cases (data.value p.idField) (data.value p.labelField) with ⟨c, -, hc⟩ |
        ⟨hcontradicts, -⟩
      · exact ⟨c, hc⟩
      · exact absurd ⟨p, hp, hcontradicts⟩ hnone
    obtain ⟨out, hout⟩ := exists_reconcile hapart hall
    exact absurd (hx.symm.trans hout) (by simp)
  · rintro ⟨p, hp, hcontradicts⟩
    rcases hout : data.reconcile pairs with x | out
    · exact ⟨x, rfl⟩
    · obtain ⟨c, hc⟩ := exists_corrects_of_reconcile hapart hout hp
      obtain ⟨x, hx⟩ := correction_error_iff.2 hcontradicts
      exact absurd (hx.symm.trans hc.rule.correction_eq) (by simp)

/-- The rule that applies to a pair settles how it is corrected. -/
theorem corrects_of_rule {c : Correction} (hapart : (pairs.flatMap fields).Nodup)
    (h : data.reconcile pairs = .ok out) (hp : p ∈ pairs) (hrule : p.Rule (data.value p.idField)
      (data.value p.labelField) c) : p.Corrects data out c := by
  obtain ⟨c', hc'⟩ := exists_corrects_of_reconcile hapart h hp
  obtain rfl : c' = c := Except.ok.inj (hc'.rule.correction_eq.symm.trans hrule.correction_eq)
  exact hc'

/-- The order of pairs without a common field does not matter. -/
theorem get?_of_reconcile_perm {pairs' : List SiblingPair} {out' : Payload}
    (hapart : (pairs.flatMap fields).Nodup) (hperm : pairs'.Perm pairs)
    (h : data.reconcile pairs = .ok out) (h' : data.reconcile pairs' = .ok out')
    (key : String) : out'.get? key = out.get? key := by
  have hfields : (pairs'.flatMap fields).Perm (pairs.flatMap fields) := hperm.flatMap_right _
  have hapart' := hfields.nodup_iff.2 hapart
  by_cases hkey : key ∈ pairs.flatMap fields
  · obtain ⟨p, hp, hkey⟩ := List.mem_flatMap.1 hkey
    obtain ⟨c, hc⟩ := exists_corrects_of_reconcile hapart h hp
    have hc' := corrects_of_rule hapart' h' (hperm.mem_iff.2 hp) hc.rule
    rcases List.mem_pair.1 hkey with rfl | rfl
    · rw [hc.id, hc'.id]
    · rw [hc.label, hc'.label]
  · rw [get?_of_reconcile h hkey, get?_of_reconcile h' (mt hfields.mem_iff.1 hkey)]

/-- What reconciling the pairs of a payload does. -/
structure Reconciles (pairs : List SiblingPair) (data : Payload) : Prop where
  /-- The payload is refused exactly if it contradicts one of the pairs. -/
  error_iff : (∃ x, data.reconcile pairs = .error x) ↔
    ∃ p ∈ pairs, p.Contradicts (data.value p.idField) (data.value p.labelField)
  /-- Else a number that has a label and does not stand for other values is beside that label. -/
  labelled : ∀ out, data.reconcile pairs = .ok out → ∀ p ∈ pairs, ∀ n usual,
    (out.value p.idField).asInteger? = some n → n ≠ otherId → p.labels.labelFor n = some usual →
      out.get? p.labelField = some (.str usual)
  /-- All that is no field of a pair is as it was. -/
  unchanged : ∀ out, data.reconcile pairs = .ok out → ∀ key ∉ pairs.flatMap fields,
    out.get? key = data.get? key
  /-- The order of the pairs matters neither for whether the payload is refused nor for what becomes
  of it. -/
  order : ∀ pairs', pairs'.Perm pairs →
    ((∃ x, data.reconcile pairs' = .error x) ↔ ∃ x, data.reconcile pairs = .error x) ∧
      ∀ out out', data.reconcile pairs = .ok out → data.reconcile pairs' = .ok out' →
        ∀ key, out'.get? key = out.get? key

/-- **Reconciliation.** Where pairs have no field in common, a payload is refused exactly if it
gives a number with a label that is not its own. Else every number that has a label is beside it,
all other members are as they were, and the order of the pairs does not matter. -/
theorem reconciles (pairs : List SiblingPair) (data : Payload)
    (hapart : (pairs.flatMap fields).Nodup) :
    Reconciles pairs data where
  error_iff := reconcile_error_iff hapart
  labelled out h p hp n usual hn hother husual := by
    obtain ⟨c, hc⟩ := exists_corrects_of_reconcile hapart h hp
    rw [hc.value_id] at hn
    rw [hc.label, hc.rule.label_eq hn (absurd · hother) husual]
    rfl
  unchanged out h key hkey := get?_of_reconcile h hkey
  order pairs' hperm := by
    refine ⟨?_, fun out out' h h' ↦ get?_of_reconcile_perm hapart hperm h h'⟩
    rw [reconcile_error_iff hapart,
      reconcile_error_iff ((hperm.flatMap_right _).nodup_iff.2 hapart)]
    exact exists_congr fun p ↦ and_congr_left' hperm.mem_iff

/-! ### Reconciling again -/

theorem reconcile_self_iff (hapart : (pairs.flatMap fields).Nodup) :
    data.reconcile pairs = .ok data ↔
    ∀ p ∈ pairs, p.Settled (data.value p.idField) (data.value p.labelField) := by
  refine ⟨fun h p hp ↦ ?_, reconcile_of_settled⟩
  obtain ⟨c, hc⟩ := exists_corrects_of_reconcile hapart h hp
  exact ⟨c, hc.rule, hc.value_id.symm, hc.value_label.symm⟩

/-- The fields of a pair that is settled stay as they are. -/
theorem get?_of_settled (hapart : (pairs.flatMap fields).Nodup) (h : data.reconcile pairs = .ok out)
    (hp : p ∈ pairs) (hsettled : p.Settled (data.value p.idField) (data.value p.labelField))
    (hkey : key ∈ p.fields) :
    out.get? key = data.get? key := by
  obtain ⟨c, hc⟩ := exists_corrects_of_reconcile hapart h hp
  obtain ⟨hid, hlabel⟩ := hsettled.rule_eq hc.rule
  exact hc.get?_eq hid hlabel key hkey

/-- A pair is settled once it was corrected, unless the number for other values was given as a text
and without its label. -/
theorem settled_of_reconcile (hapart : (pairs.flatMap fields).Nodup)
    (h : data.reconcile pairs = .ok out) (hp : p ∈ pairs)
    (hspells : ¬p.SpellsOther (data.value p.idField) (data.value p.labelField)) :
    p.Settled (out.value p.idField) (out.value p.labelField) := by
  obtain ⟨c, hc⟩ := exists_corrects_of_reconcile hapart h hp
  rw [hc.value_id, hc.value_label]
  exact hc.rule.settled hspells

/-- Such a text is kept when it is corrected first, and becomes a number the second time. -/
theorem again_of_reconcile (hapart : (pairs.flatMap fields).Nodup)
    (h : data.reconcile pairs = .ok out) (hp : p ∈ pairs)
    (hspells : p.SpellsOther (data.value p.idField) (data.value p.labelField)) :
    out.value p.idField = data.value p.idField ∧
      p.Rule (out.value p.idField) (out.value p.labelField) ⟨some otherId, none⟩ ∧
        p.Settled (.int otherId) (out.value p.labelField) := by
  obtain ⟨c, hc⟩ := exists_corrects_of_reconcile hapart h hp
  rw [hc.value_id, hc.value_label]
  exact hc.rule.again hspells

/-- What reconciling a payload does that was reconciled before. -/
structure Repeats (pairs : List SiblingPair) (data out : Payload) : Prop where
  /-- It stays as it is exactly if no number for other values was given as a text and without its
  label. -/
  self_iff : out.reconcile pairs = .ok out ↔
    ∀ p ∈ pairs, ¬p.SpellsOther (data.value p.idField) (data.value p.labelField)
  /-- Otherwise these texts become numbers, and then it stays as it is. -/
  again : ∃ final, out.reconcile pairs = .ok final ∧ final.reconcile pairs = .ok final ∧
    (∀ p ∈ pairs, p.SpellsOther (data.value p.idField) (data.value p.labelField) →
      out.value p.idField = data.value p.idField ∧ final.get? p.idField = some (.int otherId)) ∧
    ∀ key, (∀ p ∈ pairs, p.SpellsOther (data.value p.idField) (data.value p.labelField) →
      key ≠ p.idField) → final.get? key = out.get? key

/-- **Reconciling again.** A payload that was reconciled is left as it is when it is reconciled
again, unless a number for other values was given as a text and without its label: only the second
time it becomes a number. -/
theorem repeats_of_reconcile (pairs : List SiblingPair) (data out : Payload)
    (hapart : (pairs.flatMap fields).Nodup) (h : data.reconcile pairs = .ok out) :
    Repeats pairs data out := by
  constructor
  · rw [reconcile_self_iff hapart]
    refine ⟨fun hall p hp hspells ↦ ?_,
      fun hall p hp ↦ settled_of_reconcile hapart h hp (hall p hp)⟩
    obtain ⟨hid, hrule, -⟩ := again_of_reconcile hapart h hp hspells
    obtain ⟨⟨s, hs, -⟩, -⟩ := hspells
    have hnumber : Json.int otherId = out.value p.idField := ((hall p hp).rule_eq hrule).1
    rw [hid, hs] at hnumber
    cases hnumber
  · obtain ⟨final, hfinal⟩ := exists_reconcile hapart fun p hp ↦ by
      by_cases hspells : p.SpellsOther (data.value p.idField) (data.value p.labelField)
      · exact ⟨_, (again_of_reconcile hapart h hp hspells).2.1⟩
      · obtain ⟨c, hc, -⟩ := settled_of_reconcile hapart h hp hspells
        exact ⟨c, hc⟩
    have hspelled (p : SiblingPair) (hp : p ∈ pairs)
        (hspells : p.SpellsOther (data.value p.idField) (data.value p.labelField)) :
        p.Corrects out final ⟨some otherId, none⟩ :=
      corrects_of_rule hapart hfinal hp (again_of_reconcile hapart h hp hspells).2.1
    have hkept (p : SiblingPair) (hp : p ∈ pairs)
        (hspells : ¬p.SpellsOther (data.value p.idField) (data.value p.labelField)) (key : String)
        (hkey : key ∈ p.fields) : final.get? key = out.get? key :=
      get?_of_settled hapart hfinal hp (settled_of_reconcile hapart h hp hspells) hkey
    refine ⟨final, hfinal, (reconcile_self_iff hapart).2 fun p hp ↦ ?_, fun p hp hspells ↦ ?_,
      fun key hkey ↦ ?_⟩
    · by_cases hspells : p.SpellsOther (data.value p.idField) (data.value p.labelField)
      · rw [(hspelled p hp hspells).value_id, (hspelled p hp hspells).value_label]
        exact (again_of_reconcile hapart h hp hspells).2.2
      · rw [value_congr (hkept p hp hspells _ List.mem_cons_self),
          value_congr (hkept p hp hspells _ (List.mem_cons_of_mem _ List.mem_cons_self))]
        exact settled_of_reconcile hapart h hp hspells
    · exact ⟨(again_of_reconcile hapart h hp hspells).1, (hspelled p hp hspells).id⟩
    · by_cases hfield : key ∈ pairs.flatMap fields
      · obtain ⟨p, hp, hmem⟩ := List.mem_flatMap.1 hfield
        by_cases hspells : p.SpellsOther (data.value p.idField) (data.value p.labelField)
        · obtain rfl := (List.mem_pair.1 hmem).resolve_left (hkey p hp hspells)
          exact (hspelled p hp hspells).label
        · exact hkept p hp hspells key hmem
      · exact get?_of_reconcile hfinal hfield

/-! ### Severities -/

/-- Severities, with a number for others. -/
def severityPair : SiblingPair :=
  ⟨"severity_id", "severity",
    .ofList [(0, "Unknown"), (1, "Informational"), (2, "Low"), (99, "Other")]⟩

/-- Activities. -/
def activityPair : SiblingPair := ⟨"activity_id", "activity_name", .ofList [(1, "Create")]⟩

/-- A payload with a number and a label of different pairs. -/
def creation : Payload := [("activity_id", .int 1), ("severity", .str "low")]

/-- The number brings its label, and the label its number; with the number of another label it is
refused. -/
theorem reconciles_creation : ([severityPair, activityPair].flatMap fields).Nodup ∧
    (∃ out, creation.reconcile [severityPair, activityPair] = .ok out ∧
      out.get? "severity" = some (.str "Low") ∧ out.get? "activity_name" = some (.str "Create")) ∧
    ∃ x, Payload.reconcile [severityPair, activityPair] (("severity_id", .int 1) :: creation) =
      .error x := by
  have hapart : ([severityPair, activityPair].flatMap fields).Nodup := by decide
  have hout : creation.reconcile [severityPair, activityPair] = .ok [("activity_id", .int 1),
    ("severity", .str "Low"), ("severity_id", .int 2), ("activity_name", .str "Create")] := rfl
  refine ⟨hapart, ⟨_, hout, ?_, ?_⟩,
    (reconciles _ _ hapart).error_iff.2 ⟨severityPair, List.mem_cons_self, ?_⟩⟩
  · exact (reconciles _ _ hapart).labelled _ hout severityPair List.mem_cons_self 2 "Low" rfl
      (by decide) rfl
  · exact (reconciles _ _ hapart).labelled _ hout activityPair
      (List.mem_cons_of_mem _ List.mem_cons_self) 1 "Create" rfl (by decide) rfl
  · exact ⟨1, "Informational", rfl, by decide, rfl, nofun,
      fun heq ↦ absurd (Json.str.inj heq) (by decide), by decide +kernel⟩

theorem readInteger?_other : Text.readInteger? "99" = some otherId := by decide +kernel

/-- The number for other severities, given as a text alone, gets its label and is a text still. -/
theorem reconcile_spelled : Payload.reconcile [severityPair] [("severity_id", .str "99")] =
    .ok [("severity_id", .str "99"), ("severity", .str "Other")] := by
  have hrule : severityPair.Rule (.str "99") .null ⟨none, some "Other"⟩ :=
    .labelled readInteger?_other rfl nofun
  have hfirst : severityPair.reconcile [("severity_id", .str "99")] =
      .ok [("severity_id", .str "99"), ("severity", .str "Other")] := by
    rw [reconcile_eq]
    exact congrArg (Except.map _) hrule.correction_eq
  rw [reconcile, List.foldlM_cons, hfirst]
  rfl

/-- It becomes a number when the payload is reconciled again. -/
theorem repeats_of_reconcile_spelled : ([severityPair].flatMap fields).Nodup ∧
    Payload.reconcile [severityPair] [("severity_id", .str "99")] =
      .ok [("severity_id", .str "99"), ("severity", .str "Other")] ∧
    ∃ final, Payload.reconcile [severityPair] [("severity_id", .str "99"),
      ("severity", .str "Other")] = .ok final ∧
      final.get? "severity_id" = some (.int otherId) ∧
      final.reconcile [severityPair] = .ok final := by
  have hapart : ([severityPair].flatMap fields).Nodup := by decide
  obtain ⟨final, hfinal, hself, hnumber, -⟩ :=
    (repeats_of_reconcile _ _ _ hapart reconcile_spelled).again
  refine ⟨hapart, reconcile_spelled, final, hfinal,
    (hnumber severityPair List.mem_cons_self ?_).2, hself⟩
  exact ⟨⟨"99", rfl, readInteger?_other⟩, rfl, "Other", rfl, by decide⟩

/-- A payload that was reconciled can change when it is reconciled again. -/
theorem reconcile_not_idempotent : ∃ (pairs : List SiblingPair) (data out : Payload),
    (pairs.flatMap fields).Nodup ∧ data.reconcile pairs = .ok out ∧
    out.reconcile pairs ≠ .ok out := by
  refine ⟨[severityPair], _, _, by decide, reconcile_spelled, fun hself ↦ ?_⟩
  have hsettled := (reconcile_self_iff (by decide)).1 hself severityPair List.mem_cons_self
  have hrule : severityPair.Rule (.str "99") (.str "Other") ⟨some otherId, none⟩ :=
    .other readInteger?_other rfl
  exact absurd (hsettled.rule_eq hrule).1 nofun

end EventSchema.Payload
