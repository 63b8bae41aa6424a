import EventSchema.Proofs.Payload.Preparing
import Mathlib.Data.List.Nodup

/-!
# Correcting the fields of a pair

What is done to the two fields of a pair depends on their values alone: they are corrected by one of
seven rules (`SiblingPair.Rule`), or number and label contradict each other
(`SiblingPair.correction_cases`). Corrected values are left as they are by a second correction
(`SiblingPair.Rule.settled`), with one exception: the number for other values may be given as a
text. Beside a label it becomes a number, but alone it only gets its label, so it is the second
correction that makes it a number (`SiblingPair.Rule.again`).

Pairs are corrected one after another. Where no two of them have a field in common, each is
corrected by what the payload gave for it at the beginning (`Payload.exists_corrects_of_reconcile`).
-/

namespace EventSchema

variable {data out : Payload} {pairs : List SiblingPair} {p : SiblingPair}
  {key : String} {id label : Json}

theorem Json.isNull_iff {v : Json} : v.isNull = true ↔ v = .null := by cases v <;> simp [isNull]

/-- A label is a value other than null and the empty text. -/
theorem Json.isLabel_iff {v : Json} : v.isLabel = true ↔ v ≠ .null ∧ v ≠ .str "" := by
  have hempty : v.isText "" = true ↔ v = .str "" := by
    rw [isText, beq_iff_eq]
    cases v <;> simp [text?]
  rw [isLabel, Bool.and_eq_true, Bool.not_eq_true', Bool.not_eq_true', ← Bool.not_eq_true,
    ← Bool.not_eq_true, hempty, isNull_iff]

/-- A value that is read as an integer and is no text is that integer. -/
theorem Json.eq_int_of_asInteger? {v : Json} {n : Int}
    (h : v.asInteger? = some n) (hv : ∀ t, v ≠ .str t) :
    v = .int n := by
  cases v with
  | int m => exact congrArg Json.int (Option.some.inj h)
  | str t => exact absurd rfl (hv t)
  | _ => cases h

/-- A value that is read as an integer is not null. -/
theorem Json.isNull_of_asInteger? {v : Json} {n : Int} (h : v.asInteger? = some n) :
    v.isNull = false := by
  cases v with
  | null => cases h
  | _ => rfl

namespace Payload

/-- A field that is the same in two payloads has the same value. -/
theorem value_congr {data' : Payload} (h : data.get? key = data'.get? key) :
    data.value key = data'.value key := by
  rw [value, value, h]

/-- A value other than null is given. -/
theorem get?_of_value {v : Json} (h : data.value key = v) (hv : v.isNull = false) :
    data.get? key = some v := by
  rw [value] at h
  rcases hget : Entries.get? data key with _ | w
  · rw [hget] at h
    rw [← h] at hv
    cases hv
  · rw [hget] at h
    exact congrArg some h

/-- Putting a value where it stands changes nothing. -/
theorem put_value {v : Json} (h : data.value key = v) (hv : v.isNull = false) :
    data.put key v = data :=
  Entries.put_self (get?_of_value h hv)

end Payload

namespace SiblingPair

/-! ### Corrections -/

/-- The fields of a pair. -/
def fields (p : SiblingPair) : List String := [p.idField, p.labelField]

/-- What is put into the two fields of a pair; a field for which there is nothing stays as it is. -/
structure Correction where
  /-- The number. -/
  id : Option Int
  /-- The label. -/
  label : Option String

/-- The value of the number field after a correction. -/
def Correction.idOf (c : Correction) (id : Json) : Json := (c.id.map Json.int).getD id

/-- The value of the label field after a correction. -/
def Correction.labelOf (c : Correction) (label : Json) : Json := (c.label.map Json.str).getD label

/-- Put a correction into the fields of a pair. -/
def correct (p : SiblingPair) (data : Payload) (c : Correction) : Payload :=
  let data := (c.id.map fun n ↦ data.put p.idField (.int n)).getD data
  (c.label.map fun text ↦ Entries.put data p.labelField (.str text)).getD data

/-- The correction of the values of the two fields of a pair. -/
def correction (p : SiblingPair) (id label : Json) : Except PayloadError Correction :=
  match id.isNull, label.isLabel with
  | true, false => .ok ⟨none, none⟩
  | true, true =>
    match p.labels.idFor label.display with
    | some n => .ok ⟨some n, p.labels.labelFor n⟩
    | none => .ok ⟨some otherId, none⟩
  | false, given =>
    match id.asInteger? with
    | none => .ok ⟨none, none⟩
    | some n =>
      if given = true ∧ n = otherId then .ok ⟨some otherId, none⟩
      else
        match p.labels.labelFor n with
        | none => .ok ⟨none, none⟩
        | some usual =>
          if given = true ∧ agrees usual label = false then .error (.labelMismatch p n usual label)
          else .ok ⟨none, some usual⟩

/-- What is done to the fields of a pair depends on their values alone. -/
theorem reconcile_eq (p : SiblingPair) (data : Payload) : p.reconcile data =
    (p.correction (data.value p.idField) (data.value p.labelField)).map (p.correct data) := by
  rw [reconcile, correction]
  rcases hid : (data.value p.idField).isNull <;> rcases hlabel : (data.value p.labelField).isLabel
  · simp only [Bool.not_false, Bool.false_eq_true, false_and, if_false, fillLabel]
    rcases (data.value p.idField).asInteger? with _ | n
    · rfl
    · rw [Option.bind_some]
      dsimp only
      rcases p.labels.labelFor n with _ | usual <;> rfl
  · simp only [Bool.not_false, true_and, reconcileBoth]
    rcases (data.value p.idField).asInteger? with _ | n
    · rfl
    · dsimp only
      split
      · rfl
      · rcases p.labels.labelFor n with _ | usual
        · rfl
        · dsimp only
          rcases agrees usual (data.value p.labelField) <;> rfl
  · rfl
  · simp only [Bool.not_true, fillId]
    rcases p.labels.idFor (data.value p.labelField).display with _ | n
    · rfl
    · dsimp only
      rcases p.labels.labelFor n with _ | usual <;> rfl

/-- The rules by which the values of the two fields are corrected. -/
inductive Rule (p : SiblingPair) (id label : Json) : Correction → Prop
  /-- Neither is given. -/
  | absent : id.isNull = true → label.isLabel = false → Rule p id label ⟨none, none⟩
  /-- A known label alone brings its number, and is put into its usual spelling. -/
  | known {n : Int} : id.isNull = true → label.isLabel = true →
      p.labels.idFor label.display = some n →
    Rule p id label ⟨some n, p.labels.labelFor n⟩
  /-- Any other label alone is that of another value. -/
  | unknown : id.isNull = true → label.isLabel = true → p.labels.idFor label.display = none →
    Rule p id label ⟨some otherId, none⟩
  /-- What is no number is left to the check of the field. -/
  | unreadable : id.isNull = false → id.asInteger? = none → Rule p id label ⟨none, none⟩
  /-- So is a number that has no label. -/
  | unlabelled {n : Int} : id.asInteger? = some n → p.labels.labelFor n = none →
    (label.isLabel = true → n ≠ otherId) → Rule p id label ⟨none, none⟩
  /-- The number for other values goes with any label. -/
  | other : id.asInteger? = some otherId → label.isLabel = true →
      Rule p id label ⟨some otherId, none⟩
  /-- Beside a number that has a label stands that label. -/
  | labelled {n : Int} {usual : String} : id.asInteger? = some n →
      p.labels.labelFor n = some usual →
    (label.isLabel = true → n ≠ otherId ∧ Text.foldCase usual = Text.foldCase label.display) →
      Rule p id label ⟨none, some usual⟩

/-- The number of a pair is given with a label that is not its own: it has one, does not stand for
other values, and the label that is given differs from it even where case is ignored. -/
def Contradicts (p : SiblingPair) (id label : Json) : Prop :=
  ∃ n usual, id.asInteger? = some n ∧ n ≠ otherId ∧ p.labels.labelFor n = some usual ∧
    label ≠ .null ∧ label ≠ .str "" ∧ Text.foldCase label.display ≠ Text.foldCase usual

/-- A correction goes by one of the rules, or number and label contradict each other. -/
theorem correction_cases (p : SiblingPair) (id label : Json) :
    (∃ c, p.correction id label = .ok c ∧ p.Rule id label c) ∨
      p.Contradicts id label ∧ ∃ x, p.correction id label = .error x := by
  unfold correction
  split
  · next hnull hlabel => exact .inl ⟨_, rfl, .absent hnull hlabel⟩
  · next hnull hlabel =>
    rcases hn : p.labels.idFor label.display with _ | n
    · exact .inl ⟨_, rfl, .unknown hnull hlabel hn⟩
    · exact .inl ⟨_, rfl, .known hnull hlabel hn⟩
  · next hgiven =>
    rcases hn : id.asInteger? with _ | n
    · exact .inl ⟨_, rfl, .unreadable hgiven hn⟩
    dsimp only
    by_cases hother : label.isLabel = true ∧ n = otherId
    · rw [if_pos hother]
      exact .inl ⟨_, rfl, .other (hother.2 ▸ hn) hother.1⟩
    rw [if_neg hother]
    rw [not_and] at hother
    rcases husual : p.labels.labelFor n with _ | usual
    · exact .inl ⟨_, rfl, .unlabelled hn husual hother⟩
    dsimp only
    by_cases hdiffers : label.isLabel = true ∧ agrees usual label = false
    · rw [if_pos hdiffers]
      obtain ⟨hlabel, hdiffers⟩ := hdiffers
      obtain ⟨hnull, hempty⟩ := Json.isLabel_iff.1 hlabel
      exact .inr ⟨⟨n, usual, hn, hother hlabel, husual, hnull, hempty,
        (beq_eq_false_iff_ne.1 hdiffers).symm⟩, _, rfl⟩
    · rw [if_neg hdiffers]
      refine .inl ⟨_, rfl, .labelled hn husual fun hlabel ↦ ⟨hother hlabel, ?_⟩⟩
      rw [not_and, Bool.not_eq_false] at hdiffers
      exact eq_of_beq (hdiffers hlabel)

/-- The rule that applies tells the correction. -/
theorem Rule.correction_eq {c : Correction} (h : p.Rule id label c) :
    p.correction id label = .ok c := by
  rcases h with ⟨hnull, hlabel⟩ | ⟨hnull, hlabel, hn⟩ | ⟨hnull, hlabel, hn⟩ |
    ⟨hgiven, hn⟩ | ⟨hn, husual, hlabel⟩ | ⟨hn, hlabel⟩ | ⟨hn, husual, hlabel⟩
  · simp [correction, hnull, hlabel]
  · simp [correction, hnull, hlabel, hn]
  · simp [correction, hnull, hlabel, hn]
  · simp [correction, hgiven, hn]
  · simp only [correction, Json.isNull_of_asInteger? hn, hn, husual]
    exact if_neg fun hother ↦ hlabel hother.1 hother.2
  · simp [correction, Json.isNull_of_asInteger? hn, hlabel, hn]
  · simp only [correction, Json.isNull_of_asInteger? hn, hn, husual]
    rw [if_neg fun hother ↦ (hlabel hother.1).1 hother.2, if_neg fun hdiffers ↦ ?_]
    exact beq_eq_false_iff_ne.1 hdiffers.2 (hlabel hdiffers.1).2

/-- A correction is made exactly by one of the rules. -/
theorem correction_eq_ok_iff {c : Correction} : p.correction id label = .ok c ↔
    p.Rule id label c := by
  refine ⟨fun h ↦ ?_, Rule.correction_eq⟩
  rcases p.correction_cases id label with ⟨c', hc', hrule⟩ | ⟨-, x, hx⟩
  · obtain rfl := Except.ok.inj (hc'.symm.trans h)
    exact hrule
  · exact absurd (hx.symm.trans h) (by simp)

/-- No rule applies exactly if number and label contradict each other. -/
theorem correction_error_iff : (∃ x, p.correction id label = .error x) ↔
    p.Contradicts id label := by
  refine ⟨fun ⟨x, hx⟩ ↦ ?_, fun ⟨n, usual, hn, hother, husual, hnull, hempty, hdiffers⟩ ↦ ?_⟩
  · rcases p.correction_cases id label with ⟨c, hc, -⟩ | ⟨hcontradicts, -⟩
    · exact absurd (hc.symm.trans hx) (by simp)
    · exact hcontradicts
  · have hlabel : label.isLabel = true := Json.isLabel_iff.2 ⟨hnull, hempty⟩
    have hagrees : agrees usual label = false := beq_eq_false_iff_ne.2 (Ne.symm hdiffers)
    exact ⟨.labelMismatch p n usual label,
      by simp [correction, Json.isNull_of_asInteger? hn, hlabel, hn, hother, husual, hagrees]⟩

/-- Beside a number that has a label a correction leaves that label, unless the number stands for
other values and any label is given. -/
theorem Rule.label_eq {c : Correction} (h : p.Rule id label c) {n : Int} {usual : String}
    (hn : (c.idOf id).asInteger? = some n)
    (hother : n = otherId → (c.labelOf label).isLabel = false)
    (husual : p.labels.labelFor n = some usual) : c.label = some usual := by
  rcases h with ⟨hnull, -⟩ | _ | ⟨-, hlabel, -⟩ | ⟨-, hm⟩ | ⟨hm, hnone, -⟩ |
    ⟨-, hlabel⟩ | ⟨hm, htext, -⟩
  · change id.asInteger? = some n at hn
    exact absurd ((Json.isNull_of_asInteger? hn).symm.trans hnull) (by simp)
  · obtain rfl := Option.some.inj hn
    exact husual
  · exact absurd (hlabel.symm.trans (hother (Option.some.inj hn).symm)) (by simp)
  · exact absurd (hm.symm.trans hn) (by simp)
  · obtain rfl := Option.some.inj (hm.symm.trans hn)
    exact absurd (hnone.symm.trans husual) (by simp)
  · exact absurd (hlabel.symm.trans (hother (Option.some.inj hn).symm)) (by simp)
  · obtain rfl := Option.some.inj (hm.symm.trans hn)
    exact htext.symm.trans husual

/-! ### Corrections of corrected values -/

/-- The values of the fields of a pair are what their correction makes of them. -/
def Settled (p : SiblingPair) (id label : Json) : Prop :=
  ∃ c, p.Rule id label c ∧ c.idOf id = id ∧ c.labelOf label = label

/-- A rule changes nothing about fields that are settled. -/
theorem Settled.rule_eq {c : Correction} (h : p.Settled id label) (hc : p.Rule id label c) :
    c.idOf id = id ∧ c.labelOf label = label := by
  obtain ⟨c', hc', hid, hlabel⟩ := h
  obtain rfl := Except.ok.inj (hc'.correction_eq.symm.trans hc.correction_eq)
  exact ⟨hid, hlabel⟩

/-- The number for other values is given as a text, and without a label, though it has one. -/
def SpellsOther (p : SiblingPair) (id label : Json) : Prop :=
  (∃ s, id = .str s ∧ Text.readInteger? s = some otherId) ∧ label.isLabel = false ∧
    ∃ usual, p.labels.labelFor otherId = some usual ∧ usual ≠ ""

theorem isLabel_str {text : String} : (Json.str text).isLabel = true ↔ text ≠ "" := by
  rw [Json.isLabel_iff]
  simp

/-- A number beside its own label is settled, unless it is the number for other values given as a
text. -/
theorem settled_of_label {n : Int} {usual : String} (hn : id.asInteger? = some n)
    (husual : p.labels.labelFor n = some usual)
    (hid : n = otherId → usual ≠ "" → id = .int otherId) :
    p.Settled id (.str usual) := by
  by_cases hother : n = otherId ∧ usual ≠ ""
  · refine ⟨_, .other (hother.1 ▸ hn) (isLabel_str.2 hother.2), ?_, rfl⟩
    exact (hid hother.1 hother.2).symm
  · exact ⟨_, .labelled hn husual fun hlabel ↦ ⟨fun heq ↦ hother ⟨heq, isLabel_str.1 hlabel⟩, rfl⟩,
      rfl, rfl⟩

/-- Corrected values are settled, unless the number for other values was given as a text and without
its label. -/
theorem Rule.settled {c : Correction} (h : p.Rule id label c) (hspells : ¬p.SpellsOther id label) :
    p.Settled (c.idOf id) (c.labelOf label) := by
  rcases h with ⟨hnull, hlabel⟩ | @⟨n, hnull, hlabel, hn⟩ | ⟨hnull, hlabel, hn⟩ |
    ⟨hgiven, hn⟩ | ⟨hn, husual, hlabel⟩ | ⟨hn, hlabel⟩ | @⟨n, usual, hn, husual, hlabel⟩
  · exact ⟨_, .absent hnull hlabel, rfl, rfl⟩
  · rcases husual : p.labels.labelFor n with _ | usual
    · by_cases hother : n = otherId
      · exact ⟨_, .other (congrArg some hother) hlabel, congrArg Json.int hother.symm, rfl⟩
      · exact ⟨_, .unlabelled rfl husual fun _ ↦ hother, rfl, rfl⟩
    · exact settled_of_label rfl husual fun hother _ ↦ congrArg Json.int hother
  · exact ⟨_, .other rfl hlabel, rfl, rfl⟩
  · exact ⟨_, .unreadable hgiven hn, rfl, rfl⟩
  · exact ⟨_, .unlabelled hn husual hlabel, rfl, rfl⟩
  · exact ⟨_, .other rfl hlabel, rfl, rfl⟩
  · refine settled_of_label hn husual fun hother hne ↦ ?_
    -- the label was filled in, so the number for other values is no text
    have hunlabelled : label.isLabel = false :=
      Bool.eq_false_iff.2 fun hgiven ↦ (hlabel hgiven).1 hother
    rw [hother] at hn husual
    refine Json.eq_int_of_asInteger? hn fun s hs ↦
      hspells ⟨⟨s, hs, ?_⟩, hunlabelled, usual, husual, hne⟩
    change id = .str s at hs
    rwa [hs] at hn

/-- Where the number for other values was given as a text and without its label, a second correction
makes it a number. -/
theorem Rule.again {c : Correction} (h : p.Rule id label c) (hspells : p.SpellsOther id label) :
    c.idOf id = id ∧ p.Rule (c.idOf id) (c.labelOf label) ⟨some otherId, none⟩ ∧
      p.Settled (.int otherId) (c.labelOf label) := by
  obtain ⟨⟨s, rfl, hs⟩, hunlabelled, usual, husual, hne⟩ := hspells
  obtain rfl : c = ⟨none, some usual⟩ := by
    refine Except.ok.inj (h.correction_eq.symm.trans (Rule.correction_eq ?_))
    exact .labelled hs husual fun hgiven ↦ absurd hgiven (by simp [hunlabelled])
  exact ⟨rfl, .other hs (isLabel_str.2 hne), settled_of_label rfl husual fun _ _ ↦ rfl⟩

/-! ### Corrections of payloads -/

/-- A correction writes the fields of its pair alone, and those only that it corrects. -/
theorem get?_correct (c : Correction) (key : String) :
    (p.correct data c).get? key = (if p.labelField = key then c.label.map Json.str else none).or
      ((if p.idField = key then c.id.map Json.int else none).or (data.get? key)) := by
  obtain ⟨n, text⟩ := c
  rcases n with _ | n <;> rcases text with _ | text <;>
    simp only [correct, Option.map_none, Option.map_some, Option.getD_none, Option.getD_some,
      Entries.get?_put] <;>
    split_ifs <;> rfl

/-- A correction leaves the fields of others as they are. -/
theorem get?_correct_of_notMem (c : Correction) (hkey : key ∉ p.fields) :
    (p.correct data c).get? key = data.get? key := by
  obtain ⟨hid, hlabel⟩ : p.idField ≠ key ∧ p.labelField ≠ key :=
    ⟨fun heq ↦ hkey (heq ▸ List.mem_cons_self),
      fun heq ↦ hkey (heq ▸ List.mem_cons_of_mem _ List.mem_cons_self)⟩
  rw [get?_correct, if_neg hid, if_neg hlabel, Option.none_or, Option.none_or]

/-- The number field has the number of the correction, if that has one. -/
theorem get?_idField_correct (hne : p.idField ≠ p.labelField) (c : Correction) :
    (p.correct data c).get? p.idField = (c.id.map Json.int).or (data.get? p.idField) := by
  rw [get?_correct, if_neg hne.symm, if_pos rfl, Option.none_or]

/-- The label field has the label of the correction, if that has one. -/
theorem get?_labelField_correct (hne : p.idField ≠ p.labelField) (c : Correction) :
    (p.correct data c).get? p.labelField = (c.label.map Json.str).or (data.get? p.labelField) := by
  rw [get?_correct, if_pos rfl, if_neg hne, Option.none_or]

/-- What a correction makes of the fields of a pair in a payload. -/
structure Corrects (p : SiblingPair) (data out : Payload) (c : Correction) : Prop where
  rule : p.Rule (data.value p.idField) (data.value p.labelField) c
  id : out.get? p.idField = (c.id.map Json.int).or (data.get? p.idField)
  label : out.get? p.labelField = (c.label.map Json.str).or (data.get? p.labelField)

theorem getD_or {α : Type} (a b : Option α) (d : α) : (a.or b).getD d = a.getD (b.getD d) := by
  rcases a with _ | a <;> rfl

/-- The value of the number field after a correction. -/
theorem Corrects.value_id {c : Correction} (h : p.Corrects data out c) :
    out.value p.idField = c.idOf (data.value p.idField) := by
  rw [Payload.value, h.id, getD_or]
  rfl

/-- The value of the label field after a correction. -/
theorem Corrects.value_label {c : Correction} (h : p.Corrects data out c) :
    out.value p.labelField = c.labelOf (data.value p.labelField) := by
  rw [Payload.value, h.label, getD_or]
  rfl

/-- A correction that leaves the values of the fields of a pair leaves the fields. -/
theorem Corrects.get?_eq {c : Correction} (h : p.Corrects data out c)
    (hid : c.idOf (data.value p.idField) = data.value p.idField)
    (hlabel : c.labelOf (data.value p.labelField) = data.value p.labelField) :
    ∀ key ∈ p.fields, out.get? key = data.get? key := by
  intro key hkey
  obtain ⟨n, text⟩ := c
  rcases List.mem_pair.1 hkey with rfl | rfl
  · rw [h.id]
    rcases n with _ | n
    · rfl
    · exact (Payload.get?_of_value hid.symm rfl).symm
  · rw [h.label]
    rcases text with _ | text
    · rfl
    · exact (Payload.get?_of_value hlabel.symm rfl).symm

/-- A pair is reconciled by the rule that applies to it. -/
theorem reconcile_of_rule {c : Correction}
    (h : p.Rule (data.value p.idField) (data.value p.labelField) c) :
    p.reconcile data = .ok (p.correct data c) := by
  rw [reconcile_eq, h.correction_eq]
  rfl

/-- Where a pair was reconciled, a rule applied to it. -/
theorem rule_of_reconcile (h : p.reconcile data = .ok out) :
    ∃ c, p.Rule (data.value p.idField) (data.value p.labelField) c ∧ out = p.correct data c := by
  rw [reconcile_eq] at h
  rcases hc : p.correction (data.value p.idField) (data.value p.labelField) with x | c
  · rw [hc] at h
    cases h
  · rw [hc] at h
    exact ⟨c, correction_eq_ok_iff.1 hc, (Except.ok.inj h).symm⟩

/-- Where a pair was reconciled, its fields were corrected. -/
theorem exists_corrects_of_reconcile (hne : p.idField ≠ p.labelField)
    (h : p.reconcile data = .ok out) :
    ∃ c, p.Corrects data out c := by
  obtain ⟨c, hc, rfl⟩ := rule_of_reconcile h
  exact ⟨c, hc, get?_idField_correct hne c, get?_labelField_correct hne c⟩

/-- Reconciling a pair leaves the fields of others as they are. -/
theorem get?_of_reconcile (h : p.reconcile data = .ok out) (hkey : key ∉ p.fields) :
    out.get? key = data.get? key := by
  obtain ⟨c, -, rfl⟩ := rule_of_reconcile h
  exact get?_correct_of_notMem c hkey

/-- Nothing is done to the fields of a pair that are settled. -/
theorem Settled.reconcile (h : p.Settled (data.value p.idField) (data.value p.labelField)) :
    p.reconcile data = .ok data := by
  obtain ⟨⟨n, text⟩, hrule, hid, hlabel⟩ := h
  have hnumber : (n.map fun n ↦ data.put p.idField (.int n)).getD data = data := by
    rcases n with _ | n
    · rfl
    · exact Payload.put_value hid.symm rfl
  rw [reconcile_of_rule hrule, correct, hnumber]
  rcases text with _ | text
  · rfl
  · exact congrArg Except.ok (Payload.put_value hlabel.symm rfl)

end SiblingPair

namespace Payload

open SiblingPair

/-- Reconciling pairs leaves all other fields as they are. -/
theorem get?_of_reconcile (h : data.reconcile pairs = .ok out) (hkey : key ∉ pairs.flatMap fields) :
    out.get? key = data.get? key := by
  induction pairs generalizing data with
  | nil =>
    cases h
    rfl
  | cons p pairs ih =>
    obtain ⟨next, hnext, h⟩ := bind_eq_ok h
    rw [List.flatMap_cons, List.mem_append, not_or] at hkey
    exact (ih h hkey.2).trans (SiblingPair.get?_of_reconcile hnext hkey.1)

/-- What the correction of one pair leaves to a pair that has no field in common with it. -/
theorem fields_of_reconcile {q : SiblingPair} (h : p.reconcile data = .ok out)
    (hq : List.Disjoint p.fields q.fields) :
    out.get? q.idField = data.get? q.idField ∧ out.get? q.labelField = data.get? q.labelField :=
  ⟨SiblingPair.get?_of_reconcile h fun hmem ↦ hq hmem List.mem_cons_self,
    SiblingPair.get?_of_reconcile h fun hmem ↦ hq hmem (List.mem_cons_of_mem _ List.mem_cons_self)⟩

/-- Pairs without a common field, of which the first has two fields. -/
theorem apart_cons (h : ((p :: pairs).flatMap fields).Nodup) : p.idField ≠ p.labelField ∧
    (pairs.flatMap fields).Nodup ∧ List.Disjoint p.fields (pairs.flatMap fields) := by
  rw [List.flatMap_cons, List.nodup_append'] at h
  obtain ⟨hfields, hrest, hdisjoint⟩ := h
  exact ⟨fun heq ↦ (List.nodup_cons.1 hfields).1 (heq ▸ List.mem_cons_self), hrest, hdisjoint⟩

/-- A pair that is apart from others shares no field with any of them. -/
theorem disjoint_fields {q : SiblingPair} (h : List.Disjoint p.fields (pairs.flatMap fields))
    (hq : q ∈ pairs) :
    List.Disjoint p.fields q.fields := fun _ hp hmem ↦ h hp (List.mem_flatMap.2 ⟨q, hq, hmem⟩)

/-- Where pairs have no field in common, each is corrected by what the payload gave for it. -/
theorem exists_corrects_of_reconcile (hapart : (pairs.flatMap fields).Nodup)
    (h : data.reconcile pairs = .ok out) (hp : p ∈ pairs) : ∃ c, p.Corrects data out c := by
  induction pairs generalizing data with
  | nil => cases hp
  | cons q pairs ih =>
    obtain ⟨hne, hrest, hdisjoint⟩ := apart_cons hapart
    obtain ⟨next, hnext, hothers⟩ := bind_eq_ok h
    replace h : next.reconcile pairs = .ok out := hothers
    rcases List.mem_cons.1 hp with rfl | hp
    · obtain ⟨c, hc⟩ := SiblingPair.exists_corrects_of_reconcile hne hnext
      -- the pairs that follow leave the fields of this one alone
      have hid := get?_of_reconcile h (hdisjoint List.mem_cons_self)
      have hlabel := get?_of_reconcile h (hdisjoint (List.mem_cons_of_mem _ List.mem_cons_self))
      exact ⟨c, hc.rule, hid.trans hc.id, hlabel.trans hc.label⟩
    · obtain ⟨c, hc⟩ := ih hrest h hp
      obtain ⟨hid, hlabel⟩ := fields_of_reconcile hnext (disjoint_fields hdisjoint hp)
      refine ⟨c, ?_, hid ▸ hc.id, hlabel ▸ hc.label⟩
      rw [← value_congr hid, ← value_congr hlabel]
      exact hc.rule

/-- Where pairs have no field in common, a payload is refused only if one of them is contradicted by
it. -/
theorem exists_reconcile (hapart : (pairs.flatMap fields).Nodup)
    (h : ∀ p ∈ pairs, ∃ c, p.Rule (data.value p.idField) (data.value p.labelField) c) :
    ∃ out, data.reconcile pairs = .ok out := by
  induction pairs generalizing data with
  | nil => exact ⟨data, rfl⟩
  | cons p pairs ih =>
    obtain ⟨hne, hrest, hdisjoint⟩ := apart_cons hapart
    obtain ⟨⟨c, hc⟩, hothers⟩ := List.forall_mem_cons.1 h
    have hnext := reconcile_of_rule hc
    have hkept : ∀ q ∈ pairs, ∃ c',
        q.Rule ((p.correct data c).value q.idField) ((p.correct data c).value q.labelField) c' := by
      intro q hq
      obtain ⟨hid, hlabel⟩ := fields_of_reconcile hnext (disjoint_fields hdisjoint hq)
      rw [value_congr hid, value_congr hlabel]
      exact hothers q hq
    obtain ⟨out, hout⟩ := ih hrest hkept
    refine ⟨out, ?_⟩
    rw [reconcile, List.foldlM_cons, hnext]
    exact hout

/-- Where all pairs are settled nothing changes. -/
theorem reconcile_of_settled
    (h : ∀ p ∈ pairs, p.Settled (data.value p.idField) (data.value p.labelField)) :
    data.reconcile pairs = .ok data := by
  induction pairs with
  | nil => rfl
  | cons p pairs ih =>
    obtain ⟨hfirst, hothers⟩ := List.forall_mem_cons.1 h
    rw [reconcile, List.foldlM_cons, hfirst.reconcile]
    exact ih hothers

end Payload

end EventSchema
