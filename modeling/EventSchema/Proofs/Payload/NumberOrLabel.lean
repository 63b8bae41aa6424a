import EventSchema.Proofs.Payload.Reconciliation
import EventSchema.Proofs.Payload.Settling

/-!
# Giving the number or the label

The value of a pair can be given by its number or by its label. Where pairs have no field in common,
preparing two payloads that differ in this alone comes to the same (`EventModel.entersAlike`): a
pair before the one in question does to both the same and leaves the difference as it is, that pair
makes them equal, and whatever follows cannot tell them apart. In particular the number is there
when the identifier of the type is derived from it.
-/

namespace EventSchema

variable {data data' out out' : Payload} {pairs : List SiblingPair} {p q : SiblingPair}
  {key label : String} {n : Int}

/-! ### Labels that are given -/

theorem Text.foldChar_ne_nil (c : Char) : foldChar c ≠ [] := by
  have hexpansions : ∀ e ∈ foldExpansions, e.2 ≠ [] := by decide +kernel
  unfold foldChar
  split
  · exact List.cons_ne_nil _ _
  unfold mapCase
  split
  · next codes hcodes =>
    obtain ⟨before, after, heq, -⟩ := List.lookup_eq_some_iff.1 hcodes
    have hmem : (c.toNat, codes) ∈ foldExpansions :=
      heq ▸ List.mem_append_right _ List.mem_cons_self
    exact mt List.map_eq_nil_iff.1 (hexpansions _ hmem)
  · split <;> exact List.cons_ne_nil _ _

/-- Only the empty text is empty where case is ignored. -/
theorem Text.foldCase_eq_empty_iff {s : String} : foldCase s = "" ↔ s = "" := by
  constructor
  · intro h
    have hnil : s.toList.flatMap foldChar = [] :=
      String.toList_ofList.symm.trans (congrArg String.toList h)
    refine String.toList_eq_nil_iff.1 (List.eq_nil_iff_forall_not_mem.2 fun c hc ↦ ?_)
    exact foldChar_ne_nil c (List.flatMap_eq_nil_iff.1 hnil c hc)
  · rintro rfl
    rfl

namespace LabelMap

variable {t : LabelMap}

/-- A number is the first one whose label is the given text up to case. -/
def IsFirst (t : LabelMap) (label : String) (n : Int) : Prop :=
  ∃ before usual after, t.entries = before ++ (n, usual) :: after ∧
    Text.foldCase usual = Text.foldCase label ∧
    ∀ e ∈ before, Text.foldCase e.2 ≠ Text.foldCase label

/-- The number for a label is the first one that has it. -/
theorem idFor_eq_some_iff : t.idFor label = some n ↔ t.IsFirst label n := by
  simp only [idFor, Option.map_eq_some_iff, List.find?_eq_some_iff_append, decide_eq_true_eq,
    Bool.not_eq_true', decide_eq_false_iff_not]
  constructor
  · rintro ⟨⟨n, usual⟩, ⟨husual, before, after, heq, hbefore⟩, rfl⟩
    exact ⟨before, usual, after, heq, husual, hbefore⟩
  · rintro ⟨before, usual, after, heq, husual, hbefore⟩
    exact ⟨(n, usual), ⟨husual, before, after, heq, hbefore⟩, rfl⟩

/-- The number of a label has a label. -/
theorem IsFirst.exists_labelFor (h : t.IsFirst label n) : ∃ usual, t.labelFor n = some usual := by
  obtain ⟨before, usual, after, heq, -, -⟩ := h
  refine ⟨usual, List.lookup_eq_some_iff.2 ⟨before, after, heq, fun e he ↦ ?_⟩⟩
  -- every number stands once
  have hnodup := t.nodup
  rw [heq, List.map_append, List.map_cons] at hnodup
  have hne := (List.nodup_append.1 hnodup).2.2 e.1 (List.mem_map_of_mem he) n List.mem_cons_self
  exact bne_iff_ne.2 hne.symm

end LabelMap

/-! ### Outcomes that are alike -/

namespace Payload

/-- Two outcomes are one refusal, or payloads in a relation. -/
inductive Alike (R : Payload → Payload → Prop) : Except PayloadError Payload →
    Except PayloadError Payload → Prop
  /-- Both are refused, for one reason. -/
  | refused (x : PayloadError) : Alike R (.error x) (.error x)
  /-- Both are payloads. -/
  | prepared {out out' : Payload} : R out out' → Alike R (.ok out) (.ok out')

variable {R S : Payload → Payload → Prop} {x x' : Except PayloadError Payload}

/-- Where one outcome is a payload, so is the other. -/
theorem Alike.of_left (h : Alike R x x') (hx : x = .ok out) :
    ∃ out', x' = .ok out' ∧ R out out' := by
  rcases h with x | hR
  · cases hx
  · cases hx
    exact ⟨_, rfl, hR⟩

/-- Where the other outcome is a payload, so is the first. -/
theorem Alike.of_right (h : Alike R x x') (hx : x' = .ok out') :
    ∃ out, x = .ok out ∧ R out out' := by
  rcases h with x | hR
  · cases hx
  · cases hx
    exact ⟨_, rfl, hR⟩

/-- Outcomes that are alike stay so when alike is done with their payloads. -/
theorem Alike.bind {f f' : Payload → Except PayloadError Payload} (h : Alike R x x')
    (hf : ∀ out out', R out out' → Alike S (f out) (f' out')) : Alike S (x >>= f) (x' >>= f') := by
  rcases h with x | hR
  · exact .refused x
  · exact hf _ _ hR

/-- The relation of two outcomes may be weakened. -/
theorem Alike.mono (h : Alike R x x') (hRS : ∀ out out', R out out' → S out out') :
    Alike S x x' := by
  rcases h with x | hR
  · exact .refused x
  · exact .prepared (hRS _ _ hR)

/-- Outcomes that are alike stay so when their payloads are changed alike. -/
theorem Alike.map {f f' : Payload → Payload} (h : Alike R x x')
    (hf : ∀ out out', R out out' → S (f out) (f' out')) :
    Alike S (x.map f) (x'.map f') := by
  rcases h with x | hR
  · exact .refused x
  · exact .prepared (hf _ _ hR)

/-- Pairs may be reconciled in two parts. -/
theorem reconcile_append (data : Payload) (pairs pairs' : List SiblingPair) :
    data.reconcile (pairs ++ pairs') = data.reconcile pairs >>= fun next ↦ next.reconcile pairs' :=
  List.foldlM_append

/-- What every pair keeps of two payloads all pairs keep. -/
theorem alike_reconcile
    (hstep : ∀ q ∈ pairs, ∀ data data', R data data' →
      Alike R (q.reconcile data) (q.reconcile data'))
    (h : R data data') : Alike R (data.reconcile pairs) (data'.reconcile pairs) := by
  induction pairs generalizing data data' with
  | nil => exact .prepared h
  | cons q pairs ih =>
    obtain ⟨hfirst, hothers⟩ := List.forall_mem_cons.1 hstep
    exact (hfirst _ _ h).bind fun _ _ hnext ↦ ih hothers hnext

/-! ### Payloads that agree -/

/-- Two payloads have the same members but for some fields. -/
def AgreeBut (fields : List String) (data data' : Payload) : Prop :=
  ∀ key ∉ fields, data.get? key = data'.get? key

/-- Payloads that agree but for some fields have the same values in all others. -/
theorem AgreeBut.value_eq {fields : List String} (h : AgreeBut fields data data')
    (hkey : key ∉ fields) :
    data.value key = data'.value key := value_congr (h key hkey)

/-- Payloads that agree but for some fields do so when a value is put into both. -/
theorem AgreeBut.put {fields : List String} (h : AgreeBut fields data data')
    (key : String) (v : Json) :
    AgreeBut fields (data.put key v) (Entries.put data' key v) := fun other hother ↦ by
  rw [Entries.get?_put, Entries.get?_put, h other hother]

/-- Payloads that agree do so when a field of both is filled in. -/
theorem AgreeBut.putMissing (h : AgreeBut [] data data') (key : String) (v : Json) :
    AgreeBut [] (data.putMissing key v) (data'.putMissing key v) := by
  rw [Payload.putMissing, Payload.putMissing, h.value_eq List.not_mem_nil]
  split
  · exact h.put key v
  · exact h

/-- Filling in identifiers cannot tell payloads apart that agree. -/
theorem AgreeBut.prefill (h : AgreeBut [] data data') (config : UidConfig) :
    AgreeBut [] (Payload.prefill config data) (Payload.prefill config data') := by
  have hinner := (h.putMissing "category_uid" config.categoryUid.toJson).putMissing
    "class_uid" config.classUid.toJson
  rw [Payload.prefill, Payload.prefill, putTypeUid, putTypeUid, hinner.value_eq List.not_mem_nil,
    hinner.value_eq List.not_mem_nil]
  split
  · exact hinner.putMissing _ _
  · exact hinner

end Payload

open Payload

namespace SiblingPair

/-- A pair does the same to payloads that agree on its fields. -/
theorem alike_reconcile {fields : List String} (h : AgreeBut fields data data')
    (hq : List.Disjoint q.fields fields) :
    Alike (fun out out' ↦ AgreeBut fields out out' ∧ ∀ key ∈ fields, out.get? key = data.get? key ∧
      out'.get? key = data'.get? key) (q.reconcile data) (q.reconcile data') := by
  have hid := h.value_eq (hq List.mem_cons_self)
  have hlabel := h.value_eq (hq (List.mem_cons_of_mem _ List.mem_cons_self))
  rw [reconcile_eq, reconcile_eq, hid, hlabel]
  rcases q.correction (data'.value q.idField) (data'.value q.labelField) with x | ⟨number, text⟩
  · exact .refused x
  refine .prepared ⟨?_, fun key hkey ↦ ?_⟩
  · rcases number with _ | number <;> rcases text with _ | text
    · exact h
    · exact h.put _ _
    · exact h.put _ _
    · exact (h.put _ _).put _ _
  · have hother : key ∉ q.fields := fun hmem ↦ hq hmem hkey
    exact ⟨get?_correct_of_notMem _ hother, get?_correct_of_notMem _ hother⟩

/-! ### One value, given in two ways -/

/-- A payload gives the label of a pair and not its number, and else what another payload gives. (A
pair whose number and label are one field cannot be given so.) -/
structure AddsLabel (p : SiblingPair) (data : Payload) (label : String)
    (byLabel : Payload) : Prop where
  label : byLabel.get? p.labelField = some (.str label)
  unnumbered : (byLabel.value p.idField).isNull = true
  rest : AgreeBut p.fields byLabel data

/-- A payload gives the number of a pair and not its label, and else what another payload gives. -/
structure AddsNumber (p : SiblingPair) (data : Payload) (n : Int) (byNumber : Payload) : Prop where
  number : byNumber.get? p.idField = some (.int n)
  unlabelled : (byNumber.value p.labelField).isLabel = false
  rest : AgreeBut p.fields byNumber data

/-- A label that is put where no number is given is added. -/
theorem addsLabel_put (hne : p.idField ≠ p.labelField) (hid : (data.value p.idField).isNull = true)
    (label : String) :
    p.AddsLabel data label (data.put p.labelField (.str label)) where
  label := by rw [Entries.get?_put, if_pos rfl]
  unnumbered := by rwa [value_put, if_neg hne.symm]
  rest key hkey := by
    have hother : p.labelField ≠ key :=
      fun heq ↦ hkey (heq ▸ List.mem_cons_of_mem _ List.mem_cons_self)
    rw [Entries.get?_put, if_neg hother]

/-- A number that is put where no label is given is added. -/
theorem addsNumber_put (hne : p.idField ≠ p.labelField)
    (hlabel : (data.value p.labelField).isLabel = false) (n : Int) :
    p.AddsNumber data n (data.put p.idField (.int n)) where
  number := by rw [Entries.get?_put, if_pos rfl]
  unlabelled := by rwa [value_put, if_neg hne]
  rest key hkey := by
    have hother : p.idField ≠ key := fun heq ↦ hkey (heq ▸ List.mem_cons_self)
    rw [Entries.get?_put, if_neg hother]

/-- What the two payloads look like until the pair is corrected. -/
structure Differ (p : SiblingPair) (label : String) (n : Int)
    (byLabel byNumber : Payload) : Prop where
  label : byLabel.get? p.labelField = some (.str label)
  unnumbered : (byLabel.value p.idField).isNull = true
  number : byNumber.get? p.idField = some (.int n)
  unlabelled : (byNumber.value p.labelField).isLabel = false
  rest : AgreeBut p.fields byLabel byNumber

/-- A pair with other fields leaves the difference as it is. -/
theorem Differ.step (h : p.Differ label n data data') (hq : List.Disjoint q.fields p.fields) :
    Alike (p.Differ label n) (q.reconcile data) (q.reconcile data') := by
  have hid : p.idField ∈ p.fields := List.mem_cons_self
  have hlabel : p.labelField ∈ p.fields := List.mem_cons_of_mem _ List.mem_cons_self
  refine (SiblingPair.alike_reconcile h.rest hq).mono fun out out' ⟨hrest, hkept⟩ ↦ ?_
  refine ⟨(hkept _ hlabel).1.trans h.label, ?_, (hkept _ hid).2.trans h.number, ?_, hrest⟩
  · exact (value_congr (hkept _ hid).1).symm ▸ h.unnumbered
  · exact (value_congr (hkept _ hlabel).2).symm ▸ h.unlabelled

/-- The pair itself makes the two payloads equal. -/
theorem Differ.reconcile (h : p.Differ label n data data') (hfirst : p.labels.IsFirst label n)
    (hlabel : label ≠ "") :
    Alike (fun out out' ↦ AgreeBut [] out out' ∧ out.value p.idField = .int n)
      (p.reconcile data) (p.reconcile data') := by
  have hne : p.idField ≠ p.labelField := fun heq ↦ by
    have hnull := h.unnumbered
    rw [heq, Payload.value, h.label] at hnull
    cases hnull
  obtain ⟨usual, husual⟩ := hfirst.exists_labelFor
  have hvalue : data.value p.labelField = .str label := by rw [Payload.value, h.label]; rfl
  have hnumber : data'.value p.idField = .int n := by rw [Payload.value, h.number]; rfl
  have hknown :
      p.Rule (data.value p.idField) (data.value p.labelField) ⟨some n, p.labels.labelFor n⟩ := by
    rw [hvalue]
    exact .known h.unnumbered (isLabel_str.2 hlabel) (LabelMap.idFor_eq_some_iff.2 hfirst)
  have hlabelled :
      p.Rule (data'.value p.idField) (data'.value p.labelField) ⟨none, some usual⟩ := by
    rw [hnumber]
    exact .labelled rfl husual fun hgiven ↦ absurd (hgiven.symm.trans h.unlabelled) (by simp)
  rw [husual] at hknown
  rw [reconcile_of_rule hknown, reconcile_of_rule hlabelled]
  refine .prepared ⟨fun key _ ↦ ?_, ?_⟩
  · by_cases hkey : key ∈ p.fields
    · rcases List.mem_pair.1 hkey with rfl | rfl
      · rw [get?_idField_correct hne, get?_idField_correct hne, h.number]
        rfl
      · rw [get?_labelField_correct hne, get?_labelField_correct hne]
        rfl
    · rw [get?_correct_of_notMem _ hkey, get?_correct_of_notMem _ hkey, h.rest key hkey]
  · rw [Payload.value, get?_idField_correct hne]
    rfl

end SiblingPair

open SiblingPair

/-- A pair with other fields leaves equal payloads equal, and the number as it is. -/
theorem SiblingPair.agreeing_step (h : AgreeBut [] data data' ∧ data.value p.idField = .int n)
    (hq : List.Disjoint p.fields q.fields) :
    Alike (fun out out' ↦ AgreeBut [] out out' ∧ out.value p.idField = .int n)
      (q.reconcile data) (q.reconcile data') := by
  obtain ⟨hagree, hnumber⟩ := h
  have hrest : AgreeBut p.fields data data' := fun key _ ↦ hagree key List.not_mem_nil
  have hstep := SiblingPair.alike_reconcile hrest fun _ hmem hfield ↦ hq hfield hmem
  refine hstep.mono fun out out' ⟨hout, hkept⟩ ↦ ⟨fun key _ ↦ ?_, ?_⟩
  · by_cases hkey : key ∈ p.fields
    · rw [(hkept key hkey).1, (hkept key hkey).2, hagree key List.not_mem_nil]
    · exact hout key hkey
  · rw [value_congr (hkept _ List.mem_cons_self).1, hnumber]

/-- Where pairs have no field in common, a payload is reconciled to the same whether it gives a
value by its number or by its label. -/
theorem SiblingPair.Differ.reconcile_pairs (h : p.Differ label n data data')
    (hapart : pairs.Pairwise fun p q ↦ List.Disjoint p.fields q.fields) (hp : p ∈ pairs)
    (hfirst : p.labels.IsFirst label n) (hlabel : label ≠ "") :
    Alike (fun out out' ↦ AgreeBut [] out out' ∧ out.value p.idField = .int n)
      (data.reconcile pairs) (data'.reconcile pairs) := by
  obtain ⟨before, after, rfl⟩ := List.append_of_mem hp
  obtain ⟨-, hafter, hbefore⟩ := List.pairwise_append.1 hapart
  rw [reconcile_append, reconcile_append]
  refine Alike.bind (Payload.alike_reconcile (fun q hq _ _ hdiffer ↦ ?_) h)
    fun next next' hdiffer ↦ ?_
  · exact hdiffer.step (hbefore q hq p List.mem_cons_self)
  refine Alike.bind (hdiffer.reconcile hfirst hlabel) fun next next' hnext ↦ ?_
  refine Payload.alike_reconcile (fun q hq data data' hagree ↦ ?_) hnext
  exact agreeing_step hagree (List.rel_of_pairwise_cons hafter hq)

/-! ### Event classes -/

/-- The identifier of the type that is filled in goes by the class and the activity of the
payload. -/
theorem Payload.get?_typeUid_prefill {config : UidConfig} {classUid : Int}
    (htype : (data.value "type_uid").isNull = true) (hactivity : data.value "activity_id" = .int n)
    (hclass : (prefill config data).value "class_uid" = .int classUid) :
    (prefill config data).get? "type_uid" = some (.int (typeUid classUid n)) := by
  generalize hinner :
    (data.putMissing "category_uid" config.categoryUid.toJson).putMissing "class_uid"
    config.classUid.toJson = inner
  have hkept {key : String} (hkey : key ∉ filledFields.take 2) :
      inner.value key = data.value key := by
    obtain ⟨hcategory, heventClass⟩ := not_or.1 (mt List.mem_pair.2 hkey)
    rw [← hinner, value_putMissing_of_ne (Ne.symm heventClass),
      value_putMissing_of_ne (Ne.symm hcategory)]
  rw [prefill, hinner] at hclass ⊢
  rw [value_putTypeUid_of_ne (by decide)] at hclass
  rw [putTypeUid, hclass, hkept (by decide), hactivity]
  dsimp only
  rw [putMissing, hkept (by decide), if_pos htype, Entries.get?_put, if_pos rfl]

/-- How an event class takes payloads that give a value by its number or by its label. -/
structure EventModel.EntersAlike (m : EventModel) : Prop where
  /-- A payload that gives a label alone, and one that gives instead the first number with that
  label, are refused for one reason, or become the same. -/
  alike : ∀ p ∈ m.pairs, ∀ data label n byLabel byNumber,
    (∃ e ∈ p.labels.entries, e.2 ≠ "" ∧ Text.foldCase e.2 = Text.foldCase label) →
    p.labels.IsFirst label n → p.AddsLabel data label byLabel → p.AddsNumber data n byNumber →
      Alike (fun out out' ↦ ∀ key, out.get? key = out'.get? key)
        (m.prepare byLabel) (m.prepare byNumber)
  /-- Identifiers that are given are kept. -/
  kept : ∀ data out, m.prepare data = .ok out →
    ∀ key ∈ filledFields, (data.value key).isNull = false →
    out.get? key = data.get? key
  /-- The identifier of the type is derived from the number of the activity, also where its label
  was given. -/
  type : ∀ p ∈ m.pairs, p.idField = "activity_id" → ∀ data label n byLabel byNumber,
    (∃ e ∈ p.labels.entries, e.2 ≠ "" ∧ Text.foldCase e.2 = Text.foldCase label) →
    p.labels.IsFirst label n →
    p.AddsLabel data label byLabel → p.AddsNumber data n byNumber →
      (data.value "type_uid").isNull = true →
      ∀ out, m.prepare byLabel = .ok out ∨ m.prepare byNumber = .ok out → ∀ classUid,
        out.get? "class_uid" = some (.int classUid) →
        out.get? "type_uid" = some (.int (typeUid classUid n))

namespace EventModel

variable {m : EventModel}

/-- What the pairs of an event class leave alone of a payload. -/
theorem get?_of_reconcile_filled (hfree : ∀ p ∈ m.pairs, List.Disjoint p.fields filledFields)
    (h : data.reconcile m.pairs = .ok out) (hkey : key ∈ filledFields) :
    out.get? key = data.get? key :=
  Payload.get?_of_reconcile h fun hmem ↦ by
    obtain ⟨p, hp, hfield⟩ := List.mem_flatMap.1 hmem
    exact hfree p hp hfield hkey

/-- Reconciling a payload with the label and one with the first number for it comes to the same. -/
theorem alike_reconcile_pairs (hapart : m.pairs.Pairwise fun p q ↦ List.Disjoint p.fields q.fields)
    (hp : p ∈ m.pairs) {byLabel byNumber : Payload}
    (hcaption : ∃ e ∈ p.labels.entries, e.2 ≠ "" ∧ Text.foldCase e.2 = Text.foldCase label)
    (hfirst : p.labels.IsFirst label n) (hlabel : p.AddsLabel data label byLabel)
    (hnumber : p.AddsNumber data n byNumber) :
    Alike (fun out out' ↦ AgreeBut [] out out' ∧ out.value p.idField = .int n)
      (byLabel.reconcile m.pairs) (byNumber.reconcile m.pairs) := by
  have hgiven : label ≠ "" := by
    obtain ⟨e, -, hne, hfold⟩ := hcaption
    rwa [ne_eq, ← Text.foldCase_eq_empty_iff, ← hfold, Text.foldCase_eq_empty_iff]
  have hdiffer : p.Differ label n byLabel byNumber :=
    ⟨hlabel.label, hlabel.unnumbered, hnumber.number, hnumber.unlabelled,
      fun key hkey ↦ (hlabel.rest key hkey).trans (hnumber.rest key hkey).symm⟩
  exact hdiffer.reconcile_pairs hapart hp hfirst hgiven

/-- **Number or label.** Where the pairs of an event class have no field in common, and none that is
filled in, it makes no difference whether a value is given by its label or by the first number with
that label: either payload is refused for one reason, or both become the same. Identifiers that are
given are kept, and the identifier of the type that is filled in goes by the number of the activity
whichever of the two was given. -/
theorem entersAlike (m : EventModel)
    (hapart : m.pairs.Pairwise fun p q ↦ List.Disjoint p.fields q.fields)
    (hfree : ∀ p ∈ m.pairs, List.Disjoint p.fields filledFields) : m.EntersAlike := by
  constructor
  case alike =>
    intro p hp data label n byLabel byNumber hcaption hfirst hlabel hnumber
    refine (alike_reconcile_pairs hapart hp hcaption hfirst hlabel hnumber).map
      fun out out' hboth key ↦ ?_
    exact hboth.1.prefill m.config key List.not_mem_nil
  case kept =>
    intro data out h key hkey hgiven
    obtain ⟨agreed, hagreed, rfl⟩ := exists_reconcile_of_prepare h
    have hget := get?_of_reconcile_filled hfree hagreed hkey
    have hvalue : (agreed.value key).isNull = false := value_congr hget ▸ hgiven
    rw [← hget, get?_of_value (value_prefill_of_given m.config hvalue) hvalue,
      get?_of_value rfl hvalue]
  case type =>
    intro p hp hactivity data label n byLabel byNumber hcaption hfirst hlabel hnumber
      htype out hout classUid hclass
    have hother : "type_uid" ∉ p.fields := fun hmem ↦ hfree p hp hmem (by decide)
    -- both payloads give the number once they are reconciled, and neither gives the type
    have hprepared (given agreed : Payload) (hgiven : AgreeBut p.fields given data)
        (hagreed : given.reconcile m.pairs = .ok agreed) (hvalue : agreed.value p.idField = .int n)
        (heq : out = prefill m.config agreed) :
        out.get? "type_uid" = some (.int (typeUid classUid n)) := by
      have hmissing : (agreed.value "type_uid").isNull = true := by
        rwa [value_congr (get?_of_reconcile_filled hfree hagreed (by decide)),
          hgiven.value_eq hother]
      have hvalueClass : out.value "class_uid" = .int classUid := by
        rw [Payload.value, hclass]
        rfl
      rw [heq] at hvalueClass ⊢
      exact get?_typeUid_prefill hmissing (hactivity ▸ hvalue) hvalueClass
    have hboth := alike_reconcile_pairs hapart hp hcaption hfirst hlabel hnumber
    rcases hout with hout | hout
    · obtain ⟨agreed, hagreed, heq⟩ := exists_reconcile_of_prepare hout
      obtain ⟨-, -, -, hvalue⟩ := hboth.of_left hagreed
      exact hprepared byLabel agreed hlabel.rest hagreed hvalue heq
    · obtain ⟨agreed, hagreed, heq⟩ := exists_reconcile_of_prepare hout
      obtain ⟨_, -, hagree, hvalue⟩ := hboth.of_right hagreed
      exact hprepared byNumber agreed hnumber.rest hagreed
        (hagree.value_eq List.not_mem_nil ▸ hvalue) heq

end EventModel

/-! ### A file that is created -/

/-- An event class of activities and severities. -/
def creationModel : EventModel := ⟨default, ⟨.number 1, .number 1001⟩, [severityPair, activityPair]⟩

/-- The pairs of this event class share no fields. -/
theorem creationModel_apart :
    creationModel.pairs.Pairwise (fun p q ↦ List.Disjoint p.fields q.fields) ∧
    ∀ p ∈ creationModel.pairs, List.Disjoint p.fields filledFields := by
  have hfields : (creationModel.pairs.flatMap fields ++ filledFields).Nodup := by decide
  obtain ⟨hpairs, -, hfilled⟩ := List.nodup_append'.1 hfields
  refine ⟨(List.nodup_flatMap.1 hpairs).2, fun p hp key hkey ↦ hfilled ?_⟩
  exact List.mem_flatMap.2 ⟨p, hp, hkey⟩

/-- Whether its activity is given as a label in other letters or as a number, the event has the same
type. -/
theorem EventModel.entersAlike_creation : ∃ byLabel byNumber out out' : Payload,
    activityPair.AddsLabel [("severity", .str "low")] "CREATE" byLabel ∧
    activityPair.AddsNumber [("severity", .str "low")] 1 byNumber ∧
    creationModel.prepare byLabel = .ok out ∧ creationModel.prepare byNumber = .ok out' ∧
    (∀ key, out.get? key = out'.get? key) ∧ out.get? "type_uid" = some (.int 100101) := by
  have hlabel : activityPair.AddsLabel [("severity", .str "low")] "CREATE" _ :=
    addsLabel_put (by decide) rfl "CREATE"
  have hnumber : activityPair.AddsNumber [("severity", .str "low")] 1 _ :=
    addsNumber_put (by decide) rfl 1
  have hmem : activityPair ∈ creationModel.pairs := List.mem_cons_of_mem _ List.mem_cons_self
  have hfold : Text.foldCase "Create" = Text.foldCase "CREATE" := by decide +kernel
  have hcaption : ∃ e ∈ activityPair.labels.entries, e.2 ≠ "" ∧
      Text.foldCase e.2 = Text.foldCase "CREATE" :=
    ⟨(1, "Create"), List.mem_cons_self, by decide, hfold⟩
  have hfirst : activityPair.labels.IsFirst "CREATE" 1 :=
    ⟨[], "Create", [], rfl, hfold, fun _ he ↦ absurd he List.not_mem_nil⟩
  have hall := EventModel.entersAlike creationModel creationModel_apart.1 creationModel_apart.2
  have hout : ∃ out, creationModel.prepare
      (Entries.put [("severity", .str "low")] "activity_id" (.int 1)) = .ok out ∧
      out.get? "class_uid" = some (.int 1001) := ⟨_, rfl, rfl⟩
  obtain ⟨out', hout', hclass⟩ := hout
  obtain ⟨out, hout, hsame⟩ :=
    (hall.alike activityPair hmem _ _ _ _ _ hcaption hfirst hlabel hnumber).of_right hout'
  refine ⟨_, _, out, out', hlabel, hnumber, hout, hout', hsame, ?_⟩
  exact hall.type activityPair hmem rfl _ _ _ _ _ hcaption hfirst hlabel hnumber rfl out
    (.inl hout) 1001 ((hsame _).trans hclass)

end EventSchema
