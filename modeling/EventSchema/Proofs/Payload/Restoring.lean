import EventSchema.Proofs.Catalog.Documents
import EventSchema.Proofs.Catalog.Keys
import EventSchema.Proofs.Package.Rendering
import EventSchema.Proofs.Payload.Settling

/-!
# Restoring what was written down

What was written down of an accepted payload can be given to the same class again. It is restored
(`Validator.Restores`) if it is accepted again and the same is written down of it. For objects that
is so exactly if the accepted value stays (`Payload.restores_iff`): no field of it is null anywhere,
except optional ones that are not given under their own name as well, and nothing that is not null
becomes null. An event class prepares what was written down before it checks it, and what it
accepted is restored only if preparing changes nothing then: preparing adds members and changes
values to ones that are written down as they are, so whatever it does shows again
(`Payload.Preparation.eq_written`, `EventModel.restores_iff`). All of this holds for every validator
that keeps to the rules.
-/

namespace EventSchema

variable {V : Validator} {models : Table Model} {data out : Payload} {n : String} {e : Entity}

/-- What was written down of an accepted value is accepted by a check, and the same is written down
of it again. -/
def Validator.Restores (V : Validator) (check : Json → Payload.Checked) (a : Payload.Accepted) :
    Prop :=
  ∃ b, check (V.toJson a) = .ok b ∧ V.toJson b = V.toJson a

namespace Payload

variable {m : Model} {outcome : FieldRule → Option Accepted}

/-! ### Payloads that are written down as they were -/

/-- No member is written down twice. -/
theorem nodup_written (hm : m.Regular) (hdata : (Entries.names data).Nodup) :
    (Entries.names (written V m outcome data)).Nodup := by
  rw [written, Entries.names, List.map_append, List.nodup_append']
  refine ⟨(names_shownFields _ _ _).nodup hm.keys, ?_, ?_⟩
  · rw [← Entries.names, names_shownExtras]
    exact Entries.nodup_names_filter (Entries.nodup_names_filter hdata _) _
  · intro n hfield hextra
    obtain ⟨r, hr, rfl⟩ := List.mem_map.1 ((names_shownFields _ _ _).subset hfield)
    exact key_not_mem_shownExtras hr hextra

/-- A number is written down as it is, unless it is taken for a scalar. -/
theorem toJson_of_check_int (hV : V.Checks) (hW : V.Writes) {k : Int} {isArray : Bool}
    {content : Package.Content} {a : Accepted}
    (h : V.check models (.int k) isArray content = .ok a)
    (hcontent : ∀ type, content ≠ .scalar type) : V.toJson a = .int k := by
  cases hV.outcome h with
  | number v numbers j hmem hvalue =>
    obtain hvalue | hvalue := hvalue
    · rw [hW.number, hvalue]
    · cases hvalue
  | loose v type => exact absurd rfl (hcontent type)
  | strict v type => exact absurd rfl (hcontent type)
  | double v x => exact absurd rfl (hcontent .double)

/-- A text is written down as it is. -/
theorem toJson_of_check_str (hV : V.Checks) (hW : V.Writes) {text : String} {isArray : Bool}
    {content : Package.Content} {a : Accepted}
    (h : V.check models (.str text) isArray content = .ok a) : V.toJson a = .str text := by
  cases hV.outcome h with
  | number v numbers j hmem hvalue => obtain hvalue | hvalue := hvalue <;> cases hvalue
  | loose v type => exact hW.scalar_str type text
  | strict v type => exact hW.scalar_str type text
  | double v x hvalue => obtain hvalue | ⟨_, hvalue, -⟩ := hvalue <;> cases hvalue

/-- What becomes null on the way, but was not, is a double. -/
theorem exists_float_of_null (hV : V.Checks) (hW : V.Writes) {v : Json} {isArray : Bool}
    {content : Package.Content} {a : Accepted} (h : V.check models v isArray content = .ok a)
    (hgiven : a.isNull = false) (hnull : (V.toJson a).isNull = true) : ∃ x, v = .float x := by
  cases hV.outcome h with
  | items items content vs => rw [hW.items] at hnull; cases hnull
  | object members object m a hmodel hmembers =>
    obtain ⟨data, outcome, -, -, -, rfl⟩ := hV.exists_obj hmembers
    rw [hW.model] at hnull
    cases hnull
  | number v numbers k => rw [hW.number] at hnull; cases hnull
  | loose v type =>
    obtain rfl | ⟨x, rfl, -⟩ := hW.null_or_float hnull
    · cases hgiven
    · exact ⟨x, rfl⟩
  | strict v type hvalue =>
    obtain rfl | ⟨x, rfl, -⟩ := hW.null_or_float hnull
    · cases hgiven
    · exact ⟨x, rfl⟩
  | double v x hvalue =>
    obtain rfl | ⟨_, -, hfinite⟩ := hvalue
    · exact ⟨x, rfl⟩
    · obtain hfloat | ⟨y, hfloat, hinfinite⟩ := hW.null_or_float hnull
      · cases hfloat
      · cases hfloat
        rw [hfinite] at hinfinite
        cases hinfinite

/-- How the members of a payload come from those that are written down of it: it has these first,
and where a value is another one, it is a text, or a number in a field without scalars. -/
structure Preparation (m : Model) (earlier data : Payload) : Prop where
  nodup : (Entries.names data).Nodup
  given : ∀ n v, Entries.get? data n = some v → v.isNull = false
  names : Entries.names earlier <+: Entries.names data
  value : ∀ n v w, Entries.get? earlier n = some v → Entries.get? data n = some w →
    w = v ∨ (∃ text, w = .str text) ∨
      (∃ k, w = .int k) ∧ ∀ r ∈ m.fields.values, r.key = n → ∀ type, r.content ≠ .scalar type

section Preparation

variable (hV : V.Checks) (hm : m.Regular)
  (houtcome : ∀ r ∈ m.fields.values, V.FieldOutcome models data r (outcome r))

include hV hm houtcome

omit hm in
/-- What is written down as null is a double, or there is nothing of that name among what was
written down. -/
theorem exists_float_of_written_null (hW : V.Writes) (hdata : (Entries.names data).Nodup)
    (hmem : (n, .null) ∈ written V m outcome data) (hn : n ∈ Entries.names data) :
    ∃ x, Entries.get? data n = some (.float x) := by
  rcases List.mem_append.1 hmem with hmem | hmem
  · obtain ⟨r, hr, rfl, hshown⟩ := mem_shownFields.1 hmem
    obtain ⟨v, hv⟩ : ∃ v, Entries.get? data r.key = some v := by
      rw [← Option.ne_none_iff_exists', ne_eq, Entries.get?_eq_none_iff, not_not]
      exact hn
    have hmember := memberOf?_of_key hv
    have hout := houtcome r hr
    generalize outcome r = o at hshown hout
    cases hout with
    | absent => cases hshown
    | null => cases hshown
    | value key w a hvalue hrequired hcheck =>
      rw [hmember] at hvalue
      cases hvalue
      cases hgiven : a.isNull with
      | true => rw [shown_of_null hgiven] at hshown; cases hshown
      | false =>
        rw [shown_of_given hgiven] at hshown
        have hnull : (V.toJson a).isNull = true := Json.isNull_iff.2 (Option.some.inj hshown)
        obtain ⟨x, rfl⟩ := exists_float_of_null hV hW hcheck hgiven hnull
        exact ⟨x, hv⟩
  · obtain ⟨w, hw, hgiven, hnull⟩ := mem_shownExtras.1 hmem
    obtain rfl | ⟨x, rfl, -⟩ := hW.null_or_float (Json.isNull_iff.2 hnull)
    · cases hgiven
    · exact ⟨x, Entries.get?_of_mem hdata (mem_extrasOf_iff.1 hw).1⟩

variable (h : Preparation m (written V m outcome data) data)

include h

/-- What a field takes is written down under the name of its attribute. -/
theorem Preparation.key_mem_written {r : FieldRule} (hr : r ∈ m.fields.values)
    {member : String × Json} (hmember : memberOf? r data = some member) :
    r.key ∈ Entries.names (written V m outcome data) := by
  have hgiven : member.2.isNull = false := h.given member.1 member.2 (get?_of_memberOf? hmember)
  have hkey : Entries.get? (written V m outcome data) r.key = shown V (outcome r) :=
    get?_written_key hm hr
  have hout := houtcome r hr
  generalize outcome r = o at hkey hout
  cases hout with
  | absent hnone => rw [hmember] at hnone; cases hnone
  | null key hnull => rw [hmember] at hnull; cases hnull; cases hgiven
  | value key v a hvalue hrequired hcheck =>
    rw [hmember] at hvalue
    cases hvalue
    rw [shown_of_given ((hV.isNull_eq hcheck).trans hgiven)] at hkey
    exact List.mem_map_of_mem (Entries.mem_of_get? hkey)

/-- Every member is written down. -/
theorem Preparation.mem_written (hn : n ∈ Entries.names data) :
    n ∈ Entries.names (written V m outcome data) := by
  by_cases htaken : ∃ r ∈ m.fields.values, ∃ member, memberOf? r data = some member ∧ member.1 = n
  · obtain ⟨r, hr, member, hmember, rfl⟩ := htaken
    have hkey := h.key_mem_written hV hm houtcome hr hmember
    rcases name_of_memberOf? hmember with heq | heq
    · rwa [heq]
    · -- the name of the attribute is that of a member, by which the field is taken then
      obtain ⟨v, hv⟩ : ∃ v, Entries.get? data r.key = some v := by
        rw [← Option.ne_none_iff_exists', ne_eq, Entries.get?_eq_none_iff, not_not]
        exact h.names.subset hkey
      obtain rfl := Option.some.inj ((memberOf?_of_key hv).symm.trans hmember)
      exact hkey
  · obtain ⟨member, hmember, rfl⟩ := List.mem_map.1 hn
    have hextra : member ∈ extrasOf m data :=
      mem_extrasOf_iff.2 ⟨hmember, fun r hr taken hr' heq ↦ htaken ⟨r, hr, taken, hr', heq⟩⟩
    have hgiven : member.2.isNull = false :=
      h.given member.1 member.2 (Entries.get?_of_mem h.nodup hmember)
    exact List.mem_map.2 ⟨(member.1, _), List.mem_append_right _
      (mem_shownExtras.2 ⟨member.2, hextra, hgiven, rfl⟩), rfl⟩

/-- What is written down is as it was. -/
theorem Preparation.get?_written (hW : V.Writes) {v : Json}
    (hv : Entries.get? (written V m outcome data) n = some v) : Entries.get? data n = some v := by
  obtain ⟨w, hw⟩ : ∃ w, Entries.get? data n = some w := by
    rw [← Option.ne_none_iff_exists', ne_eq, Entries.get?_eq_none_iff, not_not]
    exact h.names.subset (List.mem_map_of_mem (Entries.mem_of_get? hv))
  have hvalue := h.value n v w hv hw
  rw [hw]
  by_cases hfield : ∃ r ∈ m.fields.values, r.key = n
  · obtain ⟨r, hr, rfl⟩ := hfield
    have hmember := memberOf?_of_key hw
    have hshown : shown V (outcome r) = some v := (get?_written_key hm hr).symm.trans hv
    have hout := houtcome r hr
    generalize outcome r = o at hshown hout
    cases hout with
    | absent hnone => rw [hmember] at hnone; cases hnone
    | null key hnull => rw [shown_of_null rfl] at hshown; cases hshown
    | value key u a hu hrequired hcheck =>
      rw [hmember] at hu
      cases hu
      rw [shown_of_given ((hV.isNull_eq hcheck).trans (h.given _ _ hw))] at hshown
      obtain rfl := Option.some.inj hshown
      obtain heq | ⟨text, rfl⟩ | ⟨⟨k, rfl⟩, hcontent⟩ := hvalue
      · rw [heq]
      · rw [toJson_of_check_str hV hW hcheck]
      · rw [toJson_of_check_int hV hW hcheck (hcontent r hr rfl)]
  · rw [get?_written_of_ne fun r hr heq ↦ hfield ⟨r, hr, heq⟩] at hv
    obtain ⟨u, hu, -, rfl⟩ := mem_shownExtras.1 (Entries.mem_of_get? hv)
    obtain rfl : u = w :=
      Option.some.inj ((Entries.get?_of_mem h.nodup (mem_extrasOf_iff.1 hu).1).symm.trans hw)
    obtain heq | ⟨text, rfl⟩ | ⟨⟨k, rfl⟩, -⟩ := hvalue
    · rw [← heq]
    · rw [hW.scalar_str]
    · rw [hW.scalar_int]

/-- What comes of what is written down of it is that. -/
theorem Preparation.eq_written (hW : V.Writes) : data = written V m outcome data := by
  have hnames : Entries.names data = Entries.names (written V m outcome data) := by
    obtain ⟨rest, hrest⟩ := h.names
    have hnodup := h.nodup
    rw [← hrest, List.nodup_append'] at hnodup
    have hnil : rest = [] := List.eq_nil_iff_forall_not_mem.2 fun n hn ↦
      hnodup.2.2 (h.mem_written hV hm houtcome (hrest ▸ List.mem_append_right _ hn)) hn
    rw [← hrest, hnil, List.append_nil]
  have htables : (⟨data, h.nodup⟩ : Table Json) =
      ⟨written V m outcome data, nodup_written hm h.nodup⟩ := by
    refine Table.eq_of_names hnames fun n ↦ ?_
    change Entries.get? data n = Entries.get? (written V m outcome data) n
    cases hget : Entries.get? (written V m outcome data) n with
    | some v => exact h.get?_written hV hm houtcome hW hget
    | none =>
      rw [Entries.get?_eq_none_iff, hnames]
      exact Entries.get?_eq_none_iff.1 hget
  exact congrArg Table.entries htables

end Preparation

/-- What a model accepts is restored exactly if it stays. -/
theorem restores_iff (hV : V.Checks) (hW : V.Writes) (hmodels : models.All Model.Regular)
    (hm : m.Regular) {v : Json} {a : Accepted} (h : V.checkModel models m v = .ok a) :
    V.Restores (V.checkModel models m) a ↔ a.Stable V := by
  obtain ⟨data, outcome, -, houtcome, hclosed, rfl⟩ := hV.exists_obj h
  rw [← checkModel_again_iff hV hW hmodels hm houtcome hclosed, Validator.Restores,
    toJson_model hW]

end Payload

/-! ### Event classes -/

namespace EventModel

open Payload

variable {m : EventModel} {a : Accepted}

/-- What is given stays when a payload is prepared, unless it becomes a text, or a number in a field
of one. -/
theorem value_of_prepare (h : m.prepare data = .ok out) (hn : (data.value n).isNull = false) :
    out.value n = data.value n ∨ (∃ text, out.value n = .str text) ∨
      (∃ k, out.value n = .int k) ∧ ∃ p ∈ m.pairs, p.idField = n := by
  obtain ⟨agreed, hagreed, rfl⟩ := exists_reconcile_of_prepare h
  have hkept : (agreed.value n).isNull = false ∧ (agreed.value n = data.value n ∨
      (∃ text, agreed.value n = .str text) ∨
      (∃ k, agreed.value n = .int k) ∧ ∃ p ∈ m.pairs, p.idField = n) :=
    keeps_of_reconcile (P := fun v ↦ v.isNull = false ∧
      (v = data.value n ∨ (∃ text, v = .str text) ∨
      (∃ k, v = .int k) ∧ ∃ p ∈ m.pairs, p.idField = n))
      (fun hfield k ↦ ⟨rfl, .inr (.inr ⟨⟨k, rfl⟩, hfield⟩)⟩)
      (fun text ↦ ⟨rfl, .inr (.inl ⟨text, rfl⟩)⟩) hagreed ⟨hn, .inl rfl⟩
  rw [value_prefill_of_given _ hkept.1]
  exact hkept.2

/-- No double comes in when a payload is prepared. -/
theorem value_eq_of_prepare_float (h : m.prepare data = .ok out) {x : Float}
    (hx : out.value n = .float x) : data.value n = .float x := by
  have hkept : out.value n = data.value n ∨ (out.value n).IsStrict := by
    refine prepare_induction (P := fun out ↦ out.value n = data.value n ∨ (out.value n).IsStrict)
      (fun next key v hv hnext ↦ ?_) h (.inl rfl)
    rw [value_put]
    split
    · exact .inr hv
    · exact hnext
  rw [hx] at hkept
  obtain heq | ⟨_, hstrict⟩ | ⟨_, hstrict⟩ | ⟨_, hstrict⟩ := hkept
  · exact heq.symm
  all_goals cases hstrict

/-- The members of a payload come first when it is prepared. -/
theorem names_prefix_of_prepare (h : m.prepare data = .ok out) :
    Entries.names data <+: Entries.names out := by
  refine prepare_induction (P := fun out ↦ Entries.names data <+: Entries.names out)
    (fun next key v _ hnext ↦ ?_) h (List.prefix_refl _)
  rw [Entries.names_put]
  split
  · exact hnext
  · exact hnext.trans (List.prefix_append _ _)

/-- A payload that was prepared is a preparation of what was given. -/
theorem preparation_of_prepare (hm : EventModel.ofEntity e = .ok m)
    (hkeyed : KeyedAttributes e.attributes) (h : m.prepare data = .ok out)
    (hdata : (Entries.names data).Nodup)
    (hgiven : ∀ n v, Entries.get? data n = some v → v.isNull = false) :
    Preparation m.model data out where
  nodup := nodup_of_prepare h hdata
  given := by
    refine prepare_induction (P := fun out ↦ ∀ n v, Entries.get? out n = some v → v.isNull = false)
      (fun data key w hw hdata n v hv ↦ ?_) h hgiven
    rw [Entries.get?_put] at hv
    split at hv
    · exact Option.some.inj hv ▸ hw.isNull
    · exact hdata n v hv
  names := names_prefix_of_prepare h
  value n v w hv hw := by
    have hvalue := value_of_prepare h (n := n) (value_eq_of_get? hv ▸ hgiven n v hv)
    rw [value_eq_of_get? hv, value_eq_of_get? hw] at hvalue
    refine hvalue.imp_right (Or.imp_right fun ⟨hint, p, hp, hfield⟩ ↦ ⟨hint, fun r hr hkey ↦ ?_⟩)
    exact content_of_idField hm hkeyed hp hr (hkey.trans hfield.symm)

/-- Nothing that was prepared, accepted and written down the same again is null: what was null would
have stayed or become a strict value, but only doubles are written down as null. -/
theorem not_null_of_written_again (hV : V.Checks) (hW : V.Writes)
    {outcome : FieldRule → Option Accepted}
    (h : m.prepare (written V m.model outcome out) = .ok out)
    (hnodup : (Entries.names (written V m.model outcome out)).Nodup)
    (houtcome : ∀ r ∈ m.model.fields.values, V.FieldOutcome models out r (outcome r)) (n : String)
    (v : Json) (hv : Entries.get? (written V m.model outcome out) n = some v) :
    v.isNull = false := by
  by_contra hnull
  obtain rfl := Json.isNull_iff.1 ((Bool.not_eq_false _).mp hnull)
  have hmem := Entries.mem_of_get? hv
  obtain ⟨x, hx⟩ := exists_float_of_written_null hV houtcome hW (nodup_of_prepare h hnodup) hmem
    ((names_prefix_of_prepare h).subset (List.mem_map_of_mem hmem))
  have hfloat := value_eq_of_prepare_float h (value_eq_of_get? hx)
  rw [value_eq_of_get? hv] at hfloat
  cases hfloat

/-- What an event class accepts is restored exactly if it stays and preparing what was written down
of it changes nothing, which it does not for payloads that stay and mix up nothing. -/
theorem restores_iff (hV : V.Checks) (hW : V.Writes) (hm : EventModel.ofEntity e = .ok m)
    (hkeyed : KeyedAttributes e.attributes) (hmodels : models.All Model.Regular)
    (hdata : (Entries.names data).Nodup) (h : m.checkBy V models (.obj data) = .ok a) :
    ∃ out, V.toJson a = .obj out ∧
      (V.Restores (m.checkBy V models) a ↔ a.Stable V ∧ m.prepare out = .ok out) ∧
      (m.Unmixed data → a.Stable V → m.prepare out = .ok out) := by
  have hregular : m.model.Regular := (parts_of_ofEntity hm).1 ▸ Model.regular_ofEntity e
  rw [checkBy] at h
  cases hprepare : m.prepare data with
  | error x => rw [hprepare] at h; cases h
  | ok prepared =>
    rw [hprepare] at h
    obtain ⟨_, outcome, heq, houtcome, hclosed, rfl⟩ := hV.exists_obj h
    obtain rfl := Json.obj.inj heq
    have hout := toJson_model hW m.model outcome prepared
    refine ⟨_, hout, ?_, fun hunmixed hstable ↦
      prepare_written hV hW hm hkeyed hprepare hunmixed houtcome (stable_model_iff.1 hstable).1⟩
    rw [← checkModel_again_iff hV hW hmodels hregular houtcome hclosed, Validator.Restores, hout,
      checkBy]
    constructor
    · rintro ⟨b, hb, hjson⟩
      cases hsecond : m.prepare (written V m.model outcome prepared) with
      | error x => rw [hsecond] at hb; cases hb
      | ok second =>
        rw [hsecond] at hb
        obtain ⟨_, o, heq, ho, -, rfl⟩ := hV.exists_obj hb
        obtain rfl := Json.obj.inj heq
        have hsame : written V m.model o second = written V m.model outcome prepared :=
          Json.obj.inj ((toJson_model hW m.model o second).symm.trans hjson)
        have hnodup : (Entries.names (written V m.model o second)).Nodup :=
          hsame ▸ nodup_written hregular (nodup_of_prepare hprepare hdata)
        rw [← hsame] at hsecond
        have hpreparation : Preparation m.model (written V m.model o second) second :=
          preparation_of_prepare hm hkeyed hsecond hnodup
            (not_null_of_written_again hV hW hsecond hnodup ho)
        obtain rfl : second = written V m.model outcome prepared :=
          (hpreparation.eq_written hV hregular ho hW).trans hsame
        exact ⟨⟨_, hb, (toJson_model hW _ _ _).trans (congrArg Json.obj hsame)⟩, rfl⟩
    · rintro ⟨⟨b, hb, hjson⟩, hsame⟩
      rw [hsame]
      exact ⟨b, hb, hjson⟩

end EventModel

/-! ### Planned classes -/

namespace Package

/-- The models of a plan have a field for each key. -/
theorem Plan.regular_models (p : Plan) : p.models.All Model.Regular := by
  intro n m hm
  rw [Plan.models, Table.get?_map] at hm
  obtain ⟨e, -, rfl⟩ := Option.map_eq_some_iff.1 hm
  exact Model.regular_ofEntity e

open Payload

/-- Which of the payloads that the classes of a plan accept by a validator are restored. -/
structure Plan.Restoring (p : Plan) (V : Validator) : Prop where
  /-- For objects, those that stay. -/
  objects : ∀ n e, p.objects.get? n = some e → ∀ v a,
    V.checkModel p.models (Model.ofEntity e) v = .ok a →
    (V.Restores (V.checkModel p.models (Model.ofEntity e)) a ↔ a.Stable V)
  /-- For event classes, those that stay and are left as they are when they are prepared again. -/
  events : ∀ n e m, p.events.get? n = some e → EventModel.ofEntity e = .ok m → ∀ data a,
    (Entries.names data).Nodup → m.checkBy V p.models (.obj data) = .ok a →
    ∃ out, V.toJson a = .obj out ∧
      (V.Restores (m.checkBy V p.models) a ↔ a.Stable V ∧ m.prepare out = .ok out) ∧
      (m.Unmixed data → a.Stable V → m.prepare out = .ok out)

/-- The documents of an object and an event class, whose only attribute may hold any value. The
object must give it. -/
def dataDocuments : Catalog.Documents where
  version := "\x7b\"version\": \"1.0.0\"\x7d"
  categories := "\x7b\"attributes\": \x7b\"system\": \x7b\"uid\": 1\x7d\x7d\x7d"
  dictionary := "\x7b\"attributes\": \x7b\"data\": \x7b\"type\": \"json_t\"\x7d\x7d\x7d"
  objects := [("thing.json", "\x7b\"name\": \"thing\", " ++
      "\"attributes\": \x7b\"data\": \x7b\"requirement\": \"required\"\x7d\x7d\x7d")]
  events := [("note.json", "\x7b\"name\": \"note\", \"category\": \"system\", \"uid\": 1, " ++
      "\"closed\": false, \"attributes\": \x7b\"data\": \x7b\x7d\x7d\x7d")]

/-- A schema tree with that object and that event class. -/
def dataTree : FileTree := dataDocuments.tree

/-- The attributes of its dictionary. -/
def dataDictionary : Entries Json := [("data", .obj [("type", .str "json_t")])]

/-- Its object. -/
def thingItem : Catalog.Item where
  path := ⟨"", ["objects", "thing.json"]⟩
  name := "thing"
  members := [("name", .str "thing"),
    ("attributes", .obj [("data", .obj [("requirement", .str "required")])])]

/-- Its event class. -/
def noteItem : Catalog.Item where
  path := ⟨"", ["events", "note.json"]⟩
  name := "note"
  members :=
    [("name", .str "note"), ("category", .str "system"), ("uid", .int 1), ("closed", .bool false),
      ("attributes", .obj [("data", .obj [])])]

/-- The attribute, with its requirement and the details that its owner gave itself. -/
def dataAttribute (requirement : String) (overrides : List String) : Attribute where
  name := "data"
  scalarType := "json_t"
  target := none
  isArray := false
  requirement := .str requirement
  caption := .str ""
  description := Text.plain ""
  sibling := .null
  enumValues := none
  deprecation := none
  profile := .null
  overrides := .ofList overrides

/-- The catalog of the tree. -/
def dataCatalog : Catalog where
  version := .str "1.0.0"
  categories := Table.empty.put "system" (.number 1)
  objects := Table.empty.put "thing" {
    kind := .object
    name := "thing"
    ancestor := none
    caption := .str ""
    description := Text.plain ""
    attributes := Table.empty.put "data" (dataAttribute "required" ["requirement"])
    closed := none
    category := .null
    uid := none
    isHidden := false }
  events := Table.empty.put "note" {
    kind := .event
    name := "note"
    ancestor := none
    caption := .str ""
    description := Text.plain ""
    attributes := Table.empty.put "data" (dataAttribute "optional" [])
    closed := some false
    category := .str "system"
    uid := some (.number 1)
    isHidden := false }
  enums := .empty

/-- The object with all that it inherits, which is nothing. -/
def thingEntity : Entity where
  kind := .object
  name := "thing"
  caption := .str ""
  description := Text.plain ""
  attributes := Table.empty.put "data" (dataAttribute "required" ["requirement"])
  closed := false
  isHidden := false
  ancestor := none
  category := none
  categoryUid := .number 0
  classUid := 0

/-- The event class with all that it inherits, which is nothing either. -/
def noteEntity : Entity where
  kind := .event
  name := "note"
  caption := .str ""
  description := Text.plain ""
  attributes := Table.empty.put "data" (dataAttribute "optional" [])
  closed := false
  isHidden := false
  ancestor := none
  category := some "system"
  categoryUid := .number 1
  classUid := 1001

/-- What the catalog comes to. -/
def dataSchema : Schema :=
  ⟨.str "1.0.0", Table.empty.put "thing" thingEntity, Table.empty.put "note" noteEntity, .empty⟩

theorem readAttribute_data {dict : Catalog.Dictionary} (hdict : dict.attributes = dataDictionary)
    (place : String) :
    Catalog.readAttribute dict place "data" (.obj [("requirement", .str "required")]) =
      .ok (dataAttribute "required" ["requirement"]) ∧
    Catalog.readAttribute dict place "data" (.obj []) = .ok (dataAttribute "optional" []) := by
  have hget : dataDictionary.get? "data" = some (.obj [("type", .str "json_t")]) := rfl
  have hrequired :
      Json.merge (.obj [("type", .str "json_t")]) (.obj [("requirement", .str "required")]) =
      .obj [("type", .str "json_t"), ("requirement", .str "required")] := by
    simp [Json.merge, Json.mergeMembers, Entries.get?, Entries.put]
  have htype (rest : Entries Json) :
      Catalog.readType dict place "data" (("type", .str "json_t") :: rest) =
        .ok ("json_t", .null) :=
    Catalog.readType_of_scalar rfl (by decide) (by decide +kernel)
  constructor
  · simp only [Catalog.readAttribute, hdict, hget, hrequired, Catalog.ofShape_membersFor, bind,
      Except.bind, htype]
    rfl
  · simp only [Catalog.readAttribute, hdict, hget, Json.merge_empty, Catalog.ofShape_membersFor,
      bind, Except.bind, htype]
    rfl

/-- What the documents say. -/
def dataContents : Catalog.Contents where
  version := .str "1.0.0"
  categories := [("attributes", .obj [("system", .obj [("uid", .int 1)])])]
  attributes := dataDictionary
  types := []
  objects := [thingItem]
  events := [noteItem]
  profiles := []

theorem says_dataDocuments : Catalog.Says dataDocuments dataContents where
  version := ⟨_, .of_chars rfl rfl, rfl⟩
  categories := .of_chars rfl rfl
  dictionary := ⟨_, _, .of_chars rfl rfl, rfl, rfl, rfl⟩
  objects := ⟨by decide +kernel, by decide,
    .cons ⟨rfl, rfl, ⟨.of_chars (Catalog.append_eq_ofList rfl rfl) rfl, rfl, by decide⟩⟩ .nil⟩
  events := ⟨by decide +kernel, by decide,
    .cons ⟨rfl, rfl, ⟨.of_chars (Catalog.append_eq_ofList rfl rfl) rfl, rfl, by decide⟩⟩ .nil⟩
  profiles := .nil _ _
  plain := by decide +kernel

theorem catalog_dataContents : dataContents.catalog = .ok dataCatalog := by
  have henums : Catalog.readSharedEnums dataDictionary = .ok .empty :=
    Catalog.readSharedEnums_of_plain (by decide +kernel)
  have hhidden : Catalog.isHiddenObject "thing" = false := by decide +kernel
  have hattribute := readAttribute_data
    (show Catalog.Dictionary.attributes ⟨dataDictionary, [], ["thing"], false⟩ =
      dataDictionary from rfl)
  have hobjects : dataContents.objects.map Catalog.Item.plain =
    [⟨"thing", thingItem.members, [("data", .obj [("requirement", .str "required")])]⟩] := rfl
  have hevents : dataContents.events.map Catalog.Item.plain =
    [⟨"note", noteItem.members, [("data", .obj [])]⟩] := rfl
  have hnames : dataContents.objects.map (·.name) = ["thing"] := rfl
  have hdatetime : Catalog.readDatetime dataContents.profiles dataContents.types = .ok false := rfl
  rw [Catalog.Contents.catalog, hobjects, hevents, hnames, hdatetime]
  simp only [dataContents, Catalog.readDefinitions, Catalog.readDefinition, Catalog.readAttributes,
    hattribute, henums, hhidden, bind, Except.bind]
  rfl

/-- The tree is read as its catalog. -/
theorem read_dataTree : (Catalog.read dataTree ⟨"", []⟩).outcome.1 = .ok dataCatalog :=
  (says_dataDocuments.outcome_read rfl).trans catalog_dataContents

theorem resolve_dataCatalog : dataCatalog.resolve.outcome.1 = .ok dataSchema := rfl

theorem plannedEvents_dataSchema : plannedEvents dataSchema = dataSchema.events := by
  have hsorted : dataSchema.events.sorted = dataSchema.events :=
    Table.sorted_eq_self (List.pairwise_singleton _ _)
  rw [plannedEvents, hsorted]
  rfl

theorem plannedObjects_dataSchema :
    plannedObjects dataSchema (plannedEvents dataSchema) = .ok dataSchema.objects := by
  have hsorted : dataSchema.objects.sorted = dataSchema.objects :=
    Table.sorted_eq_self (List.pairwise_singleton _ _)
  rw [plannedEvents_dataSchema, plannedObjects, plannedRoots, hsorted]
  rfl

/-- There is a plan with the object and the event class. -/
theorem exists_plan_dataSchema : ∃ p, plan dataSchema ⟨[], []⟩ = .ok p ∧
    p.objects.get? "thing" = some thingEntity ∧ p.events.get? "note" = some noteEntity := by
  have hascending : dataSchema.objects.entries.Pairwise fun a b ↦ a.1 ≤ b.1 :=
    List.pairwise_singleton _ _
  have henums : plannedEnums dataSchema dataSchema.events = .ok .empty :=
    plannedEnums_of_empty rfl rfl
  have hok : (plan dataSchema ⟨[], []⟩).isOk = true := by
    rw [plan, plannedObjects_dataSchema, plannedEvents_dataSchema, henums]
    dsimp only [bind, Except.bind]
    simp only [objectOrder, ReferenceGraph.ofObjects_of_ascending hascending]
    decide +kernel
  obtain ⟨p, hplan⟩ := exists_of_isOk hok
  have hp := plan_eq_ok_iff.1 hplan
  refine ⟨p, hplan, ?_, ?_⟩
  · rw [← Except.ok.inj (plannedObjects_dataSchema.symm.trans hp.objects)]
    rfl
  · rw [hp.events, plannedEvents_dataSchema]
    rfl

end Package

end EventSchema
