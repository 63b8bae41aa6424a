import EventSchema.Proofs.Catalog.Companions
import EventSchema.Proofs.Package.Rendering

/-!
# The identifiers of event classes

An event class that is planned gives an identifier of its own, unless it is the base of all, and it
is known by that behind the identifier of its category (`classUids_of_read`). An identifier of its
own is less than a thousand, so two event classes that are known by the same number are of the same
category and have the same identifier, as long as neither is negative. Nothing keeps identifiers
from that, though, and an event class may give null for one: then its number is that of another
category, or of none (`collide_of_probeTree`).
-/

namespace EventSchema

variable {categories : Table Uid} {chain : List Definition} {d : Definition}
  {e : Entity} {v : Json} {n : String}

/-! ### Identifiers of entities -/

/-- An event class has the identifiers that follow from its lineage. -/
theorem uids_of_ofLineage (h : Entity.ofLineage categories chain d = .ok e)
    (hkind : d.kind = .event) :
    e.isHidden = d.isHidden ∧
    eventUids categories chain d = .ok (e.category, e.categoryUid, e.classUid) := by
  unfold Entity.ofLineage at h
  rw [hkind] at h
  obtain ⟨⟨category, uid, classUid⟩, huids, h⟩ := bind_eq_ok h
  cases h
  exact ⟨rfl, huids⟩

/-- The number of an event class that is not hidden is zero without an identifier of its own, and
otherwise that behind the identifier of its category. -/
theorem classUid_of_eventUids {category : Option String} {uid : Uid} {classUid : Int}
    (hhidden : d.isHidden = false)
    (h : eventUids categories chain d = .ok (category, uid, classUid)) :
    (d.uid = none → classUid = 0) ∧ ∀ own, d.uid = some own → scopedUid uid own = .ok classUid := by
  unfold eventUids at h
  dsimp only at h
  split at h
  · rw [hhidden] at h
    cases h
  · obtain ⟨⟨name, uid'⟩, -, h⟩ := bind_eq_ok h
    cases huid : d.uid with
    | none =>
      rw [huid] at h
      cases h
      exact ⟨fun _ ↦ rfl, fun own hown ↦ (by cases hown)⟩
    | some own =>
      rw [huid] at h
      obtain ⟨classUid', hscoped, h⟩ := bind_eq_ok h
      cases h
      refine ⟨fun hnone ↦ (by cases hnone), fun own' hown ↦ ?_⟩
      cases hown
      exact hscoped

/-- A class is numbered by its category and its own identifier, which is below the size of
categories. -/
theorem scopedUid_eq_ok {categoryUid own : Uid} {classUid : Int}
    (h : scopedUid categoryUid own = .ok classUid) :
    own.toInt < categorySize ∧ classUid = categoryUid.toInt * categorySize + own.toInt := by
  unfold scopedUid at h
  split at h
  · next hlt =>
    cases h
    exact ⟨hlt, rfl⟩
  · cases h

/-- An identifier is told by its value. -/
theorem uid_toJson_injective {u u' : Uid} (h : u.toJson = u'.toJson) : u = u' := by
  cases u <;> cases u' <;> cases h <;> rfl

theorem uid_toJson_ne_null (u : Uid) : u.toJson ≠ .null := by
  cases u <;> exact fun h ↦ by cases h

/-! ### Identifiers that items give -/

namespace Catalog

/-- An item of a name gives a value for its identifier. -/
def GivesUid (items : List ResolvedItem) (n : String) (v : Json) : Prop :=
  ∃ item ∈ items, item.name = n ∧ Entries.get? item.members "uid" = some v

end Catalog

open Catalog

namespace Package

/-- How an event class is numbered by what its item gives for its own identifier. Divided by the
size of categories, with the quotient rounded down, its number is split into the two identifiers
exactly if its own is not negative. -/
structure NumberedBy (v : Json) (e : Entity) : Prop where
  given : v = .null ∨ ∃ own : Uid, v = own.toJson
  null : v = .null → e.classUid = 0
  below : ∀ own : Uid, v = own.toJson → own.toInt < categorySize
  classUid : ∀ own : Uid, v = own.toJson →
    e.classUid = e.categoryUid.toInt * categorySize + own.toInt
  quotient_iff : ∀ own : Uid, v = own.toJson →
    (e.classUid / categorySize = e.categoryUid.toInt ↔ 0 ≤ own.toInt)
  remainder_iff : ∀ own : Uid, v = own.toJson →
    (e.classUid % categorySize = own.toInt ↔ 0 ≤ own.toInt)

/-- A class whose item gives null is numbered zero. -/
theorem numberedBy_null (h : e.classUid = 0) : NumberedBy .null e where
  given := .inl rfl
  null _ := h
  below own hown := absurd hown.symm (uid_toJson_ne_null own)
  classUid own hown := absurd hown.symm (uid_toJson_ne_null own)
  quotient_iff own hown := absurd hown.symm (uid_toJson_ne_null own)
  remainder_iff own hown := absurd hown.symm (uid_toJson_ne_null own)

/-- A class whose item gives an identifier is numbered by that. -/
theorem numberedBy_toJson {own : Uid} (h : scopedUid e.categoryUid own = .ok e.classUid) :
    NumberedBy own.toJson e := by
  obtain ⟨hlt, hclass⟩ := scopedUid_eq_ok h
  have hsize : categorySize = 1000 := rfl
  refine ⟨.inr ⟨own, rfl⟩, fun hnull ↦ absurd hnull (uid_toJson_ne_null own), ?_, ?_, ?_, ?_⟩
  all_goals
    intro own' hown
    obtain rfl := uid_toJson_injective hown
  · exact hlt
  · exact hclass
  · rw [hsize] at hlt hclass ⊢
    omega
  · rw [hsize] at hlt hclass ⊢
    omega

/-- The planned event classes are numbered by what their items give for their own identifiers. All
but the base of event classes give something, and where it is not negative no two of different
identifiers have one number. -/
structure NumbersEvents (items : List ResolvedItem) (events : Table Entity) : Prop where
  given : ∀ n e, events.get? n = some e → n ≠ "base_event" → ∃ v, GivesUid items n v
  numbered : ∀ n e v, events.get? n = some e → GivesUid items n v → NumberedBy v e
  distinct : ∀ n n' e e' (own own' : Uid), events.get? n = some e → events.get? n' = some e' →
    GivesUid items n own.toJson → GivesUid items n' own'.toJson → 0 ≤ own.toInt → 0 ≤ own'.toInt →
      e.classUid = e'.classUid → e.categoryUid.toInt = e'.categoryUid.toInt ∧ own.toInt = own'.toInt

/-- Event classes that are numbered one by one are numbered as planned. -/
theorem numbersEvents_of_numbered {items : List ResolvedItem} {events : Table Entity}
    (hgiven : ∀ n e, events.get? n = some e → n ≠ "base_event" → ∃ v, GivesUid items n v)
    (hnumbered : ∀ n e v, events.get? n = some e → GivesUid items n v → NumberedBy v e) :
    NumbersEvents items events where
  given := hgiven
  numbered := hnumbered
  distinct n n' e e' own own' he he' hown hown' hpos hpos' heq := by
    have hn := hnumbered n e _ he hown
    have hn' := hnumbered n' e' _ he' hown'
    -- both identifiers are read off the common number
    constructor
    · rw [← (hn.quotient_iff own rfl).2 hpos, heq, (hn'.quotient_iff own' rfl).2 hpos']
    · rw [← (hn.remainder_iff own rfl).2 hpos, heq, (hn'.remainder_iff own' rfl).2 hpos']

/-- The event classes of definitions that were read are numbered by what their items give. -/
theorem numbersEvents_of_read {dict : Dictionary} {items : List ResolvedItem}
    {definitions : Table Definition} {s : Schema}
    (hitems : (items.map (·.name)).Nodup)
    (hread : readDefinitions dict .event .empty items = .ok definitions)
    (hentities : HoldsEntities definitions categories definitions.names s.events) :
    NumbersEvents items (plannedEvents s) := by
  have hevent {n : String} {e : Entity} (he : (plannedEvents s).get? n = some e) :
      ∃ item ∈ items, ∃ d, item.name = n ∧
      readDefinition dict .event item = .ok d ∧ isHiddenEvent item.name item.members = false ∧
        (d.uid = none → e.classUid = 0) ∧ ∀ own, d.uid = some own →
        scopedUid e.categoryUid own = .ok e.classUid := by
    obtain ⟨hget, hhidden⟩ := get?_plannedEvents_iff.1 he
    obtain ⟨chain, hchain, hof⟩ := bind_eq_ok ((hentities.get?_iff n e).1 hget).2
    obtain ⟨ancestors, d, hdescends, rfl⟩ := descends_of_lineage hchain
    rw [List.getLast?_concat] at hof
    obtain ⟨item, hitem, hname, hd⟩ :=
      (exists_item_of_readDefinitions hread hdescends.get?).resolve_left (by simp)
    have hdefinition := readDefinition_ok hd
    obtain ⟨hsame, huids⟩ := uids_of_ofLineage hof hdefinition.kind_eq
    rw [hsame] at hhidden
    exact ⟨item, hitem, d, hname, hd, (hdefinition.event rfl).1 ▸ hhidden,
      classUid_of_eventUids hhidden huids⟩
  refine numbersEvents_of_numbered (fun n e he hbase ↦ ?_) fun n e v he hgives ↦ ?_
  · obtain ⟨item, hitem, d, hname, -, hhidden, -⟩ := hevent he
    have hhas : Entries.has item.members "uid" = true := by
      simpa [isHiddenEvent, hname, hbase] using hhidden
    obtain ⟨v, hv⟩ : ∃ v, Entries.get? item.members "uid" = some v := by
      refine Option.ne_none_iff_exists'.1 fun hnone ↦ ?_
      exact Entries.get?_eq_none_iff.1 hnone (Entries.has_iff.1 hhas)
    exact ⟨v, item, hitem, hname, hv⟩
  · obtain ⟨item, hitem, d, rfl, hd, -, hnone, hsome⟩ := hevent he
    obtain ⟨item', hitem', hname, hv⟩ := hgives
    obtain rfl : item' = item := List.inj_on_of_nodup_map hitems hitem' hitem hname
    obtain ⟨place, huid⟩ := ((readDefinition_ok hd).event rfl).2
    rcases uid_of_readUid huid with ⟨hnull, hgiven⟩ | ⟨own, hown, hget⟩
    · obtain rfl := hgiven v hv
      exact numberedBy_null (hnone hnull)
    · obtain rfl := Option.some.inj (hget.symm.trans hv)
      exact numberedBy_toJson (hsome own hown)

/-- **The numbers of event classes.** Whatever schema was read and worked out, the event classes of
its package are numbered by what they give for their own identifiers. -/
theorem classUids_of_read (tree : FileTree) (schema : Path) (c : Catalog) (s : Schema)
    (deferral : Deferral) (p : Plan) (hread : (Catalog.read tree schema).outcome.1 = .ok c)
    (hresolve : c.resolve.outcome.1 = .ok s) (hplan : plan s deferral = .ok p) :
    ∃ dict objects events, ReadFrom tree schema dict objects events c ∧
    NumbersEvents events p.events := by
  obtain ⟨dict, objects, events, hfrom⟩ := readFrom_of_read hread
  obtain ⟨-, heventEntities⟩ := entities_of_resolve hresolve
  rw [(plan_eq_ok_iff.1 hplan).events]
  exact ⟨dict, objects, events, hfrom,
    numbersEvents_of_read hfrom.nodup.2 hfrom.events heventEntities⟩

/-! ### Numbers of other categories -/

/-- The documents of three event classes: one with the greatest identifier of its category, one with
a negative identifier, and one with null for an identifier. -/
def probeDocuments : Documents where
  version := "\x7b\"version\": \"1.0.0\"\x7d"
  categories := "\x7b\"attributes\": \x7b\"system\": \x7b\"uid\": 1\x7d, " ++
    "\"network\": \x7b\"uid\": 2\x7d\x7d\x7d"
  dictionary := "\x7b\x7d"
  events := [
    ("echo.json", "\x7b\"name\": \"echo\", \"category\": \"system\", \"uid\": 999\x7d"),
    ("ping.json", "\x7b\"name\": \"ping\", \"category\": \"network\", \"uid\": -1\x7d"),
    ("probe.json", "\x7b\"name\": \"probe\", \"category\": \"network\", \"uid\": null\x7d")]

/-- A schema tree with these event classes. -/
def probeTree : FileTree := probeDocuments.tree

/-- An event class of the tree as it is read. -/
def probeItem (name category : String) (uid : Json) : Item where
  path := ⟨"", ["events", name ++ ".json"]⟩
  name := name
  members := [("name", .str name), ("category", .str category), ("uid", uid)]

/-- Its definition. -/
def probeDefinition (name category : String) (uid : Option Uid) : Definition where
  kind := .event
  name := name
  ancestor := none
  caption := .str ""
  description := Text.plain ""
  attributes := .empty
  closed := none
  category := .str category
  uid := uid
  isHidden := false

/-- The event class with all that it inherits, which is nothing. -/
def probeEntity (name category : String) (categoryUid : Uid) (classUid : Int) : Entity where
  kind := .event
  name := name
  caption := .str ""
  description := Text.plain ""
  attributes := .empty
  closed := true
  isHidden := false
  ancestor := none
  category := some category
  categoryUid := categoryUid
  classUid := classUid

/-- The catalog of the tree. -/
def probeCatalog : Catalog where
  version := .str "1.0.0"
  categories := (Table.empty.put "system" (.number 1)).put "network" (.number 2)
  objects := .empty
  events :=
    ((Table.empty.put "echo" (probeDefinition "echo" "system" (some (.number 999)))).put "ping"
      (probeDefinition "ping" "network" (some (.number (-1))))).put "probe"
      (probeDefinition "probe" "network" none)
  enums := .empty

/-- What the catalog comes to. -/
def probeSchema : Schema where
  version := .str "1.0.0"
  objects := .empty
  events := ((Table.empty.put "echo" (probeEntity "echo" "system" (.number 1) 1999)).put "ping"
    (probeEntity "ping" "network" (.number 2) 1999)).put "probe" (probeEntity "probe" "network"
      (.number 2) 0)
  enums := .empty

/-- The event classes of the tree as they are read. -/
def probeItems : List Item :=
  [probeItem "echo" "system" (.int 999), probeItem "ping" "network" (.int (-1)),
    probeItem "probe" "network" .null]

/-- The event classes of the tree with their includes resolved. -/
def probeEvents : List ResolvedItem := probeItems.map Item.plain

/-- What the documents say. -/
def probeContents : Contents where
  version := .str "1.0.0"
  categories := [("attributes",
    .obj [("system", .obj [("uid", .int 1)]), ("network", .obj [("uid", .int 2)])])]
  attributes := []
  types := []
  objects := []
  events := probeItems
  profiles := []

theorem says_probeDocuments : Says probeDocuments probeContents where
  version := ⟨_, .of_chars rfl rfl, rfl⟩
  categories := .of_chars (append_eq_ofList rfl rfl) rfl
  dictionary := ⟨_, _, .of_chars rfl rfl, rfl, rfl, rfl⟩
  objects := .nil _ _
  events := ⟨by decide +kernel, by decide,
    .cons ⟨rfl, rfl, ⟨.of_chars rfl rfl, rfl, by decide⟩⟩
      (.cons ⟨rfl, rfl, ⟨.of_chars rfl rfl, rfl, by decide⟩⟩
        (.cons ⟨rfl, rfl, ⟨.of_chars rfl rfl, rfl, by decide⟩⟩ .nil))⟩
  profiles := .nil _ _
  plain := by decide +kernel

/-- The tree of probes is read as its catalog. -/
theorem read_probeTree : (read probeTree ⟨"", []⟩).outcome.1 = .ok probeCatalog := by
  have henums : readSharedEnums [] = .ok .empty := readSharedEnums_of_plain (List.forall_mem_nil _)
  have hcatalog : probeContents.catalog = .ok probeCatalog := by
    rw [Contents.catalog, show probeContents.attributes = [] from rfl, henums]
    rfl
  exact (says_probeDocuments.outcome_read rfl).trans hcatalog

theorem resolve_probeCatalog : probeCatalog.resolve.outcome.1 = .ok probeSchema := rfl

theorem plannedEvents_probeSchema : plannedEvents probeSchema = probeSchema.events := by
  have hsorted : probeSchema.events.sorted = probeSchema.events :=
    Table.sorted_eq_self (by decide +kernel)
  rw [plannedEvents, hsorted]
  rfl

/-- There is a plan with the event classes of the tree. -/
theorem exists_plan_probeSchema : ∃ p, plan probeSchema ⟨[], []⟩ = .ok p ∧
    p.events = probeSchema.events := by
  have hobjects : plannedObjects probeSchema probeSchema.events = .ok .empty :=
    plannedObjects_of_empty rfl rfl
  have henums : plannedEnums probeSchema probeSchema.events = .ok .empty :=
    plannedEnums_of_empty rfl rfl
  have hok : (plan probeSchema ⟨[], []⟩).isOk = true := by
    rw [plan, plannedEvents_probeSchema, hobjects]
    simp only [bind, Except.bind, henums, objectOrder_empty]
    decide +kernel
  obtain ⟨p, hplan⟩ := exists_of_isOk hok
  exact ⟨p, hplan, (plan_eq_ok_iff.1 hplan).events.trans plannedEvents_probeSchema⟩

/-- The number of an echo is split into the identifier of its category and its own, the greatest
that there is. -/
theorem classUids_of_read_probeTree : ∃ p, (read probeTree ⟨"", []⟩).outcome.1 = .ok probeCatalog ∧
    probeCatalog.resolve.outcome.1 = .ok probeSchema ∧ plan probeSchema ⟨[], []⟩ = .ok p ∧
      ∃ echo, p.events.get? "echo" = some echo ∧
        echo.classUid / categorySize = echo.categoryUid.toInt ∧
        echo.classUid % categorySize = 999 := by
  obtain ⟨p, hplan, hevents⟩ := exists_plan_probeSchema
  obtain ⟨dict, objects, events, hfrom, hnumbers⟩ :=
    classUids_of_read probeTree ⟨"", []⟩ probeCatalog probeSchema
      ⟨[], []⟩ p read_probeTree resolve_probeCatalog hplan
  obtain rfl : events = probeEvents := by
    obtain ⟨hobjectItems, heventItems, hprofiles⟩ := says_probeDocuments.items
    exact (hfrom.items_eq hprofiles heventItems hobjectItems fun j ↦
      congrArg Prod.fst (says_probeDocuments.resolveIncludes_eq j)).2
  have hecho : p.events.get? "echo" = some (probeEntity "echo" "system" (.number 1) 1999) := by
    rw [hevents]
    rfl
  have hgives : GivesUid probeEvents "echo" (.int 999) := ⟨_, List.mem_cons_self, rfl, rfl⟩
  have hnumbered := hnumbers.numbered "echo" _ _ hecho hgives
  refine ⟨p, read_probeTree, resolve_probeCatalog, hplan, _, hecho, ?_, ?_⟩
  · exact (hnumbered.quotient_iff (.number 999) rfl).2 (by decide)
  · exact (hnumbered.remainder_iff (.number 999) rfl).2 (by decide)

/-- Of the event classes of the tree, two have one number, although they are of different categories
and have different identifiers, and the numbers of two lie in other categories than theirs. -/
theorem collide_of_probeTree : ∃ c s p, (read probeTree ⟨"", []⟩).outcome.1 = .ok c ∧
    c.resolve.outcome.1 = .ok s ∧
    plan s ⟨[], []⟩ = .ok p ∧ ∃ echo ping probe, p.events.get? "echo" = some echo ∧
      p.events.get? "ping" = some ping ∧ p.events.get? "probe" = some probe ∧
      ((c.events.get? "echo").bind (·.uid) = some (.number 999) ∧
        (c.events.get? "ping").bind (·.uid) = some (.number (-1)) ∧
        echo.categoryUid.toInt ≠ ping.categoryUid.toInt ∧ echo.classUid = ping.classUid) ∧
      ping.classUid / categorySize ≠ ping.categoryUid.toInt ∧ ping.classUid % categorySize ≠ -1 ∧
      probe.classUid / categorySize ≠ probe.categoryUid.toInt := by
  obtain ⟨p, hplan, hevents⟩ := exists_plan_probeSchema
  refine ⟨probeCatalog, probeSchema, p, read_probeTree, resolve_probeCatalog, hplan, ?_⟩
  refine ⟨probeEntity "echo" "system" (.number 1) 1999,
    probeEntity "ping" "network" (.number 2) 1999, probeEntity "probe" "network" (.number 2) 0, ?_⟩
  rw [hevents]
  refine ⟨rfl, rfl, rfl, ⟨rfl, rfl, ?_, rfl⟩, ?_⟩
  all_goals decide +kernel

end Package

end EventSchema
