import EventSchema.Proofs.Catalog.Details
import EventSchema.Proofs.Catalog.Items
import EventSchema.Proofs.Catalog.Layers
import EventSchema.Proofs.Catalog.Steps
import EventSchema.Proofs.Json.Documents

/-!
# What includes come to

Resolving includes is a chain of steps over the files that were read so far, each file as it stands
in the tree (`IncludedFile.Stands`). Whatever the steps before, an attribute comes out of them as
the layers that its item and the files say of it (`includes_of_resolve`), as long as no file that
the item includes among its attributes has an object among its annotations. Such an object is one
object in all attributes that take it from the file, and merging into one of them shows in the
others (`leaks_of_resolve`).
-/

namespace EventSchema.Catalog

variable {tree : FileTree} {schema path : Path} {place : String}
  {file : IncludedFile} {item : Item} {v : Json} {own taken : Entries Detail}
  {members upper above : Entries Json} {plain : Prop}

/-! ### Files -/

/-- The members of the object in a file, none if there is no such object. -/
def contents (tree : FileTree) (path : Path) : Entries Json :=
  match readObject tree path with
  | .ok members => members
  | .error _ => []

/-- There is an object in the file at a path. -/
def Readable (tree : FileTree) (path : Path) : Prop :=
  readObject tree path = .ok (contents tree path)

/-- The contents of a file that was read are the members that were read. -/
theorem contents_of_read (h : readObject tree path = .ok members) :
    contents tree path = members := by
  rw [contents, h]

theorem readable_of_read (h : readObject tree path = .ok members) : Readable tree path := by
  rw [Readable, contents_of_read h, h]

/-- An object that was read has each of its names once. -/
theorem wellFormed_of_readObject (h : readObject tree path = .ok members) :
    (Json.obj members).WellFormed := by
  unfold readObject at h
  split at h
  · cases h
  · split at h
    · cases h
    · next hread =>
      cases h
      exact Json.wellFormed_of_read hread
    · cases h

/-- The contents of a file have each of their names once. -/
theorem wellFormed_contents (tree : FileTree) (path : Path) :
    (Json.obj (contents tree path)).WellFormed := by
  rw [contents]
  split
  · next h => exact wellFormed_of_readObject h
  · exact Json.wellFormed_obj_nil

/-- No annotation of a file is an object. -/
def PlainlyAnnotated (file : Entries Json) : Prop := ∀ a ∈ annotationsOf file, a.2.isObject = false

/-- An included file is as it stands in the tree, and so are its annotations if no object is among
them. -/
structure IncludedFile.Stands (tree : FileTree) (file : IncludedFile) : Prop where
  read : readObject tree file.path = .ok file.members
  annotations : PlainlyAnnotated file.members → ∀ shared, file.annotations = some shared →
    shared = Detail.ofMembers (annotationsOf file.members)

/-! ### Included files -/

/-- A file that is remembered is as it stands in the tree. -/
theorem gives_remember (h : readObject tree path = .ok members) :
    Gives (IncludedFile.Stands tree) (fun file ↦ file.path = path ∧ file.Stands tree)
      (remember path members) := by
  have hadd (details : Option (Entries Detail))
      (hdetails : PlainlyAnnotated members → ∀ shared, details = some shared →
        shared = Detail.ofMembers (annotationsOf members)) :
      Gives (IncludedFile.Stands tree) (fun file : IncludedFile ↦ file.path = path ∧
        file.Stands tree) (do
        modifyThe Includes fun s ↦ { s with files := s.files ++ [⟨path, members, details⟩] }
        Pure.pure ⟨path, members, details⟩) :=
    (Gives.add ⟨h, hdetails⟩).bind fun _ _ ↦ .pure ⟨rfl, h, hdetails⟩
  have hgiven (ms : Entries Json) (hms : annotationsOf members = ms) :
      Gives (IncludedFile.Stands tree) (fun file : IncludedFile ↦ file.path = path ∧
        file.Stands tree) (do
        let shared ← InclusionM.onPool (Detail.shareMembers (Detail.ofMembers ms))
        let details ← Pure.pure (some shared)
        modifyThe Includes fun s ↦ { s with files := s.files ++ [⟨path, members, details⟩] }
        Pure.pure ⟨path, members, details⟩) := by
    subst hms
    refine (Gives.onPool (Q := fun shared ↦ PlainlyAnnotated members →
      shared = Detail.ofMembers (annotationsOf members)) fun pool hplain ↦
      ?_).bind fun shared hshared ↦ ?_
    · rw [Detail.shareMembers_ofMembers hplain]
      rfl
    · exact hadd (some shared) fun hplain found hfound ↦ Option.some.inj hfound ▸ hshared hplain
  unfold remember
  -- missing annotations count as an empty object
  rcases hann : members.get? "annotations" with _ | v
  · exact hgiven [] (by rw [annotationsOf, membersUnder, hann]; rfl)
  cases v with
  | obj ms => exact hgiven ms (by rw [annotationsOf, membersUnder, hann]; rfl)
  | _ => exact hadd none fun _ _ hnone ↦ by cases hnone

/-- A file that is included is as it stands in the tree, whether it was read before or not. -/
theorem gives_included (tree : FileTree) (place : String) (path : Path) :
    Gives (IncludedFile.Stands tree) (fun file ↦ file.path = path ∧ file.Stands tree)
      (included tree place path) := by
  refine Gives.get.bind fun s hs ↦ ?_
  split
  · next file hfound =>
    have hpath := List.find?_some hfound
    exact .pure ⟨of_decide_eq_true hpath, hs file (List.mem_of_find?_eq_some hfound)⟩
  · split
    · next members hread => exact gives_remember hread
    · split
      · exact .fail _
      · exact .fail _
    · exact .fail _

/-! ### Attributes -/

/-- Attributes as they are held have the names of others, and are those where nothing is shared. -/
structure Mirrors (plain : Prop) (own : Entries Detail) (upper : Entries Json) : Prop where
  names : Entries.names own = Entries.names upper
  values : plain → own = Detail.ofMembers upper

/-- Members that are not shared are as they are. -/
theorem mirrors_ofMembers (plain : Prop) (ms : Entries Json) :
    Mirrors plain (Detail.ofMembers ms) ms :=
  ⟨Detail.names_ofMembers ms, fun _ ↦ rfl⟩

/-- Where nothing is shared, an attribute is the value of its name. -/
theorem Mirrors.get? (h : Mirrors plain own upper) (hplain : plain) (n : String) :
    Entries.get? own n = (Entries.get? upper n).map Detail.ofJson := by
  rw [h.values hplain, Detail.get?_ofMembers]

/-- Attributes that are taken stand before the others. -/
theorem Mirrors.before (htaken : Mirrors plain taken above) (hown : Mirrors plain own upper) :
    Mirrors plain (taken ++ own.filter fun e ↦ !Entries.has taken e.1)
      (above ++ upper.filter fun e ↦ !Entries.has above e.1) where
  names := by
    have hhas (n : String) : Entries.has taken n = Entries.has above n := by
      rw [Bool.eq_iff_iff, Entries.has_iff, Entries.has_iff, htaken.names]
    have hfilter {α : Type} (ms : Entries α) :
        Entries.names (ms.filter fun e ↦ !Entries.has above e.1) =
        (Entries.names ms).filter fun n ↦ !Entries.has above n := by
      rw [Entries.names, Entries.names, List.filter_map]
      rfl
    simp only [hhas]
    rw [Entries.names, List.map_append, ← Entries.names, ← Entries.names, hfilter, htaken.names,
      hown.names, ← hfilter, Entries.names, Entries.names, ← List.map_append, ← Entries.names]
  values hplain := by
    have hhas (n : String) : Entries.has (Detail.ofMembers above) n = Entries.has above n := by
      rw [Entries.has, Entries.has, Detail.get?_ofMembers, Option.isSome_map]
    rw [htaken.values hplain, hown.values hplain]
    simp only [hhas]
    rw [Detail.filter_ofMembers upper fun n ↦ !Entries.has above n, Detail.append_ofMembers]

/-- The attributes of a file are the object under that name, or none. -/
theorem attributesOf_of_getD {attributes : Entries Json}
    (h : (members.get? "attributes").getD (.obj []) = .obj attributes) :
    attributesOf members = attributes := by
  rw [attributesOf, membersUnder]
  cases hget : members.get? "attributes" with
  | none =>
    rw [hget] at h
    exact Json.obj.inj h
  | some v =>
    rw [hget] at h
    obtain rfl : v = .obj attributes := h
    rfl

/-- Erasing a name that is not there changes nothing. -/
theorem erase_of_get?_eq_none {n : String} (h : Entries.get? members n = none) :
    Entries.erase members n = members := by
  refine List.filter_eq_self.2 fun m hm ↦ decide_eq_true fun heq ↦ ?_
  exact Entries.get?_eq_none_iff.1 h (heq ▸ List.mem_map_of_mem hm)

/-- Annotations that are put where they are missing are members again. -/
theorem foldl_putNew_ofMembers (annotations ms : Entries Json) :
    (Detail.ofMembers annotations).foldl (fun ms a ↦ Entries.putNew ms a.1 a.2)
    (Detail.ofMembers ms) =
      Detail.ofMembers (annotations.foldl (fun ms a ↦ Entries.putNew ms a.1 a.2) ms) := by
  induction annotations generalizing ms with
  | nil => rw [Detail.ofMembers]; rfl
  | cons a annotations ih =>
    obtain ⟨n, v⟩ := a
    rw [Detail.ofMembers, List.foldl_cons, List.foldl_cons, Detail.putNew_ofMembers, ih]

/-- A plain value is annotated as in the file, if no annotation is an object. -/
theorem annotate_ofJson {d : Detail} (hfile : file.Stands tree)
    (hplain : PlainlyAnnotated file.members) (h : annotate file (Detail.ofJson v) = .ok d) :
    d = Detail.ofJson (annotated file.members v) := by
  unfold annotate at h
  cases hshared : file.annotations with
  | none => rw [hshared] at h; cases h
  | some shared =>
    obtain rfl := hfile.annotations hplain shared hshared
    rw [hshared] at h
    cases hannotations : annotationsOf file.members with
    | nil =>
      rw [hannotations, Detail.ofMembers] at h
      cases h
      cases v with
      | obj ms => rw [annotated, hannotations, List.foldl_nil]
      | _ => rfl
    | cons a annotations =>
      rw [hannotations] at h
      cases v with
      | obj ms =>
        rw [Detail.ofJson] at h
        cases h
        rw [annotated, hannotations, Detail.ofJson, ← foldl_putNew_ofMembers]
      | _ => simp [Detail.ofJson, Detail.ofMembers] at h

/-- A plain value gets the profile that its file names. -/
theorem markProfile_ofJson {d : Detail} (hgiven : (profileNameOf members).isGiven = true)
    (h : markProfile (profileNameOf members) (Detail.ofJson v) = .ok d) :
    d = Detail.ofJson (marked members v) := by
  cases v with
  | obj ms =>
    rw [Detail.ofJson] at h
    cases h
    rw [marked, if_pos hgiven, Detail.ofJson, Detail.put_ofMembers]
  | _ => simp [Detail.ofJson, markProfile] at h

/-- The profile of a file is the one that its members name. -/
theorem profileOf_eq_ok {profile : Json} (h : profileOf place file = .ok profile) :
    profile = profileNameOf file.members := by
  unfold profileOf at h
  rw [profileNameOf]
  split at h
  · next hmeta =>
    rw [if_pos hmeta]
    split at h
    · next name hname => cases h; rw [hname]; rfl
    · cases h
  · next hmeta =>
    cases h
    rw [if_neg hmeta]

/-- An attribute of an included file is laid below what the item says of it. -/
theorem gives_includeAttribute (hfile : file.Stands tree)
    (hplain : plain → PlainlyAnnotated file.members) (hown : Mirrors plain own upper)
    (name : String) (value : Json) :
    Gives (IncludedFile.Stands tree)
      (fun d ↦ plain →
        d = Detail.ofJson (layAttribute file.members (Entries.get? upper name) value))
      (includeAttribute file (profileNameOf file.members) own name value) := by
  refine (Gives.lift (Q := fun d ↦ plain → d = Detail.ofJson (annotated file.members value))
    fun d hd hp ↦ annotate_ofJson hfile (hplain hp) hd).bind fun d hd ↦ ?_
  split
  · next details hdetails =>
    refine .onPool fun pool hp ↦ ?_
    rw [hown.get? hp, Option.map_eq_some_iff] at hdetails
    obtain ⟨w, hw, rfl⟩ := hdetails
    rw [hd hp, Detail.merge_ofJson, hw]
    rfl
  · next hnone =>
    have hlay (hp : plain) : layAttribute file.members (Entries.get? upper name) value =
        marked file.members (annotated file.members value) := by
      rw [hown.get? hp, Option.map_eq_none_iff] at hnone
      rw [hnone]
      rfl
    split
    · next hgiven =>
      refine .lift fun d' hd' hp ↦ ?_
      rw [hlay hp]
      exact markProfile_ofJson hgiven (hd hp ▸ hd')
    · next hgiven =>
      refine .pure fun hp ↦ ?_
      rw [hd hp, hlay hp]
      cases annotated file.members value with
      | obj ms => rw [marked, if_neg hgiven]
      | _ => rfl

/-! ### Files among the attributes of an item -/

/-- Members that go together by their names have the same names. -/
theorem names_of_forall₂ {α β : Type} {es : Entries α} {ts : Entries β}
    {R : String × α → String × β → Prop} (h : List.Forall₂ (fun e t ↦ t.1 = e.1 ∧ R e t) es ts) :
    Entries.names ts = Entries.names es := by
  induction h with
  | nil => rfl
  | cons ht _ ih => exact congrArg₂ List.cons ht.1 ih

/-- Attributes that are made of others one by one, under their names. -/
theorem mirrors_of_forall₂ {es : Entries Json} {g : String × Json → Json}
    (h : List.Forall₂ (fun e t ↦ t.1 = e.1 ∧ (plain → t.2 = Detail.ofJson (g e))) es taken) :
    Mirrors plain taken (es.map fun e ↦ (e.1, g e)) := by
  refine ⟨(names_of_forall₂ h).trans ?_, fun hp ↦ ?_⟩
  · rw [Entries.names, Entries.names, List.map_map]
    rfl
  · induction h with
    | nil => exact (Detail.ofMembers.eq_1).symm
    | cons ht _ ih => rw [List.map_cons, Detail.ofMembers, ← ih, ← ht.1, ← ht.2 hp]

/-- The attributes of an included file are laid below those that are there. -/
theorem gives_includeFile (tree : FileTree) (place : String) (path : Path)
    (hplain : plain → PlainlyAnnotated (contents tree path)) (hown : Mirrors plain own upper) :
    Gives (IncludedFile.Stands tree)
      (fun own' ↦ Readable tree path ∧ Mirrors plain own' (layFile upper (contents tree path)))
      (includeFile tree place path own) := by
  refine (gives_included tree place path).bind fun file ⟨hpath, hfile⟩ ↦ ?_
  have hread : readObject tree path = .ok file.members := hpath ▸ hfile.read
  have hreadable := readable_of_read hread
  rw [contents_of_read hread] at hplain ⊢
  split
  · next hattributes =>
    have hnone : attributesOf file.members = [] := by
      rw [attributesOf, membersUnder, hattributes]; rfl
    have hlay : layFile upper file.members = upper := by
      rw [layFile, hnone]
      exact List.filter_true upper
    exact (Gives.warn _).bind fun _ _ ↦ .pure ⟨hreadable, hlay.symm ▸ hown⟩
  · next attributes hattributes =>
    have hsome : attributesOf file.members = attributes := by
      rw [attributesOf, membersUnder, hattributes]; rfl
    refine (Gives.lift (Q := fun profile ↦ profile = profileNameOf file.members)
      fun _ h ↦ profileOf_eq_ok h).bind fun profile hprofile ↦ ?_
    subst hprofile
    refine (Gives.mapM (S := fun e t ↦ t.1 = e.1 ∧ (plain →
      t.2 = Detail.ofJson (layAttribute file.members (Entries.get? upper e.1) e.2))) fun e _ ↦
        (gives_includeAttribute hfile hplain hown e.1 e.2).bind fun d hd ↦
          .pure ⟨rfl, hd⟩).bind fun taken htaken ↦ ?_
    refine .pure ⟨hreadable, ?_⟩
    rw [layFile, hsome]
    exact (mirrors_of_forall₂ htaken).before hown
  · exact .fail _

/-- The paths of files that are given by texts. -/
def pathsOf (schema : Path) (texts : List Json) : List Path :=
  (texts.filterMap Json.text?).map schema.joinText

/-- Files are laid below one another in the order in which they are included. -/
theorem gives_includeFiles (tree : FileTree) (schema : Path) (place : String) (texts : List Json)
    (hplain : plain → ∀ path ∈ pathsOf schema texts, PlainlyAnnotated (contents tree path))
    (hown : Mirrors plain own upper) :
    Gives (IncludedFile.Stands tree)
      (fun own' ↦ (∀ path ∈ pathsOf schema texts, Readable tree path) ∧
      Mirrors plain own' (((pathsOf schema texts).map (contents tree)).foldl layFile upper))
      (includeFiles tree schema place texts own) := by
  induction texts generalizing own upper with
  | nil => exact .pure ⟨List.forall_mem_nil _, hown⟩
  | cons text texts ih =>
    cases text with
    | str s =>
      have hpaths :
          pathsOf schema (.str s :: texts) = schema.joinText s :: pathsOf schema texts := rfl
      rw [hpaths] at hplain ⊢
      refine (gives_includeFile tree place (schema.joinText s)
        (fun hp ↦ hplain hp _ List.mem_cons_self) hown).bind fun own' ⟨hread, hown'⟩ ↦ ?_
      have hrest := ih (fun hp path hpath ↦ hplain hp path (List.mem_cons_of_mem _ hpath)) hown'
      exact hrest.mono fun _ h ↦ ⟨List.forall_mem_cons.2 ⟨hread, h.1⟩, h.2⟩
    | _ => exact .fail _

/-! ### Files among the details of attributes -/

/-- Details that include no file stay as they are. -/
theorem layDetails_of_none (h : detailPath schema v = none) :
    layDetails (contents tree) schema v = v := by
  rw [layDetails, h]

/-- What details come to: they are laid over the file that they include, which is there. -/
def Details (tree : FileTree) (schema : Path) (d d' : Detail) : Prop :=
  ∀ v, d = Detail.ofJson v → d' = Detail.ofJson (layDetails (contents tree) schema v) ∧
    ∀ path, detailPath schema v = some path → Readable tree path

/-- Details are laid over the file that they include. -/
theorem gives_includeDetails (tree : FileTree) (schema : Path) (place name : String) (d : Detail) :
    Gives (IncludedFile.Stands tree) (Details tree schema d)
      (includeDetails tree schema place name d) := by
  have hkeep (hpath : ∀ v, d = Detail.ofJson v → detailPath schema v = none) :
      Gives (IncludedFile.Stands tree) (Details tree schema d) (Pure.pure d) := by
    refine .pure fun v hv ↦ ?_
    rw [layDetails_of_none (hpath v hv), hpath v hv]
    exact ⟨hv, fun _ hnone ↦ by cases hnone⟩
  unfold includeDetails
  split
  · next ms =>
    have hmembers (v : Json) (hv : Detail.own ms = Detail.ofJson v) :
        ∃ vs, v = .obj vs ∧ ms = Detail.ofMembers vs := by
      cases v with
      | obj vs =>
        rw [Detail.ofJson] at hv
        exact ⟨vs, rfl, Detail.own.inj hv⟩
      | _ => simp [Detail.ofJson] at hv
    split
    · next hnone =>
      refine hkeep fun v hv ↦ ?_
      obtain ⟨vs, rfl, rfl⟩ := hmembers v hv
      rw [Detail.get?_ofMembers, Option.map_eq_none_iff] at hnone
      rw [detailPath, Json.member?, Json.members?, Option.bind_some, hnone]
    · next value hvalue =>
      refine Gives.get.bind fun s _ ↦ ?_
      split
      · next text htext =>
        refine (gives_included tree _ (schema.joinText text)).bind fun file hincluded ↦ ?_
        obtain ⟨hpath, hfile⟩ := hincluded
        have hread : readObject tree (schema.joinText text) = .ok file.members := hpath ▸ hfile.read
        refine .onPool fun pool v hv ↦ ?_
        obtain ⟨vs, rfl, rfl⟩ := hmembers v hv
        rw [Detail.get?_ofMembers, Option.map_eq_some_iff] at hvalue
        obtain ⟨w, hw, rfl⟩ := hvalue
        rw [Detail.freeze_ofJson] at htext
        subst htext
        have hdetail : detailPath schema (.obj vs) = some (schema.joinText text) := by
          rw [detailPath, Json.member?, Json.members?, Option.bind_some, hw]
        rw [layDetails, hdetail, Detail.erase_ofMembers, ← Detail.ofJson, ← Detail.ofJson,
          Detail.merge_ofJson]
        refine ⟨by rw [← contents_of_read hread]; rfl, fun path hpath ↦ ?_⟩
        exact Option.some.inj hpath ▸ readable_of_read hread
      · exact .fail _
  · next hnot =>
    refine hkeep fun v hv ↦ ?_
    cases v with
    | obj vs => exact absurd hv (by rw [Detail.ofJson]; exact hnot _)
    | _ => rfl

/-- Details of all attributes are laid over their files, and these files are there. -/
theorem details_of_forall₂ {under : Entries Json}
    (h : List.Forall₂ (fun e t ↦ t.1 = e.1 ∧ Details tree schema e.2 t.2)
      (Detail.ofMembers under) taken) :
    taken = Detail.ofMembers (Entries.mapValues (layDetails (contents tree) schema) under) ∧
      ∀ path ∈ under.values.filterMap (detailPath schema), Readable tree path := by
  induction under generalizing taken with
  | nil =>
    rw [Detail.ofMembers] at h
    cases h
    exact ⟨by rw [Entries.mapValues, List.map_nil, Detail.ofMembers], List.forall_mem_nil _⟩
  | cons e under ih =>
    obtain ⟨n, v⟩ := e
    rw [Detail.ofMembers] at h
    obtain ⟨⟨k, d⟩, rest, ⟨hk, ht⟩, hrest, rfl⟩ := List.forall₂_cons_left_iff.1 h
    obtain ⟨rfl, hpaths⟩ := ih hrest
    obtain ⟨hd, hpath⟩ := ht v rfl
    obtain rfl : k = n := hk
    obtain rfl : d = _ := hd
    refine ⟨(Detail.ofMembers_cons (k, layDetails (contents tree) schema v) _).symm, ?_⟩
    rw [Entries.values, List.map_cons, List.filterMap_cons]
    split
    · exact hpaths
    · next path hfound => exact List.forall_mem_cons.2 ⟨hpath path hfound, hpaths⟩

/-! ### Items -/

/-- No file that an item includes among its attributes has an object among its annotations. -/
def Item.IncludesPlainly (tree : FileTree) (schema : Path) (item : Item) : Prop :=
  ∀ path ∈ item.includes schema, PlainlyAnnotated (contents tree path)

/-- What the attributes of an item come to: they have the names of the attributes that are laid over
one another, and are those where nothing is shared. -/
structure Item.Lays (tree : FileTree) (schema : Path) (item : Item)
    (own : Entries Detail) : Prop where
  readable : ∀ path ∈ item.includes schema, Readable tree path
  mirrors : Mirrors (item.IncludesPlainly tree schema) own (item.laid (contents tree) schema)
  sources : item.IncludesPlainly tree schema → ∀ path ∈ item.sources (contents tree) schema,
    Readable tree path

/-- The attributes of an item come to what the item and its files lay over one another. -/
theorem gives_resolveItem (tree : FileTree) (schema : Path) (place : String) (item : Item) :
    Gives (IncludedFile.Stands tree) (item.Lays tree schema)
      (resolveItem tree schema place item) := by
  have hdetails (own : Entries Detail) (hread : ∀ path ∈ item.includes schema, Readable tree path)
      (hown : Mirrors (item.IncludesPlainly tree schema) own
        (item.underlaid (contents tree) schema)) :
      Gives (IncludedFile.Stands tree) (item.Lays tree schema)
        (own.mapM fun (e : String × Detail) ↦ do
        Pure.pure (e.1, ← includeDetails tree schema place e.1 e.2)) := by
    refine (Gives.mapM (S := fun e t ↦ t.1 = e.1 ∧ Details tree schema e.2 t.2) fun e _ ↦
      (gives_includeDetails tree schema place e.1 e.2).bind fun d hd ↦
        .pure ⟨rfl, hd⟩).mono fun taken htaken ↦ ?_
    have hplain (hp : item.IncludesPlainly tree schema) :=
      details_of_forall₂ (hown.values hp ▸ htaken)
    refine ⟨hread, ⟨?_, fun hp ↦ (hplain hp).1⟩,
      fun hp ↦ List.forall_mem_append.2 ⟨hread, (hplain hp).2⟩⟩
    rw [Item.laid, Entries.names_mapValues, ← hown.names, names_of_forall₂ htaken]
  unfold resolveItem
  split
  · next attributes hattributes =>
    have hsome : attributesOf item.members = attributes := attributesOf_of_getD hattributes
    split
    · next hnone =>
      have hown : item.own = attributes := by
        rw [Item.own, hsome]
        exact erase_of_get?_eq_none hnone
      have hincludes : item.includes schema = [] := by rw [Item.includes, hsome, hnone]
      refine hdetails _ (by rw [hincludes]; exact List.forall_mem_nil _) ?_
      rw [Item.underlaid, hincludes, hown]
      exact mirrors_ofMembers _ attributes
    · next value hvalue =>
      refine (Gives.lift (Q := fun texts ↦ item.includes schema = pathsOf schema texts)
        fun texts htexts ↦ ?_).bind fun texts htexts ↦ ?_
      · rw [Item.includes, hsome, hvalue]
        cases value with
        | str s => cases htexts; rfl
        | arr vs => cases htexts; rfl
        | _ => cases htexts
      · rw [Detail.erase_ofMembers, ← hsome]
        have hown := mirrors_ofMembers (item.IncludesPlainly tree schema) item.own
        refine (gives_includeFiles tree schema _ texts (fun hp ↦ htexts ▸ hp) hown).bind
          fun own hlaid ↦ ?_
        obtain ⟨hread, hown⟩ := hlaid
        rw [← htexts] at hread hown
        exact hdetails own hread hown
  · exact .fail _

/-! ### All items -/

/-- What is made of an item: it keeps its name and its members, its attributes have the names that
it and its files give, and where nothing is shared they are determined by the item and its files
alone, layer by layer. -/
structure Resolves (tree : FileTree) (schema : Path) (item : Item) (r : ResolvedItem) : Prop where
  name : r.name = item.name
  members : r.members = item.members
  readable : ∀ path ∈ item.includes schema, Readable tree path
  names : ∀ n, n ∈ Entries.names r.attributes ↔
    n ∈ Entries.names item.own ∨ ∃ path ∈ item.includes schema,
    n ∈ Entries.names (attributesOf (contents tree path))
  sources : item.IncludesPlainly tree schema → ∀ path ∈ item.sources (contents tree) schema,
    Readable tree path
  isolated : item.IncludesPlainly tree schema → ∀ contents',
    (∀ path ∈ item.sources (contents tree) schema, contents tree path = contents' path) →
      r.attributes = item.laid contents' schema
  layers : item.IncludesPlainly tree schema → ∀ n v, Entries.get? r.attributes n = some v →
    (∀ l ∈ item.upperLayers (contents tree) schema n, l.isObject = true) →
      ∀ path x, path.head? ≠ some includeKey →
      x.isObject = false → (v.at? path = some x ↔ ∃ above l below,
        item.layers (contents tree) schema n = above ++ l :: below ∧ l.at? path = some x ∧
          (Json.overlaid above).Silent path)
  own : item.IncludesPlainly tree schema → ∀ n details v, Entries.get? item.own n = some details →
    Entries.get? r.attributes n = some v →
      (∀ l ∈ item.upperLayers (contents tree) schema n, l.isObject = true) →
      ∀ path x, path.head? ≠ some includeKey → x.isObject = false →
      details.at? path = some x → v.at? path = some x

/-- What the attributes of an item come to is told by its layers. -/
theorem resolves_of_lays {pool : Pool} (hitem : (Json.obj item.members).WellFormed)
    (h : item.Lays tree schema own) :
    Resolves tree schema item ⟨item.name, item.members,
      Entries.mapValues (Detail.freeze pool) own⟩ := by
  have hlaid (hp : item.IncludesPlainly tree schema) :
      Entries.mapValues (Detail.freeze pool) own = item.laid (contents tree) schema := by
    rw [h.mirrors.values hp, Detail.freeze_ofMembers]
  have hlayers (hp : item.IncludesPlainly tree schema) (n : String) (v : Json)
      (hv : Entries.get? (Entries.mapValues (Detail.freeze pool) own) n = some v)
      (hobjects : ∀ l ∈ item.upperLayers (contents tree) schema n, l.isObject = true)
      (path : List String) (x : Json) (hpath : path.head? ≠ some includeKey)
      (hx : x.isObject = false) : v.at? path = some x ↔
        ∃ above l below, item.layers (contents tree) schema n = above ++ l :: below ∧
        l.at? path = some x ∧ (Json.overlaid above).Silent path :=
    Item.at?_laid_iff hitem (wellFormed_contents tree) hobjects (hlaid hp ▸ hv) hpath hx
  refine ⟨rfl, rfl, h.readable, fun n ↦ ?_, h.sources, fun hp contents' hsame ↦ ?_, hlayers, ?_⟩
  · rw [Entries.names_mapValues, h.mirrors.names, Item.laid, Entries.names_mapValues,
      Item.mem_names_underlaid]
  · rw [hlaid hp, Item.laid_congr hsame]
  · intro hp n details v hdetails hv hobjects path x hpath hx hat
    have hupper : item.upperLayers (contents tree) schema n =
        details :: fileLayers n true ((item.includes schema).map (contents tree)) := by
      rw [Item.upperLayers, hdetails]
      rfl
    refine (hlayers hp n v hv hobjects path x hpath hx).2
      ⟨[], details, _, by rw [Item.layers, hupper]; rfl, hat, ?_⟩
    -- nothing is above the item itself
    cases path with
    | nil =>
      obtain rfl : details = x := Option.some.inj hat
      exact absurd (hobjects details (hupper ▸ List.mem_cons_self))
        (by rw [hx]; exact Bool.false_ne_true)
    | cons n path => exact Json.silent_cons_iff.2 fun _ hnone ↦ by cases hnone

/-- An item that was found among others with its attributes. -/
structure Found (tree : FileTree) (schema : Path) (item : Item)
    (found : Item × Entries Detail) : Prop where
  same : found.1 = item
  wellFormed : (Json.obj item.members).WellFormed
  lays : item.Lays tree schema found.2

/-- **What includes come to.** Once the includes of items are resolved, each attribute is what its
own item and files say of it. -/
theorem includes_of_resolve {profiles events objects : List Item}
    {events' objects' : List ResolvedItem} {j : Journal}
    (hprofiles : readItems tree schema "profiles" = .ok profiles)
    (hevents : readItems tree schema "events" = .ok events)
    (hobjects : readItems tree schema "objects" = .ok objects)
    (h : (execute (resolveIncludes tree schema profiles events objects) j).1 =
      .ok (events', objects')) :
    List.Forall₂ (Resolves tree schema) (events ++ objects) (events' ++ objects') := by
  have hread {folder : String} {items : List Item}
      (hitems : readItems tree schema folder = .ok items) :
      ∀ item ∈ items, readObject tree item.path = .ok item.members :=
    fun item hitem ↦ (readItems_members hitems item hitem).2
  have hremember : Gives (IncludedFile.Stands tree) (fun _ ↦ True)
      (profiles.forM fun item ↦ discard (remember item.path item.members)) :=
    .forM fun item hitem ↦ (gives_remember (hread hprofiles item hitem)).bind
      fun _ _ ↦ .pure trivial
  have hitems (word : String) (items : List Item)
      (hmembers : ∀ item ∈ items, readObject tree item.path = .ok item.members) :
      Gives (IncludedFile.Stands tree) (List.Forall₂ (Found tree schema) items)
        (items.mapM fun item ↦ do
        Pure.pure (item, ← resolveItem tree schema s!"{word} \"{item.name}\"" item)) :=
    .mapM fun item hitem ↦ (gives_resolveItem _ _ _ _).bind fun own hown ↦
      .pure ⟨rfl, wellFormed_of_readObject (hmembers item hitem), hown⟩
  have hall := hremember.bind
    (R := fun found ↦
      List.Forall₂ (Found tree schema) events found.1 ∧
      List.Forall₂ (Found tree schema) objects found.2)
    fun _ _ ↦ (hitems "class" events (hread hevents)).bind fun foundEvents hfoundEvents ↦
      (hitems "object" objects (hread hobjects)).bind fun foundObjects hfoundObjects ↦
        .pure (a := (foundEvents, foundObjects)) ⟨hfoundEvents, hfoundObjects⟩
  have hfinish {items : List Item} {found : List (Item × Entries Detail)} (pool : Pool)
      (hfound : List.Forall₂ (Found tree schema) items found) :
      List.Forall₂ (Resolves tree schema) items
        (found.map fun f ↦
          ⟨f.1.name, f.1.members, Entries.mapValues (Detail.freeze pool) f.2⟩) := by
    refine List.forall₂_map_right_iff.2 (hfound.imp fun item f hf ↦ ?_)
    obtain ⟨rfl, hwell, hlays⟩ := hf
    exact resolves_of_lays hwell hlays
  obtain ⟨⟨⟨foundEvents, foundObjects⟩, s⟩, _, hrun, h⟩ := execute_bind_eq_ok h
  obtain ⟨-, hfoundEvents, hfoundObjects⟩ := hall ⟨[], []⟩ j _ s nofun (congrArg Prod.fst hrun)
  cases h
  exact List.rel_append (hfinish s.pool hfoundEvents) (hfinish s.pool hfoundObjects)

/-! ### Alerts and assets with levels -/

/-- The text at a path of an attribute, if there is one. -/
def ResolvedItem.text? (r : ResolvedItem) (n : String) (path : List String) : Option String :=
  ((Entries.get? r.attributes n).bind (·.at? path)).bind Json.text?

/-- An alert that includes a file of levels. -/
def alertTree : FileTree := .dir [
  ("levels.json", .file ("\x7b\"annotations\": \x7b\"group\": \"context\"\x7d, " ++
    "\"attributes\": \x7b\"level\": \x7b\"caption\": \"Level\"\x7d\x7d\x7d")),
  ("objects", .dir [("alert.json", .file ("\x7b\"name\": \"alert\", " ++
    "\"attributes\": \x7b\"$include\": \"levels.json\", " ++
    "\"level\": \x7b\"caption\": \"Own\"\x7d\x7d\x7d"))])]

/-- The alert as it is read. -/
def alertItem : Item where
  path := ⟨"", ["objects", "alert.json"]⟩
  name := "alert"
  members := [("name", .str "alert"),
    ("attributes",
      .obj [("$include", .str "levels.json"), ("level", .obj [("caption", .str "Own")])])]

/-- The alert is the only item of its tree. -/
theorem readItems_alertTree :
    readItems alertTree ⟨"", []⟩ "profiles" = .ok [] ∧
    readItems alertTree ⟨"", []⟩ "events" = .ok [] ∧
    readItems alertTree ⟨"", []⟩ "objects" = .ok [alertItem] := by
  refine ⟨readItems_of_missing rfl, readItems_of_missing rfl, ?_⟩
  exact (readItems_of_file rfl (by decide +kernel)).trans rfl

/-- Items with certain texts were resolved without an error. -/
theorem exists_of_texts {r : Except CatalogError (List ResolvedItem × List ResolvedItem)}
    {g : ResolvedItem → Option String} {texts : List (Option String)}
    (h : r.toOption.map (fun found ↦ found.2.map g) = some texts) :
    ∃ events objects, r = .ok (events, objects) ∧ objects.map g = texts := by
  cases r with
  | ok found => exact ⟨found.1, found.2, rfl, Option.some.inj h⟩
  | error e => cases h

/-- No annotation of the file of levels is an object. -/
theorem includesPlainly_alertItem : alertItem.IncludesPlainly alertTree ⟨"", []⟩ := by
  have hannotations : ((alertItem.includes ⟨"", []⟩).flatMap fun path ↦
      annotationsOf (contents alertTree path)).all (fun a ↦ !a.2.isObject) = true := by
    decide +kernel
  intro path hpath a ha
  simpa using List.all_eq_true.1 hannotations a (List.mem_flatMap.2 ⟨path, hpath, ha⟩)

/-- All that stands above the level of the file is an object. -/
theorem upperLayers_alertItem :
    ∀ l ∈ alertItem.upperLayers (contents alertTree) ⟨"", []⟩ "level", l.isObject = true :=
  List.all_eq_true.1 (by decide +kernel)

/-- An alert has its own caption. -/
theorem includes_of_resolve_alertTree : ∃ events' objects',
    readItems alertTree ⟨"", []⟩ "profiles" = .ok [] ∧
      readItems alertTree ⟨"", []⟩ "events" = .ok [] ∧
      readItems alertTree ⟨"", []⟩ "objects" = .ok [alertItem] ∧
      alertItem.IncludesPlainly alertTree ⟨"", []⟩ ∧
      (∀ l ∈ alertItem.upperLayers (contents alertTree) ⟨"", []⟩ "level", l.isObject = true) ∧
      (execute (resolveIncludes alertTree ⟨"", []⟩ [] [] [alertItem]) []).1 =
        .ok (events', objects') ∧
      objects'.map (·.text? "level" ["caption"]) = [some "Own"] ∧
      List.Forall₂ (Resolves alertTree ⟨"", []⟩) ([] ++ [alertItem]) (events' ++ objects') := by
  obtain ⟨hprofiles, hevents, hobjects⟩ := readItems_alertTree
  have hcaption : (execute (resolveIncludes alertTree ⟨"", []⟩ [] [] [alertItem]) []).1.toOption.map
      (fun found ↦ found.2.map (·.text? "level" ["caption"])) = some [some "Own"] := by
    decide +kernel
  obtain ⟨events', objects', hrun, htexts⟩ := exists_of_texts hcaption
  exact ⟨events', objects', hprofiles, hevents, hobjects, includesPlainly_alertItem,
    upperLayers_alertItem, hrun, htexts, includes_of_resolve hprofiles hevents hobjects hrun⟩

/-- An attribute of a file that is no object keeps its place, and the caption of the alert is
lost. -/
example : (execute (resolveIncludes
    (.dir [("levels.json", .file "\x7b\"attributes\": \x7b\"level\": 5\x7d\x7d")]) ⟨"", []⟩
    [] [] [alertItem]) []).1.toOption.map (fun found ↦
      found.2.map (·.text? "level" ["caption"])) = some [none] := by
  decide +kernel

/-- An alert with a level of its own, and an asset without, that include the same file. -/
def assetTree : FileTree := .dir [
  ("levels.json",
    .file ("\x7b\"annotations\": \x7b\"enum\": \x7b\"1\": \x7b\"caption\": \"Low\"\x7d\x7d\x7d, " ++
    "\"attributes\": \x7b\"level\": \x7b\x7d, \"impact\": \x7b\x7d\x7d\x7d")),
  ("objects", .dir ([
    ("alert.json", "\x7b\"name\": \"alert\", \"attributes\": \x7b\"$include\": \"levels.json\", " ++
      "\"level\": \x7b\"enum\": \x7b\"2\": \x7b\"caption\": \"High\"\x7d\x7d\x7d\x7d\x7d"),
    ("asset.json",
      "\x7b\"name\": \"asset\", \"attributes\": \x7b\"$include\": \"levels.json\"\x7d\x7d")].map
      fun f ↦ (f.1, .file f.2)))]

/-- The alert as it is read. -/
def leakingItem : Item where
  path := ⟨"", ["objects", "alert.json"]⟩
  name := "alert"
  members := [("name", .str "alert"), ("attributes", .obj [("$include", .str "levels.json"),
    ("level", .obj [("enum", .obj [("2", .obj [("caption", .str "High")])])])])]

/-- The asset as it is read. -/
def assetItem : Item where
  path := ⟨"", ["objects", "asset.json"]⟩
  name := "asset"
  members := [("name", .str "asset"), ("attributes", .obj [("$include", .str "levels.json")])]

set_option maxRecDepth 1024 in
/-- The alert and the asset are the items of their tree. -/
theorem readItems_assetTree :
    readItems assetTree ⟨"", []⟩ "objects" = .ok [leakingItem, assetItem] :=
  (readItems_of_files [("alert.json", _), ("asset.json", _)] rfl (by decide +kernel)
    (by decide +kernel)).trans rfl

/-- **Shared annotations leak.** The level that the alert adds to one attribute shows in another
attribute of it, and in that of the asset, of which neither the items nor the file say so, and where
it is missing if the asset is resolved alone. -/
theorem leaks_of_resolve :
    readItems assetTree ⟨"", []⟩ "objects" = .ok [leakingItem, assetItem] ∧
    (∀ item ∈ [leakingItem, assetItem],
      ∀ l ∈ item.upperLayers (contents assetTree) ⟨"", []⟩ "impact",
      l.at? ["enum", "2", "caption"] = none) ∧
    (∃ events' objects',
      (execute (resolveIncludes assetTree ⟨"", []⟩ [] [] [leakingItem, assetItem]) []).1 =
        .ok (events', objects') ∧
      objects'.map (·.text? "impact" ["enum", "2", "caption"]) = [some "High", some "High"]) ∧
    ∃ events' objects', (execute (resolveIncludes assetTree ⟨"", []⟩ [] [] [assetItem]) []).1 =
        .ok (events', objects') ∧
      objects'.map (·.text? "impact" ["enum", "2", "caption"]) = [none] := by
  have hlayers :
      ([leakingItem, assetItem].flatMap (·.upperLayers (contents assetTree) ⟨"", []⟩ "impact")).all
      (fun l ↦ (l.at? ["enum", "2", "caption"]).isNone) = true := by decide +kernel
  refine ⟨readItems_assetTree, fun item hitem l hl ↦ ?_, exists_of_texts (by decide +kernel),
    exists_of_texts (by decide +kernel)⟩
  exact Option.isNone_iff_eq_none.1
    (List.all_eq_true.1 hlayers l (List.mem_flatMap.2 ⟨item, hitem, hl⟩))

end EventSchema.Catalog
