import EventSchema.Proofs.Package.LateBinding

/-!
# Rounds of binding

Every round settles a module of the library that was not settled (`Loader.unmarked_lt_of_round`), so
the rounds come to an end, and then either something was missing or no loaded module of the package
lacks a name (`Loader.exists_outcome`). What a call leaves has all its names, is left alone by
another call and hangs on what was loaded before alone (`Loader.Settles`). Modules that were settled
by calls have their names, whatever was loaded and bound in between (`Loader.Reached.sound`).
-/

namespace EventSchema.Package

variable {library : Library} {package m : String} {s t u : Loader} {b : LateBinding}

namespace Loader

/-! ### Rounds -/

theorem mem_pending : m ∈ s.pending library package ↔
    m ∈ s.loaded ∧ isWithin package m = true ∧ m ∉ s.settled ∧ lateOf library m ≠ [] := by
  rw [pending, List.mem_filter, ← NameSet.mem_def, NameSet.mem_ofList]
  simp [and_assoc]

/-- Modules of a package that are given their names one after another are all settled at the end. -/
theorem settled_of_foldlM (hlib : library.Encloses package) {ms : List String}
    (hms : ∀ m ∈ ms, isWithin package m = true ∧ m ∈ s.loaded)
    (h : ms.foldlM (bindModule library) s = .ok t) :
    s.Extends library package t ∧ ms ⊆ t.settled := by
  induction ms generalizing s with
  | nil =>
    cases h
    exact ⟨.refl _ _ _, List.nil_subset _⟩
  | cons m ms ih =>
    rw [List.foldlM_cons] at h
    obtain ⟨u, hu, h⟩ := bind_eq_ok h
    obtain ⟨hm, hloaded⟩ := hms m List.mem_cons_self
    have hfirst := Extends.bindModule hlib hm hloaded hu
    have hstill : ∀ n ∈ ms, isWithin package n = true ∧ n ∈ u.loaded := fun n hn ↦
      (hms n (List.mem_cons_of_mem _ hn)).imp_right fun hn ↦ hfirst.loaded hn
    obtain ⟨hrest, hsettled⟩ := ih hstill h
    exact ⟨hfirst.trans hrest,
      List.cons_subset.2 ⟨hrest.settled (mem_settled_of_bindModule hu), hsettled⟩⟩

/-- A round that does not fail settles all modules that lacked names. -/
theorem settled_of_round (hlib : library.Encloses package)
    (h : (s.pending library package).foldlM (bindModule library) s = .ok t) :
    s.Extends library package t ∧ s.pending library package ⊆ t.settled :=
  settled_of_foldlM hlib (fun _ hm ↦ ⟨(mem_pending.1 hm).2.1, (mem_pending.1 hm).1⟩) h

/-- So it leaves fewer modules that are not settled, unless none lacked names. -/
theorem unmarked_lt_of_round (hlib : library.Encloses package)
    (hpending : s.pending library package ≠ [])
    (h : (s.pending library package).foldlM (bindModule library) s = .ok t) :
    Digraph.unmarked library.names t.settled < Digraph.unmarked library.names s.settled := by
  obtain ⟨m, hm⟩ := List.exists_mem_of_ne_nil _ hpending
  obtain ⟨-, -, hnot, hlate⟩ := mem_pending.1 hm
  obtain ⟨hextends, hsettled⟩ := settled_of_round hlib h
  exact Digraph.unmarked_lt_of_subset (mem_names_of_lateOf hlate) hnot
    (hsettled hm) hextends.settled

/-! ### What is missing -/

theorem load_ne_unfinished : s.load library m ≠ .error .unfinished := by
  rw [load]
  split <;> intro h <;> cases h

theorem bindName_ne_unfinished : s.bindName library m b ≠ .error .unfinished := by
  intro h
  rcases bind_eq_error h with h | ⟨u, -, h⟩
  · exact load_ne_unfinished h
  · split at h <;> cases h

theorem foldlM_ne_unfinished {α : Type} {f : Loader → α → Except BindError Loader}
    (hf : ∀ s a, f s a ≠ .error .unfinished) (as : List α) (s : Loader) :
    as.foldlM f s ≠ .error .unfinished := by
  induction as generalizing s with
  | nil => exact fun h ↦ by cases h
  | cons a as ih =>
    intro h
    rw [List.foldlM_cons] at h
    rcases bind_eq_error h with h | ⟨u, -, h⟩
    · exact hf s a h
    · exact ih u h

theorem bindModule_ne_unfinished : s.bindModule library m ≠ .error .unfinished := by
  intro h
  rcases bind_eq_error h with h | ⟨u, -, h⟩
  · exact foldlM_ne_unfinished (fun _ _ ↦ bindName_ne_unfinished) _ s h
  · cases h

/-- Steps that do not fail go on to runs that do not. -/
theorem exists_foldlM_ok {α : Type} {f : Loader → α → Except BindError Loader} {as : List α}
    (hf : ∀ a ∈ as, ∀ s, ∃ t, f s a = .ok t) (s : Loader) : ∃ t, as.foldlM f s = .ok t := by
  induction as generalizing s with
  | nil => exact ⟨s, rfl⟩
  | cons a as ih =>
    obtain ⟨u, hu⟩ := hf a List.mem_cons_self s
    obtain ⟨t, ht⟩ := ih (fun a ha ↦ hf a (List.mem_cons_of_mem _ ha)) u
    exact ⟨t, by rw [List.foldlM_cons, hu]; exact ht⟩

/-! ### All rounds -/

theorem bindRounds_of_pending_eq_nil (h : s.pending library package = [])
    {rounds : Nat} (hrounds : 0 < rounds) :
    s.bindRounds library package rounds = .ok s := by
  obtain ⟨rounds, rfl⟩ := Nat.exists_eq_succ_of_ne_zero hrounds.ne'
  rw [bindRounds, h]

theorem bindRounds_succ (h : s.pending library package ≠ []) (rounds : Nat) :
    s.bindRounds library package (rounds + 1) =
      (s.pending library package).foldlM (bindModule library) s >>=
        bindRounds library package rounds := by
  rw [bindRounds]
  split
  · next hnil => exact absurd hnil h
  · rfl

/-- How the rounds of a package come out. -/
structure Outcome (library : Library) (package : String) (s : Loader)
    (r : Except BindError Loader) : Prop where
  /-- However many rounds there may be, if there may be one for each module that is not settled and
  one more. -/
  rounds : ∀ rounds, Digraph.unmarked library.names s.settled < rounds →
    s.bindRounds library package rounds = r
  /-- They come to an end. -/
  ends : r ≠ .error .unfinished
  /-- If nothing was missing they add to what was loaded and bound, and no loaded module lacks a
  name. -/
  completes : ∀ t, r = .ok t → s.Extends library package t ∧ t.pending library package = []
  /-- Nothing is missing if no module of the package can lack anything. -/
  succeeds : (∀ m, isWithin package m = true → ∀ s : Loader, ∃ t, s.bindModule library m = .ok t) →
    ∃ t, r = .ok t

/-- Nothing is left to do when no module lacks names. -/
theorem Outcome.of_pending_eq_nil (h : s.pending library package = []) :
    s.Outcome library package (.ok s) where
  rounds _ hrounds := bindRounds_of_pending_eq_nil h (Nat.zero_lt_of_lt hrounds)
  ends := nofun
  completes t ht := by
    cases ht
    exact ⟨.refl library package s, h⟩
  succeeds _ := ⟨s, rfl⟩

/-- The rounds end with a round that fails. -/
theorem Outcome.of_round_error {e : BindError} (hpending : s.pending library package ≠ [])
    (h : (s.pending library package).foldlM (bindModule library) s = .error e) :
    s.Outcome library package (.error e) where
  rounds rounds hrounds := by
    obtain ⟨rounds, rfl⟩ := Nat.exists_eq_succ_of_ne_zero (Nat.zero_lt_of_lt hrounds).ne'
    rw [bindRounds_succ hpending, h]
    rfl
  ends heq := by
    cases heq
    exact foldlM_ne_unfinished (fun _ _ ↦ bindModule_ne_unfinished) _ s h
  completes := nofun
  succeeds hall := by
    obtain ⟨t, ht⟩ := exists_foldlM_ok (fun m hm ↦ hall m (mem_pending.1 hm).2.1) s
    rw [h] at ht
    cases ht

/-- The rounds come out as they do after the first one. -/
theorem Outcome.of_round {r : Except BindError Loader} (hlib : library.Encloses package)
    (hpending : s.pending library package ≠ [])
    (h : (s.pending library package).foldlM (bindModule library) s = .ok u)
    (hrest : u.Outcome library package r) :
    s.Outcome library package r where
  rounds rounds hrounds := by
    obtain ⟨rounds, rfl⟩ := Nat.exists_eq_succ_of_ne_zero (Nat.zero_lt_of_lt hrounds).ne'
    have hless := unmarked_lt_of_round hlib hpending h
    rw [bindRounds_succ hpending, h]
    exact hrest.rounds rounds (Nat.lt_of_lt_of_le hless (Nat.lt_succ_iff.1 hrounds))
  ends := hrest.ends
  completes t ht := (hrest.completes t ht).imp_left (settled_of_round hlib h).1.trans
  succeeds := hrest.succeeds

/-- The rounds of a package come to an end. -/
theorem exists_outcome (hlib : library.Encloses package) (s : Loader) :
    ∃ r, s.Outcome library package r := by
  -- each round leaves fewer modules that are not settled
  induction hn : Digraph.unmarked library.names s.settled using Nat.strongRecOn generalizing s with
  | ind n ih =>
    subst hn
    by_cases hpending : s.pending library package = []
    · exact ⟨.ok s, .of_pending_eq_nil hpending⟩
    cases hround : (s.pending library package).foldlM (bindModule library) s with
    | error e => exact ⟨.error e, .of_round_error hpending hround⟩
    | ok u =>
      obtain ⟨r, hr⟩ := ih _ (unmarked_lt_of_round hlib hpending hround) u rfl
      exact ⟨r, .of_round hlib hpending hround hr⟩

/-! ### Binding a version package -/

/-- More rounds than there are modules are enough. -/
theorem Outcome.bindRounds_eq {r : Except BindError Loader} (h : s.Outcome library package r)
    {rounds : Nat} (hrounds : library.size < rounds) : s.bindRounds library package rounds = r := by
  refine h.rounds rounds (Nat.lt_of_le_of_lt (List.length_filter_le _ _) ?_)
  rwa [Table.names, Entries.names, List.length_map, ← Table.size]

theorem outcome_bind (hlib : library.Encloses (versionPackage m)) (s : Loader) :
    s.Outcome library (versionPackage m) (s.bind library m) := by
  obtain ⟨r, hr⟩ := exists_outcome hlib s
  rwa [Loader.bind, hr.bindRounds_eq (Nat.lt_succ_self _)]

/-- What a call that binds a package leaves. -/
structure Settles (library : Library) (package : String) (s t : Loader) : Prop where
  /-- It only adds to what was loaded and bound, and stays in the package. -/
  adds : s.Extends library package t
  /-- Every loaded module of the package has all its names, those that were loaded for it too. -/
  bound : ∀ m ∈ t.loaded, isWithin package m = true → ∀ b ∈ lateOf library m, t.IsBound library m b
  /-- Settled modules of the package have all their names. -/
  sound : t.Sound library package
  /-- Another call for the package changes nothing. -/
  again : ∀ module, versionPackage module = package → t.bind library module = .ok t

theorem Outcome.settles {r : Except BindError Loader} (h : s.Outcome library package r)
    (hs : s.Sound library package) (hr : r = .ok t) : s.Settles library package t := by
  obtain ⟨hextends, hpending⟩ := h.completes t hr
  have hsound := hextends.sound hs
  refine ⟨hextends, fun m hm hwithin b hb ↦ ?_, hsound, fun module hmodule ↦ ?_⟩
  · by_cases hsettled : m ∈ t.settled
    · exact hsound m hsettled hwithin b hb
    -- a module that is not settled would lack its names
    · have hlacks : m ∈ t.pending library package :=
        mem_pending.2 ⟨hm, hwithin, hsettled, List.ne_nil_of_mem hb⟩
      rw [hpending] at hlacks
      exact absurd hlacks List.not_mem_nil
  · rw [bind, hmodule, bindRounds_of_pending_eq_nil hpending (Nat.succ_pos _)]

/-- The loaded modules are closed when a package was bound. -/
theorem Settles.closed (h : s.Settles library package t) (hs : s.ImportsLoaded library) :
    library.Closed package (· ∈ t.loaded) :=
  ⟨h.adds.imports hs, fun m hm hwithin b hb ↦ (h.bound m hm hwithin b hb).loaded⟩

/-- What is loaded in the end hangs on what was loaded before, and not on the order in which it was
or on what was bound already. -/
theorem Settles.mem_loaded_of_subset {s' t' : Loader} (h : s.Settles library package t)
    (h' : s'.Settles library package t') (hs' : s'.ImportsLoaded library)
    (hsub : s.loaded ⊆ s'.loaded) :
    t.loaded ⊆ t'.loaded :=
  fun _ hm ↦ h.adds.least (· ∈ t'.loaded) (h'.closed hs') (fun _ hn ↦ h'.adds.loaded (hsub hn)) _ hm

/-! ### Loading and binding one after another -/

/-- The states that loading modules and binding packages leads to. -/
inductive Reached (library : Library) : Loader → Prop where
  /-- At first nothing is loaded. -/
  | start : Reached library ⟨[], [], []⟩
  /-- A module is loaded. -/
  | load {s t : Loader} {m : String} (hs : Reached library s) (h : s.load library m = .ok t) :
      Reached library t
  /-- The version package of a module is bound. -/
  | bind {s t : Loader} {m : String} (hs : Reached library s)
      (hlib : library.Encloses (versionPackage m))
    (h : s.bind library m = .ok t) : Reached library t

/-- Modules that earlier calls settled have all their names, and what loaded modules import is
loaded. -/
theorem Reached.sound (h : s.Reached library) :
    s.ImportsLoaded library ∧ ∀ package, s.Sound library package := by
  induction h with
  | start => exact ⟨nofun, nofun⟩
  | load _ h ih =>
    refine ⟨importsLoaded_of_load ih.1 h, fun package m hm hwithin b hb ↦ ?_⟩
    obtain ⟨-, rfl⟩ := load_eq_ok_iff.1 h
    have hbound := ih.2 package m hm hwithin b hb
    exact { hbound with loaded := List.mem_append_left _ hbound.loaded }
  | bind _ hlib h ih =>
    have hextends := ((outcome_bind hlib _).completes _ h).1
    exact ⟨hextends.imports ih.1, fun package ↦ hextends.sound (ih.2 package)⟩

end Loader

end EventSchema.Package
