import EventSchema.Proofs.FileTree.View
import Mathlib.Data.List.Infix

/-!
# Where paths lead

Without links between directories, where a path leads can be read off its parts: each part is one
step further down, double dots are one step back up (`Path.trail`). The tree only settles whether
the path can be followed. That takes a directory at each trail on its way, apart from the last
(`Path.LeadsThrough`), and nothing else of the tree (`FileTree.Admits`).
-/

namespace EventSchema

variable {t u : FileTree} {p : Path} {part : String} {parts q r start : List String}

namespace Path

/-! ### Trails -/

/-- The trail after one more part. -/
def advance (trail : List String) (part : String) : List String :=
  if part = ".." then trail.dropLast else trail ++ [part]

/-- The trail after some more parts. -/
def walk (trail parts : List String) : List String := parts.foldl advance trail

/-- The trail of a path. -/
def trail (p : Path) : List String := walk [] p.parts

/-- To follow a path to its end is to step through a directory at a trail. -/
def LeadsThrough (p : Path) (q : List String) : Prop :=
  ∃ parts, parts <+: p.parts ∧ parts ≠ p.parts ∧ walk [] parts = q

theorem walk_append (trail parts more : List String) :
    walk trail (parts ++ more) = walk (walk trail parts) more := List.foldl_append

theorem walk_concat (trail parts : List String) (part : String) :
    walk trail (parts ++ [part]) = advance (walk trail parts) part := walk_append trail parts [part]

/-- Parts without double dots only lead down. -/
theorem walk_of_plain (h : ".." ∉ parts) (trail : List String) :
    walk trail parts = trail ++ parts := by
  induction parts generalizing trail with
  | nil => exact (List.append_nil trail).symm
  | cons part parts ih =>
    obtain ⟨hpart, hparts⟩ := not_or.1 (List.mem_cons.not.1 h)
    have hstep : advance trail part = trail ++ [part] := if_neg (Ne.symm hpart)
    have hwalk : walk trail (part :: parts) = walk (advance trail part) parts := rfl
    rw [hwalk, hstep, ih hparts, List.append_assoc, List.singleton_append]

/-- A walk that gets below a trail has come to it. -/
theorem exists_walk_eq (hr : r ≠ []) (h : r <+: walk [] parts) :
    ∃ ps, ps <+: parts ∧ walk [] ps = r := by
  induction parts using List.reverseRecOn with
  | nil => exact absurd (List.prefix_nil.1 h) hr
  | append_singleton parts part ih =>
    rw [walk_concat, advance] at h
    have hbefore (h : r <+: walk [] parts) : ∃ ps, ps <+: parts ++ [part] ∧ walk [] ps = r := by
      obtain ⟨ps, hps, hwalk⟩ := ih h
      exact ⟨ps, hps.trans (List.prefix_append _ _), hwalk⟩
    split at h
    · exact hbefore (h.trans (List.dropLast_prefix _))
    · next hpart =>
      rcases List.prefix_concat_iff.1 h with heq | h
      · refine ⟨parts ++ [part], List.prefix_rfl, ?_⟩
        rw [walk_concat, advance, if_neg hpart, heq]
      · exact hbefore h

theorem leadsThrough_concat {x : String} (h : p.parts = parts ++ [x]) :
    p.LeadsThrough q ↔ ∃ ps, ps <+: parts ∧ walk [] ps = q := by
  rw [LeadsThrough, h]
  constructor
  · rintro ⟨ps, hps, hne, hq⟩
    exact ⟨ps, (List.prefix_concat_iff.1 hps).resolve_left hne, hq⟩
  · rintro ⟨ps, hps, hq⟩
    refine ⟨ps, hps.trans (List.prefix_append _ _), fun heq ↦ ?_, hq⟩
    have hlength := hps.length_le
    rw [heq, List.length_append, List.length_singleton] at hlength
    omega

/-! ### Paths that a file system takes -/

/-- The name of a part is not too long. -/
def Fits (part : String) : Prop := part = ".." ∨ part.utf8ByteSize ≤ FileTree.maxNameBytes

/-- A path has no zero character, does not leave the working directory, and has no name that is too
long. -/
structure Usable (p : Path) : Prop where
  noZero : p.hasZero = false
  relative : p.root = "" ∨ p.parts = []
  fits : ∀ part ∈ p.parts, Fits part

end Path

open EventSchema.Path

namespace FileTree

/-- A path can be followed in a tree up to its last part. -/
structure Admits (t : FileTree) (p : Path) : Prop where
  usable : p.Usable
  dirs : ∀ q, p.LeadsThrough q → t.view q = some .dir

theorem step_eq_ok_iff :
    t.step start part = .ok r ↔ t.view start = some .dir ∧ Fits part ∧ r = advance start part := by
  rw [view, step, advance, Fits]
  cases t.get? start with
  | none => simp
  | some u =>
    cases u with
    | file text => simp [standing]
    | dir es =>
      by_cases hpart : part = ".."
      · simp [hpart, standing, eq_comm]
      · by_cases hlong : maxNameBytes < part.utf8ByteSize
        · simp [hpart, hlong, standing, Nat.not_le.2 hlong]
        · simp [hpart, hlong, standing, eq_comm, Nat.not_lt.1 hlong]

theorem follow_eq_ok_iff :
    t.follow start parts = .ok r ↔
      (∀ ps, ps <+: parts → ps ≠ parts → t.view (walk start ps) = some .dir) ∧
        (∀ part ∈ parts, Fits part) ∧ r = walk start parts := by
  induction parts generalizing start with
  | nil =>
    have hnil : ∀ ps : List String, ps <+: [] → ps ≠ [] → t.view (walk start ps) = some .dir :=
      fun ps hps hne ↦ absurd (List.prefix_nil.1 hps) hne
    rw [follow]
    exact ⟨fun h ↦ ⟨hnil, by simp, (Except.ok.inj h).symm⟩, fun h ↦ by rw [h.2.2]; rfl⟩
  | cons part parts ih =>
    have hstep : t.follow start (part :: parts) = .ok r ↔
        ∃ next, t.step start part = .ok next ∧ t.follow next parts = .ok r := by
      rw [follow]
      cases t.step start part <;> simp
    rw [hstep]
    constructor
    · rintro ⟨next, hnext, hrest⟩
      obtain ⟨hdir, hfits, rfl⟩ := step_eq_ok_iff.1 hnext
      obtain ⟨hdirs, hall, hr⟩ := ih.1 hrest
      refine ⟨fun ps hps hne ↦ ?_, List.forall_mem_cons.2 ⟨hfits, hall⟩, hr⟩
      cases ps with
      | nil => exact hdir
      | cons x ps =>
        obtain ⟨rfl, htail⟩ := List.cons_prefix_cons.1 hps
        exact hdirs ps htail fun heq ↦ hne (by rw [heq])
    · rintro ⟨hdirs, hall, hr⟩
      obtain ⟨hfits, hall⟩ := List.forall_mem_cons.1 hall
      have hdir : t.view start = some .dir :=
        hdirs [] List.nil_prefix (List.cons_ne_nil _ _).symm
      refine ⟨_, step_eq_ok_iff.2 ⟨hdir, hfits, rfl⟩, ih.2 ⟨fun ps hps hne ↦ ?_, hall, hr⟩⟩
      exact hdirs (part :: ps) (List.cons_prefix_cons.2 ⟨rfl, hps⟩) fun heq ↦
        hne (List.cons.inj heq).2

/-- A path leads to its trail if the tree admits it. -/
theorem Admits.locate_eq (h : t.Admits p) : t.locate p = .ok (p.trail, t.get? p.trail) := by
  have hfollow : t.follow [] p.parts = .ok p.trail :=
    follow_eq_ok_iff.2 ⟨fun ps hps hne ↦ h.dirs _ ⟨ps, hps, hne, rfl⟩, h.usable.fits, rfl⟩
  have hroot : ¬ (p.root ≠ "" ∧ p.parts ≠ []) := fun hroot ↦
    h.usable.relative.elim hroot.1 hroot.2
  rw [locate, h.usable.noZero, if_neg Bool.false_ne_true, if_neg hroot, hfollow]

/-- A path that leads to something is admitted, and leads to its trail. -/
theorem locate_ok {x : List String × Option FileTree} (h : t.locate p = .ok x) :
    t.Admits p ∧ x = (p.trail, t.get? p.trail) := by
  rw [locate] at h
  split at h
  · cases h
  · next hzero =>
    split at h
    · cases h
    · next hroot =>
      cases hfollow : t.follow [] p.parts with
      | error e => rw [hfollow] at h; cases h
      | ok trail =>
        rw [hfollow] at h
        obtain ⟨hdirs, hfits, htrail⟩ := follow_eq_ok_iff.1 hfollow
        have hrelative : p.root = "" ∨ p.parts = [] := by
          by_cases hempty : p.root = ""
          · exact .inl hempty
          · exact .inr (Decidable.not_not.1 fun hne ↦ hroot ⟨hempty, hne⟩)
        have hx := (Except.ok.inj h).symm
        rw [htrail] at hx
        refine ⟨⟨⟨Bool.eq_false_iff.2 hzero, hrelative, hfits⟩, ?_⟩, hx⟩
        rintro q ⟨ps, hps, hne, rfl⟩
        exact hdirs ps hps hne

/-- Whether a path can be followed depends on what stands on its way. -/
theorem Admits.congr (h : t.Admits p) (hview : ∀ q, p.LeadsThrough q → u.view q = t.view q) :
    u.Admits p :=
  ⟨h.usable, fun q hq ↦ (hview q hq).trans (h.dirs q hq)⟩

/-- What a path can lead to lies in a directory. -/
theorem Admits.view_dropLast (h : t.Admits p) (hp : p.trail ≠ []) :
    t.view p.trail.dropLast = some .dir := by
  rcases List.eq_nil_or_concat p.parts with hnil | ⟨parts, part, hparts⟩
  · exact absurd (congrArg (walk []) hnil) hp
  · rw [List.concat_eq_append] at hparts
    have hdir : t.view (walk [] parts) = some .dir :=
      h.dirs _ ((leadsThrough_concat hparts).2 ⟨parts, List.prefix_rfl, rfl⟩)
    have htrail : p.trail = advance (walk [] parts) part := by
      rw [trail, hparts, walk_concat]
    rw [htrail] at hp ⊢
    rw [advance] at hp ⊢
    split at hp
    · next hpart =>
      rw [if_pos hpart]
      obtain ⟨s, hs⟩ : (walk [] parts).dropLast.dropLast <+: walk [] parts :=
        (List.dropLast_prefix _).trans (List.dropLast_prefix _)
      refine view_of_append (q := s) (by rw [hs, hdir]; simp) fun hnil ↦ hp ?_
      have hlength := congrArg List.length hs
      rw [hnil, List.append_nil, List.length_dropLast, List.length_dropLast] at hlength
      exact List.eq_nil_of_length_eq_zero (by rw [List.length_dropLast]; omega)
    · next hpart => rwa [if_neg hpart, List.dropLast_concat]

end FileTree

end EventSchema
