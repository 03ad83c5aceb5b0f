import Mathlib

namespace FileTree
set_option autoImplicit true

/-- One step of a path. -/
inductive Component (α : Type) where
  | here
  | up
  | name (n : α)
  deriving DecidableEq, Repr

/-- What a name stands for. The target of a link is a path, from the root or from the directory
that holds the link. -/
inductive Entry (α : Type) where
  | directory
  | regular
  | special
  | link (absolute : Bool) (target : List (Component α))
  deriving DecidableEq, Repr

def Entry.IsLink (e : Entry α) : Prop := ∃ absolute target, e = .link absolute target

/-- What stands at each location of a file tree, named by the directories above it. -/
abbrev Disk (α : Type) := List α → Option (Entry α)

/-- A location at which there is a link. -/
def LinkAt (t : Disk α) (loc : List α) : Prop := ∃ e, t loc = some e ∧ e.IsLink

/-- Where a path leads from a directory when every link is followed. -/
inductive Walks (t : Disk α) : List α → List (Component α) → List α → Prop
  | done : Walks t cwd [] cwd
  | here : t cwd = some .directory → Walks t cwd path loc → Walks t cwd (.here :: path) loc
  | up : t cwd = some .directory → Walks t cwd.dropLast path loc → Walks t cwd (.up :: path) loc
  | enter : t cwd = some .directory → t (cwd ++ [n]) = some e → ¬ e.IsLink →
      Walks t (cwd ++ [n]) path loc → Walks t cwd (.name n :: path) loc
  | follow : t cwd = some .directory → t (cwd ++ [n]) = some (.link absolute target) →
      Walks t (if absolute then [] else cwd) (target ++ path) loc →
      Walks t cwd (.name n :: path) loc

/-- A location with directories above it and no link on the way. -/
inductive Real (t : Disk α) : List α → Prop
  | root : Real t []
  | entry : Real t loc → t loc = some .directory → t (loc ++ [n]) = some e → ¬ e.IsLink →
      Real t (loc ++ [n])

variable {t : Disk α} {cwd mid loc loc' : List α} {path rest : List (Component α)} {n : α}

theorem linkAt_of_eq (h : t loc = some (.link absolute target)) : LinkAt t loc :=
  ⟨_, h, _, _, rfl⟩

theorem not_linkAt (h : t loc = some e) (he : ¬ e.IsLink) : ¬ LinkAt t loc := by
  rintro ⟨e', h', hl⟩
  rw [h] at h'
  cases h'
  exact he hl

theorem Walks.append (h : Walks t cwd path mid) (h' : Walks t mid rest loc) :
    Walks t cwd (path ++ rest) loc := by
  induction h with
  | done => exact h'
  | here hd _ ih => exact .here hd (ih h')
  | up hd _ ih => exact .up hd (ih h')
  | enter hd he hl _ ih => exact .enter hd he hl (ih h')
  | follow hd he _ ih =>
    have hw := ih h'
    rw [List.append_assoc] at hw
    exact .follow hd he hw

/-- A walk along two paths passes the end of the first. -/
theorem Walks.split (h : Walks t cwd (path ++ rest) loc) :
    ∃ mid, Walks t cwd path mid ∧ Walks t mid rest loc := by
  generalize hp : path ++ rest = whole at h
  induction h generalizing path with
  | done =>
    obtain ⟨rfl, rfl⟩ := List.append_eq_nil_iff.1 hp
    exact ⟨_, .done, .done⟩
  | here hd hw ih =>
    rcases List.cons_eq_append_iff.1 hp.symm with ⟨rfl, rfl⟩ | ⟨path, rfl, rfl⟩
    · exact ⟨_, .done, .here hd hw⟩
    · obtain ⟨mid, hfst, hsnd⟩ := ih rfl
      exact ⟨mid, .here hd hfst, hsnd⟩
  | up hd hw ih =>
    rcases List.cons_eq_append_iff.1 hp.symm with ⟨rfl, rfl⟩ | ⟨path, rfl, rfl⟩
    · exact ⟨_, .done, .up hd hw⟩
    · obtain ⟨mid, hfst, hsnd⟩ := ih rfl
      exact ⟨mid, .up hd hfst, hsnd⟩
  | enter hd he hl hw ih =>
    rcases List.cons_eq_append_iff.1 hp.symm with ⟨rfl, rfl⟩ | ⟨path, rfl, rfl⟩
    · exact ⟨_, .done, .enter hd he hl hw⟩
    · obtain ⟨mid, hfst, hsnd⟩ := ih rfl
      exact ⟨mid, .enter hd he hl hfst, hsnd⟩
  | follow hd he hw ih =>
    rcases List.cons_eq_append_iff.1 hp.symm with ⟨rfl, rfl⟩ | ⟨path, rfl, rfl⟩
    · exact ⟨_, .done, .follow hd he hw⟩
    · obtain ⟨mid, hfst, hsnd⟩ := ih (List.append_assoc ..)
      exact ⟨mid, .follow hd he hfst, hsnd⟩

/-- A path leads to one location at most. -/
theorem Walks.unique (h : Walks t cwd path loc) (h' : Walks t cwd path loc') : loc = loc' := by
  induction h with
  | done =>
    cases h'
    rfl
  | here _ _ ih =>
    cases h' with
    | here _ hw => exact ih hw
  | up _ _ ih =>
    cases h' with
    | up _ hw => exact ih hw
  | enter _ he hl _ ih =>
    cases h' with
    | enter _ _ _ hw => exact ih hw
    | follow _ he' _ => exact (not_linkAt he hl (linkAt_of_eq he')).elim
  | follow _ he _ ih =>
    cases h' with
    | enter _ he' hl _ => exact (not_linkAt he' hl (linkAt_of_eq he)).elim
    | follow _ he' hw =>
      rw [he] at he'
      cases he'
      exact ih hw

theorem Walks.directory (h : Walks t cwd (c :: path) loc) : t cwd = some .directory := by
  cases h with
  | here hd _ => exact hd
  | up hd _ => exact hd
  | enter hd _ _ _ => exact hd
  | follow hd _ _ => exact hd

/-- A name that stands for no link is where its path leads. -/
theorem Walks.name_of_not_link (h : Walks t cwd [.name n] loc) (hl : ¬ LinkAt t (cwd ++ [n])) :
    loc = cwd ++ [n] := by
  cases h with
  | enter _ _ _ hw =>
    cases hw
    rfl
  | follow _ he _ => exact (hl (linkAt_of_eq he)).elim

theorem Real.above (h : Real t (loc ++ [n])) : Real t loc ∧ t loc = some .directory := by
  generalize hl : loc ++ [n] = whole at h
  cases h with
  | root => exact absurd hl (by simp)
  | entry h hd _ _ =>
    obtain ⟨rfl, _⟩ := List.append_inj' hl rfl
    exact ⟨h, hd⟩

theorem Real.dropLast (h : Real t loc) : Real t loc.dropLast := by
  cases h with
  | root => exact .root
  | entry h _ _ _ =>
    rw [List.dropLast_concat]
    exact h

theorem Real.of_prefix (h : Real t loc) (hp : mid <+: loc) : Real t mid := by
  induction h with
  | root =>
    rw [List.prefix_nil.1 hp]
    exact .root
  | entry h hd he hl ih =>
    rcases List.prefix_concat_iff.1 hp with rfl | hp
    · exact .entry h hd he hl
    · exact ih hp

/-- The end of a walk is a location in its own right. -/
theorem Walks.real (h : Walks t cwd path loc) (hc : Real t cwd) : Real t loc := by
  induction h with
  | done => exact hc
  | here _ _ ih => exact ih hc
  | up _ _ ih => exact ih hc.dropLast
  | enter hd he hl _ ih => exact ih (.entry hc hd he hl)
  | @follow _ _ absolute _ _ _ _ _ _ ih =>
    apply ih
    cases absolute with
    | true => exact .root
    | false => exact hc

/-- The names of a location lead to it. -/
theorem Real.walks (h : Real t loc) : Walks t [] (loc.map .name) loc := by
  induction h with
  | root => exact .done
  | entry _ hd he hl ih =>
    rw [List.map_append]
    exact ih.append (.enter hd he hl .done)

/-- `Walks` with a bound on the number of steps. -/
def walk (t : Disk α) : Nat → List α → List (Component α) → Option (List α)
  | 0, _, _ => none
  | _ + 1, cwd, [] => some cwd
  | fuel + 1, cwd, c :: path =>
    match t cwd with
    | some .directory =>
      match c with
      | .here => walk t fuel cwd path
      | .up => walk t fuel cwd.dropLast path
      | .name n =>
        match t (cwd ++ [n]) with
        | none => none
        | some (.link absolute target) =>
          walk t fuel (if absolute then [] else cwd) (target ++ path)
        | some _ => walk t fuel (cwd ++ [n]) path
    | _ => none

theorem walk_sound (h : walk t fuel cwd path = some loc) : Walks t cwd path loc := by
  induction fuel generalizing cwd path with
  | zero => cases h
  | succ fuel ih =>
    cases path with
    | nil =>
      cases h
      exact .done
    | cons c path =>
      unfold walk at h
      split at h
      · next hd =>
        cases c with
        | here => exact .here hd (ih h)
        | up => exact .up hd (ih h)
        | name n =>
          dsimp only at h
          split at h
          · cases h
          · next he => exact .follow hd he (ih h)
          · next e hnot he =>
            refine .enter hd he ?_ (ih h)
            rintro ⟨absolute, target, rfl⟩
            exact hnot _ _ rfl
      · cases h

end FileTree
