import FileWebServer.Lib.Sorting
import FileWebServer.Server.FileServer

namespace FileWebServer
open Sorting
set_option autoImplicit true

namespace FileServer
variable {sys sys' : FileSystem} {server : FileServer} {path dir : Bytes}
  {names names' : List Bytes} {a b c e : DirEntry} {l l' : List DirEntry}

/-- The path that `list_directory` gives to `opendir`. -/
def listedPath (server : FileServer) (requestPath : Bytes) : Bytes :=
  let path := server.rootDir ++ normalize requestPath
  if path.getLast? = some slash then path else path ++ [slash]

/-- The order of a listing: directories come before everything else, and each kind is in the byte
order of its names. -/
def Before (a b : DirEntry) : Prop :=
  (a.isDirectory = true ∧ b.isDirectory = false) ∨
    (a.isDirectory = b.isDirectory ∧ a.name < b.name)

/-- An entry that a listing has: its name is one that `readdir` returned, not a hidden one, and
the rest is what `stat` says of it. -/
def Shown (sys : FileSystem) (dir : Bytes) (names : List Bytes) (e : DirEntry) : Prop :=
  e.name ∈ names ∧ (e.name ≠ [] ∧ isHidden e.name = false) ∧
    ∃ st, sys.stat (dir ++ e.name) = some st ∧ e.isDirectory = decide (st.kind = .directory) ∧
      e.size = st.size ∧ e.lastModified = st.mtime

/-- A listing of the directory `dir`, in which `readdir` finds `names`. -/
structure Lists (sys : FileSystem) (dir : Bytes) (names : List Bytes) (l : List DirEntry) :
    Prop where
  entries : ∀ e, e ∈ l ↔ Shown sys dir names e
  once : (l.map DirEntry.name).Nodup
  order : l.Pairwise Before

theorem entryLess_iff : entryLess a b = true ↔ Before a b := by
  unfold entryLess Before
  cases a.isDirectory with
  | false => cases b.isDirectory <;> simp
  | true => cases b.isDirectory <;> simp

theorem Before.asymm (h : Before a b) : ¬ Before b a := by
  rintro (⟨hb, ha⟩ | ⟨hd, hlt⟩)
  · rcases h with ⟨ha', _⟩ | ⟨hd, _⟩
    · rw [ha] at ha'
      cases ha'
    · rw [ha, hb] at hd
      cases hd
  · rcases h with ⟨ha, hb⟩ | ⟨_, hlt'⟩
    · rw [ha, hb] at hd
      cases hd
    · exact List.lt_asymm hlt hlt'

theorem entryLess_strictWeak : StrictWeak entryLess := by
  constructor
  · intro a b hab
    rw [Bool.eq_false_iff, ne_eq, entryLess_iff]
    exact (entryLess_iff.1 hab).asymm
  · intro a c b hac
    simp only [entryLess_iff] at hac ⊢
    rcases hac with ⟨ha, hc⟩ | ⟨hd, hlt⟩
    · cases hb : b.isDirectory with
      | false => exact .inl (.inl ⟨ha, hb⟩)
      | true => exact .inr (.inl ⟨hb, hc⟩)
    · by_cases hab : a.isDirectory = b.isDirectory
      · by_cases hn : a.name < b.name
        · exact .inl (.inr ⟨hab, hn⟩)
        · exact .inr (.inr ⟨hab.symm.trans hd, List.lt_of_le_of_lt hn hlt⟩)
      · -- one of the two is a directory, so `b` stands outside the group of `a` and `c`
        cases hb : b.isDirectory with
        | false =>
          rw [hb, Bool.not_eq_false] at hab
          exact .inl (.inl ⟨hab, hb⟩)
        | true =>
          rw [hb, Bool.not_eq_true] at hab
          exact .inr (.inl ⟨hb, hd ▸ hab⟩)

/-- Entries of different names are told apart. -/
theorem before_or_before (h : a.name ≠ b.name) : Before a b ∨ Before b a := by
  by_cases hd : a.isDirectory = b.isDirectory
  · by_cases hlt : a.name < b.name
    · exact .inl (.inr ⟨hd, hlt⟩)
    · refine .inr (.inr ⟨hd.symm, ?_⟩)
      by_contra hlt'
      exact h (List.le_antisymm hlt' hlt)
  · cases hb : b.isDirectory with
    | false =>
      rw [hb, Bool.not_eq_false] at hd
      exact .inl (.inl ⟨hd, hb⟩)
    | true =>
      rw [hb, Bool.not_eq_true] at hd
      exact .inr (.inl ⟨hb, hd⟩)

theorem dirEntry_eq_some {name : Bytes} : dirEntry sys dir name = some e ↔
    e.name = name ∧ (e.name ≠ [] ∧ isHidden e.name = false) ∧
      ∃ st, sys.stat (dir ++ e.name) = some st ∧ e.isDirectory = decide (st.kind = .directory) ∧
        e.size = st.size ∧ e.lastModified = st.mtime := by
  unfold dirEntry
  constructor
  · intro h
    split at h
    · cases h
    · next hskip =>
      obtain ⟨hne, hvisible⟩ := not_or.1 hskip
      obtain ⟨st, hst, rfl⟩ := Option.map_eq_some_iff.1 h
      exact ⟨rfl, ⟨hne, Bool.eq_false_iff.2 hvisible⟩, st, hst, rfl, rfl, rfl⟩
  · rintro ⟨rfl, ⟨hne, hvisible⟩, st, hst, hdir, hsize, htime⟩
    rw [if_neg (not_or.2 ⟨hne, Bool.eq_false_iff.1 hvisible⟩), hst, Option.map_some]
    apply congrArg some
    obtain ⟨name, isDirectory, size, lastModified⟩ := e
    rw [DirEntry.mk.injEq]
    exact ⟨rfl, hdir.symm, hsize.symm, htime.symm⟩

/-- The loop over `readdir` skips what is not shown, and nothing else. -/
theorem mem_entries : e ∈ names.filterMap (dirEntry sys dir) ↔ Shown sys dir names e := by
  rw [List.mem_filterMap]
  constructor
  · rintro ⟨name, hname, h⟩
    obtain ⟨rfl, hshown⟩ := dirEntry_eq_some.1 h
    exact ⟨hname, hshown⟩
  · rintro ⟨hname, hshown⟩
    exact ⟨e.name, hname, dirEntry_eq_some.2 ⟨rfl, hshown⟩⟩

theorem names_sublist (sys : FileSystem) (dir : Bytes) (names : List Bytes) :
    ((names.filterMap (dirEntry sys dir)).map DirEntry.name).Sublist names := by
  induction names with
  | nil => exact .slnil
  | cons name names ih =>
    cases h : dirEntry sys dir name with
    | none =>
      rw [List.filterMap_cons_none h]
      exact ih.cons name
    | some e =>
      rw [List.filterMap_cons_some h, List.map_cons, (dirEntry_eq_some.1 h).1]
      exact ih.cons_cons name

theorem entries_separated (hnd : names.Nodup) :
    Separates entryLess (names.filterMap (dirEntry sys dir)) := by
  have hnames : ((names.filterMap (dirEntry sys dir)).map DirEntry.name).Nodup :=
    hnd.sublist (names_sublist sys dir names)
  apply (List.pairwise_map.1 hnames).imp
  intro a b hab
  exact (before_or_before hab).imp entryLess_iff.2 entryLess_iff.2

/-- Whatever a sort makes of the entries is a listing. -/
theorem lists_of_sorts (h : Sorts entryLess (names.filterMap (dirEntry sys dir)) l)
    (hnd : names.Nodup) : Lists sys dir names l := by
  constructor
  · exact fun e => h.perm.mem_iff.trans mem_entries
  · exact (h.perm.map _).nodup_iff.2 (hnd.sublist (names_sublist sys dir names))
  · exact (h.strict (entries_separated hnd)).imp entryLess_iff.1

theorem Shown.congr (hp : names'.Perm names)
    (hstat : ∀ name ∈ names, sys'.stat (dir ++ name) = sys.stat (dir ++ name)) :
    Shown sys' dir names' e ↔ Shown sys dir names e := by
  unfold Shown
  rw [hp.mem_iff]
  apply and_congr_right
  intro hname
  rw [hstat e.name hname]

/-- A directory has one listing, in whatever order `readdir` returns its names. -/
theorem Lists.unique (h : Lists sys dir names l) (h' : Lists sys' dir names' l')
    (hp : names'.Perm names)
    (hstat : ∀ name ∈ names, sys'.stat (dir ++ name) = sys.stat (dir ++ name)) : l' = l := by
  have hperm : l'.Perm l := by
    apply (List.perm_ext_iff_of_nodup (h'.once.of_map _) (h.once.of_map _)).2
    intro e
    rw [h'.entries, h.entries, Shown.congr hp hstat]
  apply hperm.eq_of_pairwise _ h'.order h.order
  exact fun a b _ _ hab hba => absurd hba hab.asymm

theorem listDirectory_sorts (hpath : normalize path ≠ [])
    (hopen : sys.opendir (listedPath server path) = some names) :
    Sorts entryLess (names.filterMap (dirEntry sys (listedPath server path)))
      (listDirectory sys server path) := by
  unfold listedPath at hopen ⊢
  unfold listDirectory
  dsimp only at hopen ⊢
  rw [if_neg hpath, hopen]
  exact entryLess_strictWeak.sorts_insertionSort _

/-- The listing of a directory is determined by its contents: it has every entry that is to be
shown once and in order, whatever sort makes it and in whatever order `readdir` returns them. -/
theorem listDirectory_canonical (hpath : normalize path ≠ []) (hnd : names.Nodup)
    (hopen : sys.opendir (listedPath server path) = some names) :
    Lists sys (listedPath server path) names (listDirectory sys server path) ∧
    (∀ l, Sorts entryLess (names.filterMap (dirEntry sys (listedPath server path))) l →
      l = listDirectory sys server path) ∧
    ∀ sys' names', sys'.opendir (listedPath server path) = some names' → names'.Perm names →
      (∀ name ∈ names, sys'.stat (listedPath server path ++ name) =
        sys.stat (listedPath server path ++ name)) →
      listDirectory sys' server path = listDirectory sys server path := by
  have hsorts := listDirectory_sorts hpath hopen
  have hlists := lists_of_sorts hsorts hnd
  refine ⟨hlists, ?_, ?_⟩
  · intro l hl
    exact entryLess_strictWeak.eq_of_sorts (entries_separated hnd) hl hsorts
  · intro sys' names' hopen' hp hstat
    have hlists' := lists_of_sorts (listDirectory_sorts hpath hopen') (hp.nodup_iff.2 hnd)
    exact hlists.unique hlists' hp hstat

/-- A directory with two files, a directory, a hidden file and a broken link. -/
def shelf (names : List Bytes) : FileSystem :=
  { FileSystem.void with
    opendir := fun _ => some names
    stat := fun path =>
      if path = bytes "/srv/img" then some ⟨.directory, 96, 5⟩
      else if path = bytes "/srv/lost" then none
      else some ⟨.regular, 12, 7⟩ }

def shelfNames : List Bytes := [bytes "b", bytes ".git", bytes "lost", bytes "img", bytes "B"]

theorem listDirectory_canonical_shelf :
    listDirectory (shelf shelfNames.reverse) ⟨bytes "/srv"⟩ [slash] =
        listDirectory (shelf shelfNames) ⟨bytes "/srv"⟩ [slash] ∧
      [⟨bytes "img", true, 96, 5⟩, ⟨bytes "B", false, 12, 7⟩, ⟨bytes "b", false, 12, 7⟩] =
        listDirectory (shelf shelfNames) ⟨bytes "/srv"⟩ [slash] := by
  have hpath : normalize [slash] ≠ [] := by decide
  have hnd : shelfNames.Nodup := by decide
  have hopen : (shelf shelfNames).opendir (listedPath ⟨bytes "/srv"⟩ [slash]) = some shelfNames :=
    rfl
  obtain ⟨_, hsort, horder⟩ := listDirectory_canonical hpath hnd hopen
  constructor
  · exact horder _ _ rfl (List.reverse_perm _) fun _ _ => rfl
  · apply hsort
    constructor
    · decide
    · decide

end FileServer

end FileWebServer
