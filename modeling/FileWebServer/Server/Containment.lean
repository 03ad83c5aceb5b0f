import FileWebServer.Lib.FileTree
import FileWebServer.Server.Normalize

namespace FileWebServer
namespace FileServer
open FileTree Search
set_option autoImplicit true

/-- A name that a directory can hold. -/
abbrev FileName := { name : Bytes // name ≠ [] ∧ slash ∉ name ∧ name ≠ [dot] ∧ name ≠ [dot, dot] }

def component (seg : Bytes) : Component FileName :=
  if h : seg ≠ [] ∧ slash ∉ seg ∧ seg ≠ [dot] ∧ seg ≠ [dot, dot] then .name ⟨seg, h⟩
  else if seg = [dot, dot] then .up
  else .here

/-- The steps of a path, as the kernel takes them. -/
def components (path : Bytes) : List (Component FileName) := (path.splitOn slash).map component

/-- Where a path begins, in a process with a working directory. -/
def start (cwd : List FileName) (path : Bytes) : List FileName :=
  if path.head? = some slash then [] else cwd

/-- The location that a path leads to when all links are followed. -/
def Resolves (t : Disk FileName) (cwd : List FileName) (path : Bytes) (loc : List FileName) : Prop :=
  Walks t (start cwd path) (components path) loc

/-- The location that a path leads to when a link in its last component is not followed. -/
def StopsAt (t : Disk FileName) (cwd : List FileName) (path : Bytes) (loc : List FileName) : Prop :=
  match (components path).getLast? with
  | some (.name n) => ∃ dir, Walks t (start cwd path) (components path).dropLast dir ∧
      t dir = some .directory ∧ loc = dir ++ [n]
  | _ => Resolves t cwd path loc

/-- The absolute path of a location. -/
def render (loc : List FileName) : Bytes :=
  if loc = [] then [slash] else loc.flatMap (slash :: ·.val)

def kindOf : Entry FileName → FileKind
  | .directory => .directory
  | .regular => .regular
  | .special => .other
  | .link _ _ => .symlink

/-- The file system calls of a process answer by a tree: `lstat` does not follow a link in the
last component, `stat` and `open` do, and `realpath` gives the path without links. Every call may
fail besides. -/
structure Follows (t : Disk FileName) (cwd : List FileName) (sys : FileSystem) : Prop where
  standing : Real t cwd
  lstat : ∀ path st, sys.lstat path = some st →
    ∃ loc e, StopsAt t cwd path loc ∧ t loc = some e ∧ kindOf e = st.kind
  stat : ∀ path st, sys.stat path = some st →
    ∃ loc e, Resolves t cwd path loc ∧ t loc = some e ∧ kindOf e = st.kind
  realpath : ∀ path resolved, sys.realpath path = some resolved →
    ∃ loc, Resolves t cwd path loc ∧ resolved = render loc
  openRdonly : ∀ path fd, sys.openRdonly path = some fd → ∃ loc, Resolves t cwd path loc

variable {t : Disk FileName} {cwd loc root dir : List FileName} {path rootDir : Bytes}
  {sys : FileSystem} {server : FileServer} {info : FileInfo}

theorem component_name (n : FileName) : component n.val = .name n := dif_pos n.property

theorem component_segment {seg : Bytes} (h : IsSegment seg) : ∃ n, component seg = .name n := by
  have hdot : seg ≠ [dot] ∧ seg ≠ [dot, dot] := by
    constructor
    · rintro rfl
      exact h.visible rfl
    · rintro rfl
      exact h.visible rfl
  exact ⟨_, dif_pos ⟨h.nonempty, h.slash, hdot.1, hdot.2⟩⟩

theorem components_append (a b : Bytes) :
    components (a ++ slash :: b) = components a ++ components b := by
  rw [components, List.splitOn_append_cons_self, List.map_append]
  rfl

theorem components_ne_nil (path : Bytes) : components path ≠ [] := by
  simp [components]

theorem components_root (rootDir : Bytes) :
    components (rootDir ++ [slash]) = components rootDir ++ [.here] :=
  components_append rootDir []

theorem start_append (cwd : List FileName) (a b c : Bytes) :
    start cwd (a ++ slash :: b) = start cwd (a ++ slash :: c) := by
  cases a with
  | nil => rfl
  | cons => rfl

theorem components_names {names : List FileName} (hne : names ≠ []) (rootDir : Bytes) :
    components (rootDir ++ names.flatMap (slash :: ·.val)) =
      components rootDir ++ names.map .name := by
  have hmap : names.flatMap (slash :: ·.val) = (names.map (·.val)).flatMap (slash :: ·) :=
    (List.flatMap_map ..).symm
  have hslash : ∀ part ∈ names.map (·.val), slash ∉ part := by
    intro part hp
    obtain ⟨n, _, rfl⟩ := List.mem_map.1 hp
    exact n.property.2.1
  rw [components, hmap, splitOn_segments (mt List.map_eq_nil_iff.1 hne) hslash, List.map_append,
    List.map_map]
  congr 1
  exact List.map_congr_left fun n _ => component_name n

theorem components_render (hne : loc ≠ []) : components (render loc) = .here :: loc.map .name := by
  rw [render, if_neg hne, ← List.nil_append (loc.flatMap _), components_names hne]
  rfl

theorem render_head (loc : List FileName) : (render loc).head? = some slash := by
  unfold render
  split
  · rfl
  · next hne =>
    obtain ⟨n, ns, rfl⟩ := List.exists_cons_of_ne_nil hne
    rfl

/-- The root that a server's paths begin with. -/
def RootAt (t : Disk FileName) (cwd : List FileName) (server : FileServer) (root : List FileName) :
    Prop := Resolves t cwd (server.rootDir ++ [slash]) root

theorem isWithinRoot_append {resolved : Bytes} (h : isWithinRoot resolved rootDir = true) :
    resolved = rootDir ∨ ∃ rest, resolved = rootDir ++ slash :: rest := by
  unfold isWithinRoot at h
  split at h
  · cases h
  · next hfind =>
    obtain ⟨_, ⟨rest, hrest⟩, _⟩ := find_eq_some_iff.1 (not_not.1 hfind)
    rw [List.drop_zero] at hrest
    subst hrest
    cases rest with
    | nil => exact .inl (List.append_nil _)
    | cons b rest =>
      refine .inr ⟨rest, ?_⟩
      split at h
      · next hlen => simp at hlen
      · have hb : b = slash := by simpa using h
        rw [hb]

theorem walks_here {path : List (Component FileName)} (hpath : ∀ c ∈ path, c = .here)
    (h : Walks t loc path root) : root = loc := by
  induction h with
  | done => rfl
  | here _ _ ih => exact ih fun c hc => hpath c (List.mem_cons_of_mem _ hc)
  | up _ _ _ => cases hpath _ List.mem_cons_self
  | enter _ _ _ _ _ => cases hpath _ List.mem_cons_self
  | follow _ _ _ _ => cases hpath _ List.mem_cons_self

theorem components_of_within {resolved : Bytes} (h : isWithinRoot resolved rootDir = true) :
    ∃ tail, components resolved = components rootDir ++ tail := by
  rcases isWithinRoot_append h with rfl | ⟨rest, rfl⟩
  · exact ⟨[], (List.append_nil _).symm⟩
  · exact ⟨_, components_append ..⟩

/-- A root that a real path begins with is absolute. -/
theorem start_of_within (cwd : List FileName) (h : isWithinRoot (render loc) rootDir = true) :
    start cwd (rootDir ++ [slash]) = [] := by
  have hhead := render_head loc
  rcases isWithinRoot_append h with he | ⟨rest, he⟩
  · rw [he] at hhead
    apply if_pos
    rw [List.head?_append, hhead]
    rfl
  · rw [he] at hhead
    rw [start_append cwd rootDir [] rest]
    exact if_pos hhead

/-- The check of a resolved path against the text of the root tells of the locations. -/
theorem within_prefix (hreal : Real t loc) (hw : isWithinRoot (render loc) server.rootDir = true)
    (hroot : RootAt t cwd server root) : root <+: loc := by
  obtain ⟨tail, htail⟩ := components_of_within hw
  have hstart := start_of_within cwd hw
  unfold RootAt Resolves at hroot
  rw [hstart, components_root] at hroot
  by_cases hnil : loc = []
  · have hheres : ∀ c ∈ components server.rootDir ++ [.here], c = .here := by
      intro c hc
      rcases List.mem_append.1 hc with hc | hc
      · have hmem : c ∈ components (render loc) := by
          rw [htail]
          exact List.mem_append_left _ hc
        have hslash : components (render []) = [.here, .here] := by decide
        rw [hnil, hslash] at hmem
        simpa using hmem
      · exact List.mem_singleton.1 hc
    rw [walks_here hheres hroot]
    exact List.nil_prefix
  · rw [components_render hnil] at htail
    obtain ⟨c, names, hc⟩ := List.exists_cons_of_ne_nil (components_ne_nil server.rootDir)
    rw [hc, List.cons_append] at htail hroot
    obtain ⟨hhere, hnames⟩ := List.cons.inj htail
    subst hhere
    have htake : names = (loc.take names.length).map .name := by
      rw [List.map_take, hnames, List.take_left]
    cases hroot with
    | here _ hwalk =>
      obtain ⟨mid, hfst, hsnd⟩ := hwalk.split
      rw [htake] at hfst
      have hmid := hfst.unique (hreal.of_prefix (List.take_prefix ..)).walks
      rw [walks_here (by simp) hsnd, hmid]
      exact List.take_prefix ..

theorem isWithinRoot_iff (resolved rootDir : Bytes) : isWithinRoot resolved rootDir = true ↔
    resolved = rootDir ∨ ∃ rest, resolved = rootDir ++ slash :: rest := by
  refine ⟨isWithinRoot_append, ?_⟩
  rintro (rfl | ⟨rest, rfl⟩)
  · simp [isWithinRoot, find_prefix]
  · simp [isWithinRoot, find_prefix]

theorem names_prefix {root loc : List FileName} {tail : List (Component FileName)}
    (h : loc.map .name = root.map .name ++ tail) : root <+: loc := by
  have hinj : Function.Injective (Component.name : FileName → Component FileName) :=
    fun _ _ he => Component.name.inj he
  rw [← List.prefix_map_iff_of_injective hinj, h]
  exact List.prefix_append ..

/-- The path of a place other than the root directory goes on with a slash in the paths below. -/
theorem within_of_prefix (hroot : root ≠ []) (h : root <+: loc) :
    isWithinRoot (render loc) (render root) = true := by
  obtain ⟨tail, rfl⟩ := h
  rw [isWithinRoot_iff]
  cases tail with
  | nil => exact .inl (by rw [List.append_nil])
  | cons n ns =>
    have hloc : root ++ n :: ns ≠ [] := List.append_ne_nil_of_left_ne_nil hroot _
    refine .inr ⟨n.val ++ ns.flatMap (slash :: ·.val), ?_⟩
    rw [render, render, if_neg hloc, if_neg hroot, List.flatMap_append]
    rfl

theorem prefix_of_within (hroot : root ≠ []) (h : isWithinRoot (render loc) (render root) = true) :
    root <+: loc := by
  have hcomp : ∃ tail, components (render loc) = components (render root) ++ tail := by
    rcases isWithinRoot_append h with h | ⟨rest, h⟩
    · exact ⟨[], by rw [h, List.append_nil]⟩
    · exact ⟨_, by rw [h, components_append]⟩
  obtain ⟨tail, htail⟩ := hcomp
  rw [components_render hroot] at htail
  by_cases hloc : loc = []
  · -- the root directory's path has one slash and no name in it
    obtain ⟨n, ns, rfl⟩ := List.exists_cons_of_ne_nil hroot
    have hslash : components (render []) = [.here, .here] := by decide
    rw [hloc, hslash] at htail
    cases (List.cons.inj (List.cons.inj htail).2).1
  · rw [components_render hloc] at htail
    exact names_prefix (List.cons.inj htail).2

/-- Behind the root directory's own slash comes a name and not a slash. -/
theorem not_within_slash (hloc : loc ≠ []) : ¬ isWithinRoot (render loc) (render []) = true := by
  obtain ⟨n, ns, rfl⟩ := List.exists_cons_of_ne_nil hloc
  obtain ⟨b, bs, hb⟩ := List.exists_cons_of_ne_nil n.property.1
  have hslash : b ≠ slash := by
    rintro rfl
    exact n.property.2.1 (hb ▸ List.mem_cons_self)
  have hrender : render (n :: ns) = slash :: b :: (bs ++ ns.flatMap (slash :: ·.val)) := by
    rw [render, if_neg hloc, List.flatMap_cons, hb]
    rfl
  rw [isWithinRoot_iff, hrender]
  rintro (h | ⟨rest, h⟩)
  · cases (List.cons.inj h).2
  · exact hslash (List.cons.inj (List.cons.inj h).2).1

/-- For every two absolute paths without links, dot segments and spare slashes, the check agrees
with the prefix relation of their components except for a place below the root directory, which it
does not take to be there. -/
theorem within_root_iff (loc root : List FileName) :
    (isWithinRoot (render loc) (render root) = true ↔ root <+: loc) ↔ (root = [] → loc = []) := by
  by_cases hroot : root = []
  · subst hroot
    constructor
    · intro h _
      by_contra hloc
      exact not_within_slash hloc (h.2 List.nil_prefix)
    · intro h
      rw [h rfl]
      decide
  · exact ⟨fun _ h => (hroot h).elim, fun _ => ⟨prefix_of_within hroot, within_of_prefix hroot⟩⟩

/-- A server whose root is the root directory takes no file to be in it. -/
theorem root_directory_holds_nothing :
    render [] = bytes "/" ∧ render [⟨bytes "a", by decide⟩] = bytes "/a" ∧
      ¬ (isWithinRoot (render [⟨bytes "a", by decide⟩]) (render []) = true ↔
        ([] : List FileName) <+: [⟨bytes "a", by decide⟩]) :=
  ⟨by decide, by decide, by decide⟩

/-- The path that `open` looks at for a request. -/
def fullPath (server : FileServer) (path : Bytes) : Bytes := server.rootDir ++ normalize path

def indexName : FileName := ⟨bytes "index.html", by decide⟩

/-- The file that `open` has opened lies under the root, all links resolved. -/
def OpensInside (t : Disk FileName) (cwd : List FileName) (server : FileServer) (info : FileInfo) :
    Prop :=
  ∃ root loc, RootAt t cwd server root ∧ Resolves t cwd info.resolvedPath loc ∧ root <+: loc

/-- The links above the last component of a path lead nowhere outside the root. This is told only
of paths that end in no link, and lead to no directory whose index page is a link. -/
def ParentsInside (t : Disk FileName) (cwd : List FileName) (server : FileServer) (path : Bytes) :
    Prop :=
  ∀ root dirs n dir, RootAt t cwd server root →
    components (server.fullPath path) = dirs ++ [.name n] →
    Walks t (start cwd (server.fullPath path)) dirs dir → ¬ LinkAt t (dir ++ [n]) →
    ¬ (t (dir ++ [n]) = some .directory ∧ LinkAt t (dir ++ [n] ++ [indexName])) →
    root <+: dir ∨ root = dir ++ [n]

/-- An index page that is a link stands for a file under the root. -/
def IndexInside (t : Disk FileName) (cwd : List FileName) (server : FileServer) (path : Bytes) :
    Prop :=
  ∀ root dir, RootAt t cwd server root → Resolves t cwd (server.fullPath path) dir →
    t dir = some .directory → LinkAt t (dir ++ [indexName]) →
    ∃ loc, Resolves t cwd (server.fullPath path ++ bytes "/index.html") loc ∧ root <+: loc

/-- The links that `open` follows without looking at their targets lead nowhere outside the root. -/
structure LinksStayInside (t : Disk FileName) (cwd : List FileName) (server : FileServer)
    (path : Bytes) : Prop where
  parents : ParentsInside t cwd server path
  index : IndexInside t cwd server path

/-- How a path goes on behind the root. -/
theorem components_fullPath (server : FileServer) (h : normalize path ≠ []) :
    components (server.fullPath path) = components (server.rootDir ++ [slash]) ∨
      ∃ names n, components (server.fullPath path) =
        components server.rootDir ++ (names ++ [.name n]) := by
  rcases normalize_shape path with hn | hn | ⟨parts, hne, hparts, hn⟩
  · exact (h hn).elim
  · refine .inl ?_
    rw [fullPath, hn]
  · obtain ⟨init, last, rfl⟩ : ∃ init last, parts = init ++ [last] :=
      ⟨_, _, (List.dropLast_concat_getLast hne).symm⟩
    obtain ⟨n, hlast⟩ := component_segment (hparts last (by simp))
    refine .inr ⟨init.map component, n, ?_⟩
    rw [fullPath, hn, components, splitOn_segments hne fun part hp => (hparts part hp).slash,
      List.map_append, List.map_append, List.map_singleton, hlast]
    rfl

theorem normalize_slash (h : normalize path ≠ []) : ∃ rest, normalize path = slash :: rest := by
  rcases normalize_shape path with hn | hn | ⟨parts, hne, _, hn⟩
  · exact (h hn).elim
  · exact ⟨[], hn⟩
  · obtain ⟨part, parts, rfl⟩ := List.exists_cons_of_ne_nil hne
    exact ⟨_, hn⟩

theorem fullPath_start (h : normalize path ≠ []) :
    start cwd (server.fullPath path) = start cwd (server.rootDir ++ [slash]) := by
  obtain ⟨rest, hrest⟩ := normalize_slash h
  rw [fullPath, hrest]
  exact start_append ..

/-- Every path that goes on behind the root passes it. -/
theorem rootAt_of_walks {rest : List (Component FileName)} (hrest : rest ≠ [])
    (h : Walks t (start cwd (server.rootDir ++ [slash])) (components server.rootDir ++ rest) loc) :
    ∃ root, RootAt t cwd server root ∧ t root = some .directory ∧ Walks t root rest loc := by
  obtain ⟨root, hfst, hsnd⟩ := h.split
  obtain ⟨c, cs, rfl⟩ := List.exists_cons_of_ne_nil hrest
  refine ⟨root, ?_, hsnd.directory, hsnd⟩
  unfold RootAt Resolves
  rw [components_root]
  exact hfst.append (.here hsnd.directory .done)

/-- What `open` knows of the path of a request once it has dealt with a link at its end. -/
structure Found (t : Disk FileName) (cwd : List FileName) (server : FileServer) (path : Bytes)
    (st : Stat) (loc : List FileName) : Prop where
  resolves : Resolves t cwd (server.fullPath path) loc
  kind : ∃ e, t loc = some e ∧ kindOf e = st.kind
  last : RootAt t cwd server loc ∨ ∃ dirs n dir,
    components (server.fullPath path) = dirs ++ [.name n] ∧
    Walks t (start cwd (server.fullPath path)) dirs dir ∧
    ((LinkAt t (dir ++ [n]) ∧ ∀ root, RootAt t cwd server root → root <+: loc) ∨
      (¬ LinkAt t (dir ++ [n]) ∧ loc = dir ++ [n]))

theorem openRegular_ok {st : Stat} (h : openRegular sys path st = .ok info) :
    st.kind = .regular ∧ info.resolvedPath = path := by
  unfold openRegular at h
  split at h
  · cases h
  · next hk =>
    split at h
    · cases h
    · cases h
      exact ⟨not_not.1 hk, rfl⟩

theorem openIndex_ok {st : Stat} (h : openIndex sys path st = .ok info) :
    (st.kind = .directory ∧ ∃ ist, sys.stat (path ++ bytes "/index.html") = some ist ∧
      ist.kind = .regular ∧ info.resolvedPath = path ++ bytes "/index.html") ∨
    (st.kind = .regular ∧ info.resolvedPath = path) := by
  unfold openIndex at h
  split at h
  · next hd =>
    dsimp only at h
    split at h
    · next ist hist =>
      split at h
      · exact .inl ⟨hd, ist, hist, openRegular_ok h⟩
      · cases h
    · cases h
  · exact .inr (openRegular_ok h)

theorem kind_link {e : Entry FileName} (h : kindOf e = .symlink) : e.IsLink := by
  cases e with
  | link absolute target => exact ⟨_, _, rfl⟩
  | directory => cases h
  | regular => cases h
  | special => cases h

theorem kind_of_link {e : Entry FileName} (h : e.IsLink) : kindOf e = .symlink := by
  obtain ⟨absolute, target, rfl⟩ := h
  rfl

theorem openPath_ok (h : openPath sys server path = .ok info) :
    normalize path ≠ [] ∧ ∃ st, sys.lstat (server.fullPath path) = some st ∧
      ((st.kind = .symlink ∧ ∃ resolved st', sys.realpath (server.fullPath path) = some resolved ∧
          isWithinRoot resolved server.rootDir = true ∧
          sys.stat (server.fullPath path) = some st' ∧
          openIndex sys (server.fullPath path) st' = .ok info) ∨
        (st.kind ≠ .symlink ∧ openIndex sys (server.fullPath path) st = .ok info)) := by
  unfold openPath at h
  dsimp only at h
  split at h
  · cases h
  · next hne =>
    refine ⟨hne, ?_⟩
    split at h
    · cases h
    · next st hst =>
      refine ⟨st, hst, ?_⟩
      split at h
      · next hk =>
        refine .inl ⟨hk, ?_⟩
        split at h
        · cases h
        · next resolved hr =>
          split at h
          · next hw =>
            split at h
            · cases h
            · next st' hst' => exact ⟨resolved, st', hr, hw, hst', h⟩
          · cases h
      · next hk => exact .inr ⟨hk, h⟩

theorem start_real (h : Real t cwd) (path : Bytes) : Real t (start cwd path) := by
  unfold start
  split
  · exact .root
  · exact h

/-- A link at the end of the path has been resolved, and its target checked. -/
theorem openPath_found (hsys : Follows t cwd sys) (h : openPath sys server path = .ok info) :
    normalize path ≠ [] ∧ ∃ st loc, Found t cwd server path st loc ∧
      openIndex sys (server.fullPath path) st = .ok info := by
  obtain ⟨hne, st, hst, hcases⟩ := openPath_ok h
  refine ⟨hne, ?_⟩
  obtain ⟨loc, e, hstop, he, hkind⟩ := hsys.lstat _ _ hst
  rcases components_fullPath server hne with hroot | ⟨names, n, hnames⟩
  · -- the request is for the root page: its path ends in a slash, and nothing is left to look at
    have hresolves {dir : List FileName} (hr : Resolves t cwd (server.fullPath path) dir) :
        RootAt t cwd server dir := by
      unfold Resolves at hr
      rw [hroot, fullPath_start hne] at hr
      exact hr
    have hlast : (components (server.fullPath path)).getLast? = some .here := by
      rw [hroot, components_root]
      exact List.getLast?_concat
    unfold StopsAt at hstop
    rw [hlast] at hstop
    rcases hcases with ⟨_, resolved, st', _, _, hst', hopen⟩ | ⟨_, hopen⟩
    · obtain ⟨loc', e', hr, he', hkind'⟩ := hsys.stat _ _ hst'
      exact ⟨st', loc', ⟨hr, ⟨e', he', hkind'⟩, .inl (hresolves hr)⟩, hopen⟩
    · exact ⟨st, loc, ⟨hstop, ⟨e, he, hkind⟩, .inl (hresolves hstop)⟩, hopen⟩
  · rw [← List.append_assoc] at hnames
    have hlast : (components (server.fullPath path)).getLast? = some (.name n) := by
      rw [hnames]
      exact List.getLast?_concat
    unfold StopsAt at hstop
    rw [hlast, hnames, List.dropLast_concat] at hstop
    obtain ⟨dir, hwalk, hdir, rfl⟩ := hstop
    rcases hcases with ⟨hlink, resolved, st', hr, hw, hst', hopen⟩ | ⟨hlink, hopen⟩
    · obtain ⟨loc, hres, rfl⟩ := hsys.realpath _ _ hr
      obtain ⟨loc', e', hres', he', hkind'⟩ := hsys.stat _ _ hst'
      obtain rfl := hres.unique hres'
      have hreal := hres.real (start_real hsys.standing _)
      refine ⟨st', loc, ⟨hres, ⟨e', he', hkind'⟩, .inr ⟨_, n, dir, hnames, hwalk, .inl ⟨?_, ?_⟩⟩⟩,
        hopen⟩
      · exact ⟨e, he, kind_link (hkind.trans hlink)⟩
      · exact fun root hroot => within_prefix hreal hw hroot
    · have hnot : ¬ e.IsLink := fun hl => hlink (hkind ▸ kind_of_link hl)
      have hres : Resolves t cwd (server.fullPath path) (dir ++ [n]) := by
        unfold Resolves
        rw [hnames]
        exact hwalk.append (.enter hdir he hnot .done)
      exact ⟨st, _, ⟨hres, ⟨e, he, hkind⟩,
        .inr ⟨_, n, dir, hnames, hwalk, .inr ⟨not_linkAt he hnot, rfl⟩⟩⟩, hopen⟩

theorem Found.directory {st : Stat} (h : Found t cwd server path st loc)
    (hk : st.kind = .directory) : t loc = some .directory := by
  obtain ⟨e, he, hkind⟩ := h.kind
  rw [hk] at hkind
  cases e with
  | directory => exact he
  | regular => cases hkind
  | special => cases hkind
  | link => cases hkind

theorem Found.not_directory {st : Stat} (h : Found t cwd server path st loc)
    (hk : st.kind = .regular) : t loc ≠ some .directory := by
  obtain ⟨e, he, hkind⟩ := h.kind
  intro hd
  rw [he] at hd
  cases hd
  rw [hk] at hkind
  cases hkind

/-- A path whose last component is no link leads to that component. -/
theorem Found.of_not_link {st : Stat} {dirs : List (Component FileName)} {n : FileName}
    (h : Found t cwd server path st loc)
    (hcomp : components (server.fullPath path) = dirs ++ [.name n])
    (hwalk : Walks t (start cwd (server.fullPath path)) dirs dir) (hnot : ¬ LinkAt t (dir ++ [n])) :
    loc = dir ++ [n] := by
  have hres := h.resolves
  unfold Resolves at hres
  rw [hcomp] at hres
  obtain ⟨mid, hfst, hsnd⟩ := hres.split
  obtain rfl := hfst.unique hwalk
  exact hsnd.name_of_not_link hnot

/-- Where the path does not go on through a link for an index page, the links above its last
component decide whether it leads to a place under the root. -/
theorem Found.parents_iff {st : Stat} (h : Found t cwd server path st loc)
    (hroot : RootAt t cwd server root)
    (hindex : ¬ (t loc = some .directory ∧ LinkAt t (loc ++ [indexName]))) :
    ParentsInside t cwd server path ↔ root <+: loc := by
  constructor
  · intro hp
    rcases h.last with hr | ⟨dirs, n, dir, hcomp, hwalk, ⟨_, hin⟩ | ⟨hnot, rfl⟩⟩
    · rw [hroot.unique hr]
    · exact hin root hroot
    · rcases hp root dirs n dir hroot hcomp hwalk hnot hindex with hp | rfl
      · exact hp.trans (List.prefix_append ..)
      · exact List.prefix_rfl
  · intro hpre root' dirs n dir hroot' hcomp hwalk hnot _
    obtain rfl := hroot.unique hroot'
    obtain rfl := h.of_not_link hcomp hwalk hnot
    rcases List.prefix_concat_iff.1 hpre with heq | hpre
    · exact .inr heq
    · exact .inl hpre

theorem Found.exists_root {st : Stat} (h : Found t cwd server path st loc) (hne : normalize path ≠ []) :
    ∃ root, RootAt t cwd server root ∧ t root = some .directory := by
  obtain ⟨rest, hrest, hcomp⟩ : ∃ rest, rest ≠ [] ∧
      components (server.fullPath path) = components server.rootDir ++ rest := by
    rcases components_fullPath server hne with hc | ⟨names, n, hc⟩
    · exact ⟨[.here], by simp, hc.trans (components_root _)⟩
    · exact ⟨_, by simp, hc⟩
  have hres := h.resolves
  unfold Resolves at hres
  rw [hcomp, fullPath_start hne] at hres
  obtain ⟨root, hroot, hd, _⟩ := rootAt_of_walks hrest hres
  exact ⟨root, hroot, hd⟩

theorem resolves_index {file : List FileName} (h : Resolves t cwd (server.fullPath path) dir)
    (hne : normalize path ≠ [])
    (hfile : Resolves t cwd (server.fullPath path ++ bytes "/index.html") file) :
    Walks t dir [.name indexName] file := by
  have hcomp : components (server.fullPath path ++ bytes "/index.html") =
      components (server.fullPath path) ++ [.name indexName] :=
    components_append (server.fullPath path) (bytes "index.html")
  have hstart : start cwd (server.fullPath path ++ bytes "/index.html") =
      start cwd (server.fullPath path) := by
    rw [fullPath_start hne]
    obtain ⟨rest, hrest⟩ := normalize_slash hne
    rw [fullPath, hrest, List.append_assoc]
    exact start_append ..
  unfold Resolves at hfile h
  rw [hcomp, hstart] at hfile
  obtain ⟨mid, hfst, hsnd⟩ := hfile.split
  rwa [hfst.unique h] at hsnd

/-- For every file tree, request and file that is opened, the file lies under the root exactly
when the links that are not looked at lead nowhere else. -/
theorem opened_inside_iff (hsys : Follows t cwd sys) (h : openPath sys server path = .ok info) :
    OpensInside t cwd server info ↔ LinksStayInside t cwd server path := by
  obtain ⟨hne, st, loc, hfound, hopen⟩ := openPath_found hsys h
  have hres := hfound.resolves
  obtain ⟨root, hroot, hrootDir⟩ := hfound.exists_root hne
  have hopens {file : List FileName} (hf : Resolves t cwd info.resolvedPath file) :
      OpensInside t cwd server info ↔ root <+: file := by
    constructor
    · rintro ⟨root', file', hr, hf', hpre⟩
      rwa [hroot.unique hr, hf.unique hf']
    · exact fun hpre => ⟨root, file, hroot, hf, hpre⟩
  rcases openIndex_ok hopen with ⟨hk, ist, hist, hik, hpath⟩ | ⟨hk, hpath⟩
  · have hd := hfound.directory hk
    obtain ⟨file, e, hfile, he, hkind⟩ := hsys.stat _ _ hist
    have hwalk := resolves_index hres hne hfile
    rw [hopens (hpath ▸ hfile)]
    by_cases hl : LinkAt t (loc ++ [indexName])
    · constructor
      · intro hpre
        refine ⟨fun root' dirs n dir _ hcomp hw hnot hno => ?_, fun root' dir hr hdir _ _ => ?_⟩
        · have hloc : loc = dir ++ [n] := hfound.of_not_link hcomp hw hnot
          rw [← hloc] at hno
          exact (hno ⟨hd, hl⟩).elim
        · rw [hr.unique hroot]
          exact ⟨file, hfile, hpre⟩
      · intro hs
        obtain ⟨file', hfile', hpre⟩ := hs.index root loc hroot hres hd hl
        rwa [hfile.unique hfile']
    · have hplain := hwalk.name_of_not_link hl
      have hin : root <+: file ↔ root <+: loc := by
        rw [hplain, List.prefix_concat_iff]
        refine ⟨fun hp => hp.resolve_left ?_, .inr⟩
        -- the root is a directory, the index page a regular file
        rintro rfl
        rw [← hplain, he] at hrootDir
        cases hrootDir
        rw [hik] at hkind
        cases hkind
      rw [hin, ← hfound.parents_iff hroot fun hi => hl hi.2]
      constructor
      · refine fun hp => ⟨hp, fun root' dir _ hdir _ hlink => ?_⟩
        rw [hdir.unique hres] at hlink
        exact (hl hlink).elim
      · exact fun hs => hs.parents
  · have hd := hfound.not_directory hk
    rw [hopens (hpath ▸ hres), ← hfound.parents_iff hroot fun hi => hd hi.1]
    constructor
    · refine fun hp => ⟨hp, fun root' dir _ hdir hdd => ?_⟩
      rw [hdir.unique hres] at hdd
      exact (hd hdd).elim
    · exact fun hl => hl.parents

/-- Where `lstat` stops, with a bound on the steps. -/
def stop (t : Disk FileName) (fuel : Nat) (cwd : List FileName) (path : Bytes) :
    Option (List FileName) :=
  match (components path).getLast? with
  | some (.name n) =>
    (walk t fuel (start cwd path) (components path).dropLast).bind fun dir =>
      if t dir = some .directory then some (dir ++ [n]) else none
  | _ => walk t fuel (start cwd path) (components path)

def statAt (t : Disk FileName) (loc : List FileName) : Option Stat :=
  (t loc).map fun e => ⟨kindOf e, 0, 0⟩

/-- The file system calls of a process, computed from a tree of empty files. -/
def system (t : Disk FileName) (fuel : Nat) (cwd : List FileName) : FileSystem where
  lstat path := (stop t fuel cwd path).bind (statAt t)
  stat path := (walk t fuel (start cwd path) (components path)).bind (statAt t)
  realpath path := (walk t fuel (start cwd path) (components path)).map render
  openRdonly path := (walk t fuel (start cwd path) (components path)).map fun _ => 7
  opendir _ := none

theorem statAt_some {st : Stat} (h : statAt t loc = some st) :
    ∃ e, t loc = some e ∧ kindOf e = st.kind := by
  obtain ⟨e, he, rfl⟩ := Option.map_eq_some_iff.1 h
  exact ⟨e, he, rfl⟩

theorem stop_sound {fuel : Nat} (h : stop t fuel cwd path = some loc) :
    StopsAt t cwd path loc := by
  unfold stop at h
  unfold StopsAt
  split at h
  · next n hlast =>
    obtain ⟨dir, hdir, hloc⟩ := Option.bind_eq_some_iff.1 h
    split at hloc
    · next hd =>
      cases hloc
      exact ⟨dir, walk_sound hdir, hd, rfl⟩
    · cases hloc
  · exact walk_sound h

theorem system_follows (fuel : Nat) (hcwd : Real t cwd) : Follows t cwd (system t fuel cwd) := by
  refine ⟨hcwd, ?_, ?_, ?_, ?_⟩
  · intro path st h
    obtain ⟨loc, hloc, hst⟩ := Option.bind_eq_some_iff.1 h
    obtain ⟨e, he, hk⟩ := statAt_some hst
    exact ⟨loc, e, stop_sound hloc, he, hk⟩
  · intro path st h
    obtain ⟨loc, hloc, hst⟩ := Option.bind_eq_some_iff.1 h
    obtain ⟨e, he, hk⟩ := statAt_some hst
    exact ⟨loc, e, walk_sound hloc, he, hk⟩
  · intro path resolved h
    obtain ⟨loc, hloc, rfl⟩ := Option.map_eq_some_iff.1 h
    exact ⟨loc, walk_sound hloc, rfl⟩
  · intro path fd h
    obtain ⟨loc, hloc, _⟩ := Option.map_eq_some_iff.1 h
    exact ⟨loc, walk_sound hloc⟩

/-- A tree in which the directory that is served holds a page and a link to a directory outside. -/
def linkedDisk : Disk FileName := fun loc =>
  if loc.map (·.val) = [] then some .directory
  else if loc.map (·.val) = [bytes "srv"] then some .directory
  else if loc.map (·.val) = [bytes "srv", bytes "a.html"] then some .regular
  else if loc.map (·.val) = [bytes "srv", bytes "pub"] then some (.link true (components (bytes "etc")))
  else if loc.map (·.val) = [bytes "etc"] then some .directory
  else if loc.map (·.val) = [bytes "etc", bytes "passwd"] then some .regular
  else none

theorem opened_inside_iff_page :
    OpensInside linkedDisk [] ⟨bytes "/srv"⟩
        ⟨7, 0, 0, detectMimeType (bytes "/srv/a.html"), bytes "/srv/a.html"⟩ ↔
      LinksStayInside linkedDisk [] ⟨bytes "/srv"⟩ (bytes "/a.html") :=
  opened_inside_iff (system_follows 40 .root) (by rfl)

/-- A file outside the root is opened through a link in the middle of the path. -/
theorem linked_directory_escapes :
    Follows linkedDisk [] (system linkedDisk 40 []) ∧
      openPath (system linkedDisk 40 []) ⟨bytes "/srv"⟩ (bytes "/pub/passwd") =
        .ok ⟨7, 0, 0, detectMimeType (bytes "/srv/pub/passwd"), bytes "/srv/pub/passwd"⟩ ∧
      ¬ OpensInside linkedDisk [] ⟨bytes "/srv"⟩
        ⟨7, 0, 0, detectMimeType (bytes "/srv/pub/passwd"), bytes "/srv/pub/passwd"⟩ := by
  refine ⟨system_follows 40 .root, by rfl, ?_⟩
  rintro ⟨root, loc, hroot, hloc, hpre⟩
  have hr : walk linkedDisk 40 [] (components (bytes "/srv/")) =
      some [⟨bytes "srv", by decide⟩] := by decide
  have hl : walk linkedDisk 40 [] (components (bytes "/srv/pub/passwd")) =
      some [⟨bytes "etc", by decide⟩, ⟨bytes "passwd", by decide⟩] := by decide
  rw [hroot.unique (walk_sound hr), hloc.unique (walk_sound hl)] at hpre
  exact absurd hpre (by decide)

end FileServer

end FileWebServer
