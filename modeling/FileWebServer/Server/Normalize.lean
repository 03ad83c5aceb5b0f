import FileWebServer.Server.FileServer

namespace FileWebServer
namespace FileServer
set_option autoImplicit true
variable {path root rest : Bytes} {parts out : List Bytes}

/-- A byte that may occur in a file name. -/
def Plain (b : UInt8) : Prop := b ≠ 0 ∧ (32 ≤ b ∨ b = tab)

/-- A name between two slashes. -/
structure IsName (part : Bytes) : Prop where
  nonempty : part ≠ []
  slash : slash ∉ part
  plain : ∀ b ∈ part, Plain b

/-- A name that is not that of a hidden file. -/
structure IsSegment (part : Bytes) : Prop extends IsName part where
  visible : part.head? ≠ some dot

theorem plain_of_not_forbidden {b : UInt8} (h : isForbidden b = false) : Plain b := by
  unfold isForbidden at h
  simp only [Bool.or_eq_false_iff, Bool.and_eq_false_imp, beq_eq_false_iff_ne,
    decide_eq_true_eq, bne_eq_false_iff_eq] at h
  refine ⟨h.1, ?_⟩
  by_cases hb : b < 32
  · exact .inr (h.2 hb)
  · exact .inl (UInt8.not_lt.1 hb)

/-- The text up to the next slash is a name. -/
theorem takeWhile_isName (hne : rest.takeWhile (· ≠ slash) ≠ []) (hrest : ∀ b ∈ rest, Plain b) :
    IsName (rest.takeWhile (· ≠ slash)) := by
  refine ⟨hne, fun hmem => ?_, fun b hb => hrest b ((List.takeWhile_sublist _).subset hb)⟩
  have hs := List.mem_takeWhile_imp hmem
  simp at hs

theorem percentDecode_cons {c : UInt8} (h : c ≠ percent) (s : Bytes) :
    percentDecode (c :: s) = c :: percentDecode s := by
  match s with
  | [] => rfl
  | [_] => rfl
  | _ :: _ :: _ => exact if_neg fun hc => h hc.1

theorem percentDecode_hex {c x y : UInt8} {rest : Bytes} {val : Int} {consumed : Nat}
    (h : strtol16 (if x = 0 then [] else if y = 0 then [x] else [x, y]) = (val, consumed)) :
    percentDecode (c :: x :: y :: rest) = if c = percent ∧ consumed = 2 ∧ 0 < val
      then UInt8.ofNat val.toNat :: percentDecode rest else c :: percentDecode (x :: y :: rest) := by
  rw [percentDecode, h]

theorem segmentLoop_names {fuel : Nat} (h : segmentLoop fuel rest parts = some (some out))
    (hrest : ∀ b ∈ rest, Plain b) (hparts : ∀ part ∈ parts, IsName part) :
    ∀ part ∈ out, IsName part := by
  induction fuel generalizing rest parts with
  | zero => cases h
  | succ fuel ih =>
    unfold segmentLoop at h
    dsimp only at h
    have hdrop : ∀ b ∈ rest.dropWhile (· = slash), Plain b := fun b hb =>
      hrest b ((List.dropWhile_sublist _).subset hb)
    split at h
    · cases h
      exact hparts
    · split at h
      · exact ih h hdrop hparts
      · next hseg =>
        have hname := takeWhile_isName hseg hdrop
        have hnext : ∀ b ∈ (rest.dropWhile (· = slash)).drop
            (((rest.dropWhile (· = slash)).takeWhile (· ≠ slash)).length + 1), Plain b :=
          fun b hb => hdrop b (List.mem_of_mem_drop hb)
        split at h
        · exact ih h hnext hparts
        · split at h
          · split at h
            · cases h
            · exact ih h hnext fun part hp => hparts part (List.dropLast_subset _ hp)
          · refine ih h hnext fun part hp => ?_
            rcases List.mem_append.1 hp with hp | hp
            · exact hparts part hp
            · rw [List.mem_singleton.1 hp]
              exact hname

/-- Where no slash is left in front, a name begins. -/
theorem takeWhile_ne_nil (h : rest.dropWhile (· = slash) ≠ []) :
    (rest.dropWhile (· = slash)).takeWhile (· ≠ slash) ≠ [] := by
  have hhead := List.head_dropWhile_not (· = slash) h
  obtain ⟨b, bs, hb⟩ := List.exists_cons_of_ne_nil h
  simp only [hb, List.head_cons] at hhead
  rw [hb, List.takeWhile_cons_of_pos (by simpa using hhead)]
  exact List.cons_ne_nil _ _

/-- Each turn of the loop takes a byte at least, so that it ends within its fuel. -/
theorem segmentLoop_ends {fuel : Nat} (h : rest.length < fuel) :
    segmentLoop fuel rest parts ≠ none := by
  induction fuel generalizing rest parts with
  | zero => exact (Nat.not_lt_zero _ h).elim
  | succ fuel ih =>
    have hle := (List.dropWhile_sublist (p := (· = slash)) (l := rest)).length_le
    unfold segmentLoop
    dsimp only
    split
    · exact Option.some_ne_none _
    · next hne =>
      have hnext : ((rest.dropWhile (· = slash)).drop
          (((rest.dropWhile (· = slash)).takeWhile (· ≠ slash)).length + 1)).length < fuel := by
        have hpos := List.length_pos_of_ne_nil hne
        rw [List.length_drop]
        omega
      split
      · next hseg => exact (takeWhile_ne_nil hne hseg).elim
      · split
        · exact ih hnext
        · split
          · split
            · exact Option.some_ne_none _
            · exact ih hnext
          · exact ih hnext

/-- The three shapes of a normalized path. -/
theorem normalize_shape (path : Bytes) :
    normalize path = [] ∨ normalize path = [slash] ∨
      ∃ parts, parts ≠ [] ∧ (∀ part ∈ parts, IsSegment part) ∧
        normalize path = parts.flatMap (slash :: ·) := by
  unfold normalize
  dsimp only
  split
  · exact .inl rfl
  · next hforbidden =>
    have hplain : ∀ b ∈ percentDecode path, Plain b := by
      intro b hb
      apply plain_of_not_forbidden
      simpa using List.any_eq_false.1 (Bool.eq_false_iff.2 hforbidden) b hb
    split
    · next parts hloop =>
      have hnames := segmentLoop_names hloop hplain fun _ h => (List.not_mem_nil h).elim
      split
      · exact .inl rfl
      · next hhidden =>
        split
        · exact .inr (.inl rfl)
        · next hne =>
          refine .inr (.inr ⟨parts, hne, fun part hp => ⟨hnames part hp, ?_⟩, rfl⟩)
          have hvisible := List.any_eq_false.1 (Bool.eq_false_iff.2 hhidden) part hp
          simpa [isHidden] using hvisible
    · exact .inl rfl

/-- A path that goes down from a root: none of its further segments begins with a dot. -/
def Below (root path : Bytes) : Prop :=
  ∃ segs, path.splitOn slash = root.splitOn slash ++ segs ∧ ∀ seg ∈ segs, seg.head? ≠ some dot

theorem splitOn_segments (hne : parts ≠ []) (h : ∀ part ∈ parts, slash ∉ part) (root : Bytes) :
    (root ++ parts.flatMap (slash :: ·)).splitOn slash = root.splitOn slash ++ parts := by
  induction parts generalizing root with
  | nil => exact (hne rfl).elim
  | cons part parts ih =>
    rw [List.flatMap_cons, List.cons_append, List.splitOn_append_cons_self]
    congr 1
    have hpart := h part List.mem_cons_self
    by_cases hnil : parts = []
    · subst hnil
      rw [List.flatMap_nil, List.append_nil]
      exact List.splitOn_eq_singleton hpart
    · rw [ih hnil fun p hp => h p (List.mem_cons_of_mem _ hp), List.splitOn_eq_singleton hpart]
      rfl

theorem normalize_below (root : Bytes) (h : normalize path ≠ []) :
    Below root (root ++ normalize path) := by
  rcases normalize_shape path with hn | hn | ⟨parts, hne, hparts, hn⟩
  · exact (h hn).elim
  · refine ⟨[[]], ?_, ?_⟩
    · rw [hn]
      exact List.splitOn_append_cons_self root []
    · intro seg hseg
      rw [List.mem_singleton.1 hseg]
      nofun
  · rw [hn]
    exact ⟨parts, splitOn_segments hne (fun part hp => (hparts part hp).slash) root,
      fun seg hseg => (hparts seg hseg).visible⟩

theorem Below.down (name : Bytes) (h : Below root path) (hslash : slash ∉ name)
    (hdot : name.head? ≠ some dot) : Below root (path ++ slash :: name) := by
  obtain ⟨segs, hs, hsegs⟩ := h
  refine ⟨segs ++ [name], ?_, fun seg hseg => ?_⟩
  · rw [List.splitOn_append_cons_self, hs, List.splitOn_eq_singleton hslash, List.append_assoc]
  · rcases List.mem_append.1 hseg with hseg | hseg
    · exact hsegs seg hseg
    · rw [List.mem_singleton.1 hseg]
      exact hdot

/-- Two file systems that give the same answers about every path that goes down from a root. -/
structure AgreeBelow (root : Bytes) (sys sys' : FileSystem) : Prop where
  lstat : ∀ path, Below root path → sys.lstat path = sys'.lstat path
  realpath : ∀ path, Below root path → sys.realpath path = sys'.realpath path
  openRdonly : ∀ path, Below root path → sys.openRdonly path = sys'.openRdonly path
  opendir : ∀ path, Below root path → sys.opendir path = sys'.opendir path
  stat : ∀ path, sys.stat path = sys'.stat path

variable {sys sys' : FileSystem}

theorem AgreeBelow.openRegular (h : AgreeBelow root sys sys') (hp : Below root path) (st : Stat) :
    openRegular sys path st = openRegular sys' path st := by
  unfold FileServer.openRegular
  rw [h.openRdonly path hp]

theorem AgreeBelow.openIndex (h : AgreeBelow root sys sys') (hp : Below root path) (st : Stat) :
    openIndex sys path st = openIndex sys' path st := by
  have hindex : Below root (path ++ bytes "/index.html") :=
    hp.down (bytes "index.html") (by decide) (by decide)
  unfold FileServer.openIndex
  dsimp only
  rw [h.stat, h.openRegular hp]
  split
  · split
    · rw [h.openRegular hindex]
    · rfl
  · rfl

theorem AgreeBelow.openPath {server : FileServer} (h : AgreeBelow server.rootDir sys sys')
    (path : Bytes) : openPath sys server path = openPath sys' server path := by
  unfold FileServer.openPath
  dsimp only
  split
  · rfl
  · next hne =>
    have hp := normalize_below server.rootDir hne
    rw [h.lstat _ hp, h.realpath _ hp, h.stat]
    split
    · rfl
    · split
      · split
        · rfl
        · split
          · split
            · rfl
            · exact h.openIndex hp _
          · rfl
      · exact h.openIndex hp _

theorem AgreeBelow.listDirectory {server : FileServer} (h : AgreeBelow server.rootDir sys sys')
    (path : Bytes) : listDirectory sys server path = listDirectory sys' server path := by
  have hentry : ∀ dirPath, dirEntry sys dirPath = dirEntry sys' dirPath := by
    intro dirPath
    funext name
    unfold dirEntry
    rw [h.stat]
  unfold FileServer.listDirectory
  dsimp only
  split
  · rfl
  · next hne =>
    have hp := normalize_below server.rootDir hne
    have hdir : Below server.rootDir (if (server.rootDir ++ normalize path).getLast? = some slash
        then server.rootDir ++ normalize path else server.rootDir ++ normalize path ++ [slash]) := by
      split
      · exact hp
      · exact hp.down [] (by decide) (by decide)
    rw [h.opendir _ hdir]
    simp only [hentry]

/-- Every normalized path is empty, or the root page, or made of visible names; and whatever the
server opens or lists for a request is told by paths that go down from its root. -/
theorem normalize_contained (path : Bytes) :
    (normalize path = [] ∨ normalize path = [slash] ∨
      ∃ parts, parts ≠ [] ∧ (∀ part ∈ parts, IsSegment part) ∧
        normalize path = parts.flatMap (slash :: ·)) ∧
      ∀ server : FileServer,
        (normalize path ≠ [] → Below server.rootDir (server.rootDir ++ normalize path)) ∧
        ∀ sys sys' : FileSystem, AgreeBelow server.rootDir sys sys' →
          openPath sys server path = openPath sys' server path ∧
          listDirectory sys server path = listDirectory sys' server path :=
  ⟨normalize_shape path, fun server => ⟨normalize_below server.rootDir, fun _ _ h =>
    ⟨h.openPath path, h.listDirectory path⟩⟩⟩

/-- A file system with one file, outside the root that a server may have. -/
def passwdOnly : FileSystem :=
  { FileSystem.void with
    lstat := fun path =>
      if path = bytes "/etc/passwd" then some (Stat.mk .regular 100 0) else none }

theorem void_agreeBelow_passwdOnly : AgreeBelow (bytes "/srv") .void passwdOnly := by
  refine ⟨fun path hp => (if_neg ?_).symm, fun _ _ => rfl, fun _ _ => rfl, fun _ _ => rfl,
    fun _ => rfl⟩
  rintro rfl
  obtain ⟨segs, hs, _⟩ := hp
  have hsplit : (bytes "/etc/passwd").splitOn slash = [[], bytes "etc", bytes "passwd"] := by decide
  have hroot : (bytes "/srv").splitOn slash = [[], bytes "srv"] := by decide
  rw [hsplit, hroot] at hs
  have hhead := (List.cons.inj (List.cons.inj hs).2).1
  exact absurd hhead (by decide)

theorem normalize_contained_passwd :
    Below (bytes "/srv") (bytes "/srv" ++ normalize (bytes "/a/../etc/%70asswd")) ∧
      openPath .void ⟨bytes "/srv"⟩ (bytes "/a/../etc/%70asswd") =
        openPath passwdOnly ⟨bytes "/srv"⟩ (bytes "/a/../etc/%70asswd") :=
  ⟨((normalize_contained _).2 ⟨bytes "/srv"⟩).1 (by decide),
    (((normalize_contained _).2 ⟨bytes "/srv"⟩).2 _ _ void_agreeBelow_passwdOnly).1⟩

end FileServer

end FileWebServer
