import FileWebServer.Lib.UriReference
import FileWebServer.Server.Normalize

namespace FileWebServer
namespace FileServer
open UriReference (behind)
set_option autoImplicit true
set_option maxRecDepth 20000
variable {path rest : Bytes} {parts out segs : List Bytes} {fuel : Nat}

/-- The segments of a path that say something. -/
def pieces (path : Bytes) : List Bytes :=
  (path.splitOn slash).filter fun seg => seg ≠ [] ∧ seg ≠ bytes "."

/-- A segment goes down from the place that is reached, and two dots go up, but not from the root. -/
def enter (place : Option (List Bytes)) (seg : Bytes) : Option (List Bytes) :=
  place.bind fun parts =>
    if seg = bytes ".." then if parts = [] then none else some parts.dropLast
    else some (parts ++ [seg])

/-- What a path without encoded bytes stands for: the place that its segments lead to, told from
the root, and nothing for a path with control bytes, above the root, or with a hidden segment. -/
def referencePath (path : Bytes) : Bytes :=
  if path.any fun b => b < 32 ∧ b ≠ tab then []
  else match (pieces path).foldl enter (some []) with
    | none => []
    | some parts => if parts.any isHidden then [] else slash :: [slash].intercalate parts

/-- The loop ends, each turn finds a segment, and the result is as told; a path that is accepted is
not changed any more. -/
structure FollowsReference (path : Bytes) : Prop where
  ends : ∀ fuel, path.length < fuel → segmentLoop fuel path [] ≠ none
  finds : ∀ rest : Bytes, rest.dropWhile (· = slash) ≠ [] →
    (rest.dropWhile (· = slash)).takeWhile (· ≠ slash) ≠ []
  result : normalize path = referencePath path
  again : normalize path ≠ [] → normalize (normalize path) = normalize path

theorem percentDecode_of_notMem (h : percent ∉ path) : percentDecode path = path := by
  induction path with
  | nil => rfl
  | cons c path ih =>
    obtain ⟨hc, hpath⟩ := not_or.1 (mt List.mem_cons.2 h)
    rw [percentDecode_cons (Ne.symm hc), ih hpath]

/-- A turn of the loop takes the next name and the slash behind it. -/
theorem segmentLoop_step {fuel : Nat} {rest r : Bytes} {parts : List Bytes}
    (hr : rest.dropWhile (· = slash) = r) (hne : r ≠ []) :
    segmentLoop (fuel + 1) rest parts =
      if UriReference.segment r = [UriReference.dot] then segmentLoop fuel (behind r).tail parts
      else if UriReference.segment r = [UriReference.dot, UriReference.dot] then
        if parts = [] then some none else segmentLoop fuel (behind r).tail parts.dropLast
      else segmentLoop fuel (behind r).tail (parts ++ [UriReference.segment r]) := by
  have hseg : UriReference.segment r ≠ [] := by
    have hname := takeWhile_ne_nil (hr ▸ hne)
    rw [hr] at hname
    exact hname
  have hnext : r.drop ((UriReference.segment r).length + 1) = (behind r).tail := by
    rw [UriReference.behind_eq_drop, List.tail_drop]
  rw [← hnext]
  calc segmentLoop (fuel + 1) rest parts
      = if r = [] then some (some parts)
        else if UriReference.segment r = [] then segmentLoop fuel r parts
        else if UriReference.segment r = [UriReference.dot] then
          segmentLoop fuel (r.drop ((UriReference.segment r).length + 1)) parts
        else if UriReference.segment r = [UriReference.dot, UriReference.dot] then
          if parts = [] then some none
          else segmentLoop fuel (r.drop ((UriReference.segment r).length + 1)) parts.dropLast
        else segmentLoop fuel (r.drop ((UriReference.segment r).length + 1))
          (parts ++ [UriReference.segment r]) := by
          rw [segmentLoop, hr]
          rfl
    _ = _ := by rw [if_neg hne, if_neg hseg]

theorem segmentLoop_nil {fuel : Nat} {rest : Bytes} (hr : rest.dropWhile (· = slash) = [])
    (parts : List Bytes) : segmentLoop (fuel + 1) rest parts = some (some parts) := by
  unfold segmentLoop
  exact if_pos hr

theorem pieces_append (s t : Bytes) : pieces (s ++ slash :: t) = pieces s ++ pieces t := by
  rw [pieces, List.splitOn_append_cons_self, List.filter_append]
  rfl

theorem pieces_slash (rest : Bytes) : pieces (slash :: rest) = pieces rest :=
  pieces_append [] rest

theorem pieces_dropWhile (rest : Bytes) : pieces (rest.dropWhile (· = slash)) = pieces rest := by
  induction rest with
  | nil => rfl
  | cons b rest ih =>
    by_cases hb : b = slash
    · rw [List.dropWhile_cons_of_pos (by simpa using hb), ih, hb, pieces_slash]
    · rw [List.dropWhile_cons_of_neg (by simpa using hb)]

/-- The first segment of a text, and those behind its slash. -/
theorem pieces_segment (r : Bytes) : pieces r =
    [UriReference.segment r].filter (fun seg => seg ≠ [] ∧ seg ≠ bytes ".") ++
      pieces (UriReference.behind r).tail := by
  have hnot : slash ∉ UriReference.segment r := UriReference.slash_notMem_segment r
  have hr := UriReference.segment_behind r
  cases hb : UriReference.behind r with
  | nil =>
    rw [hb, List.append_nil] at hr
    rw [hr] at hnot ⊢
    rw [pieces, List.splitOn_eq_singleton hnot]
    exact (List.append_nil _).symm
  | cons b bs =>
    obtain rfl : b = slash := UriReference.behind_eq_cons hb
    rw [hb] at hr
    conv_lhs => rw [← hr]
    rw [pieces, List.splitOn_append_cons_self_of_not_mem hnot, ← List.singleton_append,
      List.filter_append]
    rfl

theorem foldl_enter_none (segs : List Bytes) : segs.foldl enter none = none := by
  induction segs with
  | nil => rfl
  | cons seg segs ih => exact ih

/-- The loop goes from segment to segment. -/
theorem segmentLoop_eq (h : rest.length < fuel) :
    segmentLoop fuel rest parts = some ((pieces rest).foldl enter (some parts)) := by
  induction fuel generalizing rest parts with
  | zero => exact (Nat.not_lt_zero _ h).elim
  | succ fuel ih =>
    have hle := (List.dropWhile_sublist (p := (· = slash)) (l := rest)).length_le
    have hfinds : rest.dropWhile (· = slash) ≠ [] →
        (rest.dropWhile (· = slash)).takeWhile (· ≠ slash) ≠ [] := takeWhile_ne_nil
    rw [← pieces_dropWhile]
    generalize hr : rest.dropWhile (· = slash) = r at hle hfinds ⊢
    by_cases hne : r = []
    · subst hne
      rw [segmentLoop_nil hr]
      rfl
    · have hlen : (UriReference.behind r).tail.length < fuel := by
        have hbehind := UriReference.behind_length_le r
        have hpos := List.length_pos_of_ne_nil hne
        rw [List.length_tail]
        omega
      have hhere : bytes "." = [UriReference.dot] := by decide
      have hup : bytes ".." = [UriReference.dot, UriReference.dot] := by decide
      rw [segmentLoop_step hr hne, pieces_segment, List.foldl_append, ih hlen, ih hlen, ih hlen,
        hhere]
      by_cases hdot : UriReference.segment r = [UriReference.dot]
      · rw [if_pos hdot, hdot]
        rfl
      · have hseg : UriReference.segment r ≠ [] := hfinds hne
        have hkeep : [UriReference.segment r].filter
            (fun seg => seg ≠ [] ∧ seg ≠ [UriReference.dot]) = [UriReference.segment r] := by
          simp [hseg, hdot]
        rw [if_neg hdot, hkeep, List.foldl_cons, List.foldl_nil, enter, Option.bind_some, hup]
        split
        · split
          · rw [foldl_enter_none]
          · rfl
        · rfl

theorem mem_of_mem_splitOn {seg : Bytes} {b : UInt8} (hseg : seg ∈ path.splitOn slash)
    (hb : b ∈ seg) : b ∈ path := by
  induction path generalizing seg with
  | nil =>
    rw [List.splitOn_nil, List.mem_singleton] at hseg
    exact hseg ▸ hb
  | cons c path ih =>
    rw [List.splitOn_cons_eq_if_modifyHead] at hseg
    split at hseg
    · rcases List.mem_cons.1 hseg with rfl | hseg
      · cases hb
      · exact List.mem_cons_of_mem _ (ih hseg hb)
    · cases hsplit : path.splitOn slash with
      | nil =>
        rw [hsplit] at hseg
        cases hseg
      | cons first others =>
        rw [hsplit] at hseg ih
        rcases List.mem_cons.1 hseg with rfl | hseg
        · rcases List.mem_cons.1 hb with rfl | hb
          · exact List.mem_cons_self
          · exact List.mem_cons_of_mem _ (ih List.mem_cons_self hb)
        · exact List.mem_cons_of_mem _ (ih (List.mem_cons_of_mem _ hseg) hb)

/-- Every part of the place that is reached is one of the segments. -/
theorem foldl_enter_subset (h : segs.foldl enter (some parts) = some out) :
    out ⊆ parts ++ segs := by
  induction segs generalizing parts with
  | nil =>
    cases h
    exact List.subset_append_left _ _
  | cons seg segs ih =>
    rw [List.foldl_cons, enter, Option.bind_some] at h
    split at h
    · split at h
      · rw [foldl_enter_none] at h
        cases h
      · intro part hpart
        rcases List.mem_append.1 (ih h hpart) with hp | hp
        · exact List.mem_append_left _ (List.dropLast_subset _ hp)
        · exact List.mem_append_right _ (List.mem_cons_of_mem _ hp)
    · have hsub := ih h
      rwa [List.append_assoc] at hsub

theorem joined_eq (parts : List Bytes) :
    (if parts = [] then [slash] else parts.flatMap (slash :: ·)) =
      slash :: [slash].intercalate parts := by
  have hcons (part : Bytes) (parts : List Bytes) :
      (part :: parts).flatMap (slash :: ·) = slash :: [slash].intercalate (part :: parts) := by
    induction parts generalizing part with
    | nil => simp
    | cons next parts ih =>
      rw [List.flatMap_cons, ih, List.intercalate_cons_cons]
      simp
  cases parts with
  | nil => rfl
  | cons part parts =>
    rw [if_neg (List.cons_ne_nil part parts)]
    exact hcons part parts

theorem isForbidden_eq : ∀ b : UInt8, isForbidden b = decide (b < 32 ∧ b ≠ tab) := by decide

/-- The end of `normalize`. -/
def joinedPath (parts : List Bytes) : Bytes :=
  if parts.any isHidden then []
  else if parts = [] then [slash]
  else parts.flatMap (slash :: ·)

/-- What `normalize` does with the decoded path. -/
theorem normalize_eq (path : Bytes) : normalize path =
    if (percentDecode path).any isForbidden then []
    else (((pieces (percentDecode path)).foldl enter (some [])).map joinedPath).getD [] := by
  unfold normalize
  dsimp only
  rw [segmentLoop_eq (Nat.lt_succ_self _)]
  cases (pieces (percentDecode path)).foldl enter (some []) with
  | none => rfl
  | some parts => rfl

theorem normalize_eq_referencePath (h : percent ∉ path) : normalize path = referencePath path := by
  rw [normalize_eq, percentDecode_of_notMem h, funext isForbidden_eq, referencePath]
  split
  · rfl
  · cases (pieces path).foldl enter (some []) with
    | none => rfl
    | some parts =>
      dsimp only [Option.map_some, Option.getD_some]
      rw [joinedPath, joined_eq]

/-- A path gets no percent sign when it is normalized. -/
theorem percent_notMem_normalize (h : percent ∉ path) : percent ∉ normalize path := by
  rw [normalize_eq_referencePath h, referencePath]
  split
  · exact List.not_mem_nil
  · cases hfold : (pieces path).foldl enter (some []) with
    | none => exact List.not_mem_nil
    | some parts =>
      have hsub : parts ⊆ pieces path := foldl_enter_subset hfold
      dsimp only
      split
      · exact List.not_mem_nil
      · rw [← joined_eq]
        split
        · decide
        · intro hmem
          obtain ⟨part, hpart, hb⟩ := List.mem_flatMap.1 hmem
          rcases List.mem_cons.1 hb with hb | hb
          · exact absurd hb (by decide)
          · exact h (mem_of_mem_splitOn (List.mem_of_mem_filter (hsub hpart)) hb)

theorem foldl_enter_names (h : ∀ seg ∈ segs, seg ≠ bytes "..") :
    segs.foldl enter (some parts) = some (parts ++ segs) := by
  induction segs generalizing parts with
  | nil => rw [List.append_nil]; rfl
  | cons seg segs ih =>
    obtain ⟨hseg, hsegs⟩ := List.forall_mem_cons.1 h
    rw [List.foldl_cons, enter, Option.bind_some, if_neg hseg, ih hsegs, List.append_assoc]
    rfl

theorem IsSegment.no_dots {seg : Bytes} (h : IsSegment seg) :
    seg ≠ bytes "." ∧ seg ≠ bytes ".." := by
  constructor
  · rintro rfl
    exact h.visible rfl
  · rintro rfl
    exact h.visible rfl

/-- Names joined by slashes are what the path that they make stands for. -/
theorem referencePath_names (hne : parts ≠ []) (h : ∀ part ∈ parts, IsSegment part) :
    referencePath (parts.flatMap (slash :: ·)) = parts.flatMap (slash :: ·) := by
  have hpieces : pieces (parts.flatMap (slash :: ·)) = parts := by
    have hsplit := splitOn_segments hne (fun part hp => (h part hp).slash) []
    rw [List.nil_append] at hsplit
    have hkeep : parts.filter (fun seg => seg ≠ [] ∧ seg ≠ bytes ".") = parts := by
      rw [List.filter_eq_self]
      intro part hp
      exact decide_eq_true ⟨(h part hp).nonempty, (h part hp).no_dots.1⟩
    rw [pieces, hsplit, List.filter_append, hkeep]
    rfl
  have hplain : (parts.flatMap (slash :: ·)).any (fun b => b < 32 ∧ b ≠ tab) = false := by
    rw [List.any_eq_false]
    intro b hb
    obtain ⟨part, hpart, hb⟩ := List.mem_flatMap.1 hb
    rcases List.mem_cons.1 hb with rfl | hb
    · decide
    · intro hcontrol
      obtain ⟨hlt, htab⟩ := of_decide_eq_true hcontrol
      rcases ((h part hpart).plain b hb).2 with hge | he
      · exact UInt8.not_lt.2 hge hlt
      · exact htab he
  have hvisible : parts.any isHidden = false := by
    rw [List.any_eq_false]
    intro part hp
    simpa [isHidden] using (h part hp).visible
  rw [referencePath, hplain, hpieces, foldl_enter_names fun part hp => (h part hp).no_dots.2]
  simp only [List.nil_append, hvisible]
  rw [← joined_eq, if_neg hne]
  rfl

theorem normalize_again (h : percent ∉ path) (hacc : normalize path ≠ []) :
    normalize (normalize path) = normalize path := by
  rw [normalize_eq_referencePath (percent_notMem_normalize h)]
  rcases normalize_shape path with hn | hn | ⟨parts, hne, hparts, hn⟩
  · exact (hacc hn).elim
  · rw [hn]
    decide
  · rw [hn]
    exact referencePath_names hne hparts

/-- For every path without a percent sign, `normalize` ends and gives what the path stands for. -/
theorem normalize_followsReference (h : percent ∉ path) : FollowsReference path :=
  ⟨fun _ hfuel => segmentLoop_ends hfuel, fun _ => takeWhile_ne_nil, normalize_eq_referencePath h,
    normalize_again h⟩

theorem normalize_followsReference_dots : FollowsReference (bytes "//a/./b/../c.txt/") :=
  normalize_followsReference (by decide)

end FileServer

end FileWebServer
