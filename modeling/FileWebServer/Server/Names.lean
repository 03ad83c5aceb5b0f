import FileWebServer.Server.Segments

namespace FileWebServer
namespace FileServer
open UriReference (IsDir)
set_option autoImplicit true
set_option maxRecDepth 20000
variable {path name dir s t d : Bytes} {parts : List Bytes}

/-- The path of an entry of a directory. -/
def child (dir name : Bytes) : Bytes := (if dir = [slash] then [] else dir) ++ slash :: name

/-- A slash is no digit. -/
theorem strtol16_slash (b : UInt8) :
    (strtol16 (if b = 0 then [] else if slash = 0 then [b] else [b, slash])).2 ≠ 2 ∧
      (strtol16 (if slash = 0 then [] else if b = 0 then [slash] else [slash, b])).2 ≠ 2 := by
  revert b
  decide

theorem percentDecode_append_slash (s t : Bytes) :
    percentDecode (s ++ slash :: t) = percentDecode s ++ slash :: percentDecode t := by
  have hslash (t : Bytes) : percentDecode (slash :: t) = slash :: percentDecode t :=
    percentDecode_cons (by decide) t
  have hone (c : UInt8) (t : Bytes) :
      percentDecode (c :: slash :: t) = c :: slash :: percentDecode t := by
    cases t with
    | nil => rfl
    | cons y rest =>
      rw [← hslash]
      exact if_neg fun hc => (strtol16_slash y).2 hc.2.1
  induction s using percentDecode.induct with
  | case1 => exact hslash t
  | case2 a => exact hone a t
  | case3 a b =>
    refine (if_neg fun hc => (strtol16_slash b).1 hc.2.1).trans ?_
    exact congrArg (a :: ·) (hone b t)
  | case4 c x y rest val consumed hval hc ih =>
    calc percentDecode (c :: x :: y :: (rest ++ slash :: t))
        = UInt8.ofNat val.toNat :: percentDecode (rest ++ slash :: t) := by
          rw [percentDecode_hex hval, if_pos hc]
      _ = UInt8.ofNat val.toNat :: percentDecode rest ++ slash :: percentDecode t := by
          rw [ih, List.cons_append]
      _ = percentDecode (c :: x :: y :: rest) ++ slash :: percentDecode t := by
          rw [percentDecode_hex hval, if_pos hc]
  | case5 c x y rest val consumed hval hc ih =>
    calc percentDecode (c :: x :: y :: (rest ++ slash :: t))
        = c :: percentDecode (x :: y :: (rest ++ slash :: t)) := by
          rw [percentDecode_hex hval, if_neg hc]
      _ = c :: percentDecode (x :: y :: rest) ++ slash :: percentDecode t := by
          rw [List.cons_append, ← ih]
          rfl
      _ = percentDecode (c :: x :: y :: rest) ++ slash :: percentDecode t := by
          rw [percentDecode_hex hval, if_neg hc]

/-- A byte that is encoded is read back by the decoder. -/
theorem strtol16_encodeChar {c : UInt8} (h : c ≠ 0) : encodeChar c = [c] ∧ c ≠ percent ∨
    ∃ x y, encodeChar c = [percent, x, y] ∧
      strtol16 (if x = 0 then [] else if y = 0 then [x] else [x, y]) = ((c.toNat : Int), 2) := by
  unfold encodeChar
  split
  · refine .inl ⟨rfl, ?_⟩
    revert c
    decide
  · right
    split
    · next hc =>
      subst hc
      exact ⟨50, 48, rfl, by decide⟩
    · refine ⟨_, _, rfl, ?_⟩
      revert c
      decide

theorem percentDecode_encodeChar {c : UInt8} (h : c ≠ 0) (s : Bytes) :
    percentDecode (encodeChar c ++ s) = c :: percentDecode s := by
  rcases strtol16_encodeChar h with ⟨he, hc⟩ | ⟨x, y, he, hval⟩
  · rw [he]
    exact percentDecode_cons hc s
  · have hpos : (0 : Int) < c.toNat := by
      apply Int.natCast_pos.2
      exact Nat.pos_of_ne_zero fun hz => h (UInt8.toNat_inj.1 hz)
    rw [he, List.cons_append, List.cons_append, List.cons_append, percentDecode_hex hval,
      if_pos ⟨rfl, rfl, hpos⟩, Int.toNat_natCast, UInt8.ofNat_toNat, List.nil_append]

theorem percentDecode_urlEncodePath (h : 0 ∉ name) (s : Bytes) :
    percentDecode (urlEncodePath name ++ s) = name ++ percentDecode s := by
  induction name with
  | nil => rfl
  | cons c name ih =>
    obtain ⟨hc, hname⟩ := not_or.1 (mt List.mem_cons.2 h)
    have hcons : urlEncodePath (c :: name) = encodeChar c ++ urlEncodePath name :=
      List.flatMap_cons
    rw [hcons, List.append_assoc, percentDecode_encodeChar (Ne.symm hc), ih hname,
      List.cons_append]

theorem percentDecode_dir (hd : IsDir d) (s : Bytes) :
    percentDecode (d ++ s) = percentDecode d ++ percentDecode s := by
  rcases hd with rfl | hd
  · rfl
  · obtain ⟨front, rfl⟩ := List.getLast?_eq_some_iff.1 hd
    calc percentDecode (front ++ [slash] ++ s)
        = percentDecode (front ++ slash :: s) := congrArg percentDecode (List.append_assoc ..)
      _ = percentDecode front ++ slash :: percentDecode s := percentDecode_append_slash front s
      _ = percentDecode front ++ [slash] ++ percentDecode s := List.append_cons _ slash _
      _ = percentDecode (front ++ [slash]) ++ percentDecode s :=
        congrArg (· ++ percentDecode s) (percentDecode_append_slash front []).symm

theorem isDir_percentDecode (hd : IsDir d) : IsDir (percentDecode d) := by
  rcases hd with rfl | hd
  · exact .inl rfl
  · obtain ⟨front, rfl⟩ := List.getLast?_eq_some_iff.1 hd
    exact .inr ((congrArg List.getLast? (percentDecode_append_slash front [])).trans
      List.getLast?_concat)

/-- What stands behind a directory's last slash is a segment of its own. -/
theorem pieces_dir (hd : IsDir d) (s : Bytes) : pieces (d ++ s) = pieces d ++ pieces s := by
  rcases hd with rfl | hd
  · rfl
  · obtain ⟨front, rfl⟩ := List.getLast?_eq_some_iff.1 hd
    have hslash : pieces (front ++ [slash]) = pieces front ++ [] := pieces_append front []
    calc pieces (front ++ [slash] ++ s)
        = pieces (front ++ slash :: s) := congrArg pieces (List.append_assoc ..)
      _ = pieces front ++ pieces s := pieces_append front s
      _ = pieces (front ++ [slash]) ++ pieces s := by rw [hslash, List.append_nil]

theorem pieces_name (hn : IsSegment name) (ht : t = [] ∨ t = [slash]) :
    pieces (name ++ t) = [name] := by
  have hname : pieces name = [name] := by
    rw [pieces, List.splitOn_eq_singleton hn.slash]
    exact List.filter_eq_self.2 fun part hp => by
      rw [List.mem_singleton.1 hp]
      exact decide_eq_true ⟨hn.nonempty, hn.no_dots.1⟩
  rcases ht with rfl | rfl
  · rw [List.append_nil, hname]
  · have hslash : pieces (name ++ [slash]) = pieces name ++ [] := pieces_append name []
    rw [hslash, hname, List.append_nil]

theorem enter_name (hn : IsSegment name) (place : Option (List Bytes)) :
    enter place name = place.map (· ++ [name]) := by
  cases place with
  | none => rfl
  | some parts => exact if_neg hn.no_dots.2

theorem flatMap_ne_root (h : [] ∉ parts) : parts.flatMap (slash :: ·) ≠ [slash] := by
  cases parts with
  | nil => exact (List.cons_ne_nil slash []).symm
  | cons part parts =>
    intro he
    have hpart := (List.append_eq_nil_iff.1 (List.cons.inj he).2).1
    exact h (hpart ▸ List.mem_cons_self)

/-- A further name joins the path of a directory, unless that is rejected. -/
theorem joinedPath_concat (hparts : [] ∉ parts) (hn : IsSegment name) :
    joinedPath (parts ++ [name]) =
      if joinedPath parts = [] then [] else child (joinedPath parts) name := by
  have hvisible : isHidden name = false := by
    simpa [isHidden] using hn.visible
  have hany : (parts ++ [name]).any isHidden = parts.any isHidden := by
    rw [List.any_append, List.any_cons, hvisible, List.any_nil, Bool.or_false, Bool.or_false]
  unfold joinedPath
  rw [hany]
  by_cases hhidden : parts.any isHidden
  · rw [if_pos hhidden, if_pos hhidden, if_pos rfl]
  · rw [if_neg hhidden, if_neg hhidden, if_neg (List.concat_ne_nil name parts)]
    by_cases hnil : parts = []
    · subst hnil
      rw [if_pos rfl, if_neg (List.cons_ne_nil slash []), child, if_pos rfl, List.nil_append,
        List.nil_append, List.flatMap_singleton]
    · have hne : parts.flatMap (slash :: ·) ≠ [] := by
        obtain ⟨part, rest, rfl⟩ := List.exists_cons_of_ne_nil hnil
        exact List.cons_ne_nil slash _
      rw [if_neg hnil, if_neg hne, child, if_neg (flatMap_ne_root hparts), List.flatMap_append,
        List.flatMap_singleton]

theorem IsSegment.notMem_zero (hn : IsSegment name) : 0 ∉ name := fun h => (hn.plain 0 h).1 rfl

theorem IsSegment.allowed (hn : IsSegment name) : name.any isForbidden = false := by
  have hall : ∀ b : UInt8, b ≠ 0 ∧ (32 ≤ b ∨ b = tab) → ¬ isForbidden b = true := by
    decide
  exact List.any_eq_false.2 fun b hb => hall b (hn.plain b hb)

/-- The name of an entry behind a directory is normalized to the path of the entry. -/
theorem normalize_append (hd : IsDir d) (hn : IsSegment name) (ht : t = [] ∨ t = [slash]) :
    normalize (d ++ (urlEncodePath name ++ t)) =
      if normalize d = [] then [] else child (normalize d) name := by
  have htrail : percentDecode t = t ∧ t.any isForbidden = false := by
    rcases ht with rfl | rfl
    · exact ⟨rfl, rfl⟩
    · exact ⟨rfl, rfl⟩
  have hdecode : percentDecode (d ++ (urlEncodePath name ++ t)) =
      percentDecode d ++ (name ++ t) := by
    rw [percentDecode_dir hd, percentDecode_urlEncodePath hn.notMem_zero, htrail.1]
  rw [normalize_eq, normalize_eq d, hdecode, List.any_append, List.any_append, hn.allowed, htrail.2,
    Bool.or_false, Bool.or_false, pieces_dir (isDir_percentDecode hd), pieces_name hn ht,
    List.foldl_append, List.foldl_cons, List.foldl_nil, enter_name hn]
  split
  · rw [if_pos rfl]
  · next hforbidden =>
    cases hfold : (pieces (percentDecode d)).foldl enter (some []) with
    | none => exact (if_pos rfl).symm
    | some parts =>
      have hsub : parts ⊆ pieces (percentDecode d) := foldl_enter_subset hfold
      have hparts : [] ∉ parts := by
        intro hmem
        exact (of_decide_eq_true (List.mem_filter.1 (hsub hmem)).2).1 rfl
      exact joinedPath_concat hparts hn

theorem normalize_concat_slash (path : Bytes) : normalize (path ++ [slash]) = normalize path := by
  have hdecode : percentDecode (path ++ [slash]) = percentDecode path ++ [slash] :=
    percentDecode_append_slash path []
  have hpieces : pieces (percentDecode path ++ [slash]) = pieces (percentDecode path) ++ [] :=
    pieces_append _ []
  have hany : [slash].any isForbidden = false := rfl
  rw [normalize_eq, normalize_eq path, hdecode, hpieces, List.append_nil, List.any_append, hany,
    Bool.or_false]

/-- A name that is encoded behind a path is read back as that of an entry of the path's directory,
whatever the name looks like. -/
theorem normalize_encoded_name (hp : normalize path ≠ []) (hn : IsSegment name) :
    normalize (path ++ slash :: urlEncodePath name) = child (normalize path) name := by
  have hd : IsDir (path ++ [slash]) := .inr List.getLast?_concat
  have happend := normalize_append hd hn (t := []) (.inl rfl)
  rw [List.append_nil, List.append_assoc, normalize_concat_slash, if_neg hp] at happend
  exact happend

theorem normalize_encoded_name_percent :
    normalize (bytes "/a%2" ++ slash :: urlEncodePath (bytes "%41 b.%" ++ [9, 200])) =
      child (normalize (bytes "/a%2")) (bytes "%41 b.%" ++ [9, 200]) := by
  have hplain : (bytes "%41 b.%" ++ [9, 200]).all fun b => b ≠ 0 ∧ (32 ≤ b ∨ b = tab) := by decide
  have hsegment : IsSegment (bytes "%41 b.%" ++ [9, 200]) := by
    refine ⟨⟨by decide, by decide, fun b hb => ?_⟩, by decide⟩
    have hb' : b ≠ 0 ∧ (32 ≤ b ∨ b = tab) := of_decide_eq_true (List.all_eq_true.1 hplain b hb)
    exact hb'
  exact normalize_encoded_name (by decide) hsegment

end FileServer

end FileWebServer
