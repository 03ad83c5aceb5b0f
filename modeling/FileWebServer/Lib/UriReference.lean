import Mathlib

namespace UriReference
set_option autoImplicit true

def slash : UInt8 := 47
def dot : UInt8 := 46
def colon : UInt8 := 58
def question : UInt8 := 63
def hash : UInt8 := 35

/-- The components of a URI reference. -/
structure Reference where
  scheme : Option (List UInt8)
  authority : Option (List UInt8)
  path : List UInt8
  query : Option (List UInt8)
  fragment : Option (List UInt8)
  deriving DecidableEq, Repr

/-- The text goes on behind a path here. -/
def endsPath (c : UInt8) : Bool := c == question || c == hash

def endsAuthority (c : UInt8) : Bool := c == slash || endsPath c

def endsScheme (c : UInt8) : Bool := c == colon || endsAuthority c

def splitScheme (s : List UInt8) : Option (List UInt8) × List UInt8 :=
  match s.dropWhile fun c => !endsScheme c with
  | c :: rest =>
    let name := s.takeWhile fun c => !endsScheme c
    if c = colon ∧ name ≠ [] then (some name, rest) else (none, s)
  | [] => (none, s)

def splitAuthority (s : List UInt8) : Option (List UInt8) × List UInt8 :=
  if [slash, slash] <+: s then
    ((s.drop 2).takeWhile fun c => !endsAuthority c, (s.drop 2).dropWhile fun c => !endsAuthority c)
  else (none, s)

/-- The path that a text begins with, and the query and the fragment behind it. -/
def ofPath (scheme authority : Option (List UInt8)) (s : List UInt8) : Reference :=
  let rest := s.dropWhile fun c => !endsPath c
  { scheme := scheme
    authority := authority
    path := s.takeWhile fun c => !endsPath c
    query := if rest.head? = some question then some (rest.tail.takeWhile (· ≠ hash)) else none
    fragment :=
      let behind := rest.dropWhile (· ≠ hash)
      if behind.head? = some hash then some behind.tail else none }

/-- Every text is a reference. -/
def parse (s : List UInt8) : Reference :=
  let (scheme, s) := splitScheme s
  let (authority, s) := splitAuthority s
  ofPath scheme authority s

/-- The last segment of a path is cut off, with the slash before it. -/
def dropSegment (out : List UInt8) : List UInt8 := (out.rdropWhile (· ≠ slash)).dropLast

/-- The text up to the first slash, and the rest of it. -/
def segment (s : List UInt8) : List UInt8 := s.takeWhile (· ≠ slash)

def behind (s : List UInt8) : List UInt8 := s.dropWhile (· ≠ slash)

/-- A turn of the loop that removes dot segments moves the first segment of the input to the
output. A dot segment is dropped, and two dots take back the last segment of the output. -/
def dotTurn (input out : List UInt8) : List UInt8 × List UInt8 :=
  if input.head? = some slash then
    let seg := segment input.tail
    let next := if behind input.tail = [] then [slash] else behind input.tail
    if seg = [dot] then (next, out)
    else if seg = [dot, dot] then (next, dropSegment out)
    else (behind input.tail, out ++ slash :: seg)
  else
    let seg := segment input
    if seg = [dot] ∨ seg = [dot, dot] then ((behind input).tail, out)
    else (behind input, out ++ seg)

def dotLoop : Nat → List UInt8 → List UInt8 → List UInt8
  | 0, _, out => out
  | fuel + 1, input, out =>
    if input = [] then out
    else dotLoop fuel (dotTurn input out).1 (dotTurn input out).2

/-- Each turn of the loop takes a byte of the input at least. -/
def removeDotSegments (path : List UInt8) : List UInt8 := dotLoop (path.length + 1) path []

/-- A relative path takes the place of the last segment of the base path. -/
def mergePaths (base : Reference) (path : List UInt8) : List UInt8 :=
  if base.authority.isSome ∧ base.path = [] then slash :: path
  else base.path.rdropWhile (· ≠ slash) ++ path

/-- The target of a reference that is met in the document of `base`. -/
def resolve (base r : Reference) : Reference :=
  if r.scheme.isSome then { r with path := removeDotSegments r.path }
  else if r.authority.isSome then
    { r with scheme := base.scheme, path := removeDotSegments r.path }
  else if r.path = [] then
    { base with
      query := if r.query.isSome then r.query else base.query
      fragment := r.fragment }
  else
    { base with
      path := removeDotSegments (if r.path.head? = some slash then r.path
        else mergePaths base r.path)
      query := r.query
      fragment := r.fragment }

/-- A path that ends where the name of a segment can follow. -/
def IsDir (path : List UInt8) : Prop := path = [] ∨ path.getLast? = some slash

instance (path : List UInt8) : Decidable (IsDir path) := inferInstanceAs (Decidable (_ ∨ _))

/-- A segment that stays when dot segments are removed. -/
structure IsName (seg : List UInt8) : Prop where
  nonempty : seg ≠ []
  whole : slash ∉ seg
  here : seg ≠ [dot]
  up : seg ≠ [dot, dot]

variable {p seg trail out : List UInt8} {f f' : Nat}

theorem IsDir.suffix (h : IsDir p) (hs : out <:+ p) : IsDir out := by
  by_cases hnil : out = []
  · exact .inl hnil
  · obtain ⟨front, rfl⟩ := hs
    right
    rw [← h.resolve_left (List.append_ne_nil_of_right_ne_nil front hnil),
      List.getLast?_append_of_ne_nil front hnil]

theorem segment_behind (s : List UInt8) : segment s ++ behind s = s :=
  List.takeWhile_append_dropWhile

theorem behind_eq_drop (s : List UInt8) : behind s = s.drop (segment s).length := by
  calc behind s = (segment s ++ behind s).drop (segment s).length := List.drop_left.symm
    _ = s.drop (segment s).length := by rw [segment_behind]

theorem IsDir.behind (h : IsDir p) : IsDir (behind p) := h.suffix (List.dropWhile_suffix _)

theorem IsDir.tail (h : IsDir p) : IsDir p.tail := h.suffix (List.tail_suffix p)

theorem IsDir.slash_mem (h : IsDir p) (hp : p ≠ []) : slash ∈ p :=
  List.mem_of_getLast? (h.resolve_left hp)

theorem behind_length_le (s : List UInt8) : (behind s).length ≤ s.length :=
  (List.dropWhile_sublist _).length_le

theorem behind_eq_cons {b : UInt8} {bs : List UInt8} (h : behind p = b :: bs) : b = slash := by
  have hne : p.dropWhile (· ≠ slash) ≠ [] := by
    intro hnil
    exact List.cons_ne_nil b bs (h.symm.trans hnil)
  have hhead := List.head_dropWhile_not (· ≠ slash) hne
  have hdrop : p.dropWhile (· ≠ slash) = b :: bs := h
  simp only [hdrop, List.head_cons] at hhead
  simpa using hhead

theorem slash_notMem_segment (s : List UInt8) : slash ∉ segment s := by
  intro hmem
  have hs := List.mem_takeWhile_imp hmem
  exact absurd rfl (of_decide_eq_true hs)

theorem behind_ne_nil (h : slash ∈ p) : behind p ≠ [] := by
  intro he
  have hall := List.dropWhile_eq_nil_iff.1 he slash h
  simp at hall

/-- The first segment of a path with a slash in it does not depend on what comes behind. -/
theorem segment_append (h : slash ∈ p) (s : List UInt8) : segment (p ++ s) = segment p := by
  have hne : (segment p).length ≠ p.length := by
    intro he
    have hall := List.mem_takeWhile_imp ((List.takeWhile_prefix _).eq_of_length he ▸ h)
    simp at hall
  exact List.takeWhile_append.trans (if_neg hne)

theorem behind_append (h : slash ∈ p) (s : List UInt8) : behind (p ++ s) = behind p ++ s := by
  have hne : ¬ (behind p).isEmpty = true := by
    rw [List.isEmpty_iff]
    exact behind_ne_nil h
  exact List.dropWhile_append.trans (if_neg hne)

theorem IsName.all (h : IsName seg) : ∀ c ∈ seg, decide (c ≠ slash) = true :=
  fun _ hc => decide_eq_true fun he => h.whole (he ▸ hc)

theorem IsName.segment (h : IsName seg) (ht : trail = [] ∨ trail = [slash]) :
    segment (seg ++ trail) = seg := by
  refine (List.takeWhile_append_of_pos h.all).trans ?_
  rcases ht with rfl | rfl
  · simp
  · simp

theorem IsName.behind (h : IsName seg) (ht : trail = [] ∨ trail = [slash]) :
    behind (seg ++ trail) = trail := by
  refine (List.dropWhile_append_of_pos h.all).trans ?_
  rcases ht with rfl | rfl
  · simp
  · simp

theorem IsName.head (h : IsName seg) (s : List UInt8) : (seg ++ s).head? ≠ some slash := by
  obtain ⟨c, cs, rfl⟩ := List.exists_cons_of_ne_nil h.nonempty
  intro he
  exact h.whole (Option.some.inj he ▸ List.mem_cons_self)

theorem dotTurn_absolute (rest out : List UInt8) : dotTurn (slash :: rest) out =
    if segment rest = [dot] then (if behind rest = [] then [slash] else behind rest, out)
    else if segment rest = [dot, dot] then
      (if behind rest = [] then [slash] else behind rest, dropSegment out)
    else (behind rest, out ++ slash :: segment rest) := if_pos rfl

theorem dotTurn_relative (h : p.head? ≠ some slash) (out : List UInt8) : dotTurn p out =
    if segment p = [dot] ∨ segment p = [dot, dot] then ((behind p).tail, out)
    else (behind p, out ++ segment p) := if_neg h

theorem dotTurn_name (h : IsName seg) (ht : trail = [] ∨ trail = [slash]) :
    dotTurn (seg ++ trail) out = (trail, out ++ seg) := by
  rw [dotTurn_relative (h.head trail), h.segment ht, h.behind ht, if_neg]
  rintro (he | he)
  · exact h.here he
  · exact h.up he

theorem dotTurn_slash_name (h : IsName seg) (ht : trail = [] ∨ trail = [slash]) :
    dotTurn (slash :: (seg ++ trail)) out = (trail, out ++ slash :: seg) := by
  rw [dotTurn_absolute, h.segment ht, h.behind ht, if_neg h.here, if_neg h.up]

/-- What comes behind a directory does not take part in a turn. -/
theorem dotTurn_dir (h : IsDir p) (hp : p ≠ []) (hs : p ≠ [slash]) (s out : List UInt8) :
    dotTurn (p ++ s) out = ((dotTurn p out).1 ++ s, (dotTurn p out).2) ∧
      IsDir (dotTurn p out).1 ∧ (dotTurn p out).1.length < p.length := by
  obtain ⟨c, rest, rfl⟩ := List.exists_cons_of_ne_nil hp
  by_cases hc : c = slash
  · subst hc
    have hrest : rest ≠ [] := fun he => hs (by rw [he])
    have hmem : slash ∈ rest := h.tail.slash_mem hrest
    have hnext := behind_ne_nil hmem
    have hlen : (behind rest).length < (slash :: rest).length :=
      Nat.lt_succ_of_le (behind_length_le rest)
    rw [List.cons_append, dotTurn_absolute, dotTurn_absolute, segment_append hmem,
      behind_append hmem, if_neg (List.append_ne_nil_of_left_ne_nil hnext s), if_neg hnext]
    have hdir : IsDir (behind rest) := h.tail.behind
    split
    · exact ⟨rfl, hdir, hlen⟩
    · split
      · exact ⟨rfl, hdir, hlen⟩
      · exact ⟨rfl, hdir, hlen⟩
  · have hhead (s : List UInt8) : (c :: (rest ++ s)).head? ≠ some slash :=
      fun he => hc (Option.some.inj he)
    have hhead' : (c :: rest).head? ≠ some slash := fun he => hc (Option.some.inj he)
    have hmem : slash ∈ c :: rest := h.slash_mem hp
    have hnext := behind_ne_nil hmem
    have hlen : (behind (c :: rest)).length < (c :: rest).length := by
      have hcons : behind (c :: rest) = behind rest :=
        List.dropWhile_cons_of_pos (by simpa using hc)
      rw [hcons]
      exact Nat.lt_succ_of_le (behind_length_le rest)
    have hseg : segment (c :: (rest ++ s)) = segment (c :: rest) := segment_append hmem s
    have hbehind : behind (c :: (rest ++ s)) = behind (c :: rest) ++ s := behind_append hmem s
    rw [List.cons_append, dotTurn_relative (hhead s), dotTurn_relative hhead', hseg, hbehind]
    split
    · refine ⟨?_, h.behind.tail, ?_⟩
      · rw [List.tail_append_of_ne_nil hnext]
      · rw [List.length_tail]
        omega
    · exact ⟨rfl, h.behind, hlen⟩

theorem dotLoop_nil (f : Nat) (out : List UInt8) : dotLoop f [] out = out := by
  cases f <;> rfl

theorem dotLoop_cons (hp : p ≠ []) :
    dotLoop (f + 1) p out = dotLoop f (dotTurn p out).1 (dotTurn p out).2 := if_neg hp

theorem dotLoop_end (ht : trail = [] ∨ trail = [slash]) (hf : trail.length ≤ f) :
    dotLoop f trail out = out ++ trail := by
  rcases ht with rfl | rfl
  · rw [dotLoop_nil, List.append_nil]
  · obtain ⟨f, rfl⟩ := Nat.exists_eq_add_of_le' hf
    exact (dotLoop_cons (List.cons_ne_nil _ _)).trans (dotLoop_nil ..)

theorem dotLoop_name (h : IsName seg) (ht : trail = [] ∨ trail = [slash])
    (hf : (seg ++ trail).length ≤ f) :
    dotLoop f (seg ++ trail) out = out ++ (seg ++ trail) := by
  have hpos := List.length_pos_of_ne_nil h.nonempty
  rw [List.length_append] at hf
  obtain ⟨f, rfl⟩ := Nat.exists_eq_add_of_le' (Nat.le_trans hpos (Nat.le_of_add_right_le hf))
  rw [dotLoop_cons (List.append_ne_nil_of_left_ne_nil h.nonempty _), dotTurn_name h ht,
    dotLoop_end ht (by omega), List.append_assoc]

/-- A name behind a directory stays as it is when dot segments are removed. -/
theorem dotLoop_append (hp : IsDir p) (hseg : IsName seg) (ht : trail = [] ∨ trail = [slash])
    (hf : p.length ≤ f) (hf' : (p ++ (seg ++ trail)).length ≤ f') :
    dotLoop f' (p ++ (seg ++ trail)) out = dotLoop f p out ++ (seg ++ trail) := by
  induction f generalizing p out f' with
  | zero =>
    obtain rfl := List.eq_nil_of_length_eq_zero (Nat.le_zero.1 hf)
    rw [List.nil_append, dotLoop_nil]
    exact dotLoop_name hseg ht hf'
  | succ f ih =>
    by_cases hnil : p = []
    · subst hnil
      rw [List.nil_append, dotLoop_nil]
      exact dotLoop_name hseg ht hf'
    · obtain ⟨f', rfl⟩ := Nat.exists_eq_add_of_le' (Nat.le_trans
        (List.length_pos_of_ne_nil (List.append_ne_nil_of_left_ne_nil hnil (seg ++ trail))) hf')
      rw [dotLoop_cons (List.append_ne_nil_of_left_ne_nil hnil _)]
      by_cases hroot : p = [slash]
      · subst hroot
        rw [List.length_append, List.length_append, List.length_singleton] at hf'
        rw [List.singleton_append, dotTurn_slash_name hseg ht, dotLoop_end ht (by omega),
          dotLoop_end (.inr rfl) hf, List.append_assoc, List.append_assoc, List.cons_append,
          List.singleton_append]
      · obtain ⟨hturn, hdir, hlen⟩ := dotTurn_dir hp hnil hroot (seg ++ trail) out
        rw [List.length_append] at hf'
        rw [hturn, dotLoop_cons hnil]
        exact ih hdir (by omega) (by rw [List.length_append]; omega)

/-- As long as the input does not begin with a slash, nothing has been put out. -/
theorem dotTurn_starts (h : IsDir p) (hp : p ≠ []) (hs : p ≠ [slash])
    (hout : p.head? = some slash ∨ out = []) :
    (dotTurn p out).1.head? = some slash ∨ (dotTurn p out).2 = [] := by
  have hbehind (s : List UInt8) (hs : behind s ≠ []) : (behind s).head? = some slash := by
    have hhead : decide ((behind s).head hs ≠ slash) = false :=
      List.head_dropWhile_not (· ≠ slash) hs
    rw [List.head?_eq_some_head hs]
    simpa using hhead
  obtain ⟨c, rest, rfl⟩ := List.exists_cons_of_ne_nil hp
  by_cases hc : c = slash
  · subst hc
    have hrest : rest ≠ [] := fun he => hs (by rw [he])
    have hnext : behind rest ≠ [] := behind_ne_nil (h.tail.slash_mem hrest)
    left
    rw [dotTurn_absolute, if_neg hnext]
    split
    · exact hbehind rest hnext
    · split
      · exact hbehind rest hnext
      · exact hbehind rest hnext
  · have hhead : (c :: rest).head? ≠ some slash := fun he => hc (Option.some.inj he)
    rw [dotTurn_relative hhead]
    split
    · exact .inr (hout.resolve_left hhead)
    · exact .inl (hbehind _ (behind_ne_nil (h.slash_mem hp)))

theorem IsDir.dotLoop (h : IsDir p) (hout : p.head? = some slash ∨ out = []) (hf : p.length ≤ f) :
    IsDir (dotLoop f p out) := by
  induction f generalizing p out with
  | zero =>
    obtain rfl := List.eq_nil_of_length_eq_zero (Nat.le_zero.1 hf)
    exact .inl (hout.resolve_left nofun)
  | succ f ih =>
    by_cases hnil : p = []
    · subst hnil
      exact .inl (hout.resolve_left nofun)
    · by_cases hroot : p = [slash]
      · subst hroot
        rw [dotLoop_end (.inr rfl) hf]
        exact .inr (List.getLast?_append_of_ne_nil _ (List.cons_ne_nil _ _))
      · obtain ⟨-, hdir, hlen⟩ := dotTurn_dir h hnil hroot [] out
        rw [dotLoop_cons hnil]
        exact ih hdir (dotTurn_starts h hnil hroot hout) (by omega)

theorem removeDotSegments_append (hp : IsDir p) (hseg : IsName seg)
    (ht : trail = [] ∨ trail = [slash]) :
    removeDotSegments (p ++ (seg ++ trail)) = removeDotSegments p ++ (seg ++ trail) :=
  dotLoop_append hp hseg ht (Nat.le_succ _) (Nat.le_succ _)

theorem IsDir.removeDotSegments (h : IsDir p) : IsDir (removeDotSegments p) :=
  h.dotLoop (.inr rfl) (Nat.le_succ _)

theorem splitScheme_of_none {s : List UInt8} (h : (splitScheme s).1 = none) :
    splitScheme s = (none, s) := by
  unfold splitScheme at h ⊢
  split at h
  · next c rest hdrop =>
    dsimp only at h ⊢
    split at h
    · cases h
    · next hc => rw [if_neg hc]
  · rfl

theorem splitScheme_append {q : List UInt8} (h : slash ∈ q) (t : List UInt8) :
    (splitScheme (q ++ t)).1 = (splitScheme q).1 := by
  have hne : q.dropWhile (fun c => !endsScheme c) ≠ [] := by
    intro he
    have hall := List.dropWhile_eq_nil_iff.1 he slash h
    exact absurd hall (by decide)
  have hlen : (q.takeWhile fun c => !endsScheme c).length ≠ q.length := by
    intro he
    have hlen := congrArg List.length
      (List.takeWhile_append_dropWhile (p := fun c => !endsScheme c) (l := q))
    rw [List.length_append, he] at hlen
    exact hne (List.eq_nil_of_length_eq_zero (by omega))
  obtain ⟨c, rest, hdrop⟩ := List.exists_cons_of_ne_nil hne
  have htake : (q ++ t).takeWhile (fun c => !endsScheme c) = q.takeWhile fun c => !endsScheme c :=
    List.takeWhile_append.trans (if_neg hlen)
  have hdrop' : (q ++ t).dropWhile (fun c => !endsScheme c) = c :: (rest ++ t) := by
    rw [List.dropWhile_append, hdrop]
    rfl
  unfold splitScheme
  rw [hdrop, hdrop', htake]
  dsimp only
  split
  · rfl
  · rfl

theorem splitScheme_of_not_mem {s : List UInt8} (h : colon ∉ s) : (splitScheme s).1 = none := by
  unfold splitScheme
  split
  · next c rest hdrop =>
    have hc : c ∈ s := (List.dropWhile_sublist _).subset (hdrop ▸ List.mem_cons_self)
    dsimp only
    rw [if_neg]
    rintro ⟨rfl, _⟩
    exact h hc
  · rfl

/-- A text that is a path as a whole. -/
structure PathOnly (s : List UInt8) : Prop where
  scheme : (splitScheme s).1 = none
  authority : ¬ [slash, slash] <+: s
  path : ∀ c ∈ s, endsPath c = false

/-- A name that can stand in a reference as it is. -/
structure IsPlainName (seg : List UInt8) : Prop extends IsName seg where
  plain : ∀ c ∈ seg, endsScheme c = false

variable {q s t : List UInt8} {base : Reference}

theorem parse_of_none (hs : (parse s).scheme = none) (ha : (parse s).authority = none) :
    parse s = ofPath none none s ∧ ¬ [slash, slash] <+: s := by
  have hscheme := splitScheme_of_none hs
  have hparse : parse s = ofPath none (splitAuthority s).1 (splitAuthority s).2 := by
    unfold parse
    rw [hscheme]
  have hauth : (splitAuthority s).1 = none := by
    rw [hparse] at ha
    exact ha
  unfold splitAuthority at hparse hauth
  split at hauth
  · cases hauth
  · next hslash =>
    rw [if_neg hslash] at hparse
    exact ⟨hparse, hslash⟩

theorem PathOnly.parse (h : PathOnly s) : parse s = ⟨none, none, s, none, none⟩ := by
  have htake : s.takeWhile (fun c => !endsPath c) = s := by
    refine List.takeWhile_eq_self_iff.2 fun c hc => ?_
    rw [h.path c hc]
    rfl
  have hdrop : s.dropWhile (fun c => !endsPath c) = [] := by
    refine List.dropWhile_eq_nil_iff.2 fun c hc => ?_
    rw [h.path c hc]
    rfl
  unfold UriReference.parse
  rw [splitScheme_of_none h.scheme]
  unfold splitAuthority
  dsimp only
  rw [if_neg h.authority]
  unfold ofPath
  rw [htake, hdrop]
  rfl

theorem endsPath_of_not_endsScheme {c : UInt8} (h : endsScheme c = false) : endsPath c = false := by
  unfold endsScheme endsAuthority at h
  simp only [Bool.or_eq_false_iff] at h
  exact h.2.2

theorem IsPlainName.endsScheme_slash (h : IsPlainName seg) (ht : trail = [] ∨ trail = [slash])
    {c : UInt8} (hc : c ∈ seg ++ trail) : endsScheme c = false ∨ c = slash := by
  rcases List.mem_append.1 hc with hc | hc
  · exact .inl (h.plain c hc)
  · rcases ht with rfl | rfl
    · cases hc
    · exact .inr (List.mem_singleton.1 hc)

theorem IsPlainName.endsPath (h : IsPlainName seg) (ht : trail = [] ∨ trail = [slash])
    {c : UInt8} (hc : c ∈ seg ++ trail) : endsPath c = false := by
  rcases h.endsScheme_slash ht hc with hc | rfl
  · exact endsPath_of_not_endsScheme hc
  · rfl

theorem IsDir.twoSlashes_append (hq : IsDir q) (hhead : t.head? ≠ some slash) :
    [slash, slash] <+: q ++ t ↔ [slash, slash] <+: q := by
  refine ⟨fun h => ?_, fun h => h.trans (List.prefix_append q t)⟩
  rcases q with _ | ⟨c, _ | ⟨d, rest⟩⟩
  · obtain ⟨u, rfl⟩ := h
    exact (hhead rfl).elim
  · obtain ⟨u, hu⟩ := h
    have ht : slash :: u = t := (List.cons.inj hu).2
    rw [← ht] at hhead
    exact (hhead rfl).elim
  · obtain ⟨u, hu⟩ := h
    have hc := (List.cons.inj hu).1
    have hd := (List.cons.inj (List.cons.inj hu).2).1
    rw [← hc, ← hd]
    exact ⟨rest, rfl⟩

/-- A plain name behind a directory does not change what kind of reference it is. -/
theorem pathOnly_append (hq : IsDir q) (h : IsPlainName seg) (ht : trail = [] ∨ trail = [slash]) :
    PathOnly (q ++ (seg ++ trail)) ↔ PathOnly q := by
  have hscheme : (splitScheme (q ++ (seg ++ trail))).1 = (splitScheme q).1 := by
    by_cases hnil : q = []
    · subst hnil
      refine splitScheme_of_not_mem fun hc => ?_
      rcases h.endsScheme_slash ht hc with hc | hc
      · exact absurd hc (by decide)
      · exact absurd hc (by decide)
    · exact splitScheme_append (hq.slash_mem hnil) _
  have hauth := hq.twoSlashes_append (h.head trail)
  constructor
  · intro hp
    exact ⟨hscheme ▸ hp.scheme, fun hs => hp.authority (hauth.2 hs),
      fun c hc => hp.path c (List.mem_append_left _ hc)⟩
  · intro hp
    refine ⟨hscheme.trans hp.scheme, fun hs => hp.authority (hauth.1 hs), fun c hc => ?_⟩
    rcases List.mem_append.1 hc with hc | hc
    · exact hp.path c hc
    · exact h.endsPath ht hc

/-- The path that a relative path stands for in the document of `base`, with its dot segments. -/
def stem (base : Reference) (path : List UInt8) : List UInt8 :=
  if path.head? = some slash then path else mergePaths base path

theorem mergePaths_append (base : Reference) (q t : List UInt8) :
    mergePaths base (q ++ t) = mergePaths base q ++ t := by
  unfold mergePaths
  split
  · rfl
  · exact (List.append_assoc ..).symm

theorem stem_append (base : Reference) (q : List UInt8) (h : t.head? ≠ some slash) :
    stem base (q ++ t) = stem base q ++ t := by
  have hhead : (q ++ t).head? = some slash ↔ q.head? = some slash := by
    cases q with
    | nil => exact iff_of_false h nofun
    | cons => rfl
  unfold stem
  by_cases hq : q.head? = some slash
  · rw [if_pos hq, if_pos (hhead.2 hq)]
  · rw [if_neg hq, if_neg (mt hhead.1 hq), mergePaths_append]

theorem isDir_rdropWhile (s : List UInt8) : IsDir (s.rdropWhile (· ≠ slash)) := by
  by_cases hnil : s.rdropWhile (· ≠ slash) = []
  · exact .inl hnil
  · have hlast := List.rdropWhile_last_not (· ≠ slash) s hnil
    right
    rw [List.getLast?_eq_some_getLast hnil]
    simpa using hlast

theorem IsDir.stem (base : Reference) (h : IsDir q) : IsDir (stem base q) := by
  unfold UriReference.stem
  split
  · exact h
  · unfold mergePaths
    rcases h with rfl | h
    · split
      · exact .inr rfl
      · rw [List.append_nil]
        exact isDir_rdropWhile _
    · right
      split
      · rw [List.getLast?_cons, h]
        rfl
      · rw [List.getLast?_append, h]
        rfl

/-- The target of a plain name behind a directory. -/
theorem resolve_name (base : Reference) (hq : IsDir q) (h : IsPlainName seg)
    (ht : trail = [] ∨ trail = [slash]) (hp : PathOnly q) :
    resolve base (parse (q ++ (seg ++ trail))) =
      { base with path := removeDotSegments (stem base q) ++ (seg ++ trail)
                  query := none, fragment := none } := by
  have hne : q ++ (seg ++ trail) ≠ [] := by
    intro he
    exact h.nonempty (List.append_eq_nil_iff.1 (List.append_eq_nil_iff.1 he).2).1
  rw [((pathOnly_append hq h ht).2 hp).parse,
    ← removeDotSegments_append (hq.stem base) h.toIsName ht, ← stem_append base q (h.head trail)]
  unfold resolve
  rw [if_neg nofun, if_neg nofun, if_neg hne]
  rfl

theorem resolve_authority (base r : Reference) : (resolve base r).authority =
    if r.scheme.isSome ∨ r.authority.isSome then r.authority else base.authority := by
  unfold resolve
  by_cases hs : r.scheme.isSome
  · rw [if_pos hs, if_pos (.inl hs)]
  · rw [if_neg hs]
    by_cases ha : r.authority.isSome
    · rw [if_pos ha, if_pos (.inr ha)]
    · rw [if_neg ha, if_neg (not_or.2 ⟨hs, ha⟩)]
      split
      · rfl
      · rfl

theorem resolve_path (base : Reference) {r : Reference} (hs : r.scheme = none)
    (ha : r.authority = none) : (resolve base r).path =
      if r.path = [] then base.path else removeDotSegments (stem base r.path) := by
  unfold resolve
  rw [hs, ha]
  simp only [Option.isSome_none, Bool.false_eq_true, if_false]
  split
  · rfl
  · rfl

/-- What comes behind the end of the path does not take part in the path of the target. -/
theorem resolve_path_of_ends (base : Reference) (h : ∃ c ∈ q, endsPath c = true) : ∃ path, ∀ t,
    (parse (q ++ t)).scheme = none → (parse (q ++ t)).authority = none →
      (resolve base (parse (q ++ t))).path = path := by
  obtain ⟨c, hc, hends⟩ := h
  have htake (t : List UInt8) : (q ++ t).takeWhile (fun c => !endsPath c) =
      q.takeWhile fun c => !endsPath c := by
    refine List.takeWhile_append.trans (if_neg fun he => ?_)
    have hall := List.mem_takeWhile_imp ((List.takeWhile_prefix _).eq_of_length he ▸ hc)
    simp [hends] at hall
  refine ⟨if (q.takeWhile fun c => !endsPath c) = [] then base.path
    else removeDotSegments (stem base (q.takeWhile fun c => !endsPath c)), fun t hs ha => ?_⟩
  have hpath : (parse (q ++ t)).path = q.takeWhile fun c => !endsPath c := by
    rw [(parse_of_none hs ha).1]
    exact htake t
  rw [resolve_path base hs ha, hpath]

end UriReference
