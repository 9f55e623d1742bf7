import Avery.Fs.PathSpelling

/-!
# The scanners of a path

`splitPath` of the source goes through the path with indices: past the slashes, then to
the next slash, and so on.  `splitPathLoop` is that loop.  It finds the segments of the
path in their order (`splitPathLoop_segments`), and it finds what `splitPath` does here,
which goes through the bytes one after the other (`splitPathLoop_eq`).  The two scanners
that run backwards, in `basenameOf` and `parentOf`, agree with it on the last segment.
-/

namespace Avery.Fat32

/-- The first position from `start` on that holds no slash. -/
def skipSlashes (path : Str) (start : Nat) : Nat :=
  if start < path.length ∧ path[start]? = some slash then skipSlashes path (start + 1) else start
termination_by path.length - start

/-- The first position from `stop` on that holds a slash, or the end of the path. -/
def componentEnd (path : Str) (stop : Nat) : Nat :=
  if stop < path.length ∧ path[stop]? ≠ some slash then componentEnd path (stop + 1) else stop
termination_by path.length - stop

variable {path : Str}

theorem skipSlashes_spec (path : Str) (start : Nat) :
    start ≤ skipSlashes path start ∧
      (∀ i, start ≤ i → i < skipSlashes path start → path[i]? = some slash) ∧
      path[skipSlashes path start]? ≠ some slash := by
  induction start using skipSlashes.induct path with
  | case1 start h ih =>
      obtain ⟨hle, hall, hstop⟩ := ih
      rw [skipSlashes, if_pos h]
      refine ⟨by omega, fun i hi hlt => ?_, hstop⟩
      rcases Nat.eq_or_lt_of_le hi with rfl | hi
      · exact h.2
      · exact hall i hi hlt
  | case2 start h =>
      rw [skipSlashes, if_neg h]
      refine ⟨Nat.le_refl _, fun i hi hlt => absurd hlt (Nat.not_lt.mpr hi), fun hslash => ?_⟩
      exact h ⟨(List.getElem?_eq_some_iff.mp hslash).1, hslash⟩

theorem componentEnd_spec (path : Str) (stop : Nat) :
    stop ≤ componentEnd path stop ∧
      (∀ i, stop ≤ i → i < componentEnd path stop → i < path.length ∧ path[i]? ≠ some slash) ∧
      (path.length ≤ componentEnd path stop ∨ path[componentEnd path stop]? = some slash) := by
  induction stop using componentEnd.induct path with
  | case1 stop h ih =>
      obtain ⟨hle, hall, hstop⟩ := ih
      rw [componentEnd, if_pos h]
      refine ⟨by omega, fun i hi hlt => ?_, hstop⟩
      rcases Nat.eq_or_lt_of_le hi with rfl | hi
      · exact h
      · exact hall i hi hlt
  | case2 stop h =>
      rw [componentEnd, if_neg h]
      refine ⟨Nat.le_refl _, fun i hi hlt => absurd hlt (Nat.not_lt.mpr hi), ?_⟩
      by_cases hlt : stop < path.length
      · exact .inr (Classical.not_not.mp fun hslash => h ⟨hlt, hslash⟩)
      · exact .inl (Nat.not_lt.mp hlt)

/-- A round of the loop gets further. -/
theorem lt_componentEnd_skipSlashes {start : Nat} (h : start < path.length) :
    start < componentEnd path (skipSlashes path start) := by
  obtain ⟨hskip, hslashes, hplain⟩ := skipSlashes_spec path start
  obtain ⟨hend, -, hstop⟩ := componentEnd_spec path (skipSlashes path start)
  rcases hstop with hstop | hstop
  · omega
  · have hne : skipSlashes path start ≠ componentEnd path (skipSlashes path start) :=
      fun heq => hplain (heq ▸ hstop)
    omega

def splitPathLoop (path : Str) (start : Nat) : List Str :=
  if start < path.length then
    let first := skipSlashes path start
    let stop := componentEnd path first
    (if first < stop then [pathComponent path first stop] else []) ++ splitPathLoop path stop
  else []
termination_by path.length - start
decreasing_by
  have hlt : start < componentEnd path (skipSlashes path start) := lt_componentEnd_skipSlashes ‹_›
  omega

/-! ## Segments -/

/-- The positions from `start` to `stop` are a longest nonempty run without a slash. -/
structure Segment (path : Str) (start stop : Nat) : Prop where
  nonempty : start < stop
  inside : stop ≤ path.length
  plain : ∀ i, start ≤ i → i < stop → path[i]? ≠ some slash
  left : start = 0 ∨ path[start - 1]? = some slash
  right : stop = path.length ∨ path[stop]? = some slash

/-- The loop is at the start, at a slash or at the end. -/
def AtEdge (path : Str) (start : Nat) : Prop :=
  start = 0 ∨ path[start]? = some slash ∨ path.length ≤ start

/-- Two segments with a position in common are one. -/
theorem Segment.unique {a b a' b' : Nat} (h : Segment path a b) (h' : Segment path a' b')
    (hab : a' < b) (hba : a < b') : a = a' ∧ b = b' := by
  have hstart : ∀ {a b a' b' : Nat}, Segment path a b → Segment path a' b' → a' < b → a < b' →
      ¬ a < a' := by
    intro a b a' b' h h' hab hba hlt
    rcases h'.left with hzero | hslash
    · omega
    · exact h.plain (a' - 1) (by omega) (by omega) hslash
  have hstop : ∀ {a b a' b' : Nat}, Segment path a b → Segment path a' b' → a' < b → a < b' →
      ¬ b < b' := by
    intro a b a' b' h h' hab hba hlt
    rcases h.right with hend | hslash
    · have hinside := h'.inside
      omega
    · exact h'.plain b (by omega) hlt hslash
  have h₁ := hstart h h' hab hba
  have h₂ := hstart h' h hba hab
  have h₃ := hstop h h' hab hba
  have h₄ := hstop h' h hba hab
  omega

theorem segment_of_scan {start : Nat} (hedge : AtEdge path start)
    (hlt : skipSlashes path start < componentEnd path (skipSlashes path start)) :
    Segment path (skipSlashes path start) (componentEnd path (skipSlashes path start)) := by
  obtain ⟨hskip, hslashes, hplain⟩ := skipSlashes_spec path start
  obtain ⟨-, hinside, hstop⟩ := componentEnd_spec path (skipSlashes path start)
  have hlast := hinside (componentEnd path (skipSlashes path start) - 1) (by omega) (by omega)
  refine ⟨hlt, by omega, fun i hi hi' => (hinside i hi hi').2, ?_, ?_⟩
  · rcases Nat.eq_or_lt_of_le hskip with heq | hgt
    · rcases hedge with hzero | hslash | hend
      · exact .inl (heq ▸ hzero)
      · exact absurd (heq ▸ hslash) hplain
      · have hfirst := (hinside _ (Nat.le_refl _) hlt).1
        omega
    · exact .inr (hslashes _ (by omega) (by omega))
  · rcases hstop with hend | hslash
    · exact .inl (by omega)
    · exact .inr hslash

/-- A segment from the position of the loop on is the one that is found next, or lies behind
it. -/
theorem segment_from {start a b : Nat} (hedge : AtEdge path start) (h : Segment path a b)
    (hstart : start ≤ a) :
    skipSlashes path start < componentEnd path (skipSlashes path start) ∧
        a = skipSlashes path start ∧ b = componentEnd path (skipSlashes path start) ∨
      componentEnd path (skipSlashes path start) ≤ a := by
  obtain ⟨hskip, hslashes, hplain⟩ := skipSlashes_spec path start
  obtain ⟨hle, hinside, hstop⟩ := componentEnd_spec path (skipSlashes path start)
  have hfirst : skipSlashes path start ≤ a := by
    refine Nat.not_lt.mp fun hlt => ?_
    exact h.plain a (Nat.le_refl _) h.nonempty (hslashes a hstart hlt)
  rcases Nat.lt_or_ge a (componentEnd path (skipSlashes path start)) with hlt | hge
  · have hgrow : skipSlashes path start < componentEnd path (skipSlashes path start) := by omega
    have hb := h.nonempty
    obtain ⟨ha, hb⟩ := h.unique (segment_of_scan hedge hgrow) (by omega) hlt
    exact .inl ⟨hgrow, ha, hb⟩
  · exact .inr hge

/-- The loop finds the segments behind its position in their order. -/
theorem splitPathLoop_segments (path : Str) (start : Nat) (hedge : AtEdge path start) :
    ∃ segments : List (Nat × Nat),
      splitPathLoop path start = segments.map (fun s => pathComponent path s.1 s.2) ∧
      segments.Pairwise (fun s t => s.2 ≤ t.1) ∧
      ∀ a b, (a, b) ∈ segments ↔ Segment path a b ∧ start ≤ a := by
  induction start using splitPathLoop.induct path with
  | case1 start hlt first stop ih =>
      have hgrow : start < stop := lt_componentEnd_skipSlashes hlt
      obtain ⟨hskip, -, -⟩ := skipSlashes_spec path start
      obtain ⟨hle, -, hstop⟩ := componentEnd_spec path first
      obtain ⟨segments, hloop, hsorted, hmem⟩ := ih (.inr hstop.symm)
      rw [splitPathLoop, if_pos hlt]
      change ∃ segments, (if first < stop then _ else _) ++ splitPathLoop path stop = _ ∧ _
      rw [hloop]
      by_cases hfound : first < stop
      · have hsegment := segment_of_scan hedge hfound
        refine ⟨(first, stop) :: segments, by rw [if_pos hfound]; rfl, ?_, fun a b => ?_⟩
        · refine List.pairwise_cons.mpr ⟨fun s hs => ?_, hsorted⟩
          exact ((hmem s.1 s.2).mp hs).2
        · rw [List.mem_cons, hmem]
          constructor
          · rintro (heq | ⟨hseg, ha⟩)
            · obtain ⟨rfl, rfl⟩ := Prod.mk.inj heq
              exact ⟨hsegment, hskip⟩
            · exact ⟨hseg, by omega⟩
          · rintro ⟨hseg, ha⟩
            rcases segment_from hedge hseg ha with ⟨-, rfl, rfl⟩ | hge
            · exact .inl rfl
            · exact .inr ⟨hseg, hge⟩
      · refine ⟨segments, by rw [if_neg hfound]; rfl, hsorted, fun a b => ?_⟩
        rw [hmem]
        constructor
        · rintro ⟨hseg, ha⟩
          exact ⟨hseg, by omega⟩
        · rintro ⟨hseg, ha⟩
          rcases segment_from hedge hseg ha with ⟨hgrow', -⟩ | hge
          · exact absurd hgrow' hfound
          · exact ⟨hseg, hge⟩
  | case2 start hge =>
      rw [splitPathLoop, if_neg hge]
      refine ⟨[], rfl, .nil, fun a b => ⟨fun h => (nomatch h), fun h => ?_⟩⟩
      have hnonempty := h.1.nonempty
      have hinside := h.1.inside
      omega

/-! ## The two ways to split -/

theorem splitPathFrom_skipSlashes (path : Str) (start : Nat) :
    splitPathFrom [] (path.drop (skipSlashes path start)) = splitPathFrom [] (path.drop start) := by
  induction start using skipSlashes.induct path with
  | case1 start h ih =>
      obtain ⟨hlt, hget⟩ := List.getElem?_eq_some_iff.mp h.2
      rw [skipSlashes, if_pos h, ih, List.drop_eq_getElem_cons hlt, hget, splitPathFrom, if_pos rfl,
        if_pos rfl, List.nil_append]
  | case2 start h => rw [skipSlashes, if_neg h]

theorem splitPathFrom_componentEnd (path cur : Str) (start : Nat) :
    splitPathFrom cur (path.drop start) =
      (if cur ++ pathComponent path start (componentEnd path start) = [] then []
        else [cur ++ pathComponent path start (componentEnd path start)]) ++
        splitPathFrom [] (path.drop (componentEnd path start)) := by
  induction start using componentEnd.induct path generalizing cur with
  | case1 start h ih =>
      have hlt := h.1
      have hget : path[start] ≠ slash := by
        simpa [List.getElem?_eq_getElem hlt] using h.2
      have hend : start < componentEnd path (start + 1) := (componentEnd_spec path (start + 1)).1
      have hcomponent : pathComponent path start (componentEnd path (start + 1)) =
          path[start] :: pathComponent path (start + 1) (componentEnd path (start + 1)) := by
        unfold pathComponent
        rw [List.drop_eq_getElem_cons (by simp; omega), List.getElem_take]
      rw [componentEnd, if_pos h, hcomponent, List.drop_eq_getElem_cons hlt, splitPathFrom,
        if_neg hget, ih, List.append_assoc, List.singleton_append]
  | case2 start h =>
      have hnil : pathComponent path start start = [] := by
        simp [pathComponent]
      rw [componentEnd, if_neg h, hnil, List.append_nil]
      rcases Nat.lt_or_ge start path.length with hlt | hge
      · have hslash : path[start]? = some slash :=
          Classical.not_not.mp fun hslash => h ⟨hlt, hslash⟩
        obtain ⟨_, hget⟩ := List.getElem?_eq_some_iff.mp hslash
        rw [List.drop_eq_getElem_cons hlt, hget, splitPathFrom, if_pos rfl]
        congr 1
      · rw [List.drop_eq_nil_of_le hge]
        simp [splitPathFrom]

theorem splitPathLoop_eq (path : Str) (start : Nat) :
    splitPathLoop path start = splitPath (path.drop start) := by
  induction start using splitPathLoop.induct path with
  | case1 start hlt first stop ih =>
      rw [splitPathLoop, if_pos hlt]
      change (if first < stop then _ else _) ++ splitPathLoop path stop = _
      rw [ih, splitPath, splitPath, ← splitPathFrom_skipSlashes path start,
        splitPathFrom_componentEnd path [] (skipSlashes path start), List.nil_append]
      congr 1
      obtain ⟨-, hinside, -⟩ := componentEnd_spec path first
      by_cases hfound : first < stop
      · have hne : pathComponent path first stop ≠ [] := by
          have hlast := hinside (stop - 1) (by omega) (by omega)
          intro hnil
          have hlength := congrArg List.length hnil
          simp [pathComponent] at hlength
          omega
        rw [if_pos hfound, if_neg hne]
      · have hnil : pathComponent path first stop = [] := by
          simp [pathComponent]
          omega
        rw [if_neg hfound, if_pos hnil]
  | case2 start hge =>
      rw [splitPathLoop, if_neg hge, List.drop_eq_nil_of_le (Nat.not_lt.mp hge)]
      rfl

/-! ## The parent and the base name -/

/-- A path without a directory. -/
theorem lastComponent_relative {part : Str} (hne : part ≠ []) (hslash : slash ∉ part) (n : Nat) :
    trimSlashes (part ++ List.replicate n slash) (part ++ List.replicate n slash).length =
        part.length ∧
      componentStart (part ++ List.replicate n slash) part.length = 0 := by
  have hpos := List.length_pos_iff.mpr hne
  have hpart : ∀ i < part.length, (part ++ List.replicate n slash)[i]? ≠ some slash := by
    intro i hi heq
    rw [List.getElem?_append_left hi] at heq
    exact hslash (List.mem_of_getElem? heq)
  constructor
  · rw [List.length_append, List.length_replicate, trimSlashes_skip hpos n]
    · obtain ⟨m, hm⟩ : ∃ m, part.length = m + 1 := ⟨part.length - 1, by omega⟩
      rw [hm]
      exact trimSlashes_stop (hpart m (by omega))
    · intro i hi hlt
      rw [List.getElem?_append_right hi, List.getElem?_replicate, if_pos (by omega)]
  · have hskip : componentStart (part ++ List.replicate n slash) (0 + part.length) = _ :=
      componentStart_skip 0 part.length fun i _ hi => hpart i (by omega)
    rw [Nat.zero_add] at hskip
    exact hskip

theorem basenameOf_relative {part : Str} (hne : part ≠ []) (hslash : slash ∉ part) (n : Nat) :
    basenameOf (part ++ List.replicate n slash) = part := by
  obtain ⟨hstop, hstart⟩ := lastComponent_relative hne hslash n
  have hroot : part ++ List.replicate n slash ≠ [slash] := by
    intro heq
    cases part with
    | nil => exact hne rfl
    | cons c part =>
        obtain ⟨rfl, -⟩ := List.cons.inj heq
        exact hslash (List.mem_cons_self ..)
  rw [basenameOf, if_neg hroot]
  simp only [hstop, hstart, pathComponent]
  rw [List.take_left, List.drop_zero]

theorem parentOf_relative {part : Str} (hne : part ≠ []) (hslash : slash ∉ part) (n : Nat) :
    parentOf (part ++ List.replicate n slash) = [slash] := by
  obtain ⟨hstop, hstart⟩ := lastComponent_relative hne hslash n
  unfold parentOf
  simp only [hstop, hstart]
  split
  · rfl
  · rfl

theorem splitPath_relative {part : Str} (hne : part ≠ []) (hslash : slash ∉ part) (n : Nat) :
    splitPath (part ++ List.replicate n slash) = [part] := by
  have hpart : splitPathFrom [] part = [part] := by
    simp [splitPathFrom_component hslash, hne]
  cases n with
  | zero => rw [List.replicate_zero, List.append_nil, splitPath, hpart]
  | succ n =>
      rw [splitPath, List.replicate_succ, splitPathFrom_append_slash, hpart, splitPathFrom_slashes]
      rfl

theorem splitPath_recompose (h : splitPath path ≠ []) :
    splitPath (parentOf path) ++ [basenameOf path] = splitPath path := by
  cases spelled path with
  | slashes n => exact absurd (splitPath_slashes n) h
  | relative part n hne hslash =>
      rw [parentOf_relative hne hslash, basenameOf_relative hne hslash,
        splitPath_relative hne hslash]
      rfl
  | under parent part n hne hslash =>
      rw [parentOf_under parent n hne hslash, basenameOf_under parent n hne hslash,
        splitPath_under hne hslash]
      congr 1
      split
      · next hnil =>
        rw [hnil]
        rfl
      · rfl

/-- The loop of `splitPath` finds the segments of every path in their order.  If there is
one, the last is the base name, and the others are those of the parent. -/
theorem parentOf_basenameOf_recompose (path : Str) :
    (∃ segments : List (Nat × Nat),
      splitPathLoop path 0 = segments.map (fun s => pathComponent path s.1 s.2) ∧
      segments.Pairwise (fun s t => s.2 ≤ t.1) ∧
      ∀ a b, (a, b) ∈ segments ↔ Segment path a b) ∧
    ((∃ a b, Segment path a b) →
      splitPathLoop (parentOf path) 0 ++ [basenameOf path] = splitPathLoop path 0) := by
  obtain ⟨segments, hloop, hsorted, hmem⟩ := splitPathLoop_segments path 0 (.inl rfl)
  have hall : ∀ a b, (a, b) ∈ segments ↔ Segment path a b := fun a b => by
    rw [hmem]
    exact and_iff_left (Nat.zero_le a)
  refine ⟨⟨segments, hloop, hsorted, hall⟩, fun hsome => ?_⟩
  obtain ⟨a, b, hsegment⟩ := hsome
  have hne : splitPathLoop path 0 ≠ [] := by
    intro hnil
    rw [hnil] at hloop
    have hsegments := List.map_eq_nil_iff.mp hloop.symm
    have hmember := (hall a b).mpr hsegment
    rw [hsegments] at hmember
    cases hmember
  rw [splitPathLoop_eq, List.drop_zero] at hne
  rw [splitPathLoop_eq, splitPathLoop_eq, List.drop_zero, List.drop_zero]
  exact splitPath_recompose hne

/-- The path `/a//b/`. -/
def spelledPath : Str := [slash, 97, slash, slash, 98, slash]

theorem parentOf_basenameOf_recompose_spelledPath :
    splitPathLoop (parentOf spelledPath) 0 ++ [basenameOf spelledPath] =
      splitPathLoop spelledPath 0 := by
  refine (parentOf_basenameOf_recompose spelledPath).2 ⟨1, 2, ?_⟩
  refine ⟨by decide, by decide, fun i hi hlt => ?_, .inr rfl, .inr rfl⟩
  obtain rfl : i = 1 := by omega
  decide

end Avery.Fat32
