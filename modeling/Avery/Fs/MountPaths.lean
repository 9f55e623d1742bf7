import Avery.Fs.Routing

/-!
# Mount paths and components

A path is runs of slashes with components between them, and slashes at the end
(`segments`).  `splitPath` keeps the components.  `pathStartsWithMount` compares
characters, so it sees the lengths of the runs as well
(`pathStartsWithMount_iff_segments`): a mount path in which a run is longer or
shorter than in the path does not match, and neither does one that ends in as many
slashes as the path has there.
-/

namespace Avery.Vfs

open Fat32 (slash splitPath splitPathFrom)
open Transition

/-! ## Segments -/

/-- The path that the segments spell, with `t` slashes at the end. -/
def spell : List (Nat × Str) → Nat → Str
  | [], t => List.replicate t slash
  | (k, component) :: segments, t => List.replicate k slash ++ (component ++ spell segments t)

/-- The segments of `k` slashes, `cur` and the path, when no slash is in `cur`, and the
slashes at the end. -/
def segmentsFrom (k : Nat) (cur : Str) : Str → List (Nat × Str) × Nat
  | [] => if cur = [] then ([], k) else ([(k, cur)], 0)
  | c :: path =>
      if c = slash then
        if cur = [] then segmentsFrom (k + 1) [] path
        else
          let rest := segmentsFrom 1 [] path
          ((k, cur) :: rest.1, rest.2)
      else segmentsFrom k (cur ++ [c]) path

/-- Each component of the path with the number of slashes before it, and the number of
slashes at the end. -/
def segments (path : Str) : List (Nat × Str) × Nat := segmentsFrom 0 [] path

structure Proper (segment : Nat × Str) : Prop where
  slashes : 0 < segment.1
  nonempty : segment.2 ≠ []
  noSlash : slash ∉ segment.2

theorem splitPathFrom_eq (k : Nat) (cur path : Str) :
    splitPathFrom cur path = (segmentsFrom k cur path).1.map Prod.snd := by
  induction path generalizing k cur with
  | nil =>
    by_cases hcur : cur = []
    · simp [splitPathFrom, segmentsFrom, hcur]
    · simp [splitPathFrom, segmentsFrom, hcur]
  | cons c path ih =>
    by_cases hc : c = slash
    · by_cases hcur : cur = []
      · simp [splitPathFrom, segmentsFrom, hc, hcur, ih (k + 1)]
      · simp [splitPathFrom, segmentsFrom, hc, hcur, ih 1]
    · simp [splitPathFrom, segmentsFrom, hc, ih k]

theorem splitPath_eq (path : Str) : splitPath path = (segments path).1.map Prod.snd :=
  splitPathFrom_eq 0 [] path

theorem spell_segmentsFrom (k : Nat) (cur path : Str) :
    spell (segmentsFrom k cur path).1 (segmentsFrom k cur path).2 =
      List.replicate k slash ++ (cur ++ path) := by
  induction path generalizing k cur with
  | nil =>
    by_cases hcur : cur = []
    · simp [segmentsFrom, spell, hcur]
    · simp [segmentsFrom, spell, hcur]
  | cons c path ih =>
    by_cases hc : c = slash
    · by_cases hcur : cur = []
      · simp [segmentsFrom, hc, hcur, ih, List.replicate_succ']
      · simp [segmentsFrom, spell, hc, hcur, ih]
    · simp [segmentsFrom, hc, ih]

theorem spell_segments (path : Str) : spell (segments path).1 (segments path).2 = path :=
  spell_segmentsFrom 0 [] path

theorem segmentsFrom_proper {k : Nat} {cur : Str} (hk : 0 < k) (hcur : slash ∉ cur) (path : Str) :
    ∀ s ∈ (segmentsFrom k cur path).1, Proper s := by
  induction path generalizing k cur with
  | nil =>
    intro s hs
    by_cases hnil : cur = []
    · simp [segmentsFrom, hnil] at hs
    · simp only [segmentsFrom, if_neg hnil, List.mem_singleton] at hs
      subst hs
      exact ⟨hk, hnil, hcur⟩
  | cons c path ih =>
    intro s hs
    by_cases hc : c = slash
    · by_cases hnil : cur = []
      · simp only [segmentsFrom, if_pos hc, if_pos hnil] at hs
        exact ih (Nat.succ_pos k) List.not_mem_nil s hs
      · simp only [segmentsFrom, if_pos hc, if_neg hnil, List.mem_cons] at hs
        rcases hs with rfl | hs
        · exact ⟨hk, hnil, hcur⟩
        · exact ih Nat.one_pos List.not_mem_nil s hs
    · simp only [segmentsFrom, if_neg hc] at hs
      refine ih hk ?_ s hs
      simp [hcur, Ne.symm hc]

theorem segments_proper {path : Str} (hpath : path.head? = some slash) :
    ∀ s ∈ (segments path).1, Proper s := by
  cases path with
  | nil => cases hpath
  | cons c path =>
    cases hpath
    exact segmentsFrom_proper Nat.one_pos List.not_mem_nil path

/-! ## Cutting a path -/

/-- A path that ends or goes on with a slash. -/
def Cut (rest : Str) : Prop := rest = [] ∨ rest.head? = some slash

theorem Cut.append {x y : Str} (hx : Cut x) (hy : Cut y) : Cut (x ++ y) := by
  cases x with
  | nil => exact hy
  | cons c x =>
    refine .inr ?_
    rcases hx with hx | hx
    · cases hx
    · simpa using hx

theorem cut_replicate (t : Nat) : Cut (List.replicate t slash) := by
  cases t with
  | zero => exact .inl rfl
  | succ t => exact .inr rfl

theorem cut_spell {segs : List (Nat × Str)} (hsegs : ∀ s ∈ segs, Proper s) (t : Nat) :
    Cut (spell segs t) := by
  cases segs with
  | nil => exact cut_replicate t
  | cons s segs =>
    refine .inr ?_
    obtain ⟨k, hk⟩ := Nat.exists_eq_succ_of_ne_zero (hsegs s List.mem_cons_self).slashes.ne'
    simp [spell, hk, List.replicate_succ]

theorem Proper.head {s : Nat × Str} (h : Proper s) (rest : Str) :
    (s.2 ++ rest).head? ≠ some slash := by
  obtain ⟨c, component, hs⟩ := List.exists_cons_of_ne_nil h.nonempty
  have hno := h.noSlash
  rw [hs] at hno ⊢
  intro hc
  cases hc
  exact hno List.mem_cons_self

/-- Runs of slashes before something else have one length. -/
theorem cut_slashes {j k : Nat} {x y : Str} (hx : x.head? ≠ some slash)
    (hy : y.head? ≠ some slash)
    (h : List.replicate j slash ++ x = List.replicate k slash ++ y) : j = k ∧ x = y := by
  induction j generalizing k with
  | zero =>
    cases k with
    | zero => exact ⟨rfl, h⟩
    | succ k =>
      rw [show x = List.replicate (k + 1) slash ++ y from h] at hx
      exact absurd rfl hx
  | succ j ih =>
    cases k with
    | zero =>
      rw [show y = List.replicate (j + 1) slash ++ x from h.symm] at hy
      exact absurd rfl hy
    | succ k =>
      obtain ⟨rfl, rfl⟩ := ih (List.cons.inj h).2
      exact ⟨rfl, rfl⟩

/-- Components before a cut are the same. -/
theorem cut_component {c d x y : Str} (hc : slash ∉ c) (hd : slash ∉ d) (hx : Cut x) (hy : Cut y)
    (h : c ++ x = d ++ y) : c = d ∧ x = y := by
  induction c generalizing d with
  | nil =>
    cases d with
    | nil => exact ⟨rfl, h⟩
    | cons b d =>
      rw [show x = b :: (d ++ y) from h] at hx
      rcases hx with hx | hx
      · cases hx
      · cases hx
        exact absurd List.mem_cons_self hd
  | cons a c ih =>
    cases d with
    | nil =>
      rw [show y = a :: (c ++ x) from h.symm] at hy
      rcases hy with hy | hy
      · cases hy
      · cases hy
        exact absurd List.mem_cons_self hc
    | cons b d =>
      obtain ⟨rfl, hrest⟩ := List.cons.inj h
      obtain ⟨rfl, rfl⟩ := ih (fun hm => hc (List.mem_cons_of_mem _ hm))
        (fun hm => hd (List.mem_cons_of_mem _ hm)) hrest
      exact ⟨rfl, rfl⟩

/-! ## Matching segments -/

/-- `t` slashes are fewer than those that come next, and no more if nothing comes after
them. -/
def Shorter (t : Nat) : List (Nat × Str) → Nat → Prop
  | [], slashes => t ≤ slashes
  | (k, _) :: _, _ => t < k

theorem spell_prefix_iff {mount path : List (Nat × Str)} (hmount : ∀ s ∈ mount, Proper s)
    (hpath : ∀ s ∈ path, Proper s) (t slashes : Nat) :
    (∃ rest, spell path slashes = spell mount t ++ rest ∧ Cut rest) ↔
      mount <+: path ∧ Shorter t (path.drop mount.length) slashes := by
  induction mount generalizing path with
  | nil =>
    cases path with
    | nil =>
      simp only [spell, List.nil_prefix, true_and, List.length_nil, List.drop_nil, Shorter]
      constructor
      · rintro ⟨rest, h, -⟩
        have hlength := congrArg List.length h
        simp only [List.length_replicate, List.length_append] at hlength
        omega
      · intro h
        refine ⟨List.replicate (slashes - t) slash, ?_, cut_replicate _⟩
        rw [List.replicate_append_replicate, Nat.add_sub_cancel' h]
    | cons s path =>
      have hs := hpath s List.mem_cons_self
      simp only [spell, List.nil_prefix, true_and, List.length_nil, List.drop_zero, Shorter]
      constructor
      · rintro ⟨rest, h, hcut⟩
        by_contra hle
        obtain ⟨n, rfl⟩ := Nat.exists_eq_add_of_le (Nat.le_of_not_lt hle)
        rw [← List.replicate_append_replicate, List.append_assoc] at h
        have hrest := List.append_cancel_left h
        refine hs.head (spell path slashes) ?_
        rw [hrest]
        cases n with
        | zero =>
          rcases hcut with rfl | hcut
          · rw [List.append_nil] at hrest
            exact absurd (List.append_eq_nil_iff.mp hrest).1 hs.nonempty
          · exact hcut
        | succ n => rfl
      · intro h
        refine ⟨List.replicate (s.1 - t) slash ++ (s.2 ++ spell path slashes), ?_, .inr ?_⟩
        · rw [← List.append_assoc (List.replicate t slash), List.replicate_append_replicate,
            Nat.add_sub_cancel' h.le]
        · obtain ⟨n, hn⟩ := Nat.exists_eq_succ_of_ne_zero (Nat.sub_ne_zero_of_lt h)
          simp [hn, List.replicate_succ]
  | cons m mount ih =>
    have hm := hmount m List.mem_cons_self
    have hmount' : ∀ s ∈ mount, Proper s := fun s hs => hmount s (List.mem_cons_of_mem _ hs)
    cases path with
    | nil =>
      -- a component is left, but only slashes
      simp only [List.prefix_nil, reduceCtorEq, false_and, iff_false]
      rintro ⟨rest, h, -⟩
      obtain ⟨c, hc⟩ := List.exists_mem_of_ne_nil _ hm.nonempty
      have hmem : c ∈ List.replicate slashes slash := by
        rw [show List.replicate slashes slash = spell [] slashes from rfl, h]
        simp [spell, hc]
      exact hm.noSlash (List.eq_of_mem_replicate hmem ▸ hc)
    | cons s path =>
      have hs := hpath s List.mem_cons_self
      have hpath' : ∀ s ∈ path, Proper s := fun s hs => hpath s (List.mem_cons_of_mem _ hs)
      rw [List.cons_prefix_cons, List.length_cons, List.drop_succ_cons, and_assoc,
        ← ih hmount' hpath']
      constructor
      · rintro ⟨rest, h, hcut⟩
        simp only [spell, List.append_assoc] at h
        obtain ⟨hslashes, hrest⟩ := cut_slashes (hs.head _) (hm.head _) h
        obtain ⟨hcomponent, hrest⟩ := cut_component hs.noSlash hm.noSlash
          (cut_spell hpath' slashes) ((cut_spell hmount' t).append hcut) hrest
        exact ⟨Prod.ext hslashes.symm hcomponent.symm, rest, hrest, hcut⟩
      · rintro ⟨rfl, rest, h, hcut⟩
        refine ⟨rest, ?_, hcut⟩
        simp only [spell, List.append_assoc]
        rw [h]

/-- The mount path is written in the path with the same slashes, and the path goes on
with more of them. -/
def SameSlashes (path mountPath : Str) : Prop :=
  (segments mountPath).1 <+: (segments path).1 ∧
    Shorter (segments mountPath).2 ((segments path).1.drop (segments mountPath).1.length)
      (segments path).2

theorem pathStartsWithMount_iff_segments {path mountPath : Str}
    (hpath : path.head? = some slash) (hmount : mountPath.head? = some slash)
    (hroot : mountPath ≠ [slash]) :
    pathStartsWithMount path mountPath = true ↔ SameSlashes path mountPath := by
  rw [pathStartsWithMount_iff hroot, SameSlashes,
    ← spell_prefix_iff (segments_proper hmount) (segments_proper hpath),
    spell_segments, spell_segments]
  rfl

/-- Matching is the comparison of components unless the slashes differ. -/
theorem match_components_iff {path mountPath : Str} (hvalid : isValidMountPath mountPath = true)
    (hpath : path.head? = some slash) :
    (pathStartsWithMount path mountPath = true ↔ splitPath mountPath <+: splitPath path) ↔
      mountPath = [slash] ∨ ¬ splitPath mountPath <+: splitPath path ∨
        SameSlashes path mountPath := by
  have hmount : mountPath.head? = some slash := by
    obtain ⟨rest, rfl⟩ := isValidMountPath_iff.mp hvalid
    rfl
  by_cases hroot : mountPath = [slash]
  · subst hroot
    have hmatch : pathStartsWithMount path [slash] = true := by
      cases path with
      | nil => cases hpath
      | cons c path =>
        cases hpath
        rfl
    simp [hmatch, splitPath, splitPathFrom]
  · have hcomponents : SameSlashes path mountPath → splitPath mountPath <+: splitPath path := by
      intro h
      rw [splitPath_eq, splitPath_eq]
      exact h.1.map Prod.snd
    rw [pathStartsWithMount_iff_segments hpath hmount hroot]
    by_cases hpre : splitPath mountPath <+: splitPath path
    · simp [hroot, hpre]
    · have hno : ¬ SameSlashes path mountPath := fun h => hpre (hcomponents h)
      simp [hpre, hno]

/-- `/a` and `/a/b`. -/
theorem match_components_iff_nested :
    (pathStartsWithMount [slash, 97, slash, 98] [slash, 97] = true ↔
        splitPath [slash, 97] <+: splitPath [slash, 97, slash, 98]) ↔
      ([slash, 97] : Str) = [slash] ∨
        ¬ splitPath [slash, 97] <+: splitPath [slash, 97, slash, 98] ∨
        SameSlashes [slash, 97, slash, 98] [slash, 97] :=
  match_components_iff (by decide) (by decide)

/-- `/a/` is accepted as a mount path, and `/a/b` does not match it. -/
theorem trailing_slash_does_not_match :
    ¬ ∀ path mountPath : Str, isValidMountPath mountPath = true → path.head? = some slash →
      (pathStartsWithMount path mountPath = true ↔ splitPath mountPath <+: splitPath path) := by
  intro h
  have hpre : splitPath [slash, 97, slash] <+: splitPath [slash, 97, slash, 98] := by decide
  have hmatch := (h [slash, 97, slash, 98] [slash, 97, slash] (by decide) (by decide)).mpr hpre
  exact absurd hmatch (by decide)

end Avery.Vfs
