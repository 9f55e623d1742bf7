import Avery.Fs.Paths

/-!
# Names

What `makeShortName` makes of a name, what the eleven bytes stand for when they are
read back (`decodeShortName`), and the comparison of names without regard to case.
-/

namespace Avery.Fat32

/-- The name that the eleven bytes of a short name stand for. -/
def decodeShortName (name : Str) : Str :=
  let base := (name.take 8).rdropWhile (· = space)
  let ext := (name.drop 8).rdropWhile (· = space)
  cStr (base.map toLower ++ if ext = [] then [] else dot :: ext.map toLower)

theorem namesEqual_iff {a b : Str} : namesEqual a b = true ↔ a.map toLower = b.map toLower := by
  simp [namesEqual]

theorem isDotEntry_iff {name : Str} : isDotEntry name = true ↔ name = [dot] ∨ name = [dot, dot] := by
  simp [isDotEntry]

theorem toLower_eq_dot {c : UInt8} (h : toLower c = dot) : c = dot := by
  unfold toLower at h
  split at h
  · next hc =>
    obtain ⟨h₁, h₂⟩ := hc
    simp only [UInt8.le_iff_toNat_le] at h₁ h₂
    have h₃ := congrArg UInt8.toNat h
    simp only [dot, UInt8.toNat_add] at h₁ h₂ h₃
    simp at h₁ h₂ h₃
    omega
  · exact h

/-- Names that are compared without regard to case are dot names together. -/
theorem isDotEntry_congr {a b : Str} (h : namesEqual a b = true) : isDotEntry a = isDotEntry b := by
  have hmap := namesEqual_iff.mp h
  have hdots : ∀ {s : Str} {n : Nat}, s.map toLower = List.replicate n dot →
      s = List.replicate n dot := by
    intro s n hs
    refine List.eq_replicate_iff.mpr ⟨by simpa using congrArg List.length hs, fun c hc => ?_⟩
    refine toLower_eq_dot (List.eq_of_mem_replicate (n := n) ?_)
    rw [← hs]
    exact List.mem_map_of_mem hc
  have hlower : ∀ n : Nat, (List.replicate n dot).map toLower = List.replicate n dot := by
    intro n
    rw [List.map_replicate]
    rfl
  have hone : ∀ {s t : Str}, s.map toLower = t.map toLower → ∀ n, s = List.replicate n dot →
      t = List.replicate n dot := fun hst n hs => hdots (by rw [← hst, hs, hlower])
  have hiff : isDotEntry a = true ↔ isDotEntry b = true := by
    rw [isDotEntry_iff, isDotEntry_iff]
    exact ⟨Or.imp (hone hmap 1) (hone hmap 2), Or.imp (hone hmap.symm 1) (hone hmap.symm 2)⟩
  exact Bool.eq_iff_iff.mpr hiff

/-- What `makeShortName` has accepted. -/
theorem makeShortName_eq_some {name short : Str} (h : makeShortName name = some short) :
    ∃ base ext, base = name.takeWhile (· ≠ dot) ∧ ext = (name.dropWhile (· ≠ dot)).drop 1 ∧
      slash ∉ name ∧ name.count dot ≤ 1 ∧ base ≠ [] ∧ base.length ≤ 8 ∧ ext.length ≤ 3 ∧
      short = padded 8 (base.map toUpper) ++ padded 3 (ext.map toUpper) := by
  refine ⟨_, _, rfl, rfl, ?_⟩
  unfold makeShortName at h
  split at h
  · cases h
  next hname =>
  simp only [not_or] at hname
  simp only at h
  split at h
  · cases h
  next hlength =>
  simp only [not_or, Nat.not_lt, List.length_eq_zero_iff] at hlength
  exact ⟨hname.2.1, Nat.not_lt.mp hname.2.2, hlength.1, hlength.2.1, hlength.2.2,
    (Option.some.inj h).symm⟩

theorem makeShortName_length {name short : Str} (h : makeShortName name = some short) :
    short.length = 11 := by
  obtain ⟨base, ext, _, _, _, _, _, hbase, hext, rfl⟩ := makeShortName_eq_some h
  simp only [padded, List.length_append, List.length_map, List.length_replicate]
  omega

/-- A short name begins with the first character of the name. -/
theorem makeShortName_first {name short : Str} (h : makeShortName name = some short) :
    ∃ c rest, name = c :: rest ∧ c ≠ dot ∧ short.getD 0 0 = toUpper c := by
  obtain ⟨base, ext, hbase, _, _, _, hne, _, _, rfl⟩ := makeShortName_eq_some h
  cases name with
  | nil => exact absurd hbase hne
  | cons c rest =>
      by_cases hc : c = dot
      · simp [hc] at hbase
        exact absurd hbase hne
      · refine ⟨c, rest, rfl, hc, ?_⟩
        rw [hbase, List.takeWhile_cons, if_pos (by simpa using hc)]
        rfl

theorem toUpper_ne_dot {c : UInt8} (h : c ≠ dot) : toUpper c ≠ dot := by
  unfold toUpper
  split
  · next hc =>
    obtain ⟨h₁, h₂⟩ := hc
    simp only [UInt8.le_iff_toNat_le] at h₁ h₂
    intro heq
    have h₃ := congrArg UInt8.toNat heq
    simp [UInt8.toNat_sub, dot] at h₁ h₂ h₃
    omega
  · exact h

/-- No short name that is made is a dot name. -/
theorem makeShortName_not_dot {name short : Str} (h : makeShortName name = some short) :
    short ≠ fillDotName false ∧ short ≠ fillDotName true := by
  obtain ⟨c, rest, rfl, hc, hfirst⟩ := makeShortName_first h
  have hne := toUpper_ne_dot hc
  rw [← hfirst] at hne
  constructor
  · rintro rfl
    exact hne rfl
  · rintro rfl
    exact hne rfl

end Avery.Fat32
