import Avery.Fs.Changes
import Avery.Fs.Contents

/-!
# Changes of an open file

While a file is open, its handle tells the first cluster of its chain.  A handle may give the
file another chain (`WellFormed.file_change`), and `flush` writes what the handle knows to the
slot of the file (`Rewrite.flushed`).
-/

namespace Avery.Fat32

namespace Disk

variable {d d' : Disk} {held : Nat × Nat → Option Nat} {strict : Prop} {x f f' : Nat} {p : Listed}
  {xs xs' : List Nat}

/-- The file `p` has an entry in the directory `x`. -/
structure File (d : Disk) (x : Nat) (p : Listed) : Prop where
  reachable : d.Reachable x
  entry : d.Entry x p
  file : ¬ p.IsDirectory

/-- The head of a file is told by its place. -/
theorem Owns.head_eq {D : Nat → Prop} {q : Nat × Nat} {c : Nat} (h : d.Owns held D (.file q) c)
    (hq : held q = some f) : c = f ∧ 2 ≤ f := by
  cases h with
  | file _ _ _ hhead =>
      rw [head, hq, Option.getD_some] at hhead ⊢
      exact ⟨rfl, hhead⟩

theorem File.owns (h : d.File x p) (hheld : held p.place = some f) (hf : 2 ≤ f) :
    d.Owns held d.Reachable (.file p.place) f := by
  have hhead : head held p = f := by rw [head, hheld, Option.getD_some]
  have hown : d.Owns held d.Reachable (.file p.place) (head held p) :=
    .file h.reachable h.entry h.file (hhead.symm ▸ hf)
  rwa [hhead] at hown

/-- A member of a file's chain is owned by the file. -/
theorem File.owned (h : d.File x p) (hd : d.Unmarked) (hheld : held p.place = some f)
    (hleads : d.Leads f xs) {c : Nat} (hc : c ∈ xs) : d.Owned held d.Reachable (.file p.place) c := by
  rcases hleads with ⟨_, rfl⟩ | ⟨hvalid, hchain⟩
  · cases hc
  · exact ⟨f, h.owns hheld hvalid.1, (hchain.chain_eq hd).symm ▸ hc⟩

/-- A file gets another chain, of clusters it had and of free ones. -/
theorem WellFormed.file_change (hd : d.WellFormed held) (hp : d.File x p)
    (hheld : held p.place = some f) (hleads : d.Leads f xs) (hshape : SameShape d d')
    (hkept : ∀ c ∉ xs, d.fat c ≠ 0 → d'.fat c = d.fat c ∧ d'.data c = d.data c)
    (hfresh : ∀ c ∈ xs', c ∉ xs → d.fat c = 0) (hleads' : d'.Leads f' xs')
    (hlost : strict → ∀ c ∉ xs', d'.fat c = 0 ∨ c ∉ xs ∧ d'.fat c = d.fat c) :
    Change strict none held d (Function.update held p.place (some f')) d' := by
  have howned : ∀ {o c}, o ≠ .file p.place → d.Owned held d.Reachable o c → c ∉ xs := by
    rintro o c ho ⟨g, hg, hc⟩ hmem
    obtain ⟨g', hg', hc'⟩ := hp.owned hd.unmarked hheld hleads hmem
    exact ho (hd.apart hg hg' hc hc')
  have hspares : Spares d d' held d.Reachable (some (.file p.place)) := by
    refine ⟨hshape, fun {o c} ho hown => ?_⟩
    exact hkept c (howned (fun heq => ho (congrArg some heq)) hown) (hd.fat_ne_free hown)
  have hupdate : ∀ q, q ≠ p.place → Function.update held p.place (some f') q = held q :=
    fun q hq => Function.update_of_ne hq ..
  have hsame : Function.update held p.place (some f') p.place = some f' := Function.update_self ..
  have hnot : ∀ c ∈ xs', ∀ o, o ≠ .file p.place → ¬ d.Owned held d.Reachable o c := by
    intro c hc o ho hown
    exact hd.not_owned (hfresh c hc (howned ho hown)) hown
  have hwf := hspares.file hd hupdate fun {c} hc => by
    obtain ⟨rfl, htwo⟩ := hc.head_eq hsame
    obtain ⟨hvalid, hchain⟩ := hleads'.chain htwo
    exact ⟨hshape.valid.mp hvalid, xs', hchain, hnot⟩
  have htree := hspares.sameTree hd fun c => by simp
  refine ⟨hshape.root, hwf.wellFormed, htree.keeps hd none, fun hs c hc => ?_⟩
  have hreach : ∀ {y}, d'.Reachable y ↔ d.Reachable y := htree.reachable_iff hd
  have hp' : d'.File x p := ⟨hreach.mpr hp.reachable, (htree.entry hp.reachable).mpr hp.entry, hp.file⟩
  -- a cluster of the new chain is not lost
  have hout : c ∉ xs' := fun hmem =>
    hc.unowned _ (hp'.owned (hshape.unmarked hd.unmarked) hsame hleads' hmem)
  obtain ⟨hxs, hfat⟩ := (hlost hs c hout).resolve_left hc.used
  refine hc.of_owned hshape hfat fun o hown => ⟨o, ?_⟩
  have ho : o ≠ .file p.place := by
    rintro rfl
    obtain ⟨g, hg, hmem⟩ := hown
    obtain ⟨rfl, htwo⟩ := hg.head_eq hheld
    exact hxs (hleads.chain_eq hd.unmarked ▸ hmem)
  obtain ⟨g, hg, hmem⟩ := hown
  refine ⟨g, ?_, (hspares.chain hd (fun heq => ho (Option.some.inj heq)) hg).2.symm ▸ hmem⟩
  have hg' := htree.owns_iff.mpr (hg.of_held (fun q hq => (hupdate q hq).symm) ho)
  exact hg'.mono fun _ => hreach.mpr

/-- A file's chain is ended at one of its clusters, and the rest is freed. -/
theorem WellFormed.cut_file {ys zs : List Nat} {c : Nat} (hd : d.WellFormed held)
    (hp : d.File x p) (hheld : held p.place = some f) (hfirst : d.Valid f)
    (hchain : d.Chain f (ys ++ c :: zs)) :
    Change strict none held d held ((d.freeAll zs).setFat c 0x0FFFFFFF) ∧
      ((d.freeAll zs).setFat c 0x0FFFFFFF).Chain f (ys ++ [c]) := by
  have hnodup := hchain.nodup hd.unmarked
  rw [List.nodup_append, List.nodup_cons] at hnodup
  obtain ⟨_, ⟨hc, _⟩, hys⟩ := hnodup
  have hfat : ∀ e, e ≠ c → e ∉ zs → ((d.freeAll zs).setFat c 0x0FFFFFFF).fat e = d.fat e := by
    intro e he hnot
    rw [fat_setFat_of_ne he]
    simp [freeAll, hnot]
  have hcut : ((d.freeAll zs).setFat c 0x0FFFFFFF).Chain f (ys ++ [c]) := by
    refine Chains.Chain.cut ?_ (fun e he => hfat e ?_ ?_) hchain
    · rw [fat_setFat_same]
      rfl
    · exact hys e he c (List.mem_cons_self ..)
    · exact fun hmem => hys e he e (List.mem_cons_of_mem _ hmem) rfl
  refine ⟨?_, hcut⟩
  have hupdate : Function.update held p.place (some f) = held := by
    rw [← hheld, Function.update_eq_self]
  have hchange : Change strict none held d (Function.update held p.place (some f))
      ((d.freeAll zs).setFat c 0x0FFFFFFF) := by
    refine hd.file_change hp hheld (.inr ⟨hfirst, hchain⟩) ⟨rfl, rfl, rfl⟩
      (fun e he _ => ⟨hfat e ?_ ?_, rfl⟩) (fun e he hnot => ?_) (.inr ⟨hfirst, hcut⟩) fun _ e he => ?_
    · rintro rfl
      exact he (by simp)
    · exact fun hmem => he (by simp [hmem])
    · refine absurd ?_ hnot
      simp only [List.mem_append, List.mem_cons, List.not_mem_nil, or_false] at he ⊢
      tauto
    · have hec : e ≠ c := by
        rintro rfl
        exact he (by simp)
      by_cases hmem : e ∈ zs
      · left
        rw [fat_setFat_of_ne hec]
        simp [freeAll, hmem]
      · refine .inr ⟨fun hin => he ?_, hfat e hec hmem⟩
        simp only [List.mem_append, List.mem_cons, List.not_mem_nil, or_false] at hin ⊢
        tauto
  rwa [hupdate] at hchange

/-! ## Opening and closing -/

/-- A handle that tells what the entry says. -/
theorem WellFormed.attach (hd : d.WellFormed held) (hp : d.File x p) (hheld : held p.place = none) :
    Change strict none held d (Function.update held p.place (some p.firstCluster)) d := by
  have howns : ∀ {o c}, d.Owns (Function.update held p.place (some p.firstCluster)) d.Reachable o c ↔
      d.Owns held d.Reachable o c := by
    intro o c
    have hhead : ∀ {y q}, d.Reachable y → d.Entry y q →
        head (Function.update held p.place (some p.firstCluster)) q = head held q := by
      intro y q hy hq
      unfold head
      by_cases hplace : q.place = p.place
      · obtain ⟨_, rfl⟩ := hd.listed_unique hy hp.reachable hq.listed hp.entry.listed hplace
        rw [Function.update_self, hheld, Option.getD_some, Option.getD_none]
      · rw [Function.update_of_ne hplace]
    constructor
    · rintro (hc | ⟨hy, hq, hfile, htwo⟩)
      · exact .directory hc
      · rw [hhead hy hq] at htwo ⊢
        exact .file hy hq hfile htwo
    · rintro (hc | ⟨hy, hq, hfile, htwo⟩)
      · exact .directory hc
      · rw [← hhead hy hq] at htwo ⊢
        exact .file hy hq hfile htwo
  refine ⟨rfl, ?_, .refl d none, fun _ c hc => hc.of_owned (.refl d) rfl fun o hown => ⟨o, ?_⟩⟩
  · exact {
      hd with
      chain := fun hown => hd.chain (howns.mp hown)
      apart := fun hown hown' => hd.apart (howns.mp hown) (howns.mp hown') }
  · obtain ⟨g, hg, hmem⟩ := hown
    exact ⟨g, howns.mpr hg, hmem⟩

/-- A handle that goes, after the entry says what it told. -/
theorem WellFormed.detach (hd : d.WellFormed held) (hp : d.File x p) (hheld : held p.place = some f)
    (hclean : p.firstCluster = f ∨ p.firstCluster < 2)
    (hs : strict → p.firstCluster = f ∨ f < 2) :
    Change strict none held d (Function.update held p.place none) d := by
  have howns : ∀ {o c}, d.Owns (Function.update held p.place none) d.Reachable o c →
      d.Owns held d.Reachable o c := by
    rintro o c (hc | ⟨hy, hq, hfile, htwo⟩)
    · exact .directory hc
    · next y q =>
      by_cases hplace : q.place = p.place
      · obtain ⟨_, rfl⟩ := hd.listed_unique hy hp.reachable hq.listed hp.entry.listed hplace
        have hhead : head (Function.update held q.place none) q = q.firstCluster := by
          rw [head, Function.update_self, Option.getD_none]
        rw [hhead] at htwo ⊢
        have heq := hclean.resolve_right (Nat.not_lt.mpr htwo)
        exact heq ▸ hp.owns hheld (heq ▸ htwo)
      · have hhead : head (Function.update held p.place none) q = head held q := by
          rw [head, Function.update_of_ne hplace, head]
        rw [hhead] at htwo ⊢
        exact .file hy hq hfile htwo
  refine ⟨rfl, {
      hd with
      chain := fun hown => hd.chain (howns hown)
      apart := fun hown hown' => hd.apart (howns hown) (howns hown') }, .refl d none,
    fun hstrict c hc => hc.of_owned (.refl d) rfl fun o hown => ⟨o, ?_⟩⟩
  obtain ⟨g, hg, hmem⟩ := hown
  refine ⟨g, ?_, hmem⟩
  by_cases ho : o = .file p.place
  · subst ho
    obtain ⟨rfl, htwo⟩ := hg.head_eq hheld
    have heq := (hs hstrict).resolve_right (Nat.not_lt.mpr htwo)
    have hhead : head (Function.update held p.place none) p = p.firstCluster := by
      rw [head, Function.update_self, Option.getD_none]
    have hown : d.Owns (Function.update held p.place none) d.Reachable (.file p.place)
        (head (Function.update held p.place none) p) :=
      .file hp.reachable hp.entry hp.file (by rw [hhead, heq]; exact htwo)
    rw [hhead, heq] at hown
    exact hown
  · exact hg.of_held (fun q hq => (Function.update_of_ne hq ..).symm) ho

/-! ## Writing the slot -/

/-- The slot of an open file is written with the first cluster that its handle tells. -/
theorem Rewrite.flushed (strict : Prop) {s' : Slot}
    (h : Rewrite d x p.slot s' [p] [⟨s', p.lfn, p.index⟩] d') (hd : d.WellFormed held)
    (hp : d.File x p) (hheld : held p.place = some f) (hname : s'.name = p.slot.name)
    (hattr : s'.attributes = p.slot.attributes) :
    Change strict (some p.place) held d held d' ∧ d'.File x ⟨s', p.lfn, p.index⟩ ∧
      s'.place = p.place := by
  have hfile : ¬ (⟨s', p.lfn, p.index⟩ : Listed).IsDirectory := by
    rw [Listed.IsDirectory, hattr]
    exact hp.file
  have hplace : s'.place = p.place := (h.new_place (List.mem_singleton.mpr rfl)).2.1
  have hreal : x = d.root ∨ ¬ s'.IsDot := by
    refine hp.entry.real.imp id fun hnot => ?_
    unfold Slot.IsDot at hnot ⊢
    rwa [hname]
  have hhead : head held (⟨s', p.lfn, p.index⟩ : Listed) = f := by
    have hplace' : (⟨s', p.lfn, p.index⟩ : Listed).place = p.place := hplace
    rw [head, hplace', hheld, Option.getD_some]
  have hwf := hd.rewrite hp.reachable h (hp.entry.real.imp id .inl)
    (fun q hq hne => by
      rw [List.mem_singleton.mp hq]
      exact hreal.resolve_left hne)
    (fun q hq hdir => by
      rw [List.mem_singleton.mp hq] at hdir
      exact absurd hdir hfile)
    (fun q hq _ htwo => by
      rw [List.mem_singleton.mp hq, hhead] at htwo ⊢
      have hown := hp.owns hheld htwo
      obtain ⟨hvalid, hchain⟩ := hd.chain hown
      refine ⟨hvalid, _, hchain, fun e he o ho hother => ?_⟩
      obtain ⟨g, hg, he'⟩ := hother
      exact ho (hd.apart hg hown he' he))
  have hold : ∀ q ∈ [p], ¬ d.Child x q := by
    intro q hq hchild
    rw [List.mem_singleton.mp hq] at hchild
    exact hp.file hchild.directory
  have hreach : ∀ {y}, d.Reachable y → d'.Reachable y :=
    h.reachable hd hp.reachable fun q hq hchild => absurd hchild (hold q hq)
  have hp' : d'.File x ⟨s', p.lfn, p.index⟩ := ⟨hreach hp.reachable,
    (h.entry_iff hd hp.reachable hp.reachable).mpr (.inr ⟨rfl, List.mem_singleton.mpr rfl, hreal⟩),
    hfile⟩
  refine ⟨⟨h.shape.root, hwf.wellFormed, h.keeps hd hp.reachable
    fun q hq hchild => absurd hchild (hold q hq), fun _ c hc => ?_⟩, hp', hplace⟩
  refine hc.of_owned h.shape (congrFun h.fat_eq c) fun o hown => ⟨o, ?_⟩
  obtain ⟨g, hg, hmem⟩ := hown
  refine ⟨g, ?_, h.chain_eq ▸ hmem⟩
  rcases hg with hy | ⟨hy, hq, hnot, htwo⟩
  · exact .directory (hreach hy)
  · next y q =>
    by_cases heq : q.place = p.place
    · obtain ⟨_, rfl⟩ := hd.listed_unique hy hp.reachable hq.listed hp.entry.listed heq
      rw [head, hheld, Option.getD_some] at htwo ⊢
      have hheld' : held s'.place = some f := by
        rw [hplace]
        exact hheld
      have hown := hp'.owns hheld' htwo
      change d'.Owns held d'.Reachable (.file s'.place) f at hown
      rwa [hplace] at hown
    · exact .file (hreach hy) ((h.entry_iff hd hp.reachable hy).mpr (.inl ⟨hq, heq⟩)) hnot htwo

end Disk

end Avery.Fat32
