import Avery.Library.Cells
import Avery.Library.Owners
import Avery.Library.Transition
import Avery.Kernel.Types
import Mathlib.Data.List.DropRight

/-!
# Strings

The `string` of `types.cpp`: an array of `capacity + 1` characters, the first `len` of
which are the content, with a NUL behind them.  It is never without an array: a string that
was moved away gets a new one of one character.

`memory::copy` counts with an `int`, so it copies what it should only below `2 ^ 31`.
-/

namespace Avery.Utils

open Blocks Transition

/-- The `string` of the kernel. -/
structure KString where
  data : Nat
  len : Nat
  capacity : Nat

/-- What a `cstring` points to. -/
structure CString where
  chars : List UInt8
  nul : 0 ∉ chars

/-- The characters in memory, with the NUL behind them. -/
def CString.block (text : CString) : Block UInt8 :=
  ⟨text.chars.length + 1, fun i => text.chars.getD i 0⟩

/-- The loops that look for the NUL, from the index `i` on. -/
def textLength (text : Block UInt8) (i : Nat) : Except Fault Nat :=
  if i < text.size then
    if text.cells i ≠ 0 then textLength text (i + 1) else .ok i
  else .error .access
termination_by text.size - i

/-- `memory::copy`, with the count cast to `int`. -/
def copy (src : Store UInt8 → Nat → Except Fault UInt8) (dest off count : Nat) (s : Store UInt8) :
    Except Fault (Store UInt8) :=
  copyCells src dest off (Words.toSigned 32 count).toNat s

/-- The loops that compare `n` characters, from the index `i` on. -/
def sameChars (f g : Nat → Except Fault UInt8) (i : Nat) : Nat → Except Fault Bool
  | 0 => .ok true
  | n + 1 => do
      let c ← f i
      let d ← g i
      if c ≠ d then return false
      sameChars f g (i + 1) n

def isSpace (c : UInt8) : Bool := c = 32 || c = 10 || c = 13 || c = 9 || c = 11 || c = 12

/-! ## The operations -/

namespace KString

/-- A new array with the first `len` characters of a source and a NUL. -/
def newData (s : Store UInt8) (g : Grant UInt8) (src : Store UInt8 → Nat → Except Fault UInt8)
    (len capacity : Nat) : Except Fault (Nat × Store UInt8) := do
  let (data, s) ← s.new g (add64 capacity 1)
  let s ← copy src data 0 len s
  let s ← s.write data len 0
  return (data, s)

def new (s : Store UInt8) (g : Grant UInt8) : Except Fault (KString × Store UInt8) := do
  let (data, s) ← s.new g 1
  let s ← s.write data 0 0
  return (⟨data, 0, 0⟩, s)

def construct (s : Store UInt8) (g : Grant UInt8) (str : CString) :
    Except Fault (KString × Store UInt8) := do
  let len ← textLength str.block 0
  let (data, s) ← newData s g (fun _ i => str.block.read i) len len
  return (⟨data, len, len⟩, s)

def copyConstruct (s : Store UInt8) (g : Grant UInt8) (other : KString) :
    Except Fault (KString × Store UInt8) := do
  let (data, s) ← newData s g (fun s i => s.read other.data i) other.len other.capacity
  return ({ other with data := data }, s)

/-- The new string, and then the one that is left. -/
def moveConstruct (s : Store UInt8) (g : Grant UInt8) (other : KString) :
    Except Fault ((KString × KString) × Store UInt8) := do
  let (left, s) ← new s g
  return ((other, left), s)

def copyAssign (s : Store UInt8) (g : Grant UInt8) (v other : KString) :
    Except Fault (KString × Store UInt8) := do
  let (data, s) ← newData s g (fun s i => s.read other.data i) other.len other.capacity
  let s ← s.delete v.data
  return ({ other with data := data }, s)

def moveAssign (s : Store UInt8) (g : Grant UInt8) (v other : KString) :
    Except Fault ((KString × KString) × Store UInt8) := do
  let s ← s.delete v.data
  moveConstruct s g other

/-- `operator==`. -/
def equals (s : Store UInt8) (v other : KString) : Except Fault Bool :=
  if other.len ≠ v.len then .ok false else sameChars (s.read v.data) (s.read other.data) 0 other.len

def startsWith (s : Store UInt8) (v other : KString) : Except Fault Bool :=
  if v.len < other.len then .ok false else sameChars (s.read v.data) (s.read other.data) 0 other.len

/-- `operator[]`. -/
def get (s : Store UInt8) (v : KString) (index : Nat) : Except Fault (Option UInt8) := do
  if v.len ≤ index then return none
  return some (← s.read v.data index)

def clear (s : Store UInt8) (v : KString) : Except Fault (KString × Store UInt8) := do
  let s ← s.write v.data 0 0
  return ({ v with len := 0 }, s)

def reserve (s : Store UInt8) (g : Grant UInt8) (v : KString) (newCapacity : Nat) :
    Except Fault (KString × Store UInt8) := do
  if newCapacity ≤ v.capacity then return (v, s)
  let (data, s) ← newData s g (fun s i => s.read v.data i) v.len newCapacity
  let s ← s.delete v.data
  return ({ v with data := data, capacity := newCapacity }, s)

/-- The characters of a source are put behind those of the string. -/
def appendFrom (s : Store UInt8) (g : Grant UInt8) (v : KString) (src : Nat → Except Fault UInt8)
    (count : Nat) : Except Fault (KString × Store UInt8) := do
  let (v, s) ← reserve s g v (add64 v.len count)
  let s ← copy (fun _ i => src i) v.data v.len count s
  let len := add64 v.len count
  let s ← s.write v.data len 0
  return ({ v with len := len }, s)

def appendChar (s : Store UInt8) (g : Grant UInt8) (v : KString) (c : UInt8) :
    Except Fault (KString × Store UInt8) :=
  appendFrom s g v (fun _ => .ok c) 1

def append (s : Store UInt8) (g : Grant UInt8) (v : KString) (text : CString) :
    Except Fault (KString × Store UInt8) := do
  let textLength ← textLength text.block 0
  appendFrom s g v text.block.read textLength

/-- The characters of the string are shifted, and those of a source put in front of them. -/
def prependFrom (s : Store UInt8) (g : Grant UInt8) (v : KString) (src : Nat → Except Fault UInt8)
    (count : Nat) : Except Fault (KString × Store UInt8) := do
  let (v, s) ← reserve s g v (add64 v.len count)
  let s ← shiftUp v.data count v.len s
  let s ← copy (fun _ i => src i) v.data 0 count s
  let len := add64 v.len count
  let s ← s.write v.data len 0
  return ({ v with len := len }, s)

/-- The one character is written by an assignment. -/
def prependChar (s : Store UInt8) (g : Grant UInt8) (v : KString) (c : UInt8) :
    Except Fault (KString × Store UInt8) :=
  prependFrom s g v (fun _ => .ok c) 1

def prepend (s : Store UInt8) (g : Grant UInt8) (v : KString) (text : CString) :
    Except Fault (KString × Store UInt8) := do
  let textLength ← textLength text.block 0
  if textLength = 0 then return (v, s)
  prependFrom s g v text.block.read textLength

/-- The character that was removed, or NUL. -/
def popBack (s : Store UInt8) (v : KString) : Except Fault (UInt8 × KString × Store UInt8) := do
  if v.len = 0 then return (0, v, s)
  let len := v.len - 1
  let c ← s.read v.data len
  let s ← s.write v.data len 0
  return (c, { v with len := len }, s)

/-- The text may be the null pointer. -/
def removePrefix (s : Store UInt8) (v : KString) :
    Option CString → Except Fault (KString × Store UInt8)
  | none => .ok (v, s)
  | some text => do
      if v.data = 0 then return (v, s)
      let prefixLength ← textLength text.block 0
      if prefixLength = 0 ∨ v.len < prefixLength then return (v, s)
      let same ← sameChars (s.read v.data) text.block.read 0 prefixLength
      if !same then return (v, s)
      let s ← shiftDown v.data prefixLength (v.len - prefixLength + 1) s
      return ({ v with len := v.len - prefixLength }, s)

def removeSuffix (s : Store UInt8) (v : KString) :
    Option CString → Except Fault (KString × Store UInt8)
  | none => .ok (v, s)
  | some text => do
      if v.data = 0 then return (v, s)
      let suffixLength ← textLength text.block 0
      if suffixLength = 0 ∨ v.len < suffixLength then return (v, s)
      let start := v.len - suffixLength
      let same ← sameChars (fun i => s.read v.data (start + i)) text.block.read 0 suffixLength
      if !same then return (v, s)
      let s ← s.write v.data start 0
      return ({ v with len := v.len - suffixLength }, s)

/-- The first of the next `n` characters that is no space, from the index `start` on. -/
def trimStart (read : Nat → Except Fault UInt8) (start : Nat) : Nat → Except Fault Nat
  | 0 => .ok start
  | n + 1 => do
      let c ← read start
      if isSpace c then trimStart read (start + 1) n else return start

/-- The end of the `n` characters from `start` on, without the spaces at their end. -/
def trimEnd (read : Nat → Except Fault UInt8) (start : Nat) : Nat → Except Fault Nat
  | 0 => .ok start
  | n + 1 => do
      let c ← read (start + n)
      if isSpace c then trimEnd read start n else return start + n + 1

def trim (s : Store UInt8) (v : KString) : Except Fault (KString × Store UInt8) := do
  if v.data = 0 ∨ v.len = 0 then return (v, s)
  let start ← trimStart (s.read v.data) 0 v.len
  let stop ← trimEnd (s.read v.data) start (v.len - start)
  let newLength := stop - start
  let s ← shiftDown v.data start newLength s
  let s ← s.write v.data newLength 0
  return ({ v with len := newLength }, s)

end KString

/-! ## What a string stands for -/

structure StringRep (s : Store UInt8) (v : KString) (xs : List UInt8) : Prop where
  len : v.len = xs.length
  cap : v.capacity + 1 < 2 ^ 63
  null : v.data ≠ 0
  block : ∃ b, s v.data = some b ∧ b.size = v.capacity + 1 ∧ b.Holds 0 (xs ++ [0])

/-- Strings as owners of their arrays. -/
def stringKind : Kind KString UInt8 (List UInt8) where
  ptr := KString.data
  Rep := StringRep
  live {s b x} h _ := by
    obtain ⟨c, hc, -⟩ := h.block
    rw [hc]
    exact Option.some_ne_none c
  congr {s s' b x} h hsame := by
    obtain ⟨c, hc, hrest⟩ := h.block
    exact ⟨h.len, h.cap, h.null, c, (hsame h.null).trans hc, hrest⟩

variable {s : Store UInt8} {v : KString} {xs : List UInt8}

theorem StringRep.le (h : StringRep s v xs) : v.len ≤ v.capacity := by
  obtain ⟨b, -, hsize, hholds⟩ := h.block
  have hnul := hholds.right.lt (j := 0) (Nat.zero_lt_one)
  rw [h.len]
  omega

theorem StringRep.live (h : StringRep s v xs) (_ : v.data ≠ 0) : ∃ b, s v.data = some b := by
  obtain ⟨b, hb, -⟩ := h.block
  exact ⟨b, hb⟩

/-- The string was changed in place, and its content is another one. -/
theorem StringRep.rewritten (h : StringRep s v xs) {n : Nat} {ys : List UInt8} {s' : Store UInt8}
    (hs : Rewritten s v.data (v.capacity + 1) (fun b => b.Holds 0 (ys ++ [0])) s')
    (hn : n = ys.length) :
    StringRep s' { v with len := n } ys ∧ Frame s s' v.data v.data := by
  obtain ⟨b, rfl, hsize, hholds⟩ := hs
  exact ⟨⟨hn, h.cap, h.null, b, Store.put_same .., hsize, hholds⟩, .put ..⟩

/-! ## Reading -/

/-- From the index `i` on these characters are read. -/
def Reads (f : Nat → Except Fault UInt8) (i : Nat) (xs : List UInt8) : Prop :=
  ∀ j x, xs[j]? = some x → f (i + j) = .ok x

theorem Reads.head {f : Nat → Except Fault UInt8} {i : Nat} {x : UInt8} (h : Reads f i (x :: xs)) :
    f i = .ok x := h 0 x rfl

theorem Reads.tail {f : Nat → Except Fault UInt8} {i : Nat} {x : UInt8} (h : Reads f i (x :: xs)) :
    Reads f (i + 1) xs := by
  intro j y hy
  rw [Nat.add_right_comm]
  exact h (j + 1) y hy

theorem reads_block {b : Block UInt8} {i : Nat} (h : b.Holds i xs) : Reads b.read i xs := by
  intro j x hx
  obtain ⟨hlt, hcell⟩ := h j x hx
  rw [Block.read_of_lt hlt, hcell]

theorem reads_store {b : Block UInt8} {p i : Nat} (hb : s p = some b) (h : b.Holds i xs) :
    Reads (s.read p) i xs := by
  intro j x hx
  obtain ⟨hlt, hcell⟩ := h j x hx
  rw [Store.read_eq hb hlt, hcell]

theorem StringRep.reads (h : StringRep s v xs) : Reads (s.read v.data) 0 (xs ++ [0]) := by
  obtain ⟨b, hb, -, hholds⟩ := h.block
  exact reads_store hb hholds

theorem Reads.left {f : Nat → Except Fault UInt8} {i : Nat} {ys : List UInt8}
    (h : Reads f i (xs ++ ys)) : Reads f i xs := by
  intro j x hx
  refine h j x ?_
  rw [List.getElem?_append_left (List.getElem?_eq_some_iff.mp hx).1, hx]

theorem Reads.drop {f : Nat → Except Fault UInt8} {i : Nat} (h : Reads f i xs) (k : Nat) :
    Reads f (i + k) (xs.drop k) := by
  intro j x hx
  rw [List.getElem?_drop] at hx
  rw [Nat.add_assoc]
  exact h (k + j) x hx

theorem text_holds (text : CString) : text.block.Holds 0 (text.chars ++ [0]) := by
  intro j x hx
  have hj := (List.getElem?_eq_some_iff.mp hx).1
  rw [List.length_append, List.length_singleton] at hj
  rw [Nat.zero_add]
  refine ⟨hj, ?_⟩
  change text.chars.getD j 0 = x
  rcases Nat.lt_or_ge j text.chars.length with hlt | hge
  · rw [List.getElem?_append_left hlt] at hx
    rw [List.getD_eq_getElem?_getD, hx]
    rfl
  · rw [List.getElem?_append_right hge, show j - text.chars.length = 0 by omega] at hx
    cases hx
    exact List.getD_eq_default _ _ hge

theorem textLength_eq {b : Block UInt8} {i : Nat} (h : b.Holds i (xs ++ [0])) (hnul : 0 ∉ xs) :
    textLength b i = .ok (i + xs.length) := by
  induction xs generalizing i with
  | nil =>
      obtain ⟨hlt, hcell⟩ := Block.holds_singleton.mp h
      rw [textLength, if_pos hlt, if_neg (not_not.mpr hcell)]
      rfl
  | cons x xs ih =>
      obtain ⟨⟨hlt, hcell⟩, hrest⟩ := Block.holds_cons.mp h
      have hx : b.cells i ≠ 0 := by
        rw [hcell]
        exact fun hzero => hnul (hzero ▸ List.mem_cons_self)
      rw [textLength, if_pos hlt, if_pos hx, ih hrest fun hmem => hnul (List.mem_cons_of_mem x hmem),
        List.length_cons, Nat.add_assoc, Nat.add_comm 1]

theorem CString.length_eq (text : CString) : textLength text.block 0 = .ok text.chars.length := by
  rw [textLength_eq (text_holds text) text.nul, Nat.zero_add]

theorem sameChars_eq {f g : Nat → Except Fault UInt8} {i : Nat} {ys : List UInt8} (hf : Reads f i xs)
    (hg : Reads g i ys) (hle : ys.length ≤ xs.length) :
    sameChars f g i ys.length = .ok (decide (ys <+: xs)) := by
  induction ys generalizing i xs with
  | nil =>
      rw [decide_eq_true (List.nil_prefix)]
      rfl
  | cons y ys ih =>
      cases xs with
      | nil => exact absurd hle (Nat.not_succ_le_zero _)
      | cons x xs =>
          rw [List.length_cons, sameChars, hf.head, hg.head, ok_bind, ok_bind]
          by_cases heq : x = y
          · subst heq
            rw [if_neg (not_not.mpr rfl), ih hf.tail hg.tail (Nat.le_of_succ_le_succ hle)]
            simp only [List.prefix_cons_inj]
          · rw [if_pos heq, decide_eq_false fun hleads => heq (List.cons_prefix_cons.mp hleads).1.symm]
            rfl

theorem equals_eq {w : KString} {ys : List UInt8} (h : StringRep s v xs) (hw : StringRep s w ys) :
    v.equals s w = .ok (decide (xs = ys)) := by
  unfold KString.equals
  rw [h.len, hw.len]
  by_cases hlen : ys.length = xs.length
  · rw [if_neg (not_not.mpr hlen), sameChars_eq h.reads.left hw.reads.left (Nat.le_of_eq hlen)]
    refine congrArg Except.ok (decide_eq_decide.mpr ⟨fun hleads => ?_, ?_⟩)
    · exact (hleads.eq_of_length hlen).symm
    · rintro rfl
      exact List.prefix_refl xs
  · rw [if_pos hlen, decide_eq_false fun heq => hlen (congrArg List.length heq.symm)]

theorem startsWith_eq {w : KString} {ys : List UInt8} (h : StringRep s v xs) (hw : StringRep s w ys) :
    v.startsWith s w = .ok (decide (ys <+: xs)) := by
  unfold KString.startsWith
  rw [h.len, hw.len]
  by_cases hlt : xs.length < ys.length
  · rw [if_pos hlt, decide_eq_false fun hleads => absurd hleads.length_le (Nat.not_le_of_lt hlt)]
  · rw [if_neg hlt, sameChars_eq h.reads.left hw.reads.left (Nat.le_of_not_lt hlt)]

theorem StringRep.get_eq (h : StringRep s v xs) (index : Nat) : v.get s index = .ok xs[index]? := by
  unfold KString.get
  by_cases hle : v.len ≤ index
  · rw [if_pos hle, List.getElem?_eq_none (by rw [← h.len]; exact hle)]
    rfl
  · have hindex : index < xs.length := by
      rw [← h.len]
      omega
    have hx := List.getElem?_eq_getElem hindex
    have hread := h.reads.left index _ hx
    rw [Nat.zero_add] at hread
    rw [if_neg hle, hread, ok_bind, hx]
    rfl

/-! ## New arrays -/

theorem toSigned_count {n : Nat} (h : n < 2 ^ 31) : (Words.toSigned 32 n).toNat = n := by
  have hmod : n % 2 ^ 32 = n := Nat.mod_eq_of_lt (by omega)
  rw [Words.toSigned, hmod, if_pos h, Int.toNat_natCast]

theorem copy_ends {src : Store UInt8 → Nat → Except Fault UInt8} {p off : Nat} {b : Block UInt8}
    (hb : s p = some b) (hsize : off + xs.length ≤ b.size) (hlt : xs.length < 2 ^ 31)
    (hsrc : ∀ c, Reads (src (s.put p c)) 0 xs) :
    Ends True (copy src p off xs.length s) (Rewritten s p b.size fun c =>
      c.Holds off xs ∧ ∀ j, j < off ∨ off + xs.length ≤ j → c.cells j = b.cells j) := by
  unfold copy
  rw [toSigned_count hlt]
  have hcells := copyCells_ends (k := xs.length) (f := fun i => xs.getD i 0) hb hsize
    fun c i hi => show src (s.put p c) i = _ by
      have hx := List.getElem?_eq_getElem hi
      have hread := hsrc c i _ hx
      rw [Nat.zero_add] at hread
      rw [hread, List.getD_eq_getElem?_getD, hx]
      rfl
  refine hcells.imp fun t ht => ht.imp fun c hc hcopied => ⟨fun j x hx => ?_, hcopied.2⟩
  have hj := (List.getElem?_eq_some_iff.mp hx).1
  refine ⟨by omega, (hcopied.1 j hj).trans ?_⟩
  rw [List.getD_eq_getElem?_getD, hx]
  rfl

/-- A grant that is needed, and memory for `capacity + 1` characters. -/
def Granted (s : Store UInt8) (g : Grant UInt8) (capacity : Nat) : Prop :=
  g.Fresh s ∧ capacity + 1 < 2 ^ 63

theorem newData_ends {g : Grant UInt8} {src : Store UInt8 → Nat → Except Fault UInt8} {capacity : Nat}
    (hlt : xs.length < 2 ^ 31) (hle : xs.length ≤ capacity) (hcap : capacity + 1 < 2 ^ 64)
    (hsrc : g.Fresh s → ∀ c, Reads (src (s.put g.address c)) 0 xs) :
    Ends (Granted s g capacity) (KString.newData s g src xs.length capacity) fun r =>
      Granted s g capacity ∧ r.1 = g.address ∧
        Rewritten s g.address (capacity + 1) (fun b => b.Holds 0 (xs ++ [0])) r.2 := by
  unfold KString.newData
  have hsize : add64 capacity 1 = capacity + 1 := Words.add_eq hcap
  rw [hsize]
  refine (Store.new_ends fun hgranted : Granted s g capacity => hgranted).bind fun r hr => ?_
  obtain ⟨hfresh, hroom, rfl⟩ := hr
  have hcopy : Ends True (copy src g.address 0 xs.length (s.put g.address ⟨capacity + 1, g.cells⟩)) _ :=
    copy_ends (Store.put_same ..) (by simp only; omega) hlt fun c => by
      rw [Store.put_put]
      exact hsrc hfresh c
  refine hcopy.always.bind fun t ht => ?_
  have hnul := ht.trans.write (i := xs.length) (by simp only; omega) 0
    (Q := fun b => b.Holds 0 (xs ++ [0])) fun c hc hcopied => by
      refine Block.holds_append.mpr ⟨hcopied.1.set (.inr (by omega)) 0, ?_⟩
      rw [Nat.zero_add]
      exact Block.holds_singleton.mpr ⟨by rw [Block.size_set, hc]; simp only; omega, Block.cells_set ..⟩
  exact hnul.always.bind fun t' ht' => ⟨⟨hfresh, hroom⟩, rfl, ht'⟩

/-- An array that is no other one is a new string. -/
theorem stringRep_new {g : Grant UInt8} {capacity : Nat} {s' : Store UInt8}
    (hgranted : Granted s g capacity)
    (hs : Rewritten s g.address (capacity + 1) (fun b => b.Holds 0 (xs ++ [0])) s') :
    StringRep s' ⟨g.address, xs.length, capacity⟩ xs ∧ Frame s s' 0 g.address := by
  obtain ⟨b, rfl, hsize, hholds⟩ := hs
  obtain ⟨⟨hnull, -, hfree⟩, hcap⟩ := hgranted
  exact ⟨⟨rfl, hcap, hnull, b, Store.put_same .., hsize, hholds⟩, .replace hfree b fun _ _ => rfl⟩

/-- The old array is deleted. -/
theorem replace_ends {g : Grant UInt8} {capacity : Nat} {s' : Store UInt8} {ys : List UInt8}
    (h : StringRep s v ys) (hgranted : Granted s g capacity)
    (hs : Rewritten s g.address (capacity + 1) (fun b => b.Holds 0 (xs ++ [0])) s') :
    Ends True (s'.delete v.data) fun s'' =>
      StringRep s'' ⟨g.address, xs.length, capacity⟩ xs ∧ Frame s s'' v.data g.address := by
  obtain ⟨b, rfl, hsize, hholds⟩ := hs
  obtain ⟨⟨hnull, -, hfree⟩, hcap⟩ := hgranted
  obtain ⟨c, hc, -⟩ := h.block
  have hne : v.data ≠ g.address := by
    intro heq
    rw [heq, hfree] at hc
    cases hc
  rw [Store.delete_eq ((Store.put_of_ne hne ..).trans hc) h.null]
  have hsame : ∀ q, q ≠ v.data →
      Function.update (s.put g.address b) v.data none q = s.put g.address b q :=
    fun q hq => Function.update_of_ne hq ..
  refine ⟨⟨rfl, hcap, hnull, b, ?_, hsize, hholds⟩, .replace hfree b hsame⟩
  exact (hsame _ (Ne.symm hne)).trans (Store.put_same ..)

/-- What a string holds is still read after an array was added. -/
theorem StringRep.reads_put (h : StringRep s v xs) {g : Grant UInt8} (hg : g.Fresh s)
    (c : Block UInt8) : Reads ((s.put g.address c).read v.data) 0 xs := by
  obtain ⟨b, hb, -, hholds⟩ := h.block
  have hne : v.data ≠ g.address := by
    intro heq
    rw [heq, hg.2.2] at hb
    cases hb
  exact reads_store ((Store.put_of_ne hne ..).trans hb) hholds.left

theorem new_ends (s : Store UInt8) (g : Grant UInt8) :
    Ends (Granted s g 0) (KString.new s g) fun r =>
      StringRep r.2 r.1 [] ∧ Frame s r.2 0 r.1.data := by
  unfold KString.new
  refine (Store.new_ends fun hgranted : Granted s g 0 => hgranted).bind fun r hr => ?_
  obtain ⟨hfresh, hroom, rfl⟩ := hr
  have hstart : Rewritten (s.put g.address ⟨1, g.cells⟩) g.address 1 (fun _ => True) _ :=
    Rewritten.start (Store.put_same ..) trivial
  have hnul := hstart.write (i := 0) (Nat.zero_lt_one) 0 (Q := fun b => b.Holds 0 ([] ++ [0]))
    fun c hc _ => by
      exact Block.holds_singleton.mpr ⟨by rw [Block.size_set, hc]; exact Nat.zero_lt_one, Block.cells_set ..⟩
  exact hnul.always.bind fun t ht => stringRep_new ⟨hfresh, hroom⟩ ht.trans

theorem construct_ends (s : Store UInt8) (g : Grant UInt8) (str : CString)
    (hlt : str.chars.length < 2 ^ 31) :
    Ends (Granted s g str.chars.length) (KString.construct s g str) fun r =>
      StringRep r.2 r.1 str.chars ∧ Frame s r.2 0 r.1.data := by
  unfold KString.construct
  rw [str.length_eq, ok_bind]
  refine (newData_ends hlt (Nat.le_refl _) (by omega) fun _ _ => ?_).bind fun r hr => ?_
  · exact reads_block (text_holds str).left
  · obtain ⟨hgranted, haddress, hs⟩ := hr
    simp only [haddress]
    exact stringRep_new hgranted hs

theorem copyConstruct_string (h : StringRep s v xs) (g : Grant UInt8) (hlt : v.len < 2 ^ 31) :
    Ends (Granted s g v.capacity) (KString.copyConstruct s g v) fun r =>
      StringRep r.2 r.1 xs ∧ Frame s r.2 0 r.1.data := by
  have hle := h.le
  have hcap := h.cap
  unfold KString.copyConstruct
  rw [h.len] at hlt hle ⊢
  refine (newData_ends hlt hle (by omega) fun hg c => h.reads_put hg c).bind fun r hr => ?_
  obtain ⟨hgranted, haddress, hs⟩ := hr
  simp only [haddress]
  exact stringRep_new hgranted hs

theorem copyAssign_string {w : KString} {ys : List UInt8} (h : StringRep s v xs)
    (hw : StringRep s w ys) (g : Grant UInt8) (hlt : w.len < 2 ^ 31) :
    Ends (Granted s g w.capacity) (KString.copyAssign s g v w) fun r =>
      StringRep r.2 r.1 ys ∧ Frame s r.2 v.data r.1.data := by
  have hle := hw.le
  have hcap := hw.cap
  unfold KString.copyAssign
  rw [hw.len] at hlt hle ⊢
  refine (newData_ends hlt hle (by omega) fun hg c => hw.reads_put hg c).bind fun r hr => ?_
  obtain ⟨hgranted, haddress, hs⟩ := hr
  simp only [haddress]
  exact (replace_ends h hgranted hs).always.bind fun t ht => ht

/-- The same content, and room for `n` characters. -/
theorem reserve_string (h : StringRep s v xs) (g : Grant UInt8) {n : Nat} (hlt : v.len < 2 ^ 31)
    (hn : n + 1 < 2 ^ 64) :
    Ends (v.capacity < n → Granted s g n) (v.reserve s g n) fun r =>
      StringRep r.2 r.1 xs ∧ Frame s r.2 v.data r.1.data ∧ n ≤ r.1.capacity := by
  unfold KString.reserve
  by_cases hle : n ≤ v.capacity
  · rw [if_pos hle]
    exact ⟨h, .refl .., hle⟩
  have hcap : v.capacity < n := Nat.lt_of_not_le hle
  have hlen := h.le
  rw [if_neg hle]
  rw [h.len] at hlt hlen ⊢
  have hdata : Ends (Granted s g n) (KString.newData s g (fun s i => s.read v.data i) xs.length n) _ :=
    newData_ends hlt (Nat.le_of_lt (Nat.lt_of_le_of_lt hlen hcap)) hn fun hg c => h.reads_put hg c
  refine (hdata.mono fun hgranted => hgranted hcap).bind fun r hr => ?_
  obtain ⟨hgranted, haddress, hs⟩ := hr
  simp only [haddress]
  exact (replace_ends h hgranted hs).always.bind fun t ht => ⟨ht.1, ht.2, Nat.le_refl n⟩

/-! ## Changing the content -/

/-- The content is cut, and a NUL written behind it. -/
theorem cut_ends (h : StringRep s v xs) {n : Nat} (hn : n ≤ xs.length) :
    Ends True (s.write v.data n 0) fun s' =>
      StringRep s' { v with len := n } (xs.take n) ∧ Frame s s' v.data v.data := by
  have hle := h.le
  have hlen := h.len
  obtain ⟨b, hb, hsize, hholds⟩ := h.block
  have hlength : (xs.take n).length = n := List.length_take_of_le hn
  have hcontent : Rewritten s v.data b.size (fun b => b.Holds 0 xs) s := .start hb hholds.left
  have hcut := hcontent.write (i := n) (by omega) 0
    (Q := fun b => b.Holds 0 (xs.take n ++ [0])) fun c hc hcontent => by
      refine Block.holds_append.mpr ⟨?_, ?_⟩
      · exact (hcontent.initial (List.take_prefix n xs)).set (.inr (by omega)) 0
      · rw [hlength, Nat.zero_add]
        exact Block.holds_singleton.mpr ⟨by rw [Block.size_set, hc]; omega, Block.cells_set ..⟩
  rw [hsize] at hcut
  exact hcut.imp fun s' hs' => h.rewritten hs' hlength.symm

theorem clear_string (h : StringRep s v xs) :
    Ends True (v.clear s) fun r => StringRep r.2 r.1 [] ∧ Frame s r.2 v.data r.1.data :=
  (cut_ends h (Nat.zero_le xs.length)).bind fun _ hs' => Ends.ok hs'

/-- The last character comes out. -/
theorem popBack_string (h : StringRep s v xs) :
    Ends True (v.popBack s) fun r =>
      r.1 = xs.getLastD 0 ∧ StringRep r.2.2 r.2.1 xs.dropLast ∧ Frame s r.2.2 v.data r.2.1.data := by
  have hlen := h.len
  unfold KString.popBack
  by_cases hzero : v.len = 0
  · rw [if_pos hzero]
    obtain rfl := List.length_eq_zero_iff.mp (hlen.symm.trans hzero)
    exact ⟨rfl, h, .refl ..⟩
  rw [if_neg hzero]
  have hne : xs ≠ [] := by
    rintro rfl
    exact hzero hlen
  have hlast : xs[v.len - 1]? = some (xs.getLast hne) := by
    rw [hlen, ← List.getLast?_eq_getElem?, List.getLast?_eq_getLast_of_ne_nil hne]
  have hread := h.reads.left _ _ hlast
  rw [Nat.zero_add] at hread
  simp only [hread, ok_bind, List.dropLast_eq_take]
  refine (cut_ends h (n := v.len - 1) (by omega)).bind fun s' hs' => ?_
  rw [hlen] at hs' ⊢
  refine ⟨?_, hs'⟩
  rw [List.getLastD_eq_getLast?, List.getLast?_eq_getLast_of_ne_nil hne]
  rfl

theorem append_ends {src : Nat → Except Fault UInt8} {ys : List UInt8} (h : StringRep s v xs)
    (g : Grant UInt8) (hlt : v.len < 2 ^ 31) (hys : ys.length < 2 ^ 31) (hsrc : Reads src 0 ys) :
    Ends (Granted s g (v.len + ys.length)) (v.appendFrom s g src ys.length) fun r =>
      StringRep r.2 r.1 (xs ++ ys) ∧ Frame s r.2 v.data r.1.data := by
  have hsum : add64 v.len ys.length = v.len + ys.length := Words.add_eq (by omega)
  unfold KString.appendFrom
  rw [hsum]
  have hreserve := (reserve_string h g hlt (n := v.len + ys.length) (by omega)).mono
    fun (hgranted : Granted s g (v.len + ys.length)) _ => hgranted
  refine hreserve.bind fun r hr => ?_
  obtain ⟨w, s₁⟩ := r
  obtain ⟨hw, hframe, hroom⟩ := hr
  simp only at hw hframe hroom ⊢
  have hlen := hw.len
  have hsum' : add64 w.len ys.length = w.len + ys.length := by
    rw [hlen, ← h.len]
    exact hsum
  rw [← h.len] at hlen
  rw [hsum']
  obtain ⟨b, hb, hsize, hholds⟩ := hw.block
  have hcopy : Ends True (copy (fun _ i => src i) w.data w.len ys.length s₁) _ :=
    copy_ends hb (by omega) hys fun _ => hsrc
  refine hcopy.always.bind fun s₂ hs₂ => ?_
  have hnul := hs₂.write (i := w.len + ys.length) (by omega) 0
    (Q := fun c => c.Holds 0 ((xs ++ ys) ++ [0])) fun c hc hcopied => by
      have hfirst : c.Holds 0 xs := by
        refine hholds.left.moved (by rw [← hw.len]; omega) fun j hj => ?_
        exact hcopied.2 (0 + j) (.inl (by rw [hw.len]; omega))
      have hcontent : c.Holds 0 (xs ++ ys) := by
        refine Block.holds_append.mpr ⟨hfirst, ?_⟩
        rw [Nat.zero_add, ← hw.len]
        exact hcopied.1
      have hlength : (xs ++ ys).length = w.len + ys.length := by rw [List.length_append, hw.len]
      refine Block.holds_append.mpr ⟨hcontent.set (.inr (by omega)) 0, ?_⟩
      rw [Nat.zero_add, hlength]
      exact Block.holds_singleton.mpr ⟨by rw [Block.size_set]; omega, Block.cells_set ..⟩
  rw [hsize] at hnul
  refine hnul.always.bind fun s₃ hs₃ => ?_
  obtain ⟨hrep, hframe'⟩ := hw.rewritten hs₃ (n := w.len + ys.length) (by
    rw [List.length_append, hw.len])
  exact ⟨hrep, hframe.trans hframe'⟩

theorem prepend_ends {src : Nat → Except Fault UInt8} {ys : List UInt8} (h : StringRep s v xs)
    (g : Grant UInt8) (hlt : v.len < 2 ^ 31) (hys : ys.length < 2 ^ 31) (hpos : 0 < ys.length)
    (hsrc : Reads src 0 ys) :
    Ends (Granted s g (v.len + ys.length)) (v.prependFrom s g src ys.length) fun r =>
      StringRep r.2 r.1 (ys ++ xs) ∧ Frame s r.2 v.data r.1.data := by
  have hsum : add64 v.len ys.length = v.len + ys.length := Words.add_eq (by omega)
  unfold KString.prependFrom
  rw [hsum]
  have hreserve := (reserve_string h g hlt (n := v.len + ys.length) (by omega)).mono
    fun (hgranted : Granted s g (v.len + ys.length)) _ => hgranted
  refine hreserve.bind fun r hr => ?_
  obtain ⟨w, s₁⟩ := r
  obtain ⟨hw, hframe, hroom⟩ := hr
  simp only at hw hframe hroom ⊢
  have hlen := hw.len
  have hsum' : add64 w.len ys.length = w.len + ys.length := by
    rw [hlen, ← h.len]
    exact hsum
  rw [← h.len] at hlen
  rw [hsum']
  obtain ⟨b, hb, hsize, hholds⟩ := hw.block
  have hshift := shiftUp_ends (d := ys.length) (k := w.len) hb hpos (by omega)
  refine hshift.always.bind fun s₂ hs₂ => ?_
  obtain ⟨c, rfl, hc, hshifted, -⟩ := hs₂
  have hbehind : c.Holds ys.length xs := by
    refine hholds.left.moved (by rw [← hw.len]; omega) fun j hj => ?_
    rw [Nat.add_comm, Nat.zero_add]
    exact hshifted j (by rw [hw.len]; exact hj)
  have hcopy : Ends True (copy (fun _ i => src i) w.data 0 ys.length (s₁.put w.data c)) _ :=
    copy_ends (Store.put_same ..) (by omega) hys fun _ => hsrc
  refine hcopy.always.bind fun s₃ hs₃ => ?_
  have hnul := hs₃.trans.write (i := w.len + ys.length) (by omega) 0
    (Q := fun c => c.Holds 0 ((ys ++ xs) ++ [0])) fun d hd hcopied => by
      have hcontent : d.Holds 0 (ys ++ xs) := by
        refine Block.holds_append.mpr ⟨hcopied.1, ?_⟩
        rw [Nat.zero_add]
        refine hbehind.moved (by rw [← hw.len]; omega) fun j hj => ?_
        exact hcopied.2 _ (.inr (by omega))
      have hlength : (ys ++ xs).length = w.len + ys.length := by
        rw [List.length_append, hw.len, Nat.add_comm]
      refine Block.holds_append.mpr ⟨hcontent.set (.inr (by omega)) 0, ?_⟩
      rw [Nat.zero_add, hlength]
      exact Block.holds_singleton.mpr ⟨by rw [Block.size_set]; omega, Block.cells_set ..⟩
  rw [hc, hsize] at hnul
  refine hnul.always.bind fun s₄ hs₄ => ?_
  obtain ⟨hrep, hframe'⟩ := hw.rewritten hs₄ (n := w.len + ys.length) (by
    rw [List.length_append, hw.len, Nat.add_comm])
  exact ⟨hrep, hframe.trans hframe'⟩

/-- What the operations do to a list of characters. -/
def dropText (text : Option CString) (xs : List UInt8) : List UInt8 :=
  text.elim xs fun text => if text.chars <+: xs then xs.drop text.chars.length else xs

def dropTextBack (text : Option CString) (xs : List UInt8) : List UInt8 :=
  text.elim xs fun text =>
    if text.chars <:+ xs then xs.take (xs.length - text.chars.length) else xs

def strip (xs : List UInt8) : List UInt8 := (xs.dropWhile isSpace).rdropWhile isSpace

theorem removePrefix_string (h : StringRep s v xs) (text : Option CString) :
    Ends True (v.removePrefix s text) fun r =>
      StringRep r.2 r.1 (dropText text xs) ∧ Frame s r.2 v.data r.1.data := by
  cases text with
  | none => exact ⟨h, .refl ..⟩
  | some text =>
      have hlen := h.len
      simp only [KString.removePrefix, dropText, Option.elim_some]
      rw [if_neg h.null, text.length_eq, ok_bind]
      by_cases hzero : text.chars.length = 0
      · rw [if_pos (.inl hzero), hzero, List.drop_zero, ite_self]
        exact ⟨h, .refl ..⟩
      by_cases hlong : v.len < text.chars.length
      · rw [if_pos (.inr hlong), if_neg fun hleads => absurd hleads.length_le (by omega)]
        exact ⟨h, .refl ..⟩
      rw [if_neg (by omega), sameChars_eq h.reads.left (reads_block (text_holds text).left) (by omega),
        ok_bind]
      by_cases hleads : text.chars <+: xs
      · rw [if_pos hleads, decide_eq_true hleads, if_neg (by decide)]
        obtain ⟨b, hb, hsize, hholds⟩ := h.block
        have hend := hholds.lt (j := xs.length) (by rw [List.length_append]; exact Nat.lt_succ_self _)
        have hshift := shiftDown_ends (d := text.chars.length) (k := v.len - text.chars.length + 1) hb
          (by omega)
        refine hshift.bind fun s' hs' => ?_
        rw [hsize] at hs'
        refine h.rewritten (hs'.imp fun c hc hshifted => ?_) (by rw [List.length_drop, hlen])
        have hdrop := hholds.drop text.chars.length
        rw [List.drop_append_of_le_length (by omega)] at hdrop
        have hlength : (xs.drop text.chars.length ++ [0]).length = v.len - text.chars.length + 1 := by
          rw [List.length_append, List.length_drop, hlen]
          rfl
        refine hdrop.moved (by omega) fun j hj => ?_
        rw [Nat.zero_add, Nat.zero_add, Nat.add_comm text.chars.length]
        exact hshifted.1 j (by omega)
      · rw [if_neg hleads, decide_eq_false hleads]
        exact ⟨h, .refl ..⟩

theorem removeSuffix_string (h : StringRep s v xs) (text : Option CString) :
    Ends True (v.removeSuffix s text) fun r =>
      StringRep r.2 r.1 (dropTextBack text xs) ∧ Frame s r.2 v.data r.1.data := by
  cases text with
  | none => exact ⟨h, .refl ..⟩
  | some text =>
      have hlen := h.len
      simp only [KString.removeSuffix, dropTextBack, Option.elim_some]
      rw [if_neg h.null, text.length_eq, ok_bind]
      by_cases hzero : text.chars.length = 0
      · rw [if_pos (.inl hzero), hzero, Nat.sub_zero, List.take_length, ite_self]
        exact ⟨h, .refl ..⟩
      by_cases hlong : v.len < text.chars.length
      · rw [if_pos (.inr hlong), if_neg fun hsuffix => absurd hsuffix.length_le (by omega)]
        exact ⟨h, .refl ..⟩
      have hreads : Reads (fun i => s.read v.data (v.len - text.chars.length + i)) 0
          (xs.drop (v.len - text.chars.length)) := by
        intro j x hx
        have hread := h.reads.left.drop _ j x hx
        rw [Nat.zero_add] at hread ⊢
        exact hread
      have hlength : (xs.drop (v.len - text.chars.length)).length = text.chars.length := by
        rw [List.length_drop]
        omega
      rw [if_neg (by omega), sameChars_eq hreads (reads_block (text_holds text).left)
        (Nat.le_of_eq hlength.symm), ok_bind]
      have hiff : text.chars <+: xs.drop (v.len - text.chars.length) ↔ text.chars <:+ xs := by
        rw [List.suffix_iff_eq_drop, ← hlen]
        constructor
        · exact fun hleads => hleads.eq_of_length hlength.symm
        · exact fun heq => heq ▸ List.prefix_refl _
      by_cases hsuffix : text.chars <:+ xs
      · rw [if_pos hsuffix, decide_eq_true (hiff.mpr hsuffix), if_neg (by decide), ← hlen]
        exact (cut_ends h (by omega)).bind fun s' hs' => Ends.ok hs'
      · rw [if_neg hsuffix, decide_eq_false (mt hiff.mp hsuffix)]
        exact ⟨h, .refl ..⟩

theorem trimStart_eq {f : Nat → Except Fault UInt8} {i : Nat} (hf : Reads f i xs) :
    KString.trimStart f i xs.length = .ok (i + (xs.takeWhile isSpace).length) := by
  induction xs generalizing i with
  | nil => rfl
  | cons x xs ih =>
      rw [List.length_cons, KString.trimStart, hf.head, ok_bind, List.takeWhile_cons]
      cases isSpace x with
      | true =>
          rw [if_pos rfl, if_pos rfl, ih hf.tail, List.length_cons, Nat.add_assoc, Nat.add_comm 1]
      | false => rfl

theorem trimEnd_eq {f : Nat → Except Fault UInt8} {i : Nat} (hf : Reads f i xs) :
    KString.trimEnd f i xs.length = .ok (i + (xs.rdropWhile isSpace).length) := by
  induction xs using List.reverseRecOn with
  | nil => rfl
  | append_singleton xs x ih =>
      have hlast : f (i + xs.length) = .ok x := hf xs.length x (by
        rw [List.getElem?_append_right (Nat.le_refl _), Nat.sub_self]
        rfl)
      rw [List.length_append, List.length_singleton, KString.trimEnd, hlast, ok_bind,
        List.rdropWhile_concat]
      cases isSpace x with
      | true => rw [if_pos rfl, if_pos rfl, ih hf.left]
      | false =>
          rw [if_neg (by decide), if_neg (by decide), List.length_append]
          rfl

theorem trim_string (h : StringRep s v xs) :
    Ends True (v.trim s) fun r => StringRep r.2 r.1 (strip xs) ∧ Frame s r.2 v.data r.1.data := by
  have hlen := h.len
  unfold KString.trim
  by_cases hzero : v.len = 0
  · rw [if_pos (.inr hzero)]
    obtain rfl := List.length_eq_zero_iff.mp (hlen.symm.trans hzero)
    exact ⟨h, .refl ..⟩
  have hsplit := List.takeWhile_append_dropWhile (p := isSpace) (l := xs)
  have hdrop : xs.drop (xs.takeWhile isSpace).length = xs.dropWhile isSpace := by
    calc xs.drop (xs.takeWhile isSpace).length
        = (xs.takeWhile isSpace ++ xs.dropWhile isSpace).drop (xs.takeWhile isSpace).length := by
          rw [hsplit]
      _ = xs.dropWhile isSpace := List.drop_left' rfl
  rw [if_neg (not_or.mpr ⟨h.null, hzero⟩), hlen, trimStart_eq h.reads.left, ok_bind, Nat.zero_add]
  have hreads := h.reads.left.drop (xs.takeWhile isSpace).length
  rw [Nat.zero_add, hdrop] at hreads
  have hlength : xs.length - (xs.takeWhile isSpace).length = (xs.dropWhile isSpace).length := by
    rw [← hdrop, List.length_drop]
  rw [hlength, trimEnd_eq hreads, ok_bind, Nat.add_sub_cancel_left]
  obtain ⟨b, hb, hsize, hholds⟩ := h.block
  have hend := hholds.lt (j := xs.length) (by rw [List.length_append]; exact Nat.lt_succ_self _)
  have hstrip : strip xs <+: xs.dropWhile isSpace := List.rdropWhile_prefix isSpace _
  have hle := hstrip.length_le
  have hstart : (xs.takeWhile isSpace).length ≤ xs.length := (List.takeWhile_prefix isSpace).length_le
  have hcontent : b.Holds (xs.takeWhile isSpace).length (strip xs) := by
    have hrest := hholds.left.drop (xs.takeWhile isSpace).length
    rw [hdrop, Nat.zero_add] at hrest
    exact hrest.initial hstrip
  have hshift := shiftDown_ends (d := (xs.takeWhile isSpace).length) (k := (strip xs).length) hb
    (by omega)
  refine hshift.bind fun s' hs' => ?_
  have hnul := hs'.write (i := (strip xs).length) (by omega) 0
    (Q := fun c => c.Holds 0 (strip xs ++ [0])) fun c hc hshifted => by
      have hfront : c.Holds 0 (strip xs) := by
        refine hcontent.moved (by omega) fun j hj => ?_
        rw [Nat.zero_add, Nat.add_comm]
        exact hshifted.1 j hj
      refine Block.holds_append.mpr ⟨hfront.set (.inr (by omega)) 0, ?_⟩
      rw [Nat.zero_add]
      exact Block.holds_singleton.mpr ⟨by rw [Block.size_set]; omega, Block.cells_set ..⟩
  rw [hsize] at hnul
  exact hnul.bind fun s'' hs'' => h.rewritten hs'' rfl

/-! ## Runs -/

/-- The operations on the strings `i` and `j`. -/
inductive StrOp where
  | create (i : Nat)
  | construct (i : Nat) (str : CString)
  | copy (i j : Nat)
  | move (i j : Nat)
  | copyAssign (i j : Nat)
  | moveAssign (i j : Nat)
  | destroy (i : Nat)
  | clear (i : Nat)
  | reserve (i newCapacity : Nat)
  | appendChar (i : Nat) (c : UInt8)
  | append (i : Nat) (text : CString)
  | prependChar (i : Nat) (c : UInt8)
  | prepend (i : Nat) (text : CString)
  | popBack (i : Nat)
  | removePrefix (i : Nat) (text : Option CString)
  | removeSuffix (i : Nat) (text : Option CString)
  | trim (i : Nat)

/-- The string `i` becomes `v`, and the string `j` becomes `w`. -/
def takeFrom (st : Objects KString UInt8) (i j : Nat) (r : (KString × KString) × Store UInt8) :
    Objects KString UInt8 :=
  ⟨Function.update (Function.update st.objs j (some r.1.2)) i (some r.1.1), r.2⟩

/-- An operation on a string that does not exist, or the construction of one that does, is
none. -/
def StrOp.exec (st : Objects KString UInt8) (g : Grant UInt8) :
    StrOp → Except Fault (Objects KString UInt8)
  | .create i => st.create i fun s => KString.new s g
  | .construct i str => st.create i fun s => KString.construct s g str
  | .copy i j => st.use j fun w => st.create i fun s => KString.copyConstruct s g w
  | .move i j => st.use j fun w =>
      if (st.objs i).isSome then .ok st
      else do return takeFrom st i j (← KString.moveConstruct st.store g w)
  | .copyAssign i j =>
      if i = j then .ok st
      else st.use j fun w => st.change i fun s v => KString.copyAssign s g v w
  | .moveAssign i j =>
      if i = j then .ok st
      else st.use j fun w => st.use i fun v => do
        return takeFrom st i j (← KString.moveAssign st.store g v w)
  | .destroy i => st.use i fun v => do
      let s ← st.store.delete v.data
      return ⟨Function.update st.objs i none, s⟩
  | .clear i => st.change i fun s v => v.clear s
  | .reserve i newCapacity => st.change i fun s v => v.reserve s g newCapacity
  | .appendChar i c => st.change i fun s v => v.appendChar s g c
  | .append i text => st.change i fun s v => v.append s g text
  | .prependChar i c => st.change i fun s v => v.prependChar s g c
  | .prepend i text => st.change i fun s v => v.prepend s g text
  | .popBack i => st.change i fun s v => do return (← v.popBack s).2
  | .removePrefix i text => st.change i fun s v => v.removePrefix s text
  | .removeSuffix i text => st.change i fun s v => v.removeSuffix s text
  | .trim i => st.change i fun s v => v.trim s

/-- The same on lists of characters. -/
def StrOp.apply (abs : Values (List UInt8)) : StrOp → Values (List UInt8)
  | .create i => abs.create i []
  | .construct i str => abs.create i str.chars
  | .copy i j => abs.use j fun ys => abs.create i ys
  | .move i j => abs.use j fun ys =>
      if (abs i).isSome then abs else Function.update (Function.update abs j (some [])) i (some ys)
  | .copyAssign i j => if i = j then abs else abs.use j fun ys => abs.change i fun _ => ys
  | .moveAssign i j =>
      if i = j then abs
      else abs.use j fun ys => abs.use i fun _ =>
        Function.update (Function.update abs j (some [])) i (some ys)
  | .destroy i => abs.use i fun _ => Function.update abs i none
  | .clear i => abs.change i fun _ => []
  | .reserve i _ => abs.change i id
  | .appendChar i c => abs.change i fun xs => xs ++ [c]
  | .append i text => abs.change i fun xs => xs ++ text.chars
  | .prependChar i c => abs.change i fun xs => [c] ++ xs
  | .prepend i text => abs.change i fun xs => text.chars ++ xs
  | .popBack i => abs.change i List.dropLast
  | .removePrefix i text => abs.change i (dropText text)
  | .removeSuffix i text => abs.change i (dropTextBack text)
  | .trim i => abs.change i strip

/-- The capacity that an operation may need a new array for. -/
def StrOp.needs (st : Objects KString UInt8) : StrOp → Nat
  | .construct _ str => str.chars.length
  | .copy _ j => (st.objs j).elim 0 KString.capacity
  | .copyAssign _ j => (st.objs j).elim 0 KString.capacity
  | .reserve _ newCapacity => newCapacity
  | .appendChar i _ => (st.objs i).elim 0 fun v => v.len + 1
  | .append i text => (st.objs i).elim 0 fun v => v.len + text.chars.length
  | .prependChar i _ => (st.objs i).elim 0 fun v => v.len + 1
  | .prepend i text => (st.objs i).elim 0 fun v => v.len + text.chars.length
  | _ => 0

/-- The lengths are below `2 ^ 31`, and the size of the array that `reserve` makes is a
word. -/
def StrOp.Short (st : Objects KString UInt8) (op : StrOp) : Prop :=
  (∀ i v, st.objs i = some v → v.len < 2 ^ 31) ∧
    match op with
    | .construct _ str => str.chars.length < 2 ^ 31
    | .append _ text => text.chars.length < 2 ^ 31
    | .prepend _ text => text.chars.length < 2 ^ 31
    | .reserve _ newCapacity => newCapacity + 1 < 2 ^ 64
    | _ => True

variable {st : Objects KString UInt8} {abs : Values (List UInt8)} {g : Grant UInt8}

theorem takeFrom_owned (h : Owned stringKind st abs) {i j p : Nat} {w left : KString}
    {ys : List UInt8} {s' : Store UInt8} (hne : i ≠ j) (hj : st.objs j = some w)
    (hw : StringRep st.store w ys) (hp : ∀ v, st.objs i = some v → v.data = p)
    (hnone : st.objs i = none → p = 0) (hapart : w.data ≠ p)
    (hleft : StringRep s' left []) (hframe : Frame st.store s' p left.data) :
    Owned stringKind (takeFrom st i j ((w, left), s'))
      (Function.update (Function.update abs j (some [])) i (some ys)) := by
  refine h.move hne hp hnone hj rfl hframe (stringKind.congr hw fun hnull => ?_) hleft
  exact hframe.same _ hnull hapart (stringKind.live hw hnull)

theorem move_string (h : Owned stringKind st abs) (i j : Nat) :
    Ends (Granted st.store g 0) ((StrOp.move i j).exec st g) fun st' =>
      Owned stringKind st' ((StrOp.move i j).apply abs) := by
  refine h.use_ends j fun w ys hj _ hw => ?_
  cases hi : st.objs i with
  | some v =>
      obtain ⟨xs, hx, -⟩ := h.get hi
      rw [hx]
      exact h
  | none =>
      rw [h.get_none hi]
      have hne : i ≠ j := by
        rintro rfl
        rw [hi] at hj
        cases hj
      have hmove : Ends (Granted st.store g 0) (KString.moveConstruct st.store g w) fun r =>
          r.1.1 = w ∧ StringRep r.2 r.1.2 [] ∧ Frame st.store r.2 0 r.1.2.data :=
        (new_ends st.store g).bind fun r hr => ⟨rfl, hr⟩
      refine hmove.bind fun r hr => ?_
      obtain ⟨⟨v, left⟩, s'⟩ := r
      obtain ⟨rfl, hleft, hframe⟩ := hr
      refine takeFrom_owned h hne hj hw (fun v hv => ?_) (fun _ => rfl) hw.null hleft hframe
      rw [hi] at hv
      cases hv

/-- What is granted may be the address that was freed. -/
theorem moveAssign_string (h : Owned stringKind st abs) (i j : Nat) :
    Ends (Granted st.store g 0) ((StrOp.moveAssign i j).exec st g) fun st' =>
      Owned stringKind st' ((StrOp.moveAssign i j).apply abs) := by
  simp only [StrOp.exec, StrOp.apply]
  by_cases hne : i = j
  · rw [if_pos hne, if_pos hne]
    exact h
  rw [if_neg hne, if_neg hne]
  refine h.use_ends j fun w ys hj _ hw => h.use_ends i fun v xs hi _ hv => ?_
  obtain ⟨s₁, hdelete, hsame⟩ := Store.delete_any hv.live
  have hmove : Ends (Granted st.store g 0) (KString.moveAssign st.store g v w) fun r =>
      r.1.1 = w ∧ StringRep r.2 r.1.2 [] ∧ Frame st.store r.2 v.data r.1.2.data := by
    unfold KString.moveAssign
    rw [hdelete, ok_bind]
    have hnew := (new_ends s₁ g).mono
      fun hgranted : Granted st.store g 0 => ?_
    · refine hnew.bind fun r hr => Ends.ok ⟨rfl, hr.1, ?_⟩
      have hframe : Frame st.store r.2 v.data r.1.data := (Frame.delete hsame).trans hr.2
      exact hframe
    · obtain ⟨⟨hnull, hlt, hfree⟩, hroom⟩ := hgranted
      refine ⟨⟨hnull, hlt, (hsame _ ?_).trans hfree⟩, hroom⟩
      intro heq
      obtain ⟨b, hb⟩ := hv.live hv.null
      rw [heq, hb] at hfree
      cases hfree
  refine hmove.bind fun r hr => ?_
  obtain ⟨⟨v', left⟩, s'⟩ := r
  obtain ⟨rfl, hleft, hframe⟩ := hr
  refine takeFrom_owned h hne hj hw (fun u hu => ?_) (fun hnone => ?_)
    (h.apart (Ne.symm hne) hj hi hw.null) hleft hframe
  · rw [hi] at hu
    cases hu
    rfl
  · rw [hi] at hnone
    cases hnone

theorem destroy_string (h : Owned stringKind st abs) (i : Nat) :
    Ends True ((StrOp.destroy i).exec st g) fun st' =>
      Owned stringKind st' ((StrOp.destroy i).apply abs) := by
  refine h.use_ends i fun v xs hi _ hv => ?_
  obtain ⟨s', hdelete, hsame⟩ := Store.delete_any hv.live
  rw [hdelete, ok_bind]
  exact h.destroy hi hsame

theorem copyOp_string (h : Owned stringKind st abs) (i j : Nat)
    (hshort : (StrOp.copy i j).Short st) :
    Ends (Granted st.store g ((StrOp.copy i j).needs st)) ((StrOp.copy i j).exec st g) fun st' =>
      Owned stringKind st' ((StrOp.copy i j).apply abs) := by
  refine h.use_ends j fun w ys hj _ hw => h.create_ends i ?_
  refine (copyConstruct_string hw g (hshort.1 j w hj)).mono fun hgranted => ?_
  rw [StrOp.needs, hj] at hgranted
  exact hgranted

theorem copyAssignOp_string (h : Owned stringKind st abs) (i j : Nat)
    (hshort : (StrOp.copyAssign i j).Short st) :
    Ends (Granted st.store g ((StrOp.copyAssign i j).needs st)) ((StrOp.copyAssign i j).exec st g)
      fun st' => Owned stringKind st' ((StrOp.copyAssign i j).apply abs) := by
  simp only [StrOp.exec, StrOp.apply]
  by_cases hne : i = j
  · rw [if_pos hne, if_pos hne]
    exact h
  rw [if_neg hne, if_neg hne]
  refine h.use_ends j fun w ys hj _ hw => h.change_ends i fun v xs hi _ hv => ?_
  refine (copyAssign_string hv hw g (hshort.1 j w hj)).mono fun hgranted => ?_
  rw [StrOp.needs, hj] at hgranted
  exact hgranted

/-- The two operations that put one character, and the two that put a text. -/
theorem append_string (h : StringRep s v xs) (hlt : v.len < 2 ^ 31) (text : CString)
    (htext : text.chars.length < 2 ^ 31) :
    Ends (Granted s g (v.len + text.chars.length)) (v.append s g text) fun r =>
      StringRep r.2 r.1 (xs ++ text.chars) ∧ Frame s r.2 v.data r.1.data := by
  unfold KString.append
  rw [text.length_eq, ok_bind]
  exact append_ends h g hlt htext (reads_block (text_holds text).left)

theorem prepend_string (h : StringRep s v xs) (hlt : v.len < 2 ^ 31) (text : CString)
    (htext : text.chars.length < 2 ^ 31) :
    Ends (Granted s g (v.len + text.chars.length)) (v.prepend s g text) fun r =>
      StringRep r.2 r.1 (text.chars ++ xs) ∧ Frame s r.2 v.data r.1.data := by
  unfold KString.prepend
  rw [text.length_eq, ok_bind]
  by_cases hzero : text.chars.length = 0
  · rw [if_pos hzero, List.length_eq_zero_iff.mp hzero]
    exact ⟨h, .refl ..⟩
  · rw [if_neg hzero]
    exact prepend_ends h g hlt htext (Nat.pos_of_ne_zero hzero) (reads_block (text_holds text).left)

theorem reads_char (c : UInt8) : Reads (fun _ => .ok c) 0 [c] := by
  intro j x hx
  cases j with
  | zero =>
      cases hx
      rfl
  | succ j => cases hx

theorem StrOp.exec_ends (h : Owned stringKind st abs) (g : Grant UInt8) (op : StrOp)
    (hshort : op.Short st) :
    Ends (Granted st.store g (op.needs st)) (op.exec st g) fun st' =>
      Owned stringKind st' (op.apply abs) := by
  obtain ⟨hlen, hop⟩ := hshort
  cases op with
  | create i =>
      rw [StrOp.exec, StrOp.apply]
      exact h.create_ends i (new_ends st.store g)
  | construct i str =>
      rw [StrOp.exec, StrOp.apply]
      exact h.create_ends i (construct_ends st.store g str hop)
  | copy i j => exact copyOp_string h i j ⟨hlen, trivial⟩
  | move i j => exact move_string h i j
  | copyAssign i j => exact copyAssignOp_string h i j ⟨hlen, trivial⟩
  | moveAssign i j => exact moveAssign_string h i j
  | destroy i => exact (destroy_string h i).always
  | clear i =>
      rw [StrOp.exec, StrOp.apply]
      exact h.change_ends i fun v xs _ _ hv => (clear_string hv).always
  | reserve i n =>
      rw [StrOp.exec, StrOp.apply]
      refine h.change_ends i fun v xs hi _ hv => ?_
      exact ((reserve_string hv g (hlen i v hi) hop).mono fun hgranted _ => hgranted).imp
        fun r hr => ⟨hr.1, hr.2.1⟩
  | appendChar i c =>
      rw [StrOp.exec, StrOp.apply]
      refine h.change_ends i fun v xs hi _ hv => ?_
      refine (append_ends hv g (hlen i v hi) (by simp) (reads_char c)).mono fun hgranted => ?_
      rw [StrOp.needs, hi] at hgranted
      exact hgranted
  | append i text =>
      rw [StrOp.exec, StrOp.apply]
      refine h.change_ends i fun v xs hi _ hv => ?_
      refine (append_string hv (hlen i v hi) text hop).mono fun hgranted => ?_
      rw [StrOp.needs, hi] at hgranted
      exact hgranted
  | prependChar i c =>
      rw [StrOp.exec, StrOp.apply]
      refine h.change_ends i fun v xs hi _ hv => ?_
      refine (prepend_ends hv g (hlen i v hi) (by simp) (by simp) (reads_char c)).mono
        fun hgranted => ?_
      rw [StrOp.needs, hi] at hgranted
      exact hgranted
  | prepend i text =>
      rw [StrOp.exec, StrOp.apply]
      refine h.change_ends i fun v xs hi _ hv => ?_
      refine (prepend_string hv (hlen i v hi) text hop).mono fun hgranted => ?_
      rw [StrOp.needs, hi] at hgranted
      exact hgranted
  | popBack i =>
      rw [StrOp.exec, StrOp.apply]
      refine h.change_ends i fun v xs _ _ hv => ?_
      exact (popBack_string hv).always.bind fun r hr => Ends.ok hr.2
  | removePrefix i text =>
      rw [StrOp.exec, StrOp.apply]
      exact h.change_ends i fun v xs _ _ hv => (removePrefix_string hv text).always
  | removeSuffix i text =>
      rw [StrOp.exec, StrOp.apply]
      exact h.change_ends i fun v xs _ _ hv => (removeSuffix_string hv text).always
  | trim i =>
      rw [StrOp.exec, StrOp.apply]
      exact h.change_ends i fun v xs _ _ hv => (trim_string hv).always

/-! ## What users of a string see -/

/-- The content of the string is the list, with a NUL behind it. -/
structure Spells (s : Store UInt8) (v : KString) (xs : List UInt8) : Prop where
  len : v.len = xs.length
  le : v.len ≤ v.capacity
  nul : s.read v.data v.len = .ok 0
  get : ∀ index, v.get s index = .ok xs[index]?
  popBack : ∃ r, v.popBack s = .ok r ∧ r.1 = xs.getLastD 0

/-- Every string spells its list, and comparing strings is comparing their lists. -/
structure Agreeing (st : Objects KString UInt8) (abs : Values (List UInt8)) : Prop where
  spells : ∀ i, Option.Rel (Spells st.store) (st.objs i) (abs i)
  equals : ∀ i j v w xs ys, st.objs i = some v → st.objs j = some w → abs i = some xs →
    abs j = some ys → v.equals st.store w = .ok (decide (xs = ys))
  startsWith : ∀ i j v w xs ys, st.objs i = some v → st.objs j = some w → abs i = some xs →
    abs j = some ys → v.startsWith st.store w = .ok (decide (ys <+: xs))

theorem StringRep.spells (h : StringRep s v xs) : Spells s v xs where
  len := h.len
  le := h.le
  nul := by
    have hnul := h.reads xs.length 0 (by rw [List.getElem?_append_right (Nat.le_refl _), Nat.sub_self]; rfl)
    rwa [Nat.zero_add, ← h.len] at hnul
  get := h.get_eq
  popBack := by
    have hpop := popBack_string h
    cases hr : v.popBack s with
    | ok r => exact ⟨r, rfl, (hpop.of_ok hr).1⟩
    | error e =>
        rw [hr] at hpop
        cases e with
        | access => exact absurd hpop id
        | memory => exact absurd trivial hpop

theorem agreeing_of_owned (h : Owned stringKind st abs) : Agreeing st abs where
  spells i := by
    cases hi : st.objs i with
    | none =>
        rw [h.get_none hi]
        exact .none
    | some v =>
        obtain ⟨xs, hx, hv⟩ := h.get hi
        rw [hx]
        exact .some (StringRep.spells hv)
  equals i j v w xs ys hi hj hx hy := by
    obtain ⟨xs', hx', hv⟩ := h.get hi
    obtain ⟨ys', hy', hw⟩ := h.get hj
    cases hx.symm.trans hx'
    cases hy.symm.trans hy'
    exact equals_eq hv hw
  startsWith i j v w xs ys hi hj hx hy := by
    obtain ⟨xs', hx', hv⟩ := h.get hi
    obtain ⟨ys', hy', hw⟩ := h.get hj
    cases hx.symm.trans hx'
    cases hy.symm.trans hy'
    exact startsWith_eq hv hw

/-- One operation on short strings, with whatever memory is granted. -/
def StrStep (st : Objects KString UInt8) (op : StrOp) (st' : Objects KString UInt8) : Prop :=
  op.Short st ∧ ∃ g, op.exec st g = .ok st'

theorem StrStep.run {ops : List StrOp} {st' : Objects KString UInt8} (h : Owned stringKind st abs)
    (hrun : Run StrStep st ops st') : Owned stringKind st' (ops.foldl StrOp.apply abs) := by
  induction hrun generalizing abs with
  | nil => exact h
  | cons hstep _ ih =>
      obtain ⟨hshort, g, hexec⟩ := hstep
      exact ih ((StrOp.exec_ends h g _ hshort).of_ok hexec)

/-- In every run on short strings from no strings, every string spells its list and is
compared as its list is.  The next operation keeps this, makes no access outside an array,
and returns unless memory runs out. -/
theorem strings_refine (s : Store UInt8) {ops : List StrOp} {st : Objects KString UInt8}
    (hrun : Run StrStep (Objects.empty s) ops st) :
    Agreeing st (ops.foldl StrOp.apply fun _ => none) ∧
    ∀ op g, op.Short st → Ends (Granted st.store g (op.needs st)) (op.exec st g) fun st' =>
      Agreeing st' ((ops ++ [op]).foldl StrOp.apply fun _ => none) := by
  have h := StrStep.run (Owned.empty stringKind s) hrun
  refine ⟨agreeing_of_owned h, fun op g hshort => ?_⟩
  rw [List.foldl_append]
  exact (StrOp.exec_ends h g op hshort).imp fun st' => agreeing_of_owned

/-- Two characters, the second put in front of the first. -/
theorem strings_refine_two : ∃ st : Objects KString UInt8, Agreeing st
    ([StrOp.create 0, .appendChar 0 98, .prependChar 0 97].foldl StrOp.apply fun _ => none) := by
  obtain ⟨st, hrun⟩ : ∃ st, Run StrStep (Objects.empty (Store.empty : Store UInt8))
      [.create 0, .appendChar 0 98, .prependChar 0 97] st := by
    refine ⟨_, .cons ⟨⟨fun i v hv => ?_, trivial⟩, ⟨16, fun _ => 0⟩, rfl⟩
      (.cons ⟨⟨fun i v hv => ?_, trivial⟩, ⟨32, fun _ => 0⟩, rfl⟩
        (.cons ⟨⟨fun i v hv => ?_, trivial⟩, ⟨16, fun _ => 0⟩, rfl⟩ .nil))⟩
    · cases hv
    · cases i with
      | zero =>
          cases hv
          decide
      | succ i => cases hv
    · cases i with
      | zero =>
          cases hv
          decide
      | succ i => cases hv
  exact ⟨st, (strings_refine Store.empty hrun).1⟩

end Avery.Utils
