import Avery.Library.Stack

/-!
# Entering and leaving an interrupt

`irq_stub.asm` and `isr_stubs.asm`: a stub pushes what the processor has not, saves the
general registers, and passes the frame to a C++ function as an `isr::Registers`.  The stub
of a line restores them and returns.

`Respects` is what the stub relies on: the function returns with the stack pointer that it
was called with, and leaves the frame alone.  Then the interrupted program goes on with its
general registers, its flags and its stack pointer (`interrupted_resumes`).  The registers of
the SSE and the x87 unit, which `regs::enableSSE` turns on, are not saved: the program finds
in them what the function has left there.
-/

namespace Avery.Interrupts

open Stacks

/-! ## The processor -/

inductive Reg where
  | rax | rbx | rcx | rdx | rbp | rdi | rsi | r8 | r9 | r10 | r11 | r12 | r13 | r14 | r15
deriving DecidableEq

/-- The registers of the SSE and the x87 unit. -/
structure FloatRegs where
  xmm : Fin 16 → BitVec 128
  mxcsr : BitVec 32
  st : Fin 8 → BitVec 80

structure Cpu where
  regs : Reg → BitVec 64
  floatRegs : FloatRegs
  stack : Stack
  rip : BitVec 64
  cs : BitVec 64
  rflags : BitVec 64
  ss : BitVec 64

inductive Instr where
  | cli
  | pushImm (value : BitVec 64)
  | push (r : Reg)
  | pop (r : Reg)
  | movRsp (r : Reg)
  | addRsp (n : BitVec 64)
deriving DecidableEq

/-- The interrupt flag. -/
def flagIF : BitVec 64 := 1#64 <<< 9

def exec (s : Cpu) : Instr → Cpu
  | .cli => { s with rflags := s.rflags &&& ~~~flagIF }
  | .pushImm value => { s with stack := s.stack.push value }
  | .push r => { s with stack := s.stack.push (s.regs r) }
  | .pop r => { s with regs := Function.update s.regs r s.stack.pop.1, stack := s.stack.pop.2 }
  | .movRsp r => { s with regs := Function.update s.regs r s.stack.sp }
  | .addRsp n => { s with stack := { s.stack with sp := s.stack.sp + n } }

def execAll (program : List Instr) (s : Cpu) : Cpu := program.foldl exec s

/-- The exceptions that come with an error code. -/
def hasErrorCode (vector : Nat) : Bool := [8, 10, 11, 12, 13, 14, 17, 21, 29, 30].elem vector

/-- What the processor does before the first instruction of the handler: it aligns the
stack, pushes where it was and perhaps an error code, and clears the interrupt flag. -/
def enter (s : Cpu) (vector : Nat) (errorCode selector handler : BitVec 64) : Cpu :=
  { s with
    stack := Stack.pushAll { s.stack with sp := s.stack.sp &&& ~~~15#64 }
      ([s.ss, s.stack.sp, s.rflags, s.cs, s.rip] ++
        if hasErrorCode vector then [errorCode] else [])
    rflags := s.rflags &&& ~~~flagIF
    cs := selector
    rip := handler }

def iretq (s : Cpu) : Cpu :=
  { s with
    rip := s.stack.mem (slot s.stack.sp 0)
    cs := s.stack.mem (slot s.stack.sp 1)
    rflags := s.stack.mem (slot s.stack.sp 2)
    stack := { s.stack with sp := s.stack.mem (slot s.stack.sp 3) }
    ss := s.stack.mem (slot s.stack.sp 4) }

/-! ## The stubs -/

/-- `ISR_NOERR` and `IRQ`. -/
def stubNoError (vector : Nat) : List Instr :=
  [.cli, .pushImm 0#64, .pushImm (BitVec.ofNat 64 vector)]

/-- `ISR_ERR`. -/
def stubError (vector : Nat) : List Instr := [.cli, .pushImm (BitVec.ofNat 64 vector)]

/-- The stubs `isr0` to `isr31`, and then `irq0` to `irq15`. -/
def stubs : List (List Instr) :=
  [stubNoError 0, stubNoError 1, stubNoError 2, stubNoError 3, stubNoError 4, stubNoError 5,
    stubNoError 6, stubNoError 7, stubError 8, stubNoError 9, stubError 10, stubError 11,
    stubError 12, stubError 13, stubError 14, stubNoError 15, stubNoError 16, stubError 17,
    stubNoError 18, stubNoError 19, stubNoError 20, stubError 21, stubNoError 22,
    stubNoError 23, stubNoError 24, stubNoError 25, stubNoError 26, stubNoError 27,
    stubNoError 28, stubError 29, stubError 30, stubNoError 31, stubNoError 32, stubNoError 33,
    stubNoError 34, stubNoError 35, stubNoError 36, stubNoError 37, stubNoError 38,
    stubNoError 39, stubNoError 40, stubNoError 41, stubNoError 42, stubNoError 43,
    stubNoError 44, stubNoError 45, stubNoError 46, stubNoError 47]

def stub (vector : Nat) : List Instr := stubs.getD vector []

def saved : List Reg :=
  [.rax, .rbx, .rcx, .rdx, .rbp, .rdi, .rsi, .r8, .r9, .r10, .r11, .r12, .r13, .r14, .r15]

def restored : List Reg :=
  [.r15, .r14, .r13, .r12, .r11, .r10, .r9, .r8, .rsi, .rdi, .rbp, .rdx, .rcx, .rbx, .rax]

/-- `irq_common_stub` and `isr_common_stub` before the call. -/
def commonEntry : List Instr := saved.map .push ++ [.movRsp .rdi]

/-- And after the call, up to `iretq`. -/
def commonExit : List Instr := restored.map .pop ++ [.addRsp 16]

/-! ## The frame -/

/-- `isr::Registers`. -/
structure Registers where
  r15 : BitVec 64
  r14 : BitVec 64
  r13 : BitVec 64
  r12 : BitVec 64
  r11 : BitVec 64
  r10 : BitVec 64
  r9 : BitVec 64
  r8 : BitVec 64
  rsi : BitVec 64
  rdi : BitVec 64
  rbp : BitVec 64
  rdx : BitVec 64
  rcx : BitVec 64
  rbx : BitVec 64
  rax : BitVec 64
  int_no : BitVec 64
  err_code : BitVec 64
  rip : BitVec 64
  cs : BitVec 64
  rflags : BitVec 64
  rsp : BitVec 64
  ss : BitVec 64
deriving DecidableEq

/-- The structure at an address. -/
def readRegisters (mem : BitVec 64 → BitVec 64) (p : BitVec 64) : Registers where
  r15 := mem (slot p 0)
  r14 := mem (slot p 1)
  r13 := mem (slot p 2)
  r12 := mem (slot p 3)
  r11 := mem (slot p 4)
  r10 := mem (slot p 5)
  r9 := mem (slot p 6)
  r8 := mem (slot p 7)
  rsi := mem (slot p 8)
  rdi := mem (slot p 9)
  rbp := mem (slot p 10)
  rdx := mem (slot p 11)
  rcx := mem (slot p 12)
  rbx := mem (slot p 13)
  rax := mem (slot p 14)
  int_no := mem (slot p 15)
  err_code := mem (slot p 16)
  rip := mem (slot p 17)
  cs := mem (slot p 18)
  rflags := mem (slot p 19)
  rsp := mem (slot p 20)
  ss := mem (slot p 21)

/-- What the C++ function should find. -/
def Cpu.registers (s : Cpu) (vector errorCode : BitVec 64) : Registers where
  r15 := s.regs .r15
  r14 := s.regs .r14
  r13 := s.regs .r13
  r12 := s.regs .r12
  r11 := s.regs .r11
  r10 := s.regs .r10
  r9 := s.regs .r9
  r8 := s.regs .r8
  rsi := s.regs .rsi
  rdi := s.regs .rdi
  rbp := s.regs .rbp
  rdx := s.regs .rdx
  rcx := s.regs .rcx
  rbx := s.regs .rbx
  rax := s.regs .rax
  int_no := vector
  err_code := errorCode
  rip := s.rip
  cs := s.cs
  rflags := s.rflags
  rsp := s.stack.sp
  ss := s.ss

/-- The processor at the call of the C++ function. -/
def atCall (s : Cpu) (vector : Nat) (errorCode selector handler : BitVec 64) : Cpu :=
  execAll (stub vector ++ commonEntry) (enter s vector errorCode selector handler)

/-- The quadwords of the frame, from the last pushed one on. -/
def frame (s : Cpu) (vector : Nat) (errorCode : BitVec 64) : List (BitVec 64) :=
  restored.map s.regs ++
    [BitVec.ofNat 64 vector, if hasErrorCode vector then errorCode else 0#64, s.rip, s.cs, s.rflags,
      s.stack.sp, s.ss]

theorem stub_eq {vector : Nat} (h : vector < 48) :
    stub vector = if hasErrorCode vector then stubError vector else stubNoError vector := by
  have hall : ∀ v : Fin 48, stub v = if hasErrorCode v then stubError v else stubNoError v := by
    decide
  exact hall ⟨vector, h⟩

theorem execAll_push (rs : List Reg) (s : Cpu) :
    execAll (rs.map .push) s = { s with stack := s.stack.pushAll (rs.map s.regs) } := by
  induction rs generalizing s with
  | nil => rfl
  | cons r rs ih => exact ih (exec s (.push r))

/-- What the stub itself pushes. -/
def stubValues (vector : Nat) : List (BitVec 64) :=
  (if hasErrorCode vector then [] else [0#64]) ++ [BitVec.ofNat 64 vector]

theorem execAll_stub (s : Cpu) {vector : Nat} (h : vector < 48) :
    execAll (stub vector) s =
      { s with rflags := s.rflags &&& ~~~flagIF, stack := s.stack.pushAll (stubValues vector) } := by
  rw [stub_eq h, stubValues]
  cases hasErrorCode vector with
  | true => rfl
  | false => rfl

theorem frame_reverse (s : Cpu) (vector : Nat) (errorCode : BitVec 64) :
    (frame s vector errorCode).reverse =
      [s.ss, s.stack.sp, s.rflags, s.cs, s.rip] ++ (if hasErrorCode vector then [errorCode] else []) ++
        stubValues vector ++ saved.map s.regs := by
  rw [frame, stubValues, List.reverse_append, ← List.map_reverse,
    show restored.reverse = saved from rfl]
  cases hasErrorCode vector with
  | true => rfl
  | false => rfl

theorem length_frame (s : Cpu) (vector : Nat) (errorCode : BitVec 64) :
    (frame s vector errorCode).length = 22 := rfl

theorem atCall_eq (s : Cpu) {vector : Nat} (h : vector < 48) (errorCode selector handler : BitVec 64) :
    atCall s vector errorCode selector handler =
      { regs := Function.update s.regs .rdi
          ((Stack.pushAll { s.stack with sp := s.stack.sp &&& ~~~15#64 }
            (frame s vector errorCode).reverse).sp)
        floatRegs := s.floatRegs
        stack := Stack.pushAll { s.stack with sp := s.stack.sp &&& ~~~15#64 }
          (frame s vector errorCode).reverse
        rip := handler
        cs := selector
        rflags := s.rflags &&& ~~~flagIF &&& ~~~flagIF
        ss := s.ss } := by
  have hsplit : atCall s vector errorCode selector handler =
      execAll [.movRsp .rdi] (execAll (saved.map .push) (execAll (stub vector)
        (enter s vector errorCode selector handler))) := by
    rw [atCall, commonEntry, execAll, List.foldl_append, List.foldl_append]
    rfl
  rw [hsplit, execAll_stub _ h, execAll_push, frame_reverse, pushAll_append, pushAll_append]
  rfl

section

variable (s : Cpu) {vector : Nat} (h : vector < 48) (errorCode selector handler : BitVec 64)

include h

theorem atCall_rdi : (atCall s vector errorCode selector handler).regs .rdi =
    (atCall s vector errorCode selector handler).stack.sp := by
  rw [atCall_eq s h]
  dsimp only
  rw [Function.update_self]

theorem atCall_sp : (atCall s vector errorCode selector handler).stack.sp =
    (s.stack.sp &&& ~~~15#64) - BitVec.ofNat 64 (16 * 11) := by
  rw [atCall_eq s h]
  dsimp only
  rw [pushAll_sp, List.length_reverse, length_frame]

/-- The stack at the call holds the frame. -/
theorem atCall_holds :
    Holds (atCall s vector errorCode selector handler).stack.mem
      (atCall s vector errorCode selector handler).stack.sp (frame s vector errorCode) := by
  have hlength : (frame s vector errorCode).reverse.length + ([] : List (BitVec 64)).length < 2 ^ 60 := by
    rw [List.length_reverse, length_frame]
    decide
  have hnil : Holds s.stack.mem (s.stack.sp &&& ~~~15#64) [] := trivial
  have hpushed := hnil.pushAll (s := { s.stack with sp := s.stack.sp &&& ~~~15#64 }) (frame s vector errorCode).reverse hlength
  rw [List.reverse_reverse, List.append_nil] at hpushed
  rw [atCall_eq s h]
  exact hpushed

end

theorem frame_get {mem : BitVec 64 → BitVec 64} {p : BitVec 64} {s : Cpu} {vector : Nat}
    {errorCode : BitVec 64} (h : Holds mem p (frame s vector errorCode)) {i : Nat} (hi : i < 22) :
    mem (slot p i) = (frame s vector errorCode).getD i 0#64 :=
  h.getD hi

theorem readRegisters_eq {mem : BitVec 64 → BitVec 64} {p : BitVec 64} {s : Cpu} {vector : Nat}
    {errorCode : BitVec 64} (h : Holds mem p (frame s vector errorCode)) :
    readRegisters mem p = s.registers (BitVec.ofNat 64 vector)
      (if hasErrorCode vector then errorCode else 0#64) := by
  have hget : ∀ i < 22, mem (slot p i) = (frame s vector errorCode).getD i 0#64 :=
    fun i hi => frame_get h hi
  rw [readRegisters, hget 0 (by decide), hget 1 (by decide), hget 2 (by decide), hget 3 (by decide),
    hget 4 (by decide), hget 5 (by decide), hget 6 (by decide), hget 7 (by decide),
    hget 8 (by decide), hget 9 (by decide), hget 10 (by decide), hget 11 (by decide),
    hget 12 (by decide), hget 13 (by decide), hget 14 (by decide), hget 15 (by decide),
    hget 16 (by decide), hget 17 (by decide), hget 18 (by decide), hget 19 (by decide),
    hget 20 (by decide), hget 21 (by decide)]
  rfl

/-- Popping registers gives them what the stack holds. -/
theorem execAll_pop {f : Reg → BitVec 64} {rs : List Reg} {s : Cpu} {rest : List (BitVec 64)}
    (h : Holds s.stack.mem s.stack.sp (rs.map f ++ rest)) :
    execAll (rs.map .pop) s =
      { s with
        regs := fun r => if r ∈ rs then f r else s.regs r
        stack := { s.stack with sp := slot s.stack.sp rs.length } } := by
  induction rs generalizing s with
  | nil => simp [execAll, slot_zero]
  | cons r rs ih =>
      obtain ⟨hvalue, hrest⟩ := h
      have hstep : Holds (exec s (.pop r)).stack.mem (exec s (.pop r)).stack.sp (rs.map f ++ rest) := hrest
      change execAll (rs.map .pop) (exec s (.pop r)) = _
      rw [ih hstep]
      simp only [exec, Stack.pop, hvalue, List.mem_cons, List.length_cons]
      rw [slot_succ]
      congr 1
      funext r'
      by_cases hmem : r' ∈ rs
      · simp [hmem]
      · by_cases heq : r' = r
        · simp [heq]
        · simp [hmem, heq]

/-! ## Going back -/

/-- A function that is called with the frame on the stack. -/
structure Respects (call : Cpu → Cpu) (s : Cpu) : Prop where
  sp : (call s).stack.sp = s.stack.sp
  frame : ∀ i < 22, (call s).stack.mem (slot s.stack.sp i) = s.stack.mem (slot s.stack.sp i)

/-- What the stub does after the call. -/
def leave (s : Cpu) : Cpu := iretq (execAll commonExit s)

theorem and_fifteen_eq_zero {x : BitVec 64} : x &&& 15#64 = 0#64 ↔ x.toNat % 16 = 0 := by
  rw [← BitVec.toNat_inj, BitVec.toNat_and]
  exact iff_of_eq (congrArg (· = 0) (Nat.and_two_pow_sub_one_eq_mod _ 4))

theorem aligned_sub {x : BitVec 64} (h : x &&& 15#64 = 0#64) (n : Nat) :
    (x - BitVec.ofNat 64 (16 * n)) &&& 15#64 = 0#64 := by
  rw [and_fifteen_eq_zero] at h ⊢
  bv_omega

/-- With the frame on the stack, leaving takes the processor back to where it was, but for the
registers that are not saved. -/
theorem leave_eq {s t : Cpu} {vector : Nat} {errorCode : BitVec 64}
    (h : Holds t.stack.mem t.stack.sp (frame s vector errorCode)) :
    leave t =
      { s with floatRegs := t.floatRegs, stack := { s.stack with mem := t.stack.mem } } := by
  have hall : ∀ r : Reg, r ∈ restored := by
    intro r
    cases r <;> decide
  have hexit : execAll commonExit t =
      { t with regs := s.regs, stack := { t.stack with sp := slot t.stack.sp 17 } } := by
    have hpops : execAll (restored.map .pop) t = _ := execAll_pop h
    have hsplit : execAll commonExit t = execAll [.addRsp 16] (execAll (restored.map .pop) t) := by
      rw [commonExit, execAll, List.foldl_append]
      rfl
    rw [hsplit, hpops]
    simp only [hall, if_true]
    change { t with
      regs := s.regs
      stack := { t.stack with sp := slot t.stack.sp 15 + 16#64 } } = _
    rw [show slot t.stack.sp 15 + 16#64 = slot t.stack.sp 17 by unfold slot; bv_omega]
  rw [leave, hexit]
  simp only [iretq, slot_slot]
  rw [frame_get h (i := 17) (by decide), frame_get h (i := 18) (by decide), frame_get h (i := 19) (by decide),
    frame_get h (i := 20) (by decide), frame_get h (i := 21) (by decide)]
  rfl

/-- For every vector the C++ function finds the interrupted program in its frame, with the
stack aligned and interrupts off.  When it returns and has left the frame alone, the program
goes on as it was, but with the SSE and x87 registers of the function, and apart from what the
function wrote only the 22 quadwords below the aligned stack pointer have changed. -/
theorem interrupted_resumes (s : Cpu) {vector : Nat} (h : vector < 48)
    (errorCode selector handler : BitVec 64) :
    (readRegisters (atCall s vector errorCode selector handler).stack.mem
          ((atCall s vector errorCode selector handler).regs .rdi) =
        s.registers (BitVec.ofNat 64 vector) (if hasErrorCode vector then errorCode else 0#64)) ∧
      (atCall s vector errorCode selector handler).stack.sp &&& 15#64 = 0#64 ∧
      (atCall s vector errorCode selector handler).rflags &&& flagIF = 0#64 ∧
      (∀ a, (∀ i < 22, a ≠ (s.stack.sp &&& ~~~15#64) - BitVec.ofNat 64 (8 * (i + 1))) →
        (atCall s vector errorCode selector handler).stack.mem a = s.stack.mem a) ∧
      ∀ call, Respects call (atCall s vector errorCode selector handler) →
        leave (call (atCall s vector errorCode selector handler)) =
          { s with
            floatRegs := (call (atCall s vector errorCode selector handler)).floatRegs
            stack :=
              { s.stack with
                mem := (call (atCall s vector errorCode selector handler)).stack.mem } } := by
  have hholds := atCall_holds s h errorCode selector handler
  refine ⟨?_, ?_, ?_, fun a ha => ?_, fun call hcall => ?_⟩
  · rw [atCall_rdi s h]
    exact readRegisters_eq hholds
  · rw [atCall_sp s h]
    exact aligned_sub (by rw [BitVec.and_assoc]; simp) 11
  · rw [atCall_eq s h]
    dsimp only
    rw [BitVec.and_assoc, BitVec.and_comm _ flagIF, BitVec.and_not_self]
    exact BitVec.and_zero
  · rw [atCall_eq s h]
    refine pushAll_above _ _ _ fun i hi => ?_
    rw [List.length_reverse, length_frame] at hi
    exact ha i hi
  · have hleft : Holds (call (atCall s vector errorCode selector handler)).stack.mem
        (call (atCall s vector errorCode selector handler)).stack.sp (frame s vector errorCode) := by
      rw [hcall.sp]
      exact hholds.of_same fun i hi => hcall.frame i hi
    exact leave_eq hleft

/-- A function that uses a general register, the SSE registers and the stack below its
frame. -/
def counts (s : Cpu) : Cpu :=
  { s with
    regs := Function.update s.regs .rax (s.regs .rax + 1#64)
    floatRegs := { s.floatRegs with xmm := fun i => s.floatRegs.xmm i + 1#128 }
    stack := { s.stack with mem := (s.stack.push (s.regs .rax)).mem } }

theorem counts_respects (s : Cpu) : Respects counts s where
  sp := rfl
  frame i hi := Function.update_of_ne (slot_ne_below (Nat.lt_trans hi (by decide))) _ _

/-- A program with its own number in every register, and an unaligned stack. -/
def running : Cpu where
  regs := fun r => if r = .rax then 7#64 else 9#64
  floatRegs := ⟨fun _ => 3#128, 0x1F80#32, fun _ => 0#80⟩
  stack := ⟨0x10004#64, fun _ => 5#64⟩
  rip := 0x4000#64
  cs := 0x08#64
  rflags := 0x202#64
  ss := 0x10#64

theorem interrupted_resumes_running :
    leave (counts (atCall running 32 0#64 0x08#64 0x8000#64)) =
      { running with
        floatRegs := (counts (atCall running 32 0#64 0x08#64 0x8000#64)).floatRegs
        stack :=
          { running.stack with
            mem := (counts (atCall running 32 0#64 0x08#64 0x8000#64)).stack.mem } } :=
  (interrupted_resumes running (by decide) 0#64 0x08#64 0x8000#64).2.2.2.2 counts
    (counts_respects _)

end Avery.Interrupts
