import Avery.Library.ByteFile
import Mathlib.Logic.Function.Basic

/-!
# Files and the handles that are open on them

What a file system is for: every file is a list of bytes at a place, and a handle is open on
one file (`Store`).  `Step` says what a call may answer and what it leaves.  A handle that has
its file for itself (`Coherent`) is answered, in every run of calls on any files and handles, as
if nothing else was going on (`Run.alone`).
-/

namespace FileStore

variable {Place Id α : Type*}

/-! ## Files and handles -/

structure Handle (Place : Type*) where
  place : Place
  offset : Nat
  readable : Bool
  writable : Bool

/-- The file that a handle is open on, when its bytes are these. -/
def Handle.view (a : Handle Place) (bytes : List α) : ByteFile.File α :=
  ⟨bytes, a.offset, a.readable, a.writable⟩

structure Store (Place Id α : Type*) where
  files : Place → Option (List α)
  handles : Id → Option (Handle Place)

namespace Store

def setFile [DecidableEq Place] (s : Store Place Id α) (q : Place) (bytes : Option (List α)) :
    Store Place Id α :=
  { s with files := Function.update s.files q bytes }

def setHandle [DecidableEq Id] (s : Store Place Id α) (id : Id) (a : Option (Handle Place)) :
    Store Place Id α :=
  { s with handles := Function.update s.handles id a }

/-- No handle is open on the file at a place. -/
def Shut (s : Store Place Id α) (q : Place) : Prop := ∀ id a, s.handles id = some a → a.place ≠ q

/-- Every handle has a file, and no two handles have the same one. -/
structure Coherent (s : Store Place Id α) : Prop where
  grounded : ∀ {id a}, s.handles id = some a → ∃ bytes, s.files a.place = some bytes
  apart : ∀ {id id' a a'}, s.handles id = some a → s.handles id' = some a' →
    a.place = a'.place → id = id'

variable {s : Store Place Id α} {q q' : Place} {id id' : Id} {a : Option (Handle Place)}
  {bytes : Option (List α)}

section

variable [DecidableEq Place]

@[simp] theorem handles_setFile : (s.setFile q bytes).handles = s.handles := rfl

@[simp] theorem files_setFile_self : (s.setFile q bytes).files q = bytes :=
  Function.update_self ..

theorem files_setFile_of_ne (h : q' ≠ q) : (s.setFile q bytes).files q' = s.files q' :=
  Function.update_of_ne h ..

@[simp] theorem setFile_setFile (bytes' : Option (List α)) :
    (s.setFile q bytes).setFile q bytes' = s.setFile q bytes' := by
  unfold setFile
  rw [Function.update_idem]

/-- A file gets other bytes. -/
theorem Coherent.setFile (hs : s.Coherent) (q : Place) (bytes : List α) :
    (s.setFile q (some bytes)).Coherent where
  grounded {id a} ha := by
    by_cases heq : a.place = q
    · exact ⟨bytes, heq ▸ files_setFile_self⟩
    · rw [files_setFile_of_ne heq]
      exact hs.grounded ha
  apart := hs.apart

/-- A file without handles goes. -/
theorem Coherent.remove (hs : s.Coherent) (hshut : s.Shut q) : (s.setFile q none).Coherent where
  grounded {id a} ha := by
    rw [files_setFile_of_ne (hshut id a ha)]
    exact hs.grounded ha
  apart := hs.apart

end

section

variable [DecidableEq Id]

@[simp] theorem files_setHandle : (s.setHandle id a).files = s.files := rfl

@[simp] theorem handles_setHandle_self : (s.setHandle id a).handles id = a :=
  Function.update_self ..

theorem handles_setHandle_of_ne (h : id' ≠ id) : (s.setHandle id a).handles id' = s.handles id' :=
  Function.update_of_ne h ..

/-- A handle is opened on a file that has no other. -/
theorem Coherent.setHandle (hs : s.Coherent) {b : Handle Place} {contents : List α}
    (hfile : s.files b.place = some contents)
    (hother : ∀ id' a, id' ≠ id → s.handles id' = some a → a.place ≠ b.place) :
    (s.setHandle id (some b)).Coherent where
  grounded {i a} ha := by
    by_cases hi : i = id
    · subst hi
      rw [handles_setHandle_self, Option.some.injEq] at ha
      exact ⟨contents, ha ▸ hfile⟩
    · rw [handles_setHandle_of_ne hi] at ha
      exact hs.grounded ha
  apart {i j a a'} hi hj heq := by
    by_cases hii : i = id
    · by_cases hjj : j = id
      · exact hii.trans hjj.symm
      · subst hii
        rw [handles_setHandle_self, Option.some.injEq] at hi
        rw [handles_setHandle_of_ne hjj] at hj
        exact absurd (heq.symm.trans (congrArg Handle.place hi.symm)) (hother j a' hjj hj)
    · rw [handles_setHandle_of_ne hii] at hi
      by_cases hjj : j = id
      · subst hjj
        rw [handles_setHandle_self, Option.some.injEq] at hj
        exact absurd (heq.trans (congrArg Handle.place hj.symm)) (hother i a hii hi)
      · rw [handles_setHandle_of_ne hjj] at hj
        exact hs.apart hi hj heq

theorem Coherent.close (hs : s.Coherent) (id : Id) : (s.setHandle id none).Coherent := by
  have hold : ∀ {i a}, (s.setHandle id none).handles i = some a → s.handles i = some a := by
    intro i a ha
    by_cases hi : i = id
    · subst hi
      rw [handles_setHandle_self] at ha
      cases ha
    · rwa [handles_setHandle_of_ne hi] at ha
  exact ⟨fun ha => hs.grounded (hold ha), fun hi hj => hs.apart (hold hi) (hold hj)⟩

end

/-- The handle `id` is open on the file at `q`, with the view `f` of it. -/
def Sees (s : Store Place Id α) (id : Id) (q : Place) (f : ByteFile.File α) : Prop :=
  ∃ a bytes, s.handles id = some a ∧ a.place = q ∧ s.files q = some bytes ∧ f = a.view bytes

end Store

/-! ## Calls and answers -/

/-- What a path leads to. -/
inductive Target (Place : Type*) where
  | nothing
  | directory
  | file (place : Place)

/-- How a file is opened. -/
structure Mode where
  readable : Bool
  writable : Bool
  append : Bool
  create : Bool
  truncate : Bool

namespace Mode

/-- The bytes of a file that is opened. -/
def kept (m : Mode) (bytes : List α) : List α := if m.truncate then [] else bytes

@[simp] theorem kept_nil (m : Mode) : m.kept ([] : List α) = [] := ite_self _

/-- The handle on a file that is opened. -/
def handle (m : Mode) (q : Place) (bytes : List α) : Handle Place :=
  ⟨q, if m.append then bytes.length else 0, m.readable, m.writable⟩

end Mode

/-- A call on a file keeps how the file was opened. -/
theorem view_of_step {a : Handle Place} {bytes : List α} {call : ByteFile.Call α}
    {reply : ByteFile.Answer α} {f : ByteFile.File α}
    (h : ByteFile.Step (a.view bytes) call reply f) :
    f = Handle.view { a with offset := f.offset } f.bytes := by
  cases h <;> rfl

inductive Call (Place Id α : Type*) where
  | create (target : Target Place)
  | remove (target : Target Place)
  | openFile (id : Id) (target : Target Place) (mode : Mode)
  | close (id : Id)
  | onFile (id : Id) (call : ByteFile.Call α)

inductive Answer (α : Type*) where
  | done (ok : Bool)
  | file (answer : ByteFile.Answer α)

variable [DecidableEq Place] [DecidableEq Id]

/-- What a call may answer, and the store afterwards.  A path may lead to a directory, and a new
entry may be one.  A store that is closed keeps the length of a file below a limit. -/
inductive Step (limit : Nat) (s : Store Place Id α) :
    Call Place Id α → Answer α → Store Place Id α → Prop
  | created {q : Place} : s.files q = none →
      Step limit s (.create .nothing) (.done true) (s.setFile q (some []))
  | made : Step limit s (.create .nothing) (.done true) s
  | notCreated {target : Target Place} : Step limit s (.create target) (.done false) s
  | removed {q : Place} : s.Shut q →
      Step limit s (.remove (.file q)) (.done true) (s.setFile q none)
  | emptied : Step limit s (.remove .directory) (.done true) s
  | notRemoved {target : Target Place} : Step limit s (.remove target) (.done false) s
  | opened {id : Id} {q : Place} {mode : Mode} {bytes : List α} : s.files q = some bytes →
      s.Shut q → s.handles id = none →
      Step limit s (.openFile id (.file q) mode) (.done true)
        ((s.setFile q (some (mode.kept bytes))).setHandle id
          (some (mode.handle q (mode.kept bytes))))
  | openedNew {id : Id} {q : Place} {mode : Mode} : mode.create = true → s.files q = none →
      s.handles id = none →
      Step limit s (.openFile id .nothing mode) (.done true)
        ((s.setFile q (some [])).setHandle id (some (mode.handle q ([] : List α))))
  | notOpened {id : Id} {target : Target Place} {mode : Mode} : (∀ q, target ≠ .file q) →
      Step limit s (.openFile id target mode) (.done false) s
  | createdOnly {id : Id} {q : Place} {mode : Mode} : mode.create = true → s.files q = none →
      Step limit s (.openFile id .nothing mode) (.done false) (s.setFile q (some []))
  | closed {id : Id} {a : Handle Place} {bytes : List α} : s.handles id = some a →
      s.files a.place = some bytes →
      Step limit s (.close id) (.done true)
        ((s.setFile a.place (some (bytes.take (bytes.length % limit)))).setHandle id none)
  | onFile {id : Id} {a : Handle Place} {bytes : List α} {call : ByteFile.Call α}
      {answer : ByteFile.Answer α} {f : ByteFile.File α} : s.handles id = some a →
      s.files a.place = some bytes → ByteFile.Step (a.view bytes) call answer f →
      Step limit s (.onFile id call) (.file answer)
        ((s.setFile a.place (some f.bytes)).setHandle id (some { a with offset := f.offset }))

/-- A sequence of calls, with an answer for each. -/
inductive Run (limit : Nat) : Store Place Id α → List (Call Place Id α × Answer α) →
    Store Place Id α → Prop
  | nil {s : Store Place Id α} : Run limit s [] s
  | cons {s s' s'' : Store Place Id α} {call : Call Place Id α} {answer : Answer α}
      {rest : List (Call Place Id α × Answer α)} : Step limit s call answer s' →
      Run limit s' rest s'' → Run limit s ((call, answer) :: rest) s''

variable {limit : Nat} {s s' : Store Place Id α} {c : Call Place Id α} {answer : Answer α}
  {trace : List (Call Place Id α × Answer α)}

theorem Step.coherent (h : Step limit s c answer s') (hs : s.Coherent) : s'.Coherent := by
  have hnew : ∀ {q : Place}, s.files q = none → s.Shut q := by
    intro q hnone id a ha heq
    obtain ⟨bytes, hbytes⟩ := hs.grounded ha
    rw [heq, hnone] at hbytes
    cases hbytes
  cases h with
  | created _ => exact hs.setFile _ _
  | made => exact hs
  | notCreated => exact hs
  | removed hshut => exact hs.remove hshut
  | emptied => exact hs
  | notRemoved => exact hs
  | opened _ hshut _ =>
      exact (hs.setFile _ _).setHandle Store.files_setFile_self fun id' a _ ha => hshut id' a ha
  | openedNew _ hnone _ =>
      exact (hs.setFile _ _).setHandle Store.files_setFile_self fun id' a _ ha =>
        hnew hnone id' a ha
  | notOpened _ => exact hs
  | createdOnly _ _ => exact hs.setFile _ _
  | closed _ _ => exact (hs.setFile _ _).close _
  | onFile ha _ _ =>
      exact (hs.setFile _ _).setHandle Store.files_setFile_self fun id' b hne hb heq =>
        hne (hs.apart hb ha heq)

theorem Run.coherent (h : Run limit s trace s') (hs : s.Coherent) : s'.Coherent := by
  induction h with
  | nil => exact hs
  | cons hstep _ ih => exact ih (hstep.coherent hs)

/-! ## One handle among others -/

/-- The call of a handle's own that a call is, with its answer. -/
def own (id : Id) : Call Place Id α × Answer α → Option (ByteFile.Call α × ByteFile.Answer α)
  | (.onFile id' call, .file answer) => if id' = id then some (call, answer) else none
  | _ => none

/-- A call of another handle, or on a path, leaves what the handle sees. -/
theorem Step.alone {id : Id} {q : Place} {f : ByteFile.File α} (h : Step limit s c answer s')
    (hs : s.Coherent) (hsees : s.Sees id q f) (hclose : c ≠ .close id) :
    (own id (c, answer) = none ∧ s'.Sees id q f) ∨
      ∃ call reply f', own id (c, answer) = some (call, reply) ∧ ByteFile.Step f call reply f' ∧
        s'.Sees id q f' := by
  obtain ⟨a, bytes, ha, rfl, hbytes, rfl⟩ := hsees
  -- the file of the handle is not worked on by others
  have hkept : ∀ {p : Place} {contents : Option (List α)}, p ≠ a.place →
      (s.setFile p contents).Sees id a.place (a.view bytes) := fun hne =>
    ⟨a, bytes, ha, rfl, (Store.files_setFile_of_ne hne.symm).trans hbytes, rfl⟩
  have hother : ∀ {t : Store Place Id α} {id' : Id} {b : Option (Handle Place)}, id' ≠ id →
      t.Sees id a.place (a.view bytes) → (t.setHandle id' b).Sees id a.place (a.view bytes) := by
    rintro t id' b hne ⟨a', bytes', ha', hplace, hbytes', heq⟩
    exact ⟨a', bytes', (Store.handles_setHandle_of_ne hne.symm).trans ha', hplace, hbytes', heq⟩
  have hnew : ∀ {p : Place}, s.files p = none → p ≠ a.place := by
    rintro p hnone rfl
    rw [hbytes] at hnone
    cases hnone
  have hfree : ∀ {id' : Id}, s.handles id' = none → id' ≠ id := by
    rintro id' hnone rfl
    rw [ha] at hnone
    cases hnone
  have hstay : s.Sees id a.place (a.view bytes) := ⟨a, bytes, ha, rfl, hbytes, rfl⟩
  cases h with
  | created hnone => exact .inl ⟨rfl, hkept (hnew hnone)⟩
  | made => exact .inl ⟨rfl, hstay⟩
  | notCreated => exact .inl ⟨rfl, hstay⟩
  | removed hshut => exact .inl ⟨rfl, hkept (hshut id a ha).symm⟩
  | emptied => exact .inl ⟨rfl, hstay⟩
  | notRemoved => exact .inl ⟨rfl, hstay⟩
  | opened _ hshut hnone =>
      exact .inl ⟨rfl, hother (hfree hnone) (hkept (hshut id a ha).symm)⟩
  | openedNew _ hnone hid => exact .inl ⟨rfl, hother (hfree hid) (hkept (hnew hnone))⟩
  | notOpened _ => exact .inl ⟨rfl, hstay⟩
  | createdOnly _ hnone => exact .inl ⟨rfl, hkept (hnew hnone)⟩
  | @closed id' b _ hb _ =>
      have hne : id' ≠ id := fun heq => hclose (heq ▸ rfl)
      exact .inl ⟨rfl, hother hne (hkept fun heq => hne (hs.apart hb ha heq))⟩
  | @onFile id' b bytes' call reply f hb hbytes' hstep =>
      by_cases hne : id' = id
      · subst hne
        rw [ha, Option.some.injEq] at hb
        subst hb
        rw [hbytes, Option.some.injEq] at hbytes'
        subst hbytes'
        refine .inr ⟨call, reply, f, if_pos rfl, hstep, { a with offset := f.offset }, f.bytes,
          Store.handles_setHandle_self, rfl, Store.files_setFile_self, view_of_step hstep⟩
      · exact .inl ⟨if_neg hne, hother hne (hkept fun heq => hne (hs.apart hb ha heq))⟩

/-- A handle is answered in a run as the bytes of its file allow, whatever else is called. -/
theorem Run.alone {id : Id} {q : Place} {f : ByteFile.File α} (h : Run limit s trace s')
    (hs : s.Coherent) (hsees : s.Sees id q f) (hclose : ∀ p ∈ trace, p.1 ≠ .close id) :
    ∃ f', ByteFile.Run f (trace.filterMap (own id)) f' ∧ s'.Sees id q f' := by
  induction h generalizing f with
  | nil => exact ⟨f, .nil, hsees⟩
  | @cons s t _ c answer rest hstep _ ih =>
      have hcoherent := hstep.coherent hs
      rcases hstep.alone hs hsees (hclose _ (List.mem_cons_self ..)) with
        ⟨hnone, hsees'⟩ | ⟨call, reply, f₁, hown, hcall, hsees'⟩
      · obtain ⟨f', hrun, hend⟩ := ih hcoherent hsees' fun p hp =>
          hclose p (List.mem_cons_of_mem _ hp)
        exact ⟨f', by rwa [List.filterMap_cons_none hnone], hend⟩
      · obtain ⟨f', hrun, hend⟩ := ih hcoherent hsees' fun p hp =>
          hclose p (List.mem_cons_of_mem _ hp)
        exact ⟨f', by rw [List.filterMap_cons_some hown]; exact .cons hcall hrun, hend⟩

end FileStore
