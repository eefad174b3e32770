import Mathlib.Data.List.Basic

/-! What the executer relies on from the system: pseudo-terminals with a master
and a slave end, the descriptors that refer to them, and children that write to
one terminal and exit. Every call is logged, since the results about descriptors
and children are about which calls were made. A call that cannot happen
in the state it is made in has no result. -/
namespace ShapeQuake.Terminals

inductive Side where
  | master | slave
  deriving DecidableEq, Repr

/-- An open descriptor of the shell process. Terminals are numbered in the
order they are opened. -/
structure Descriptor where
  fd : Nat
  pty : Nat
  side : Side
  deriving DecidableEq, Repr

/-- A child that has not been waited for. -/
structure Child where
  pid : Nat
  pty : Nat
  exited : Bool
  deriving DecidableEq, Repr

/-- A call that succeeded. A reader is named by the terminal it was started for. -/
inductive Call where
  | opened (pty : Nat)
  | forked (pty : Nat)
  | read (reader pty : Nat)
  | reaped (reader pty : Nat)
  | closed (pty : Nat) (side : Side)
  deriving DecidableEq, Repr

structure Kernel where
  descriptors : List Descriptor
  children : List Child
  ptys : Nat
  /-- Everything a child has written to a terminal. -/
  written : Nat → List UInt8
  /-- What the master end has not read yet. -/
  unread : Nat → List UInt8
  log : List Call

/-- No terminal has been opened. -/
def quiet : Kernel := ⟨[], [], 0, fun _ => [], fun _ => [], []⟩

namespace Kernel

/-- The descriptor with this number. -/
def lookup (kernel : Kernel) (fd : Int) : Option Descriptor :=
  kernel.descriptors.find? fun descriptor => (descriptor.fd : Int) == fd

/-- The terminal whose master end this number refers to. -/
def masterOf (kernel : Kernel) (fd : Int) : Option Nat :=
  match kernel.lookup fd with
  | some ⟨_, pty, .master⟩ => some pty
  | _ => none

/-- `openpty`, with the numbers it returns. -/
def openpty (kernel : Kernel) (master slave : Nat) : Option Kernel :=
  if kernel.lookup master = none ∧ kernel.lookup slave = none ∧ master ≠ slave then
    some
      { kernel with
        descriptors :=
          ⟨master, kernel.ptys, .master⟩ :: ⟨slave, kernel.ptys, .slave⟩ :: kernel.descriptors
        ptys := kernel.ptys + 1
        log := kernel.log ++ [.opened kernel.ptys] }
  else none

/-- `close`. -/
def close (kernel : Kernel) (fd : Int) : Kernel :=
  match kernel.lookup fd with
  | none => kernel
  | some descriptor =>
    { kernel with
      descriptors := kernel.descriptors.erase descriptor
      log := kernel.log ++ [.closed descriptor.pty descriptor.side] }

/-- `fork` of a child that logs in to the terminal of the slave descriptor,
with the number it returns. -/
def fork (kernel : Kernel) (pid : Nat) (slave : Int) : Option (Nat × Kernel) :=
  match kernel.lookup slave with
  | none => none
  | some descriptor =>
    if 0 < pid ∧ ∀ child ∈ kernel.children, child.pid ≠ pid then
      some (descriptor.pty,
        { kernel with
          children := ⟨pid, descriptor.pty, false⟩ :: kernel.children
          log := kernel.log ++ [.forked descriptor.pty] })
    else none

/-- No slave end of the terminal is open any more. -/
def hungUp (kernel : Kernel) (pty : Nat) : Bool :=
  kernel.descriptors.all (fun descriptor => descriptor.pty ≠ pty || descriptor.side = .master) &&
    kernel.children.all (fun child => child.pty ≠ pty || child.exited)

/-- Whether `poll` can report input on a descriptor: there is some, or the
other end is gone. -/
def canReport (kernel : Kernel) (fd : Int) : Bool :=
  match kernel.masterOf fd with
  | none => false
  | some pty => kernel.unread pty ≠ [] || kernel.hungUp pty

/-- Whether `poll` can report no input: there is none. -/
def canStayQuiet (kernel : Kernel) (fd : Int) : Bool :=
  match kernel.masterOf fd with
  | none => true
  | some pty => kernel.unread pty = []

/-- The size of the buffer of the read thread. -/
def bufSize : Nat := 4096

/-- `read`: some of what is there, up to the size of the buffer, or nothing
when it fails. It waits while there is nothing and the other end is open. -/
def read (kernel : Kernel) (reader : Nat) (fd : Int) (count : Option Nat) :
    Option (List UInt8 × Kernel) :=
  match kernel.masterOf fd, count with
  | none, none => some ([], kernel)
  | none, some _ => none
  | some pty, none =>
    if kernel.unread pty = [] ∧ kernel.hungUp pty then some ([], kernel) else none
  | some pty, some count =>
    if 1 ≤ count ∧ count ≤ bufSize ∧ count ≤ (kernel.unread pty).length then
      some ((kernel.unread pty).take count,
        { kernel with
          unread := fun other =>
            if other = pty then (kernel.unread pty).drop count else kernel.unread other
          log := kernel.log ++ [.read reader pty] })
    else none

/-- `waitpid` with `WNOHANG`: whether it reports an exited child, which it then
reaps. A child that runs and a number that is no child both report nothing. -/
def waitpid (kernel : Kernel) (reader pid : Nat) : Bool × Kernel :=
  match kernel.children.find? (fun child => child.pid == pid) with
  | none => (false, kernel)
  | some child =>
    if child.exited then
      (true,
        { kernel with
          children := kernel.children.erase child
          log := kernel.log ++ [.reaped reader child.pty] })
    else (false, kernel)

/-- A running child writes to its terminal. -/
def childWrites (kernel : Kernel) (pid : Nat) (bytes : List UInt8) : Option Kernel :=
  match kernel.children.find? (fun child => child.pid == pid && !child.exited) with
  | none => none
  | some child =>
    let append := fun (contents : Nat → List UInt8) other =>
      if other = child.pty then contents other ++ bytes else contents other
    some { kernel with written := append kernel.written, unread := append kernel.unread }

/-- A running child exits. -/
def childExits (kernel : Kernel) (pid : Nat) : Option Kernel :=
  match kernel.children.find? (fun child => child.pid == pid && !child.exited) with
  | none => none
  | some child =>
    some { kernel with
      children := { child with exited := true } :: kernel.children.erase child }

/-! ## What each call does -/

theorem openpty_some (ran : openpty kernel master slave = some after) :
    kernel.lookup master = none ∧ kernel.lookup slave = none ∧ master ≠ slave ∧
      after = { kernel with
        descriptors :=
          ⟨master, kernel.ptys, .master⟩ :: ⟨slave, kernel.ptys, .slave⟩ :: kernel.descriptors
        ptys := kernel.ptys + 1
        log := kernel.log ++ [.opened kernel.ptys] } := by
  unfold openpty at ran
  split at ran
  · rename_i unused
    cases ran
    exact ⟨unused.1, unused.2.1, unused.2.2, rfl⟩
  · cases ran

theorem fork_some (ran : fork kernel pid slave = some (pty, after)) :
    ∃ descriptor, kernel.lookup slave = some descriptor ∧ descriptor.pty = pty ∧
      (∀ child ∈ kernel.children, child.pid ≠ pid) ∧
      after = { kernel with
        children := ⟨pid, pty, false⟩ :: kernel.children
        log := kernel.log ++ [.forked pty] } := by
  unfold fork at ran
  split at ran
  · cases ran
  · rename_i descriptor found
    split at ran
    · rename_i fresh
      cases ran
      exact ⟨descriptor, found, rfl, fresh.2, rfl⟩
    · cases ran

/-- A read that succeeds takes from the front of what is unread. -/
theorem read_some (ran : read kernel reader fd (some count) = some (bytes, after)) :
    ∃ pty, kernel.masterOf fd = some pty ∧ kernel.unread pty ≠ [] ∧
      bytes = (kernel.unread pty).take count ∧
      after = { kernel with
        unread := fun other =>
          if other = pty then (kernel.unread pty).drop count else kernel.unread other
        log := kernel.log ++ [.read reader pty] } := by
  unfold read at ran
  split at ran
  · rename_i none_
    cases none_
  · cases ran
  · rename_i none_
    cases none_
  · rename_i pty taken master same
    cases same
    split at ran
    · rename_i fits
      cases ran
      refine ⟨pty, master, fun empty => ?_, rfl, rfl⟩
      rw [empty, List.length_nil] at fits
      omega
    · cases ran

/-- A read that fails changes nothing; on a master it means that all is read
and the other end is gone. -/
theorem read_none (ran : read kernel reader fd none = some (bytes, after)) :
    after = kernel ∧
      ∀ pty, kernel.masterOf fd = some pty → kernel.unread pty = [] ∧ kernel.hungUp pty = true := by
  unfold read at ran
  split at ran
  · rename_i closed _
    cases ran
    refine ⟨rfl, fun pty master => ?_⟩
    rw [closed] at master
    cases master
  · cases ran
  · rename_i pty master _
    split at ran
    · rename_i drained
      cases ran
      refine ⟨rfl, fun other same => ?_⟩
      cases master.symm.trans same
      exact drained
    · cases ran
  · rename_i none_
    cases none_

theorem waitpid_true (ran : waitpid kernel reader pid = (true, after)) :
    ∃ child ∈ kernel.children, child.pid = pid ∧ child.exited = true ∧
      kernel.children.find? (fun child => child.pid == pid) = some child ∧
      after = { kernel with
        children := kernel.children.erase child
        log := kernel.log ++ [.reaped reader child.pty] } := by
  unfold waitpid at ran
  split at ran
  · cases ran
  · rename_i child found
    split at ran
    · rename_i exited
      cases ran
      refine ⟨child, List.mem_of_find?_eq_some found, ?_, exited, found, rfl⟩
      simpa using List.find?_some found
    · cases ran

theorem waitpid_false (ran : waitpid kernel reader pid = (false, after)) :
    after = kernel ∧ ∀ child, kernel.children.find? (fun child => child.pid == pid) = some child →
      child.exited = false := by
  unfold waitpid at ran
  split at ran
  · rename_i none_
    cases ran
    refine ⟨rfl, fun child found => ?_⟩
    rw [none_] at found
    cases found
  · rename_i child found
    split at ran
    · cases ran
    · rename_i running
      cases ran
      refine ⟨rfl, fun other same => ?_⟩
      cases found.symm.trans same
      simpa using running

theorem childWrites_some (ran : childWrites kernel pid bytes = some after) :
    ∃ child ∈ kernel.children, child.pid = pid ∧ child.exited = false ∧
      after = { kernel with
        written := fun other =>
          if other = child.pty then kernel.written other ++ bytes else kernel.written other
        unread := fun other =>
          if other = child.pty then kernel.unread other ++ bytes else kernel.unread other } := by
  unfold childWrites at ran
  split at ran
  · cases ran
  · rename_i child found
    cases ran
    have running := List.find?_some found
    simp only [Bool.and_eq_true, beq_iff_eq, Bool.not_eq_true'] at running
    exact ⟨child, List.mem_of_find?_eq_some found, running.1, running.2, rfl⟩

theorem childExits_some (ran : childExits kernel pid = some after) :
    ∃ child ∈ kernel.children, child.pid = pid ∧ child.exited = false ∧
      after = { kernel with
        children := { child with exited := true } :: kernel.children.erase child } := by
  unfold childExits at ran
  split at ran
  · cases ran
  · rename_i child found
    cases ran
    have running := List.find?_some found
    simp only [Bool.and_eq_true, beq_iff_eq, Bool.not_eq_true'] at running
    exact ⟨child, List.mem_of_find?_eq_some found, running.1, running.2, rfl⟩

private theorem find?_erase_of_not [BEq α] [LawfulBEq α] (items : List α) (other : pred item = false) :
    (items.erase item).find? pred = items.find? pred := by
  induction items with
  | nil => rfl
  | cons head rest ih =>
    by_cases same : head = item
    · subst same
      rw [List.erase_cons_head, List.find?_cons_of_neg]
      rw [other]
      exact Bool.false_ne_true
    · rw [List.erase_cons_tail (by simpa using same), List.find?_cons, List.find?_cons, ih]

/-- Closing a slave end leaves every master end open. -/
theorem close_masterOf {kernel : Kernel}
    (slave : kernel.lookup fd = some ⟨number, own, .slave⟩)
    (master : kernel.masterOf other = some pty) : (kernel.close fd).masterOf other = some pty := by
  have apart : ((number : Int) == other) = false := by
    have found := List.find?_some slave
    rw [beq_eq_false_iff_ne]
    intro same
    have fdSame : fd = other := (beq_iff_eq.mp found).symm.trans same
    simp only [masterOf, ← fdSame, slave] at master
    cases master
  have kept : (kernel.close fd).lookup other = kernel.lookup other := by
    unfold close
    rw [slave]
    exact find?_erase_of_not _ apart
  unfold masterOf
  rw [kept]
  exact master

/-! ## What threads and children cannot do -/

/-- Between two steps of the main thread the descriptors stay, children come
from the children there were, and a terminal without children stays silent. -/
structure Others (before after : Kernel) : Prop where
  descriptors : after.descriptors = before.descriptors
  ptys : after.ptys = before.ptys
  children : ∀ child ∈ after.children, ∃ old ∈ before.children,
    child.pid = old.pid ∧ child.pty = old.pty
  pids : (before.children.map Child.pid).Nodup → (after.children.map Child.pid).Nodup
  silent : ∀ pty, (∀ child ∈ before.children, child.pty ≠ pty) →
    after.written pty = before.written pty ∧ (before.unread pty = [] → after.unread pty = [])

theorem others_refl (kernel : Kernel) : Others kernel kernel :=
  ⟨rfl, rfl, fun child member => ⟨child, member, rfl, rfl⟩, id, fun _ _ => ⟨rfl, id⟩⟩

theorem read_others (ran : read kernel reader fd count = some (bytes, after)) :
    Others kernel after := by
  cases count with
  | none =>
    rw [(read_none ran).1]
    exact others_refl kernel
  | some count =>
    obtain ⟨pty, _, some_, _, rfl⟩ := read_some ran
    refine ⟨rfl, rfl, fun child member => ⟨child, member, rfl, rfl⟩, id, fun other _ =>
      ⟨rfl, fun empty => ?_⟩⟩
    show (if other = pty then _ else kernel.unread other) = []
    split
    · rename_i same
      exact absurd (same ▸ empty) some_
    · exact empty

theorem waitpid_others (ran : waitpid kernel reader pid = (reported, after)) :
    Others kernel after := by
  cases reported with
  | false =>
    rw [(waitpid_false ran).1]
    exact others_refl kernel
  | true =>
    obtain ⟨child, _, _, _, _, rfl⟩ := waitpid_true ran
    refine ⟨rfl, rfl, fun other member => ⟨other, List.mem_of_mem_erase member, rfl, rfl⟩,
      fun once => ?_, fun _ _ => ⟨rfl, id⟩⟩
    exact once.sublist (List.erase_sublist.map _)

theorem childWrites_others (ran : childWrites kernel pid bytes = some after) :
    Others kernel after := by
  obtain ⟨child, member, _, _, rfl⟩ := childWrites_some ran
  refine ⟨rfl, rfl, fun child member => ⟨child, member, rfl, rfl⟩, id, fun pty none_ => ?_⟩
  have other : pty ≠ child.pty := fun same => none_ child member same.symm
  simp only [other, ↓reduceIte, true_and]
  exact id

theorem childExits_others (ran : childExits kernel pid = some after) :
    Others kernel after := by
  obtain ⟨child, member, _, _, rfl⟩ := childExits_some ran
  refine ⟨rfl, rfl, fun other inside => ?_, fun once => ?_, fun _ _ => ⟨rfl, id⟩⟩
  · rcases List.mem_cons.mp inside with rfl | inside
    · exact ⟨child, member, rfl, rfl⟩
    · exact ⟨other, List.mem_of_mem_erase inside, rfl, rfl⟩
  · have permuted := (List.perm_cons_erase member).map Child.pid
    exact permuted.nodup_iff.mp once

end Kernel

end ShapeQuake.Terminals
