import ScuffedRedis.Foundation.Ownership

/-!
# Sockets own their descriptors

A `Socket` closes its descriptor in its destructor, and moves hand the descriptor on. In any program
with sockets the open descriptors are those that sockets hold, each one of them, and no close is
made of a descriptor that is not open.
-/
namespace ScuffedRedis
namespace Network

open Foundation

/-- The descriptors that are open, and the number of calls of `close` for others. -/
structure Kernel where
  opened : List Nat
  badCloses : Nat

namespace Kernel

def initial : Kernel where
  opened := []
  badCloses := 0

def close (kernel : Kernel) (fd : Nat) : Kernel :=
  if fd ∈ kernel.opened then { kernel with opened := kernel.opened.erase fd }
  else { kernel with badCloses := kernel.badCloses + 1 }

/-- `::socket` or `::accept` returns a descriptor, or `INVALID_SOCKET_FD`. -/
def grant (kernel : Kernel) (granted : Option Nat) : Kernel :=
  { kernel with opened := granted.toList ++ kernel.opened }

/-- A descriptor that is returned is not open already. -/
def Fresh (kernel : Kernel) (granted : Option Nat) : Prop :=
  ∀ fd, granted = some fd → fd ∉ kernel.opened

theorem fresh_none (kernel : Kernel) : kernel.Fresh none := fun _ returned => by cases returned

end Kernel

/-- `fd_`, where `INVALID_SOCKET_FD` is `none`. -/
structure Socket where
  fd : Option Nat

namespace Socket

/-- The default constructor. -/
def invalid : Socket where
  fd := none

def isValid (socket : Socket) : Bool := socket.fd.isSome

def close (socket : Socket) (kernel : Kernel) : Socket × Kernel :=
  match socket.fd with
  | some fd => (invalid, kernel.close fd)
  | none => (socket, kernel)

/-- `granted` is what `::socket` returns. -/
def createTcp (socket : Socket) (kernel : Kernel) (granted : Option Nat) :
    Bool × Socket × Kernel :=
  let (_, kernel) := socket.close kernel
  (granted.isSome, ⟨granted⟩, kernel.grant granted)

/-- `granted` is what `::accept` returns. -/
def accept (socket : Socket) (kernel : Kernel) (granted : Option Nat) : Socket × Kernel :=
  if socket.isValid then (⟨granted⟩, kernel.grant granted) else (invalid, kernel)

/-- The move constructor: the new socket, and `other` after it. -/
def moveConstruct (other : Socket) : Socket × Socket := (⟨other.fd⟩, invalid)

/-- The move assignment from another socket: this socket, `other` and the kernel after it. -/
def moveAssign (socket other : Socket) (kernel : Kernel) : Socket × Socket × Kernel :=
  let (_, kernel) := socket.close kernel
  (⟨other.fd⟩, invalid, kernel)

/-- What is left of a socket that was closed, and of the places with its descriptor. -/
theorem closed_of_owned {places : List (Option Nat)} {place : Nat} {socket : Socket}
    {kernel : Kernel} (owned : Owned places kernel.opened)
    (held : places.getD place none = socket.fd) (noBadClose : kernel.badCloses = 0) :
    (socket.close kernel).1 = invalid ∧
      Owned (places.set place none) (socket.close kernel).2.opened ∧
      (socket.close kernel).2.badCloses = 0 := by
  rw [close]
  cases here : socket.fd with
  | none =>
    refine ⟨congrArg Socket.mk here, ?_, noBadClose⟩
    rw [here] at held
    -- Nothing was there, so nothing is different.
    have same : places.set place none = places := by
      rcases Nat.lt_or_ge place places.length with inside | outside
      · rw [List.getD_eq_getElem _ _ inside] at held
        rw [← held, List.set_getElem_self]
      · exact List.set_eq_of_length_le outside
    rw [same]
    exact owned
  | some fd =>
    rw [here] at held
    have isOpen := owned.mem held
    refine ⟨rfl, ?_, ?_⟩
    · simp only [Kernel.close, if_pos isOpen]
      exact owned.release held
    · simp only [Kernel.close, if_pos isOpen]
      exact noBadClose

/-! ### Programs -/

/-- Sockets are named by their place in the order in which they were constructed. -/
inductive Statement where
  | construct
  | createTcp (place : Nat) (granted : Option Nat)
  | accept (place : Nat) (granted : Option Nat)
  | moveConstruct (source : Nat)
  | moveAssign (target source : Nat)
  | close (place : Nat)
  | destroy (place : Nat)

/-- The sockets of a program, and the kernel. -/
structure Program where
  sockets : List Socket
  kernel : Kernel

namespace Program

def initial : Program where
  sockets := []
  kernel := Kernel.initial

/-- The socket in a place. A program names only sockets that it has constructed; here any other
would be an invalid one. -/
def socket (program : Program) (place : Nat) : Socket := program.sockets.getD place invalid

/-- The destructor closes the socket. Nothing names its place afterwards. -/
def execute (program : Program) : Statement → Program
  | .construct => { program with sockets := program.sockets ++ [invalid] }
  | .createTcp place granted =>
    let (_, socket, kernel) := (program.socket place).createTcp program.kernel granted
    ⟨program.sockets.set place socket, kernel⟩
  | .accept place granted =>
    let (socket, kernel) := (program.socket place).accept program.kernel granted
    ⟨program.sockets ++ [socket], kernel⟩
  | .moveConstruct source =>
    let (socket, other) := moveConstruct (program.socket source)
    { program with sockets := program.sockets.set source other ++ [socket] }
  | .moveAssign target source =>
    if target = source then program
    else
      let (socket, other, kernel) :=
        moveAssign (program.socket target) (program.socket source) program.kernel
      ⟨(program.sockets.set target socket).set source other, kernel⟩
  | .close place | .destroy place =>
    let (socket, kernel) := (program.socket place).close program.kernel
    ⟨program.sockets.set place socket, kernel⟩

def run (program : Program) (statements : List Statement) : Program :=
  statements.foldl execute program

/-- The statement names sockets that are there, and what the kernel returns was not open. -/
def Granted (program : Program) : Statement → Prop
  | .construct => True
  | .createTcp place granted =>
    place < program.sockets.length ∧ ((program.socket place).close program.kernel).2.Fresh granted
  | .accept _ granted => program.kernel.Fresh granted
  | .moveConstruct _ => True
  | .moveAssign target _ => target < program.sockets.length
  | .close _ => True
  | .destroy _ => True

/-- Every statement is granted where it is executed. -/
def GrantedEach (program : Program) : List Statement → Prop
  | [] => True
  | statement :: rest => program.Granted statement ∧ (program.execute statement).GrantedEach rest

/-! ### Ownership -/

def fds (program : Program) : List (Option Nat) := program.sockets.map Socket.fd

/-- The sockets hold the open descriptors, each of them once, and every close was of one that was
open. -/
structure Owns (program : Program) : Prop where
  owned : Owned program.fds program.kernel.opened
  noBadClose : program.kernel.badCloses = 0

theorem fds_getD (program : Program) (place : Nat) :
    program.fds.getD place none = (program.socket place).fd :=
  List.getD_map program.sockets invalid Socket.fd

theorem execute_close (program : Program) (place : Nat) :
    program.execute (.close place) =
      ⟨program.sockets.set place ((program.socket place).close program.kernel).1,
        ((program.socket place).close program.kernel).2⟩ := rfl

theorem execute_createTcp (program : Program) (place : Nat) (granted : Option Nat) :
    program.execute (.createTcp place granted) =
      ⟨program.sockets.set place ⟨granted⟩,
        ((program.socket place).close program.kernel).2.grant granted⟩ := rfl

theorem execute_moveAssign (program : Program) {target source : Nat} (other : target ≠ source) :
    program.execute (.moveAssign target source) =
      ⟨(program.sockets.set target ⟨(program.socket source).fd⟩).set source invalid,
        ((program.socket target).close program.kernel).2⟩ := if_neg other

theorem execute_accept (program : Program) (place : Nat) (granted : Option Nat) :
    program.execute (.accept place granted) =
      if (program.socket place).isValid then
        ⟨program.sockets ++ [⟨granted⟩], program.kernel.grant granted⟩
      else ⟨program.sockets ++ [invalid], program.kernel⟩ := by
  by_cases valid : (program.socket place).isValid = true
  · simp only [execute, Socket.accept, if_pos valid]
  · simp only [execute, Socket.accept, if_neg valid]

section Step

variable {program : Program} (owns : program.Owns)

include owns

/-- A place after its socket was closed. -/
theorem Owns.closed (place : Nat) :
    ((program.socket place).close program.kernel).1 = invalid ∧
      Owned (program.fds.set place none)
        ((program.socket place).close program.kernel).2.opened ∧
      ((program.socket place).close program.kernel).2.badCloses = 0 :=
  closed_of_owned owns.owned (fds_getD program place) owns.noBadClose

theorem Owns.close (place : Nat) : (program.execute (.close place)).Owns := by
  obtain ⟨invalid, owned, noBadClose⟩ := owns.closed place
  rw [execute_close, invalid]
  refine ⟨?_, noBadClose⟩
  rw [fds, List.map_set]
  exact owned

theorem Owns.createTcp {place : Nat} {granted : Option Nat}
    (inside : place < program.sockets.length)
    (fresh : ((program.socket place).close program.kernel).2.Fresh granted) :
    (program.execute (.createTcp place granted)).Owns := by
  obtain ⟨-, owned, noBadClose⟩ := owns.closed place
  refine ⟨?_, noBadClose⟩
  have empty : (program.fds.set place none).getD place none = none := by
    rw [List.getD_eq_getElem?_getD, List.getElem?_set_self (by rwa [fds, List.length_map])]
    rfl
  have filled := owned.fill (by rwa [List.length_set, fds, List.length_map]) empty fresh
  rw [List.set_set] at filled
  rw [execute_createTcp, fds, List.map_set]
  exact filled

theorem Owns.accept (place : Nat) {granted : Option Nat} (fresh : program.kernel.Fresh granted) :
    (program.execute (.accept place granted)).Owns := by
  rw [execute_accept]
  split
  · refine ⟨?_, owns.noBadClose⟩
    rw [fds, List.map_append]
    exact owns.owned.concat fresh
  · refine ⟨?_, owns.noBadClose⟩
    rw [fds, List.map_append]
    exact owns.owned.concat program.kernel.fresh_none

theorem Owns.moveConstruct (source : Nat) : (program.execute (.moveConstruct source)).Owns := by
  refine ⟨?_, owns.noBadClose⟩
  have moved := owns.owned.moveOut source
  rw [fds_getD] at moved
  rw [fds, execute, List.map_append, List.map_set]
  exact moved

theorem Owns.moveAssign {target : Nat} (source : Nat) (inside : target < program.sockets.length) :
    (program.execute (.moveAssign target source)).Owns := by
  by_cases same : target = source
  · rw [Program.execute, if_pos same]
    exact owns
  · obtain ⟨-, owned, noBadClose⟩ := owns.closed target
    rw [execute_moveAssign program same]
    refine ⟨?_, noBadClose⟩
    have within : target < program.fds.length := by rwa [fds, List.length_map]
    have empty : (program.fds.set target none).getD target none = none := by
      rw [List.getD_eq_getElem?_getD, List.getElem?_set_self within]
      rfl
    have moved := owned.moveOver source (by rwa [List.length_set]) empty same
    have kept : (program.fds.set target none).getD source none = (program.socket source).fd := by
      rw [List.getD_eq_getElem?_getD, List.getElem?_set_ne same, ← List.getD_eq_getElem?_getD,
        fds_getD]
    rw [kept, List.set_set] at moved
    rw [fds, List.map_set, List.map_set]
    exact moved

theorem Owns.execute {statement : Statement} (granted : program.Granted statement) :
    (program.execute statement).Owns := by
  cases statement with
  | construct =>
    refine ⟨?_, owns.noBadClose⟩
    rw [fds, Program.execute, List.map_append]
    exact owns.owned.concat program.kernel.fresh_none
  | createTcp place result => exact owns.createTcp granted.1 granted.2
  | accept place result => exact owns.accept place granted
  | moveConstruct source => exact owns.moveConstruct source
  | moveAssign target source => exact owns.moveAssign source granted
  | close place => exact owns.close place
  | destroy place => exact owns.close place

end Step

theorem owns_initial : initial.Owns := ⟨.nil, rfl⟩

theorem owns_run {program : Program} (owns : program.Owns) {statements : List Statement}
    (granted : program.GrantedEach statements) : (program.run statements).Owns := by
  induction statements generalizing program with
  | nil => exact owns
  | cons statement rest ih => exact ih (owns.execute granted.1) granted.2

/-- **Ownership.** In every program that names its own sockets, with a kernel that does not return
descriptors that are open, the sockets hold exactly the open descriptors, no two of them the same,
and no call of `close` was made for a descriptor that was not open. When no socket is valid any
more, nothing is open. -/
theorem run_owns (statements : List Statement) (granted : initial.GrantedEach statements) :
    (initial.run statements).fds.reduceOption.Perm (initial.run statements).kernel.opened ∧
      (initial.run statements).kernel.opened.Nodup ∧
      (initial.run statements).kernel.badCloses = 0 ∧
      ((∀ socket ∈ (initial.run statements).sockets, socket.isValid = false) →
        (initial.run statements).kernel.opened = []) := by
  have owns := owns_run owns_initial granted
  refine ⟨owns.owned.held, owns.owned.distinct, owns.noBadClose, fun invalid => ?_⟩
  have empty : (initial.run statements).fds.reduceOption = [] := by
    rw [List.eq_nil_iff_forall_not_mem]
    intro fd listed
    rw [List.reduceOption_mem_iff, fds, List.mem_map] at listed
    obtain ⟨socket, member, held⟩ := listed
    have gone := invalid socket member
    rw [isValid, held] at gone
    cases gone
  have held := owns.owned.held
  rwa [empty, List.nil_perm] at held

/-- A socket that is created twice, moved and moved back. -/
theorem run_owns_moves :
    initial.GrantedEach [.construct, .createTcp 0 (some 3), .createTcp 0 (some 3),
        .moveConstruct 0, .moveAssign 0 1, .destroy 1] ∧
      (initial.run [.construct, .createTcp 0 (some 3), .createTcp 0 (some 3),
        .moveConstruct 0, .moveAssign 0 1, .destroy 1]).fds.reduceOption.Perm
          (initial.run [.construct, .createTcp 0 (some 3), .createTcp 0 (some 3),
            .moveConstruct 0, .moveAssign 0 1, .destroy 1]).kernel.opened ∧
      (initial.run [.construct, .createTcp 0 (some 3), .createTcp 0 (some 3),
        .moveConstruct 0, .moveAssign 0 1, .destroy 1]).kernel.opened.Nodup ∧
      (initial.run [.construct, .createTcp 0 (some 3), .createTcp 0 (some 3),
        .moveConstruct 0, .moveAssign 0 1, .destroy 1]).kernel.badCloses = 0 ∧
      ((∀ socket ∈ (initial.run [.construct, .createTcp 0 (some 3), .createTcp 0 (some 3),
          .moveConstruct 0, .moveAssign 0 1, .destroy 1]).sockets, socket.isValid = false) →
        (initial.run [.construct, .createTcp 0 (some 3), .createTcp 0 (some 3),
          .moveConstruct 0, .moveAssign 0 1, .destroy 1]).kernel.opened = []) := by
  have granted : initial.GrantedEach [.construct, .createTcp 0 (some 3), .createTcp 0 (some 3),
      .moveConstruct 0, .moveAssign 0 1, .destroy 1] := by
    refine ⟨trivial, ⟨by decide, ?_⟩, ⟨by decide, ?_⟩, trivial, Nat.zero_lt_succ _, trivial,
      trivial⟩
    · rintro fd ⟨⟩
      decide
    · -- The second creation closes the descriptor first.
      rintro fd ⟨⟩
      decide
  exact ⟨granted, run_owns _ granted⟩

end Program
end Socket
end Network
end ScuffedRedis
