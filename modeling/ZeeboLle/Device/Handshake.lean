import ZeeboLle.Device.Models
import Mathlib.Data.List.Induction

/-! The handshake over the command block: the applications core issues, the modem services,
in any order. What the two sides see in shared memory is a picture of an abstract exchange
that knows only the command issued last and whether it was serviced. -/
namespace ZeeboLle.Device

open Paging Unicorn

namespace ProcComm

/-- A completion is DONE with no command still pending. -/
def completed (pcom : ProcComm) (host : HostPtr → Byte) : Bool :=
  pcom.rd host offAppCommand = cmdDone && pcom.rd host offPendFlag = 0

def status (pcom : ProcComm) (host : HostPtr → Byte) : Word := pcom.rd host offAppStatus

structure Issue where
  cmd : Word
  data1 : Word
  data2 : Word
deriving DecidableEq

inductive Turn where
  | issue (issue : Issue)
  | service
deriving DecidableEq

/-- Whether a service answered a command, and memory afterwards. -/
def turn (pcom : ProcComm) (host : HostPtr → Byte) : Turn → Bool × (HostPtr → Byte)
  | .issue issue => (false, pcom.core0Issue issue.cmd issue.data1 issue.data2 host)
  | .service => pcom.core1Service host

def exchange (pcom : ProcComm) (host : HostPtr → Byte) (turns : List Turn) : HostPtr → Byte :=
  turns.foldl (fun host next => (pcom.turn host next).2) host

/-- How many services of a list of turns answered a command. -/
def answers (pcom : ProcComm) (host : HostPtr → Byte) : List Turn → Nat
  | [] => 0
  | next :: rest =>
    (if (pcom.turn host next).1 then 1 else 0) + pcom.answers (pcom.turn host next).2 rest

/-- Nothing was issued, the last command waits for the modem, or it was serviced. -/
inductive Phase where
  | idle
  | waiting (issue : Issue)
  | answered (issue : Issue)
deriving DecidableEq

def Phase.next : Phase → Turn → Phase
  | _, .issue issue => .waiting issue
  | .waiting issue, .service => .answered issue
  | phase, .service => phase

def Phase.isWaiting : Phase → Bool
  | .waiting _ => true
  | _ => false

def phaseOf (turns : List Turn) : Phase := turns.foldl Phase.next .idle

/-- The words of the block in a phase. -/
def Shows (pcom : ProcComm) (host : HostPtr → Byte) : Phase → Prop
  | .idle => pcom.rd host offAppCommand = 0 ∧ pcom.rd host offPendFlag = 0
  | .waiting issue =>
    pcom.rd host offAppCommand = issue.cmd ∧ pcom.rd host offAppStatus = statusUnset ∧
      pcom.rd host offAppData1 = issue.data1 ∧ pcom.rd host offAppData2 = issue.data2 ∧
      pcom.rd host offPendCmd = issue.cmd ∧ pcom.rd host offPendFlag = 1
  | .answered issue =>
    pcom.rd host offAppCommand = cmdDone ∧ pcom.rd host offAppStatus = statusFor issue.cmd ∧
      pcom.rd host offAppData1 = issue.data1 ∧ pcom.rd host offAppData2 = issue.data2 ∧
      pcom.rd host offPendFlag = 0

variable {pcom : ProcComm} {host : HostPtr → Byte} {phase : Phase}

theorem shows_bind (idle : pcom.rd host offAppCommand = 0) : Shows pcom (pcom.bind host) .idle := by
  constructor
  · rw [bind, rd_wr_apart _ _ _ (by decide), rd_wr_apart _ _ _ (by decide)]
    exact idle
  · rw [bind, rd_wr]

theorem shows_issue (pcom : ProcComm) (host : HostPtr → Byte) (issue : Issue) :
    Shows pcom (pcom.turn host (.issue issue)).2 (.waiting issue) := by
  obtain ⟨data1, data2⟩ := core0Issue_data pcom issue.cmd issue.data1 issue.data2 host
  refine ⟨?_, ?_, data1, data2, ?_, ?_⟩
  · rw [turn, core0Issue, rd_wr_apart _ _ _ (by decide), rd_wr_apart _ _ _ (by decide), rd_wr]
  · rw [turn, core0Issue, rd_wr_apart _ _ _ (by decide), rd_wr_apart _ _ _ (by decide),
      rd_wr_apart _ _ _ (by decide), rd_wr]
  · rw [turn, core0Issue, rd_wr_apart _ _ _ (by decide), rd_wr]
  · rw [turn, core0Issue, rd_wr]

theorem commandPending_iff : pcom.commandPending host = true ↔ pcom.rd host offPendFlag = 1 :=
  decide_eq_true_iff

/-- A service answers exactly the command that waits. -/
theorem Shows.service (shown : Shows pcom host phase) :
    Shows pcom (pcom.core1Service host).2 (phase.next .service) ∧
      (pcom.core1Service host).1 = phase.isWaiting := by
  have unasked (flag : pcom.rd host offPendFlag = 0) : pcom.core1Service host = (false, host) := by
    apply core1Service_idle
    rw [← Bool.not_eq_true, commandPending_iff, flag]
    decide
  cases phase with
  | idle =>
    rw [unasked shown.2]
    exact ⟨shown, rfl⟩
  | answered issue =>
    rw [unasked shown.2.2.2.2]
    exact ⟨shown, rfl⟩
  | waiting issue =>
    obtain ⟨_, _, data1, data2, cmd, flag⟩ := shown
    have pending := commandPending_iff.mpr flag
    obtain ⟨done, verdict, _⟩ := core1Service_done pcom pending
    obtain ⟨same1, same2⟩ := core1Service_data pcom host
    refine ⟨⟨done, by rw [verdict, cmd], same1.trans data1, same2.trans data2, ?_⟩, ?_⟩
    · rw [core1Service, if_pos pending, rd_wr]
    · rw [core1Service, if_pos pending]
      rfl

theorem Shows.turn (shown : Shows pcom host phase) (next : Turn) :
    Shows pcom (pcom.turn host next).2 (phase.next next) := by
  cases next with
  | issue issue => cases phase <;> exact shows_issue pcom host issue
  | service => exact shown.service.1

theorem shows_exchange (idle : pcom.rd host offAppCommand = 0) (turns : List Turn) :
    Shows pcom (pcom.exchange (pcom.bind host) turns) (phaseOf turns) := by
  induction turns using List.reverseRecOn with
  | nil => exact shows_bind idle
  | append_singleton turns next ih =>
    simp only [exchange, phaseOf, List.foldl_append, List.foldl_cons, List.foldl_nil]
    exact ih.turn next

/-- The flag tells completion apart from a pending command that equals DONE. -/
theorem Shows.completed_iff (shown : Shows pcom host phase) :
    pcom.completed host = true ↔ ∃ issue, phase = .answered issue := by
  rw [completed, Bool.and_eq_true, decide_eq_true_eq, decide_eq_true_eq]
  cases phase with
  | idle =>
    rw [shown.1]
    simp [cmdDone]
  | waiting issue =>
    obtain ⟨_, _, _, _, _, flag⟩ := shown
    rw [flag]
    simp
  | answered issue =>
    obtain ⟨done, _, _, _, flag⟩ := shown
    simp [done, flag]

/-- Services alone answer at most the command that waits. -/
theorem Shows.answers_services (shown : Shows pcom host phase) {services : List Turn}
    (only : ∀ next ∈ services, next = .service) :
    pcom.answers host services =
      if phase.isWaiting = true ∧ services ≠ [] then 1 else 0 := by
  induction services generalizing host phase with
  | nil => simp [answers]
  | cons next rest ih =>
    obtain rfl := only next (by simp)
    obtain ⟨later, answered⟩ := shown.service
    have settled : (phase.next .service).isWaiting = false := by cases phase <;> rfl
    have others := ih later fun next member => only next (List.mem_cons_of_mem _ member)
    rw [settled, if_neg fun waits => Bool.false_ne_true waits.1] at others
    change (if (pcom.core1Service host).1 = true then 1 else 0) +
      pcom.answers (pcom.core1Service host).2 rest = _
    rw [others, answered]
    simp

/-- Outside the four command words and the two shadow words. -/
def Outside (pcom : ProcComm) (ptr : HostPtr) : Prop :=
  ∀ off, off < 0x10 ∨ (0x20 ≤ off ∧ off < 0x28) → ptr ≠ pcom.smem + off

theorem wr_outside {ptr : HostPtr} (outside : pcom.Outside ptr) {off : Nat}
    (word : off + 4 ≤ 0x10 ∨ (0x20 ≤ off ∧ off + 4 ≤ 0x28)) (value : Word) (host : HostPtr → Byte) :
    pcom.wr off value host ptr = host ptr := by
  refine writeAll_outside fun write member same => ?_
  obtain ⟨index, found, here⟩ := List.mem_map.mp (List.of_mem_zip member).1
  have below := List.mem_range.mp found
  have inside : off + index < 0x10 ∨ (0x20 ≤ off + index ∧ off + index < 0x28) := by omega
  refine outside (off + index) inside ?_
  rw [← same, ← here]
  exact Nat.add_assoc ..

theorem turn_outside {ptr : HostPtr} (outside : pcom.Outside ptr) (host : HostPtr → Byte)
    (next : Turn) : (pcom.turn host next).2 ptr = host ptr := by
  cases next with
  | issue issue =>
    change pcom.core0Issue issue.cmd issue.data1 issue.data2 host ptr = host ptr
    rw [core0Issue, wr_outside outside (by decide), wr_outside outside (by decide),
      wr_outside outside (by decide), wr_outside outside (by decide), wr_outside outside (by decide),
      wr_outside outside (by decide)]
  | service =>
    cases pending : pcom.commandPending host with
    | false => rw [turn, core1Service_idle pcom pending]
    | true =>
      have served : (pcom.core1Service host).2 = pcom.wr offPendFlag 0 (pcom.wr offAppCommand cmdDone
          (pcom.wr offAppStatus (statusFor (pcom.rd host offPendCmd)) host)) := by
        rw [core1Service, if_pos pending]
      change (pcom.core1Service host).2 ptr = host ptr
      rw [served, wr_outside outside (by decide), wr_outside outside (by decide),
        wr_outside outside (by decide)]

theorem exchange_outside {ptr : HostPtr} (outside : pcom.Outside ptr) (host : HostPtr → Byte)
    (turns : List Turn) : pcom.exchange host turns ptr = host ptr := by
  induction turns generalizing host with
  | nil => rfl
  | cons next rest ih => exact (ih (pcom.turn host next).2).trans (turn_outside outside host next)

theorem bind_outside {ptr : HostPtr} (outside : pcom.Outside ptr) (host : HostPtr → Byte) :
    pcom.bind host ptr = host ptr := by
  rw [bind, wr_outside outside (by decide), wr_outside outside (by decide)]

/-- The command issued last, with the services since. -/
def LastIssue (turns : List Turn) (issue : Issue) (services : List Turn) : Prop :=
  ∃ before, turns = before ++ .issue issue :: services ∧ ∀ next ∈ services, next = .service

theorem phaseOf_snoc (turns : List Turn) (next : Turn) :
    phaseOf (turns ++ [next]) = (phaseOf turns).next next := by simp [phaseOf]

/-- Services since the last issue settle the phase. -/
theorem LastIssue.phaseOf_eq {turns services : List Turn} {issue : Issue}
    (last : LastIssue turns issue services) :
    phaseOf turns = if services = [] then .waiting issue else .answered issue := by
  obtain ⟨before, rfl, only⟩ := last
  induction services using List.reverseRecOn with
  | nil =>
    rw [phaseOf_snoc]
    cases phaseOf before <;> rfl
  | append_singleton services next ih =>
    have earlier := ih fun next member => only next (by simp [member])
    obtain rfl := only next (by simp)
    have split : before ++ .issue issue :: (services ++ [.service]) =
        before ++ .issue issue :: services ++ [.service] := by simp
    rw [split, phaseOf_snoc, earlier]
    split
    · simp [Phase.next]
    · simp [Phase.next]

theorem exists_lastIssue {turns : List Turn} (asked : phaseOf turns ≠ .idle) :
    ∃ issue services, LastIssue turns issue services := by
  induction turns using List.reverseRecOn with
  | nil => exact absurd rfl asked
  | append_singleton turns next ih =>
    cases next with
    | issue issue => exact ⟨issue, [], turns, rfl, by simp⟩
    | service =>
      have before : phaseOf turns ≠ .idle := by
        intro idle
        rw [phaseOf_snoc, idle] at asked
        exact asked rfl
      obtain ⟨issue, services, earlier, split, only⟩ := ih before
      refine ⟨issue, services ++ [.service], earlier, by simp [split], fun next member => ?_⟩
      rcases List.mem_append.mp member with old | new
      · exact only next old
      · simpa using new

/-- What both sides may rely on after a list of turns. -/
structure Honest (pcom : ProcComm) (host : HostPtr → Byte) (turns : List Turn) : Prop where
  completes : pcom.completed (pcom.exchange (pcom.bind host) turns) = true ↔
    ∃ issue services, LastIssue turns issue services ∧ services ≠ []
  waits : ∀ issue, LastIssue turns issue [] →
    pcom.status (pcom.exchange (pcom.bind host) turns) = statusUnset ∧
      pcom.rd (pcom.exchange (pcom.bind host) turns) offAppCommand = issue.cmd
  answered : ∀ issue services, LastIssue turns issue services → services ≠ [] →
    pcom.status (pcom.exchange (pcom.bind host) turns) =
        (if isSupported issue.cmd then cmdSuccess else cmdFailUnsupported) ∧
      pcom.rd (pcom.exchange (pcom.bind host) turns) offAppData1 = issue.data1 ∧
      pcom.rd (pcom.exchange (pcom.bind host) turns) offAppData2 = issue.data2
  once : ∀ before issue services after, turns = before ++ .issue issue :: (services ++ after) →
    (∀ next ∈ services, next = .service) →
      pcom.answers (pcom.exchange (pcom.bind host) (before ++ [.issue issue])) services =
        if services = [] then 0 else 1
  unasked : ∀ services after, turns = services ++ after → (∀ next ∈ services, next = .service) →
    pcom.answers (pcom.bind host) services = 0
  elsewhere : ∀ ptr, pcom.Outside ptr →
    pcom.exchange (pcom.bind host) turns ptr = host ptr

/-- Every interleaving of issues and services is honest. -/
theorem exchange_honest (pcom : ProcComm) (host : HostPtr → Byte)
    (idle : pcom.rd host offAppCommand = 0) (turns : List Turn) : Honest pcom host turns where
  completes := by
    rw [(shows_exchange idle turns).completed_iff]
    constructor
    · rintro ⟨issue, phase⟩
      obtain ⟨last, services, found⟩ := exists_lastIssue (by rw [phase]; simp)
      refine ⟨last, services, found, ?_⟩
      rintro rfl
      rw [found.phaseOf_eq] at phase
      simp at phase
    · rintro ⟨issue, services, found, served⟩
      exact ⟨issue, by rw [found.phaseOf_eq, if_neg served]⟩
  waits issue last := by
    have shown := shows_exchange idle turns
    rw [last.phaseOf_eq, if_pos rfl] at shown
    exact ⟨shown.2.1, shown.1⟩
  answered issue services last served := by
    have shown := shows_exchange idle turns
    rw [last.phaseOf_eq, if_neg served] at shown
    exact ⟨shown.2.1, shown.2.2.1, shown.2.2.2.1⟩
  once before issue services after _ only := by
    have shown := shows_exchange idle (before ++ [.issue issue])
    have last : LastIssue (before ++ [.issue issue]) issue [] := ⟨before, rfl, by simp⟩
    rw [last.phaseOf_eq, if_pos rfl] at shown
    rw [shown.answers_services only]
    simp [Phase.isWaiting]
  unasked services after _ only := by
    rw [(shows_bind idle).answers_services only]
    simp [Phase.isWaiting]
  elsewhere ptr outside := by
    rw [exchange_outside outside, bind_outside outside]

/-- A pending RESET_MODEM, whose id is the DONE sentinel, is not taken for completed. -/
theorem exchange_honest_reset :
    (⟨0⟩ : ProcComm).rd (fun _ => 0) offAppCommand = 0 ∧
      Honest ⟨0⟩ (fun _ => 0) [.issue ⟨1, 5, 6⟩, .service, .issue ⟨1, 7, 8⟩] := by
  have idle : (⟨0⟩ : ProcComm).rd (fun _ => 0) offAppCommand = 0 := by decide
  exact ⟨idle, exchange_honest ⟨0⟩ (fun _ => 0) idle _⟩

end ProcComm

end ZeeboLle.Device
