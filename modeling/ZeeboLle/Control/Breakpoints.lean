import ZeeboLle.Control.Session

/-! What the breakpoints and script hooks of a session on Unicorn hold off. Requests and rounds of
the main loop come in any order. No instruction runs under a script hook, none at a breakpoint in a round,
and what a request executes is counted; the table of breakpoints is what the requests made it. -/
namespace ZeeboLle.Control

open Unicorn Streams Json

inductive DebugAction where
  | request (cycle : Nat) (req : ControlRequest)
  | cycle (sliceInsns : Nat)

namespace DebugMachine

variable {env : Debuggee}

def act (env : Debuggee) (machine : DebugMachine) : DebugAction → DebugMachine × List Executed
  | .request cycle req =>
    let answer := machine.processControlRequest env cycle req
    (answer.machine, answer.executed)
  | .cycle sliceInsns => machine.cycle env sliceInsns

def runActions (env : Debuggee) (machine : DebugMachine) (actions : List DebugAction) : DebugMachine :=
  actions.foldl (fun machine action => (machine.act env action).1) machine

/-- Every action of a session with the machine it meets. -/
def met (env : Debuggee) (machine : DebugMachine) : List DebugAction → List (DebugMachine × DebugAction)
  | [] => []
  | action :: actions => (machine, action) :: met env (machine.act env action).1 actions

def AtBreakpoint (executed : Executed) : Prop :=
  (executed.2.cpus executed.1).regs.readPc ∈ executed.2.breakpoints executed.1

/-- A script hook with an action stands at the instruction. -/
def Scripted (executed : Executed) : Prop :=
  let cpu := executed.2.cpus executed.1
  ∃ action, executed.2.scriptHooks executed.1 cpu.regs.readPc = some action ∧
    (scriptAction action cpu.regs.readPc cpu).isSome

/-- What an instruction may be: not under a script hook, and at a breakpoint only for a request. -/
structure Allowed (forRequest : Bool) (executed : Executed) : Prop where
  unscripted : ¬Scripted executed
  stepping : executed.2.stepping = forRequest
  unbroken : forRequest = false → ¬AtBreakpoint executed

/-- The tables of the debugger, which no instruction reaches. -/
structure SameTables (later earlier : DebugMachine) : Prop where
  breakpoints : later.breakpoints = earlier.breakpoints
  scriptHooks : later.scriptHooks = earlier.scriptHooks
  stepping : later.stepping = earlier.stepping
  quitRequested : later.quitRequested = earlier.quitRequested

theorem SameTables.refl (machine : DebugMachine) : SameTables machine machine := ⟨rfl, rfl, rfl, rfl⟩

theorem SameTables.trans {first second third : DebugMachine} (later : SameTables third second)
    (earlier : SameTables second first) : SameTables third first :=
  ⟨later.1.trans earlier.1, later.2.trans earlier.2, later.3.trans earlier.3, later.4.trans earlier.4⟩

/-- Whatever happens to the hardware. -/
theorem sameTables_hardware (machine : DebugMachine) (hardware : Hardware) :
    SameTables { machine with toHardware := hardware } machine := ⟨rfl, rfl, rfl, rfl⟩

/-- An instruction that the code hook lets through. -/
theorem allowed_of_codeHook {machine : DebugMachine} {c : Fin 2} (free : machine.codeHook env c = none) :
    Allowed machine.stepping (c, machine) := by
  unfold codeHook at free
  dsimp only at free
  split at free
  · cases free
  split at free
  · cases free
  rename_i unscripted
  split at free
  · cases free
  rename_i unbroken
  refine ⟨?_, rfl, fun idle armed => ?_⟩
  · rintro ⟨action, hooked, acts⟩
    rw [show machine.scriptHooks c (machine.cpus c).regs.readPc = some action from hooked,
      Option.bind_some] at unscripted
    rw [unscripted] at acts
    cases acts
  · have here : (machine.cpus c).regs.readPc ∈ machine.breakpoints c := armed
    exact unbroken (by simpa [idle] using here)

theorem codeHook_sameTables {machine stopped : DebugMachine} {c : Fin 2}
    (stops : machine.codeHook env c = some stopped) : SameTables stopped machine := by
  unfold codeHook at stops
  dsimp only at stops
  split at stops
  · cases stops
    exact sameTables_hardware machine _
  split at stops
  · cases stops
    exact ⟨rfl, rfl, rfl, rfl⟩
  split at stops
  · cases stops
    exact ⟨rfl, rfl, rfl, rfl⟩
  · cases stops

/-- What a run of the engine leaves: the tables, and a list of instructions that were allowed. -/
structure Ran (count : Nat) (machine later : DebugMachine) (executed : List Executed) : Prop where
  same : SameTables later machine
  short : executed.length ≤ count
  allowed : ∀ one ∈ executed, Allowed machine.stepping one

theorem Ran.nothing {count : Nat} {machine later : DebugMachine} (same : SameTables later machine) :
    Ran count machine later [] := ⟨same, Nat.zero_le _, by simp⟩

/-- A change of the hardware in front of a run. -/
theorem Ran.after {count : Nat} {machine front later : DebugMachine} {executed : List Executed}
    (ran : Ran count front later executed) (tables : SameTables front machine) :
    Ran count machine later executed :=
  ⟨ran.same.trans tables, ran.short, tables.stepping ▸ ran.allowed⟩

/-- A change of the hardware behind a run. -/
theorem Ran.before {count : Nat} {machine later last : DebugMachine} {executed : List Executed}
    (ran : Ran count machine later executed) (tables : SameTables last later) :
    Ran count machine last executed := ⟨tables.trans ran.same, ran.short, ran.allowed⟩

theorem Ran.append {first second : Nat} {machine middle later : DebugMachine}
    {early late : List Executed} (ran : Ran first machine middle early)
    (also : Ran second middle later late) : Ran (first + second) machine later (early ++ late) := by
  refine ⟨also.same.trans ran.same, ?_, fun one member => ?_⟩
  · rw [List.length_append]
    exact Nat.add_le_add ran.short also.short
  · rcases List.mem_append.mp member with member | member
    · exact ran.allowed one member
    · exact ran.same.stepping ▸ also.allowed one member

theorem Ran.weaken {count more : Nat} {machine later : DebugMachine} {executed : List Executed}
    (ran : Ran count machine later executed) (grows : count ≤ more) : Ran more machine later executed :=
  ⟨ran.same, ran.short.trans grows, ran.allowed⟩

variable (env)

theorem emuLoop_ran (c : Fin 2) (count : Nat) (machine : DebugMachine) :
    Ran count machine (machine.emuLoop env c count).2.1 (machine.emuLoop env c count).2.2 := by
  induction count generalizing machine with
  | zero => exact .nothing (.refl _)
  | succ count ih =>
    unfold emuLoop
    split
    · exact .nothing (.refl _)
    dsimp only
    generalize counted : machine.withCpu c _ = front
    have tables : SameTables front machine := by
      subst counted
      exact ⟨rfl, rfl, rfl, rfl⟩
    refine Ran.after ?_ tables
    split
    · rename_i stopped stops
      exact .nothing (codeHook_sameTables stops)
    · rename_i free
      have one : Ran 1 front front [(c, front)] :=
        ⟨.refl _, le_rfl, by simpa using allowed_of_codeHook free⟩
      split
      · exact (one.before (sameTables_hardware front _)).weaken (by omega)
      · rename_i hardware ran
        have later := (ih { front with toHardware := hardware }).after (sameTables_hardware front _)
        exact (one.append later).weaken (by omega)

theorem ucEmuStart_ran (machine : DebugMachine) (c : Fin 2) (begin : Word) (count : Nat) :
    Ran count machine (machine.ucEmuStart env c begin count).2.1
      (machine.ucEmuStart env c begin count).2.2 :=
  (emuLoop_ran env c count _).after ⟨rfl, rfl, rfl, rfl⟩

theorem slice_ran (sliceInsns : Nat) (c : Fin 2) (machine : DebugMachine) :
    Ran sliceInsns machine (machine.slice env sliceInsns c).1 (machine.slice env sliceInsns c).2 := by
  unfold slice
  dsimp only
  split
  · exact .nothing (.refl _)
  · generalize (if c = 0 then _ else _ : Word) = begin
    have ran := ucEmuStart_ran env machine c begin sliceInsns
    split
    · exact ran.before ⟨rfl, rfl, rfl, rfl⟩
    · exact ran.before ⟨rfl, rfl, rfl, rfl⟩

/-- A round runs two slices at most. -/
theorem cycle_ran (sliceInsns : Nat) (machine : DebugMachine) :
    Ran (sliceInsns + sliceInsns) machine (machine.cycle env sliceInsns).1
      (machine.cycle env sliceInsns).2 := by
  unfold cycle
  split
  · exact .nothing (.refl _)
  · exact ((slice_ran env sliceInsns 0 machine).append (slice_ran env sliceInsns 1 _)).before
      (sameTables_hardware _ _)

theorem passBreakpoint_ran (machine : DebugMachine) (c : Fin 2) :
    Ran 1 machine (machine.passBreakpoint env c).2.1 (machine.passBreakpoint env c).2.2 := by
  unfold passBreakpoint
  split
  · have ran := ucEmuStart_ran env machine c (machine.cpus c).entry 1
    dsimp only
    split
    · exact ran
    · exact ran.before ⟨rfl, rfl, rfl, rfl⟩
  · exact .nothing (.refl _)

theorem stepLoop_ran (c : Fin 2) (ticks : Nat) (machine : DebugMachine) :
    Ran ticks machine (machine.stepLoop env c ticks).2.1 (machine.stepLoop env c ticks).2.2 := by
  induction ticks generalizing machine with
  | zero => exact .nothing (.refl _)
  | succ ticks ih =>
    have one := ucEmuStart_ran env machine c (machine.cpus c).entry 1
    unfold stepLoop
    split
    · rename_i err later executed started
      rw [started] at one
      exact one.weaken (by omega)
    · rename_i later executed started
      rw [started] at one
      have tables : SameTables (later.saveEntry c) later := ⟨rfl, rfl, rfl, rfl⟩
      have saved := one.before tables
      exact (saved.append (ih _)).weaken (by omega)

/-- How many instructions a request may execute. -/
def budget (req : ControlRequest) : Nat :=
  match commandOf req with
  | some .cont => 2
  | some .step => stepTicks req
  | _ => 0

/-- The breakpoints after a request. -/
def breakpointsAfter (machine : DebugMachine) (req : ControlRequest) : Fin 2 → Finset Word :=
  let own := machine.breakpoints (coreOf req)
  match commandOf req with
  | some .bp => Function.update machine.breakpoints (coreOf req) (insert (address req) own)
  | some .bpclear => Function.update machine.breakpoints (coreOf req) (own.erase (address req))
  | _ => machine.breakpoints

/-- An answer that keeps to its budget and leaves the breakpoints so. -/
structure Answered (count : Nat) (breakpoints : Fin 2 → Finset Word) (answer : Answer) : Prop where
  idle : answer.machine.stepping = false
  breakpoints : answer.machine.breakpoints = breakpoints
  short : answer.executed.length ≤ count
  allowed : ∀ one ∈ answer.executed, Allowed true one

variable {machine : DebugMachine} {req : ControlRequest}

/-- An answer for which nothing is executed. -/
theorem Answered.quiet {answer : List Byte × DebugMachine} (idle : machine.stepping = false)
    (same : SameTables answer.2 machine) : Answered 0 machine.breakpoints (.of answer) :=
  ⟨same.stepping.trans idle, same.breakpoints, le_rfl, by simp [Answer.of]⟩

theorem poke_same (machine : DebugMachine) (req : ControlRequest) :
    SameTables (machine.poke req).2 machine := by
  unfold poke
  dsimp only
  split_ifs <;> exact ⟨rfl, rfl, rfl, rfl⟩

theorem setreg_same (machine : DebugMachine) (req : ControlRequest) :
    SameTables (machine.setreg req).2 machine := by
  unfold setreg
  dsimp only
  split_ifs <;> exact ⟨rfl, rfl, rfl, rfl⟩

theorem write_same (machine : DebugMachine) (req : ControlRequest) :
    SameTables (machine.write req).2 machine := by
  unfold write
  dsimp only
  split_ifs <;> exact ⟨rfl, rfl, rfl, rfl⟩

theorem cont_answered (machine : DebugMachine) :
    Answered 2 machine.breakpoints (machine.cont env) := by
  have first := passBreakpoint_ran env { machine with paused := false, stepping := true } 0
  unfold cont
  dsimp only
  split
  · exact ⟨rfl, first.same.breakpoints, first.short.trans (by decide), first.allowed⟩
  · have both := first.append (passBreakpoint_ran env _ 1)
    split
    · exact ⟨rfl, both.same.breakpoints, both.short, both.allowed⟩
    · exact ⟨rfl, both.same.breakpoints, both.short, both.allowed⟩

theorem step_answered (idle : machine.stepping = false) (cycle : Nat) (req : ControlRequest) :
    Answered (stepTicks req) machine.breakpoints (machine.step env cycle req) := by
  have ran := stepLoop_ran env (coreOf req) (stepTicks req) { machine with stepping := true }
  unfold step
  dsimp only
  split
  · exact ⟨idle, rfl, by simp, by simp⟩
  · split
    · exact ⟨rfl, ran.same.breakpoints, ran.short, ran.allowed⟩
    · exact ⟨rfl, ran.same.breakpoints, ran.short, ran.allowed⟩

theorem request_answered (idle : machine.stepping = false) (cycle : Nat) (req : ControlRequest) :
    Answered (budget req) (machine.breakpointsAfter req) (machine.processControlRequest env cycle req) := by
  have unchanged : Answered 0 machine.breakpoints (.of ([], machine)) := .quiet idle (.refl _)
  unfold processControlRequest budget breakpointsAfter
  cases commandOf req with
  | none => exact ⟨unchanged.idle, rfl, le_rfl, by simp⟩
  | some command =>
    cases command with
    | cont => exact cont_answered env machine
    | step => exact step_answered env idle cycle req
    | poke => exact .quiet idle (poke_same machine req)
    | setreg => exact .quiet idle (setreg_same machine req)
    | write => exact .quiet idle (write_same machine req)
    | bp | bpclear | hook | strictUnmapped | pause | quit =>
      exact ⟨idle, rfl, le_rfl, by simp [Answer.of]⟩
    | _ => exact ⟨idle, rfl, le_rfl, by simp⟩

/-- What an action of a session executes. -/
structure Disciplined (machine : DebugMachine) (action : DebugAction) : Prop where
  unscripted : ∀ one ∈ (machine.act env action).2, ¬Scripted one
  /-- A round never executes an instruction at a breakpoint, and nothing if it starts paused. -/
  cycle : ∀ sliceInsns, action = .cycle sliceInsns →
    (∀ one ∈ (machine.act env action).2, ¬AtBreakpoint one) ∧
      (machine.paused = true → (machine.act env action).2 = [])
  request : ∀ cycle req, action = .request cycle req → (machine.act env action).2.length ≤ budget req

/-- What the last request about a breakpoint said of it. -/
def about (c : Fin 2) (addr : Word) : DebugAction → Option Bool
  | .cycle _ => none
  | .request _ req =>
    if coreOf req = c ∧ address req = addr then
      match commandOf req with
      | some .bp => some true
      | some .bpclear => some false
      | _ => none
    else none

theorem act_disciplined (idle : machine.stepping = false) (action : DebugAction) :
    (machine.act env action).1.stepping = false ∧ Disciplined env machine action := by
  cases action with
  | request cycle req =>
    have answered := request_answered env idle cycle req
    refine ⟨answered.idle, fun one member => (answered.allowed one member).unscripted, nofun, ?_⟩
    rintro _ _ ⟨rfl, rfl⟩
    exact answered.short
  | cycle sliceInsns =>
    have ran := cycle_ran env sliceInsns machine
    have allowed (one) (member : one ∈ (machine.cycle env sliceInsns).2) : Allowed false one :=
      idle ▸ ran.allowed one member
    refine ⟨ran.same.stepping.trans idle, fun one member => (allowed one member).unscripted, ?_, nofun⟩
    rintro _ ⟨rfl⟩
    refine ⟨fun one member => (allowed one member).unbroken rfl, fun paused => ?_⟩
    simp [act, DebugMachine.cycle, paused]

theorem act_breakpoints (idle : machine.stepping = false) (action : DebugAction) (c : Fin 2)
    (addr : Word) : addr ∈ (machine.act env action).1.breakpoints c ↔
      (about c addr action).getD (addr ∈ machine.breakpoints c) = true := by
  cases action with
  | cycle sliceInsns =>
    have same : (machine.cycle env sliceInsns).1.breakpoints = machine.breakpoints :=
      (cycle_ran env sliceInsns machine).same.breakpoints
    simp [act, same, about]
  | request cycle req =>
    have answered := request_answered env idle cycle req
    have table : (machine.act env (.request cycle req)).1.breakpoints = machine.breakpointsAfter req :=
      answered.breakpoints
    rw [table, about, breakpointsAfter]
    by_cases own : coreOf req = c
    · subst own
      by_cases here : address req = addr
      · subst here
        rw [if_pos ⟨rfl, rfl⟩]
        cases commandOf req with
        | none => simp
        | some command => cases command <;> simp
      · have there : addr ≠ address req := Ne.symm here
        rw [if_neg fun both => here both.2]
        cases commandOf req with
        | none => simp
        | some command => cases command <;> simp [there]
    · have other : c ≠ coreOf req := Ne.symm own
      rw [if_neg fun both => own both.1]
      cases commandOf req with
      | none => simp
      | some command => cases command <;> simp [Function.update_of_ne other]

theorem run_idle (idle : machine.stepping = false) (actions : List DebugAction) :
    (machine.runActions env actions).stepping = false := by
  induction actions generalizing machine with
  | nil => exact idle
  | cons action actions ih => exact ih (act_disciplined env idle action).1

theorem met_disciplined (idle : machine.stepping = false) (actions : List DebugAction) :
    ∀ entry ∈ machine.met env actions, Disciplined env entry.1 entry.2 := by
  induction actions generalizing machine with
  | nil => simp [met]
  | cons action actions ih =>
    have first := act_disciplined env idle action
    intro entry member
    rcases List.mem_cons.mp member with rfl | member
    · exact first.2
    · exact ih first.1 entry member

/-- In a session that begins between two requests, no instruction is executed under a script hook,
none at a breakpoint but for a request, and no more than a request asks for; nothing runs in a round
that starts paused. A breakpoint stands where the last request about it put one. -/
theorem breakpoints_hold (env : Debuggee) (machine : DebugMachine) (idle : machine.stepping = false)
    (actions : List DebugAction) :
    (∀ entry ∈ machine.met env actions, Disciplined env entry.1 entry.2) ∧
      ∀ c addr, addr ∈ (machine.runActions env actions).breakpoints c ↔
        (actions.reverse.findSome? (about c addr)).getD (addr ∈ machine.breakpoints c) = true := by
  refine ⟨met_disciplined env idle actions, fun c addr => ?_⟩
  induction actions using List.reverseRecOn with
  | nil => simp [runActions]
  | append_singleton actions action ih =>
    have run : machine.runActions env (actions ++ [action]) =
        ((machine.runActions env actions).act env action).1 := by
      simp [runActions]
    rw [run, act_breakpoints env (run_idle env idle actions), List.reverse_append,
      List.reverse_singleton, List.singleton_append, List.findSome?_cons]
    cases about c addr action with
    | some armed => rfl
    | none => simpa using ih

def bpSession : List DebugAction := [.cycle 5, .request 1 bpRequest, .cycle 5]

theorem breakpoints_hold_bpSession :
    (∀ entry ∈ stillMachine.met stillDebuggee bpSession,
        Disciplined stillDebuggee entry.1 entry.2) ∧
      ∀ c addr, addr ∈ (stillMachine.runActions stillDebuggee bpSession).breakpoints c ↔
        (bpSession.reverse.findSome? (about c addr)).getD
          (addr ∈ stillMachine.breakpoints c) = true :=
  breakpoints_hold stillDebuggee stillMachine rfl bpSession

end DebugMachine

end ZeeboLle.Control
