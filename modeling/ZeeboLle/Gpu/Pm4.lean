import ZeeboLle.Gpu.Draw
import ZeeboLle.Relations.Acyclic
import Mathlib.Data.Finite.Prod

/-! The walk over a PM4 command stream. Packets write registers, draw, wait, or name another
buffer that is walked before the walk goes on. The walk keeps no record of the buffers it is
in, so whether it returns is decided by the buffers alone. -/
namespace ZeeboLle.Gpu

open Unicorn Relations Relation

namespace Pm4Header

def type0Base (raw : Word) : Word := raw &&& 0xffff
def count (raw : Word) : Nat := ((raw >>> 16) &&& 0x3fff).toNat + 1
def type3Op (raw : Word) : Word := (raw >>> 8) &&& 0xff
def type (raw : Word) : Word := (raw >>> 30) &&& 3

end Pm4Header

namespace Cp2xx

def nop : Word := 0x10
def waitForIdle : Word := 0x26
def drawIndx : Word := 0x22
def drawIndx2 : Word := 0x36
def setConstant : Word := 0x2d
def indirectBuf : Word := 0x3f

end Cp2xx

/-- The callbacks; one that is absent does nothing. A null pointer is no buffer. -/
structure Pm4Sink (σ : Type*) where
  writeReg : σ → Word → Word → σ
  draw : σ → Bool → Word → Prim → σ
  waitIdle : σ → σ
  resolveIb : Word → Word → Option (List Word)

namespace Pm4Sink

variable {σ : Type*} (sink : Pm4Sink σ)

/-- Values into consecutive registers. -/
def writeRegs (state : σ) (base : Word) : List Word → σ
  | [] => state
  | value :: values => writeRegs (sink.writeReg state base value) (base + 1) values

/-- A buffer that is worth a walk. -/
def resolved (va size : Word) : Option (List Word) :=
  (sink.resolveIb va size).filter fun ib => !ib.isEmpty

/-- A type 3 packet, with the number of packets of a nested walk. The body reaches to the end
of the buffer; what the header announces and the buffer lacks is not there. -/
def command (enter : List Word → σ → Option (Word × σ)) (header : Word) (body : List Word)
    (state : σ) : Option (Word × σ) :=
  let cnt := Pm4Header.count header
  let op := Pm4Header.type3Op header
  if op = Cp2xx.waitForIdle then some (0, sink.waitIdle state)
  else if op = Cp2xx.drawIndx then
    match body with
    | _ :: indices :: _ => some (0, if 1 < cnt then sink.draw state true indices .triangles else state)
    | _ => some (0, state)
  else if op = Cp2xx.drawIndx2 then
    match body with
    | vertices :: _ => some (0, if 0 < cnt then sink.draw state false vertices .triangles else state)
    | [] => some (0, state)
  else if op = Cp2xx.setConstant then
    match body with
    | data1 :: values =>
      some (0, sink.writeRegs state ((data1 &&& 0xffff) + 0x2000) (values.take (cnt - 1)))
    | [] => some (0, state)
  else if op = Cp2xx.indirectBuf then
    match body with
    | va :: size :: _ =>
      if 2 ≤ cnt then
        match sink.resolved va size with
        | some ib => enter ib state
        | none => some (0, state)
      else some (0, state)
    | _ => some (0, state)
  else some (0, state)

/-- The loop from a place in the buffer to its end, with the number of packets so far. -/
def walkFrom (enter : List Word → σ → Option (Word × σ)) :
    List Word → Word → σ → Option (Word × σ)
  | [], packets, state => some (packets, state)
  | header :: body, packets, state =>
    if Pm4Header.type header = 0 then
      walkFrom enter (body.drop (Pm4Header.count header)) (packets + 1)
        (sink.writeRegs state (Pm4Header.type0Base header) (body.take (Pm4Header.count header)))
    else if Pm4Header.type header = 3 then
      (sink.command enter header body state).bind fun after =>
        walkFrom enter (body.drop (Pm4Header.count header)) (packets + after.1 + 1) after.2
    else walkFrom enter body packets state
termination_by rest => rest.length
decreasing_by
  all_goals simp only [List.length_cons, List.length_drop]
  all_goals omega

/-- The walk, given up where buffers nest deeper than the bound. -/
def pm4Walk : Nat → List Word → σ → Option (Word × σ)
  | 0, _, _ => none
  | depth + 1, dcb, state => walkFrom sink (pm4Walk depth) dcb 0 state

/-- The call returns: its nesting ends. -/
def Returns (dcb : List Word) (state : σ) : Prop := ∃ depth, (sink.pm4Walk depth dcb state).isSome

end Pm4Sink

/-- The address and size in an INDIRECT_BUFFER packet. -/
def ibLink (header : Word) (body : List Word) : List (Word × Word) :=
  if Pm4Header.type3Op header = Cp2xx.indirectBuf ∧ 2 ≤ Pm4Header.count header then
    match body with
    | va :: size :: _ => [(va, size)]
    | _ => []
  else []

/-- The INDIRECT_BUFFER packets the walk comes to, in order. -/
def ibLinks : List Word → List (Word × Word)
  | [] => []
  | header :: body =>
    if Pm4Header.type header = 0 then ibLinks (body.drop (Pm4Header.count header))
    else if Pm4Header.type header = 3 then
      ibLink header body ++ ibLinks (body.drop (Pm4Header.count header))
    else ibLinks body
termination_by rest => rest.length
decreasing_by
  all_goals simp only [List.length_cons, List.length_drop]
  all_goals omega

namespace Pm4Sink

variable {σ : Type*} (sink : Pm4Sink σ) {enter : List Word → σ → Option (Word × σ)}

/-- One packet resolves to a buffer that holds the other. -/
def Leads (link next : Word × Word) : Prop :=
  ∃ ib, sink.resolved link.1 link.2 = some ib ∧ next ∈ ibLinks ib

theorem command_indirect {header : Word} {body : List Word} (state : σ)
    (indirect : Pm4Header.type3Op header = Cp2xx.indirectBuf) :
    sink.command enter header body state =
      match body with
      | va :: size :: _ =>
        if 2 ≤ Pm4Header.count header then
          match sink.resolved va size with
          | some ib => enter ib state
          | none => some (0, state)
        else some (0, state)
      | _ => some (0, state) := by
  unfold command
  rw [indirect]
  rfl

/-- A packet enters the buffer it names if that resolves, and enters nothing otherwise. -/
theorem command_cases (enter : List Word → σ → Option (Word × σ)) (header : Word)
    (body : List Word) (state : σ) :
    (∃ link ib, ibLink header body = [link] ∧ sink.resolved link.1 link.2 = some ib ∧
        sink.command enter header body state = enter ib state) ∨
      ((∀ link ∈ ibLink header body, sink.resolved link.1 link.2 = none) ∧
        ∃ after, sink.command enter header body state = some (0, after)) := by
  by_cases indirect : Pm4Header.type3Op header = Cp2xx.indirectBuf
  · rw [sink.command_indirect state indirect]
    unfold ibLink
    by_cases long : 2 ≤ Pm4Header.count header
    · rw [if_pos ⟨indirect, long⟩]
      rcases body with _ | ⟨va, _ | ⟨size, rest⟩⟩
      · exact .inr ⟨by simp, state, rfl⟩
      · exact .inr ⟨by simp, state, rfl⟩
      · cases found : sink.resolved va size with
        | none => exact .inr ⟨by simp [found], state, by simp [found]⟩
        | some ib => exact .inl ⟨(va, size), ib, rfl, found, by simp [found, long]⟩
    · rw [if_neg fun both => long both.2]
      refine .inr ⟨by simp, state, ?_⟩
      rcases body with _ | ⟨va, _ | ⟨size, rest⟩⟩
      · rfl
      · rfl
      · exact if_neg long
  · refine .inr ⟨by simp [ibLink, indirect], ?_⟩
    simp only [Pm4Sink.command, indirect, if_false]
    split
    · exact ⟨_, rfl⟩
    · split
      · split
        · exact ⟨_, rfl⟩
        · exact ⟨_, rfl⟩
      · split
        · split
          · exact ⟨_, rfl⟩
          · exact ⟨_, rfl⟩
        · split
          · split
            · exact ⟨_, rfl⟩
            · exact ⟨_, rfl⟩
          · exact ⟨_, rfl⟩

/-- The walk of one buffer ends if the walks of the buffers it names do. -/
theorem walkFrom_isSome {rest : List Word} (packets : Word) (state : σ)
    (nested : ∀ link ∈ ibLinks rest, ∀ ib, sink.resolved link.1 link.2 = some ib →
      ∀ state, (enter ib state).isSome) : (sink.walkFrom enter rest packets state).isSome := by
  induction rest using ibLinks.induct generalizing packets state with
  | case1 => rw [walkFrom]; rfl
  | case2 header body type0 ih =>
    rw [walkFrom, if_pos type0]
    rw [ibLinks, if_pos type0] at nested
    exact ih _ _ nested
  | case3 header body other type3 ih =>
    rw [ibLinks, if_neg other, if_pos type3] at nested
    rw [walkFrom, if_neg other, if_pos type3]
    have ended : (sink.command enter header body state).isSome := by
      rcases sink.command_cases enter header body state with
        ⟨link, ib, only, found, entered⟩ | ⟨_, after, stays⟩
      · rw [entered]
        exact nested link (by simp [only]) ib found state
      · rw [stays]
        rfl
    obtain ⟨after, command⟩ := Option.isSome_iff_exists.mp ended
    rw [command, Option.bind_some]
    exact ih _ _ fun link member => nested link (List.mem_append_right _ member)
  | case4 header body other alone ih =>
    rw [walkFrom, if_neg other, if_neg alone]
    rw [ibLinks, if_neg other, if_neg alone] at nested
    exact ih _ _ nested

/-- A walk that ends has ended in every buffer it named. -/
theorem nested_isSome {rest : List Word} {packets : Word} {state : σ}
    (ended : (sink.walkFrom enter rest packets state).isSome) :
    ∀ link ∈ ibLinks rest, ∀ ib, sink.resolved link.1 link.2 = some ib →
      ∃ state, (enter ib state).isSome := by
  induction rest using ibLinks.induct generalizing packets state with
  | case1 => simp [ibLinks]
  | case2 header body type0 ih =>
    rw [walkFrom, if_pos type0] at ended
    rw [ibLinks, if_pos type0]
    exact ih ended
  | case3 header body other type3 ih =>
    rw [walkFrom, if_neg other, if_pos type3] at ended
    rw [ibLinks, if_neg other, if_pos type3]
    cases command : sink.command enter header body state with
    | none => simp [command] at ended
    | some after =>
      rw [command, Option.bind_some] at ended
      intro link member ib found
      rcases List.mem_append.mp member with here | later
      · rcases sink.command_cases enter header body state with
          ⟨only, entered, single, resolved, same⟩ | ⟨unresolved, _⟩
        · rw [single, List.mem_singleton] at here
          subst here
          cases found.symm.trans resolved
          exact ⟨state, by rw [← same, command]; rfl⟩
        · rw [unresolved link here] at found
          cases found
      · exact ih ended link later ib found
  | case4 header body other alone ih =>
    rw [walkFrom, if_neg other, if_neg alone] at ended
    rw [ibLinks, if_neg other, if_neg alone]
    exact ih ended

/-- At this depth and any other below it, the buffer a link names is walked to its end. -/
def WalkedAt (link : Word × Word) (depth : Nat) : Prop :=
  ∀ deeper, depth ≤ deeper → ∀ ib, sink.resolved link.1 link.2 = some ib →
    ∀ state, (sink.pm4Walk deeper ib state).isSome

theorem exists_depth (links : List (Word × Word))
    (walked : ∀ link ∈ links, ∃ depth, sink.WalkedAt link depth) :
    ∃ depth, ∀ link ∈ links, sink.WalkedAt link depth := by
  induction links with
  | nil => exact ⟨0, by simp⟩
  | cons first links ih =>
    obtain ⟨depth, others⟩ := ih fun link member => walked link (List.mem_cons_of_mem first member)
    obtain ⟨own, here⟩ := walked first List.mem_cons_self
    refine ⟨max own depth, fun link member deeper below => ?_⟩
    rcases List.mem_cons.mp member with same | later
    · subst same
      exact here deeper (le_trans (le_max_left _ _) below)
    · exact others link later deeper (le_trans (le_max_right _ _) below)

theorem pm4Walk_isSome {dcb : List Word} {depth deeper : Nat}
    (walked : ∀ link ∈ ibLinks dcb, sink.WalkedAt link depth) (below : depth + 1 ≤ deeper)
    (state : σ) : (sink.pm4Walk deeper dcb state).isSome := by
  obtain ⟨extra, rfl⟩ := Nat.exists_eq_add_of_le below
  rw [Nat.add_right_comm, pm4Walk]
  exact sink.walkFrom_isSome 0 state fun link member ib found =>
    walked link member (depth + extra) (Nat.le_add_right _ _) ib found

theorem exists_walkedAt {link : Word × Word} (ends : Ends sink.Leads link) :
    ∃ depth, sink.WalkedAt link depth := by
  induction ends with
  | intro link _ ih =>
    cases found : sink.resolved link.1 link.2 with
    | none => exact ⟨0, fun _ _ ib other => by rw [found] at other; cases other⟩
    | some ib =>
      obtain ⟨depth, walked⟩ := sink.exists_depth (ibLinks ib) fun next member =>
        ih next ⟨ib, found, member⟩
      refine ⟨depth + 1, fun deeper below other same state => ?_⟩
      cases found.symm.trans same
      exact sink.pm4Walk_isSome walked below state

/-- Where the walk ends, so does every descent through the buffers it names. -/
theorem ends_of_isSome {depth : Nat} {dcb : List Word} {state : σ}
    (ended : (sink.pm4Walk depth dcb state).isSome) : ∀ link ∈ ibLinks dcb, Ends sink.Leads link := by
  induction depth generalizing dcb state with
  | zero => cases ended
  | succ depth ih =>
    rw [pm4Walk] at ended
    intro link member
    refine ⟨link, ?_⟩
    rintro next ⟨ib, found, named⟩
    obtain ⟨inner, nested⟩ := sink.nested_isSome ended link member ib found
    exact ih nested next named

theorem returns_iff_ends {dcb : List Word} {state : σ} :
    sink.Returns dcb state ↔ ∀ link ∈ ibLinks dcb, Ends sink.Leads link := by
  constructor
  · rintro ⟨depth, ended⟩
    exact sink.ends_of_isSome ended
  · intro ends
    obtain ⟨depth, walked⟩ := sink.exists_depth _ fun link member =>
      sink.exists_walkedAt (ends link member)
    exact ⟨depth + 1, sink.pm4Walk_isSome walked le_rfl state⟩

end Pm4Sink

theorem finite_word : Finite Word :=
  Finite.of_injective BitVec.toFin fun _ _ same => BitVec.toFin_inj.mp same

/-- For every ring and every resolver, the walk returns exactly if no INDIRECT_BUFFER packet
that can be reached from the ring leads, directly or through other buffers, back to itself. -/
theorem pm4Walk_returns_iff {σ : Type*} (sink : Pm4Sink σ) (ring : List Word) (state : σ) :
    (∃ depth packets after, sink.pm4Walk depth ring state = some (packets, after)) ↔
      ¬ ∃ link ∈ ibLinks ring, Loops sink.Leads link := by
  have returns : (∃ depth packets after, sink.pm4Walk depth ring state = some (packets, after)) ↔
      sink.Returns ring state := by
    simp only [Pm4Sink.Returns, Option.isSome_iff_exists, Prod.exists]
  have finite := finite_word
  rw [returns, sink.returns_iff_ends]
  constructor
  · rintro ends ⟨link, member, loops⟩
    exact ends_iff_not_loops.mp (ends link member) loops
  · intro straight link member
    exact ends_of_not_loops fun loops => straight ⟨link, member, loops⟩

/-- A buffer whose only packet is an INDIRECT_BUFFER. -/
def selfRing : List Word := [0xc0013f00, 0x1000, 3]

/-- Every address resolves to that buffer. -/
def selfSink : Pm4Sink Unit where
  writeReg _ _ _ := ()
  draw _ _ _ _ := ()
  waitIdle _ := ()
  resolveIb _ _ := some selfRing

theorem self_reference_endless :
    ¬ ∃ depth packets after, selfSink.pm4Walk depth selfRing () = some (packets, after) := by
  have links : ibLinks selfRing = [(0x1000, 3)] := by
    simp [selfRing, ibLinks, ibLink, Pm4Header.type, Pm4Header.type3Op, Pm4Header.count, Cp2xx.indirectBuf]
  rintro ⟨depth, packets, after, ended⟩
  have ends := selfSink.ends_of_isSome (Option.isSome_of_eq_some ended) (0x1000, 3) (by simp [links])
  exact ends.no_return (.single ⟨selfRing, rfl, by simp [links]⟩)

end ZeeboLle.Gpu
