import Mathlib.Algebra.Order.BigOperators.Group.List
import Mathlib.Algebra.Order.Ring.Nat
import SelRej.LosslessTransfer
import SelRej.SessionRefinement

/-!
# Silence

Every wait of the program is timed, except the server's for its next client. When
nothing arrives any more, a child sends what its window and the file allow, and
after ten silent seconds it gives up, as rcopy does in its handshake; in the transfer
rcopy gives up at the first silent poll. `patience` counts the polls that a process
can still see; none of them is there for ever.
-/
namespace SelRej
open PartialRun

variable {fs : List UInt8 → Option (List UInt8)} {req : Request} {file : List UInt8} {f : ℕ}

/-- `rest` packets of the file have not been sent. -/
def ServerPc.patience (rest : ℕ) : ServerPc → ℕ
  | .checkForRRs => rest + 11
  | .openWindow count _ | .processEof count _ _ => 10 - count
  | .returned => 0

def ServerProcess.patience (file : List UInt8) : ServerProcess → ℕ
  | .setupResponse _ _ _ _ => 1
  | .transferData _ bufSize s => s.pc.patience (packets file bufSize - s.seqNum.toNat)
  | .closed => 0

/-- A silent poll in the transfer: the child sends the next packet, or it comes closer
to the end of the loop that it waits in. -/
theorem Serves.timeout_less {w : ℕ} {bufSize : UInt16} {s : Server} {lo n : ℕ}
    (h : Serves w bufSize file s lo n) (hp : Params w bufSize file) (hopen : s.pc ≠ .returned) :
    (s.step bufSize .timeout).Ends fun s' =>
      s'.pc.patience (packets file bufSize - s'.seqNum.toNat) <
        s.pc.patience (packets file bufSize - s.seqNum.toNat) := by
  have hplace := h.place
  cases hpc : s.pc with
  | checkForRRs =>
      rw [hpc] at hplace
      rw [(Server.step_checkForRRs hpc).1]
      have hcontinues := Lossless.transferDataRest_continues h.holding hp hplace.2
      generalize Server.transferDataRest bufSize s = p at hcontinues
      cases hcontinues with
      | @sends s' hserves hpc' =>
          have hplace' := hserves.place
          rw [hpc'] at hplace'
          have hle := hserves.holding.le
          refine Emit.ends_ok ?_
          rw [hpc', hplace.2, hplace'.2]
          simp only [ServerPc.patience]
          omega
      | @waits s' hserves caller hpc' =>
          refine Emit.ends_ok ?_
          rw [hpc']
          simp only [ServerPc.patience]
          omega
      | @closes s' hserves hpc' =>
          refine Emit.ends_ok ?_
          rw [hpc']
          simp only [ServerPc.patience]
          omega
  | openWindow count caller =>
      rw [hpc] at hplace
      obtain ⟨hcount, hlt, _, _⟩ := hplace
      rw [(Server.step_openWindow hpc).1, openWindowTimeout_eq h.holding hlt]
      split_ifs
      · refine Emit.ends_ok ?_
        simp only [ServerPc.patience]
        omega
      · exact Emit.ends_error
  | processEof count flag respBuf =>
      rw [hpc] at hplace
      obtain ⟨hcount, hflag, hread, _, _⟩ := hplace
      rw [(Server.step_processEof hpc).1, processEofTimeout_eq]
      by_cases hlt : count + 1 < 10
      · rw [processEofTest_waits hlt hflag hread]
        refine Emit.ends_ok ?_
        simp only [ServerPc.patience]
        omega
      · rw [Server.processEofTest, if_neg hlt]
        exact Emit.ends_error
  | returned => exact absurd hpc hopen

theorem Serving.timeout_less {p : ServerProcess} {file' : List UInt8}
    (h : Serving req file f p file') (hp : Params req.winSize.toNat req.bufSize file)
    (hruns : p.running = true) :
    (p.step file' none).Ends fun p' => p'.patience file' < p.patience file' := by
  cases h with
  | setupResponse client flag => exact Emit.ends_ok Nat.zero_lt_one
  | @transferData client s lo n hserves hlo hpc =>
      refine Emit.Ends.bind ((hserves.timeout_less hp hpc).mapOut _) fun s' hs' => ?_
      refine Emit.ends_pure ?_
      by_cases hpc' : s'.pc = .returned
      · rw [ServerProcess.transferring, hpc']
        exact Nat.lt_of_le_of_lt (Nat.zero_le _) hs'
      · rw [transferring_of_ne _ _ hpc']
        exact hs'
  | closed file' => cases hruns

theorem Serving.patience_pos {p : ServerProcess} {file' : List UInt8}
    (h : Serving req file f p file') (hruns : p.running = true) : 0 < p.patience file' := by
  cases h with
  | setupResponse client flag => exact Nat.zero_lt_one
  | @transferData client s lo n hserves hlo hpc =>
      have hplace := hserves.place
      simp only [ServerProcess.patience]
      cases hcase : s.pc with
      | checkForRRs => exact Nat.succ_pos _
      | openWindow count caller =>
          rw [hcase] at hplace
          exact Nat.sub_pos_of_lt (Nat.lt_succ_of_le hplace.1)
      | processEof count flag respBuf =>
          rw [hcase] at hplace
          exact Nat.sub_pos_of_lt (Nat.lt_succ_of_le hplace.1)
      | returned => exact absurd hcase hpc
  | closed file' => cases hruns

/-- A child can see one poll for each packet, and eleven more. -/
theorem Serving.patience_le {p : ServerProcess} {file' : List UInt8}
    (h : Serving req file f p file') : p.patience file' ≤ packets file req.bufSize + 11 := by
  cases h with
  | setupResponse client flag => exact Nat.le_add_left 1 _
  | @transferData client s lo n hserves hlo hpc =>
      simp only [ServerProcess.patience]
      cases s.pc with
      | checkForRRs =>
          simp only [ServerPc.patience]
          omega
      | openWindow | processEof | returned =>
          simp only [ServerPc.patience]
          omega
  | closed file' => exact Nat.zero_le _

def RcopyProcess.patience : RcopyProcess → ℕ
  | .getInitialResp _ count _ | .ackInitialResp _ count _ => 10 - count
  | .recvDataLoop _ _ => 1
  | .closed => 0

/-- Where rcopy can wait. In the handshake the buffer holds no answer. -/
inductive Polls : RcopyProcess → Prop where
  | getInitialResp (serverS : Addr) {count : ℕ} {respBuf : List UInt8} (hcount : count < 10)
      (hno : Unanswered respBuf) : Polls (.getInitialResp serverS count respBuf)
  | ackInitialResp (serverS : Addr) {count : ℕ} {respBuf : List UInt8} {received : Option PduS}
      (hcount : count < 10) (hread : interpPDU respBuf = .ok received)
      (hno : ∀ packet, received = some packet → ¬Answers packet) :
      Polls (.ackInitialResp serverS count respBuf)
  | recvDataLoop (serverS : Addr) {r : Rcopy} (hpc : r.pc ≠ .start) :
      Polls (.recvDataLoop serverS r)
  | closed : Polls .closed

theorem Polls.patience_le {p : RcopyProcess} (h : Polls p) : p.patience ≤ 10 := by
  cases h with
  | getInitialResp | ackInitialResp => exact Nat.sub_le 10 _
  | recvDataLoop | closed => exact Nat.le_of_ble_eq_true rfl

theorem Polls.patience_pos {p : RcopyProcess} (h : Polls p) (hruns : p.running = true) :
    0 < p.patience := by
  cases h with
  | getInitialResp serverS hcount => exact Nat.sub_pos_of_lt hcount
  | ackInitialResp serverS hcount => exact Nat.sub_pos_of_lt hcount
  | recvDataLoop => exact Nat.zero_lt_one
  | closed => cases hruns

theorem polls_receiving (serverS : Addr) {r : Rcopy} (hpc : r.pc ≠ .start) :
    Polls (.receiving serverS r) := by
  by_cases hfinished : r.pc = .finished
  · rw [RcopyProcess.receiving, hfinished]
    exact .closed
  · rw [RcopyProcess.receiving_of_waits serverS hfinished]
    exact .recvDataLoop serverS hpc

theorem polls_initialised (req : Request) (serverS : Addr) {packet : PduS} (h : Answers packet) :
    (RcopyProcess.handleConnection req ⟨serverS, .recvDataLoop packet⟩).Ends Polls := by
  unfold RcopyProcess.handleConnection RcopyProcess.initialised
  dsimp only
  split_ifs
  · exact Emit.ends_pure .closed
  · refine Emit.Ends.bind ((receive_answers rfl h).mapOut _) fun r hr => ?_
    exact Emit.ends_pure (polls_receiving serverS hr)

theorem polls_getInitialResp {count : ℕ} {respBuf : List UInt8} {r : RcopySetup}
    {p : SetupProc RcopySetup} (h : Asks req count respBuf r p) :
    (p.mapOut setupEffect >>= RcopyProcess.handleConnection req).Ends Polls := by
  cases h with
  | stops e => exact Emit.ends_error
  | again _ hcount hno => exact Emit.ends_ok (.getInitialResp r.serverS hcount hno)
  | answered _ =>
      exact Emit.ends_ok (.ackInitialResp r.serverS (Nat.zero_lt_succ 9) interpPDU_nil
        fun packet h => by cases h)

theorem polls_ackInitialResp {count : ℕ} {respBuf : List UInt8} {received : Option PduS}
    {r : RcopySetup} {p : SetupProc RcopySetup} (h : Acks received count respBuf r p)
    (hread : interpPDU respBuf = .ok received) :
    (p.mapOut setupEffect >>= RcopyProcess.handleConnection req).Ends Polls := by
  cases h with
  | stops e => exact Emit.ends_error
  | again hcount hno => exact Emit.ends_ok (.ackInitialResp r.serverS hcount hread hno)
  | @answered packet _ h =>
      rw [Emit.mapOut_mk, List.map_nil, Emit.bind_silent]
      exact polls_initialised req r.serverS h

theorem polls_start (req : Request) : (RcopyProcess.start req).Ends Polls :=
  polls_getInitialResp (getInitialRespSend_asks req (Nat.zero_lt_succ 9) unanswered_nil _)

theorem Polls.step {p : RcopyProcess} (h : Polls p) (req : Request) (recv : Recv) :
    (p.step req recv).Ends Polls := by
  cases h with
  | @getInitialResp serverS count respBuf hcount hno =>
      cases recv with
      | none => exact polls_getInitialResp (getInitialRespTest_asks req (count + 1) respBuf _)
      | some received =>
          obtain ⟨src, bytes⟩ := received
          rw [RcopyProcess.step, RcopySetup.step]
          dsimp only
          split_ifs
          · exact polls_getInitialResp (getInitialRespTest_asks req (count + 1) _ _)
          · exact Emit.ends_error
  | @ackInitialResp serverS count respBuf received hcount hread hno =>
      cases recv with
      | none => exact polls_ackInitialResp (ackInitialRespTest_acks hread (count + 1) _) hread
      | some received =>
          obtain ⟨src, bytes⟩ := received
          cases hread' : interpPDU (bytes.take MAXBUF) with
          | error e =>
              rw [RcopyProcess.step, RcopySetup.step]
              dsimp only [RcopySetup.recvLen]
              rw [RcopySetup.ackInitialRespTest, hread', Emit.liftM_eq, Emit.bind_error]
              exact Emit.ends_error
          | ok received =>
              exact polls_ackInitialResp (ackInitialRespTest_acks hread' (count + 1) _) hread'
  | @recvDataLoop serverS r hpc =>
      cases recv with
      | none =>
          exact Emit.Ends.bind ((step_started hpc req.bufSize .timeout).mapOut _) fun r' hr' =>
            Emit.ends_pure (polls_receiving _ hr')
      | some received =>
          exact Emit.Ends.bind ((step_started hpc req.bufSize (.datagram received.2)).mapOut _)
            fun r' hr' => Emit.ends_pure (polls_receiving _ hr')
  | closed => exact Emit.ends_pure .closed

theorem Polls.timeout_less {p : RcopyProcess} (h : Polls p) (req : Request)
    (hruns : p.running = true) : (p.step req none).Ends fun p' => p'.patience < p.patience := by
  cases h with
  | @getInitialResp serverS count respBuf hcount hno =>
      rw [RcopyProcess.step, RcopySetup.step]
      dsimp only
      have hasks := getInitialRespTest_asks req (count + 1) respBuf
        ⟨serverS, .getInitialResp count respBuf⟩
      generalize RcopySetup.getInitialRespTest req (count + 1) respBuf
        ⟨serverS, .getInitialResp count respBuf⟩ = p at hasks
      cases hasks with
      | stops e => exact Emit.ends_error
      | again _ hlt _ =>
          refine Emit.ends_ok ?_
          simp only [RcopyProcess.patience]
          omega
      | answered hanswered => exact absurd hno hanswered
  | @ackInitialResp serverS count respBuf received hcount hread hno =>
      rw [RcopyProcess.step, RcopySetup.step]
      dsimp only
      have hacks := ackInitialRespTest_acks hread (count + 1)
        ⟨serverS, .ackInitialResp count respBuf⟩
      generalize RcopySetup.ackInitialRespTest (count + 1) respBuf
        ⟨serverS, .ackInitialResp count respBuf⟩ = p at hacks
      cases hacks with
      | stops e => exact Emit.ends_error
      | again hlt _ =>
          refine Emit.ends_ok ?_
          simp only [RcopyProcess.patience]
          omega
      | @answered packet hsome h => exact absurd h (hno packet hsome)
  | @recvDataLoop serverS r hpc =>
      rw [RcopyProcess.step, Rcopy.step]
      cases hcase : r.pc with
      | start => exact absurd hcase hpc
      | recvDataLoop | handleSrej lastFlag => exact Emit.ends_error
      | finished =>
          refine Emit.ends_ok ?_
          rw [RcopyProcess.receiving, hcase]
          exact Nat.zero_lt_one
  | closed => cases hruns

def SessionChild.patience (c : SessionChild) : ℕ :=
  if c.halt = none then c.process.patience c.file else 0

namespace Session

variable {x x' : Session}

def patience (x : Session) : ℕ :=
  (if x.rcopyHalt = none then x.rcopy.patience else 0) +
    (x.children.map SessionChild.patience).sum

/-- One party's poll finds nothing. The server waits for its next client without
a limit. -/
def silentStep (fs : List UInt8 → Option (List UInt8)) (req : Request) (x : Session) :
    Addr → Option Session
  | .rcopy => x.step fs req (.rcopy .timeout)
  | .server => none
  | .child j => x.step fs req (.child j .timeout)

/-- Every process has returned or has stopped. -/
structure Stopped (x : Session) : Prop where
  rcopy : x.rcopyHalt = none → x.rcopy = .closed
  children : ∀ c ∈ x.children, c.halt = none → c.process = .closed

/-- What the bound on a silent run depends on. -/
structure Awaits (req : Request) (file : List UInt8) (x : Session) : Prop where
  consistent : ∃ b, Consistent req file x b
  polls : Polls x.rcopy

theorem polls_rcopyStep (h : Polls x.rcopy) (req : Request) (recv : Recv) :
    Polls (x.rcopyStep req recv).rcopy := by
  have hends := h.step req recv
  unfold rcopyStep
  generalize x.rcopy.step req recv = p at hends
  obtain ⟨out, result⟩ := p
  cases result with
  | ok rcopy => exact hends rcopy rfl
  | error e => exact h

theorem polls_session_start (req : Request) : Polls (start req).rcopy := by
  have hends := polls_start req
  unfold start
  generalize RcopyProcess.start req = p at hends
  obtain ⟨out, result⟩ := p
  cases result with
  | ok rcopy => exact hends rcopy rfl
  | error e => exact .getInitialResp .server (Nat.zero_lt_succ 9) unanswered_nil

theorem polls_step (h : Polls x.rcopy) {e : SessionEvent} (hstep : x.step fs req e = some x') :
    Polls x'.rcopy := by
  cases e with
  | rcopy a =>
      obtain ⟨_, _, recv, rfl, _⟩ := step_rcopy hstep
      exact polls_rcopyStep h req recv
  | fork a flag =>
      obtain ⟨src, bytes, rfl, _⟩ := step_fork hstep
      unfold fork
      dsimp only
      split <;> exact h
  | child j a =>
      obtain ⟨c, _, _, _, recv, rfl, _⟩ := step_child hstep
      unfold childStep
      split <;> exact h

theorem Awaits.step (h : Awaits req file x) (hserved : req.Served fs file) {e : SessionEvent}
    (hstep : x.step fs req e = some x') : Awaits req file x' := by
  obtain ⟨b, hb⟩ := h.consistent
  obtain ⟨b', hb', _⟩ := hb.step hserved hstep
  exact ⟨⟨b', hb'⟩, polls_step h.polls hstep⟩

theorem awaits_of_reachable (hserved : req.Served fs file) (h : Reachable fs req x) :
    Awaits req file x := by
  obtain ⟨events, hrun⟩ := h
  exact run_induct (P := Awaits req file) (fun x e x' hx hstep => hx.step hserved hstep)
    ⟨consistent_start req file, polls_session_start req⟩ hrun

theorem sum_map_set (f : SessionChild → ℕ) (c' : SessionChild) {l : List SessionChild} {j : ℕ}
    {c : SessionChild} (h : l[j]? = some c) :
    ((l.set j c').map f).sum + f c = (l.map f).sum + f c' := by
  induction l generalizing j with
  | nil => cases h
  | cons d l ih =>
      cases j with
      | zero =>
          cases h
          simp only [List.set_cons_zero, List.map_cons, List.sum_cons]
          omega
      | succ j =>
          have ih := ih h
          simp only [List.set_cons_succ, List.map_cons, List.sum_cons]
          omega

/-- Every silent poll makes the session's patience smaller. -/
theorem silent_rcopy_less (h : Awaits req file x)
    (hstep : x.step fs req (.rcopy .timeout) = some x') :
    x'.patience < x.patience ∧ x'.children.length = x.children.length := by
  obtain ⟨hhalt, hruns, recv, rfl, hrecv⟩ := step_rcopy hstep
  cases hrecv
  have hless := h.polls.timeout_less req hruns
  have hpos := h.polls.patience_pos hruns
  unfold rcopyStep patience
  rw [if_pos hhalt]
  generalize x.rcopy.step req none = p at hless
  obtain ⟨out, result⟩ := p
  cases result with
  | ok rcopy =>
      refine ⟨?_, rfl⟩
      dsimp only
      rw [if_pos hhalt]
      exact Nat.add_lt_add_right (hless rcopy rfl) _
  | error e =>
      refine ⟨?_, rfl⟩
      dsimp only
      rw [if_neg (by simp)]
      exact Nat.add_lt_add_right hpos _

theorem silent_child_less (h : Awaits req file x) (hp : Params req.winSize.toNat req.bufSize file)
    {j : ℕ} (hstep : x.step fs req (.child j .timeout) = some x') :
    x'.patience < x.patience ∧ x'.children.length = x.children.length := by
  obtain ⟨c, hc, hhalt, hruns, recv, rfl, hrecv⟩ := step_child hstep
  cases hrecv
  obtain ⟨b, hb⟩ := h.consistent
  have hserving := hb.serving c (List.mem_of_getElem? hc)
  have hless := hserving.timeout_less hp hruns
  have hpos := hserving.patience_pos hruns
  have hc_eq : c.patience = c.process.patience c.file := if_pos hhalt
  have hset : ∀ c' : SessionChild, c'.patience < c.patience →
      ((x.children.set j c').map SessionChild.patience).sum <
        (x.children.map SessionChild.patience).sum := by
    intro c' hlt
    have hsum := sum_map_set SessionChild.patience c' hc
    omega
  unfold childStep patience
  generalize c.process.step c.file none = p at hless
  obtain ⟨out, result⟩ := p
  cases result with
  | ok process =>
      refine ⟨Nat.add_lt_add_left (hset _ ?_) _, List.length_set⟩
      rw [hc_eq, SessionChild.patience, if_pos hhalt]
      exact hless process rfl
  | error e =>
      refine ⟨Nat.add_lt_add_left (hset _ ?_) _, List.length_set⟩
      rw [hc_eq, SessionChild.patience, if_neg (by simp)]
      exact hpos

/-- Where nobody can poll in vain any more, everybody has stopped. -/
theorem stopped_of_silent (h : ∀ party, x.silentStep fs req party = none) : Stopped x := by
  constructor
  · intro hhalt
    have hnone := h .rcopy
    rw [silentStep, step] at hnone
    refine RcopyProcess.closed_of_not_running ?_
    by_contra hruns
    rw [if_pos ⟨hhalt, eq_true_of_ne_false hruns⟩] at hnone
    cases hnone
  · intro c hc hhalt
    obtain ⟨j, hj⟩ := List.mem_iff_getElem?.mp hc
    have hnone := h (.child j)
    simp only [silentStep, step, hj] at hnone
    refine ServerProcess.closed_of_not_running ?_
    by_contra hruns
    rw [if_pos ⟨hhalt, eq_true_of_ne_false hruns⟩] at hnone
    cases hnone

theorem patience_le (h : Awaits req file x) :
    x.patience ≤ 10 + x.children.length * (packets file req.bufSize + 11) := by
  obtain ⟨b, hb⟩ := h.consistent
  have hrcopy : (if x.rcopyHalt = none then x.rcopy.patience else 0) ≤ 10 := by
    split_ifs
    · exact h.polls.patience_le
    · exact Nat.zero_le 10
  have hchild : ∀ n ∈ x.children.map SessionChild.patience, n ≤ packets file req.bufSize + 11 := by
    intro n hn
    obtain ⟨c, hc, rfl⟩ := List.mem_map.mp hn
    unfold SessionChild.patience
    split_ifs
    · exact (hb.serving c hc).patience_le
    · exact Nat.zero_le _
  have hsum := List.sum_le_card_nsmul _ _ hchild
  rw [List.length_map, nsmul_eq_mul, Nat.cast_id] at hsum
  exact Nat.add_le_add hrcopy hsum

/-- The measure of a silent run of a session with `k` children. -/
def Remaining (req : Request) (file : List UInt8) (k : ℕ) (x : Session) (m : ℕ) : Prop :=
  Awaits req file x ∧ x.children.length = k ∧ x.patience = m

theorem remaining_step {k : ℕ} (hserved : req.Served fs file) {party : Addr} {m : ℕ}
    (h : Remaining req file k x m) (hstep : x.silentStep fs req party = some x') :
    ∃ m' < m, Remaining req file k x' m' := by
  obtain ⟨hawaits, rfl, rfl⟩ := h
  cases party with
  | rcopy =>
      have hstep : x.step fs req (.rcopy .timeout) = some x' := hstep
      obtain ⟨hless, hlength⟩ := silent_rcopy_less hawaits hstep
      exact ⟨x'.patience, hless, hawaits.step hserved hstep, hlength, rfl⟩
  | server => cases hstep
  | child j =>
      have hstep : x.step fs req (.child j .timeout) = some x' := hstep
      obtain ⟨hless, hlength⟩ := silent_child_less hawaits hserved.params hstep
      exact ⟨x'.patience, hless, hawaits.step hserved hstep, hlength, rfl⟩

/-- When nothing arrives any more, a session is over after a bounded number of
polls, in whatever order they are made. -/
theorem silence_stops_session (hserved : req.Served fs file) (h : Reachable fs req x)
    {parties : List Addr} (hrun : run (silentStep fs req) x parties = some x') :
    parties.length ≤ 10 + x.children.length * (packets file req.bufSize + 11) ∧
      ((∀ party, x'.silentStep fs req party = none) → x'.Stopped) ∧
      ∃ x'', Reaches (silentStep fs req) x' x'' ∧ x''.Stopped := by
  have hawaits := awaits_of_reachable hserved h
  have hstep : ∀ y party y' m, Remaining req file x.children.length y m →
      y.silentStep fs req party = some y' →
      ∃ m' < m, Remaining req file x.children.length y' m' :=
    fun y party y' m hy hstep => remaining_step hserved hy hstep
  obtain ⟨m, hm, hlength⟩ := run_length_le (μ := Remaining req file x.children.length) hstep
    ⟨hawaits, rfl, rfl⟩ hrun
  obtain ⟨x'', _, hreaches, _, hend⟩ := reaches_end hstep hm
  refine ⟨?_, stopped_of_silent, x'', hreaches, stopped_of_silent hend⟩
  have hle := patience_le hawaits
  omega

/-- The first child is in the transfer, the second one and rcopy are in the
handshake. -/
theorem silence_stops_twoChildren : ∃ x x', Reachable onlyA requestA x ∧
    run (silentStep onlyA requestA) x [.child 1, .child 0, .rcopy, .child 0] = some x' ∧
      ∃ x'', Reaches (silentStep onlyA requestA) x' x'' ∧ x''.Stopped := by
  have hrun : ((run (step onlyA requestA) (start requestA) (twoChildren.take 5)).bind fun x =>
      run (silentStep onlyA requestA) x [.child 1, .child 0, .rcopy, .child 0]).isSome = true := by
    decide +kernel
  obtain ⟨x', hx'⟩ := Option.isSome_iff_exists.mp hrun
  obtain ⟨x, hx, hsilent⟩ := Option.bind_eq_some_iff.mp hx'
  obtain ⟨_, _, hstops⟩ := silence_stops_session served_onlyA ⟨_, hx⟩ hsilent
  exact ⟨x, x', ⟨_, hx⟩, hsilent, hstops⟩

end Session
end SelRej
