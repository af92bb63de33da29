import SelRej.TransferSafety

/-!
# The loop of the child's processEof

The loop waits for the ACKEOF. It goes on while the buffer holds no valid PDU
and the flag of the packet is not `ACKEOF_FLAG`; the flag is set before the loop
and can only change when a PDU is accepted, so the first PDU that is accepted
ends the loop, whatever its flag. An RR that arrives late therefore makes the
child report a complete transfer.

`ClosesOn` says that a PDU accepted in this loop is an ACKEOF. Runs in which it
holds of every step are those in which the child returns only after an ACKEOF,
whatever the datagrams are and wherever they come from, and in a transfer rcopy
then has the whole file.
-/
namespace SelRej
open PartialRun

section
variable {bufSize : UInt16} {s : Server} {poll : Poll} {count : ℕ} {flag : UInt8}
  {respBuf : List UInt8}

/-- The child has not returned, and in the loop of `processEof` it has accepted
no PDU yet. -/
def Open : ServerPc → Prop
  | .checkForRRs | .openWindow _ _ => True
  | .processEof count flag respBuf => count ≤ 9 ∧ flag = 255 ∧ interpPDU respBuf = .ok none
  | .returned => False

def Entered : ServerPc → Prop
  | .checkForRRs => True
  | .openWindow count _ => count = 0
  | .processEof count flag respBuf => count = 0 ∧ flag = 255 ∧ respBuf = []
  | .returned => False

theorem Entered.open {pc : ServerPc} (h : Entered pc) : Open pc := by
  cases pc with
  | checkForRRs => trivial
  | openWindow count caller => trivial
  | processEof count flag respBuf =>
      obtain ⟨rfl, rfl, rfl⟩ := h
      exact ⟨Nat.zero_le 9, rfl, by decide +kernel⟩
  | returned => exact h

theorem waitOnRRsTest_entered (s : Server) :
    (Server.waitOnRRsTest s).Ends fun s' => Entered s'.pc := by
  unfold Server.waitOnRRsTest
  apply Emit.ends_lift
  intro empty _
  split_ifs
  · rw [sendEof_eq, Emit.bind_ok]
    exact Emit.ends_ok ⟨rfl, rfl, rfl⟩
  · exact Emit.ends_pure rfl

theorem transferDataTest_entered (bufSize : UInt16) (s : Server) :
    (Server.transferDataTest bufSize s).Ends fun s' => Entered s'.pc := by
  unfold Server.transferDataTest
  split_ifs
  · exact waitOnRRsTest_entered s
  · apply Emit.ends_lift
    intro full _
    split_ifs
    · exact Emit.ends_pure trivial
    · exact Emit.ends_bind fun s' => Emit.ends_pure trivial

theorem transferDataRest_entered (bufSize : UInt16) (s : Server) :
    (Server.transferDataRest bufSize s).Ends fun s' => Entered s'.pc := by
  unfold Server.transferDataRest
  apply Emit.ends_lift
  intro full _
  split_ifs
  · exact Emit.ends_pure rfl
  · exact transferDataTest_entered bufSize s

theorem handleSrej_pc (s : Server) (packet : PduS) :
    (s.handleSrej packet).Ends fun s' => s'.pc = s.pc := by
  unfold Server.handleSrej
  refine Emit.ends_lift fun srejSeq _ => Emit.ends_lift fun answer _ => ?_
  cases answer with
  | none => exact Emit.ends_pure rfl
  | some resendPacket => exact Emit.ends_emit (Emit.ends_pure rfl)

theorem resendLowest_pc (s : Server) : s.resendLowest.Ends fun s' => s'.pc = s.pc := by
  unfold Server.resendLowest
  apply Emit.ends_lift
  intro answer _
  cases answer with
  | none => exact Emit.ends_pure rfl
  | some packet => exact Emit.ends_emit (Emit.ends_pure rfl)

theorem openWindowReturn_entered (bufSize : UInt16) (s : Server) (caller : Caller) :
    (Server.openWindowReturn bufSize s caller).Ends fun s' => Entered s'.pc := by
  cases caller with
  | transferData => exact transferDataTest_entered bufSize s
  | waitOnRRs => exact waitOnRRsTest_entered s

theorem checkForRRsRecv_open (h : Open s.pc) (respBuf : List UInt8) :
    (s.checkForRRsRecv respBuf).Ends fun s' => Open s'.pc := by
  unfold Server.checkForRRsRecv
  apply Emit.ends_lift
  intro received _
  cases received with
  | none => exact Emit.ends_pure h
  | some packet =>
      dsimp only
      split_ifs
      · exact Emit.ends_lift fun rrSeq _ => Emit.ends_lift fun answer _ => Emit.ends_pure h
      · exact (handleSrej_pc s packet).mono fun s' hpc => by rwa [hpc]
      · exact Emit.ends_pure h

theorem openWindowRecv_open (h : Open s.pc) (caller : Caller) (respBuf : List UInt8) :
    (Server.openWindowRecv bufSize caller s respBuf).Ends fun s' => Open s'.pc := by
  unfold Server.openWindowRecv
  apply Emit.ends_lift
  intro received _
  cases received with
  | none => exact Emit.ends_pure h
  | some packet =>
      dsimp only
      split_ifs
      · exact (handleSrej_pc s packet).mono fun s' hpc => by rwa [hpc]
      · exact Emit.ends_lift fun rrSeq _ => Emit.ends_lift fun answer _ =>
          (openWindowReturn_entered bufSize _ caller).mono fun s' hs' => hs'.open
      · exact Emit.ends_pure h

theorem processEofTest_open (hflag : flag = 255) (hread : interpPDU respBuf = .ok none) :
    (Server.processEofTest count flag respBuf s).Ends fun s' => Open s'.pc := by
  by_cases hlt : count < 10
  · rw [processEofTest_waits hlt hflag hread]
    exact Emit.ends_ok ⟨by omega, hflag, hread⟩
  · rw [Server.processEofTest, if_neg hlt]
    exact Emit.ends_halt

theorem step_accepts (hpc : s.pc = .processEof count flag respBuf) (hcount : count ≤ 9)
    {packet : PduS} (hacc : packet ∈ Transfer.accepted bufSize s.pc poll) :
    s.step bufSize poll = ⟨[], .ok { s with pc := .returned }⟩ := by
  rw [hpc] at hacc
  obtain ⟨_, bytes, rfl, hread⟩ := Transfer.mem_accepted_iff.mp hacc
  rw [(Server.step_processEof hpc).2, Server.processEofTest, if_pos (by omega), hread,
    Emit.liftM_eq, Emit.bind_silent]
  rfl

theorem step_processEof_open (hpc : s.pc = .processEof count flag respBuf) (hcount : count ≤ 9)
    (hflag : flag = 255) (hread : interpPDU respBuf = .ok none) :
    (s.step bufSize poll).Ends fun s' => Open s'.pc ∨
      (s'.pc = .returned ∧ ∃ packet, packet ∈ Transfer.accepted bufSize s.pc poll) := by
  cases poll with
  | timeout =>
      rw [(Server.step_processEof hpc).1, Server.processEofTimeout, sendEof_eq, Emit.bind_ok]
      exact fun s' hs' => .inl (processEofTest_open hflag hread s' hs')
  | datagram bytes =>
      cases hinterp : interpPDU (bytes.take (Server.recvLen bufSize
        (.processEof count flag respBuf))) with
      | error e =>
          rw [(Server.step_processEof hpc).2, Server.processEofTest, if_pos (by omega), hinterp,
            Emit.liftM_eq, Emit.bind_error]
          exact Emit.ends_error
      | ok received =>
          cases received with
          | none =>
              rw [(Server.step_processEof hpc).2]
              exact (processEofTest_open hflag hinterp).mono fun s' hs' => .inl hs'
          | some packet =>
              have hacc : packet ∈ Transfer.accepted bufSize s.pc (.datagram bytes) := by
                rw [hpc]
                exact Transfer.mem_accepted_iff.mpr ⟨by simp, bytes, rfl, hinterp⟩
              rw [step_accepts hpc hcount hacc]
              exact Emit.ends_ok (.inr ⟨rfl, packet, hacc⟩)

theorem step_open (h : Open s.pc) : (s.step bufSize poll).Ends fun s' =>
    Open s'.pc ∨ (s'.pc = .returned ∧ ∃ count flag respBuf packet,
      s.pc = .processEof count flag respBuf ∧ packet ∈ Transfer.accepted bufSize s.pc poll) := by
  cases hpc : s.pc with
  | checkForRRs =>
      cases poll with
      | timeout =>
          rw [(Server.step_checkForRRs hpc).1]
          exact (transferDataRest_entered bufSize s).mono fun s' hs' => .inl hs'.open
      | datagram bytes =>
          rw [(Server.step_checkForRRs hpc).2]
          exact (checkForRRsRecv_open h _).mono fun s' hs' => .inl hs'
  | openWindow count caller =>
      cases poll with
      | timeout =>
          rw [(Server.step_openWindow hpc).1]
          unfold Server.openWindowTimeout
          refine Emit.Ends.bind (resendLowest_pc s) fun s' _ => ?_
          split_ifs
          · exact Emit.ends_pure (.inl trivial)
          · exact Emit.ends_halt
      | datagram bytes =>
          rw [(Server.step_openWindow hpc).2]
          exact (openWindowRecv_open h caller _).mono fun s' hs' => .inl hs'
  | processEof count flag respBuf =>
      rw [hpc] at h
      obtain ⟨hcount, hflag, hread⟩ := h
      refine (step_processEof_open hpc hcount hflag hread).mono fun s' hs' => ?_
      rcases hs' with hopen | ⟨hreturned, packet, hacc⟩
      · exact .inl hopen
      · rw [hpc] at hacc
        exact .inr ⟨hreturned, count, flag, respBuf, packet, rfl, hacc⟩
  | returned =>
      rw [hpc] at h
      exact h.elim

/-- The last PDU that the child has accepted is an ACKEOF if it has returned. -/
def Acked (pc : ServerPc) (heard : List PduS) : Prop :=
  pc = .returned → ∃ packet, heard.getLast? = some packet ∧ packet.flag = ACKEOF_FLAG

def ServerPc.closing : ServerPc → Bool
  | .processEof _ _ _ => true
  | _ => false

/-- A PDU that is accepted in the loop of `processEof` is an ACKEOF. -/
def ClosesOn (bufSize : UInt16) (pc : ServerPc) (poll : Poll) : Prop :=
  pc.closing = true → ∀ packet ∈ Transfer.accepted bufSize pc poll, packet.flag = ACKEOF_FLAG

instance (bufSize : UInt16) (pc : ServerPc) (poll : Poll) : Decidable (ClosesOn bufSize pc poll) :=
  inferInstanceAs (Decidable (pc.closing = true →
    ∀ packet ∈ Transfer.accepted bufSize pc poll, packet.flag = ACKEOF_FLAG))

/-- A step that meets the condition keeps what is known of the child. -/
theorem acked_step (h : Open s.pc ∨ s.pc = .returned) {heard : List PduS}
    (hacked : Acked s.pc heard) (hcloses : ClosesOn bufSize s.pc poll) :
    (s.step bufSize poll).Ends fun s' => (Open s'.pc ∨ s'.pc = .returned) ∧
      Acked s'.pc (heard ++ Transfer.accepted bufSize s.pc poll) := by
  rcases h with hopen | hpc
  · intro s' hs'
    rcases step_open hopen s' hs' with hopen' | ⟨hpc', count, flag, respBuf, packet, hpc, hacc⟩
    · refine ⟨.inl hopen', fun hpc' => ?_⟩
      rw [hpc'] at hopen'
      exact hopen'.elim
    · refine ⟨.inr hpc', fun _ => ⟨packet, ?_, ?_⟩⟩
      · rw [Transfer.accepted_of_mem hacc, List.getLast?_concat]
      · exact hcloses (by rw [hpc]; rfl) packet hacc
  · rw [Server.step_returned hpc]
    refine Emit.ends_ok ⟨.inr hpc, ?_⟩
    rwa [hpc, Transfer.accepted_returned, List.append_nil, ← hpc]

theorem closesOn_of_acked (h : Open s.pc ∨ s.pc = .returned) (heard : List PduS)
    (hacked : (s.step bufSize poll).Ends fun s' =>
      Acked s'.pc (heard ++ Transfer.accepted bufSize s.pc poll)) :
    ClosesOn bufSize s.pc poll := by
  intro hclosing packet hmem
  cases hpc : s.pc with
  | processEof count flag respBuf =>
      rw [hpc] at h
      have hcount : count ≤ 9 := h.elim (fun hopen => hopen.1) (fun hreturned => by cases hreturned)
      rw [step_accepts hpc hcount hmem] at hacked
      obtain ⟨last, hlast, hflag⟩ := hacked _ rfl rfl
      rw [Transfer.accepted_of_mem hmem, List.getLast?_concat] at hlast
      cases hlast
      exact hflag
  | checkForRRs => simp [hpc, ServerPc.closing] at hclosing
  | openWindow count caller => simp [hpc, ServerPc.closing] at hclosing
  | returned => simp [hpc, ServerPc.closing] at hclosing

end

structure Child where
  server : Server
  heard : List PduS

namespace Child

def step (bufSize : UInt16) (c : Child) (poll : Poll) : Option Child :=
  match (c.server.step bufSize poll).result with
  | .ok server => some ⟨server, c.heard ++ Transfer.accepted bufSize c.server.pc poll⟩
  | .error _ => none

variable {bufSize : UInt16} {c c' : Child} {poll : Poll}

theorem step_eq_some (h : c.step bufSize poll = some c') :
    (c.server.step bufSize poll).result = .ok c'.server ∧
      c'.heard = c.heard ++ Transfer.accepted bufSize c.server.pc poll := by
  unfold step at h
  split at h
  · rename_i server hserver
    cases h
    exact ⟨hserver, rfl⟩
  · cases h

/-- What runs keep whose steps all meet the condition. -/
def Sound (c : Child) : Prop :=
  (Open c.server.pc ∨ c.server.pc = .returned) ∧ Acked c.server.pc c.heard

theorem sound_step (h : Sound c) (hcloses : ClosesOn bufSize c.server.pc poll)
    (hstep : c.step bufSize poll = some c') : Sound c' := by
  obtain ⟨hresult, hheard⟩ := step_eq_some hstep
  obtain ⟨hopen, hacked⟩ := acked_step h.1 h.2 hcloses _ hresult
  exact ⟨hopen, by rwa [hheard]⟩

theorem acked_iff (h : Sound c) (hstep : c.step bufSize poll = some c') :
    Acked c'.server.pc c'.heard ↔ ClosesOn bufSize c.server.pc poll := by
  obtain ⟨hresult, hheard⟩ := step_eq_some hstep
  constructor
  · intro hacked
    apply closesOn_of_acked h.1 c.heard
    intro s' hs'
    rw [hresult] at hs'
    cases hs'
    rwa [← hheard]
  · intro hcloses
    exact (sound_step h hcloses hstep).2

end Child

namespace Transfer
variable {w : ℕ} {bufSize : UInt16} {file : List UInt8} {t t' : Transfer} {lo n : ℕ}
  {b : ReorderBuffer PduS} {poll : Poll} {e : TransferEvent}

def ClosesOn (bufSize : UInt16) (t : Transfer) : TransferEvent → Prop
  | .server a => ∀ poll ∈ a.poll t.toServer (Server.recvLen bufSize t.server.pc),
      SelRej.ClosesOn bufSize t.server.pc poll
  | .rcopy _ => True

instance (bufSize : UInt16) (t : Transfer) (e : TransferEvent) :
    Decidable (ClosesOn bufSize t e) :=
  match e with
  | .server a => inferInstanceAs (Decidable (∀ poll ∈
      a.poll t.toServer (Server.recvLen bufSize t.server.pc), SelRej.ClosesOn bufSize t.server.pc poll))
  | .rcopy _ => inferInstanceAs (Decidable True)

theorem open_of_serves {s : Server} (h : Serves w bufSize file s lo n) :
    Open s.pc ∨ s.pc = .returned := by
  have hplace := h.place
  cases hpc : s.pc with
  | checkForRRs => exact .inl trivial
  | openWindow count caller => exact .inl trivial
  | processEof count flag respBuf =>
      rw [hpc] at hplace
      exact .inl ⟨hplace.1, hplace.2.1, hplace.2.2.1⟩
  | returned => exact .inr rfl

/-- An ACKEOF comes from an rcopy that has finished. -/
theorem finished_of_ack (h : Joint w bufSize file t lo n b) (hp : Params w bufSize file)
    (harr : Arrives t.toServer (Server.recvLen bufSize t.server.pc) poll) {packet : PduS}
    (hacc : packet ∈ accepted bufSize t.server.pc poll) (hflag : packet.flag = ACKEOF_FLAG) :
    t.rcopy.pc = .finished := by
  obtain ⟨hge, hle⟩ := hp.recvLen_bounds t.server.pc
  obtain ⟨_, bytes, rfl, hread⟩ := mem_accepted_iff.mp hacc
  have hsame : ∀ {seqNum : UInt32} {flag : UInt8} {payload : List UInt8},
      bytes = createPdu seqNum flag payload → flag = ACKEOF_FLAG := by
    rintro seqNum flag payload rfl
    obtain ⟨received, hinterp, hflags⟩ := interpPDU_take seqNum flag payload hge hle
    rw [hread] at hinterp
    cases hinterp
    rw [← hflags packet rfl, hflag]
  cases harr with
  | recv hd =>
      rcases h.toServer _ hd with hsends | ⟨seqNum, flag, payload, hbytes, hsetup⟩
      · cases hsends with
        | rr mySeq k hk => cases hsame rfl
        | srej mySeq k => cases hsame rfl
        | ackEof mySeq hdone => exact hdone
      · rw [hsame hbytes] at hsetup
        rcases hsetup with hf | hf | hf <;> cases hf
  | corrupt hd =>
      rw [hd] at hread
      cases hread

/-- What runs of a transfer keep whose steps all meet the condition. -/
structure Closed (w : ℕ) (bufSize : UInt16) (file : List UInt8) (t : Transfer) : Prop where
  joint : ∃ lo n b, Joint w bufSize file t lo n b
  acked : Acked t.server.pc t.heard
  finished : t.server.pc = .returned → t.rcopy.pc = .finished

theorem serverStep_frame (bufSize : UInt16) (t : Transfer) (poll : Poll) :
    (t.serverStep bufSize poll).heard = t.heard ++ accepted bufSize t.server.pc poll ∧
      (t.serverStep bufSize poll).rcopy = t.rcopy := by
  unfold serverStep
  split <;> exact ⟨rfl, rfl⟩

theorem serverStep_server (bufSize : UInt16) (t : Transfer) (poll : Poll) :
    (t.server.step bufSize poll).result = .ok (t.serverStep bufSize poll).server ∨
      ((∃ e, (t.server.step bufSize poll).result = .error e) ∧
        (t.serverStep bufSize poll).server = t.server) := by
  unfold serverStep
  split
  · rename_i hstep
    exact .inl (by rw [hstep])
  · rename_i e hstep
    exact .inr ⟨⟨e, by rw [hstep]⟩, rfl⟩

theorem rcopyStep_frame (bufSize : UInt16) (t : Transfer) (poll : Poll) :
    (t.rcopyStep bufSize poll).server = t.server ∧
      (t.rcopyStep bufSize poll).heard = t.heard := by
  unfold rcopyStep
  split <;> exact ⟨rfl, rfl⟩

theorem rcopyStep_finished (h : t.rcopy.pc = .finished) :
    (t.rcopyStep bufSize poll).rcopy = t.rcopy := by
  have hends : (t.rcopy.step bufSize poll).Ends fun r' => r' = t.rcopy := by
    unfold Rcopy.step
    cases poll with
    | timeout =>
        rw [h]
        exact Emit.ends_pure rfl
    | datagram bytes =>
        apply Emit.ends_lift
        intro received _
        cases received with
        | none => exact Emit.ends_pure rfl
        | some packet =>
            dsimp only
            rw [Rcopy.receive_finished h]
            exact Emit.ends_ok rfl
  unfold rcopyStep
  split
  · rename_i r' hstep
    exact hends r' (by rw [hstep])
  · rfl

theorem Closed.open (h : Closed w bufSize file t) : Open t.server.pc ∨ t.server.pc = .returned := by
  obtain ⟨lo, n, b, hjoint⟩ := h.joint
  exact open_of_serves hjoint.serves

theorem closed_start (hp : Params w bufSize file) {toServer toRcopy : List (List UInt8)}
    (hserver : ∀ d ∈ toServer, Setup d) (hrcopy : ∀ d ∈ toRcopy, Setup d) :
    Closed w bufSize file (start w bufSize file toServer toRcopy) := by
  have hpc : (start w bufSize file toServer toRcopy).server.pc ≠ .returned := by
    obtain ⟨s', hinit, _, hpc⟩ := serves_init hp
    unfold start
    rw [hinit]
    simp [hpc]
  exact ⟨⟨0, 1, _, joint_start hp hserver hrcopy⟩, fun h => absurd h hpc, fun h => absurd h hpc⟩

/-- A step that meets the condition keeps the invariant. -/
theorem closed_step (hp : Params w bufSize file) (h : Closed w bufSize file t)
    (hcloses : ClosesOn bufSize t e) (hstep : t.step bufSize e = some t') :
    Closed w bufSize file t' := by
  have hjoint := joint_step hp h.joint hstep
  cases e with
  | rcopy a =>
      obtain ⟨_, poll, rfl, _⟩ := step_rcopy hstep
      obtain ⟨hserver, hheard⟩ := rcopyStep_frame bufSize t poll
      refine ⟨hjoint, by rw [hserver, hheard]; exact h.acked, fun hpc => ?_⟩
      rw [hserver] at hpc
      rw [rcopyStep_finished (h.finished hpc)]
      exact h.finished hpc
  | server a =>
      obtain ⟨_, poll, rfl, hpoll⟩ := step_server hstep
      obtain ⟨hheard, hrcopy⟩ := serverStep_frame bufSize t poll
      rcases serverStep_server bufSize t poll with hresult | ⟨_, hserver⟩
      · have hok := hcloses poll hpoll
        obtain ⟨hopen, hacked⟩ := acked_step h.open h.acked hok _ hresult
        refine ⟨hjoint, by rwa [hheard], fun hpc => ?_⟩
        rw [hrcopy]
        rcases h.open with hwas | hwas
        · rcases step_open hwas _ hresult with hopen' | ⟨_, count, flag, respBuf, packet, hpc', hacc⟩
          · rw [hpc] at hopen'
            exact hopen'.elim
          · obtain ⟨lo, n, b, hj⟩ := h.joint
            exact finished_of_ack hj hp (arrives_of_poll hpoll) hacc
              (hok (by rw [hpc']; rfl) packet hacc)
        · exact h.finished hwas
      · refine ⟨hjoint, ?_, by rw [hserver, hrcopy]; exact h.finished⟩
        rw [hserver, hheard]
        intro hpc
        rw [hpc, accepted_returned, List.append_nil]
        exact h.acked hpc

/-- The next step keeps `Acked` exactly when it meets the condition. -/
theorem Closed.acked_iff (h : Closed w bufSize file t) (hp : Params w bufSize file)
    (hstep : t.step bufSize e = some t') :
    Acked t'.server.pc t'.heard ↔ ClosesOn bufSize t e := by
  refine ⟨fun hacked => ?_, fun hcloses => (closed_step hp h hcloses hstep).acked⟩
  cases e with
  | rcopy a => trivial
  | server a =>
      intro poll' hpoll'
      obtain ⟨_, poll, rfl, hpoll⟩ := step_server hstep
      obtain rfl : poll' = poll := Option.some.inj (hpoll'.symm.trans hpoll)
      obtain ⟨hheard, _⟩ := serverStep_frame bufSize t poll'
      apply closesOn_of_acked h.open t.heard
      intro s' hs'
      rcases serverStep_server bufSize t poll' with hresult | ⟨⟨e, herror⟩, _⟩
      · rw [hresult] at hs'
        cases hs'
        rwa [← hheard]
      · rw [herror] at hs'
        cases hs'

end Transfer

/-- As long as each PDU that is accepted in the loop of `processEof` is an ACKEOF,
the child returns only after it accepted one, against any datagrams and with any
buffer; and in every transfer rcopy then has the whole file. The next step keeps
this exactly when it meets the condition too. -/
theorem returns_acknowledged (bufSize : UInt16) :
    (∀ (s : Server) (polls : List Poll) (c : Child), Open s.pc →
      run (Child.step bufSize) ⟨s, []⟩ polls = some c →
      Guarded (Child.step bufSize) (fun c poll => ClosesOn bufSize c.server.pc poll) ⟨s, []⟩ polls →
      Acked c.server.pc c.heard ∧ ∀ poll c', c.step bufSize poll = some c' →
        (Acked c'.server.pc c'.heard ↔ ClosesOn bufSize c.server.pc poll)) ∧
    (∀ w file, Params w bufSize file → ∀ toServer toRcopy events t,
      (∀ d ∈ toServer, Transfer.Setup d) → (∀ d ∈ toRcopy, Transfer.Setup d) →
      run (Transfer.step bufSize) (Transfer.start w bufSize file toServer toRcopy) events = some t →
      Guarded (Transfer.step bufSize) (Transfer.ClosesOn bufSize)
        (Transfer.start w bufSize file toServer toRcopy) events →
      (t.server.pc = .returned → t.rcopy.pc = .finished ∧ t.output = file ∧
        ∃ packet, t.heard.getLast? = some packet ∧ packet.flag = ACKEOF_FLAG) ∧
      ∀ e t', t.step bufSize e = some t' →
        (Acked t'.server.pc t'.heard ↔ Transfer.ClosesOn bufSize t e)) := by
  constructor
  · intro s polls c hopen hrun hcloses
    have hacked : Acked s.pc [] := by
      intro hpc
      rw [hpc] at hopen
      exact hopen.elim
    have hsound : c.Sound := guarded_induct (P := Child.Sound)
      (fun _ _ _ hs hok hstep => Child.sound_step hs hok hstep) ⟨.inl hopen, hacked⟩ hcloses hrun
    exact ⟨hsound.2, fun poll c' hstep => Child.acked_iff hsound hstep⟩
  · intro w file hp toServer toRcopy events t hserver hrcopy hrun hcloses
    have hclosed : Transfer.Closed w bufSize file t :=
      guarded_induct (P := Transfer.Closed w bufSize file)
        (fun _ _ _ hs hok hstep => Transfer.closed_step hp hs hok hstep)
        (Transfer.closed_start hp hserver hrcopy) hcloses hrun
    refine ⟨fun hpc => ?_, fun e t' hstep => hclosed.acked_iff hp hstep⟩
    have hfinished := hclosed.finished hpc
    obtain ⟨lo, n, b, hjoint⟩ := hclosed.joint
    exact ⟨hfinished, Transfer.output_of_finished hjoint hp hfinished, hclosed.acked hpc⟩

/-- The only packet of an empty file is sent twice, and acknowledged twice. The
second RR arrives after the EOF has been sent, and the child returns. -/
theorem late_rr_completes : ∃ t, Transfer.Reachable 1 4 [] t ∧ t.server.pc = .returned ∧
    (∀ packet ∈ t.heard, packet.flag = RR_FLAG) ∧ t.rcopy.pc = .recvDataLoop := by
  have hrun : (run (Transfer.step 4) (Transfer.start 1 4 [] [] []) [.server .timeout,
      .server .timeout, .rcopy (.recv 0), .rcopy (.recv 1), .server (.recv 0),
      .server (.recv 1)]).map (fun t => (t.server.pc, t.heard.map PduS.flag, t.rcopy.pc)) =
      some (.returned, [RR_FLAG, RR_FLAG], .recvDataLoop) := by
    decide +kernel
  obtain ⟨t, ht, heq⟩ := Option.map_eq_some_iff.mp hrun
  obtain ⟨hpc, hrest⟩ := Prod.mk.inj heq
  obtain ⟨hflags, hrcopy⟩ := Prod.mk.inj hrest
  refine ⟨t, ⟨[], [], _, (fun d hd => by cases hd), (fun d hd => by cases hd), ht⟩, hpc, ?_, hrcopy⟩
  intro packet hmem
  have hflag : packet.flag ∈ [RR_FLAG, RR_FLAG] := hflags ▸ List.mem_map_of_mem hmem
  simpa using hflag

/-- A child with a window of one has sent its packet, and waits for the RR. -/
def oneByteChild : Child :=
  ⟨⟨(initWindow noWindow 1).2, ⟨[1], false⟩, 0, .checkForRRs⟩, []⟩

/-- An RR, a datagram of one byte, a second of silence, and the ACKEOF. -/
def closingPolls : List Poll :=
  [.timeout, .timeout, .datagram (createPdu 0 RR_FLAG [0, 0, 0, 1]), .datagram [7], .timeout,
    .datagram (createPdu 1 ACKEOF_FLAG [])]

/-- Packet 1 overtakes packet 0, which is sent again, and the EOF is sent twice. -/
def overtakenEvents : List TransferEvent :=
  [.server .timeout, .rcopy (.recv 1), .server (.recv 0), .rcopy (.recv 2), .server (.recv 1),
    .server .timeout, .server (.recv 2), .server (.corrupt [7]), .server .timeout,
    .rcopy (.recv 4), .server (.recv 3)]

theorem returns_acknowledged_overtaken :
    (∃ c, run (Child.step 1400) oneByteChild closingPolls = some c ∧ c.server.pc = .returned ∧
      ∃ packet, c.heard.getLast? = some packet ∧ packet.flag = ACKEOF_FLAG) ∧
    ∃ t, Transfer.Reachable 2 2 [1, 2, 3] t ∧ t.server.pc = .returned ∧
      t.rcopy.pc = .finished ∧ t.output = [1, 2, 3] ∧
      ∃ packet, t.heard.getLast? = some packet ∧ packet.flag = ACKEOF_FLAG := by
  have hchild : (run (Child.step 1400) oneByteChild closingPolls).map
      (fun c => c.server.pc) = some .returned := by
    decide +kernel
  have htransfer : (run (Transfer.step 2) (Transfer.start 2 2 [1, 2, 3] [] [])
      overtakenEvents).map (fun t => t.server.pc) = some .returned := by
    decide +kernel
  obtain ⟨c, hc, hcpc⟩ := Option.map_eq_some_iff.mp hchild
  obtain ⟨t, ht, htpc⟩ := Option.map_eq_some_iff.mp htransfer
  obtain ⟨hacked, _⟩ :=
    (returns_acknowledged 1400).1 oneByteChild.server closingPolls c trivial hc (by decide +kernel)
  have hp : Params 2 2 [1, 2, 3] := ⟨by decide, by decide, by decide, by decide, by decide⟩
  obtain ⟨hreturned, _⟩ := (returns_acknowledged 2).2 2 [1, 2, 3] hp [] [] overtakenEvents t
    (fun d hd => by cases hd) (fun d hd => by cases hd) ht (by decide +kernel)
  have hreachable : Transfer.Reachable 2 2 [1, 2, 3] t :=
    ⟨[], [], _, (fun d hd => by cases hd), (fun d hd => by cases hd), ht⟩
  exact ⟨⟨c, hc, hcpc, hacked hcpc⟩, t, hreachable, htpc, hreturned htpc⟩

end SelRej
