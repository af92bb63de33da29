import SelRej.ErrorSimulator
import SelRej.SessionProgress

/-!
# A session with the error simulator

Both programs hand all their datagrams to `sendtoErr`, and a network that loses,
duplicates, delays and reorders datagrams, but never corrupts them, carries what is
left. Such a session is a `Session`: what the simulator drops is lost, and what it
flips arrives corrupted. A receiver that asks for less than the whole datagram can
take one with a flipped byte for a valid packet; it happens only where this packet is
none that the receiver waits for.
-/
namespace SelRej
open Chunks OnesComplement

section
variable {req : Request} {fs : List UInt8 → Option (List UInt8)} {file d bytes : List UInt8}
  {f n i : ℕ} {src : Addr}

theorem flag_createPdu (seqNum : UInt32) (flag : UInt8) (payload : List UInt8) :
    (createPdu seqNum flag payload)[6]? = some flag := by
  simp only [createPdu, layout, htonl, hostBytes, List.cons_append, List.nil_append]
  rfl

theorem interpPDU_flag {apdu : List UInt8} (h : 7 ≤ apdu.length) (hle : apdu.length ≤ 65535) :
    ∃ received, interpPDU apdu = .ok received ∧
      ∀ packet, received = some packet → apdu[6]? = some packet.flag := by
  by_cases hvalid : in_cksum apdu = 0
  · obtain ⟨s₀, s₁, s₂, s₃, c₀, c₁, flag, payload, rfl⟩ := exists_header h
    have hpayload : payload.length < 65536 := by
      simp only [List.length_cons] at hle
      omega
    unfold interpPDU
    rw [if_neg (fun hne => hne hvalid)]
    dsimp only
    rw [dif_pos hpayload]
    refine ⟨_, rfl, fun packet hpacket => ?_⟩
    cases hpacket
    rfl
  · exact ⟨none, interpPDU_of_corrupt hvalid, fun packet hpacket => by cases hpacket⟩

/-- Cut off behind its flag, a PDU with a flipped byte can be accepted, and only its
flag may be another one. -/
theorem flag_of_flipped (seqNum : UInt32) (flag : UInt8) (payload : List UInt8) (i : ℕ)
    (hn : 7 ≤ n) (hle : n ≤ 65535) :
    ∃ received, interpPDU ((errorFlipBits (createPdu seqNum flag payload) i).take n) =
      .ok received ∧
        ∀ packet, received = some packet → packet.flag = flag ∨ packet.flag = flag ^^^ 255 := by
  have hlength : (errorFlipBits (createPdu seqNum flag payload) i).length = 7 + payload.length :=
    (List.length_modify _ _ _).trans (createPdu_length seqNum flag payload)
  have hge : 7 ≤ ((errorFlipBits (createPdu seqNum flag payload) i).take n).length := by
    rw [List.length_take, hlength]
    omega
  have hcut : ((errorFlipBits (createPdu seqNum flag payload) i).take n).length ≤ 65535 :=
    Nat.le_trans (List.length_take_le _ _) hle
  obtain ⟨received, hread, hflag⟩ := interpPDU_flag hge hcut
  refine ⟨received, hread, fun packet hpacket => ?_⟩
  have h := hflag packet hpacket
  rw [List.getElem?_take, if_pos (by omega), errorFlipBits, List.getElem?_modify,
    flag_createPdu, Option.map_eq_map, Option.map_some] at h
  by_cases hi : i = 6
  · rw [if_pos hi] at h
    exact .inr (Option.some.inj h).symm
  · rw [if_neg hi] at h
    exact .inl (Option.some.inj h).symm

theorem byteSum_replicate (n : ℕ) : byteSum (List.replicate n 0) = 0 := by
  induction n using Nat.twoStepInduction with
  | zero => rfl
  | one => rfl
  | more n ih _ => simp [List.replicate_succ, byteSum, ih]

theorem interpPDU_zeros (n : ℕ) : interpPDU (List.replicate n 0) = .ok none := by
  refine interpPDU_of_corrupt fun hvalid => ?_
  have hsum := byteSum_replicate n
  rw [in_cksum_eq_zero_iff (by omega), hsum, fold_zero] at hvalid
  omega

/-- A datagram of a session: it fits the receivers' arrays, and those which they can
cut off are not those that they wait for. -/
structure UnderWay (req : Request) (seqNum : UInt32) (flag : UInt8) (payload : List UInt8) :
    Prop where
  payload_le : payload.length ≤ req.bufSize.toNat
  response : flag = INITIALRESP_FLAG → payload.length ≤ 1
  answer : flag = RR_FLAG ∨ flag = SREJ_FLAG → payload.length ≤ 4
  complement : flag ^^^ 255 ≠ INITIALRESP_FLAG ∧ flag ^^^ 255 ≠ RR_FLAG ∧ flag ^^^ 255 ≠ SREJ_FLAG

theorem Carried.underWay (h : Carried req file f d)
    (hp : Params req.winSize.toNat req.bufSize file)
    (hfits : 6 + req.fromFile.length + 1 ≤ req.bufSize.toNat) :
    ∃ seqNum flag payload, d = createPdu seqNum flag payload ∧
      UnderWay req seqNum flag payload := by
  have hpos := hp.buf_pos
  cases h with
  | initial =>
      refine ⟨_, _, _, Request.pduBuf_eq_of_fits hp.buf_le hfits, ⟨?_, fun h => absurd h (by decide), fun h => absurd h (by decide),
        by decide⟩⟩
      rw [req.payLoad_length]
      exact hfits
  | response seqNum payload h hlen =>
      rcases h with rfl | rfl
      · exact ⟨_, _, _, rfl, ⟨by omega, fun h => absurd h (by decide),
          fun h => absurd h (by decide), by decide⟩⟩
      · exact ⟨_, _, _, rfl, ⟨by omega, fun _ => hlen, fun h => absurd h (by decide), by decide⟩⟩
  | @data k hk hw =>
      exact ⟨_, _, _, rfl, ⟨chunk_length_le _ _ _, fun h => absurd h (by decide),
        fun h => absurd h (by decide), by decide⟩⟩
  | eof mySeq hall =>
      exact ⟨_, _, _, rfl, ⟨Nat.zero_le _, fun h => absurd h (by decide),
        fun h => absurd h (by decide), by decide⟩⟩
  | answer h =>
      cases h with
      | rr mySeq k hk =>
          exact ⟨_, _, _, rfl, ⟨by rw [htonl_length]; omega, fun h => absurd h (by decide),
            fun _ => by rw [htonl_length], by decide⟩⟩
      | srej mySeq k =>
          exact ⟨_, _, _, rfl, ⟨by rw [htonl_length]; omega, fun h => absurd h (by decide),
            fun _ => by rw [htonl_length], by decide⟩⟩
      | ackEof mySeq h =>
          exact ⟨_, _, _, rfl, ⟨Nat.zero_le _, fun h => absurd h (by decide),
            fun h => absurd h (by decide), by decide⟩⟩

section
variable {seqNum : UInt32} {flag : UInt8} {payload : List UInt8}

theorem UnderWay.length_le (h : UnderWay req seqNum flag payload) :
    (createPdu seqNum flag payload).length ≤ req.bufSize.toNat + 7 := by
  have hle := h.payload_le
  rw [createPdu_length]
  omega

theorem UnderWay.rejected (h : UnderWay req seqNum flag payload) (hbuf : req.bufSize.toNat ≤ 1393)
    (hi : i < (createPdu seqNum flag payload).length)
    (hn : (createPdu seqNum flag payload).length ≤ n) :
    interpPDU ((errorFlipBits (createPdu seqNum flag payload) i).take n) = .ok none := by
  have hle := h.payload_le
  rw [List.take_of_length_le (by rwa [errorFlipBits, List.length_modify])]
  exact (interpPDU_changed_byte seqNum flag payload (by omega) i hi).2

/-- One that is cut off can be read as a packet, but not as one that a receiver with so
small a buffer waits for. -/
theorem UnderWay.flipped (h : UnderWay req seqNum flag payload) (hbuf : req.bufSize.toNat ≤ 1393)
    (hi : i < (createPdu seqNum flag payload).length) (hn : 8 ≤ n) (hle : n ≤ 65535) :
    interpPDU ((errorFlipBits (createPdu seqNum flag payload) i).take n) = .ok none ∨
      ∃ packet,
        interpPDU ((errorFlipBits (createPdu seqNum flag payload) i).take n) = .ok (some packet) ∧
        packet.flag ≠ INITIALRESP_FLAG ∧
        (11 ≤ n → packet.flag ≠ RR_FLAG ∧ packet.flag ≠ SREJ_FLAG) := by
  have hlength := createPdu_length seqNum flag payload
  by_cases hcut : n < (createPdu seqNum flag payload).length
  · obtain ⟨received, hread, hflag⟩ :=
      flag_of_flipped seqNum flag payload i (show 7 ≤ n by omega) hle
    cases received with
    | none => exact .inl hread
    | some packet =>
        refine .inr ⟨packet, hread, ?_⟩
        rcases hflag packet rfl with heq | heq
        · rw [heq]
          refine ⟨fun hresponse => ?_, fun hge => ⟨fun hrr => ?_, fun hsrej => ?_⟩⟩
          · have hshort := h.response hresponse
            omega
          · have hshort := h.answer (.inl hrr)
            omega
          · have hshort := h.answer (.inr hsrej)
            omega
        · rw [heq]
          exact ⟨h.complement.1, fun _ => h.complement.2⟩
  · exact .inl (h.rejected hbuf hi (Nat.le_of_not_lt hcut))

end

/-- rcopy in the same place; what `getInitialResp` goes on with can be another
datagram. -/
inductive Agrees : RcopyProcess → RcopyProcess → Prop where
  | same (p : RcopyProcess) : Agrees p p
  | unanswered (serverS : Addr) (count : ℕ) {respBuf respBuf' : List UInt8}
      (h : Unanswered respBuf) (h' : Unanswered respBuf') :
      Agrees (.getInitialResp serverS count respBuf) (.getInitialResp serverS count respBuf')

inductive AgreeingSteps : ConnProc RcopyProcess → ConnProc RcopyProcess → Prop where
  | stops (out : List Effect) (e : Halt) : AgreeingSteps ⟨out, .error e⟩ ⟨out, .error e⟩
  | moves (out : List Effect) {p p' : RcopyProcess} (h : Agrees p p') :
      AgreeingSteps ⟨out, .ok p⟩ ⟨out, .ok p'⟩

theorem AgreeingSteps.refl (x : ConnProc RcopyProcess) : AgreeingSteps x x := by
  obtain ⟨out, result⟩ := x
  cases result with
  | error e => exact .stops out e
  | ok p => exact .moves out (.same p)

theorem getInitialRespTest_unanswered {respBuf : List UInt8} (h : Unanswered respBuf) (count : ℕ)
    (r : RcopySetup) : RcopySetup.getInitialRespTest req count respBuf r =
      if count < 10 then RcopySetup.getInitialRespSend req count respBuf r
      else Emit.halt .exit := by
  obtain ⟨received, hread, hno⟩ := h
  unfold RcopySetup.getInitialRespTest
  rw [hread, Emit.liftM_eq, Emit.bind_silent]
  cases received with
  | none => rfl
  | some packet =>
      dsimp only
      rw [if_pos (hno packet rfl)]

theorem agreeing_unanswered {respBuf respBuf' : List UInt8} (h : Unanswered respBuf)
    (h' : Unanswered respBuf') (count : ℕ) (serverS : Addr) (pc pc' : RcopySetupPc) :
    AgreeingSteps
      ((RcopySetup.getInitialRespTest req count respBuf ⟨serverS, pc⟩).mapOut setupEffect >>=
        RcopyProcess.handleConnection req)
      ((RcopySetup.getInitialRespTest req count respBuf' ⟨serverS, pc'⟩).mapOut setupEffect >>=
        RcopyProcess.handleConnection req) := by
  rw [getInitialRespTest_unanswered h, getInitialRespTest_unanswered h']
  split_ifs
  · unfold RcopySetup.getInitialRespSend
    cases req.initialPdu with
    | error e => exact .stops [] e
    | ok pduBuf =>
        by_cases hsend : pduBuf.length = 0
        · simp only [Emit.liftM_eq, Emit.bind_silent, hsend, sendtoErr_zero]
          exact .stops [] .exit
        · simp only [Emit.liftM_eq, Emit.bind_silent, sendtoErr_eq hsend]
          exact .moves [.sendto serverS pduBuf] (.unanswered serverS count h h')
  · exact .stops [] .exit

theorem Agrees.running_eq {p q : RcopyProcess} (h : Agrees p q) : p.running = q.running := by
  cases h with
  | same | unanswered => rfl

theorem Agrees.step {p q : RcopyProcess} (h : Agrees p q) (recv : Recv) :
    AgreeingSteps (p.step req recv) (q.step req recv) := by
  cases h with
  | same => exact .refl _
  | unanswered serverS count h h' =>
      cases recv with
      | none => exact agreeing_unanswered h h' (count + 1) serverS _ _
      | some received => exact .refl _

section
variable {seqNum : UInt32} {flag : UInt8} {payload : List UInt8}

theorem initialResp_recvLen (hp : Params req.winSize.toNat req.bufSize file) :
    8 ≤ (htons req.bufSize).toNat + HEADER_LEN ∧
      (htons req.bufSize).toNat + HEADER_LEN ≤ 65535 := by
  have hpos := hp.buf_pos
  have hle := hp.buf_le
  rw [htons_toNat, HEADER_LEN]
  omega

/-- In `getInitialResp`, rcopy rejects a datagram with a flipped byte, or it goes on as
if it did. -/
theorem getInitialResp_flipped (h : UnderWay req seqNum flag payload)
    (hp : Params req.winSize.toNat req.bufSize file)
    (hi : i < (createPdu seqNum flag payload).length) (serverS src : Addr) (count : ℕ)
    (respBuf respBuf' : List UInt8) :
    ∃ bytes, interpPDU (bytes.take ((htons req.bufSize).toNat + HEADER_LEN)) = .ok none ∧
      AgreeingSteps
        ((RcopyProcess.getInitialResp serverS count respBuf).step req
          (some (src, errorFlipBits (createPdu seqNum flag payload) i)))
        ((RcopyProcess.getInitialResp serverS count respBuf').step req (some (src, bytes))) := by
  obtain ⟨hge, hle⟩ := initialResp_recvLen hp
  rcases h.flipped hp.buf_le hi hge hle with hreject | ⟨packet, hread, hflag, _⟩
  · exact ⟨_, hreject, .refl _⟩
  · generalize errorFlipBits (createPdu seqNum flag payload) i = d at hread
    generalize hn : (htons req.bufSize).toNat + HEADER_LEN = n at hread hge hle
    have hzeros : interpPDU ((List.replicate d.length 0).take n) = .ok none := by
      rw [List.take_replicate]
      exact interpPDU_zeros _
    have hlength : ((List.replicate d.length (0 : UInt8)).take n).length = (d.take n).length := by
      rw [List.length_take, List.length_take, List.length_replicate]
    refine ⟨List.replicate d.length 0, hzeros, ?_⟩
    unfold RcopyProcess.step RcopySetup.step
    dsimp only [RcopySetup.recvLen]
    rw [hn, hlength]
    by_cases hfits : (d.take n).length ≤ req.bufSize.toNat + HEADER_LEN
    · rw [if_pos hfits, if_pos hfits]
      refine agreeing_unanswered ⟨some packet, hread, ?_⟩ ⟨none, hzeros, ?_⟩ (count + 1) src _ _
      · intro packet' hpacket
        cases hpacket
        exact hflag
      · intro packet' hpacket
        cases hpacket
    · rw [if_neg hfits, if_neg hfits]
      exact .stops [] .outOfBounds

/-- Everywhere else rcopy's buffer is large enough. -/
theorem Agrees.flipped {p q : RcopyProcess} (h : Agrees p q)
    (hway : UnderWay req seqNum flag payload) (hp : Params req.winSize.toNat req.bufSize file)
    (hi : i < (createPdu seqNum flag payload).length) (hruns : p.running = true) (src : Addr) :
    ∃ bytes, interpPDU (bytes.take (q.recvLen req)) = .ok none ∧
      AgreeingSteps
        (p.step req (some (src, errorFlipBits (createPdu seqNum flag payload) i)))
        (q.step req (some (src, bytes))) := by
  have hbuf := hp.buf_le
  have hlength := hway.length_le
  cases h with
  | unanswered serverS count h h' =>
      exact getInitialResp_flipped hway hp hi serverS src count _ _
  | same =>
      cases p with
      | getInitialResp serverS count respBuf =>
          exact getInitialResp_flipped hway hp hi serverS src count _ _
      | ackInitialResp serverS count respBuf =>
          have hlen : MAXBUF = 1400 := rfl
          exact ⟨_, hway.rejected hbuf hi (show _ ≤ MAXBUF by omega), .refl _⟩
      | recvDataLoop serverS r =>
          obtain ⟨hge, _⟩ := hp.rcopyRecvLen r.pc
          exact ⟨_, hway.rejected hbuf hi (Nat.le_trans hlength hge), .refl _⟩
      | closed => cases hruns

theorem openWindowRecv_rejected {bufSize : UInt16} {caller : Caller} {s : Server}
    {respBuf : List UInt8} (h : interpPDU respBuf = .ok none) :
    Server.openWindowRecv bufSize caller s respBuf = pure s := by
  unfold Server.openWindowRecv
  rw [h]
  rfl

theorem openWindowRecv_other {bufSize : UInt16} {caller : Caller} {s : Server}
    {respBuf : List UInt8} {packet : PduS} (h : interpPDU respBuf = .ok (some packet))
    (hrr : packet.flag ≠ RR_FLAG) (hsrej : packet.flag ≠ SREJ_FLAG) :
    Server.openWindowRecv bufSize caller s respBuf = pure s := by
  unfold Server.openWindowRecv
  rw [h, Emit.liftM_eq, Emit.bind_silent]
  dsimp only
  rw [if_neg hsrej, if_neg hrr]

theorem server_flipped (hway : UnderWay req seqNum flag payload)
    (hbuf : req.bufSize.toNat ≤ 1393) (hi : i < (createPdu seqNum flag payload).length)
    (s : Server) :
    ∃ bytes, interpPDU (bytes.take (Server.recvLen req.bufSize s.pc)) = .ok none ∧
      s.step req.bufSize (.datagram (errorFlipBits (createPdu seqNum flag payload) i)) =
        s.step req.bufSize (.datagram bytes) := by
  have hlength := hway.length_le
  cases hpc : s.pc with
  | openWindow count caller =>
      have hlen : Server.recvLen req.bufSize (.openWindow count caller) = 11 := rfl
      have hstep : ∀ bytes, s.step req.bufSize (.datagram bytes) =
          Server.openWindowRecv req.bufSize caller s (bytes.take 11) := by
        rw [← hlen]
        exact (Server.step_openWindow hpc).2
      rw [hlen]
      rcases hway.flipped hbuf hi (show 8 ≤ 11 by decide) (by decide) with
        hreject | ⟨packet, hread, _, hother⟩
      · exact ⟨_, hreject, rfl⟩
      · obtain ⟨hrr, hsrej⟩ := hother (Nat.le_refl 11)
        refine ⟨List.replicate 11 0, interpPDU_zeros 11, ?_⟩
        rw [hstep, hstep, openWindowRecv_other hread hrr hsrej]
        exact (openWindowRecv_rejected (interpPDU_zeros 11)).symm
  | checkForRRs =>
      have hge : req.bufSize.toNat + 7 ≤ max req.bufSize.toNat 4 + 7 :=
        Nat.add_le_add_right (Nat.le_max_left _ _) 7
      exact ⟨_, hway.rejected hbuf hi (Nat.le_trans hlength hge), rfl⟩
  | processEof _ _ _ | returned => exact ⟨_, hway.rejected hbuf hi hlength, rfl⟩

theorem child_flipped {p : ServerProcess} {file' : List UInt8}
    (h : Serving req file f p file') (hway : UnderWay req seqNum flag payload)
    (hp : Params req.winSize.toNat req.bufSize file)
    (hi : i < (createPdu seqNum flag payload).length) (hruns : p.running = true) (src : Addr) :
    ∃ bytes, interpPDU (bytes.take p.recvLen) = .ok none ∧
      p.step file' (some (src, errorFlipBits (createPdu seqNum flag payload) i)) =
        p.step file' (some (src, bytes)) := by
  have hbuf := hp.buf_le
  have hlength := hway.length_le
  cases h with
  | setupResponse client flag' =>
      have hlen : MAXBUF = 1400 := rfl
      exact ⟨_, hway.rejected hbuf hi (show _ ≤ MAXBUF by omega), rfl⟩
  | @transferData client s lo n hserves hlo hpc =>
      obtain ⟨bytes, hreject, heq⟩ := server_flipped hway hbuf hi s
      refine ⟨bytes, hreject, ?_⟩
      unfold ServerProcess.step
      dsimp only
      rw [heq]
  | closed => cases hruns

end

end

def PacketManager.sendDatagrams (m : PacketManager) (draws : ℕ → Draws) :
    List Datagram → Except Halt (PacketManager × List Datagram)
  | [] => .ok (m, [])
  | d :: rest => do
      let (m, sent) ← m.sendtoErr (draws rest.length) d.bytes
      let (m, after) ← m.sendDatagrams draws rest
      return (m, (sent.toList.map fun bytes => { d with bytes }) ++ after)

/-- The network carries what the simulators hand on. A child has the copy of the
server's simulator that was made when it was forked. -/
structure SimulatedSession where
  session : Session
  rcopyMgr : PacketManager
  childMgrs : List PacketManager

/-- A datagram of the network arrives at its destination, or nothing does. -/
inductive SimulatedEvent where
  | rcopy (i : Option ℕ) (draws : ℕ → Draws)
  | fork (i : Option ℕ) (flag : UInt8) (draws : ℕ → Draws)
  | child (j : ℕ) (i : Option ℕ) (draws : ℕ → Draws)

def uncorrupted : Option ℕ → Delivery
  | none => .timeout
  | some i => .recv i

def SimulatedEvent.plain : SimulatedEvent → SessionEvent
  | .rcopy i _ => .rcopy (uncorrupted i)
  | .fork i flag _ => .fork (uncorrupted i) flag
  | .child j i _ => .child j (uncorrupted i)

namespace SimulatedSession

/-- What was sent in the step from `x` to `x'` goes through the simulator. There is no step
where it ends the program. -/
def handOn (m : PacketManager) (draws : ℕ → Draws) (x x' : Session) :
    Option (PacketManager × Session) :=
  match m.sendDatagrams draws (x'.network.drop x.network.length) with
  | .ok (m, sent) => some (m, { x' with network := x.network ++ sent })
  | .error _ => none

def step (fs : List UInt8 → Option (List UInt8)) (req : Request) (serverMgr : PacketManager)
    (y : SimulatedSession) : SimulatedEvent → Option SimulatedSession
  | .rcopy i draws => do
      let x ← y.session.step fs req (.rcopy (uncorrupted i))
      let (rcopyMgr, session) ← handOn y.rcopyMgr draws y.session x
      return { y with session, rcopyMgr }
  | .fork i flag draws => do
      let x ← y.session.step fs req (.fork (uncorrupted i) flag)
      let (m, session) ← handOn serverMgr draws y.session x
      return { y with session, childMgrs := y.childMgrs ++ [m] }
  | .child j i draws => do
      let x ← y.session.step fs req (.child j (uncorrupted i))
      let m ← y.childMgrs[j]?
      let (m, session) ← handOn m draws y.session x
      return { y with session, childMgrs := y.childMgrs.set j m }

def start (req : Request) (rcopyMgr : PacketManager) (draws : ℕ → Draws) :
    Option SimulatedSession := do
  let x := Session.start req
  let (rcopyMgr, session) ← handOn rcopyMgr draws { x with network := [] } x
  return ⟨session, rcopyMgr, []⟩

def Reachable (fs : List UInt8 → Option (List UInt8)) (req : Request)
    (rcopyMgr serverMgr : PacketManager) (y : SimulatedSession) : Prop :=
  ∃ draws events y₀, start req rcopyMgr draws = some y₀ ∧
    PartialRun.run (step fs req serverMgr) y₀ events = some y

end SimulatedSession

/-- What the simulator can make of the datagrams that were sent. -/
def HandedOn (network sent : List Datagram) : Prop :=
  ∀ c ∈ network, ∃ d ∈ sent, c.src = d.src ∧ c.dst = d.dst ∧ Simulated d.bytes (some c.bytes)

theorem HandedOn.append {network network' sent sent' : List Datagram} (h : HandedOn network sent)
    (h' : HandedOn network' sent') : HandedOn (network ++ network') (sent ++ sent') := by
  intro c hc
  rcases List.mem_append.mp hc with hc | hc
  · obtain ⟨d, hd, hsame⟩ := h c hc
    exact ⟨d, List.mem_append_left _ hd, hsame⟩
  · obtain ⟨d, hd, hsame⟩ := h' c hc
    exact ⟨d, List.mem_append_right _ hd, hsame⟩

theorem Implements.sendDatagrams_eq {m : PacketManager} {f : ErrorModel} (h : Implements m f)
    (draws : ℕ → Draws) {sent : List Datagram} (hne : ∀ d ∈ sent, d.bytes ≠ []) :
    ∃ m' after, m.sendDatagrams draws sent = .ok (m', after) ∧ Implements m' f ∧
      HandedOn after sent := by
  induction sent generalizing m with
  | nil => exact ⟨m, [], rfl, h, fun c hc => by cases hc⟩
  | cons d rest ih =>
      have hd := hne d List.mem_cons_self
      obtain ⟨m', after, hafter, himplements, hhanded⟩ :=
        ih (h.numbered (m.msgNo + 1)) fun d' hd' => hne d' (List.mem_cons_of_mem d hd')
      have hfate := f.deliver_fate (draws rest.length) (m.msgNo + 1) hd
      rw [PacketManager.sendDatagrams, h.sendtoErr_eq hd, ok_bind]
      dsimp only
      rw [hafter, ok_bind]
      generalize (f.fate (draws rest.length) (m.msgNo + 1) d.bytes).deliver d.bytes = out at hfate
      refine ⟨m', _, rfl, himplements, ?_⟩
      intro c hc
      rcases List.mem_append.mp hc with hc | hc
      · obtain ⟨bytes, hbytes, rfl⟩ := List.mem_map.mp hc
        rw [Option.mem_toList] at hbytes
        subst hbytes
        exact ⟨d, List.mem_cons_self, rfl, rfl, hfate⟩
      · obtain ⟨d', hd', hsame⟩ := hhanded c hc
        exact ⟨d', List.mem_cons_of_mem d hd', hsame⟩

namespace SimulatedSession

variable {req : Request} {fs : List UInt8 → Option (List UInt8)} {file bytes : List UInt8}
  {src dst : Addr} {n : ℕ} {f g : ErrorModel} {y y' : SimulatedSession} {x x' s : Session}
  {network sent : List Datagram} {serverMgr : PacketManager} {a : Option ℕ}

theorem mem_of_uncorrupted
    (h : (uncorrupted a).receive network dst n = some (some (src, bytes))) :
    ⟨src, dst, bytes⟩ ∈ network := by
  cases a with
  | none => cases h
  | some i =>
      simp only [uncorrupted, Delivery.receive] at h
      split at h
      · rename_i d hd
        split_ifs at h with hdst
        cases h
        rw [← hdst]
        exact List.mem_of_getElem? hd
      · cases h

theorem receive_corrupt {d : List UInt8} (hd : ⟨src, dst, d⟩ ∈ network)
    (hreject : interpPDU (bytes.take n) = .ok none) :
    ∃ a : Delivery, a.receive network dst n = some (some (src, bytes)) := by
  obtain ⟨i, hi⟩ := List.mem_iff_getElem?.mp hd
  refine ⟨.corrupt i bytes, ?_⟩
  simp only [Delivery.receive, hi, hreject, and_self, if_true]

/-- The sides of both sessions are in the same places. -/
structure Alike (s x : Session) : Prop where
  rcopy : Agrees s.rcopy x.rcopy
  rcopyHalt : s.rcopyHalt = x.rcopyHalt
  children : s.children = x.children
  written : s.written = x.written

/-- From `s₀` and `x₀`, both sessions have made a step and sent the same. -/
structure Moved (s₀ x₀ s x : Session) : Prop where
  alike : Alike s x
  sends : ∃ new, s.network = s₀.network ++ new ∧ x.network = x₀.network ++ new

/-- All datagrams of the session. -/
theorem underWay_of_reachable (hserved : req.Served fs file)
    (hfits : 6 + req.fromFile.length + 1 ≤ req.bufSize.toNat) (h : Session.Reachable fs req x)
    {d : Datagram} (hd : d ∈ x.network) : ∃ seqNum flag payload,
    d.bytes = createPdu seqNum flag payload ∧ UnderWay req seqNum flag payload := by
  obtain ⟨b, hb⟩ := Session.consistent_of_reachable hserved h
  exact (hb.carried d hd).underWay hserved.params hfits

/-- What arrives in the simulated session is what was sent, or a datagram with a
flipped byte. -/
theorem arrival_cases (hserved : req.Served fs file)
    (hfits : 6 + req.fromFile.length + 1 ≤ req.bufSize.toNat) (h : Session.Reachable fs req x)
    (hhanded : HandedOn network x.network)
    (hrecv : (uncorrupted a).receive network dst n = some (some (src, bytes))) :
    ⟨src, dst, bytes⟩ ∈ x.network ∨ ∃ seqNum flag payload i, UnderWay req seqNum flag payload ∧
      i < (createPdu seqNum flag payload).length ∧
      ⟨src, dst, createPdu seqNum flag payload⟩ ∈ x.network ∧
      bytes = errorFlipBits (createPdu seqNum flag payload) i := by
  obtain ⟨⟨src', dst', d⟩, hd, rfl, rfl, hsimulated⟩ := hhanded _ (mem_of_uncorrupted hrecv)
  obtain ⟨seqNum, flag, payload, heq, hway⟩ := underWay_of_reachable hserved hfits h hd
  dsimp only at heq hd hsimulated
  subst heq
  generalize hout : some bytes = out at hsimulated
  cases hsimulated with
  | dropped => cases hout
  | passed =>
      cases hout
      exact .inl hd
  | @flipped i hi =>
      cases hout
      exact .inr ⟨seqNum, flag, payload, i, hway, hi, hd, rfl⟩

theorem moved_rcopy (hserved : req.Served fs file)
    (hfits : 6 + req.fromFile.length + 1 ≤ req.bufSize.toNat) (h : Session.Reachable fs req x)
    (halike : Alike s x) (hhanded : HandedOn s.network x.network) {s' : Session}
    (hstep : s.step fs req (.rcopy (uncorrupted a)) = some s') :
    ∃ x', Session.Reachable fs req x' ∧ Moved s x s' x' := by
  obtain ⟨hhalt, hruns, recv, rfl, hrecv⟩ := Session.step_rcopy hstep
  have hmatch : ∃ (a' : Delivery) (recv' : Recv),
      a'.receive x.network .rcopy (x.rcopy.recvLen req) = some recv' ∧
        AgreeingSteps (s.rcopy.step req recv) (x.rcopy.step req recv') := by
    cases recv with
    | none => exact ⟨.timeout, none, rfl, halike.rcopy.step none⟩
    | some received =>
        obtain ⟨src, bytes⟩ := received
        rcases arrival_cases hserved hfits h hhanded hrecv with
          hmem | ⟨seqNum, flag, payload, i, hway, hi, hmem, rfl⟩
        · obtain ⟨a', ha'⟩ := Session.receive_of_mem hmem (x.rcopy.recvLen req)
          exact ⟨a', _, ha', halike.rcopy.step _⟩
        · obtain ⟨bytes, hreject, hagrees⟩ :=
            halike.rcopy.flipped hway hserved.params hi hruns src
          obtain ⟨a', ha'⟩ := receive_corrupt hmem hreject
          exact ⟨a', _, ha', hagrees⟩
  obtain ⟨a', recv', hrecv', hagrees⟩ := hmatch
  have hhalt' : x.rcopyHalt = none := by rw [← halike.rcopyHalt, hhalt]
  have hruns' : x.rcopy.running = true := by rw [← halike.rcopy.running_eq, hruns]
  have hstep' : x.step fs req (.rcopy a') = some (x.rcopyStep req recv') := by
    rw [Session.step, if_pos ⟨hhalt', hruns'⟩, hrecv', Option.map_some]
  refine ⟨_, h.trans (PartialRun.Reaches.single hstep'), ?_⟩
  unfold Session.rcopyStep
  generalize s.rcopy.step req recv = p at hagrees
  generalize x.rcopy.step req recv' = q at hagrees
  cases hagrees with
  | stops out e =>
      have hwritten := congrArg (· ++ stored out) halike.written
      exact ⟨⟨halike.rcopy, rfl, halike.children, hwritten⟩, _, rfl, rfl⟩
  | moves out hagrees =>
      have hwritten := congrArg (· ++ stored out) halike.written
      exact ⟨⟨hagrees, halike.rcopyHalt, halike.children, hwritten⟩, _, rfl, rfl⟩

theorem moved_fork (hserved : req.Served fs file)
    (hfits : 6 + req.fromFile.length + 1 ≤ req.bufSize.toNat) (h : Session.Reachable fs req x)
    (halike : Alike s x) (hhanded : HandedOn s.network x.network) {s' : Session} {flag : UInt8}
    (hstep : s.step fs req (.fork (uncorrupted a) flag) = some s') :
    ∃ x', Session.Reachable fs req x' ∧ Moved s x s' x' := by
  obtain ⟨src, bytes, rfl, hrecv⟩ := Session.step_fork hstep
  have hmatch : ∃ a' : Delivery,
      a'.receive x.network .server MAXBUF = some (some (src, bytes)) := by
    rcases arrival_cases hserved hfits h hhanded hrecv with
      hmem | ⟨seqNum, flag, payload, i, hway, hi, hmem, rfl⟩
    · exact Session.receive_of_mem hmem MAXBUF
    · have hlength := hway.length_le
      have hbuf := hserved.params.buf_le
      have hlen : MAXBUF = 1400 := rfl
      exact receive_corrupt hmem (hway.rejected hbuf hi (show _ ≤ MAXBUF by omega))
  obtain ⟨a', hrecv'⟩ := hmatch
  have hstep' : x.step fs req (.fork a' flag) =
      some (x.fork fs src (bytes.take MAXBUF) flag) := by
    rw [Session.step, hrecv']
  refine ⟨_, h.trans (PartialRun.Reaches.single hstep'), ?_⟩
  unfold Session.fork
  rw [halike.children]
  dsimp only
  generalize ServerProcess.start (fun infile => (fs infile).isSome) src (bytes.take MAXBUF) flag
    (requestedFile fs (bytes.take MAXBUF)) = p
  obtain ⟨out, result⟩ := p
  cases result with
  | ok process => exact ⟨⟨halike.rcopy, halike.rcopyHalt, rfl, halike.written⟩, _, rfl, rfl⟩
  | error e => exact ⟨⟨halike.rcopy, halike.rcopyHalt, rfl, halike.written⟩, _, rfl, rfl⟩

theorem moved_child (hserved : req.Served fs file)
    (hfits : 6 + req.fromFile.length + 1 ≤ req.bufSize.toNat) (h : Session.Reachable fs req x)
    (halike : Alike s x) (hhanded : HandedOn s.network x.network) {s' : Session} {j : ℕ}
    (hstep : s.step fs req (.child j (uncorrupted a)) = some s') :
    ∃ x', Session.Reachable fs req x' ∧ Moved s x s' x' := by
  obtain ⟨c, hc, hhalt, hruns, recv, rfl, hrecv⟩ := Session.step_child hstep
  rw [halike.children] at hc
  have hmatch : ∃ (a' : Delivery) (recv' : Recv),
      a'.receive x.network (.child j) c.process.recvLen = some recv' ∧
        c.process.step c.file recv = c.process.step c.file recv' := by
    cases recv with
    | none => exact ⟨.timeout, none, rfl, rfl⟩
    | some received =>
        obtain ⟨src, bytes⟩ := received
        rcases arrival_cases hserved hfits h hhanded hrecv with
          hmem | ⟨seqNum, flag, payload, i, hway, hi, hmem, rfl⟩
        · obtain ⟨a', ha'⟩ := Session.receive_of_mem hmem c.process.recvLen
          exact ⟨a', _, ha', rfl⟩
        · obtain ⟨b, hb⟩ := Session.consistent_of_reachable hserved h
          obtain ⟨bytes, hreject, heq⟩ := child_flipped (hb.serving c (List.mem_of_getElem? hc))
            hway hserved.params hi hruns src
          obtain ⟨a', ha'⟩ := receive_corrupt hmem hreject
          exact ⟨a', _, ha', heq⟩
  obtain ⟨a', recv', hrecv', heq⟩ := hmatch
  have hstep' : x.step fs req (.child j a') = some (x.childStep j c recv') := by
    simp only [Session.step, hc, if_pos (And.intro hhalt hruns), hrecv', Option.map_some]
  refine ⟨_, h.trans (PartialRun.Reaches.single hstep'), ?_⟩
  unfold Session.childStep
  rw [heq, halike.children]
  generalize c.process.step c.file recv' = p
  obtain ⟨out, result⟩ := p
  cases result with
  | ok process => exact ⟨⟨halike.rcopy, halike.rcopyHalt, rfl, halike.written⟩, _, rfl, rfl⟩
  | error e => exact ⟨⟨halike.rcopy, halike.rcopyHalt, rfl, halike.written⟩, _, rfl, rfl⟩

theorem handOn_eq {s₀ x₀ : Session} {m : PacketManager} (hserved : req.Served fs file)
    (hfits : 6 + req.fromFile.length + 1 ≤ req.bufSize.toNat) (h : Session.Reachable fs req x)
    (hmoved : Moved s₀ x₀ s x) (hhanded : HandedOn s₀.network x₀.network) (hm : Implements m f)
    (draws : ℕ → Draws) : ∃ m' s', handOn m draws s₀ s = some (m', s') ∧ Implements m' f ∧
      Alike s' x ∧ HandedOn s'.network x.network := by
  obtain ⟨new, hnew, hnew'⟩ := hmoved.sends
  have hne : ∀ d ∈ new, d.bytes ≠ [] := by
    intro d hd
    have hmem : d ∈ x.network := by
      rw [hnew']
      exact List.mem_append_right _ hd
    obtain ⟨seqNum, flag, payload, heq, _⟩ := underWay_of_reachable hserved hfits h hmem
    rw [heq, ← List.length_pos_iff, createPdu_length]
    omega
  obtain ⟨m', after, hafter, hm', hafter'⟩ := hm.sendDatagrams_eq draws hne
  unfold handOn
  rw [hnew, List.drop_left, hafter]
  refine ⟨m', _, rfl, hm', ?_, ?_⟩
  · exact ⟨hmoved.alike.rcopy, hmoved.alike.rcopyHalt, hmoved.alike.children, hmoved.alike.written⟩
  · rw [hnew']
    exact hhanded.append hafter'

structure Stands (fs : List UInt8 → Option (List UInt8)) (req : Request) (f g : ErrorModel)
    (y : SimulatedSession) (x : Session) : Prop where
  reachable : Session.Reachable fs req x
  alike : Alike y.session x
  handedOn : HandedOn y.session.network x.network
  rcopyMgr : Implements y.rcopyMgr f
  childMgr : ∀ m ∈ y.childMgrs, Implements m g
  length : y.childMgrs.length = x.children.length

def forkedBy : SessionEvent → ℕ
  | .fork _ _ => 1
  | .rcopy _ | .child _ _ => 0

theorem children_length {e : SessionEvent} {s' : Session} (hstep : s.step fs req e = some s') :
    s'.children.length = s.children.length + forkedBy e := by
  cases e with
  | rcopy a =>
      obtain ⟨_, _, recv, rfl, _⟩ := Session.step_rcopy hstep
      unfold Session.rcopyStep
      split <;> rfl
  | fork a flag =>
      obtain ⟨src, bytes, rfl, _⟩ := Session.step_fork hstep
      unfold Session.fork
      dsimp only
      split <;> exact List.length_append
  | child j a =>
      obtain ⟨c, _, _, _, recv, rfl, _⟩ := Session.step_child hstep
      unfold Session.childStep
      split <;> exact List.length_set

/-- The simulator keeps no process from its next step. -/
theorem Stands.step_of_plain (h : Stands fs req f g y x) (hserved : req.Served fs file)
    (hfits : 6 + req.fromFile.length + 1 ≤ req.bufSize.toNat) (hserver : Implements serverMgr g)
    {e : SimulatedEvent} (hplain : y.session.step fs req e.plain = some s) :
    ∃ y' x', y.step fs req serverMgr e = some y' ∧ Stands fs req f g y' x' := by
  have hchildren := children_length hplain
  rw [h.alike.children, ← h.length] at hchildren
  cases e with
  | rcopy a draws =>
      dsimp only [SimulatedEvent.plain, forkedBy] at hplain hchildren
      obtain ⟨x', hx', hmoved⟩ := moved_rcopy hserved hfits h.reachable h.alike h.handedOn hplain
      obtain ⟨m', s', hhand, hm', halike, hhanded⟩ :=
        handOn_eq hserved hfits hx' hmoved h.handedOn h.rcopyMgr draws
      rw [hmoved.alike.children] at hchildren
      refine ⟨⟨s', m', y.childMgrs⟩, x', ?_, hx', halike, hhanded, hm', h.childMgr,
        hchildren.symm⟩
      simp only [SimulatedSession.step, hplain, hhand, Option.bind_eq_bind, Option.bind_some]
      rfl
  | fork a flag draws =>
      dsimp only [SimulatedEvent.plain, forkedBy] at hplain hchildren
      obtain ⟨x', hx', hmoved⟩ := moved_fork hserved hfits h.reachable h.alike h.handedOn hplain
      obtain ⟨m', s', hhand, hm', halike, hhanded⟩ :=
        handOn_eq hserved hfits hx' hmoved h.handedOn hserver draws
      rw [hmoved.alike.children] at hchildren
      refine ⟨⟨s', y.rcopyMgr, y.childMgrs ++ [m']⟩, x', ?_, hx', halike, hhanded, h.rcopyMgr, ?_,
        ?_⟩
      · simp only [SimulatedSession.step, hplain, hhand, Option.bind_eq_bind, Option.bind_some]
        rfl
      · intro m hm
        rcases List.mem_append.mp hm with hm | hm
        · exact h.childMgr m hm
        · rwa [List.mem_singleton.mp hm]
      · rw [List.length_append, hchildren]
        rfl
  | child j a draws =>
      dsimp only [SimulatedEvent.plain, forkedBy] at hplain hchildren
      obtain ⟨x', hx', hmoved⟩ := moved_child hserved hfits h.reachable h.alike h.handedOn hplain
      obtain ⟨c, hc, _⟩ := Session.step_child hplain
      have hj : j < y.childMgrs.length := by
        rw [h.length, ← h.alike.children]
        exact (List.getElem?_eq_some_iff.mp hc).1
      obtain ⟨m', s', hhand, hm', halike, hhanded⟩ := handOn_eq hserved hfits hx' hmoved h.handedOn
        (h.childMgr _ (List.getElem_mem hj)) draws
      rw [hmoved.alike.children] at hchildren
      refine ⟨⟨s', y.rcopyMgr, y.childMgrs.set j m'⟩, x', ?_, hx', halike, hhanded, h.rcopyMgr, ?_,
        ?_⟩
      · simp only [SimulatedSession.step, hplain, List.getElem?_eq_getElem hj, hhand,
          Option.bind_eq_bind, Option.bind_some]
        rfl
      · intro m hm
        rcases List.mem_or_eq_of_mem_set hm with hm | rfl
        · exact h.childMgr m hm
        · exact hm'
      · rw [List.length_set]
        exact hchildren.symm

theorem plain_of_step {e : SimulatedEvent} (hstep : y.step fs req serverMgr e = some y') :
    ∃ s, y.session.step fs req e.plain = some s := by
  cases e with
  | rcopy a draws =>
      obtain ⟨s, hs, _⟩ := Option.bind_eq_some_iff.mp hstep
      exact ⟨s, hs⟩
  | fork a flag draws =>
      obtain ⟨s, hs, _⟩ := Option.bind_eq_some_iff.mp hstep
      exact ⟨s, hs⟩
  | child j a draws =>
      obtain ⟨s, hs, _⟩ := Option.bind_eq_some_iff.mp hstep
      exact ⟨s, hs⟩

theorem Stands.step (h : Stands fs req f g y x) (hserved : req.Served fs file)
    (hfits : 6 + req.fromFile.length + 1 ≤ req.bufSize.toNat) (hserver : Implements serverMgr g)
    {e : SimulatedEvent} (hstep : y.step fs req serverMgr e = some y') :
    ∃ x', Stands fs req f g y' x' := by
  obtain ⟨s, hplain⟩ := plain_of_step hstep
  obtain ⟨y'', x', hstep', hstands⟩ := h.step_of_plain hserved hfits hserver hplain
  rw [hstep] at hstep'
  cases hstep'
  exact ⟨x', hstands⟩

theorem start_children (req : Request) : (Session.start req).children = [] := by
  unfold Session.start
  split <;> rfl

theorem stands_start (g : ErrorModel) {rcopyMgr : PacketManager} (hserved : req.Served fs file)
    (hfits : 6 + req.fromFile.length + 1 ≤ req.bufSize.toNat) (hm : Implements rcopyMgr f)
    (draws : ℕ → Draws) : ∃ y, start req rcopyMgr draws = some y ∧
      Stands fs req f g y (Session.start req) := by
  have hreach : Session.Reachable fs req (Session.start req) := ⟨[], rfl⟩
  have halike : Alike (Session.start req) (Session.start req) := ⟨.same _, rfl, rfl, rfl⟩
  have hmoved : Moved { Session.start req with network := [] }
      { Session.start req with network := [] } (Session.start req) (Session.start req) :=
    ⟨halike, _, rfl, rfl⟩
  have hnone : HandedOn [] [] := fun c hc => by cases hc
  obtain ⟨m', s', hhand, hm', halike', hhanded⟩ :=
    handOn_eq hserved hfits hreach hmoved hnone hm draws
  refine ⟨⟨s', m', []⟩, ?_, hreach, halike', hhanded, hm', (fun m hm => by cases hm), ?_⟩
  · simp only [start, hhand, Option.bind_eq_bind, Option.bind_some]
    rfl
  · rw [start_children]
    rfl

theorem stands_of_reachable {rcopyMgr : PacketManager} (hserved : req.Served fs file)
    (hfits : 6 + req.fromFile.length + 1 ≤ req.bufSize.toNat) (hm : Implements rcopyMgr f)
    (hserver : Implements serverMgr g) (h : Reachable fs req rcopyMgr serverMgr y) :
    ∃ x, Stands fs req f g y x := by
  obtain ⟨draws, events, y₀, hstart, hrun⟩ := h
  obtain ⟨y₁, hstart', hstands⟩ := stands_start g hserved hfits hm draws
  rw [hstart] at hstart'
  cases hstart'
  refine PartialRun.run_induct (P := fun y => ∃ x, Stands fs req f g y x) ?_ ⟨_, hstands⟩ hrun
  intro y e y' hx hstep
  obtain ⟨x, hx⟩ := hx
  exact hx.step hserved hfits hserver hstep

def quietDraws : Draws := { middleDraws with
  randNum := { middle with asFloat := 1, nonneg := by decide +kernel, le_one := Rat.le_refl } }

/-- The simulator flips a byte of the first INITIAL PDU, for which a child is forked in
vain. -/
def flippedInitial : List SimulatedEvent :=
  let quiet := fun _ => quietDraws
  [.fork (some 0) 0 quiet, .rcopy none quiet, .fork (some 1) 0 quiet, .rcopy (some 2) quiet,
    .child 1 (some 3) quiet, .rcopy (some 4) quiet, .rcopy (some 5) quiet, .child 1 (some 6) quiet,
    .child 1 none quiet, .rcopy (some 7) quiet]

def halfMgr : PacketManager := (⟨none, none, none⟩ : Settings).sendErrInit (1 / 2) true true

theorem flippedInitial_run : ∃ y, Reachable Session.onlyA requestA halfMgr halfMgr y ∧
    y.session.rcopy = .closed ∧ y.session.children.length = 2 := by
  have hrun : (start requestA halfMgr fun _ => middleDraws).bind (fun y =>
      (PartialRun.run (step Session.onlyA requestA halfMgr) y flippedInitial).map
        fun y => (y.session.rcopy.running, y.session.children.length)) = some (false, 2) := by
    decide +kernel
  obtain ⟨y₀, hstart, hrest⟩ := Option.bind_eq_some_iff.mp hrun
  obtain ⟨y, hy, hview⟩ := Option.map_eq_some_iff.mp hrest
  obtain ⟨hrunning, hlength⟩ := Prod.mk.inj hview
  exact ⟨y, ⟨_, _, y₀, hstart, hy⟩, RcopyProcess.closed_of_not_running hrunning, hlength⟩

/-- A session in which every datagram goes through the error simulator, with any
settings and random numbers, is a session on a network that loses and corrupts
datagrams: the processes are in the same states and have written the same. What is under
way was sent, or is such a datagram with one byte complemented. The simulator ends no
process and keeps none from its next step. -/
theorem simulated_session_refines (hserved : req.Served fs file)
    (hfits : 6 + req.fromFile.length + 1 ≤ req.bufSize.toNat)
    {rcopySettings serverSettings : Settings} {rcopyRate serverRate : ℚ}
    {dropFlag flipFlag dropFlag' flipFlag' : Bool}
    (h : Reachable fs req (rcopySettings.sendErrInit rcopyRate dropFlag flipFlag)
      (serverSettings.sendErrInit serverRate dropFlag' flipFlag') y) :
    (∃ x, Session.Reachable fs req x ∧ Agrees y.session.rcopy x.rcopy ∧
        y.session.rcopyHalt = x.rcopyHalt ∧ y.session.children = x.children ∧
        y.session.written = x.written ∧ HandedOn y.session.network x.network) ∧
      ∀ e s, y.session.step fs req e.plain = some s → ∃ y',
        y.step fs req (serverSettings.sendErrInit serverRate dropFlag' flipFlag') e = some y' := by
  have hserver := serverSettings.implements_sendErrInit serverRate dropFlag' flipFlag'
  obtain ⟨x, hx⟩ := stands_of_reachable hserved hfits
    (rcopySettings.implements_sendErrInit rcopyRate dropFlag flipFlag) hserver h
  refine ⟨⟨x, hx.reachable, hx.alike.rcopy, hx.alike.rcopyHalt, hx.alike.children,
    hx.alike.written, hx.handedOn⟩, ?_⟩
  intro e s hplain
  obtain ⟨y', _, hstep, _⟩ := hx.step_of_plain hserved hfits hserver hplain
  exact ⟨y', hstep⟩

theorem simulated_session_refines_flipped : ∃ y x,
    Reachable Session.onlyA requestA halfMgr halfMgr y ∧ y.session.children.length = 2 ∧
      Session.Reachable Session.onlyA requestA x ∧ y.session.written = x.written ∧
      HandedOn y.session.network x.network := by
  obtain ⟨y, hy, _, hlength⟩ := flippedInitial_run
  obtain ⟨⟨x, hx, _, _, _, hwritten, hhanded⟩, _⟩ :=
    simulated_session_refines Session.served_onlyA (by decide) hy
  exact ⟨y, x, hy, hlength, hx, hwritten, hhanded⟩

/-- Whatever the simulator drops and flips, rcopy's output is made of the first packets of
the file, and it is the file when rcopy has returned. -/
theorem simulated_session_writes_prefix (hserved : req.Served fs file)
    (hfits : 6 + req.fromFile.length + 1 ≤ req.bufSize.toNat)
    {rcopySettings serverSettings : Settings} {rcopyRate serverRate : ℚ}
    {dropFlag flipFlag dropFlag' flipFlag' : Bool}
    (h : Reachable fs req (rcopySettings.sendErrInit rcopyRate dropFlag flipFlag)
      (serverSettings.sendErrInit serverRate dropFlag' flipFlag') y) :
    ∃ k, k ≤ packets file req.bufSize ∧
      y.session.output = file.take (k * req.bufSize.toNat) ∧
      (y.session.rcopy = .closed → y.session.output = file) := by
  obtain ⟨x, hx⟩ := stands_of_reachable hserved hfits
    (rcopySettings.implements_sendErrInit rcopyRate dropFlag flipFlag)
    (serverSettings.implements_sendErrInit serverRate dropFlag' flipFlag') h
  obtain ⟨b, hb⟩ := Session.consistent_of_reachable hserved hx.reachable
  have houtput : y.session.output = x.output :=
    congrArg (fun written => written.flatMap PduS.payload) hx.alike.written
  refine ⟨b.next, hb.receives.next_le, ?_, fun hclosed => ?_⟩
  · rw [houtput, Session.output, hb.written, Transfer.flatMap_sentPackets]
  · have hagrees := hx.alike.rcopy
    rw [hclosed] at hagrees
    generalize hq : x.rcopy = q at hagrees
    cases hagrees
    rw [houtput]
    exact hb.output_of_closed hserved hq

theorem simulated_session_writes_prefix_flipped : ∃ y,
    Reachable Session.onlyA requestA halfMgr halfMgr y ∧ y.session.children.length = 2 ∧
      y.session.output = [65] := by
  obtain ⟨y, hy, hclosed, hlength⟩ := flippedInitial_run
  obtain ⟨_, _, _, hwhole⟩ := simulated_session_writes_prefix Session.served_onlyA (by decide) hy
  exact ⟨y, hy, hlength, hwhole hclosed⟩

end SimulatedSession
end SelRej
