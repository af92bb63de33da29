import Mathlib.Tactic.SplitIfs
import SelRej.DatagramFaults
import SelRej.ServerWindow
import SelRej.Setup

/-!
# The fields of control packets

`getInitialResp` writes the window size, the buffer size and the file name into
an INITIAL PDU, and `handleSetup` reads them back. Its arrays are sized by the
buffer size, so the name must fit what is only the size of a data chunk.

The handlers take their fields from fixed offsets of a payload whose length
comes from the network. `FieldsInside` says that they read nothing outside the
payload, and `Complete` what the payload must have for that. No handler checks
it.
-/
namespace SelRej

section
variable {payload : List UInt8}

theorem readSeq_of_le (h : 4 ≤ payload.length) : ∃ n, readSeq payload = .ok n := by
  match payload with
  | b₀ :: b₁ :: b₂ :: b₃ :: rest => exact ⟨_, rfl⟩
  | [] | [_] | [_, _] | [_, _, _] =>
      simp only [List.length_cons, List.length_nil] at h
      omega

theorem readSeq_of_lt (h : payload.length < 4) : readSeq payload = .error .outOfBounds := by
  match payload with
  | b₀ :: b₁ :: b₂ :: b₃ :: rest =>
      simp only [List.length_cons] at h
      omega
  | [] | [_] | [_, _] | [_, _, _] => rfl

theorem readBufSize_of_le (h : 6 ≤ payload.length) :
    ∃ n, ServerChild.readBufSize payload = .ok n := by
  match payload with
  | b₀ :: b₁ :: b₂ :: b₃ :: b₄ :: b₅ :: rest => exact ⟨_, rfl⟩
  | [] | [_] | [_, _] | [_, _, _] | [_, _, _, _] | [_, _, _, _, _] =>
      simp only [List.length_cons, List.length_nil] at h
      omega

/-- The name ends inside the payload, and the copy of the rest fits `infile`. -/
def NameInside (payload : List UInt8) : Prop :=
  0 ∈ payload.drop 6 ∧ payload.length ≤ 6 + MAXBUF

theorem NameInside.length (h : NameInside payload) : 6 < payload.length := by
  have hpos := List.length_pos_of_mem h.1
  rw [List.length_drop] at hpos
  omega

theorem readInfile_eq (h : NameInside payload) :
    ServerChild.readInfile payload = .ok ((payload.drop 6).takeWhile (· ≠ 0)) := by
  have hlen := h.2
  unfold ServerChild.readInfile
  rw [if_neg (by rw [List.length_drop]; omega), if_pos h.1]

theorem nameInside_of_readInfile {infile : List UInt8}
    (h : ServerChild.readInfile payload = .ok infile) : NameInside payload := by
  unfold ServerChild.readInfile at h
  by_cases hlong : MAXBUF < (payload.drop 6).length
  · rw [if_pos hlong] at h
    cases h
  · rw [if_neg hlong] at h
    by_cases hzero : 0 ∈ payload.drop 6
    · rw [List.length_drop] at hlong
      exact ⟨hzero, by omega⟩
    · rw [if_neg hzero] at h
      cases h

end

theorem htons_toNat (n : UInt16) : (htons n).toNat = n.toNat / 256 + 256 * (n.toNat % 256) := by
  have hn := n.toNat_lt
  rw [htons, hostShort_toNat]
  simp only [UInt8.toNat_ofNat']
  omega

theorem htons_htons (n : UInt16) : htons (htons n) = n := by
  have hn := n.toNat_lt
  apply UInt16.toNat_inj.mp
  rw [htons_toNat, htons_toNat]
  omega

theorem Request.payLoad_length (req : Request) :
    req.payLoad.length = 6 + req.fromFile.length + 1 := by
  simp only [payLoad, htonl, hostBytes, List.length_append, List.length_cons, List.length_nil]

/-- The arrays hold the PDU when the buffer size is that of the payload at least. -/
theorem Request.initialPdu_eq (req : Request) : req.initialPdu =
    if 6 + req.fromFile.length + 1 ≤ req.bufSize.toNat then
      .ok req.pduBuf
    else .error .outOfBounds := by
  rw [← req.payLoad_length]
  rfl

theorem Request.pduBuf_length (req : Request) :
    req.pduBuf.length = (req.fromFile.length + 14) % 65536 := by
  rw [pduBuf, shortPdu_length, createPdu_length, payLoad_length]
  omega

/-- The length of the PDU fits a `uint16_t` for names up to 65521 bytes. -/
theorem Request.pduBuf_eq (req : Request) (h : req.payLoad.length ≤ 65528) :
    req.pduBuf = createPdu 0 INITIAL_FLAG req.payLoad := by
  refine shortPdu_eq ?_
  rw [createPdu_length]
  omega

/-- `getInitialResp` builds the PDU inside its arrays, and `handleSetup`
recovers what was asked for from it. -/
def Request.Survives (req : Request) : Prop :=
  ∃ pduBuf, req.initialPdu = .ok pduBuf ∧ ∀ fopen client flag,
    ServerChild.handleSetup fopen client pduBuf flag =
      ServerChild.setupResponse fopen req.fromFile flag ⟨client, req.winSize, req.bufSize, .closed⟩

theorem handleSetup_eq {pduBuf : List UInt8} {packet : PduS}
    (h : interpPDU pduBuf = .ok (some packet)) (fopen : List UInt8 → Bool) (client : Addr)
    (flag : UInt8) : ServerChild.handleSetup fopen client pduBuf flag =
      if packet.flag ≠ INITIAL_FLAG then ⟨[], .ok ⟨client, 0, 0, .closed⟩⟩
      else (do
        let winSize ← readSeq packet.payload
        let bufSize ← ServerChild.readBufSize packet.payload
        let infile ← ServerChild.readInfile packet.payload
        ServerChild.setupResponse fopen infile flag ⟨client, winSize, bufSize, .closed⟩) := by
  unfold ServerChild.handleSetup
  rw [h, Emit.liftM_eq, Emit.bind_silent]
  rfl

theorem Request.nameInside (req : Request) (hfit : req.payLoad.length ≤ 6 + MAXBUF) :
    NameInside req.payLoad := by
  refine ⟨?_, hfit⟩
  simp only [payLoad, htonl, hostBytes, List.cons_append, List.nil_append, List.drop_succ_cons,
    List.drop_zero, List.mem_append, List.mem_singleton]
  exact .inr trivial

theorem Request.readInfile_payLoad (req : Request) (hname : 0 ∉ req.fromFile)
    (hfit : req.payLoad.length ≤ 6 + MAXBUF) :
    ServerChild.readInfile req.payLoad = .ok req.fromFile := by
  rw [readInfile_eq (req.nameInside hfit)]
  simp only [payLoad, htonl, hostBytes, List.cons_append, List.nil_append, List.drop_succ_cons,
    List.drop_zero]
  rw [List.takeWhile_append_of_pos]
  · simp
  · intro b hb
    simp only [ne_eq, decide_not, Bool.not_eq_true', decide_eq_false_iff_not]
    intro hzero
    exact hname (hzero ▸ hb)

theorem Request.readBufSize_payLoad (req : Request) :
    ServerChild.readBufSize req.payLoad = .ok req.bufSize := by
  have hread : ServerChild.readBufSize req.payLoad = .ok (htons (hostShort
      (UInt8.ofNat (htons req.bufSize).toNat) (UInt8.ofNat ((htons req.bufSize).toNat / 256)))) := rfl
  rw [hread, hostShort_hostBytes, htons_htons]

theorem Request.readSeq_payLoad (req : Request) : readSeq req.payLoad = .ok req.winSize :=
  readSeq_htonl req.winSize

theorem Request.survives_of_le (req : Request) (hname : 0 ∉ req.fromFile)
    (hlen : 6 + req.fromFile.length + 1 ≤ 1393)
    (hbuf : 6 + req.fromFile.length + 1 ≤ req.bufSize.toNat) : req.Survives := by
  have hpayload := req.payLoad_length
  have hfit : req.payLoad.length ≤ 6 + MAXBUF := by
    rw [hpayload]
    exact Nat.le_trans hlen (by decide)
  refine ⟨createPdu 0 INITIAL_FLAG req.payLoad, ?_, fun fopen client flag => ?_⟩
  · rw [req.initialPdu_eq, if_pos hbuf, req.pduBuf_eq (by omega)]
  · rw [handleSetup_eq (interpPDU_createPdu 0 INITIAL_FLAG (by omega))]
    simp only [decoded, ne_eq, not_true_eq_false, if_false, req.readSeq_payLoad,
      req.readBufSize_payLoad, req.readInfile_payLoad hname hfit, Emit.liftM_eq, Emit.bind_silent]

theorem Request.not_survives (req : Request)
    (hbuf : req.bufSize.toNat < 6 + req.fromFile.length + 1) : ¬req.Survives := by
  rintro ⟨pduBuf, hpdu, _⟩
  rw [req.initialPdu_eq, if_neg (Nat.not_le_of_lt hbuf)] at hpdu
  cases hpdu

/-- A request whose PDU is short enough for the server survives its encoding
exactly when its payload fits the buffer size. -/
theorem Request.survives_iff (req : Request) (hname : 0 ∉ req.fromFile)
    (hlen : HEADER_LEN + 6 + req.fromFile.length + 1 ≤ 1400) :
    req.Survives ↔ 6 + req.fromFile.length + 1 ≤ req.bufSize.toNat := by
  constructor
  · intro h
    by_contra hbuf
    exact req.not_survives (Nat.lt_of_not_le hbuf) h
  · intro hbuf
    simp only [HEADER_LEN] at hlen
    exact req.survives_of_le hname (by omega) hbuf

theorem Request.survives_iff_short_name : (Request.mk [97] 1 8).Survives ↔
    6 + [97].length + 1 ≤ (8 : UInt16).toNat :=
  Request.survives_iff ⟨[97], 1, 8⟩ (by decide) (by decide)

/-- The name "a" does not fit a buffer size of 4. -/
theorem Request.small_buffer_overruns : ¬(Request.mk [97] 1 4).Survives ∧
    (Request.mk [97] 1 4).initialPdu = .error .outOfBounds :=
  ⟨Request.not_survives ⟨[97], 1, 4⟩ (by decide), by decide +kernel⟩

/-- Whatever its argument, `recvRR` and `srej` stay inside the array of the window. -/
def WindowSafe (win : Window) : Prop :=
  ∀ seqNum, recvRR win seqNum ≠ .error .outOfBounds ∧ srej win seqNum ≠ .error .outOfBounds

/-- The handlers read the fields of a PDU inside its payload, and `handleSetup`
obtains a file name or refuses. What else a handler does is taken to stay
inside its own arrays: the functions of the window, `openWindow`'s caller, and
the sending of the INITIAL PDU. -/
structure FieldsInside (apdu : List UInt8) : Prop where
  handleSetup : ∀ fopen client flag, ∃ c,
    (ServerChild.handleSetup fopen client apdu flag).result = .ok c
  checkForRRs : ∀ s : Server, WindowSafe s.win → (s.checkForRRsRecv apdu).Avoids .outOfBounds
  openWindow : ∀ (bufSize : UInt16) (caller : Caller) (s : Server), WindowSafe s.win →
    (∀ seqNum code win, recvRR s.win seqNum = .ok (code, win) →
      (Server.openWindowReturn bufSize { s with win } caller).Avoids .outOfBounds) →
    (Server.openWindowRecv bufSize caller s apdu).Avoids .outOfBounds
  handleSrej : ∀ packet, interpPDU apdu = .ok (some packet) → packet.flag = SREJ_FLAG →
    ∀ s : Server, WindowSafe s.win → (s.handleSrej packet).Avoids .outOfBounds
  initExchange : ∀ (req : Request) (count : ℕ) (r : RcopySetup),
    (∃ pduBuf, req.initialPdu = .ok pduBuf) →
    (RcopySetup.getInitialRespTest req count apdu r).Avoids .outOfBounds

/-- The payload has the fields that the handlers of its flag read. -/
structure Complete (packet : PduS) : Prop where
  number : packet.flag = RR_FLAG ∨ packet.flag = SREJ_FLAG → 4 ≤ packet.payload.length
  result : packet.flag = INITIALRESP_FLAG → packet.payload ≠ []
  request : packet.flag = INITIAL_FLAG → NameInside packet.payload

section
variable {packet : PduS} {apdu : List UInt8} {s : Server}

theorem ok_ne_error {α : Type} {x : Except Halt α} {a : α} (h : x = .ok a) (e : Halt) :
    x ≠ .error e := by
  rw [h]
  exact fun he => by cases he

theorem handleSrej_avoids (hsafe : WindowSafe s.win) (hlen : 4 ≤ packet.payload.length) :
    (s.handleSrej packet).Avoids .outOfBounds := by
  obtain ⟨srejSeq, hread⟩ := readSeq_of_le hlen
  unfold Server.handleSrej
  apply Emit.avoids_lift (ok_ne_error hread _)
  intro seqNum _
  apply Emit.avoids_lift (hsafe seqNum).2
  intro answer _
  cases answer with
  | none => exact Emit.avoids_pure
  | some resendPacket => exact Emit.avoids_emit Emit.avoids_pure

theorem checkForRRsRecv_avoids (h : interpPDU apdu = .ok (some packet)) (hpacket : Complete packet)
    (hsafe : WindowSafe s.win) : (s.checkForRRsRecv apdu).Avoids .outOfBounds := by
  unfold Server.checkForRRsRecv
  rw [h, Emit.liftM_eq, Emit.bind_silent]
  dsimp only
  split_ifs with hrr hsrej
  · obtain ⟨rrSeq, hread⟩ := readSeq_of_le (hpacket.number (.inl hrr))
    apply Emit.avoids_lift (ok_ne_error hread _)
    intro seqNum _
    apply Emit.avoids_lift (hsafe seqNum).1
    intro answer _
    exact Emit.avoids_pure
  · exact handleSrej_avoids hsafe (hpacket.number (.inr hsrej))
  · exact Emit.avoids_pure

theorem openWindowRecv_avoids (h : interpPDU apdu = .ok (some packet)) (hpacket : Complete packet)
    (hsafe : WindowSafe s.win) {bufSize : UInt16} {caller : Caller}
    (hreturn : ∀ seqNum code win, recvRR s.win seqNum = .ok (code, win) →
      (Server.openWindowReturn bufSize { s with win } caller).Avoids .outOfBounds) :
    (Server.openWindowRecv bufSize caller s apdu).Avoids .outOfBounds := by
  unfold Server.openWindowRecv
  rw [h, Emit.liftM_eq, Emit.bind_silent]
  dsimp only
  split_ifs with hsrej hrr
  · exact handleSrej_avoids hsafe (hpacket.number (.inr hsrej))
  · obtain ⟨rrSeq, hread⟩ := readSeq_of_le (hpacket.number (.inl hrr))
    apply Emit.avoids_lift (ok_ne_error hread _)
    intro seqNum _
    apply Emit.avoids_lift (hsafe seqNum).1
    rintro ⟨code, win⟩ hrecv
    exact hreturn seqNum code win hrecv
  · exact Emit.avoids_pure

theorem getInitialRespTest_avoids (h : interpPDU apdu = .ok (some packet))
    (hpacket : Complete packet) {req : Request} (hreq : ∃ pduBuf, req.initialPdu = .ok pduBuf)
    (count : ℕ) (r : RcopySetup) :
    (RcopySetup.getInitialRespTest req count apdu r).Avoids .outOfBounds := by
  obtain ⟨pduBuf, hpdu⟩ := hreq
  have hsend : (RcopySetup.getInitialRespSend req count apdu r).Avoids .outOfBounds :=
    Emit.avoids_lift (ok_ne_error hpdu _) fun _ _ =>
      avoids_sendtoErr (by decide) Emit.avoids_pure
  have hexit : (Emit.halt .exit : SetupProc RcopySetup).Avoids .outOfBounds :=
    Emit.avoids_halt (by decide)
  unfold RcopySetup.getInitialRespTest
  rw [h, Emit.liftM_eq, Emit.bind_silent]
  dsimp only
  split_ifs with hflag
  · exact hsend
  · exact hexit
  · exact hexit
  · unfold RcopySetup.initExchangeRest
    have hresult := hpacket.result (not_not.mp hflag)
    split
    · rename_i hnil
      exact absurd hnil hresult
    · split_ifs
      · exact hexit
      · exact Emit.avoids_emit Emit.avoids_pure

theorem handleSetup_isOk (h : interpPDU apdu = .ok (some packet)) (hpacket : Complete packet)
    (fopen : List UInt8 → Bool) (client : Addr) (flag : UInt8) :
    ∃ c, (ServerChild.handleSetup fopen client apdu flag).result = .ok c := by
  rw [handleSetup_eq h]
  split_ifs with hflag
  · exact ⟨_, rfl⟩
  · have hname := hpacket.request (not_not.mp hflag)
    have hlen := hname.length
    obtain ⟨winSize, hwinSize⟩ := readSeq_of_le (show 4 ≤ packet.payload.length by omega)
    obtain ⟨bufSize, hbufSize⟩ := readBufSize_of_le (show 6 ≤ packet.payload.length by omega)
    rw [hwinSize, Emit.liftM_eq, Emit.bind_silent, hbufSize, Emit.liftM_eq, Emit.bind_silent,
      readInfile_eq hname, Emit.liftM_eq, Emit.bind_silent]
    unfold ServerChild.setupResponse
    split_ifs
    · exact ⟨_, rfl⟩
    · exact ⟨_, rfl⟩

def freshServer : Server := ⟨(initWindow noWindow 1).2, ⟨[], false⟩, 0, .checkForRRs⟩

theorem freshServer_windowSafe : WindowSafe freshServer.win := by
  intro seqNum
  have hint := (interval_initWindow (show 0 < 1 by decide) (by decide)).1
  exact ⟨ok_ne_error (hint.recvRR_of_unsent rfl seqNum) _,
    ok_ne_error (hint.srej_of_unsent rfl seqNum) _⟩

theorem checkForRRsRecv_of_short (h : interpPDU apdu = .ok (some packet))
    (hflag : packet.flag = RR_FLAG ∨ packet.flag = SREJ_FLAG) (hlen : packet.payload.length < 4)
    (s : Server) : s.checkForRRsRecv apdu = ⟨[], .error .outOfBounds⟩ := by
  unfold Server.checkForRRsRecv
  rw [h, Emit.liftM_eq, Emit.bind_silent]
  dsimp only
  by_cases hrr : packet.flag = RR_FLAG
  · rw [if_pos hrr, readSeq_of_lt hlen, Emit.liftM_eq, Emit.bind_error]
  · rw [if_neg hrr, if_pos (hflag.resolve_left hrr), Server.handleSrej, readSeq_of_lt hlen,
      Emit.liftM_eq, Emit.bind_error]

theorem FieldsInside.complete (hinside : FieldsInside apdu)
    (h : interpPDU apdu = .ok (some packet)) : Complete packet where
  number := by
    intro hflag
    by_contra hlen
    apply hinside.checkForRRs freshServer freshServer_windowSafe
    rw [checkForRRsRecv_of_short h hflag (Nat.lt_of_not_le hlen)]
  result := by
    intro hflag hnil
    have havoids := hinside.initExchange ⟨[], 0, 7⟩ 1 ⟨.server, .getInitialResp 0 []⟩
      ⟨_, by rw [Request.initialPdu_eq]; exact if_pos (by decide)⟩
    apply havoids
    unfold RcopySetup.getInitialRespTest
    rw [h, Emit.liftM_eq, Emit.bind_silent]
    dsimp only
    rw [if_neg (not_not.mpr hflag), if_neg (by decide), RcopySetup.initExchangeRest, hnil]
    rfl
  request := by
    intro hflag
    obtain ⟨c, hc⟩ := hinside.handleSetup (fun _ => false) .rcopy 0
    rw [handleSetup_eq h, if_neg (not_not.mpr hflag)] at hc
    cases hname : ServerChild.readInfile packet.payload with
    | ok infile => exact nameInside_of_readInfile hname
    | error e =>
        cases hwinSize : readSeq packet.payload with
        | error e =>
            rw [hwinSize, Emit.liftM_eq, Emit.bind_error] at hc
            cases hc
        | ok winSize =>
            rw [hwinSize, Emit.liftM_eq, Emit.bind_silent] at hc
            cases hbufSize : ServerChild.readBufSize packet.payload with
            | error e =>
                rw [hbufSize, Emit.liftM_eq, Emit.bind_error] at hc
                cases hc
            | ok bufSize =>
                rw [hbufSize, Emit.liftM_eq, Emit.bind_silent, hname, Emit.liftM_eq,
                  Emit.bind_error] at hc
                cases hc

theorem Complete.fieldsInside (hpacket : Complete packet) (h : interpPDU apdu = .ok (some packet)) :
    FieldsInside apdu where
  handleSetup := handleSetup_isOk h hpacket
  checkForRRs := fun _ hsafe => checkForRRsRecv_avoids h hpacket hsafe
  openWindow := fun _ _ _ hsafe hreturn => openWindowRecv_avoids h hpacket hsafe hreturn
  handleSrej := by
    intro packet' h' hflag s hsafe
    rw [h] at h'
    cases h'
    exact handleSrej_avoids hsafe (hpacket.number (.inr hflag))
  initExchange := fun _ count r hreq => getInitialRespTest_avoids h hpacket hreq count r

/-- A PDU that passes the check is read inside its payload by every handler
exactly when the payload has all the fields of its flag. -/
theorem fieldsInside_iff (hvalid : in_cksum apdu = 0) (hheader : HEADER_LEN ≤ apdu.length)
    (hlen : apdu.length ≤ 65535) : ∃ packet, interpPDU apdu = .ok (some packet) ∧
      packet.payload = apdu.drop HEADER_LEN ∧ (FieldsInside apdu ↔ Complete packet) := by
  obtain ⟨packet, h, hpayload⟩ := interpPDU_of_valid hvalid hheader (Nat.le_add_right_of_le hlen)
  exact ⟨packet, h, hpayload, fun hinside => hinside.complete h,
    fun hpacket => hpacket.fieldsInside h⟩

end

theorem fieldsInside_iff_rr : ∃ packet,
    interpPDU (createPdu 0 RR_FLAG [0, 0, 0, 1]) = .ok (some packet) ∧
      packet.payload = (createPdu 0 RR_FLAG [0, 0, 0, 1]).drop HEADER_LEN ∧
      (FieldsInside (createPdu 0 RR_FLAG [0, 0, 0, 1]) ↔ Complete packet) :=
  fieldsInside_iff (by decide +kernel) (by decide) (by decide)

/-- An RR without a payload. -/
theorem empty_rr_reads_outside : ¬FieldsInside (createPdu 0 RR_FLAG []) ∧
    (freshServer.checkForRRsRecv (createPdu 0 RR_FLAG [])).result.map (fun _ => ()) =
      .error .outOfBounds := by
  have hread := interpPDU_createPdu 0 RR_FLAG (show ([] : List UInt8).length ≤ 65528 by decide)
  refine ⟨fun hinside => ?_, by decide +kernel⟩
  exact absurd ((hinside.complete hread).number (.inl rfl)) (by decide)

end SelRej
