import SelRej.ControlPackets
import SelRej.LosslessTransfer
import SelRej.TransferSafety

/-!
# Retransmissions

The child sends a packet once for the first time. It sends it again for every SREJ
that it accepts for it as long as no RR above it has arrived, and for every second
of silence in `openWindow` in which it is the lowest packet that no RR has
acknowledged. There is no other retransmission: what follows a lost packet is
not sent again with it.
-/
namespace SelRej
open ReorderBuffer Chunks PartialRun

/-- The number that an RR or a SREJ carries. -/
def PduS.number (packet : PduS) : ℕ :=
  match readSeq packet.payload with
  | .ok seqNum => seqNum.toNat
  | .error _ => 0

/-- The loops in which the child handles RRs and SREJs. -/
def ServerPc.listening : ServerPc → Bool
  | .checkForRRs | .openWindow _ _ => true
  | .processEof _ _ _ | .returned => false

namespace Transfer

/-- With `lo` packets acknowledged before. -/
def ackedBy (lo : ℕ) (heard : List PduS) : ℕ :=
  heard.foldl (fun lo packet => if packet.flag = RR_FLAG then max lo packet.number else lo) lo

/-- The packets that the RRs acknowledge which the child has accepted. -/
def acked (t : Transfer) : ℕ := ackedBy 0 t.heard

/-- The unacknowledged packet that a SREJ asks for. -/
def asked (lo : ℕ) (packet : PduS) : Option ℕ :=
  if packet.flag = SREJ_FLAG ∧ lo ≤ packet.number then some packet.number else none

/-- The packet that is to be sent again, with `lo` packets acknowledged. -/
def wanted (bufSize : UInt16) (pc : ServerPc) (lo : ℕ) : Poll → Option ℕ
  | .timeout =>
      match pc with
      | .openWindow _ _ => some lo
      | _ => none
  | .datagram bytes =>
      if pc.listening then (accepted bufSize pc (.datagram bytes)).findSome? (asked lo) else none

def resends (bufSize : UInt16) (k : ℕ) (t : Transfer) : TransferEvent → ℕ
  | .server a =>
      match a.poll t.toServer (Server.recvLen bufSize t.server.pc) with
      | some poll => if wanted bufSize t.server.pc t.acked poll = some k then 1 else 0
      | none => 0
  | .rcopy _ => 0

end Transfer

section
variable {w : ℕ} {bufSize : UInt16} {file : List UInt8} {s : Server} {lo lo' n n' f k : ℕ}
  {pc : ServerPc} {packet : PduS} {again : Option ℕ} {out : List (List UInt8)}

theorem number_eq {seqNum : UInt32} (h : readSeq packet.payload = .ok seqNum) :
    packet.number = seqNum.toNat := by
  rw [PduS.number, h]

theorem ackedBy_rr (hflag : packet.flag = RR_FLAG) (lo : ℕ) :
    Transfer.ackedBy lo [packet] = max lo packet.number :=
  if_pos hflag

theorem ackedBy_other (hflag : packet.flag ≠ RR_FLAG) (lo : ℕ) :
    Transfer.ackedBy lo [packet] = lo :=
  if_neg hflag

theorem asked_other (hflag : packet.flag ≠ SREJ_FLAG) (lo : ℕ) :
    Transfer.asked lo packet = none :=
  if_neg fun h => hflag h.1

/-- Nothing, packet `n` for the first time, a packet once more, or the EOF. -/
inductive Adds (bufSize : UInt16) (file : List UInt8) (lo n : ℕ) :
    ℕ → Option ℕ → List (List UInt8) → Prop where
  | nothing : Adds bufSize file lo n n none []
  | first : Adds bufSize file lo n (n + 1) none [dataBytes file bufSize n]
  | again {k : ℕ} (hk : k < n) : Adds bufSize file lo n n (some k) [dataBytes file bufSize k]
  | eof (mySeq : UInt32) (hlo : lo = n) (hn : n = packets file bufSize) :
      Adds bufSize file lo n n none [createPdu mySeq EOF_FLAG []]

theorem Adds.le (h : Adds bufSize file lo n n' again out) : n ≤ n' := by
  cases h with
  | first => exact Nat.le_succ n
  | nothing | again | eof => exact Nat.le_refl n

theorem Adds.sends (h : Adds bufSize file lo n n' again out) :
    ∀ d ∈ out, ServerSends bufSize file lo n' d := by
  cases h with
  | nothing =>
      intro d hd
      cases hd
  | first => exact sends_singleton (.data (Nat.lt_succ_self n))
  | again hk => exact sends_singleton (.data hk)
  | eof mySeq hlo hn => exact sends_singleton (.eof mySeq hlo hn)

theorem Adds.mem (h : Adds bufSize file lo n n' again out) :
    ∀ j, n ≤ j → j < n' → dataBytes file bufSize j ∈ out := by
  intro j hj hj'
  cases h with
  | first =>
      obtain rfl : j = n := by omega
      exact List.mem_singleton_self _
  | nothing | again | eof => omega

theorem Params.dataBytes_inj (hp : Params w bufSize file) {j : ℕ} (hj : j < packets file bufSize)
    (hk : k < packets file bufSize) (h : dataBytes file bufSize j = dataBytes file bufSize k) :
    j = k := by
  have hread := hp.interpPDU_dataBytes j
  rw [h, hp.interpPDU_dataBytes k] at hread
  have hpacket : dataPacket file bufSize k = dataPacket file bufSize j := by
    simpa only [Except.ok.injEq, Option.some.injEq] using hread
  rw [← hp.seqNum_dataPacket hj, ← hp.seqNum_dataPacket hk, hpacket]

theorem Params.dataBytes_ne (hp : Params w bufSize file) {mySeq : UInt32} {flag : UInt8}
    {payload : List UInt8} (hflag : flag ≠ DATA_FLAG) :
    createPdu mySeq flag payload ≠ dataBytes file bufSize k := by
  intro h
  have hread := hp.interpPDU_dataBytes k
  rw [← h] at hread
  exact hflag (flag_of_interpPDU hread).symm

/-- Each datagram of a step is accounted for. -/
theorem Adds.count (h : Adds bufSize file lo n n' again out) (hp : Params w bufSize file)
    (hle : n' ≤ packets file bufSize) (hk : k < packets file bufSize) :
    out.count (dataBytes file bufSize k) + (if k < n then 1 else 0) =
      (if k < n' then 1 else 0) + if again = some k then 1 else 0 := by
  cases h with
  | nothing => simp
  | first =>
      by_cases heq : n = k
      · subst heq
        simp
      · have hne : dataBytes file bufSize n ≠ dataBytes file bufSize k :=
          fun h => heq (hp.dataBytes_inj (by omega) hk h)
        have hiff : k < n ↔ k < n + 1 := by omega
        simp [hne, hiff]
  | @again j hj =>
      by_cases heq : j = k
      · subst heq
        simp [Nat.add_comm]
      · have hne : dataBytes file bufSize j ≠ dataBytes file bufSize k :=
          fun h => heq (hp.dataBytes_inj (by omega) hk h)
        simp [hne, heq]
  | eof mySeq hlo hn =>
      have hne : createPdu mySeq EOF_FLAG [] ≠ dataBytes file bufSize k :=
        hp.dataBytes_ne (by decide)
      simp [hne]

/-- An accepted PDU: a RR acknowledges what rcopy has written, and a SREJ asks for
what has been sent. The number is there where the child looks at it. -/
structure Heard (f n : ℕ) (pc : ServerPc) (packet : PduS) : Prop where
  rr : packet.flag = RR_FLAG → packet.number ≤ f
  srej : packet.flag = SREJ_FLAG → packet.number < n
  read : pc.listening = true → packet.flag = RR_FLAG ∨ packet.flag = SREJ_FLAG →
    ∃ seqNum, readSeq packet.payload = .ok seqNum

inductive Hears (bufSize : UInt16) (f n : ℕ) (pc : ServerPc) : Poll → Prop where
  | timeout : Hears bufSize f n pc .timeout
  | rejected {bytes : List UInt8}
      (hread : interpPDU (bytes.take (Server.recvLen bufSize pc)) = .ok none) :
      Hears bufSize f n pc (.datagram bytes)
  | accepted {bytes : List UInt8} {packet : PduS}
      (hread : interpPDU (bytes.take (Server.recvLen bufSize pc)) = .ok (some packet))
      (h : Heard f n pc packet) : Hears bufSize f n pc (.datagram bytes)

/-- What rcopy sends, with `f` packets written: RRs of at most that number, and
SREJs for packets that have been sent. -/
inductive Requests (f n : ℕ) : List UInt8 → Prop where
  | rr (mySeq k : UInt32) (hk : k.toNat ≤ f) : Requests f n (createPdu mySeq RR_FLAG (htonl k))
  | srej (mySeq k : UInt32) (hk : k.toNat < n) :
      Requests f n (createPdu mySeq SREJ_FLAG (htonl k))
  | other (mySeq : UInt32) {flag : UInt8} (payload : List UInt8) (hrr : flag ≠ RR_FLAG)
      (hsrej : flag ≠ SREJ_FLAG) : Requests f n (createPdu mySeq flag payload)

theorem Requests.mono {d : List UInt8} {f' : ℕ} (h : Requests f n d) (hf : f ≤ f') (hn : n ≤ n') :
    Requests f' n' d := by
  cases h with
  | rr mySeq k hk => exact .rr mySeq k (Nat.le_trans hk hf)
  | srej mySeq k hk => exact .srej mySeq k (Nat.lt_of_lt_of_le hk hn)
  | other mySeq payload hrr hsrej => exact .other mySeq payload hrr hsrej

theorem payload_of_take {mySeq : UInt32} {flag : UInt8} {payload : List UInt8} {m : ℕ}
    (hm : 7 ≤ m)
    (h : interpPDU ((createPdu mySeq flag payload).take m) = .ok (some packet)) :
    packet.flag = flag ∧ packet.payload = payload.take (m - 7) := by
  obtain ⟨m, rfl⟩ := Nat.exists_eq_add_of_le' hm
  unfold interpPDU at h
  by_cases hck : in_cksum ((createPdu mySeq flag payload).take (m + 7)) = 0
  · rw [if_neg (fun hne => hne hck)] at h
    simp only [createPdu, layout, htonl, hostBytes, List.cons_append, List.nil_append,
      List.take_succ_cons] at h
    by_cases hlen : (payload.take m).length < 65536
    · rw [dif_pos hlen] at h
      cases h
      exact ⟨rfl, rfl⟩
    · rw [dif_neg hlen] at h
      cases h
  · rw [if_pos hck] at h
    cases h

theorem number_of_take {k : UInt32} {m : ℕ} (h : packet.payload = (htonl k).take m) :
    packet.number = k.toNat ∨ packet.number = 0 := by
  by_cases hm : 4 ≤ m
  · rw [List.take_of_length_le (by rwa [htonl_length])] at h
    exact .inl (number_eq (h ▸ readSeq_htonl k))
  · refine .inr ?_
    have hshort : packet.payload.length < 4 := by
      rw [h, List.length_take]
      omega
    rw [PduS.number, readSeq_of_lt hshort]

theorem readSeq_of_listening {mySeq : UInt32} {flag : UInt8} {k : UInt32}
    (hread : interpPDU ((createPdu mySeq flag (htonl k)).take (Server.recvLen bufSize pc)) =
      .ok (some packet)) (hpc : pc.listening = true) : readSeq packet.payload = .ok k := by
  have hlen : 11 ≤ Server.recvLen bufSize pc := by
    cases pc with
    | checkForRRs => exact recvLen_of_polls (.inl rfl)
    | openWindow count caller => exact recvLen_of_polls (.inr ⟨count, caller, rfl⟩)
    | processEof | returned => cases hpc
  obtain ⟨_, hpayload⟩ := payload_of_take (by omega) hread
  rw [hpayload, List.take_of_length_le (by rw [htonl_length]; omega), readSeq_htonl]

theorem hears_of_requests {d : List UInt8} (hp : Params w bufSize file) (h : Requests f n d)
    (pc : ServerPc) : Hears bufSize f n pc (.datagram d) := by
  obtain ⟨hge, hle⟩ := hp.recvLen_bounds pc
  have hreceived : ∃ received, interpPDU (d.take (Server.recvLen bufSize pc)) = .ok received := by
    cases h with
    | rr mySeq k => exact (interpPDU_take mySeq _ _ hge hle).imp fun _ h => h.1
    | srej mySeq k => exact (interpPDU_take mySeq _ _ hge hle).imp fun _ h => h.1
    | other mySeq payload => exact (interpPDU_take mySeq _ _ hge hle).imp fun _ h => h.1
  obtain ⟨received, hread⟩ := hreceived
  cases received with
  | none => exact .rejected hread
  | some packet =>
      refine .accepted hread ?_
      cases h with
      | rr mySeq k hk =>
          obtain ⟨hflag, hpayload⟩ := payload_of_take hge hread
          refine ⟨fun _ => ?_, fun hsrej => ?_, fun hpc _ => ⟨k, readSeq_of_listening hread hpc⟩⟩
          · rcases number_of_take hpayload with heq | heq <;> omega
          · rw [hflag] at hsrej
            cases hsrej
      | srej mySeq k hk =>
          obtain ⟨hflag, hpayload⟩ := payload_of_take hge hread
          refine ⟨fun hrr => ?_, fun _ => ?_, fun hpc _ => ⟨k, readSeq_of_listening hread hpc⟩⟩
          · rw [hflag] at hrr
            cases hrr
          · rcases number_of_take hpayload with heq | heq <;> omega
      | other mySeq payload hrr hsrej =>
          obtain ⟨hflag, _⟩ := payload_of_take hge hread
          rw [← hflag] at hrr hsrej
          exact ⟨fun h => absurd h hrr, fun h => absurd h hsrej,
            fun _ h => (h.elim hrr hsrej).elim⟩

/-- The interval then begins at `lo'`. -/
inductive Accounts (w : ℕ) (bufSize : UInt16) (file : List UInt8) (lo n lo' : ℕ)
    (again : Option ℕ) : ServerProc Server → Prop where
  | waits {out : List (List UInt8)} {s' : Server} {n' : ℕ}
      (hserves : Serves w bufSize file s' lo' n') (hadds : Adds bufSize file lo' n n' again out) :
      Accounts w bufSize file lo n lo' again ⟨out, .ok s'⟩
  | stops {out : List (List UInt8)} {e : Halt} (heq : lo' = lo)
      (hadds : Adds bufSize file lo n n again out) :
      Accounts w bufSize file lo n lo' again ⟨out, .error e⟩

theorem waitOnRRsTest_accounts (h : Holding w bufSize file s.win s.input lo' n)
    (hseq : s.seqNum.toNat = n) (hn : n = packets file bufSize) :
    Accounts w bufSize file lo n lo' none (Server.waitOnRRsTest s) := by
  have hle := h.lo_le
  rw [waitOnRRsTest_eq h]
  split_ifs with hempty
  · exact .waits ⟨h, Nat.zero_le 9, rfl, by decide +kernel, hempty, hn⟩ (.eof _ hempty hn)
  · exact .waits ⟨h, Nat.zero_le 9, by omega, hseq, fun _ => hn⟩ .nothing

theorem transferDataTest_accounts (h : Holding w bufSize file s.win s.input lo' n)
    (hp : Params w bufSize file) (hseq : s.seqNum.toNat = n) (hpos : 0 < n) :
    Accounts w bufSize file lo n lo' none (Server.transferDataTest bufSize s) := by
  rcases transferDataTest_cases h hp hseq with ⟨hn, heq⟩ | ⟨_, _, heq⟩ | ⟨_, _, s', heq, hs', _⟩
  · rw [heq]
    exact waitOnRRsTest_accounts h hseq hn
  · rw [heq]
    exact .waits ⟨h, hpos, hseq⟩ .nothing
  · rw [heq]
    exact .waits hs' .first

theorem transferDataRest_accounts (h : Holding w bufSize file s.win s.input lo n)
    (hp : Params w bufSize file) (hseq : s.seqNum.toNat = n) (hpos : 0 < n) :
    Accounts w bufSize file lo n lo none (Server.transferDataRest bufSize s) := by
  have hw := hp.window_pos
  rw [transferDataRest_eq h]
  split_ifs with hfull
  · exact .waits ⟨h, Nat.zero_le 9, by omega, hseq, fun hcaller => by cases hcaller⟩ .nothing
  · exact transferDataTest_accounts h hp hseq hpos

theorem openWindowReturn_accounts (h : Holding w bufSize file s.win s.input lo' n)
    (hp : Params w bufSize file) (hseq : s.seqNum.toNat = n) (hpos : 0 < n) {caller : Caller}
    (hcaller : caller = .waitOnRRs → n = packets file bufSize) :
    Accounts w bufSize file lo n lo' none (Server.openWindowReturn bufSize s caller) := by
  cases caller with
  | transferData => exact transferDataTest_accounts h hp hseq hpos
  | waitOnRRs => exact waitOnRRsTest_accounts h hseq (hcaller rfl)

theorem handleSrej_accounts (h : Serves w bufSize file s lo n) (hp : Params w bufSize file)
    {seqNum : UInt32} (hread : readSeq packet.payload = .ok seqNum)
    (hflag : packet.flag = SREJ_FLAG) (hlt : packet.number < n) :
    Accounts w bufSize file lo n lo (Transfer.asked lo packet) (s.handleSrej packet) := by
  have hfew := hp.few
  have hle := h.holding.le
  have hadd := h.holding.le_add
  have hnumber := number_eq hread
  unfold Server.handleSrej Transfer.asked
  rw [hread, Emit.liftM_eq, Emit.bind_silent]
  by_cases hlo : lo ≤ packet.number
  · have hmem := h.holding.srej_of_mem hp hlo hlt
    rw [hnumber, UInt32.ofNat_toNat] at hmem
    rw [if_pos ⟨hflag, hlo⟩, hmem, Emit.liftM_eq, Emit.bind_silent]
    dsimp only
    rw [recreatePDUS_dataPacket, hp.sendable.shortPdu_dataBytes, hnumber]
    exact .waits h (.again (by omega))
  · rw [if_neg fun h => hlo h.2]
    rcases Nat.lt_or_eq_of_le h.holding.lo_le with hlt' | heq
    · have hnone := h.holding.interval.srej_eq (by rwa [sentPackets_length])
        (by rw [sentPackets_length]; omega) seqNum
      rw [sentPackets_length, if_neg (by omega), if_pos (by omega)] at hnone
      rw [hnone, Emit.liftM_eq, Emit.bind_silent]
      exact .waits h .nothing
    · have hempty := h.holding.interval.srej_of_empty
        (by rw [sentPackets_length]; omega) (by rwa [sentPackets_length]) seqNum
      rw [hempty, Emit.liftM_eq, Emit.bind_error]
      exact .stops rfl .nothing

theorem checkForRRsRecv_accounts (h : Serves w bufSize file s lo n) (hp : Params w bufSize file)
    (hf : f ≤ n) (hpc : s.pc = .checkForRRs) {bytes : List UInt8}
    (hread : interpPDU bytes = .ok (some packet)) (hheard : Heard f n s.pc packet) :
    Accounts w bufSize file lo n (Transfer.ackedBy lo [packet]) (Transfer.asked lo packet)
      (s.checkForRRsRecv bytes) := by
  have hplace := h.place
  rw [hpc] at hplace hheard
  unfold Server.checkForRRsRecv
  rw [hread, Emit.liftM_eq, Emit.bind_silent]
  dsimp only
  by_cases hrr : packet.flag = RR_FLAG
  · obtain ⟨seqNum, hnum⟩ := hheard.read rfl (.inl hrr)
    have hle := hheard.rr hrr
    rw [number_eq hnum] at hle
    rw [if_pos hrr, ackedBy_rr hrr, asked_other (by rw [hrr]; decide), number_eq hnum, hnum,
      Emit.liftM_eq, Emit.bind_silent]
    rcases h.holding.recvRR_cases hp hplace.1 seqNum with
      ⟨heq, hrecv⟩ | ⟨_, hout, ret, hrecv⟩ | ⟨_, hge, _, win', hrecv, hholding⟩
    · rw [hrecv, Emit.liftM_eq, Emit.bind_error]
      exact .stops (by omega) .nothing
    · rw [hrecv, Emit.liftM_eq, Emit.bind_silent, Nat.max_eq_left (by omega)]
      exact .waits h .nothing
    · rw [hrecv, Emit.liftM_eq, Emit.bind_silent, Nat.max_eq_right hge]
      refine .waits ⟨hholding, ?_⟩ .nothing
      simp only [hpc]
      exact hplace
  · rw [if_neg hrr, ackedBy_other hrr]
    by_cases hsrej : packet.flag = SREJ_FLAG
    · obtain ⟨seqNum, hnum⟩ := hheard.read rfl (.inr hsrej)
      rw [if_pos hsrej]
      exact handleSrej_accounts h hp hnum hsrej (hheard.srej hsrej)
    · rw [if_neg hsrej, asked_other hsrej]
      exact .waits h .nothing

theorem openWindowRecv_accounts (h : Serves w bufSize file s lo n) (hp : Params w bufSize file)
    (hf : f ≤ n) {count : ℕ} {caller : Caller} (hpc : s.pc = .openWindow count caller) {bytes : List UInt8}
    (hread : interpPDU bytes = .ok (some packet)) (hheard : Heard f n s.pc packet) :
    Accounts w bufSize file lo n (Transfer.ackedBy lo [packet]) (Transfer.asked lo packet)
      (Server.openWindowRecv bufSize caller s bytes) := by
  have hplace := h.place
  rw [hpc] at hplace hheard
  obtain ⟨_, hlt, hseq, hcaller⟩ := hplace
  unfold Server.openWindowRecv
  rw [hread, Emit.liftM_eq, Emit.bind_silent]
  dsimp only
  by_cases hsrej : packet.flag = SREJ_FLAG
  · obtain ⟨seqNum, hnum⟩ := hheard.read rfl (.inr hsrej)
    rw [if_pos hsrej, ackedBy_other (by rw [hsrej]; decide)]
    exact handleSrej_accounts h hp hnum hsrej (hheard.srej hsrej)
  · rw [if_neg hsrej, asked_other hsrej]
    by_cases hrr : packet.flag = RR_FLAG
    · obtain ⟨seqNum, hnum⟩ := hheard.read rfl (.inl hrr)
      have hle := hheard.rr hrr
      rw [number_eq hnum] at hle
      rw [if_pos hrr, ackedBy_rr hrr, number_eq hnum, hnum, Emit.liftM_eq, Emit.bind_silent]
      rcases h.holding.recvRR_cases hp (by omega) seqNum with
        ⟨heq, _⟩ | ⟨_, hout, ret, hrecv⟩ | ⟨_, hge, _, win', hrecv, hholding⟩
      · omega
      · rw [hrecv, Emit.liftM_eq, Emit.bind_silent, Nat.max_eq_left (by omega)]
        exact openWindowReturn_accounts (s := { s with win := s.win }) h.holding hp hseq
          (by omega) hcaller
      · rw [hrecv, Emit.liftM_eq, Emit.bind_silent, Nat.max_eq_right hge]
        exact openWindowReturn_accounts (s := { s with win := win' }) hholding hp hseq
          (by omega) hcaller
    · rw [if_neg hrr, ackedBy_other hrr]
      exact .waits h .nothing

theorem accounts_of_result {result : Except Halt Server}
    (hadds : Adds bufSize file lo n n again out)
    (h : ∀ s', result = .ok s' → Serves w bufSize file s' lo n) :
    Accounts w bufSize file lo n lo again ⟨out, result⟩ := by
  cases result with
  | ok s' => exact .waits (h s' rfl) hadds
  | error e => exact .stops rfl hadds

theorem processEofTest_silent (h : Holding w bufSize file s.win s.input lo n) (count : ℕ)
    {flag : UInt8} {respBuf : List UInt8} (hflag : flag = 255) {received : Option PduS}
    (hread : interpPDU respBuf = .ok received) (hlo : lo = n) (hn : n = packets file bufSize) :
    ∃ result, Server.processEofTest count flag respBuf s = ⟨[], result⟩ ∧
      ∀ s', result = .ok s' → Serves w bufSize file s' lo n := by
  by_cases hlt : count < 10
  · cases received with
    | none =>
        refine ⟨_, processEofTest_waits hlt hflag hread, fun s' hs' => ?_⟩
        cases hs'
        exact ⟨h, by omega, hflag, hread, hlo, hn⟩
    | some packet =>
        refine ⟨.ok { s with pc := .returned }, ?_, fun s' hs' => ?_⟩
        · rw [Server.processEofTest, if_pos hlt, hread, Emit.liftM_eq, Emit.bind_silent]
          rfl
        · cases hs'
          exact ⟨h, hlo, hn⟩
  · refine ⟨.error .exit, ?_, fun s' hs' => by cases hs'⟩
    rw [Server.processEofTest, if_neg hlt]
    rfl

theorem accepted_of_rejected {bytes : List UInt8}
    (h : interpPDU (bytes.take (Server.recvLen bufSize pc)) = .ok none) :
    Transfer.accepted bufSize pc (.datagram bytes) = [] := by
  simp only [Transfer.accepted, h, ite_self]

theorem accepted_of_read {bytes : List UInt8} (hpc : pc ≠ .returned)
    (h : interpPDU (bytes.take (Server.recvLen bufSize pc)) = .ok (some packet)) :
    Transfer.accepted bufSize pc (.datagram bytes) = [packet] :=
  Transfer.accepted_of_mem (Transfer.mem_accepted_iff.mpr ⟨hpc, bytes, rfl, h⟩)

theorem ackedBy_of_heard (h : Heard f n pc packet) (hf : f ≤ n) (hlo : lo = n) :
    Transfer.ackedBy lo [packet] = lo := by
  by_cases hrr : packet.flag = RR_FLAG
  · have hle := h.rr hrr
    rw [ackedBy_rr hrr]
    omega
  · exact ackedBy_other hrr lo

theorem Serves.step_accounts (h : Serves w bufSize file s lo n) (hp : Params w bufSize file)
    (hf : f ≤ n) {poll : Poll} (hin : Hears bufSize f n s.pc poll) :
    Accounts w bufSize file lo n
      (Transfer.ackedBy lo (Transfer.accepted bufSize s.pc poll))
      (Transfer.wanted bufSize s.pc lo poll) (s.step bufSize poll) := by
  have hplace := h.place
  cases hin with
  | timeout =>
      cases hpc : s.pc with
      | checkForRRs =>
          rw [hpc] at hplace
          rw [(Server.step_checkForRRs hpc).1]
          exact transferDataRest_accounts h.holding hp hplace.2 hplace.1
      | openWindow count caller =>
          rw [hpc] at hplace
          obtain ⟨hcount, hlt, hseq, hcaller⟩ := hplace
          rw [(Server.step_openWindow hpc).1, openWindowTimeout_eq h.holding hlt]
          split_ifs
          · exact .waits ⟨h.holding, by omega, hlt, hseq, hcaller⟩ (.again hlt)
          · exact .stops rfl (.again hlt)
      | processEof count flag respBuf =>
          rw [hpc] at hplace
          obtain ⟨hcount, hflag, hread, hlo, hn⟩ := hplace
          obtain ⟨result, htest, hresult⟩ := processEofTest_silent
            (s := { s with seqNum := s.seqNum + 1 }) h.holding (count + 1) hflag hread hlo hn
          rw [(Server.step_processEof hpc).1, processEofTimeout_eq, htest]
          exact accounts_of_result (.eof s.seqNum hlo hn) hresult
      | returned =>
          rw [Server.step_returned hpc]
          exact .waits h .nothing
  | @rejected bytes hread =>
      have hwanted : Transfer.wanted bufSize s.pc lo (.datagram bytes) = none := by
        rw [Transfer.wanted, accepted_of_rejected hread]
        exact ite_self none
      rw [accepted_of_rejected hread, hwanted]
      cases hpc : s.pc with
      | checkForRRs =>
          rw [hpc] at hread
          rw [(Server.step_checkForRRs hpc).2, Server.checkForRRsRecv, hread, Emit.liftM_eq,
            Emit.bind_silent]
          exact .waits h .nothing
      | openWindow count caller =>
          rw [hpc] at hread
          rw [(Server.step_openWindow hpc).2, Server.openWindowRecv, hread, Emit.liftM_eq,
            Emit.bind_silent]
          exact .waits h .nothing
      | processEof count flag respBuf =>
          rw [hpc] at hplace hread
          obtain ⟨hcount, hflag, _, hlo, hn⟩ := hplace
          obtain ⟨result, htest, hresult⟩ :=
            processEofTest_silent h.holding count hflag hread hlo hn
          rw [(Server.step_processEof hpc).2, htest]
          exact accounts_of_result .nothing hresult
      | returned =>
          rw [Server.step_returned hpc]
          exact .waits h .nothing
  | @accepted bytes packet hread hheard =>
      cases hpc : s.pc with
      | checkForRRs =>
          rw [hpc] at hread
          rw [(Server.step_checkForRRs hpc).2, Transfer.wanted,
            accepted_of_read (by simp) hread, List.findSome?_singleton]
          exact checkForRRsRecv_accounts h hp hf hpc hread hheard
      | openWindow count caller =>
          rw [hpc] at hread
          rw [(Server.step_openWindow hpc).2, Transfer.wanted,
            accepted_of_read (by simp) hread, List.findSome?_singleton]
          exact openWindowRecv_accounts h hp hf hpc hread hheard
      | processEof count flag respBuf =>
          rw [hpc] at hplace hread
          obtain ⟨hcount, hflag, _, hlo, hn⟩ := hplace
          obtain ⟨result, htest, hresult⟩ :=
            processEofTest_silent h.holding count hflag hread hlo hn
          rw [(Server.step_processEof hpc).2, htest, accepted_of_read (by simp) hread,
            ackedBy_of_heard hheard hf hlo]
          exact accounts_of_result .nothing hresult
      | returned =>
          rw [Server.step_returned hpc, Transfer.accepted_returned]
          exact .waits h .nothing

theorem requests_wire {mySeq : UInt32} {out : List (Output PduS)}
    (hack : ∀ j, Output.ack j ∈ out → j ≤ f) (hnack : ∀ j, Output.nack j ∈ out → j < n) :
    ∀ d ∈ datagrams (wire mySeq out), Requests f n d := by
  induction out generalizing mySeq with
  | nil =>
      intro d hd
      cases hd
  | cons o out ih =>
      have hrest : ∀ mySeq, ∀ d ∈ datagrams (wire mySeq out), Requests f n d := fun mySeq =>
        ih (fun j hj => hack j (List.mem_cons_of_mem o hj))
          (fun j hj => hnack j (List.mem_cons_of_mem o hj))
      cases o with
      | deliver j packet => exact hrest mySeq
      | ack j =>
          intro d hd
          rcases List.mem_cons.mp hd with rfl | hd
          · refine .rr mySeq _ ?_
            rw [UInt32.toNat_ofNat']
            exact Nat.le_trans (Nat.mod_le _ _) (hack j List.mem_cons_self)
          · exact hrest (mySeq + 1) d hd
      | nack j =>
          intro d hd
          rcases List.mem_cons.mp hd with rfl | hd
          · refine .srej mySeq _ ?_
            rw [UInt32.toNat_ofNat']
            exact Nat.lt_of_le_of_lt (Nat.mod_le _ _) (hnack j List.mem_cons_self)
          · exact hrest (mySeq + 1) d hd

variable {t : Transfer} {b : ReorderBuffer PduS} {poll : Poll}

theorem requests_append {old new : List (List UInt8)} {f' : ℕ}
    (h : ∀ d ∈ old, Requests f n d) (hf : f ≤ f') (hnew : ∀ d ∈ new, Requests f' n d) :
    ∀ d ∈ old ++ new, Requests f' n d := by
  intro d hd
  rcases List.mem_append.mp hd with hd | hd
  · exact (h d hd).mono hf (Nat.le_refl n)
  · exact hnew d hd

/-- Where a step of rcopy leads: a packet of the file arrives, or the window is
left alone and an ACKEOF is sent at most. -/
inductive RcopyTakes (w : ℕ) (bufSize : UInt16) (file : List UInt8) (t : Transfer) (lo n : ℕ)
    (b : ReorderBuffer PduS) (poll : Poll) (t' : Transfer) : Prop where
  | data {k : ℕ} {bytes : List UInt8} (hk : k < n) (hpc : t.rcopy.pc ≠ .finished)
      (hpoll : poll = .datagram bytes)
      (hread : interpPDU (bytes.take (Rcopy.recvLen bufSize t.rcopy.pc)) =
        .ok (some (dataPacket file bufSize k)))
      (hsent : t'.toServer = t.toServer ++
        datagrams (wire t.rcopy.mySeq (b.arrive k (dataPacket file bufSize k)).1))
      (hjoint : Joint w bufSize file t' lo n (b.arrive k (dataPacket file bufSize k)).2)
  | other {out : List (List UInt8)} (hsent : t'.toServer = t.toServer ++ out)
      (hout : ∀ d ∈ out, ∃ mySeq, d = createPdu mySeq ACKEOF_FLAG [])
      (hjoint : Joint w bufSize file t' lo n b)
      (hno : ∀ bytes packet, poll = .datagram bytes →
        interpPDU (bytes.take (Rcopy.recvLen bufSize t.rcopy.pc)) = .ok (some packet) →
        packet.flag = DATA_FLAG → t.rcopy.pc = .finished)

theorem Joint.control_sends (h : Joint w bufSize file t lo n b) (hflag : packet.flag ≠ DATA_FLAG)
    {out : List Action} {r' : Rcopy} (hreceive : t.rcopy.receive packet = ⟨out, .ok r'⟩) :
    ∀ d ∈ datagrams out, ∃ mySeq, d = createPdu mySeq ACKEOF_FLAG [] := by
  obtain ⟨out', r'', hreceive', _, hout⟩ := h.simulates.receive_control hflag
  rw [hreceive] at hreceive'
  cases hreceive'
  intro d hd
  rcases hout with ⟨rfl, _⟩ | ⟨_, _, _, rfl⟩
  · cases hd
  · exact ⟨_, List.mem_singleton.mp hd⟩

theorem Joint.rcopyStep_takes (h : Joint w bufSize file t lo n b) (hp : Params w bufSize file)
    (harr : Transfer.Arrives t.toRcopy (Rcopy.recvLen bufSize t.rcopy.pc) poll) :
    RcopyTakes w bufSize file t lo n b poll (t.rcopyStep bufSize poll) := by
  have hnone : ∀ d ∈ datagrams [], ∃ mySeq, d = createPdu mySeq ACKEOF_FLAG [] :=
    fun d hd => by cases hd
  unfold Transfer.rcopyStep
  cases poll with
  | timeout =>
      have hno : ∀ bytes packet, Poll.timeout = .datagram bytes →
          interpPDU (bytes.take (Rcopy.recvLen bufSize t.rcopy.pc)) = .ok (some packet) →
          packet.flag = DATA_FLAG → t.rcopy.pc = .finished := fun _ _ h => by cases h
      rcases Rcopy.step_timeout bufSize t.rcopy with heq | heq
      · rw [heq]
        exact .other rfl hnone h.still hno
      · rw [heq]
        exact .other rfl hnone h.still hno
  | datagram bytes =>
      obtain ⟨received, hinterp, hreads⟩ := h.reads hp harr
      have hno : (∀ packet, received = some packet → packet.flag = DATA_FLAG →
            t.rcopy.pc = .finished) →
          ∀ bytes' packet, Poll.datagram bytes = .datagram bytes' →
            interpPDU (bytes'.take (Rcopy.recvLen bufSize t.rcopy.pc)) = .ok (some packet) →
            packet.flag = DATA_FLAG → t.rcopy.pc = .finished := by
        intro hreceived bytes' packet hpoll hread
        cases hpoll
        rw [hinterp] at hread
        exact hreceived packet (Except.ok.inj hread)
      cases hreads with
      | rejected =>
          rw [Rcopy.step_rejected hinterp]
          exact .other rfl hnone h.still (hno fun packet h => by cases h)
      | @data k hk =>
          rw [Rcopy.step_accepted hinterp]
          by_cases hpc : t.rcopy.pc = .finished
          · rw [Rcopy.receive_finished hpc]
            exact .other rfl hnone h.still (hno fun _ _ _ => hpc)
          · obtain ⟨r', hreceive, _, hjoint⟩ := h.data_step hp hk hpc
            rw [hreceive]
            exact .data hk hpc rfl hinterp rfl hjoint
      | @eof packet hflag hlo hn =>
          have hdata := hflag.trans_ne (show EOF_FLAG ≠ DATA_FLAG by decide)
          obtain ⟨out, r', hreceive, hjoint⟩ := h.control_step hdata fun _ => ⟨hlo, hn⟩
          rw [Rcopy.step_accepted hinterp, hreceive]
          refine .other rfl (h.control_sends hdata hreceive) hjoint (hno fun packet' h => ?_)
          cases h
          exact fun h => absurd h hdata
      | @other packet hdata heof =>
          obtain ⟨out, r', hreceive, hjoint⟩ := h.control_step hdata fun hf => absurd hf heof
          rw [Rcopy.step_accepted hinterp, hreceive]
          refine .other rfl (h.control_sends hdata hreceive) hjoint (hno fun packet' h => ?_)
          cases h
          exact fun h => absurd h hdata

theorem Joint.rcopyStep_requests (h : Joint w bufSize file t lo n b) (hp : Params w bufSize file)
    (hrequests : ∀ d ∈ t.toServer, Requests b.next n d)
    (harr : Transfer.Arrives t.toRcopy (Rcopy.recvLen bufSize t.rcopy.pc) poll) :
    ∃ b', Joint w bufSize file (t.rcopyStep bufSize poll) lo n b' ∧
      ∀ d ∈ (t.rcopyStep bufSize poll).toServer, Requests b'.next n d := by
  cases h.rcopyStep_takes hp harr with
  | @data k bytes hk hpc hpoll hread hsent hjoint =>
      refine ⟨_, hjoint, ?_⟩
      rw [hsent]
      refine requests_append hrequests ?_ (requests_wire (fun j hj => arrive_ack_le hj) ?_)
      · rw [(arrive_inTurn b k _).2]
        exact Nat.le_add_right _ _
      · intro j hj
        exact Nat.lt_of_lt_of_le (arrive_nack_lt h.simulates.wellFormed.next_le hj)
          (arrive_seen_le h.seen_le hk)
  | other hsent hout hjoint hno =>
      refine ⟨b, hjoint, ?_⟩
      rw [hsent]
      refine requests_append hrequests (Nat.le_refl _) fun d hd => ?_
      obtain ⟨mySeq, rfl⟩ := hout d hd
      exact .other mySeq [] (by decide) (by decide)

def Resent (w : ℕ) (bufSize : UInt16) (file : List UInt8) (k : ℕ) (t : Transfer) (m : ℕ) : Prop :=
  ∃ n b, Joint w bufSize file t t.acked n b ∧ (∀ d ∈ t.toServer, Requests b.next n d) ∧
    t.toRcopy.count (dataBytes file bufSize k) = (if k < n then 1 else 0) + m

theorem setup_ne_dataBytes (hp : Params w bufSize file) {d : List UInt8} (h : Transfer.Setup d) :
    d ≠ dataBytes file bufSize k := by
  obtain ⟨mySeq, flag, payload, rfl, hflag⟩ := h
  refine hp.dataBytes_ne ?_
  rcases hflag with rfl | rfl | rfl <;> decide

theorem resent_start (hp : Params w bufSize file) {toServer toRcopy : List (List UInt8)}
    (hserver : ∀ d ∈ toServer, Transfer.Setup d) (hrcopy : ∀ d ∈ toRcopy, Transfer.Setup d)
    (hk : k < packets file bufSize) :
    Resent w bufSize file k (Transfer.start w bufSize file toServer toRcopy) 0 := by
  have hjoint := joint_start hp hserver hrcopy
  obtain ⟨s', hinit, _⟩ := serves_init hp
  unfold Transfer.start at hjoint ⊢
  rw [hinit] at hjoint ⊢
  refine ⟨1, ReorderBuffer.empty, hjoint, ?_, ?_⟩
  · intro d hd
    obtain ⟨mySeq, flag, payload, rfl, hflag⟩ := hserver d hd
    refine .other mySeq payload ?_ ?_
    · rcases hflag with rfl | rfl | rfl <;> decide
    · rcases hflag with rfl | rfl | rfl <;> decide
  · have hnone : toRcopy.count (dataBytes file bufSize k) = 0 :=
      List.count_eq_zero.mpr fun hmem => setup_ne_dataBytes hp (hrcopy _ hmem) rfl
    have hfirst : Adds bufSize file 0 0 1 none [dataBytes file bufSize 0] := .first
    have hadds := hfirst.count hp (Nat.succ_le_of_lt (Nat.zero_lt_of_lt hk)) hk
    rw [List.count_append, hnone]
    simpa using hadds

theorem hears_of_arrives (hp : Params w bufSize file)
    (hrequests : ∀ d ∈ t.toServer, Requests f n d)
    (harr : Transfer.Arrives t.toServer (Server.recvLen bufSize t.server.pc) poll) :
    Hears bufSize f n t.server.pc poll := by
  cases harr with
  | timeout => exact .timeout
  | recv hd => exact hears_of_requests hp (hrequests _ hd) t.server.pc
  | corrupt hd => exact .rejected hd

theorem le_ackedBy (lo : ℕ) (heard : List PduS) : lo ≤ Transfer.ackedBy lo heard := by
  induction heard generalizing lo with
  | nil => exact Nat.le_refl lo
  | cons packet heard ih =>
      refine Nat.le_trans ?_ (ih _)
      dsimp only
      split_ifs
      · exact Nat.le_max_left _ _
      · exact Nat.le_refl lo

theorem ackedBy_le (h : Hears bufSize f n pc poll) (hlo : lo ≤ f) :
    Transfer.ackedBy lo (Transfer.accepted bufSize pc poll) ≤ f := by
  cases h with
  | timeout => exact hlo
  | rejected hread => rwa [accepted_of_rejected hread]
  | @accepted bytes packet hread hheard =>
      by_cases hpc : pc = .returned
      · rwa [hpc, Transfer.accepted_returned]
      · rw [accepted_of_read hpc hread]
        by_cases hrr : packet.flag = RR_FLAG
        · rw [ackedBy_rr hrr]
          exact Nat.max_le.mpr ⟨hlo, hheard.rr hrr⟩
        · rwa [ackedBy_other hrr]

theorem acked_append (t : Transfer) (heard : List PduS) :
    Transfer.ackedBy 0 (t.heard ++ heard) = Transfer.ackedBy t.acked heard :=
  List.foldl_append

theorem Joint.server_stops (h : Joint w bufSize file t lo n b) {heard : List PduS} {e : Halt}
    (hout : ∀ d ∈ out, ServerSends bufSize file lo n d) :
    Joint w bufSize file
      { t with serverHalt := some e, toRcopy := t.toRcopy ++ out, heard := heard } lo n b := by
  refine ⟨h.serves, h.simulates, h.lo_le, h.seen_le, h.held, h.written, h.finished, h.toServer,
    ?_, ?_⟩
  · intro d hd
    rcases List.mem_append.mp hd with hd | hd
    · exact h.toRcopy d hd
    · exact .inl (hout d hd)
  · exact fun j hj => List.mem_append_left _ (h.sent j hj)

theorem resent_serverStep (hp : Params w bufSize file) (hk : k < packets file bufSize) {m : ℕ}
    (h : Resent w bufSize file k t m)
    (harr : Transfer.Arrives t.toServer (Server.recvLen bufSize t.server.pc) poll) :
    Resent w bufSize file k (t.serverStep bufSize poll)
      (m + if Transfer.wanted bufSize t.server.pc t.acked poll = some k then 1 else 0) := by
  obtain ⟨n, b, hjoint, hrequests, hcount⟩ := h
  have hnext := hjoint.simulates.wellFormed.next_le
  have hseen := hjoint.seen_le
  have hin := hears_of_arrives hp hrequests harr
  have haccounts := hjoint.serves.step_accounts hp (by omega) hin
  have hle := ackedBy_le hin hjoint.lo_le
  have hge := le_ackedBy t.acked (Transfer.accepted bufSize t.server.pc poll)
  rw [← acked_append] at haccounts hle hge
  unfold Transfer.serverStep
  generalize t.server.step bufSize poll = p at haccounts
  cases haccounts with
  | @waits out s' n' hserves hadds =>
      have hsent := hadds.count hp hserves.holding.le hk
      refine ⟨n', b, hjoint.server_waits hserves hge hadds.le hle hadds.sends hadds.mem, ?_, ?_⟩
      · exact fun d hd => (hrequests d hd).mono (Nat.le_refl _) hadds.le
      · simp only [List.count_append]
        omega
  | @stops out e heq hadds =>
      have hsent := hadds.count hp hjoint.serves.holding.le hk
      refine ⟨n, b, ?_, hrequests, ?_⟩
      · rw [Transfer.acked, heq]
        exact hjoint.server_stops hadds.sends
      · simp only [List.count_append]
        omega

theorem resent_rcopyStep (hp : Params w bufSize file) {m : ℕ} (h : Resent w bufSize file k t m)
    (harr : Transfer.Arrives t.toRcopy (Rcopy.recvLen bufSize t.rcopy.pc) poll) :
    Resent w bufSize file k (t.rcopyStep bufSize poll) m := by
  obtain ⟨n, b, hjoint, hrequests, hcount⟩ := h
  obtain ⟨b', hjoint', hrequests'⟩ := hjoint.rcopyStep_requests hp hrequests harr
  have hsame : (t.rcopyStep bufSize poll).heard = t.heard ∧
      (t.rcopyStep bufSize poll).toRcopy = t.toRcopy := by
    unfold Transfer.rcopyStep
    split <;> exact ⟨rfl, rfl⟩
  refine ⟨n, b', ?_, hrequests', ?_⟩
  · rwa [Transfer.acked, hsame.1]
  · rw [hsame.2, hcount]

theorem resent_step (hp : Params w bufSize file) (hk : k < packets file bufSize) {m : ℕ}
    {e : TransferEvent} {t' : Transfer} (h : Resent w bufSize file k t m)
    (hstep : t.step bufSize e = some t') :
    Resent w bufSize file k t' (m + t.resends bufSize k e) := by
  cases e with
  | server a =>
      obtain ⟨_, poll, rfl, hpoll⟩ := Transfer.step_server hstep
      rw [Transfer.resends, hpoll]
      exact resent_serverStep hp hk h (Transfer.arrives_of_poll hpoll)
  | rcopy a =>
      obtain ⟨_, poll, rfl, hpoll⟩ := Transfer.step_rcopy hstep
      exact resent_rcopyStep hp h (Transfer.arrives_of_poll hpoll)

/-- Whatever the network does, each packet of the file that has been sent has been
sent once, and once more each time it was to be sent again. -/
theorem sends_again_when_wanted (hp : Params w bufSize file) {toServer toRcopy : List (List UInt8)}
    (hserver : ∀ d ∈ toServer, Transfer.Setup d) (hrcopy : ∀ d ∈ toRcopy, Transfer.Setup d)
    {events : List TransferEvent}
    (hrun : run (Transfer.step bufSize) (Transfer.start w bufSize file toServer toRcopy) events =
      some t) (hk : k < packets file bufSize) :
    t.toRcopy.count (dataBytes file bufSize k) =
      (if dataBytes file bufSize k ∈ t.toRcopy then 1 else 0) +
        total (Transfer.step bufSize) (fun t e => t.resends bufSize k e)
          (Transfer.start w bufSize file toServer toRcopy) events := by
  have hstep : ∀ t e t' m, Resent w bufSize file k t m → t.step bufSize e = some t' →
      Resent w bufSize file k t' (m + t.resends bufSize k e) :=
    fun t e t' m h hstep => resent_step hp hk h hstep
  obtain ⟨n, b, hjoint, _, hcount⟩ := run_total hstep (resent_start hp hserver hrcopy hk) hrun
  rw [Nat.zero_add] at hcount
  have hmem : dataBytes file bufSize k ∈ t.toRcopy ↔ k < n := by
    constructor
    · intro hmem
      exact (Transfer.sent_data hp hjoint hk hmem (hp.interpPDU_dataBytes k) rfl
        (hp.seqNum_dataPacket hk)).2
    · exact hjoint.sent k
  simp only [hmem]
  exact hcount

/-- Packet 0 is overtaken. It is sent a second time on rcopy's SREJ, and a third
time because no RR follows. -/
theorem sends_again_when_wanted_overtaken : ∃ t,
    run (Transfer.step 1) (Transfer.start 2 1 [1, 2] [] []) [.server .timeout, .rcopy (.recv 1),
      .server (.recv 0), .server .timeout, .server .timeout] = some t ∧
      t.toRcopy.count (dataBytes [1, 2] 1 0) = 3 ∧ t.toRcopy.count (dataBytes [1, 2] 1 1) = 1 := by
  have hp : Params 2 1 [1, 2] := ⟨by decide, by decide, by decide, by decide, by decide⟩
  have hnone : ∀ d ∈ ([] : List (List UInt8)), Transfer.Setup d := fun d hd => by cases hd
  have hrun : (run (Transfer.step 1) (Transfer.start 2 1 [1, 2] [] []) [.server .timeout,
      .rcopy (.recv 1), .server (.recv 0), .server .timeout, .server .timeout]).map
      (fun t => (decide (dataBytes [1, 2] 1 0 ∈ t.toRcopy), decide (dataBytes [1, 2] 1 1 ∈ t.toRcopy))) =
      some (true, true) := by
    decide +kernel
  obtain ⟨t, ht, hsent⟩ := Option.map_eq_some_iff.mp hrun
  simp only [Prod.mk.injEq, decide_eq_true_eq] at hsent
  have hfirst := sends_again_when_wanted hp hnone hnone ht (show 0 < packets [1, 2] 1 by decide)
  have hsecond := sends_again_when_wanted hp hnone hnone ht (show 1 < packets [1, 2] 1 by decide)
  rw [if_pos hsent.1] at hfirst
  rw [if_pos hsent.2] at hsecond
  refine ⟨t, ht, hfirst.trans ?_, hsecond.trans ?_⟩
  · decide +kernel
  · decide +kernel

end
end SelRej
