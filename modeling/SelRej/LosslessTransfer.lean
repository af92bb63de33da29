import SelRej.TransferProgress

/-!
# A transfer without losses

A network that delivers every datagram once and in the order in which it was
sent, before any wait of a second or more is over. Only the poll without waiting
in `checkForRRs` can find nothing, at any moment. Then every schedule of the two
sides is the plain sliding window: the child sends each packet once, rcopy
acknowledges each one once, nothing is rejected or sent again, and neither side
gives up. A schedule has a bounded number of steps, and it can only end when the
transfer is complete.

While the transfer runs, rcopy has written `f` packets and nothing is missing,
and the child's interval reaches from `lo`, the number of RRs that it has
received, to `n`.
-/
namespace SelRej.Lossless
open PartialRun ReorderBuffer

/-- The SETUPRESP with which the child begins the transfer is under way. -/
def setupPdu : List UInt8 := createPdu 1 SETUPRESP_FLAG [1]

def start (w : ℕ) (bufSize : UInt16) (file : List UInt8) : Ordered :=
  ⟨Transfer.start w bufSize file [] [setupPdu], 0, 0⟩

def step (bufSize : UInt16) (x : Ordered) : TransferEvent → Option Ordered
  | .server .timeout =>
      if x.transfer.server.pc = .checkForRRs then x.step bufSize (.server .timeout) else none
  | .server (.recv i) =>
      if i = x.nextServer then x.step bufSize (.server (.recv i)) else none
  | .rcopy (.recv i) => if i = x.nextRcopy then x.step bufSize (.rcopy (.recv i)) else none
  | _ => none

def Reachable (w : ℕ) (bufSize : UInt16) (file : List UInt8) (x : Ordered) : Prop :=
  ∃ events, run (step bufSize) (start w bufSize file) events = some x

def rrPdu (i : ℕ) : List UInt8 :=
  createPdu (UInt32.ofNat i) RR_FLAG (htonl (UInt32.ofNat (i + 1)))

def eofPdu (k : ℕ) : List UInt8 := createPdu (UInt32.ofNat k) EOF_FLAG []

def ackEofPdu (k : ℕ) : List UInt8 := createPdu (UInt32.ofNat k) ACKEOF_FLAG []

section
variable (w : ℕ) (bufSize : UInt16) (file : List UInt8)

/-- The child, what it has received, and the EOF among what it has sent. -/
inductive ChildAt (s : Server) (lo n : ℕ) : ℕ → List (List UInt8) → Prop where
  | sends (hpc : s.pc.closing = false) (hopen : s.pc ≠ .returned) : ChildAt s lo n lo []
  | closes (hpc : s.pc.closing = true) : ChildAt s lo n lo [eofPdu n]
  | returned (hpc : s.pc = .returned) : ChildAt s lo n (n + 1) [eofPdu n]

/-- rcopy, what it has received, and the ACKEOF among what it has sent. -/
inductive RcopyAt (r : Rcopy) : ℕ → ℕ → List (List UInt8) → Prop where
  | start (hpc : r.pc = .start) : RcopyAt r 0 0 []
  | receives (hpc : r.pc = .recvDataLoop) (f : ℕ) : RcopyAt r f (f + 1) []
  | finished (hpc : r.pc = .finished) :
      RcopyAt r (packets file bufSize) (packets file bufSize + 2)
        [ackEofPdu (packets file bufSize)]

structure Flows (x : Ordered) (lo n : ℕ) (b : ReorderBuffer PduS) (eofs acks : List (List UInt8)) :
    Prop where
  serves : Serves w bufSize file x.transfer.server lo n
  simulates : Simulates x.transfer.rcopy w b
  nothingMissing : b.next = b.seen
  mySeq : x.transfer.rcopy.mySeq = UInt32.ofNat b.next
  lo_le : lo ≤ b.next
  next_le : b.next ≤ n
  serverHalt : x.transfer.serverHalt = none
  rcopyHalt : x.transfer.rcopyHalt = none
  child : ChildAt x.transfer.server lo n x.nextServer eofs
  rcopy : RcopyAt bufSize file x.transfer.rcopy b.next x.nextRcopy acks
  toRcopy : x.transfer.toRcopy =
    setupPdu :: (List.range n).map (dataBytes file bufSize) ++ eofs
  toServer : x.transfer.toServer = (List.range b.next).map rrPdu ++ acks
  written : x.transfer.written = sentPackets file bufSize b.next
  answers : acks ≠ [] → eofs ≠ []
  acked : x.transfer.server.pc = .returned → acks ≠ [] ∧
    ∃ packet, x.transfer.heard.getLast? = some packet ∧ packet.flag = ACKEOF_FLAG

end

section
variable {w : ℕ} {bufSize : UInt16} {file : List UInt8} {x x' : Ordered} {s : Server} {lo n : ℕ}
  {b : ReorderBuffer PduS} {eofs acks : List (List UInt8)} {d : List UInt8}

/-- The child sends the next packet, it waits in `openWindow`, or it sends the
EOF and waits in `processEof`. -/
inductive Continues (w : ℕ) (bufSize : UInt16) (file : List UInt8) (lo n : ℕ) :
    ServerProc Server → Prop where
  | sends {s' : Server} (hserves : Serves w bufSize file s' lo (n + 1))
      (hpc : s'.pc = .checkForRRs) :
      Continues w bufSize file lo n ⟨[dataBytes file bufSize n], .ok s'⟩
  | waits {s' : Server} (hserves : Serves w bufSize file s' lo n) {caller : Caller}
      (hpc : s'.pc = .openWindow 0 caller) : Continues w bufSize file lo n ⟨[], .ok s'⟩
  | closes {s' : Server} (hserves : Serves w bufSize file s' lo n)
      (hpc : s'.pc = .processEof 0 255 []) : Continues w bufSize file lo n ⟨[eofPdu n], .ok s'⟩

theorem waitOnRRsTest_continues (h : Holding w bufSize file s.win s.input lo n)
    (hseq : s.seqNum.toNat = n) (hn : n = packets file bufSize) :
    Continues w bufSize file lo n (Server.waitOnRRsTest s) := by
  have hle := h.lo_le
  rw [waitOnRRsTest_eq h]
  split_ifs with hempty
  · rw [eq_ofNat hseq]
    exact .closes ⟨h, Nat.zero_le 9, rfl, by decide +kernel, hempty, hn⟩ rfl
  · exact .waits ⟨h, Nat.zero_le 9, by omega, hseq, fun _ => hn⟩ rfl

theorem transferDataTest_continues (h : Holding w bufSize file s.win s.input lo n)
    (hp : Params w bufSize file) (hseq : s.seqNum.toNat = n) (hroom : n ≠ lo + w) :
    Continues w bufSize file lo n (Server.transferDataTest bufSize s) := by
  rcases transferDataTest_cases h hp hseq with ⟨hn, heq⟩ | ⟨_, hfull, _⟩ | ⟨_, _, s', heq, hs', hpc⟩
  · rw [heq]
    exact waitOnRRsTest_continues h hseq hn
  · exact absurd hfull hroom
  · rw [heq]
    exact .sends hs' hpc

theorem transferDataRest_continues (h : Holding w bufSize file s.win s.input lo n)
    (hp : Params w bufSize file) (hseq : s.seqNum.toNat = n) :
    Continues w bufSize file lo n (Server.transferDataRest bufSize s) := by
  have hw := hp.window_pos
  rw [transferDataRest_eq h]
  by_cases hfull : n = lo + w
  · rw [if_pos hfull]
    exact .waits ⟨h, Nat.zero_le 9, by omega, hseq, fun hcaller => by cases hcaller⟩ rfl
  · rw [if_neg hfull]
    exact transferDataTest_continues h hp hseq hfull

/-- The child reads the next RR where it polls for RRs. -/
theorem step_checkForRRs_rr (h : Serves w bufSize file s lo n) (hp : Params w bufSize file)
    (hpc : s.pc = .checkForRRs) (hlt : lo < n) : ∃ win',
    s.step bufSize (.datagram (rrPdu lo)) = ⟨[], .ok { s with win := win' }⟩ ∧
      Serves w bufSize file { s with win := win' } (lo + 1) n := by
  have hplace := h.place
  rw [hpc] at hplace
  have hfew := hp.few
  have hle := h.holding.le
  have hnum : (UInt32.ofNat (lo + 1)).toNat = lo + 1 :=
    UInt32.toNat_ofNat_of_lt' (show lo + 1 < 4294967296 by omega)
  have hread := interpPDU_take_of_le (UInt32.ofNat lo) RR_FLAG
    (show (htonl (UInt32.ofNat (lo + 1))).length ≤ 65528 by simp)
    (show 7 + (htonl (UInt32.ofNat (lo + 1))).length ≤ Server.recvLen bufSize .checkForRRs from
      recvLen_of_polls (.inl rfl))
  rcases h.holding.recvRR_cases hp hplace.1 (UInt32.ofNat (lo + 1)) with
    ⟨heq, _⟩ | ⟨_, hout, _⟩ | ⟨_, _, _, win', hrecv, hholding⟩
  · omega
  · omega
  · rw [hnum] at hholding
    refine ⟨win', ?_, hholding, ?_⟩
    · rw [(Server.step_checkForRRs hpc).2]
      unfold Server.checkForRRsRecv rrPdu
      rw [hread, Emit.liftM_eq, Emit.bind_silent]
      dsimp only [decoded]
      rw [if_pos rfl, readSeq_htonl, Emit.liftM_eq, Emit.bind_silent, hrecv, Emit.liftM_eq,
        Emit.bind_silent]
      rfl
    · simp only [hpc]
      exact hplace

theorem step_openWindow_rr (h : Serves w bufSize file s lo n) (hp : Params w bufSize file)
    {count : ℕ} {caller : Caller} (hpc : s.pc = .openWindow count caller) :
    Continues w bufSize file (lo + 1) n (s.step bufSize (.datagram (rrPdu lo))) := by
  have hplace := h.place
  rw [hpc] at hplace
  obtain ⟨_, hlt, hseq, hcaller⟩ := hplace
  have hadd := h.holding.le_add
  obtain ⟨win', hstep, hholding⟩ := Ordered.step_rr h hp hpc (UInt32.ofNat lo)
    (show lo ≤ lo + 1 by omega) hlt
  rw [rrPdu, hstep]
  cases caller with
  | transferData =>
      exact transferDataTest_continues (s := { s with win := win' }) hholding hp hseq (by omega)
  | waitOnRRs =>
      exact waitOnRRsTest_continues (s := { s with win := win' }) hholding hseq (hcaller rfl)

/-- What is left to do: packets to send, datagrams to receive on both sides, and
whether the child may still send before it waits. -/
def remaining (bufSize : UInt16) (file : List UInt8) (x : Ordered) (n : ℕ) : ℕ :=
  2 * (packets file bufSize - n) + 2 * (packets file bufSize + 1 - x.nextServer) +
    (packets file bufSize + 2 - x.nextRcopy) +
    if x.transfer.server.pc = .checkForRRs then 1 else 0

theorem Flows.n_le (h : Flows w bufSize file x lo n b eofs acks) : n ≤ packets file bufSize :=
  h.serves.holding.le

theorem Flows.child_returned (h : Flows w bufSize file x lo n b eofs acks)
    (hpc : x.transfer.server.pc = .returned) : x.nextServer = n + 1 ∧ eofs = [eofPdu n] := by
  have hchild := h.child
  generalize x.nextServer = next at hchild ⊢
  cases hchild with
  | sends _ hopen => exact absurd hpc hopen
  | closes hclosing =>
      rw [hpc] at hclosing
      cases hclosing
  | returned => exact ⟨rfl, rfl⟩

theorem Flows.child_closes (h : Flows w bufSize file x lo n b eofs acks)
    (hpc : x.transfer.server.pc.closing = true) : x.nextServer = lo ∧ eofs = [eofPdu n] := by
  have hchild := h.child
  generalize x.nextServer = next at hchild ⊢
  cases hchild with
  | sends hclosing =>
      rw [hpc] at hclosing
      cases hclosing
  | closes => exact ⟨rfl, rfl⟩
  | returned hreturned =>
      rw [hreturned] at hpc
      cases hpc

theorem Flows.rcopy_finished (h : Flows w bufSize file x lo n b eofs acks)
    (hpc : x.transfer.rcopy.pc = .finished) : b.next = packets file bufSize ∧
      x.nextRcopy = packets file bufSize + 2 ∧ acks = [ackEofPdu (packets file bufSize)] := by
  have hrcopy := h.rcopy
  generalize x.nextRcopy = next at hrcopy ⊢
  generalize b.next = f at hrcopy ⊢
  cases hrcopy with
  | start hstart =>
      rw [hpc] at hstart
      cases hstart
  | receives hloop =>
      rw [hpc] at hloop
      cases hloop
  | finished => exact ⟨rfl, rfl, rfl⟩

theorem Flows.eofs_length (h : Flows w bufSize file x lo n b eofs acks) : eofs.length ≤ 1 := by
  have hchild := h.child
  generalize x.nextServer = next at hchild
  cases hchild with
  | sends => exact Nat.zero_le 1
  | closes => exact Nat.le_refl 1
  | returned => exact Nat.le_refl 1

theorem Flows.acks_length (h : Flows w bufSize file x lo n b eofs acks) : acks.length ≤ 1 := by
  have hrcopy := h.rcopy
  generalize x.nextRcopy = next at hrcopy
  generalize b.next = f at hrcopy
  cases hrcopy with
  | start => exact Nat.zero_le 1
  | receives => exact Nat.zero_le 1
  | finished => exact Nat.le_refl 1

/-- Before the EOF, rcopy has sent nothing but RRs. -/
theorem Flows.sends (h : Flows w bufSize file x lo n b eofs acks)
    (hpc : x.transfer.server.pc = .checkForRRs ∨
      ∃ count caller, x.transfer.server.pc = .openWindow count caller) :
    x.nextServer = lo ∧ eofs = [] ∧ acks = [] := by
  have hanswers := h.answers
  have hchild := h.child
  generalize x.nextServer = next at hchild ⊢
  cases hchild with
  | sends _ _ => exact ⟨rfl, rfl, by_contra fun hne => hanswers hne rfl⟩
  | closes hclosing =>
      rcases hpc with hpc | ⟨count, caller, hpc⟩
      · rw [hpc] at hclosing
        cases hclosing
      · rw [hpc] at hclosing
        cases hclosing
  | returned hreturned =>
      rcases hpc with hpc | ⟨count, caller, hpc⟩
      · rw [hpc] at hreturned
        cases hreturned
      · rw [hpc] at hreturned
        cases hreturned

theorem Flows.continues (h : Flows w bufSize file x lo n b [] []) {lo' next : ℕ}
    (hlo : lo' ≤ b.next) (hnext : next = lo') {out : List (List UInt8)} {s' : Server}
    {heard : List PduS} (hc : Continues w bufSize file lo' n ⟨out, .ok s'⟩) : ∃ n' eofs',
    Flows w bufSize file ⟨{ x.transfer with
      server := s'
      toRcopy := x.transfer.toRcopy ++ out
      heard := heard }, next, x.nextRcopy⟩ lo' n' b eofs' [] ∧
      2 * (packets file bufSize - n') + (if s'.pc = .checkForRRs then 1 else 0) <
        2 * (packets file bufSize - n) + 1 := by
  subst hnext
  have hrange : x.transfer.toRcopy = setupPdu :: (List.range n).map (dataBytes file bufSize) := by
    rw [h.toRcopy, List.append_nil]
  cases hc with
  | sends hserves hpc =>
      have hle := hserves.holding.le
      refine ⟨n + 1, [], ⟨hserves, h.simulates, h.nothingMissing, h.mySeq, hlo,
        Nat.le_succ_of_le h.next_le, h.serverHalt, h.rcopyHalt, .sends (by rw [hpc]; rfl)
        (by rw [hpc]; simp), h.rcopy, ?_, h.toServer, h.written, id, ?_⟩, ?_⟩
      · rw [hrange, List.range_succ, List.map_append, List.append_nil]
        rfl
      · intro hreturned
        rw [hpc] at hreturned
        cases hreturned
      · rw [if_pos hpc]
        omega
  | waits hserves hpc =>
      refine ⟨n, [], ⟨hserves, h.simulates, h.nothingMissing, h.mySeq, hlo, h.next_le, h.serverHalt,
        h.rcopyHalt, .sends (by rw [hpc]; rfl) (by rw [hpc]; simp), h.rcopy, ?_, h.toServer,
        h.written, id, ?_⟩, ?_⟩
      · rw [hrange, List.append_nil]
      · intro hreturned
        rw [hpc] at hreturned
        cases hreturned
      · rw [if_neg (by rw [hpc]; simp)]
        omega
  | closes hserves hpc =>
      refine ⟨n, [eofPdu n], ⟨hserves, h.simulates, h.nothingMissing, h.mySeq, hlo, h.next_le,
        h.serverHalt, h.rcopyHalt, .closes (by rw [hpc]; rfl), h.rcopy, ?_, h.toServer, h.written,
        fun hne => absurd rfl hne, ?_⟩, ?_⟩
      · rw [hrange]
      · intro hreturned
        rw [hpc] at hreturned
        cases hreturned
      · rw [if_neg (by rw [hpc]; simp)]
        omega

theorem Continues.exists_eq {p : ServerProc Server} (h : Continues w bufSize file lo n p) :
    ∃ out s', p = ⟨out, .ok s'⟩ := by
  cases h with
  | sends => exact ⟨_, _, rfl⟩
  | waits => exact ⟨_, _, rfl⟩
  | closes => exact ⟨_, _, rfl⟩

/-- Where a step leads: something less is left to do. -/
def Advances (w : ℕ) (bufSize : UInt16) (file : List UInt8) (x : Ordered) (n : ℕ)
    (e : TransferEvent) : Prop :=
  ∃ x' lo' n' b' eofs' acks', step bufSize x e = some x' ∧
    Flows w bufSize file x' lo' n' b' eofs' acks' ∧
    remaining bufSize file x' n' < remaining bufSize file x n

theorem Flows.timeout (h : Flows w bufSize file x lo n b eofs acks) (hp : Params w bufSize file)
    (hpc : x.transfer.server.pc = .checkForRRs) :
    Advances w bufSize file x n (.server .timeout) := by
  obtain ⟨hnext, rfl, rfl⟩ := h.sends (.inl hpc)
  have hplace := h.serves.place
  rw [hpc] at hplace
  have hc := transferDataRest_continues h.serves.holding hp hplace.2
  obtain ⟨out, s', hrest⟩ := hc.exists_eq
  rw [hrest] at hc
  obtain ⟨n', eofs', hflows, hless⟩ := h.continues h.lo_le hnext hc
  refine ⟨_, lo, n', b, eofs', [], ?_, hflows, ?_⟩
  · rw [step, if_pos hpc, Ordered.step_timeout h.serverHalt
      ((Server.step_checkForRRs hpc).1.trans hrest)]
  · simp only [remaining, if_pos hpc]
    omega

theorem Flows.getElem_rr (h : Flows w bufSize file x lo n b [] []) (hnext : x.nextServer = lo)
    (hd : x.transfer.toServer[x.nextServer]? = some d) : lo < b.next ∧ d = rrPdu lo := by
  rw [h.toServer, List.append_nil, hnext] at hd
  have hlt : lo < ((List.range b.next).map rrPdu).length := (List.getElem?_eq_some_iff.mp hd).1
  rw [List.length_map, List.length_range] at hlt
  rw [List.getElem?_map, List.getElem?_range hlt, Option.map_some] at hd
  cases hd
  exact ⟨hlt, rfl⟩

theorem Flows.recv_rr (h : Flows w bufSize file x lo n b eofs acks) (hp : Params w bufSize file)
    (hpc : x.transfer.server.pc = .checkForRRs ∨
      ∃ count caller, x.transfer.server.pc = .openWindow count caller)
    (hd : x.transfer.toServer[x.nextServer]? = some d) :
    Advances w bufSize file x n (.server (.recv x.nextServer)) := by
  obtain ⟨hnext, rfl, rfl⟩ := h.sends hpc
  obtain ⟨hlt, rfl⟩ := h.getElem_rr hnext hd
  have hn := h.next_le
  have hle := h.n_le
  have hstep : ∀ {out s'}, x.transfer.server.step bufSize (.datagram (rrPdu lo)) = ⟨out, .ok s'⟩ →
      step bufSize x (.server (.recv x.nextServer)) = some ⟨{ x.transfer with
        server := s'
        toRcopy := x.transfer.toRcopy ++ out
        heard := x.transfer.heard ++ Transfer.accepted bufSize x.transfer.server.pc
          (.datagram (rrPdu lo)) }, x.nextServer + 1, x.nextRcopy⟩ := by
    intro out s' hs'
    rw [step, if_pos rfl, Ordered.step_server_recv h.serverHalt (Nat.le_refl _) hd hs']
  rcases hpc with hpc | ⟨count, caller, hpc⟩
  · obtain ⟨win', hs', hserves⟩ := step_checkForRRs_rr h.serves hp hpc (by omega)
    refine ⟨_, lo + 1, n, b, [], [], hstep hs', ⟨hserves, h.simulates, h.nothingMissing, h.mySeq,
      hlt, h.next_le, h.serverHalt, h.rcopyHalt, ?_, h.rcopy, ?_, h.toServer, h.written, id, ?_⟩, ?_⟩
    · rw [hnext]
      exact .sends (by simp only [hpc]; rfl) (by simp [hpc])
    · rw [h.toRcopy, List.append_nil]
    · intro hreturned
      simp only [hpc] at hreturned
      cases hreturned
    · simp only [remaining, hpc, if_true, hnext]
      omega
  · have hc := step_openWindow_rr h.serves hp hpc
    obtain ⟨out, s', hs'⟩ := hc.exists_eq
    rw [hs'] at hc
    obtain ⟨n', eofs', hflows, hless⟩ := h.continues hlt (congrArg (· + 1) hnext) hc
    refine ⟨_, lo + 1, n', b, eofs', [], hstep hs', hflows, ?_⟩
    simp only [remaining, hpc, hnext]
    omega

/-- When everything is acknowledged, what is left for the child to receive is the
ACKEOF. -/
theorem Flows.getElem_ackEof (h : Flows w bufSize file x lo n b eofs acks) (hall : b.next = n)
    (hnext : x.nextServer = n) (hd : x.transfer.toServer[x.nextServer]? = some d) :
    acks = [ackEofPdu (packets file bufSize)] ∧ d = ackEofPdu (packets file bufSize) := by
  have hlen : ((List.range b.next).map rrPdu).length = x.nextServer := by
    rw [List.length_map, List.length_range, hall, hnext]
  rw [h.toServer, List.getElem?_append_right (Nat.le_of_eq hlen), hlen, Nat.sub_self] at hd
  have hrcopy := h.rcopy
  generalize x.nextRcopy = next at hrcopy
  generalize b.next = f at hrcopy
  cases hrcopy with
  | start => cases hd
  | receives => cases hd
  | finished =>
      cases hd
      exact ⟨rfl, rfl⟩

theorem step_ackEofPdu (hp : Params w bufSize file) {count : ℕ} {flag : UInt8}
    {respBuf : List UInt8} (hpc : s.pc = .processEof count flag respBuf) (hcount : count ≤ 9)
    (k : ℕ) : s.step bufSize (.datagram (ackEofPdu k)) = ⟨[], .ok { s with pc := .returned }⟩ ∧
      ∃ packet, Transfer.accepted bufSize s.pc (.datagram (ackEofPdu k)) = [packet] ∧
        packet.flag = ACKEOF_FLAG :=
  Ordered.step_ackEof hp hpc hcount (UInt32.ofNat k)

theorem Flows.recv_ackEof (h : Flows w bufSize file x lo n b eofs acks)
    (hp : Params w bufSize file) {count : ℕ} {flag : UInt8} {respBuf : List UInt8}
    (hpc : x.transfer.server.pc = .processEof count flag respBuf)
    (hd : x.transfer.toServer[x.nextServer]? = some d) :
    Advances w bufSize file x n (.server (.recv x.nextServer)) := by
  have hplace := h.serves.place
  rw [hpc] at hplace
  obtain ⟨hcount, _, _, hlo, hn⟩ := hplace
  have hle := h.lo_le
  have hle' := h.next_le
  obtain ⟨hnext, rfl⟩ := h.child_closes (by rw [hpc]; rfl)
  rw [hlo] at hnext
  obtain ⟨rfl, rfl⟩ := h.getElem_ackEof (by omega) hnext hd
  obtain ⟨hs', packet, hacc, hack⟩ := step_ackEofPdu hp hpc hcount (packets file bufSize)
  refine ⟨⟨{ x.transfer with
      server := { x.transfer.server with pc := .returned }
      toRcopy := x.transfer.toRcopy ++ []
      heard := x.transfer.heard ++ [packet] }, x.nextServer + 1, x.nextRcopy⟩,
    lo, n, b, [eofPdu n], _, ?_, ⟨⟨h.serves.holding, hlo, hn⟩, h.simulates, h.nothingMissing,
      h.mySeq, h.lo_le, h.next_le, h.serverHalt, h.rcopyHalt, ?_, h.rcopy, ?_, h.toServer,
      h.written, h.answers, fun _ => ⟨by simp, packet, List.getLast?_concat, hack⟩⟩, ?_⟩
  · rw [step, if_pos rfl, Ordered.step_server_recv h.serverHalt (Nat.le_refl _) hd hs', hacc]
  · simp only [hnext]
    exact .returned rfl
  · rw [h.toRcopy, List.append_nil]
  · simp only [remaining, hpc, hnext]
    simp
    omega

theorem Flows.rcopy_start (h : Flows w bufSize file x lo n b eofs acks)
    (hpc : x.transfer.rcopy.pc = .start) : b.next = 0 ∧ x.nextRcopy = 0 ∧ acks = [] := by
  have hrcopy := h.rcopy
  generalize x.nextRcopy = next at hrcopy ⊢
  generalize b.next = f at hrcopy ⊢
  cases hrcopy with
  | start => exact ⟨rfl, rfl, rfl⟩
  | receives hloop =>
      rw [hpc] at hloop
      cases hloop
  | finished hfinished =>
      rw [hpc] at hfinished
      cases hfinished

theorem Flows.rcopy_receives (h : Flows w bufSize file x lo n b eofs acks)
    (hpc : x.transfer.rcopy.pc = .recvDataLoop) : x.nextRcopy = b.next + 1 ∧ acks = [] := by
  have hrcopy := h.rcopy
  generalize x.nextRcopy = next at hrcopy ⊢
  generalize b.next = f at hrcopy ⊢
  cases hrcopy with
  | start hstart =>
      rw [hpc] at hstart
      cases hstart
  | receives => exact ⟨rfl, rfl⟩
  | finished hfinished =>
      rw [hpc] at hfinished
      cases hfinished

theorem Flows.recv_setup (h : Flows w bufSize file x lo n b eofs acks)
    (hpc : x.transfer.rcopy.pc = .start) :
    Advances w bufSize file x n (.rcopy (.recv x.nextRcopy)) := by
  obtain ⟨hzero, hnext, rfl⟩ := h.rcopy_start hpc
  have hd : x.transfer.toRcopy[x.nextRcopy]? = some setupPdu := by
    rw [h.toRcopy, hnext]
    rfl
  obtain ⟨packet, hread, hflag⟩ : ∃ packet, interpPDU (setupPdu.take
      (Rcopy.recvLen bufSize x.transfer.rcopy.pc)) = .ok (some packet) ∧
        packet.flag = SETUPRESP_FLAG := by
    rw [hpc]
    exact ⟨_, interpPDU_take_of_le 1 SETUPRESP_FLAG (show [(1 : UInt8)].length ≤ 65528 by decide)
      (show 7 + [(1 : UInt8)].length ≤ MAXBUF by decide), rfl⟩
  refine ⟨⟨{ x.transfer with
      rcopy := { x.transfer.rcopy with pc := .recvDataLoop }
      toServer := x.transfer.toServer ++ datagrams []
      written := x.transfer.written ++ SelRej.written [] }, x.nextServer, x.nextRcopy + 1⟩,
    lo, n, b, eofs, [], ?_, ⟨h.serves, h.simulates.set_pc h.nothingMissing (.inr (.inl rfl)), h.nothingMissing, h.mySeq, h.lo_le, h.next_le, h.serverHalt, h.rcopyHalt,
    h.child, ?_, h.toRcopy, ?_, ?_, h.answers, h.acked⟩, ?_⟩
  · rw [step, if_pos rfl, Ordered.step_rcopy_recv h.rcopyHalt (Nat.le_refl _) hd
      ((Rcopy.step_accepted hread).trans (Rcopy.receive_setup hpc hflag))]
  · simp only [hzero, hnext]
    exact .receives rfl 0
  · simp only [datagrams, List.filterMap_nil, List.append_nil]
    rw [h.toServer, List.append_nil]
  · simp only [SelRej.written, List.filterMap_nil, List.append_nil]
    exact h.written
  · simp only [remaining, hnext]
    omega

theorem Flows.recv_data (h : Flows w bufSize file x lo n b eofs acks)
    (hp : Params w bufSize file) (hpc : x.transfer.rcopy.pc = .recvDataLoop) (hlt : b.next < n) :
    Advances w bufSize file x n (.rcopy (.recv x.nextRcopy)) := by
  obtain ⟨hnext, rfl⟩ := h.rcopy_receives hpc
  have hn := h.n_le
  have hadd := h.serves.holding.le_add
  have hlo := h.lo_le
  have hfew := hp.few
  have hd : x.transfer.toRcopy[x.nextRcopy]? = some (dataBytes file bufSize b.next) := by
    rw [h.toRcopy, hnext, List.cons_append, List.getElem?_cons_succ,
      List.getElem?_append_left (by rw [List.length_map, List.length_range]; exact hlt),
      List.getElem?_map, List.getElem?_range hlt]
    rfl
  have hnum := hp.seqNum_dataPacket (show b.next < packets file bufSize by omega)
  have hfits : Fits w b.next (dataPacket file bufSize b.next) :=
    ⟨rfl, by omega, by omega, .inl hp.window_le⟩
  obtain ⟨r', hreceive, hsim, hmy, hne⟩ := h.simulates.receive_eq (by rw [hpc]; simp) hfits
  rw [hnum, arrive_of_idle h.simulates.wellFormed h.nothingMissing] at hreceive hsim hmy
  have hloop : r'.pc = .recvDataLoop := by
    have hstarted := Ordered.receive_started (by rw [hpc]; simp) (dataPacket file bufSize b.next) r'
      (by rw [hreceive])
    obtain ⟨_, hstart | hloop | hfinished⟩ := hsim.idle rfl
    · exact absurd hstart hstarted
    · exact hloop
    · exact absurd hfinished hne
  have hrr : wire x.transfer.rcopy.mySeq [.deliver b.next (dataPacket file bufSize b.next),
      .ack (b.next + 1)] = [.fwrite (dataPacket file bufSize b.next), .sendto (rrPdu b.next)] := by
    rw [h.mySeq]
    rfl
  rw [hrr] at hreceive
  refine ⟨⟨{ x.transfer with
      rcopy := r'
      toServer := x.transfer.toServer ++ datagrams
        [.fwrite (dataPacket file bufSize b.next), .sendto (rrPdu b.next)]
      written := x.transfer.written ++ SelRej.written
        [.fwrite (dataPacket file bufSize b.next), .sendto (rrPdu b.next)] },
      x.nextServer, x.nextRcopy + 1⟩,
    lo, n, _, eofs, [], ?_, ⟨h.serves, hsim, rfl, ?_, Nat.le_succ_of_le h.lo_le, hlt,
    h.serverHalt, h.rcopyHalt, h.child, ?_, h.toRcopy, ?_, ?_, h.answers, h.acked⟩, ?_⟩
  · rw [step, if_pos rfl, Ordered.step_rcopy_recv h.rcopyHalt (Nat.le_refl _) hd
      ((Rcopy.step_accepted (hp.rcopy_reads_dataBytes _ _)).trans hreceive)]
  · simp only [hmy, seqAfter, h.mySeq, UInt32.ofNat_add]
    rfl
  · simp only [hnext]
    exact .receives hloop (b.next + 1)
  · simp only [datagrams, List.filterMap_cons, List.filterMap_nil, List.append_nil]
    rw [h.toServer, List.range_succ, List.map_append, List.append_nil]
    rfl
  · simp only [SelRej.written, List.filterMap_cons, List.filterMap_nil]
    rw [h.written, sentPackets_succ]
  · simp only [remaining, hnext]
    omega

theorem Flows.recv_eof (h : Flows w bufSize file x lo n b eofs acks)
    (hp : Params w bufSize file) (hpc : x.transfer.rcopy.pc = .recvDataLoop) (hall : b.next = n)
    (hd : x.transfer.toRcopy[x.nextRcopy]? = some d) :
    Advances w bufSize file x n (.rcopy (.recv x.nextRcopy)) := by
  obtain ⟨hnext, rfl⟩ := h.rcopy_receives hpc
  have hlen : ((List.range n).map (dataBytes file bufSize)).length = n := by
    rw [List.length_map, List.length_range]
  have hget := hd
  rw [h.toRcopy, hnext, List.cons_append, List.getElem?_cons_succ,
    List.getElem?_append_right (Nat.le_of_eq (hlen.trans hall.symm)), hlen, hall, Nat.sub_self] at hget
  have heof : eofs = [eofPdu n] ∧ n = packets file bufSize ∧
      x.transfer.server.pc ≠ .returned := by
    have hplace := h.serves.place
    have hacked := h.acked
    have hchild := h.child
    generalize x.nextServer = next at hchild
    cases hchild with
    | sends => cases hget
    | closes hclosing =>
        cases hserver : x.transfer.server.pc with
        | processEof count flag respBuf =>
            rw [hserver] at hplace
            exact ⟨rfl, hplace.2.2.2.2, by simp⟩
        | checkForRRs => simp [hserver, ServerPc.closing] at hclosing
        | openWindow count caller => simp [hserver, ServerPc.closing] at hclosing
        | returned => simp [hserver, ServerPc.closing] at hclosing
    | returned hreturned => exact absurd rfl (hacked hreturned).1
  obtain ⟨rfl, hn, hopen⟩ := heof
  cases hget
  obtain ⟨packet, hread, hflag⟩ : ∃ packet, interpPDU ((eofPdu n).take
      (Rcopy.recvLen bufSize x.transfer.rcopy.pc)) = .ok (some packet) ∧ packet.flag = EOF_FLAG :=
    ⟨_, interpPDU_take_of_le (UInt32.ofNat n) EOF_FLAG (Nat.zero_le _) (Nat.le_trans
      (Nat.le_add_left 7 bufSize.toNat) (hp.rcopyRecvLen x.transfer.rcopy.pc).1), rfl⟩
  have hreceive := Simulates.receive_eof hpc hflag
  have hack : createPdu x.transfer.rcopy.mySeq ACKEOF_FLAG [] = ackEofPdu n := by
    rw [h.mySeq, hall]
    rfl
  rw [hack] at hreceive
  refine ⟨⟨{ x.transfer with
      rcopy := { x.transfer.rcopy with pc := .finished }
      toServer := x.transfer.toServer ++ datagrams [.sendto (ackEofPdu n)]
      written := x.transfer.written ++ SelRej.written [.sendto (ackEofPdu n)] },
      x.nextServer, x.nextRcopy + 1⟩,
    lo, n, b, [eofPdu n], [ackEofPdu n], ?_, ⟨h.serves, h.simulates.set_pc
    h.nothingMissing (.inr (.inr rfl)), h.nothingMissing, h.mySeq, h.lo_le, h.next_le,
    h.serverHalt, h.rcopyHalt, h.child, ?_, h.toRcopy, ?_, ?_, fun _ => by simp,
    fun hreturned => absurd hreturned hopen⟩, ?_⟩
  · rw [step, if_pos rfl, Ordered.step_rcopy_recv h.rcopyHalt (Nat.le_refl _) hd
      ((Rcopy.step_accepted hread).trans hreceive)]
  · simp only [hnext, hall, hn]
    exact .finished rfl
  · simp only [datagrams, List.filterMap_cons, List.filterMap_nil]
    rw [h.toServer, List.append_nil, hall]
  · simp only [SelRej.written, List.filterMap_cons, List.filterMap_nil, List.append_nil]
    exact h.written
  · simp only [remaining, hnext]
    omega

theorem Flows.recv_server (h : Flows w bufSize file x lo n b eofs acks)
    (hp : Params w bufSize file) (hd : x.transfer.toServer[x.nextServer]? = some d) :
    Advances w bufSize file x n (.server (.recv x.nextServer)) := by
  cases hpc : x.transfer.server.pc with
  | checkForRRs => exact h.recv_rr hp (.inl hpc) hd
  | openWindow count caller => exact h.recv_rr hp (.inr ⟨count, caller, hpc⟩) hd
  | processEof count flag respBuf => exact h.recv_ackEof hp hpc hd
  | returned =>
      have hle := h.next_le
      have hlt : x.nextServer < b.next + acks.length := by
        have hlt : x.nextServer < x.transfer.toServer.length := (List.getElem?_eq_some_iff.mp hd).1
        rwa [h.toServer, List.length_append, List.length_map, List.length_range] at hlt
      have hnext := (h.child_returned hpc).1
      have hacks := h.acks_length
      omega

theorem Flows.recv_rcopy (h : Flows w bufSize file x lo n b eofs acks)
    (hp : Params w bufSize file) (hd : x.transfer.toRcopy[x.nextRcopy]? = some d) :
    Advances w bufSize file x n (.rcopy (.recv x.nextRcopy)) := by
  have hnext := h.next_le
  obtain ⟨_, hstart | hloop | hfinished⟩ := h.simulates.idle h.nothingMissing
  · exact h.recv_setup hstart
  · rcases Nat.lt_or_eq_of_le hnext with hlt | hall
    · exact h.recv_data hp hloop hlt
    · exact h.recv_eof hp hloop hall hd
  · -- the EOF is the last datagram to rcopy
    have hlt : x.nextRcopy < 1 + n + eofs.length := by
      have hlt : x.nextRcopy < x.transfer.toRcopy.length := (List.getElem?_eq_some_iff.mp hd).1
      rw [h.toRcopy, List.length_append, List.length_cons, List.length_map, List.length_range] at hlt
      omega
    have hn := h.n_le
    have hread := (h.rcopy_finished hfinished).2.1
    have heofs := h.eofs_length
    omega

/-- Every step that can be taken leaves less to do. -/
theorem Flows.advances (h : Flows w bufSize file x lo n b eofs acks)
    (hp : Params w bufSize file) {e : TransferEvent} (hstep : step bufSize x e = some x') :
    Advances w bufSize file x n e := by
  unfold step at hstep
  split at hstep
  · split_ifs at hstep with hpc
    exact h.timeout hp hpc
  · split_ifs at hstep with hnext
    subst hnext
    obtain ⟨_, poll, _, hpoll⟩ := Transfer.step_server (Ordered.transfer_step hstep)
    obtain ⟨d, hd, _⟩ := Option.map_eq_some_iff.mp hpoll
    exact h.recv_server hp hd
  · split_ifs at hstep with hnext
    subst hnext
    obtain ⟨_, poll, _, hpoll⟩ := Transfer.step_rcopy (Ordered.transfer_step hstep)
    obtain ⟨d, hd, _⟩ := Option.map_eq_some_iff.mp hpoll
    exact h.recv_rcopy hp hd
  · cases hstep

theorem flows_start (hp : Params w bufSize file) :
    Flows w bufSize file (start w bufSize file) 0 1 ReorderBuffer.empty [] [] ∧
      remaining bufSize file (start w bufSize file) 1 = 5 * packets file bufSize + 3 := by
  have hw := hp.window_pos
  have hle := hp.window_le
  have hpos : 0 < packets file bufSize := Nat.succ_pos _
  obtain ⟨s', hinit, hserves, hpc⟩ := serves_init hp
  unfold start Transfer.start
  rw [hinit]
  refine ⟨⟨hserves, simulates_init (by omega) (by omega), rfl, rfl, Nat.le_refl 0, Nat.zero_le 1, rfl,
    rfl, .sends (by simp only [hpc]; rfl) (by simp [hpc]), .start rfl, rfl, rfl, rfl, id, ?_⟩, ?_⟩
  · intro hreturned
    simp only [hpc] at hreturned
    cases hreturned
  · simp only [remaining, hpc, if_true]
    omega

/-- Along a run the invariant holds, and what is left to do shrinks. -/
theorem flows_run (hp : Params w bufSize file) {events : List TransferEvent}
    (hrun : run (step bufSize) (start w bufSize file) events = some x) :
    ∃ lo n b eofs acks, Flows w bufSize file x lo n b eofs acks ∧
      events.length + remaining bufSize file x n ≤ 5 * packets file bufSize + 3 := by
  have hstep : ∀ (x : Ordered) e x' m, (∃ lo n b eofs acks,
      Flows w bufSize file x lo n b eofs acks ∧ remaining bufSize file x n = m) →
      step bufSize x e = some x' → ∃ m' < m, ∃ lo n b eofs acks,
        Flows w bufSize file x' lo n b eofs acks ∧ remaining bufSize file x' n = m' := by
    intro x e x' m hx hstep
    obtain ⟨lo, n, b, eofs, acks, hflows, rfl⟩ := hx
    obtain ⟨y, lo', n', b', eofs', acks', hy, hflows', hlt⟩ := hflows.advances hp hstep
    rw [hstep] at hy
    cases hy
    exact ⟨_, hlt, lo', n', b', eofs', acks', hflows', rfl⟩
  obtain ⟨hstart, hless⟩ := flows_start hp
  obtain ⟨m, ⟨lo, n, b, eofs, acks, hflows, rfl⟩, hle⟩ :=
    run_length_le hstep ⟨0, 1, _, [], [], hstart, hless⟩ hrun
  exact ⟨lo, n, b, eofs, acks, hflows, hle⟩

theorem Flows.eofs_eq (h : Flows w bufSize file x lo n b eofs acks) :
    eofs = [] ∨ n = packets file bufSize ∧ eofs = [eofPdu (packets file bufSize)] := by
  have hplace := h.serves.place
  have hchild := h.child
  generalize x.nextServer = next at hchild
  cases hchild with
  | sends => exact .inl rfl
  | closes hclosing =>
      cases hpc : x.transfer.server.pc with
      | processEof count flag respBuf =>
          rw [hpc] at hplace
          have hn := hplace.2.2.2.2
          exact .inr ⟨hn, by rw [hn]⟩
      | checkForRRs => simp [hpc, ServerPc.closing] at hclosing
      | openWindow count caller => simp [hpc, ServerPc.closing] at hclosing
      | returned => simp [hpc, ServerPc.closing] at hclosing
  | returned hpc =>
      rw [hpc] at hplace
      exact .inr ⟨hplace.2, by rw [hplace.2]⟩

theorem Flows.acks_eq (h : Flows w bufSize file x lo n b eofs acks) :
    acks = [] ∨ acks = [ackEofPdu (packets file bufSize)] := by
  obtain ⟨_, hstart | hloop | hfinished⟩ := h.simulates.idle h.nothingMissing
  · exact .inl (h.rcopy_start hstart).2.2
  · exact .inl (h.rcopy_receives hloop).2
  · exact .inr (h.rcopy_finished hfinished).2.2

/-- The child's interval is within a window of the RRs that it has received. -/
theorem Flows.le_add (h : Flows w bufSize file x lo n b eofs acks) : n ≤ x.nextServer + w := by
  have hadd := h.serves.holding.le_add
  have hle := h.serves.holding.lo_le
  have hchild := h.child
  generalize x.nextServer = next at hchild ⊢
  cases hchild with
  | sends => exact hadd
  | closes => exact hadd
  | returned => omega

/-- In every state of every schedule: the child has sent the first packets of the
file, each of them once and none of them more than a window ahead of the RRs it
has received, and the EOF at most once; rcopy has sent an RR for each packet that
it has written, and the ACKEOF at most once. Nothing is rejected or sent again,
and both sides run. -/
theorem lossless_sends_once (hp : Params w bufSize file) (h : Reachable w bufSize file x) :
    x.transfer.serverHalt = none ∧ x.transfer.rcopyHalt = none ∧ ∃ n f eofs acks,
      f ≤ n ∧ n ≤ packets file bufSize ∧ n ≤ x.nextServer + w ∧
      (eofs = [] ∨ eofs = [eofPdu (packets file bufSize)]) ∧
      (acks = [] ∨ acks = [ackEofPdu (packets file bufSize)]) ∧
      x.transfer.toRcopy = setupPdu :: (List.range n).map (dataBytes file bufSize) ++ eofs ∧
      x.transfer.toServer = (List.range f).map rrPdu ++ acks ∧
      x.transfer.written = sentPackets file bufSize f := by
  obtain ⟨events, hrun⟩ := h
  obtain ⟨lo, n, b, eofs, acks, hflows, _⟩ := flows_run hp hrun
  refine ⟨hflows.serverHalt, hflows.rcopyHalt, n, b.next, eofs, acks, hflows.next_le, hflows.n_le,
    hflows.le_add, ?_, hflows.acks_eq, hflows.toRcopy, hflows.toServer, hflows.written⟩
  rcases hflows.eofs_eq with heofs | ⟨_, heofs⟩
  · exact .inl heofs
  · exact .inr heofs

/-- A transfer in which no step can be taken has come to its end. -/
theorem Flows.complete_of_stuck (h : Flows w bufSize file x lo n b eofs acks)
    (hp : Params w bufSize file) (hstuck : ∀ e, step bufSize x e = none) :
    x.transfer.Complete file := by
  have hserver : b.next + acks.length ≤ x.nextServer := by
    by_contra hlt
    rw [Nat.not_le] at hlt
    have hbound : x.nextServer < x.transfer.toServer.length := by
      rw [h.toServer, List.length_append, List.length_map, List.length_range]
      exact hlt
    obtain ⟨x', _, _, _, _, _, hstep, _⟩ := h.recv_server hp (List.getElem?_eq_getElem hbound)
    rw [hstuck] at hstep
    cases hstep
  have hrcopy : 1 + n + eofs.length ≤ x.nextRcopy := by
    by_contra hlt
    have hbound : x.nextRcopy < x.transfer.toRcopy.length := by
      rw [h.toRcopy, List.length_append, List.length_cons, List.length_map, List.length_range]
      omega
    obtain ⟨x', _, _, _, _, _, hstep, _⟩ := h.recv_rcopy hp (List.getElem?_eq_getElem hbound)
    rw [hstuck] at hstep
    cases hstep
  have hlo := h.lo_le
  have hnext := h.next_le
  have hplace := h.serves.place
  cases hpc : x.transfer.server.pc with
  | checkForRRs =>
      obtain ⟨x', _, _, _, _, _, hstep, _⟩ := h.timeout hp hpc
      rw [hstuck] at hstep
      cases hstep
  | openWindow count caller =>
      rw [hpc] at hplace
      obtain ⟨hread, rfl, rfl⟩ := h.sends (.inr ⟨count, caller, hpc⟩)
      have hlt := hplace.2.1
      simp only [List.length_nil] at hserver hrcopy
      obtain ⟨_, hstart | hloop | hfinished⟩ := h.simulates.idle h.nothingMissing
      · have hzero := (h.rcopy_start hstart).2.1
        omega
      · have hone := (h.rcopy_receives hloop).1
        omega
      · cases (h.rcopy_finished hfinished).2.2
  | processEof count flag respBuf =>
      rw [hpc] at hplace
      obtain ⟨_, _, _, hall, hn⟩ := hplace
      obtain ⟨hread, heofs⟩ := h.child_closes (by rw [hpc]; rfl)
      have hacks : acks = [] := List.eq_nil_of_length_eq_zero (by omega)
      rw [heofs, List.length_singleton] at hrcopy
      obtain ⟨_, hstart | hloop | hfinished⟩ := h.simulates.idle h.nothingMissing
      · have hzero := (h.rcopy_start hstart).2.1
        omega
      · have hone := (h.rcopy_receives hloop).1
        omega
      · rw [(h.rcopy_finished hfinished).2.2] at hacks
        cases hacks
  | returned =>
      obtain ⟨hacks, hheard⟩ := h.acked hpc
      have hfinished : x.transfer.rcopy.pc = .finished := by
        obtain ⟨_, hstart | hloop | hfinished⟩ := h.simulates.idle h.nothingMissing
        · exact absurd (h.rcopy_start hstart).2.2 hacks
        · exact absurd (h.rcopy_receives hloop).2 hacks
        · exact hfinished
      refine ⟨h.serverHalt, h.rcopyHalt, hfinished, ?_, hpc, hheard⟩
      rw [Transfer.output, h.written, (h.rcopy_finished hfinished).1, Transfer.flatMap_packets hp]

/-- Every schedule ends after a bounded number of steps, and when it cannot go on
the transfer is complete: rcopy's output is the file. -/
theorem lossless_completes (hp : Params w bufSize file) {events : List TransferEvent}
    (hrun : run (step bufSize) (start w bufSize file) events = some x) :
    events.length ≤ 5 * packets file bufSize + 3 ∧
      ((∀ e, step bufSize x e = none) → x.transfer.Complete file) := by
  obtain ⟨lo, n, b, eofs, acks, hflows, hle⟩ := flows_run hp hrun
  exact ⟨by omega, hflows.complete_of_stuck hp⟩

theorem step_eq_none (hpc : x.transfer.server.pc ≠ .checkForRRs)
    (hserver : x.transfer.toServer.length ≤ x.nextServer)
    (hrcopy : x.transfer.toRcopy.length ≤ x.nextRcopy) (e : TransferEvent) :
    step bufSize x e = none := by
  by_contra hne
  obtain ⟨y, hy⟩ := Option.ne_none_iff_exists'.mp hne
  unfold step at hy
  split at hy
  · rw [if_neg hpc] at hy
    cases hy
  · split_ifs at hy with hnext
    subst hnext
    obtain ⟨_, poll, _, hpoll⟩ := Transfer.step_server (Ordered.transfer_step hy)
    obtain ⟨d, hd, _⟩ := Option.map_eq_some_iff.mp hpoll
    exact absurd (List.getElem?_eq_some_iff.mp hd).1 (Nat.not_lt_of_le hserver)
  · split_ifs at hy with hnext
    subst hnext
    obtain ⟨_, poll, _, hpoll⟩ := Transfer.step_rcopy (Ordered.transfer_step hy)
    obtain ⟨d, hd, _⟩ := Option.map_eq_some_iff.mp hpoll
    exact absurd (List.getElem?_eq_some_iff.mp hd).1 (Nat.not_lt_of_le hrcopy)
  · cases hy

end

/-- A file of two packets, and the child waits for the RR of the first one before
it polls for the second. -/
def twoPackets : List TransferEvent :=
  [.rcopy (.recv 0), .rcopy (.recv 1), .server .timeout, .server (.recv 0), .rcopy (.recv 2),
    .server .timeout, .server (.recv 1), .rcopy (.recv 3), .server (.recv 2)]

theorem params_twoPackets : Params 1 2 [1, 2, 3] :=
  ⟨by decide, by decide, by decide, by decide, by decide⟩

theorem twoPackets_run : ∃ x, run (step 2) (start 1 2 [1, 2, 3]) twoPackets = some x ∧
    x.transfer.server.pc = .returned ∧ x.nextServer = 3 ∧ x.transfer.toServer.length = 3 ∧
      x.nextRcopy = 4 ∧ x.transfer.toRcopy.length = 4 := by
  have hrun : (run (step 2) (start 1 2 [1, 2, 3]) twoPackets).map (fun x =>
      (x.transfer.server.pc, x.nextServer, x.transfer.toServer.length, x.nextRcopy,
        x.transfer.toRcopy.length)) = some (.returned, 3, 3, 4, 4) := by
    decide +kernel
  obtain ⟨x, hx, hview⟩ := Option.map_eq_some_iff.mp hrun
  simp only [Prod.mk.injEq] at hview
  exact ⟨x, hx, hview⟩

theorem lossless_sends_once_twoPackets : ∃ x, Reachable 1 2 [1, 2, 3] x ∧
    x.transfer.server.pc = .returned ∧ x.transfer.rcopyHalt = none := by
  obtain ⟨x, hrun, hpc, _⟩ := twoPackets_run
  obtain ⟨_, hhalt, _⟩ := lossless_sends_once params_twoPackets ⟨_, hrun⟩
  exact ⟨x, ⟨_, hrun⟩, hpc, hhalt⟩

theorem lossless_completes_twoPackets : ∃ x,
    run (step 2) (start 1 2 [1, 2, 3]) twoPackets = some x ∧ x.transfer.Complete [1, 2, 3] := by
  obtain ⟨x, hrun, hpc, hserver, hserver', hrcopy, hrcopy'⟩ := twoPackets_run
  obtain ⟨_, hcomplete⟩ := lossless_completes params_twoPackets hrun
  exact ⟨x, hrun, hcomplete (step_eq_none (by rw [hpc]; simp) (by omega) (by omega))⟩

end SelRej.Lossless
