import SelRej.Session
import SelRej.TransferSafety

/-!
# The steps of the processes of a session

`Carried` is what a datagram on the network can be when rcopy has written `f`
packets. No property of its address is needed: a datagram that reaches the wrong
process does no harm. A data packet of any child is within rcopy's window, because
no child has its lower bound above `f`; an EOF is on the network only when `f` is
the number of all packets. Each process receives such datagrams, and `Serving` and
`Receives` say where its steps lead and that it sends such datagrams.
-/
namespace SelRej
open ReorderBuffer Chunks CInt

/-- rcopy asks for a file that can be opened, with sizes that both sides can work
with. -/
structure Request.Served (req : Request) (fs : List UInt8 → Option (List UInt8))
    (file : List UInt8) : Prop where
  opens : fs req.fromFile = some file
  -- a C string
  name : 0 ∉ req.fromFile
  params : Params req.winSize.toNat req.bufSize file

inductive Carried (req : Request) (file : List UInt8) (f : ℕ) : List UInt8 → Prop where
  | initial (hfits : 6 + req.fromFile.length + 1 ≤ req.bufSize.toNat) :
      Carried req file f req.pduBuf
  | response (seqNum : UInt32) {flag : UInt8} (payload : List UInt8)
      (h : flag = SETUPRESP_FLAG ∨ flag = INITIALRESP_FLAG) (hlen : payload.length ≤ 1) :
      Carried req file f (createPdu seqNum flag payload)
  | data {k : ℕ} (hk : k < packets file req.bufSize) (hw : k < f + req.winSize.toNat) :
      Carried req file f (dataBytes file req.bufSize k)
  | eof (mySeq : UInt32) (hall : f = packets file req.bufSize) :
      Carried req file f (createPdu mySeq EOF_FLAG [])
  | answer {d : List UInt8} (h : RcopySends f True d) : Carried req file f d

/-- A packet that rcopy reads of such a datagram. -/
inductive Delivers (req : Request) (file : List UInt8) (f : ℕ) : Option PduS → Prop where
  | rejected : Delivers req file f none
  | data {k : ℕ} (hk : k < packets file req.bufSize) (hw : k < f + req.winSize.toNat) :
      Delivers req file f (some (dataPacket file req.bufSize k))
  | eof {packet : PduS} (hflag : packet.flag = EOF_FLAG) (hall : f = packets file req.bufSize) :
      Delivers req file f (some packet)
  | other {packet : PduS} (hdata : packet.flag ≠ DATA_FLAG) (heof : packet.flag ≠ EOF_FLAG) :
      Delivers req file f (some packet)

section
variable {req : Request} {fs : List UInt8 → Option (List UInt8)} {file : List UInt8} {f f' : ℕ}
  {d bytes : List UInt8} {src : Addr} {recv : Recv}

/-- The arrays that both sides can work with are smaller than 2^16 bytes. -/
theorem Request.pduBuf_eq_of_fits (hbuf : req.bufSize.toNat ≤ 1393)
    (hfits : 6 + req.fromFile.length + 1 ≤ req.bufSize.toNat) :
    req.pduBuf = createPdu 0 INITIAL_FLAG req.payLoad := by
  have hpayload := req.payLoad_length
  exact req.pduBuf_eq (by omega)

theorem Carried.mono (h : Carried req file f d) (hf : f ≤ f') (hle : f' ≤ packets file req.bufSize) :
    Carried req file f' d := by
  cases h with
  | initial hfits => exact .initial hfits
  | response seqNum payload h hlen => exact .response seqNum payload h hlen
  | data hk hw => exact .data hk (by omega)
  | eof mySeq hall => exact .eof mySeq (by omega)
  | answer h => exact .answer (h.mono hf id)

theorem carried_of_sends {lo n : ℕ} (h : ServerSends req.bufSize file lo n d) (hlo : lo ≤ f)
    (hadd : n ≤ lo + req.winSize.toNat) (hn : n ≤ packets file req.bufSize)
    (hf : f ≤ packets file req.bufSize) : Carried req file f d := by
  cases h with
  | data hk => exact .data (Nat.lt_of_lt_of_le hk hn) (by omega)
  | eof mySeq heq hall => exact .eof mySeq (by omega)

theorem Carried.understood (h : Carried req file f d)
    (hp : Params req.winSize.toNat req.bufSize file) (pc : ServerPc) :
    Understood req.bufSize f pc (.datagram d) := by
  cases h with
  | initial hfits =>
      rw [Request.pduBuf_eq_of_fits hp.buf_le hfits]
      exact understood_other hp (by decide) (by decide)
  | response seqNum payload h _ =>
      rcases h with rfl | rfl
      · exact understood_other hp (by decide) (by decide)
      · exact understood_other hp (by decide) (by decide)
  | data hk hw => exact understood_other hp (by decide) (by decide)
  | eof mySeq hall => exact understood_other hp (by decide) (by decide)
  | answer h => exact understood_of_sends hp (.inl h)

theorem delivers_of_flag {received : Option PduS} {flag : UInt8}
    (h : ∀ packet, received = some packet → packet.flag = flag) (hdata : flag ≠ DATA_FLAG)
    (heof : flag ≠ EOF_FLAG) : Delivers req file f received := by
  cases received with
  | none => exact .rejected
  | some packet =>
      have hflag := h packet rfl
      exact .other (by rwa [hflag]) (by rwa [hflag])

/-- With room for a data packet, rcopy can read whatever arrives. -/
theorem Carried.delivers (h : Carried req file f d)
    (hp : Params req.winSize.toNat req.bufSize file) {recvLen : ℕ}
    (hge : req.bufSize.toNat + 7 ≤ recvLen) (hle : recvLen ≤ 65535) :
    ∃ received, interpPDU (d.take recvLen) = .ok received ∧ Delivers req file f received := by
  have hother : ∀ (seqNum : UInt32) (flag : UInt8) (payload : List UInt8), flag ≠ DATA_FLAG →
      flag ≠ EOF_FLAG → ∃ received, interpPDU ((createPdu seqNum flag payload).take recvLen) =
        .ok received ∧ Delivers req file f received := by
    intro seqNum flag payload hdata heof
    obtain ⟨received, hread, hflag⟩ := interpPDU_take seqNum flag payload
      (show 7 ≤ recvLen by omega) hle
    exact ⟨received, hread, delivers_of_flag hflag hdata heof⟩
  cases h with
  | initial hfits =>
      rw [Request.pduBuf_eq_of_fits hp.buf_le hfits]
      exact hother 0 INITIAL_FLAG _ (by decide) (by decide)
  | response seqNum payload h _ =>
      rcases h with rfl | rfl
      · exact hother seqNum SETUPRESP_FLAG payload (by decide) (by decide)
      · exact hother seqNum INITIALRESP_FLAG payload (by decide) (by decide)
  | @data k hk hw =>
      have hlen := dataBytes_length_le file req.bufSize k
      refine ⟨_, ?_, .data hk hw⟩
      rw [List.take_of_length_le (Nat.le_trans hlen hge), hp.interpPDU_dataBytes]
  | eof mySeq hall =>
      exact ⟨_, interpPDU_take_of_le mySeq EOF_FLAG (Nat.zero_le _)
        (show 7 + 0 ≤ recvLen by omega), .eof rfl hall⟩
  | answer h =>
      cases h with
      | rr mySeq k hk => exact hother mySeq RR_FLAG _ (by decide) (by decide)
      | srej mySeq k => exact hother mySeq SREJ_FLAG _ (by decide) (by decide)
      | ackEof mySeq h => exact hother mySeq ACKEOF_FLAG _ (by decide) (by decide)

/-- What `recvfrom` brings: a datagram of the network, or one that is rejected. -/
def Brings (req : Request) (file : List UInt8) (f recvLen : ℕ) : Recv → Prop
  | none => True
  | some (_, bytes) => Carried req file f bytes ∨ interpPDU (bytes.take recvLen) = .ok none

theorem mem_posted_iff {effects : List Effect} {c : Datagram} :
    c ∈ posted src effects ↔ c.src = src ∧ .sendto c.dst c.bytes ∈ effects := by
  obtain ⟨from', dst, pduBuf⟩ := c
  simp only [posted, List.mem_filterMap]
  constructor
  · rintro ⟨o, ho, heq⟩
    cases o with
    | sendto dst' pduBuf' =>
        cases heq
        exact ⟨rfl, ho⟩
    | fwrite packet => cases heq
  · rintro ⟨rfl, ho⟩
    exact ⟨_, ho, rfl⟩

def Sends (req : Request) (file : List UInt8) (f : ℕ) (out : List Effect) : Prop :=
  ∀ dst d, .sendto dst d ∈ out → Carried req file f d

theorem sends_nil : Sends req file f [] := fun _ _ h => by cases h

theorem sends_one {dst : Addr} (h : Carried req file f d) : Sends req file f [.sendto dst d] := by
  intro dst' d' hmem
  rw [List.mem_singleton] at hmem
  cases hmem
  exact h

theorem Sends.append {out out' : List Effect} (h : Sends req file f out)
    (h' : Sends req file f out') : Sends req file f (out ++ out') := by
  intro dst d hmem
  rcases List.mem_append.mp hmem with hmem | hmem
  · exact h dst d hmem
  · exact h' dst d hmem

theorem sends_map {client : Addr} {out : List (List UInt8)} (h : ∀ d ∈ out, Carried req file f d) :
    Sends req file f (out.map (Effect.sendto client)) := by
  intro dst d hmem
  obtain ⟨d', hd', heq⟩ := List.mem_map.mp hmem
  cases heq
  exact h d hd'

/-- A child of the request. One that has given up, or that was forked for another
datagram, is closed. -/
inductive Serving (req : Request) (file : List UInt8) (f : ℕ) :
    ServerProcess → List UInt8 → Prop where
  | setupResponse (client : Addr) (flag : UInt8) :
      Serving req file f (.setupResponse client req.winSize req.bufSize flag) file
  | transferData {client : Addr} {s : Server} {lo n : ℕ}
      (h : Serves req.winSize.toNat req.bufSize file s lo n) (hlo : lo ≤ f)
      (hpc : s.pc ≠ .returned) : Serving req file f (.transferData client req.bufSize s) file
  | closed (file' : List UInt8) : Serving req file f .closed file'

theorem Serving.mono {p : ServerProcess} {file' : List UInt8} (h : Serving req file f p file')
    (hf : f ≤ f') : Serving req file f' p file' := by
  cases h with
  | setupResponse client flag => exact .setupResponse client flag
  | transferData h hlo hpc => exact .transferData h (Nat.le_trans hlo hf) hpc
  | closed file' => exact .closed file'

theorem transferring_of_ne (client : Addr) (bufSize : UInt16) {s : Server} (h : s.pc ≠ .returned) :
    ServerProcess.transferring client bufSize s = .transferData client bufSize s := by
  unfold ServerProcess.transferring
  split
  · rename_i hpc
    exact absurd hpc h
  · rfl

theorem server_initialised_eq (hp : Params req.winSize.toNat req.bufSize file) {c : ServerChild}
    (hwin : c.winSize = req.winSize) (hbuf : c.bufSize = req.bufSize)
    (hpc : c.pc = .transferData) : ∃ s,
    ServerProcess.handleClient file c =
        ⟨[.sendto c.client (dataBytes file req.bufSize 0)], .ok (.transferData c.client req.bufSize s)⟩ ∧
      Server.init req.winSize.toNat req.bufSize file = ⟨[dataBytes file req.bufSize 0], .ok s⟩ ∧
      Serves req.winSize.toNat req.bufSize file s 0 1 ∧ s.pc = .checkForRRs := by
  obtain ⟨s, hinit, hserves, hs⟩ := serves_init hp
  have hw := hp.window_pos
  have hle := hp.window_le
  have hnum : i32 c.winSize.toNat = (req.winSize.toNat : ℤ) := by
    rw [hwin, i32_natCast (by omega)]
  have hone : (initWindow noWindow (req.winSize.toNat : ℤ)).1 ≠ 0 := by
    rw [initWindow, if_neg (by omega)]
    exact Nat.one_ne_zero
  refine ⟨s, ?_, hinit, hserves, hs⟩
  rw [Server.init] at hinit
  rw [ServerProcess.handleClient, hpc]
  dsimp only
  rw [ServerProcess.initialised, hnum, if_neg hone, hbuf, hinit, Emit.mapOut_mk, Emit.bind_ok,
    transferring_of_ne _ _ (by rw [hs]; simp)]
  rfl

def ServerProcess.transfers : ServerProcess → Bool
  | .transferData _ _ _ => true
  | _ => false

/-- Where a step of a child leads, and what it sends. Only a child that has all
packets acknowledged returns from the transfer. -/
structure ChildGoes (req : Request) (file : List UInt8) (f : ℕ) (p : ServerProcess)
    (file' : List UInt8) (x : ConnProc ServerProcess) : Prop where
  serving : x.Ends fun p' => Serving req file f p' file'
  completes : p.transfers = true →
    x.Ends fun p' => p'.transfers = true ∨ f = packets file req.bufSize
  sends : Sends req file f x.out

theorem childGoes_error {p : ServerProcess} {file' : List UInt8} {out : List Effect} {e : Halt}
    (h : Sends req file f out) : ChildGoes req file f p file' ⟨out, .error e⟩ :=
  ⟨Emit.ends_error, fun _ => Emit.ends_error, h⟩

theorem transferData_goes (hp : Params req.winSize.toNat req.bufSize file)
    (hf : f ≤ packets file req.bufSize) {s : Server} {lo n : ℕ}
    (h : Serves req.winSize.toNat req.bufSize file s lo n) (hlo : lo ≤ f) {poll : Poll}
    (hin : Understood req.bufSize f s.pc poll) (client peer : Addr) :
    ChildGoes req file f (.transferData client req.bufSize s) file (do
      let s' ← (s.step req.bufSize poll).mapOut (Effect.sendto peer)
      return ServerProcess.transferring peer req.bufSize s') := by
  have hgoes := h.step_goes hp hin
  generalize s.step req.bufSize poll = p at hgoes
  cases hgoes with
  | stops hout =>
      refine childGoes_error (sends_map fun d hd => ?_)
      exact carried_of_sends (hout d hd) hlo h.holding.le_add h.holding.le hf
  | @waits out s' lo' n' hserves hlo' hn hrr hout hsent =>
      have hle : lo' ≤ f := by omega
      have hcarried : ∀ d ∈ out, Carried req file f d := fun d hd =>
        carried_of_sends (hout d hd) hle hserves.holding.le_add hserves.holding.le hf
      by_cases hpc : s'.pc = .returned
      · have hplace := hserves.place
        rw [hpc] at hplace
        obtain ⟨heq, hall⟩ := hplace
        have hclosed : ServerProcess.transferring peer req.bufSize s' = .closed := by
          rw [ServerProcess.transferring, hpc]
        rw [Emit.mapOut_mk, Emit.bind_ok, hclosed]
        refine ⟨Emit.ends_ok (.closed file), fun _ => Emit.ends_ok (.inr (by omega)), ?_⟩
        exact (sends_map hcarried).append sends_nil
      · rw [Emit.mapOut_mk, Emit.bind_ok, transferring_of_ne _ _ hpc]
        refine ⟨Emit.ends_ok (.transferData hserves hle hpc), fun _ => Emit.ends_ok (.inl rfl), ?_⟩
        exact (sends_map hcarried).append sends_nil

/-- The child answers what it takes for the client's SETUPRESP, and begins the
transfer. -/
theorem setupResponse_accepts (hp : Params req.winSize.toNat req.bufSize file) {flag : UInt8}
    {respBuf : List UInt8}
    (h : ServerChild.setupResponseTest flag respBuf
        ⟨src, req.winSize, req.bufSize, .setupResponse flag⟩ =
      ⟨[(src, createPdu 1 SETUPRESP_FLAG [1])], .ok ⟨src, req.winSize, req.bufSize, .transferData⟩⟩) :
    ∃ s, (do
          let c ← (ServerChild.setupResponseTest flag respBuf
            ⟨src, req.winSize, req.bufSize, .setupResponse flag⟩).mapOut setupEffect
          ServerProcess.handleClient file c) =
        ⟨[.sendto src (createPdu 1 SETUPRESP_FLAG [1]), .sendto src (dataBytes file req.bufSize 0)],
          .ok (.transferData src req.bufSize s)⟩ ∧
      Server.init req.winSize.toNat req.bufSize file = ⟨[dataBytes file req.bufSize 0], .ok s⟩ ∧
      Serves req.winSize.toNat req.bufSize file s 0 1 ∧ s.pc = .checkForRRs := by
  obtain ⟨s, hclient, hinit, hserves, hpc⟩ := server_initialised_eq hp
    (c := ⟨src, req.winSize, req.bufSize, .transferData⟩) rfl rfl rfl
  refine ⟨s, ?_, hinit, hserves, hpc⟩
  rw [h]
  generalize createPdu 1 SETUPRESP_FLAG [1] = response
  have hbind := Emit.bind_ok ([(src, response)].map setupEffect)
    (⟨src, req.winSize, req.bufSize, .transferData⟩ : ServerChild) (ServerProcess.handleClient file)
  rw [hclient] at hbind
  rw [Emit.mapOut_mk, hbind]
  rfl

theorem setupResponse_goes (hp : Params req.winSize.toNat req.bufSize file)
    (client : Addr) (flag : UInt8) (bytes : List UInt8) :
    ChildGoes req file f (.setupResponse client req.winSize req.bufSize flag) file (do
      let c ← (ServerChild.setupResponseTest flag bytes
        ⟨src, req.winSize, req.bufSize, .setupResponse flag⟩).mapOut setupEffect
      ServerProcess.handleClient file c) := by
  have hw := hp.window_pos
  rcases setupResponseTest_cases flag bytes ⟨src, req.winSize, req.bufSize, .setupResponse flag⟩ with
    ⟨e, _, htest⟩ | ⟨_, _, htest⟩ | ⟨_, htest⟩
  · rw [htest]
    exact childGoes_error sends_nil
  · rw [htest, Emit.mapOut_mk, Emit.bind_ok]
    exact ⟨Emit.ends_ok (.setupResponse src flag), (fun htransfers => by cases htransfers), sends_nil⟩
  · obtain ⟨s, hbind, _, hserves, hpc⟩ := setupResponse_accepts hp htest
    have hfirst : Carried req file f (dataBytes file req.bufSize 0) :=
      .data (Nat.succ_pos _) (by omega)
    have hresponse : Carried req file f (createPdu 1 SETUPRESP_FLAG [1]) :=
      .response 1 [1] (.inl rfl) (Nat.le_refl 1)
    rw [hbind]
    generalize createPdu 1 SETUPRESP_FLAG [1] = response at hresponse
    exact ⟨Emit.ends_ok (.transferData hserves (Nat.zero_le f) (by rw [hpc]; simp)),
      (fun htransfers => by cases htransfers), (sends_one hresponse).append (sends_one hfirst)⟩

theorem Serving.step_goes {p : ServerProcess} {file' : List UInt8} (h : Serving req file f p file')
    (hp : Params req.winSize.toNat req.bufSize file) (hf : f ≤ packets file req.bufSize)
    (hin : Brings req file f p.recvLen recv) :
    ChildGoes req file f p file' (p.step file' recv) := by
  cases h with
  | setupResponse client flag =>
      cases recv with
      | none =>
          exact ⟨Emit.ends_ok (.closed file), (fun htransfers => by cases htransfers), sends_nil⟩
      | some received => exact setupResponse_goes hp client flag _
  | @transferData client s lo n hserves hlo hpc =>
      cases recv with
      | none =>
          have hpoll : Understood req.bufSize f s.pc .timeout := trivial
          exact transferData_goes hp hf hserves hlo hpoll client client
      | some received =>
          have hpoll : Understood req.bufSize f s.pc (.datagram received.2) := by
            rcases hin with hcarried | hreject
            · exact hcarried.understood hp _
            · exact ⟨none, hreject, fun packet hpacket => by cases hpacket⟩
          exact transferData_goes hp hf hserves hlo hpoll client received.1
  | closed file' =>
      exact ⟨Emit.ends_ok (.closed file'), (fun htransfers => by cases htransfers), sends_nil⟩

/-- rcopy's window is the reorder buffer, and holds packets of the file. -/
structure Receiving (w : ℕ) (bufSize : UInt16) (file : List UInt8) (r : Rcopy)
    (b : ReorderBuffer PduS) : Prop where
  simulates : Simulates r w b
  held : ∀ k packet, b.held k = some packet → packet = dataPacket file bufSize k
  seen_le : b.seen ≤ packets file bufSize

theorem receiving_init (hp : Params req.winSize.toNat req.bufSize file) :
    Receiving req.winSize.toNat req.bufSize file (Rcopy.init req.winSize.toNat)
      ReorderBuffer.empty := by
  have hw := hp.window_pos
  have hle := hp.window_le
  exact ⟨simulates_init (by omega) (by omega), (fun k packet hk => by cases hk), Nat.zero_le _⟩

/-- How rcopy takes a packet: what it writes continues the packets of the file,
and it finishes only when it has written all of them. -/
structure Takes (w : ℕ) (bufSize : UInt16) (file : List UInt8) (r : Rcopy)
    (b : ReorderBuffer PduS) (out : List Action) (r' : Rcopy) (b' : ReorderBuffer PduS) : Prop where
  receiving : Receiving w bufSize file r' b'
  next_le : b.next ≤ b'.next
  written : sentPackets file bufSize b.next ++ SelRej.written out =
    sentPackets file bufSize b'.next
  sends : ∀ d ∈ datagrams out, RcopySends b'.next True d
  finished : r'.pc = .finished → r.pc ≠ .finished → b'.next = packets file bufSize

section
variable {w : ℕ} {bufSize : UInt16} {r : Rcopy} {b : ReorderBuffer PduS}

theorem Receiving.takes_nothing (h : Receiving w bufSize file r b) :
    Takes w bufSize file r b [] r b := by
  refine ⟨h, Nat.le_refl _, List.append_nil _, ?_, fun hf hne => absurd hf hne⟩
  intro d hd
  cases hd

theorem Receiving.takes_data (h : Receiving w bufSize file r b) (hp : Params w bufSize file) {k : ℕ}
    (hk : k < packets file bufSize) (hw : k < b.next + w) (hpc : r.pc ≠ .finished) :
    ∃ out r' b', r.receive (dataPacket file bufSize k) = ⟨out, .ok r'⟩ ∧
      Takes w bufSize file r b out r' b' := by
  have hfew := hp.few
  have hnum := hp.seqNum_dataPacket hk
  have hfits : Fits w b.next (dataPacket file bufSize k) :=
    ⟨rfl, by omega, by omega, .inl hp.window_le⟩
  obtain ⟨r', hreceive, hsim, _, hpc'⟩ := h.simulates.receive_eq hpc hfits
  rw [hnum] at hreceive hsim
  obtain ⟨hturn, hnext⟩ := arrive_inTurn b k (dataPacket file bufSize k)
  obtain ⟨hitems, hheld⟩ := arrive_items (P := fun k p => p = dataPacket file bufSize k) h.held
    (k := k) (a := dataPacket file bufSize k) rfl
  refine ⟨_, r', _, hreceive, ⟨hsim, hheld, arrive_seen_le h.seen_le hk⟩, by omega, ?_, ?_,
    fun hf _ => absurd hf hpc'⟩
  · rw [written_wire, sentPackets_append hturn hitems, hnext]
  · exact datagrams_wire fun j hj => arrive_ack_le hj

theorem Receiving.takes_control (h : Receiving w bufSize file r b) {packet : PduS}
    (hflag : packet.flag ≠ DATA_FLAG)
    (heof : packet.flag = EOF_FLAG → b.next = packets file bufSize) : ∃ out r',
    r.receive packet = ⟨out, .ok r'⟩ ∧ Takes w bufSize file r b out r' b := by
  obtain ⟨out, r', hreceive, hsim, hout⟩ := h.simulates.receive_control hflag
  refine ⟨out, r', hreceive, ?_⟩
  rcases hout with ⟨rfl, hpc⟩ | ⟨hf, _, _, rfl⟩
  · refine ⟨⟨hsim, h.held, h.seen_le⟩, Nat.le_refl _, List.append_nil _, ?_,
      fun hf hne => absurd (hpc.mp hf) hne⟩
    intro d hd
    cases hd
  · refine ⟨⟨hsim, h.held, h.seen_le⟩, Nat.le_refl _, List.append_nil _, ?_, fun _ _ => heof hf⟩
    intro d hd
    rw [show datagrams [Action.sendto (createPdu r.mySeq ACKEOF_FLAG [])] =
      [createPdu r.mySeq ACKEOF_FLAG []] from rfl, List.mem_singleton] at hd
    subst hd
    exact .ackEof _ trivial

end

theorem Receiving.takes {r : Rcopy} {b : ReorderBuffer PduS} {packet : PduS}
    (h : Receiving req.winSize.toNat req.bufSize file r b)
    (hp : Params req.winSize.toNat req.bufSize file)
    (hin : Delivers req file b.next (some packet)) (hpc : r.pc ≠ .finished) : ∃ out r' b',
    r.receive packet = ⟨out, .ok r'⟩ ∧
      Takes req.winSize.toNat req.bufSize file r b out r' b' := by
  cases hin with
  | data hk hw => exact h.takes_data hp hk hw hpc
  | eof hflag hall =>
      obtain ⟨out, r', hreceive, htakes⟩ := h.takes_control (by rw [hflag]; decide) fun _ => hall
      exact ⟨out, r', b, hreceive, htakes⟩
  | other hdata heof =>
      obtain ⟨out, r', hreceive, htakes⟩ := h.takes_control hdata fun hf => absurd hf heof
      exact ⟨out, r', b, hreceive, htakes⟩

inductive Receives (req : Request) (file : List UInt8) :
    RcopyProcess → ReorderBuffer PduS → Prop where
  | getInitialResp (serverS : Addr) (count : ℕ) (respBuf : List UInt8) :
      Receives req file (.getInitialResp serverS count respBuf) ReorderBuffer.empty
  | ackInitialResp (serverS : Addr) (count : ℕ) {respBuf : List UInt8} {received : Option PduS}
      (hread : interpPDU respBuf = .ok received) (h : Delivers req file 0 received) :
      Receives req file (.ackInitialResp serverS count respBuf) ReorderBuffer.empty
  | recvDataLoop (serverS : Addr) {r : Rcopy} {b : ReorderBuffer PduS}
      (h : Receiving req.winSize.toNat req.bufSize file r b) (hpc : r.pc ≠ .finished) :
      Receives req file (.recvDataLoop serverS r) b
  | closed {b : ReorderBuffer PduS} (hall : b.next = packets file req.bufSize) :
      Receives req file .closed b

theorem Receives.next_le {p : RcopyProcess} {b : ReorderBuffer PduS} (h : Receives req file p b) :
    b.next ≤ packets file req.bufSize := by
  cases h with
  | getInitialResp => exact Nat.zero_le _
  | ackInitialResp => exact Nat.zero_le _
  | recvDataLoop serverS h hpc =>
      exact Nat.le_trans h.simulates.wellFormed.next_le h.seen_le
  | closed hall => exact Nat.le_of_eq hall

inductive RcopyMoves (req : Request) (file : List UInt8) (b : ReorderBuffer PduS) :
    ConnProc RcopyProcess → Prop where
  | stops (e : Halt) : RcopyMoves req file b ⟨[], .error e⟩
  | moves {out : List Effect} {p' : RcopyProcess} {b' : ReorderBuffer PduS}
      (h : Receives req file p' b') (hle : b.next ≤ b'.next)
      (hwritten : sentPackets file req.bufSize b.next ++ stored out =
        sentPackets file req.bufSize b'.next)
      (hsends : Sends req file b'.next out) : RcopyMoves req file b ⟨out, .ok p'⟩

theorem stored_actions (serverS : Addr) (actions : List Action) :
    stored (actions.map (actionEffect serverS)) = written actions := by
  induction actions with
  | nil => rfl
  | cons a actions ih =>
      cases a with
      | sendto pduBuf => exact ih
      | fwrite packet => exact congrArg (packet :: ·) ih

theorem sends_actions {serverS : Addr} {actions : List Action}
    (h : ∀ d ∈ datagrams actions, RcopySends f True d) :
    Sends req file f (actions.map (actionEffect serverS)) := by
  intro dst d hmem
  obtain ⟨a, ha, heq⟩ := List.mem_map.mp hmem
  cases a with
  | sendto pduBuf =>
      cases heq
      exact .answer (h d (List.mem_filterMap.mpr ⟨_, ha, rfl⟩))
  | fwrite packet => cases heq

/-- rcopy takes a packet in the transfer. -/
theorem moves_of_takes {serverS : Addr} {r r' : Rcopy} {b b' : ReorderBuffer PduS}
    {out : List Action} (hpc : r.pc ≠ .finished)
    (h : Takes req.winSize.toNat req.bufSize file r b out r' b') :
    RcopyMoves req file b (do
      let r' ← (⟨out, .ok r'⟩ : Proc Rcopy).mapOut (actionEffect serverS)
      return RcopyProcess.receiving serverS r') := by
  have hstored : sentPackets file req.bufSize b.next ++
      stored (out.map (actionEffect serverS) ++ []) = sentPackets file req.bufSize b'.next := by
    rw [List.append_nil, stored_actions]
    exact h.written
  have hsends : Sends req file b'.next (out.map (actionEffect serverS) ++ []) :=
    (sends_actions h.sends).append sends_nil
  rw [Emit.mapOut_mk, Emit.bind_ok]
  refine .moves ?_ h.next_le hstored hsends
  by_cases hpc' : r'.pc = .finished
  · rw [RcopyProcess.receiving, hpc']
    exact .closed (h.finished hpc' hpc)
  · rw [RcopyProcess.receiving_of_waits serverS hpc']
    exact .recvDataLoop serverS h.receiving hpc'

theorem recvDataLoop_moves (hp : Params req.winSize.toNat req.bufSize file) {serverS : Addr}
    {r : Rcopy} {b : ReorderBuffer PduS} (h : Receiving req.winSize.toNat req.bufSize file r b)
    (hpc : r.pc ≠ .finished)
    (hin : Brings req file b.next (Rcopy.recvLen req.bufSize r.pc) recv) :
    RcopyMoves req file b ((RcopyProcess.recvDataLoop serverS r).step req recv) := by
  cases recv with
  | none =>
      unfold RcopyProcess.step
      dsimp only
      rcases Rcopy.step_timeout req.bufSize r with heq | heq
      · rw [heq]
        exact moves_of_takes hpc h.takes_nothing
      · rw [heq]
        exact .stops .exit
  | some received =>
      obtain ⟨src, bytes⟩ := received
      obtain ⟨hge, hle⟩ := hp.rcopyRecvLen r.pc
      have hread : ∃ received, interpPDU (bytes.take (Rcopy.recvLen req.bufSize r.pc)) =
          .ok received ∧ Delivers req file b.next received := by
        rcases hin with hcarried | hreject
        · exact hcarried.delivers hp hge hle
        · exact ⟨none, hreject, .rejected⟩
      obtain ⟨received, hread, hdelivers⟩ := hread
      unfold RcopyProcess.step
      dsimp only
      cases received with
      | none =>
          rw [Rcopy.step_rejected hread]
          exact moves_of_takes hpc h.takes_nothing
      | some packet =>
          obtain ⟨out, r', b', hreceive, htakes⟩ := h.takes hp hdelivers hpc
          rw [Rcopy.step_accepted hread, hreceive]
          exact moves_of_takes hpc htakes

theorem interpPDU_nil : interpPDU [] = .ok none := by decide +kernel

/-- `getInitialResp` goes on with this buffer. -/
def Unanswered (respBuf : List UInt8) : Prop :=
  ∃ received, interpPDU respBuf = .ok received ∧
    ∀ packet, received = some packet → packet.flag ≠ INITIALRESP_FLAG

theorem unanswered_nil : Unanswered [] :=
  ⟨none, interpPDU_nil, fun packet h => by cases h⟩

/-- Where `getInitialResp` leads from the condition of its loop. -/
inductive Asks (req : Request) (count : ℕ) (respBuf : List UInt8) (r : RcopySetup) :
    SetupProc RcopySetup → Prop where
  | stops (e : Halt) : Asks req count respBuf r ⟨[], .error e⟩
  | again (hfits : 6 + req.fromFile.length + 1 ≤ req.bufSize.toNat) (hcount : count < 10)
      (hno : Unanswered respBuf) :
      Asks req count respBuf r ⟨[(r.serverS, req.pduBuf)],
        .ok { r with pc := .getInitialResp count respBuf }⟩
  | answered (h : ¬Unanswered respBuf) :
      Asks req count respBuf r ⟨[(r.serverS, createPdu 1 SETUPRESP_FLAG [])],
        .ok { r with pc := .ackInitialResp 0 [] }⟩

theorem getInitialRespSend_asks (req : Request) {count : ℕ} (hcount : count < 10)
    {respBuf : List UInt8} (hno : Unanswered respBuf) (r : RcopySetup) :
    Asks req count respBuf r (RcopySetup.getInitialRespSend req count respBuf r) := by
  unfold RcopySetup.getInitialRespSend
  rw [req.initialPdu_eq]
  split_ifs with hfits
  · rw [Emit.liftM_eq, Emit.bind_silent]
    unfold sendtoErr
    split_ifs
    · exact .stops .exit
    · exact .again hfits hcount hno
  · exact .stops .outOfBounds

/-- rcopy starts with the request, unless it cannot send it. -/
theorem rcopy_start_cases (req : Request) : (∃ e, RcopyProcess.start req = ⟨[], .error e⟩) ∨
    (6 + req.fromFile.length + 1 ≤ req.bufSize.toNat ∧
      RcopyProcess.start req =
        ⟨[.sendto .server req.pduBuf], .ok (.getInitialResp .server 0 [])⟩) := by
  have hinit : RcopyProcess.start req = (do
      let r ← (RcopySetup.getInitialRespSend req 0 [] ⟨.server, .getInitialResp 0 []⟩).mapOut
        setupEffect
      RcopyProcess.handleConnection req r) := rfl
  have hasks := getInitialRespSend_asks req (Nat.zero_lt_succ 9) unanswered_nil
    ⟨.server, .getInitialResp 0 []⟩
  rw [hinit]
  generalize RcopySetup.getInitialRespSend req 0 [] ⟨.server, .getInitialResp 0 []⟩ = p at hasks
  cases hasks with
  | stops e => exact .inl ⟨e, rfl⟩
  | again hfits hcount hno => exact .inr ⟨hfits, rfl⟩
  | answered h => exact absurd unanswered_nil h

theorem getInitialRespTest_asks (req : Request) (count : ℕ) (respBuf : List UInt8)
    (r : RcopySetup) :
    Asks req count respBuf r (RcopySetup.getInitialRespTest req count respBuf r) := by
  unfold RcopySetup.getInitialRespTest
  rw [Emit.liftM_eq]
  cases hread : interpPDU respBuf with
  | error e => exact .stops e
  | ok received =>
      rw [Emit.bind_silent]
      cases received with
      | none =>
          dsimp only
          split_ifs with hcount
          · exact getInitialRespSend_asks req hcount
              ⟨none, hread, fun packet h => by cases h⟩ r
          · exact .stops .exit
      | some packet =>
          dsimp only
          split_ifs with hflag hcount hlast
          · exact getInitialRespSend_asks req hcount
              ⟨some packet, hread, fun packet' h => by cases h; exact hflag⟩ r
          · exact .stops .exit
          · exact .stops .exit
          · unfold RcopySetup.initExchangeRest
            split
            · exact .stops .outOfBounds
            · split_ifs
              · exact .stops .exit
              · refine .answered ?_
                rintro ⟨received, hread', hno⟩
                rw [hread] at hread'
                cases hread'
                exact hflag (hno packet rfl)

/-- What `ackInitialResp` waits for. -/
def Answers (packet : PduS) : Prop := packet.flag = SETUPRESP_FLAG ∨ packet.flag = DATA_FLAG

inductive Acks (received : Option PduS) (count : ℕ) (respBuf : List UInt8) (r : RcopySetup) :
    SetupProc RcopySetup → Prop where
  | stops (e : Halt) : Acks received count respBuf r ⟨[], .error e⟩
  | again (hcount : count < 10) (hno : ∀ packet, received = some packet → ¬Answers packet) :
      Acks received count respBuf r ⟨[(r.serverS, createPdu 1 SETUPRESP_FLAG [])],
        .ok { r with pc := .ackInitialResp count respBuf }⟩
  | answered {packet : PduS} (hread : received = some packet) (h : Answers packet) :
      Acks received count respBuf r ⟨[], .ok { r with pc := .recvDataLoop packet }⟩

theorem ackInitialRespTest_acks {respBuf : List UInt8} {received : Option PduS}
    (hread : interpPDU respBuf = .ok received) (count : ℕ) (r : RcopySetup) :
    Acks received count respBuf r (RcopySetup.ackInitialRespTest count respBuf r) := by
  unfold RcopySetup.ackInitialRespTest
  rw [hread, Emit.liftM_eq, Emit.bind_silent]
  cases received with
  | none =>
      dsimp only
      split_ifs with hcount
      · exact .again hcount fun packet hpacket => by cases hpacket
      · exact .stops .exit
  | some packet =>
      dsimp only
      by_cases hanswers : packet.flag = SETUPRESP_FLAG ∨ packet.flag = DATA_FLAG
      · rw [if_neg (not_not.mpr hanswers)]
        split_ifs
        · exact .stops .exit
        · exact .answered rfl hanswers
      · have hno : ∀ other, some packet = some other → ¬Answers other := by
          intro other hother
          cases hother
          exact hanswers
        rw [if_pos hanswers]
        split_ifs with hcount
        · exact .again hcount hno
        · exact .stops .exit

theorem moves_getInitialResp {count : ℕ} {respBuf : List UInt8} {r : RcopySetup}
    {p : SetupProc RcopySetup} (h : Asks req count respBuf r p) :
    RcopyMoves req file ReorderBuffer.empty
      (p.mapOut setupEffect >>= RcopyProcess.handleConnection req) := by
  cases h with
  | stops e => exact .stops e
  | again hfits _ _ =>
      exact .moves (.getInitialResp r.serverS count respBuf) (Nat.le_refl 0) rfl
        (sends_one (.initial hfits))
  | answered _ =>
      exact .moves (.ackInitialResp r.serverS 0 interpPDU_nil .rejected) (Nat.le_refl 0) rfl
        (sends_one (.response 1 [] (.inl rfl) (Nat.zero_le 1)))

theorem rcopy_initialised_eq (hp : Params req.winSize.toNat req.bufSize file) (serverS : Addr)
    (packet : PduS) : RcopyProcess.handleConnection req ⟨serverS, .recvDataLoop packet⟩ = (do
      let r ← ((Rcopy.init req.winSize.toNat).receive packet).mapOut (actionEffect serverS)
      return RcopyProcess.receiving serverS r) := by
  have hw := hp.window_pos
  have hle := hp.window_le
  have hnum : i32 req.winSize.toNat = (req.winSize.toNat : ℤ) := i32_natCast (by omega)
  have hone : (initWindow noWindow (req.winSize.toNat : ℤ)).1 ≠ 0 := by
    rw [initWindow, if_neg (by omega)]
    exact Nat.one_ne_zero
  rw [RcopyProcess.handleConnection, Rcopy.init]
  dsimp only
  rw [RcopyProcess.initialised, hnum, if_neg hone]

theorem rcopy_initialised_moves (hp : Params req.winSize.toNat req.bufSize file) (serverS : Addr)
    {packet : PduS} (hin : Delivers req file 0 (some packet)) :
    RcopyMoves req file ReorderBuffer.empty
      (RcopyProcess.handleConnection req ⟨serverS, .recvDataLoop packet⟩) := by
  have hstart : (Rcopy.init req.winSize.toNat).pc ≠ .finished := by simp [Rcopy.init]
  obtain ⟨out, r', b', hreceive, htakes⟩ := (receiving_init hp).takes hp hin hstart
  rw [rcopy_initialised_eq hp, hreceive]
  exact moves_of_takes hstart htakes

theorem moves_ackInitialResp (hp : Params req.winSize.toNat req.bufSize file) {count : ℕ}
    {respBuf : List UInt8} {r : RcopySetup} {received : Option PduS} {p : SetupProc RcopySetup}
    (hread : interpPDU respBuf = .ok received) (hin : Delivers req file 0 received)
    (h : Acks received count respBuf r p) :
    RcopyMoves req file ReorderBuffer.empty
      (p.mapOut setupEffect >>= RcopyProcess.handleConnection req) := by
  cases h with
  | stops e => exact .stops e
  | again =>
      exact .moves (.ackInitialResp r.serverS count hread hin) (Nat.le_refl 0) rfl
        (sends_one (.response 1 [] (.inl rfl) (Nat.zero_le 1)))
  | answered hsome _ =>
      subst hsome
      rw [Emit.mapOut_mk, List.map_nil, Emit.bind_silent]
      exact rcopy_initialised_moves hp r.serverS hin

theorem Receives.step_moves {p : RcopyProcess} {b : ReorderBuffer PduS}
    (h : Receives req file p b) (hp : Params req.winSize.toNat req.bufSize file)
    (hin : Brings req file b.next (p.recvLen req) recv) :
    RcopyMoves req file b (p.step req recv) := by
  cases h with
  | getInitialResp serverS count respBuf =>
      cases recv with
      | none => exact moves_getInitialResp (getInitialRespTest_asks req (count + 1) respBuf _)
      | some received =>
          obtain ⟨src, bytes⟩ := received
          rw [RcopyProcess.step, RcopySetup.step]
          dsimp only
          by_cases hfits : (bytes.take (RcopySetup.recvLen req (.getInitialResp count respBuf))).length ≤
              req.bufSize.toNat + HEADER_LEN
          · rw [if_pos hfits]
            exact moves_getInitialResp (getInitialRespTest_asks req (count + 1) _ _)
          · rw [if_neg hfits]
            exact .stops .outOfBounds
  | ackInitialResp serverS count hread hdelivers =>
      cases recv with
      | none => exact moves_ackInitialResp hp hread hdelivers (ackInitialRespTest_acks hread _ _)
      | some received =>
          obtain ⟨src, bytes⟩ := received
          have hbuf := hp.buf_le
          have hread : ∃ received, interpPDU (bytes.take MAXBUF) = .ok received ∧
              Delivers req file 0 received := by
            rcases hin with hcarried | hreject
            · exact hcarried.delivers hp (show req.bufSize.toNat + 7 ≤ 1400 by omega)
                (show MAXBUF ≤ 65535 by decide)
            · exact ⟨none, hreject, .rejected⟩
          obtain ⟨received, hread, hdelivers⟩ := hread
          exact moves_ackInitialResp hp hread hdelivers (ackInitialRespTest_acks hread _ _)
  | recvDataLoop serverS hreceiving hpc => exact recvDataLoop_moves hp hreceiving hpc hin
  | closed hall => exact .moves (.closed hall) (Nat.le_refl _) (List.append_nil _) sends_nil

/-- A datagram that is no request is refused. -/
theorem handleSetup_refuses {pduBuf : List UInt8} {received : Option PduS}
    (hread : interpPDU pduBuf = .ok received)
    (hflag : ∀ packet, received = some packet → packet.flag ≠ INITIAL_FLAG)
    (fopen : List UInt8 → Bool) (client : Addr) (flag : UInt8) :
    ServerChild.handleSetup fopen client pduBuf flag = ⟨[], .ok ⟨client, 0, 0, .closed⟩⟩ := by
  cases received with
  | none =>
      unfold ServerChild.handleSetup
      rw [hread, Emit.liftM_eq, Emit.bind_silent]
      rfl
  | some packet =>
      rw [handleSetup_eq hread, if_pos (hflag packet rfl)]

theorem flag_of_take (seqNum : UInt32) {flag : UInt8} (payload : List UInt8)
    (hne : flag ≠ INITIAL_FLAG) : ∃ received,
    interpPDU ((createPdu seqNum flag payload).take MAXBUF) = .ok received ∧
      ∀ packet, received = some packet → packet.flag ≠ INITIAL_FLAG := by
  obtain ⟨received, hread, hflag⟩ := interpPDU_take seqNum flag payload
    (show 7 ≤ MAXBUF by decide) (show MAXBUF ≤ 65535 by decide)
  exact ⟨received, hread, fun packet hpacket => by rwa [hflag packet hpacket]⟩

/-- Only the INITIAL PDU is a request. -/
theorem Carried.request_or_refused (h : Carried req file f d) :
    (6 + req.fromFile.length + 1 ≤ req.bufSize.toNat ∧ d = req.pduBuf) ∨
      ∃ received, interpPDU (d.take MAXBUF) = .ok received ∧
        ∀ packet, received = some packet → packet.flag ≠ INITIAL_FLAG := by
  cases h with
  | initial hfits => exact .inl ⟨hfits, rfl⟩
  | response seqNum payload h _ =>
      rcases h with rfl | rfl
      · exact .inr (flag_of_take seqNum payload (by decide))
      · exact .inr (flag_of_take seqNum payload (by decide))
  | data hk hw => exact .inr (flag_of_take _ _ (by decide))
  | eof mySeq hall => exact .inr (flag_of_take _ _ (by decide))
  | answer h =>
      cases h with
      | rr mySeq k hk => exact .inr (flag_of_take _ _ (by decide))
      | srej mySeq k => exact .inr (flag_of_take _ _ (by decide))
      | ackEof mySeq h => exact .inr (flag_of_take _ _ (by decide))

theorem take_request (hfits : 6 + req.fromFile.length + 1 ≤ req.bufSize.toNat)
    (hbuf : req.bufSize.toNat ≤ 1393) : req.pduBuf.take MAXBUF = req.pduBuf := by
  have hlen := req.pduBuf_length
  refine List.take_of_length_le ?_
  rw [MAXBUF]
  omega

theorem handleSetup_request (hserved : req.Served fs file)
    (hfits : 6 + req.fromFile.length + 1 ≤ req.bufSize.toNat) (client : Addr) (flag : UInt8) :
    ServerChild.handleSetup (fun infile => (fs infile).isSome) client
        (req.pduBuf.take MAXBUF) flag =
      ⟨[(client, createPdu 0 INITIALRESP_FLAG [1])],
        .ok ⟨client, req.winSize, req.bufSize, .setupResponse flag⟩⟩ := by
  have hbuf := hserved.params.buf_le
  obtain ⟨pduBuf, hpdu, hsetup⟩ := req.survives_of_le hserved.name (by omega) hfits
  rw [req.initialPdu_eq, if_pos hfits] at hpdu
  cases hpdu
  rw [take_request hfits hbuf, hsetup, ServerChild.setupResponse, hserved.opens, Option.isSome_some,
    if_pos rfl]
  generalize createPdu 0 INITIALRESP_FLAG [1] = response
  rfl

theorem requestedFile_request (hserved : req.Served fs file)
    (hfits : 6 + req.fromFile.length + 1 ≤ req.bufSize.toNat) :
    requestedFile fs (req.pduBuf.take MAXBUF) = file := by
  have hbuf := hserved.params.buf_le
  have hpayload := req.payLoad_length
  have hread := interpPDU_createPdu 0 INITIAL_FLAG (show req.payLoad.length ≤ 65528 by omega)
  have hname := req.readInfile_payLoad hserved.name (show req.payLoad.length ≤ 6 + 1400 by omega)
  rw [take_request hfits hbuf, Request.pduBuf_eq_of_fits hbuf hfits]
  generalize createPdu 0 INITIAL_FLAG req.payLoad = pduBuf at hread
  unfold requestedFile
  rw [hread]
  dsimp only [decoded]
  rw [hname]
  dsimp only
  rw [hserved.opens, Option.getD_some]

theorem start_request (hserved : req.Served fs file)
    (hfits : 6 + req.fromFile.length + 1 ≤ req.bufSize.toNat) (client : Addr) (flag : UInt8) :
    ServerProcess.start (fun infile => (fs infile).isSome) client
        (req.pduBuf.take MAXBUF) flag file =
      ⟨[.sendto client (createPdu 0 INITIALRESP_FLAG [1])],
        .ok (.setupResponse client req.winSize req.bufSize flag)⟩ := by
  rw [ServerProcess.start, handleSetup_request hserved hfits]
  generalize createPdu 0 INITIALRESP_FLAG [1] = response
  rfl

theorem start_cases (hserved : req.Served fs file) (client : Addr) (flag : UInt8)
    (hin : Brings req file f MAXBUF (some (client, bytes))) :
    (requestedFile fs (bytes.take MAXBUF) = file ∧
      ServerProcess.start (fun infile => (fs infile).isSome) client (bytes.take MAXBUF) flag file =
        ⟨[.sendto client (createPdu 0 INITIALRESP_FLAG [1])],
          .ok (.setupResponse client req.winSize req.bufSize flag)⟩) ∨
    ∀ file', ServerProcess.start (fun infile => (fs infile).isSome) client (bytes.take MAXBUF)
      flag file' = ⟨[], .ok .closed⟩ := by
  have hrefused : ∀ received, interpPDU (bytes.take MAXBUF) = .ok received →
      (∀ packet, received = some packet → packet.flag ≠ INITIAL_FLAG) →
      ∀ file', ServerProcess.start (fun infile => (fs infile).isSome) client (bytes.take MAXBUF)
        flag file' = ⟨[], .ok .closed⟩ := by
    intro received hread hflag file'
    rw [ServerProcess.start, handleSetup_refuses hread hflag]
    rfl
  rcases hin with hcarried | hreject
  · rcases hcarried.request_or_refused with ⟨hfits, rfl⟩ | ⟨received, hread, hflag⟩
    · exact .inl ⟨requestedFile_request hserved hfits, start_request hserved hfits client flag⟩
    · exact .inr (hrefused received hread hflag)
  · exact .inr (hrefused none hreject fun packet hpacket => by cases hpacket)

theorem start_goes (hserved : req.Served fs file) (client : Addr) (flag : UInt8)
    (hin : Brings req file f MAXBUF (some (client, bytes))) {file' : List UInt8}
    (hfile : file' = requestedFile fs (bytes.take MAXBUF)) {x : ConnProc ServerProcess}
    (hx : x = ServerProcess.start (fun infile => (fs infile).isSome) client (bytes.take MAXBUF)
      flag file') :
    x.Ends (fun p => Serving req file f p file') ∧ Sends req file f x.out := by
  rcases start_cases hserved client flag hin with ⟨hrequested, hstart⟩ | hclosed
  · rw [hrequested] at hfile
    rw [hfile, hstart] at hx
    rw [hx, hfile]
    have hresponse : Carried req file f (createPdu 0 INITIALRESP_FLAG [1]) :=
      .response 0 [1] (.inr rfl) (Nat.le_refl 1)
    exact ⟨Emit.ends_ok (.setupResponse client flag), sends_one hresponse⟩
  · rw [hx, hclosed]
    exact ⟨Emit.ends_ok (.closed file'), sends_nil⟩

end
end SelRej
