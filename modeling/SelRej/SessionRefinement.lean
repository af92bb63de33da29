import SelRej.SessionProgress

/-!
# A session with one child is a transfer

When the request reaches the server once, the session is its handshake followed by
a `Transfer`: from the child's first data packet on, every step of rcopy and of the
child is a step of the transfer, or rcopy is still in its handshake and the
transfer waits for it. What `Transfer` leaves open, which datagrams of the setup
phase are under way, is all that the handshake can have sent.
-/
namespace SelRej
open ReorderBuffer Chunks PartialRun

variable {fs : List UInt8 → Option (List UInt8)} {req : Request} {file bytes d : List UInt8}
  {src : Addr} {recv : Recv} {recvLen : ℕ}

def Request.asks (req : Request) : List (List UInt8) :=
  [createPdu 0 INITIAL_FLAG req.payLoad, createPdu 1 SETUPRESP_FLAG []]

/-- rcopy in its handshake; `respBuf` holds no answer for which it would leave. -/
inductive Shaking : RcopyProcess → Prop where
  | getInitialResp {serverS : Addr} (hpeer : serverS ≠ .rcopy) (count : ℕ)
      (respBuf : List UInt8) : Shaking (.getInitialResp serverS count respBuf)
  | ackInitialResp {serverS : Addr} (hpeer : serverS ≠ .rcopy) (count : ℕ) {respBuf : List UInt8}
      {received : Option PduS} (hread : interpPDU respBuf = .ok received)
      (hno : ∀ packet, received = some packet → ¬Answers packet) :
      Shaking (.ackInitialResp serverS count respBuf)

/-- Where a step of the handshake leads, and what it sends. -/
inductive Shakes (req : Request) (recvLen : ℕ) : Recv → ConnProc RcopyProcess → Prop where
  | stops {recv : Recv} (e : Halt) : Shakes req recvLen recv ⟨[], .error e⟩
  | again {recv : Recv} {dst : Addr} (hdst : dst ≠ .rcopy) {d : List UInt8} (hd : d ∈ req.asks)
      {p : RcopyProcess} (h : Shaking p) : Shakes req recvLen recv ⟨[.sendto dst d], .ok p⟩
  | answered {src : Addr} {bytes : List UInt8} {packet : PduS} (hlen : recvLen = MAXBUF)
      (hread : interpPDU (bytes.take recvLen) = .ok (some packet)) (h : Answers packet) :
      Shakes req recvLen (some (src, bytes))
        (RcopyProcess.handleConnection req ⟨src, .recvDataLoop packet⟩)

theorem shakes_getInitialResp {count : ℕ} {respBuf : List UInt8} {r : RcopySetup}
    {p : SetupProc RcopySetup} (hbuf : req.bufSize.toNat ≤ 1393)
    (h : Asks req count respBuf r p) (hpeer : r.serverS ≠ .rcopy) :
    Shakes req recvLen recv (p.mapOut setupEffect >>= RcopyProcess.handleConnection req) := by
  cases h with
  | stops e => exact .stops e
  | again hfits _ _ =>
      rw [Request.pduBuf_eq_of_fits hbuf hfits]
      exact .again hpeer (List.mem_cons_self ..) (.getInitialResp hpeer count respBuf)
  | answered _ =>
      have hno : ∀ packet, none = some packet → ¬Answers packet := fun packet h => by cases h
      exact .again hpeer (List.mem_cons_of_mem _ (List.mem_singleton_self _))
        (.ackInitialResp hpeer 0 interpPDU_nil hno)

theorem shakes_ackInitialResp {count : ℕ} {respBuf : List UInt8} {received : Option PduS}
    {r : RcopySetup} {p : SetupProc RcopySetup} (h : Acks received count respBuf r p)
    (hread : interpPDU respBuf = .ok received) (hpeer : r.serverS ≠ .rcopy)
    (hanswered : ∀ packet, received = some packet → Answers packet →
      ∃ bytes, recv = some (r.serverS, bytes) ∧ bytes.take MAXBUF = respBuf) :
    Shakes req MAXBUF recv (p.mapOut setupEffect >>= RcopyProcess.handleConnection req) := by
  cases h with
  | stops e => exact .stops e
  | again _ hno =>
      exact .again hpeer (List.mem_cons_of_mem _ (List.mem_singleton_self _))
        (.ackInitialResp hpeer count hread hno)
  | @answered packet hsome h =>
      obtain ⟨bytes, hrecv, rfl⟩ := hanswered packet hsome h
      rw [hsome] at hread
      rw [Emit.mapOut_mk, List.map_nil, Emit.bind_silent, hrecv]
      exact .answered rfl hread h

theorem Shaking.step_shakes {p : RcopyProcess} (hbuf : req.bufSize.toNat ≤ 1393)
    (h : Shaking p)
    (hrecv : ∀ src bytes, recv = some (src, bytes) → src ≠ .rcopy) :
    Shakes req (p.recvLen req) recv (p.step req recv) := by
  cases h with
  | getInitialResp hpeer count respBuf =>
      cases recv with
      | none =>
          exact shakes_getInitialResp hbuf (getInitialRespTest_asks req (count + 1) respBuf _) hpeer
      | some received =>
          obtain ⟨src, bytes⟩ := received
          rw [RcopyProcess.step, RcopySetup.step]
          dsimp only
          split_ifs
          · exact shakes_getInitialResp hbuf (getInitialRespTest_asks req (count + 1) _ _)
              (hrecv src bytes rfl)
          · exact .stops .outOfBounds
  | @ackInitialResp serverS hpeer count respBuf received hread hno =>
      cases recv with
      | none =>
          exact shakes_ackInitialResp (ackInitialRespTest_acks hread (count + 1) _) hread hpeer
            fun packet hsome h => absurd h (hno packet hsome)
      | some received =>
          obtain ⟨src, bytes⟩ := received
          cases hread' : interpPDU (bytes.take MAXBUF) with
          | error e =>
              rw [RcopyProcess.step, RcopySetup.step]
              dsimp only [RcopySetup.recvLen]
              rw [RcopySetup.ackInitialRespTest, hread', Emit.liftM_eq, Emit.bind_error]
              exact .stops e
          | ok received =>
              exact shakes_ackInitialResp (ackInitialRespTest_acks hread' (count + 1) _) hread'
                (hrecv src bytes rfl) fun packet hsome h => ⟨bytes, rfl, rfl⟩

theorem receive_answers {r : Rcopy} (hpc : r.pc = .start) {packet : PduS} (h : Answers packet) :
    (r.receive packet).Ends fun r' => r'.pc ≠ .start := by
  unfold Rcopy.receive
  rw [hpc]
  dsimp only
  split_ifs with hflag
  · exact Ordered.processPacket_started r packet
  · exact absurd h hflag

theorem step_started {r : Rcopy} (hpc : r.pc ≠ .start) (bufSize : UInt16) (poll : Poll) :
    (r.step bufSize poll).Ends fun r' => r'.pc ≠ .start := by
  cases poll with
  | timeout =>
      rcases Rcopy.step_timeout bufSize r with heq | heq
      · rw [heq]
        exact Emit.ends_ok hpc
      · rw [heq]
        exact Emit.ends_error
  | datagram bytes =>
      refine Emit.ends_lift fun received _ => ?_
      cases received with
      | none => exact Emit.ends_pure hpc
      | some packet => exact Ordered.receive_started hpc packet

/-- What `pollCall` finds. -/
def polled : Recv → Poll
  | none => .timeout
  | some (_, bytes) => .datagram bytes

theorem arrival_of_receive {network : List Datagram} {channel : List (List UInt8)} {dst : Addr}
    {a : Delivery} (h : ∀ c ∈ network, c.dst = dst → c.src = src ∧ c.bytes ∈ channel)
    (hrecv : a.receive network dst recvLen = some recv) :
    (∃ arrival : Arrival, arrival.poll channel recvLen = some (polled recv)) ∧
      ∀ received, recv = some received → received.1 = src := by
  cases recv with
  | none =>
      exact ⟨⟨.timeout, rfl⟩, fun received h => by cases h⟩
  | some received =>
      obtain ⟨from', bytes⟩ := received
      obtain ⟨c, hc, hdst, rfl, hbytes⟩ := mem_of_receive hrecv
      obtain ⟨hsrc, hmem⟩ := h c hc hdst
      refine ⟨?_, fun received h => by cases h; exact hsrc⟩
      rcases hbytes with rfl | hreject
      · obtain ⟨i, hi⟩ := List.mem_iff_getElem?.mp hmem
        refine ⟨.recv i, ?_⟩
        simp only [Arrival.poll, hi, Option.map_some, polled]
      · refine ⟨.corrupt bytes, ?_⟩
        simp only [Arrival.poll, if_pos hreject, polled]

/-- What rcopy and child 0 can have sent to each other, and to the server. -/
structure Routes (network : List Datagram) (toServer toRcopy : List (List UInt8)) : Prop where
  toServer : ∀ c ∈ network, c.dst = .child 0 → c.src = .rcopy ∧ c.bytes ∈ toServer
  toRcopy : ∀ c ∈ network, c.dst = .rcopy → c.src = .child 0 ∧ c.bytes ∈ toRcopy
  requests : ∀ c ∈ network, c.dst = .server → c.src = .rcopy

section
variable {network : List Datagram} {toServer toRcopy : List (List UInt8)}

theorem Routes.silent (h : Routes network toServer toRcopy) (src : Addr) :
    Routes (network ++ posted src []) toServer toRcopy := by
  rw [show posted src [] = [] from rfl, List.append_nil]
  exact h

theorem Routes.rcopy_posts (h : Routes network toServer toRcopy) {out : List Effect}
    {sent : List (List UInt8)} (hout : ∀ dst d, .sendto dst d ∈ out → dst ≠ .rcopy ∧
      d ∈ toServer ++ sent) : Routes (network ++ posted .rcopy out) (toServer ++ sent) toRcopy := by
  refine ⟨fun c hc hdst => ?_, fun c hc hdst => ?_, fun c hc hdst => ?_⟩
  · rcases List.mem_append.mp hc with hc | hc
    · exact ⟨(h.toServer c hc hdst).1, List.mem_append_left _ (h.toServer c hc hdst).2⟩
    · obtain ⟨hsrc, hmem⟩ := mem_posted_iff.mp hc
      exact ⟨hsrc, (hout _ _ hmem).2⟩
  · rcases List.mem_append.mp hc with hc | hc
    · exact h.toRcopy c hc hdst
    · exact absurd hdst (hout _ _ (mem_posted_iff.mp hc).2).1
  · rcases List.mem_append.mp hc with hc | hc
    · exact h.requests c hc hdst
    · exact (mem_posted_iff.mp hc).1

theorem Routes.rcopy_asks (h : Routes network toServer toRcopy) {dst : Addr} (hdst : dst ≠ .rcopy)
    (hd : d ∈ toServer) : Routes (network ++ posted .rcopy [.sendto dst d]) toServer toRcopy := by
  have hposts : Routes (network ++ posted .rcopy [.sendto dst d]) (toServer ++ []) toRcopy :=
    h.rcopy_posts fun dst' d' hmem => by
      cases List.mem_singleton.mp hmem
      exact ⟨hdst, List.mem_append_left _ hd⟩
  rwa [List.append_nil] at hposts

theorem Routes.child_posts (h : Routes network toServer toRcopy) {out : List Effect}
    {sent : List (List UInt8)} (hout : ∀ dst d, .sendto dst d ∈ out → dst = .rcopy ∧
      d ∈ toRcopy ++ sent) :
    Routes (network ++ posted (.child 0) out) toServer (toRcopy ++ sent) := by
  refine ⟨fun c hc hdst => ?_, fun c hc hdst => ?_, fun c hc hdst => ?_⟩
  · rcases List.mem_append.mp hc with hc | hc
    · exact h.toServer c hc hdst
    · rw [(hout _ _ (mem_posted_iff.mp hc).2).1] at hdst
      cases hdst
  · rcases List.mem_append.mp hc with hc | hc
    · exact ⟨(h.toRcopy c hc hdst).1, List.mem_append_left _ (h.toRcopy c hc hdst).2⟩
    · obtain ⟨hsrc, hmem⟩ := mem_posted_iff.mp hc
      exact ⟨hsrc, (hout _ _ hmem).2⟩
  · rcases List.mem_append.mp hc with hc | hc
    · exact h.requests c hc hdst
    · rw [(hout _ _ (mem_posted_iff.mp hc).2).1] at hdst
      cases hdst

theorem Routes.child_answers (h : Routes network toServer toRcopy) (hd : d ∈ toRcopy) :
    Routes (network ++ posted (.child 0) [.sendto .rcopy d]) toServer toRcopy := by
  have hposts : Routes (network ++ posted (.child 0) [.sendto .rcopy d]) toServer (toRcopy ++ []) :=
    h.child_posts fun dst' d' hmem => by
      cases List.mem_singleton.mp hmem
      exact ⟨rfl, List.mem_append_left _ hd⟩
  rwa [List.append_nil] at hposts

end

namespace Session
variable {x x' : Session} {t : Transfer} {b : ReorderBuffer PduS} {a : Delivery} {flag : UInt8}
  {j : ℕ}

/-- rcopy in the session, and in the transfer. -/
inductive Mirrors (req : Request) : RcopyProcess → Rcopy → Prop where
  | shaking {p : RcopyProcess} (h : Shaking p) : Mirrors req p (Rcopy.init req.winSize.toNat)
  | receiving {r : Rcopy} (hpc : r.pc ≠ .start) : Mirrors req (.receiving (.child 0) r) r

/-- The session is the transfer `t` of its only child. -/
structure Projects (req : Request) (file : List UInt8) (x : Session) (t : Transfer) : Prop where
  child : x.children = [⟨.transferring .rcopy req.bufSize t.server, t.serverHalt, file⟩]
  rcopy : Mirrors req x.rcopy t.rcopy
  rcopyHalt : x.rcopyHalt = none → t.rcopyHalt = none
  written : x.written = t.written
  routes : Routes x.network t.toServer t.toRcopy
  asks : ∀ d ∈ req.asks, d ∈ t.toServer

/-- A step of the child is a step of the transfer. -/
theorem Projects.child_step (h : Projects req file x t)
    (hstep : x.step fs req (.child j a) = some x') : ∃ t',
    Reaches (Transfer.step req.bufSize) t t' ∧ Projects req file x' t' := by
  obtain ⟨c, hc, hhalt, hruns, recv, rfl, hrecv⟩ := step_child hstep
  obtain ⟨rfl, rfl⟩ : j = 0 ∧
      c = ⟨.transferring .rcopy req.bufSize t.server, t.serverHalt, file⟩ := by
    rw [h.child] at hc
    cases j with
    | zero =>
        cases hc
        exact ⟨rfl, rfl⟩
    | succ j => cases hc
  have hne : t.server.pc ≠ .returned := by
    intro hpc
    rw [ServerProcess.transferring, hpc] at hruns
    cases hruns
  have hchild := h.child
  rw [transferring_of_ne _ _ hne] at hrecv hchild ⊢
  obtain ⟨⟨arrival, hpoll⟩, hsrc⟩ := arrival_of_receive h.routes.toServer hrecv
  have hprocess : (ServerProcess.transferData .rcopy req.bufSize t.server).step file recv = (do
      let s ← (t.server.step req.bufSize (polled recv)).mapOut (Effect.sendto .rcopy)
      return ServerProcess.transferring .rcopy req.bufSize s) := by
    cases recv with
    | none => rfl
    | some received =>
        obtain ⟨src, bytes⟩ := received
        obtain rfl := hsrc _ rfl
        rfl
  refine ⟨t.serverStep req.bufSize (polled recv), Reaches.single (l := .server arrival) ?_, ?_⟩
  · simp only [Transfer.step, show t.serverHalt = none from hhalt]
    rw [show arrival.poll t.toServer (Server.recvLen req.bufSize t.server.pc) = _ from hpoll]
  have hposts : ∀ out : List (List UInt8), Routes
      (x.network ++ posted (.child 0) (out.map (Effect.sendto .rcopy))) t.toServer
      (t.toRcopy ++ out) := by
    intro out
    refine h.routes.child_posts fun dst d hd => ?_
    obtain ⟨d', hd', heq⟩ := List.mem_map.mp hd
    cases heq
    exact ⟨rfl, List.mem_append_right _ hd'⟩
  unfold childStep Transfer.serverStep
  dsimp only
  rw [hprocess, hchild]
  generalize t.server.step req.bufSize (polled recv) = p
  obtain ⟨out, result⟩ := p
  cases result with
  | ok s =>
      rw [Emit.mapOut_mk, Emit.bind_ok]
      refine ⟨rfl, h.rcopy, h.rcopyHalt, h.written, ?_, h.asks⟩
      have hout := hposts out
      rwa [← List.append_nil (out.map (Effect.sendto .rcopy))] at hout
  | error e =>
      rw [Emit.mapOut_mk, Emit.bind_error]
      refine ⟨?_, h.rcopy, h.rcopyHalt, h.written, hposts out, h.asks⟩
      rw [transferring_of_ne _ _ hne]
      rfl

theorem Projects.rcopy_matches (h : Projects req file x t) {recv : Recv} {poll : Poll}
    (hprocess : x.rcopy.step req recv = (do
      let r ← (t.rcopy.step req.bufSize poll).mapOut (actionEffect (.child 0))
      return RcopyProcess.receiving (.child 0) r))
    (hstarted : (t.rcopy.step req.bufSize poll).Ends fun r => r.pc ≠ .start)
    (hhalt : x.rcopyHalt = none) :
    Projects req file (x.rcopyStep req recv) (t.rcopyStep req.bufSize poll) := by
  have hposts : ∀ out : List Action, Routes
      (x.network ++ posted .rcopy (out.map (actionEffect (.child 0))))
      (t.toServer ++ datagrams out) t.toRcopy := by
    intro out
    refine h.routes.rcopy_posts fun dst d hd => ?_
    obtain ⟨action, haction, heq⟩ := List.mem_map.mp hd
    cases action with
    | sendto pduBuf =>
        cases heq
        exact ⟨by simp, List.mem_append_right _ (List.mem_filterMap.mpr ⟨_, haction, rfl⟩)⟩
    | fwrite packet => cases heq
  have hwrites : ∀ out : List Action, x.written ++ stored (out.map (actionEffect (.child 0))) =
      t.written ++ SelRej.written out := by
    intro out
    rw [h.written, stored_actions]
  unfold rcopyStep Transfer.rcopyStep
  rw [hprocess]
  generalize t.rcopy.step req.bufSize poll = p at hstarted
  obtain ⟨out, result⟩ := p
  have hout := hposts out
  have hwritten := hwrites out
  cases result with
  | ok r =>
      rw [Emit.mapOut_mk, Emit.bind_ok]
      rw [← List.append_nil (out.map (actionEffect (.child 0)))] at hout hwritten
      exact ⟨h.child, .receiving (hstarted r rfl), fun _ => h.rcopyHalt hhalt, hwritten, hout,
        fun d hd => List.mem_append_left _ (h.asks d hd)⟩
  | error e =>
      rw [Emit.mapOut_mk, Emit.bind_error]
      exact ⟨h.child, h.rcopy, (fun hnone => by cases hnone), hwritten, hout,
        fun d hd => List.mem_append_left _ (h.asks d hd)⟩

/-- The step from the handshake to the transfer, or a step in which the transfer waits. -/
theorem Projects.shakes (h : Projects req file x t) (hp : Params req.winSize.toNat req.bufSize file)
    (hrcopy : t.rcopy = Rcopy.init req.winSize.toNat) (hshaking : Shaking x.rcopy)
    (hhalt : x.rcopyHalt = none) {recv : Recv}
    (hrecv : a.receive x.network .rcopy (x.rcopy.recvLen req) = some recv) : ∃ t',
    Reaches (Transfer.step req.bufSize) t t' ∧ Projects req file (x.rcopyStep req recv) t' := by
  obtain ⟨_, hsrc⟩ := arrival_of_receive h.routes.toRcopy hrecv
  have hshakes : Shakes req (x.rcopy.recvLen req) recv (x.rcopy.step req recv) :=
    hshaking.step_shakes hp.buf_le fun src bytes hsome => by
      rw [show src = .child 0 from hsrc _ hsome]
      simp
  generalize hp' : x.rcopy.step req recv = p at hshakes
  generalize hlen' : x.rcopy.recvLen req = recvLen at hshakes hrecv
  cases hshakes with
  | stops e =>
      refine ⟨t, ⟨[], rfl⟩, ?_⟩
      unfold rcopyStep
      rw [hp']
      exact ⟨h.child, h.rcopy, (fun hnone => by cases hnone), (List.append_nil _).trans h.written,
        h.routes.silent .rcopy, h.asks⟩
  | @again _ dst hdst d hd p hp =>
      refine ⟨t, ⟨[], rfl⟩, ?_⟩
      unfold rcopyStep
      rw [hp']
      exact ⟨h.child, hrcopy ▸ .shaking hp, h.rcopyHalt, (List.append_nil _).trans h.written,
        h.routes.rcopy_asks hdst (h.asks d hd), h.asks⟩
  | @answered src bytes packet hlen hread hanswers =>
      obtain ⟨c, hc, hdst, rfl, hbytes⟩ := mem_of_receive hrecv
      have hmem : bytes ∈ t.toRcopy := by
        rcases hbytes with rfl | hreject
        · exact (h.routes.toRcopy c hc hdst).2
        · rw [hread] at hreject
          cases hreject
      obtain ⟨i, hi⟩ := List.mem_iff_getElem?.mp hmem
      have hpc : t.rcopy.pc = .start := by
        rw [hrcopy]
        rfl
      have hstep : t.rcopy.step req.bufSize (.datagram bytes) = t.rcopy.receive packet := by
        refine Rcopy.step_accepted ?_
        rw [hpc]
        rwa [hlen] at hread
      refine ⟨_, Reaches.single (Transfer.step_rcopy_recv (h.rcopyHalt hhalt) hi), ?_⟩
      refine h.rcopy_matches ?_ ?_ hhalt
      · rw [hp', show c.src = .child 0 from hsrc _ rfl, rcopy_initialised_eq hp, hstep, hrcopy]
      · rw [hstep]
        exact receive_answers hpc hanswers

theorem Projects.rcopy_step (h : Projects req file x t)
    (hp : Params req.winSize.toNat req.bufSize file)
    (hstep : x.step fs req (.rcopy a) = some x') : ∃ t',
    Reaches (Transfer.step req.bufSize) t t' ∧ Projects req file x' t' := by
  obtain ⟨hhalt, hruns, recv, rfl, hrecv⟩ := step_rcopy hstep
  have hmirrors := h.rcopy
  generalize hr : t.rcopy = r at hmirrors
  generalize hp' : x.rcopy = p at hmirrors hruns hrecv
  cases hmirrors with
  | shaking hshaking =>
      rw [← hp'] at hshaking hrecv
      exact h.shakes hp hr hshaking hhalt hrecv
  | receiving hpc =>
      have hne : r.pc ≠ .finished := by
        intro hfinished
        rw [RcopyProcess.receiving, hfinished] at hruns
        cases hruns
      rw [RcopyProcess.receiving_of_waits _ hne] at hp' hrecv
      obtain ⟨⟨arrival, hpoll⟩, hsrc⟩ := arrival_of_receive h.routes.toRcopy hrecv
      refine ⟨t.rcopyStep req.bufSize (polled recv), Reaches.single (l := .rcopy arrival) ?_,
        h.rcopy_matches ?_ ?_ hhalt⟩
      · simp only [Transfer.step, h.rcopyHalt hhalt, hr]
        rw [show arrival.poll t.toRcopy (Rcopy.recvLen req.bufSize r.pc) = _ from hpoll]
      · rw [hp', hr]
        cases recv with
        | none => rfl
        | some received =>
            obtain ⟨src, bytes⟩ := received
            obtain rfl := hsrc _ rfl
            rfl
      · rw [hr]
        exact step_started hpc req.bufSize (polled recv)

/-- No child has begun the transfer. A child that has given up, or was forked for
another datagram, is no process any more. -/
structure Handshaking (req : Request) (file : List UInt8) (x : Session) : Prop where
  child : ∀ c ∈ x.children,
    (∃ flag, c = ⟨.setupResponse .rcopy req.winSize req.bufSize flag, none, file⟩) ∨
      c.halt ≠ none ∨ c.process.running = false
  rcopy : Shaking x.rcopy
  written : x.written = []
  routes : Routes x.network req.asks [createPdu 0 INITIALRESP_FLAG [1]]

theorem handshaking_start (hbuf : req.bufSize.toNat ≤ 1393) (file : List UInt8) :
    Handshaking req file (start req) := by
  have hshaking : Shaking (.getInitialResp .server 0 []) := .getInitialResp (by simp) 0 []
  unfold start
  rcases rcopy_start_cases req with ⟨e, hstart⟩ | ⟨hfits, hstart⟩
  · rw [hstart]
    refine ⟨fun c hc => (by cases hc), hshaking, rfl, ?_⟩
    exact ⟨fun c hc => (by cases hc), fun c hc => (by cases hc), fun c hc => (by cases hc)⟩
  · rw [hstart, Request.pduBuf_eq_of_fits hbuf hfits]
    refine ⟨fun c hc => (by cases hc), hshaking, rfl, ?_⟩
    refine ⟨fun c hc hdst => ?_, fun c hc hdst => ?_, fun c hc _ => ?_⟩
    · rw [List.mem_singleton.mp hc] at hdst
      cases hdst
    · rw [List.mem_singleton.mp hc] at hdst
      cases hdst
    · rw [List.mem_singleton.mp hc]

theorem Handshaking.rcopy_step (h : Handshaking req file x) (hbuf : req.bufSize.toNat ≤ 1393)
    (hstep : x.step fs req (.rcopy a) = some x') : Handshaking req file x' := by
  obtain ⟨_, _, recv, rfl, hrecv⟩ := step_rcopy hstep
  obtain ⟨_, hsrc⟩ := arrival_of_receive h.routes.toRcopy hrecv
  have hshakes : Shakes req (x.rcopy.recvLen req) recv (x.rcopy.step req recv) :=
    h.rcopy.step_shakes hbuf fun src bytes hsome => by
      rw [show src = .child 0 from hsrc _ hsome]
      simp
  generalize x.rcopy.recvLen req = recvLen at hshakes hrecv
  unfold rcopyStep
  generalize x.rcopy.step req recv = p at hshakes
  cases hshakes with
  | stops e =>
      exact ⟨h.child, h.rcopy, (List.append_nil _).trans h.written, h.routes.silent .rcopy⟩
  | @again _ dst hdst d hd p hp =>
      exact ⟨h.child, hp, (List.append_nil _).trans h.written, h.routes.rcopy_asks hdst hd⟩
  | @answered src bytes packet hlen hread hanswers =>
      obtain ⟨c, hc, hdst, _, hbytes⟩ := mem_of_receive hrecv
      rcases hbytes with rfl | hreject
      · have hmem := List.mem_singleton.mp (h.routes.toRcopy c hc hdst).2
        have hinitial := interpPDU_take_of_le 0 INITIALRESP_FLAG
          (show [(1 : UInt8)].length ≤ 65528 by decide)
          (show 7 + [(1 : UInt8)].length ≤ recvLen by rw [hlen]; decide)
        rw [hmem, hinitial] at hread
        cases hread
        rcases hanswers with hflag | hflag <;> cases hflag
      · rw [hread] at hreject
        cases hreject

theorem Handshaking.fork_step (h : Handshaking req file x) (hserved : req.Served fs file)
    (hb : Consistent req file x b) (hnone : x.children = [])
    (hstep : x.step fs req (.fork a flag) = some x') : Handshaking req file x' := by
  obtain ⟨src, bytes, rfl, hrecv⟩ := step_fork hstep
  have hsrc : src = .rcopy := by
    obtain ⟨c, hc, hdst, rfl, _⟩ := mem_of_receive hrecv
    exact h.routes.requests c hc hdst
  unfold fork
  dsimp only
  rw [hnone, List.length_nil]
  rcases start_cases hserved src flag (hb.brings hrecv) with ⟨hrequested, hstart⟩ | hclosed
  · rw [hrequested, hstart]
    rw [hsrc]
    refine ⟨fun c hc => ?_, h.rcopy, h.written,
      h.routes.child_answers (List.mem_singleton_self _)⟩
    rw [List.mem_singleton.mp hc]
    exact .inl ⟨flag, rfl⟩
  · rw [hclosed]
    refine ⟨fun c hc => ?_, h.rcopy, h.written, h.routes.silent (.child 0)⟩
    rw [List.mem_singleton.mp hc]
    exact .inr (.inr rfl)

theorem projects_start {s : Server}
    (hinit : Server.init req.winSize.toNat req.bufSize file =
      ⟨[dataBytes file req.bufSize 0], .ok s⟩) :
    ∃ t, Transfer.Reachable req.winSize.toNat req.bufSize file t ∧ t.server = s ∧
      t.serverHalt = none ∧ t.rcopy = Rcopy.init req.winSize.toNat ∧ t.rcopyHalt = none ∧
      t.written = [] ∧ t.toServer = req.asks ∧
      t.toRcopy = [createPdu 0 INITIALRESP_FLAG [1]] ++
        [createPdu 1 SETUPRESP_FLAG [1], dataBytes file req.bufSize 0] := by
  have hserver : ∀ d ∈ req.asks, Transfer.Setup d := by
    intro d hd
    rcases List.mem_cons.mp hd with rfl | hd
    · exact ⟨0, INITIAL_FLAG, req.payLoad, rfl, .inr (.inl rfl)⟩
    · rw [List.mem_singleton.mp hd]
      exact ⟨1, SETUPRESP_FLAG, [], rfl, .inl rfl⟩
  have hrcopy : ∀ d ∈ [createPdu 0 INITIALRESP_FLAG [1], createPdu 1 SETUPRESP_FLAG [1]],
      Transfer.Setup d := by
    intro d hd
    rcases List.mem_cons.mp hd with rfl | hd
    · exact ⟨0, INITIALRESP_FLAG, [1], rfl, .inr (.inr rfl)⟩
    · rw [List.mem_singleton.mp hd]
      exact ⟨1, SETUPRESP_FLAG, [1], rfl, .inl rfl⟩
  refine ⟨_, ⟨_, _, [], hserver, hrcopy, rfl⟩, ?_⟩
  unfold Transfer.start
  rw [hinit]
  exact ⟨rfl, rfl, rfl, rfl, rfl, rfl, rfl⟩

/-- A child that waits for the SETUPRESP waits on, gives up, or begins the transfer. -/
theorem Handshaking.child_step (h : Handshaking req file x)
    (hp : Params req.winSize.toNat req.bufSize file) (hone : x.children.length ≤ 1)
    (hstep : x.step fs req (.child j a) = some x') : Handshaking req file x' ∨
      ∃ t, Transfer.Reachable req.winSize.toNat req.bufSize file t ∧ Projects req file x' t := by
  obtain ⟨c, hc, hhalt, hruns, recv, rfl, hrecv⟩ := step_child hstep
  obtain ⟨hj, hget⟩ := List.getElem?_eq_some_iff.mp hc
  obtain rfl : j = 0 := by omega
  have hchildren : x.children = [c] := by
    obtain ⟨c', hc'⟩ := List.length_eq_one_iff.mp (show x.children.length = 1 by omega)
    rw [hc'] at hc ⊢
    cases hc
    rfl
  have hsetup : ∃ flag, c = ⟨.setupResponse .rcopy req.winSize req.bufSize flag, none, file⟩ := by
    rcases h.child c (List.mem_of_getElem? hc) with hsetup | hdead | hdead
    · exact hsetup
    · exact absurd hhalt hdead
    · rw [hruns] at hdead
      cases hdead
  obtain ⟨flag, rfl⟩ := hsetup
  have hset : ∀ c' : SessionChild, ∀ c ∈ x.children.set 0 c', c = c' := by
    intro c' c hc
    rw [hchildren] at hc
    exact List.mem_singleton.mp hc
  obtain ⟨_, hsrc⟩ := arrival_of_receive h.routes.toServer hrecv
  unfold childStep
  cases recv with
  | none =>
      refine .inl ⟨fun c hc => ?_, h.rcopy, h.written, h.routes.silent (.child 0)⟩
      rw [hset _ c hc]
      exact .inr (.inr rfl)
  | some received =>
      obtain ⟨src, bytes⟩ := received
      obtain rfl := hsrc _ rfl
      have hprocess : (ServerProcess.setupResponse .rcopy req.winSize req.bufSize flag).step file
          (some (.rcopy, bytes)) = (do
            let c ← (ServerChild.setupResponseTest flag (bytes.take MAXBUF)
              ⟨.rcopy, req.winSize, req.bufSize, .setupResponse flag⟩).mapOut setupEffect
            ServerProcess.handleClient file c) := rfl
      dsimp only
      rcases setupResponseTest_cases flag (bytes.take MAXBUF)
          ⟨.rcopy, req.winSize, req.bufSize, .setupResponse flag⟩ with
        ⟨e, _, htest⟩ | ⟨_, _, htest⟩ | ⟨_, htest⟩
      · rw [hprocess, htest]
        refine .inl ⟨fun c hc => ?_, h.rcopy, h.written, h.routes.silent (.child 0)⟩
        rw [hset _ c hc]
        exact .inr (.inl (Option.some_ne_none e))
      · rw [hprocess, htest]
        refine .inl ⟨fun c hc => ?_, h.rcopy, h.written, h.routes.silent (.child 0)⟩
        rw [hset _ c hc]
        exact .inl ⟨flag, rfl⟩
      · obtain ⟨s, hbegins, hinit, _, hpc⟩ := setupResponse_accepts hp htest
        obtain ⟨t, hreach, hserver, hserverHalt, hrcopy, hrcopyHalt, hwritten, htoServer, htoRcopy⟩ :=
          projects_start hinit
        rw [hprocess, hbegins]
        refine .inr ⟨t, hreach, ?_, hrcopy ▸ .shaking h.rcopy, fun _ => hrcopyHalt,
          h.written.trans hwritten.symm, ?_, fun d hd => htoServer ▸ hd⟩
        · dsimp only
          rw [hchildren, hserver, hserverHalt, transferring_of_ne _ _ (by rw [hpc]; simp)]
          rfl
        · rw [htoServer, htoRcopy]
          refine h.routes.child_posts fun dst d hmem => ?_
          rcases List.mem_cons.mp hmem with heq | hmem
          · cases heq
            exact ⟨rfl, List.mem_append_right _ (List.mem_cons_self ..)⟩
          · cases List.mem_singleton.mp hmem
            exact ⟨rfl, List.mem_append_right _ (List.mem_cons_of_mem _ (List.mem_singleton_self _))⟩

theorem children_length_le {e : SessionEvent} (hstep : x.step fs req e = some x') :
    x.children.length ≤ x'.children.length ∧
      (∀ a flag, e = .fork a flag → x'.children.length = x.children.length + 1) := by
  cases e with
  | rcopy a =>
      obtain ⟨_, _, recv, rfl, _⟩ := step_rcopy hstep
      refine ⟨?_, fun a flag h => by cases h⟩
      unfold rcopyStep
      split <;> exact Nat.le_refl _
  | fork a flag =>
      obtain ⟨src, bytes, rfl, _⟩ := step_fork hstep
      have hlen : (x.fork fs src (bytes.take MAXBUF) flag).children.length =
          x.children.length + 1 := by
        unfold fork
        dsimp only
        split <;> exact List.length_append
      exact ⟨by omega, fun _ _ _ => hlen⟩
  | child k a =>
      obtain ⟨c, _, _, _, recv, rfl, _⟩ := step_child hstep
      refine ⟨?_, fun a flag h => by cases h⟩
      unfold childStep
      split <;> exact Nat.le_of_eq List.length_set.symm

/-- The session is in its handshake, or it is a state that a transfer can reach. -/
inductive Phase (req : Request) (file : List UInt8) (x : Session) : Prop where
  | handshake (h : Handshaking req file x)
  | transfer {t : Transfer} (hreach : Transfer.Reachable req.winSize.toNat req.bufSize file t)
      (h : Projects req file x t)

theorem Phase.step (h : Phase req file x) (hserved : req.Served fs file)
    (hb : Consistent req file x b) {e : SessionEvent} (hstep : x.step fs req e = some x')
    (hone : x'.children.length ≤ 1) : Phase req file x' := by
  have hp := hserved.params
  obtain ⟨hle, hfork⟩ := children_length_le hstep
  cases h with
  | handshake hshaking =>
      cases e with
      | rcopy a => exact .handshake (hshaking.rcopy_step hp.buf_le hstep)
      | fork a flag =>
          have hlen := hfork a flag rfl
          have hnone := List.eq_nil_of_length_eq_zero (show x.children.length = 0 by omega)
          exact .handshake (hshaking.fork_step hserved hb hnone hstep)
      | child j a =>
          rcases hshaking.child_step hp (by omega) hstep with hshaking' | ⟨t, hreach, hprojects⟩
          · exact .handshake hshaking'
          · exact .transfer hreach hprojects
  | @transfer t hreach hprojects =>
      cases e with
      | rcopy a =>
          obtain ⟨t', hreaches, hprojects'⟩ := hprojects.rcopy_step hp hstep
          exact .transfer (hreach.trans hreaches) hprojects'
      | fork a flag =>
          have hlen := hfork a flag rfl
          rw [hprojects.child, List.length_singleton] at hlen
          omega
      | child j a =>
          obtain ⟨t', hreaches, hprojects'⟩ := hprojects.child_step hstep
          exact .transfer (hreach.trans hreaches) hprojects'

theorem phase_of_reachable (hserved : req.Served fs file) (h : Reachable fs req x)
    (hone : x.children.length ≤ 1) : Phase req file x := by
  obtain ⟨events, hrun⟩ := h
  refine (run_induct (P := fun x => (∃ b, Consistent req file x b) ∧
    (x.children.length ≤ 1 → Phase req file x)) ?_
    ⟨consistent_start req file, fun _ => .handshake (handshaking_start hserved.params.buf_le file)⟩ hrun).2 hone
  rintro x e x' ⟨⟨b, hb⟩, hphase⟩ hstep
  obtain ⟨b', hb', _⟩ := hb.step hserved hstep
  refine ⟨⟨b', hb'⟩, fun hone => ?_⟩
  have hle := (children_length_le hstep).1
  exact (hphase (by omega)).step hserved hb hstep hone

/-- As long as at most one child has been forked, the session is in its handshake,
or it is a state that a transfer can reach. -/
theorem session_refines_transfer (hserved : req.Served fs file) (h : Reachable fs req x)
    (hone : x.children.length ≤ 1) : Handshaking req file x ∨
      ∃ t, Transfer.Reachable req.winSize.toNat req.bufSize file t ∧ Projects req file x t := by
  cases phase_of_reachable hserved h hone with
  | handshake hshaking => exact .inl hshaking
  | @transfer t hreach hprojects => exact .inr ⟨t, hreach, hprojects⟩

/-- A session in which the child has begun the transfer. -/
theorem session_refines_transfer_begun : ∃ x t, Reachable onlyA requestA x ∧
    Transfer.Reachable 1 10 [65] t ∧ Projects requestA [65] x t := by
  have hrun : (run (step onlyA requestA) (start requestA)
      [.fork (.recv 0) 0, .rcopy (.recv 1), .child 0 (.recv 2)]).map
        (fun x => (x.children.length, x.children.map fun c => (c.halt, c.process.transfers))) =
          some (1, [(none, true)]) := by
    decide +kernel
  obtain ⟨x, hx, hview⟩ := Option.map_eq_some_iff.mp hrun
  obtain ⟨hlen, hchildren⟩ := Prod.mk.inj hview
  rcases session_refines_transfer served_onlyA ⟨_, hx⟩ (Nat.le_of_eq hlen) with
    hshaking | ⟨t, hreach, hprojects⟩
  · obtain ⟨c, hc⟩ := List.length_eq_one_iff.mp hlen
    rw [hc] at hchildren
    simp only [List.map_cons, List.map_nil, List.cons.injEq, Prod.mk.injEq, and_true] at hchildren
    obtain ⟨hhalt, htransfers⟩ := hchildren
    rcases hshaking.child c (by rw [hc]; exact List.mem_singleton_self c) with
      ⟨flag, rfl⟩ | hdead | hdead
    · cases htransfers
    · exact absurd hhalt hdead
    · rw [ServerProcess.closed_of_not_running hdead] at htransfers
      cases htransfers
  · exact ⟨x, t, ⟨_, hx⟩, hreach, hprojects⟩

/-- In the transfer, the session can do what the transfer can do from now on. -/
theorem Projects.follows (h : Projects req file x t) (hhalt : x.rcopyHalt = none)
    {serverS : Addr} {r : Rcopy} (hrcopy : x.rcopy = .recvDataLoop serverS r) :
    Follows req file 0 x ⟨t, t.toServer.length, t.toRcopy.length⟩ ∧ t.rcopy.pc ≠ .start ∧
      t.rcopy.pc ≠ .finished := by
  have hreceiving : x.rcopy = .receiving (.child 0) t.rcopy ∧ t.rcopy.pc ≠ .start := by
    have hmirrors := h.rcopy
    generalize hr : t.rcopy = r' at hmirrors
    generalize hp : x.rcopy = p at hmirrors
    cases hmirrors with
    | shaking hshaking =>
        rw [← hp, hrcopy] at hshaking
        cases hshaking
    | receiving hpc => exact ⟨rfl, hpc⟩
  refine ⟨⟨hreceiving.1, fun _ => hhalt, ?_, ?_, ?_⟩, hreceiving.2, ?_⟩
  · rw [h.child]
    rfl
  · rintro d ⟨i, hi, hd⟩
    exact absurd (List.getElem?_eq_some_iff.mp hd).1 (Nat.not_lt_of_le hi)
  · rintro d ⟨i, hi, hd⟩
    exact absurd (List.getElem?_eq_some_iff.mp hd).1 (Nat.not_lt_of_le hi)
  · intro hfinished
    rw [hrcopy, RcopyProcess.receiving, hfinished] at hreceiving
    cases hreceiving.1

/-- From every reachable state in which the only child and rcopy are in the
transfer, and the child is not in its last second, the session can be completed. -/
theorem session_completes_transfer (hserved : req.Served fs file) (h : Reachable fs req x)
    {client serverS : Addr} {bufSize : UInt16} {s : Server} {r : Rcopy}
    (hchild : x.children = [⟨.transferData client bufSize s, none, file⟩])
    (hpatient : Ordered.Patient s.pc) (hhalt : x.rcopyHalt = none)
    (hrcopy : x.rcopy = .recvDataLoop serverS r) : ∃ x', Reaches (step fs req) x x' ∧
      x'.rcopyHalt = none ∧ x'.rcopy = .closed ∧ x'.output = file ∧
      x'.children[0]? = some ⟨.closed, none, file⟩ := by
  cases phase_of_reachable hserved h (by rw [hchild]; exact Nat.le_refl 1) with
  | handshake hshaking =>
      have hshakes := hshaking.rcopy
      rw [hrcopy] at hshakes
      cases hshakes
  | @transfer t hreach hprojects =>
      obtain ⟨hfollows, hstarted, hunfinished⟩ := hprojects.follows hhalt hrcopy
      obtain ⟨lo, n, b, hjoint⟩ := joint_reachable hserved.params hreach
      obtain ⟨hserver, hserverHalt⟩ : t.server = s ∧ t.serverHalt = none := by
        have hsame := hprojects.child.symm.trans hchild
        simp only [List.cons.injEq, SessionChild.mk.injEq, and_true] at hsame
        obtain ⟨hprocess, hnone⟩ := hsame
        by_cases hpc : t.server.pc = .returned
        · rw [ServerProcess.transferring, hpc] at hprocess
          cases hprocess
        · rw [transferring_of_ne _ _ hpc] at hprocess
          cases hprocess
          exact ⟨rfl, hnone⟩
      have hlive : Ordered.Live req.winSize.toNat req.bufSize file
          ⟨t, t.toServer.length, t.toRcopy.length⟩ lo n b :=
        ⟨hjoint, hserverHalt, hprojects.rcopyHalt hhalt, hstarted, hunfinished, Nat.le_refl _,
          Nat.le_refl _⟩
      refine hfollows.finishes hserved h hlive ?_
      rw [hserver]
      exact hpatient

def inTransfer : RcopyProcess → Bool
  | .recvDataLoop _ _ => true
  | _ => false

/-- The child has sent the first data packet, which rcopy has not received. -/
theorem session_completes_transfer_begun : ∃ x x', Reachable onlyA requestA x ∧
    x.output = [] ∧ Reaches (step onlyA requestA) x x' ∧ x'.rcopy = .closed ∧
      x'.output = [65] := by
  have hrun : (run (step onlyA requestA) (start requestA)
      [.fork (.recv 0) 0, .rcopy (.recv 1), .child 0 (.recv 2), .rcopy (.recv 3)]).map
        (fun x => decide (x.output = [] ∧ x.rcopyHalt = none ∧ inTransfer x.rcopy = true ∧
          x.children.map SessionChild.halt = [none] ∧ x.children.map SessionChild.file = [[65]] ∧
          (x.children.map fun c => c.process.place) = [some (.rcopy, 10, .checkForRRs)])) =
      some true := by
    decide +kernel
  obtain ⟨x, hx, hview⟩ := Option.map_eq_some_iff.mp hrun
  obtain ⟨houtput, hhalt, hrcopy, hhalts, hfiles, hplaces⟩ := of_decide_eq_true hview
  obtain ⟨⟨process, halt, file'⟩, rest, hc, rfl, hrest⟩ := List.map_eq_cons_iff.mp hhalts
  rw [List.map_eq_nil_iff] at hrest
  rw [hrest] at hc
  rw [hc] at hfiles hplaces
  obtain ⟨rfl⟩ := List.singleton_inj.mp hfiles
  have hplace := List.singleton_inj.mp hplaces
  cases process with
  | transferData client bufSize s =>
      simp only [ServerProcess.place, Option.some.injEq, Prod.mk.injEq] at hplace
      obtain ⟨rfl, rfl, hpc⟩ := hplace
      cases hr : x.rcopy with
      | recvDataLoop serverS r =>
          obtain ⟨x', hreaches, _, hclosed, hwhole, _⟩ := session_completes_transfer served_onlyA
            ⟨_, hx⟩ hc (by rw [hpc]; trivial) hhalt hr
          exact ⟨x, x', ⟨_, hx⟩, houtput, hreaches, hclosed, hwhole⟩
      | getInitialResp | ackInitialResp | closed =>
          rw [hr] at hrcopy
          cases hrcopy
  | setupResponse | closed => cases hplace

end Session
end SelRej
