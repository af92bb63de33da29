import SelRej.SessionSafety
import SelRej.TransferProgress

/-!
# A session can always be begun anew

The INITIAL PDU stays on the network. As long as rcopy is in its handshake, it can
be delivered once more; the child forked for it answers, and rcopy turns to this
child, whatever has become of the others. From then on the two are a `Transfer`,
which can be completed.
-/
namespace SelRej.Session
open ReorderBuffer Chunks PartialRun

variable {fs : List UInt8 → Option (List UInt8)} {req : Request} {file bytes d : List UInt8}
  {x x' : Session} {o o' : Ordered} {src : Addr} {c : SessionChild} {j : ℕ}

theorem Reachable.trans (h : Reachable fs req x) (h' : Reaches (Session.step fs req) x x') :
    Reachable fs req x' :=
  Reaches.trans h h'

theorem receive_of_mem {network : List Datagram} {dst : Addr}
    (h : ⟨src, dst, bytes⟩ ∈ network) (recvLen : ℕ) :
    ∃ a : Delivery, a.receive network dst recvLen = some (some (src, bytes)) := by
  obtain ⟨i, hi⟩ := List.mem_iff_getElem?.mp h
  refine ⟨.recv i, ?_⟩
  simp only [Delivery.receive, hi, if_true]

theorem reaches_rcopy (hhalt : x.rcopyHalt = none) (hruns : x.rcopy.running = true)
    (hd : ⟨src, .rcopy, d⟩ ∈ x.network) :
    Reaches (step fs req) x (x.rcopyStep req (some (src, d))) := by
  obtain ⟨a, ha⟩ := receive_of_mem hd (x.rcopy.recvLen req)
  refine Reaches.single (l := .rcopy a) ?_
  rw [step, if_pos ⟨hhalt, hruns⟩, ha, Option.map_some]

theorem reaches_fork (hd : ⟨src, .server, d⟩ ∈ x.network) (flag : UInt8) :
    Reaches (step fs req) x (x.fork fs src (d.take MAXBUF) flag) := by
  obtain ⟨a, ha⟩ := receive_of_mem hd MAXBUF
  refine Reaches.single (l := .fork a flag) ?_
  rw [step, ha]

theorem reaches_child (hc : x.children[j]? = some c) (hhalt : c.halt = none)
    (hruns : c.process.running = true) (hd : ⟨src, .child j, d⟩ ∈ x.network) :
    Reaches (step fs req) x (x.childStep j c (some (src, d))) := by
  obtain ⟨a, ha⟩ := receive_of_mem hd c.process.recvLen
  refine Reaches.single (l := .child j a) ?_
  simp only [step, hc, if_pos (And.intro hhalt hruns), ha, Option.map_some]

theorem reaches_timeout (hc : x.children[j]? = some c) (hhalt : c.halt = none)
    (hruns : c.process.running = true) :
    Reaches (step fs req) x (x.childStep j c none) := by
  refine Reaches.single (l := .child j .timeout) ?_
  simp only [step, hc, if_pos (And.intro hhalt hruns), Delivery.receive, Option.map_some]

theorem rcopy_recv (fs : List UInt8 → Option (List UInt8)) (hhalt : x.rcopyHalt = none) (hruns : x.rcopy.running = true)
    (hd : ⟨src, .rcopy, d⟩ ∈ x.network) {out : List Effect} {p : RcopyProcess}
    (h : x.rcopy.step req (some (src, d)) = ⟨out, .ok p⟩) : ∃ x', Reaches (step fs req) x x' ∧
      x'.rcopy = p ∧ x'.rcopyHalt = none ∧ x'.children = x.children ∧
      x'.network = x.network ++ posted .rcopy out := by
  refine ⟨_, reaches_rcopy hhalt hruns hd, ?_⟩
  unfold rcopyStep
  rw [h]
  exact ⟨rfl, hhalt, rfl, rfl⟩

theorem child_recv (fs : List UInt8 → Option (List UInt8)) (req : Request)
    (hc : x.children[j]? = some c) (hhalt : c.halt = none)
    (hruns : c.process.running = true) (hd : ⟨src, .child j, d⟩ ∈ x.network) {out : List Effect}
    {p : ServerProcess} (h : c.process.step c.file (some (src, d)) = ⟨out, .ok p⟩) : ∃ x',
    Reaches (step fs req) x x' ∧ x'.rcopy = x.rcopy ∧ x'.rcopyHalt = x.rcopyHalt ∧
      x'.children[j]? = some { c with process := p } ∧
      x'.network = x.network ++ posted (.child j) out := by
  refine ⟨_, reaches_child hc hhalt hruns hd, ?_⟩
  unfold childStep
  rw [h]
  exact ⟨rfl, rfl, List.getElem?_set_self (List.getElem?_eq_some_iff.mp hc).1, rfl⟩

/-- rcopy and child `j` are a transfer; what it may still deliver is on the network. -/
structure Follows (req : Request) (file : List UInt8) (j : ℕ) (x : Session) (o : Ordered) :
    Prop where
  rcopy : x.rcopy = RcopyProcess.receiving (.child j) o.transfer.rcopy
  rcopyHalt : o.transfer.rcopyHalt = none → x.rcopyHalt = none
  child : x.children[j]? = some ⟨ServerProcess.transferring .rcopy req.bufSize o.transfer.server,
    o.transfer.serverHalt, file⟩
  toServer : ∀ d, o.ToServer d → ⟨.rcopy, .child j, d⟩ ∈ x.network
  toRcopy : ∀ d, o.ToRcopy d → ⟨.child j, .rcopy, d⟩ ∈ x.network

/-- A datagram at or behind `next` was sent just now, or before. -/
theorem getElem_append_cases {channel out : List (List UInt8)} {next i : ℕ} (hi : next ≤ i)
    (h : (channel ++ out)[i]? = some d) : (∃ i, next ≤ i ∧ channel[i]? = some d) ∨ d ∈ out := by
  by_cases hlt : i < channel.length
  · rw [List.getElem?_append_left hlt] at h
    exact .inl ⟨i, hi, h⟩
  · rw [List.getElem?_append_right (by omega)] at h
    exact .inr (List.mem_of_getElem? h)

theorem mem_posted_map (src dst : Addr) {out : List (List UInt8)} (h : d ∈ out) :
    (⟨src, dst, d⟩ : Datagram) ∈ posted src (out.map (Effect.sendto dst)) :=
  mem_posted_iff.mpr ⟨rfl, List.mem_map.mpr ⟨d, h, rfl⟩⟩

theorem mem_posted_actions {out : List Action} {dst : Addr} (h : d ∈ datagrams out) :
    (⟨src, dst, d⟩ : Datagram) ∈ posted src (out.map (actionEffect dst)) := by
  obtain ⟨a, ha, heq⟩ := List.mem_filterMap.mp h
  refine mem_posted_iff.mpr ⟨rfl, List.mem_map.mpr ⟨a, ha, ?_⟩⟩
  cases a with
  | sendto pduBuf =>
      cases heq
      rfl
  | fwrite packet => cases heq

/-- Whatever arrives, the child of the session does what the child of the transfer does. -/
theorem Follows.child_step (h : Follows req file j x o) (hhalt : o.transfer.serverHalt = none)
    (hne : o.transfer.server.pc ≠ .returned) {recv : Recv} {poll : Poll}
    (hrecv : (ServerProcess.transferData .rcopy req.bufSize o.transfer.server).step file recv = (do
      let s ← (o.transfer.server.step req.bufSize poll).mapOut (Effect.sendto .rcopy)
      return ServerProcess.transferring .rcopy req.bufSize s))
    {next : ℕ} (hnext : o.nextServer ≤ next) :
    Follows req file j
      (x.childStep j ⟨.transferData .rcopy req.bufSize o.transfer.server, none, file⟩ recv)
      { o with transfer := o.transfer.serverStep req.bufSize poll, nextServer := next } := by
  have hchild := h.child
  rw [hhalt, transferring_of_ne _ _ hne] at hchild
  have hj : j < x.children.length := (List.getElem?_eq_some_iff.mp hchild).1
  have hold : ∀ d sent, (∃ i, next ≤ i ∧ o.transfer.toServer[i]? = some d) →
      (⟨.rcopy, .child j, d⟩ : Datagram) ∈ x.network ++ sent := by
    rintro d sent ⟨i, hi, hd⟩
    exact List.mem_append_left _ (h.toServer d ⟨i, Nat.le_trans hnext hi, hd⟩)
  have hnew : ∀ d out, (∃ i, o.nextRcopy ≤ i ∧ (o.transfer.toRcopy ++ out)[i]? = some d) →
      (⟨.child j, .rcopy, d⟩ : Datagram) ∈ x.network ++
        posted (.child j) (out.map (Effect.sendto .rcopy)) := by
    rintro d out ⟨i, hi, hd⟩
    rcases getElem_append_cases hi hd with hd | hd
    · exact List.mem_append_left _ (h.toRcopy d hd)
    · exact List.mem_append_right _ (mem_posted_map (.child j) .rcopy hd)
  unfold childStep Transfer.serverStep
  dsimp only
  rw [hrecv]
  generalize o.transfer.server.step req.bufSize poll = p
  obtain ⟨out, result⟩ := p
  cases result with
  | ok s =>
      rw [Emit.mapOut_mk, Emit.bind_ok]
      refine ⟨h.rcopy, h.rcopyHalt, ?_, fun d hd => hold d _ hd, fun d hd => ?_⟩
      · rw [hhalt]
        exact List.getElem?_set_self hj
      · have hd := hnew d out hd
        rwa [← List.append_nil (out.map (Effect.sendto .rcopy))] at hd
  | error e =>
      rw [Emit.mapOut_mk, Emit.bind_error]
      refine ⟨h.rcopy, h.rcopyHalt, ?_, fun d hd => hold d _ hd, fun d hd => hnew d out hd⟩
      rw [transferring_of_ne _ _ hne]
      exact List.getElem?_set_self hj

theorem Follows.rcopy_step (h : Follows req file j x o) (hhalt : o.transfer.rcopyHalt = none)
    (hne : o.transfer.rcopy.pc ≠ .finished) {next : ℕ} (hnext : o.nextRcopy ≤ next) :
    Follows req file j (x.rcopyStep req (some (.child j, d)))
      { o with transfer := o.transfer.rcopyStep req.bufSize (.datagram d), nextRcopy := next } := by
  have hrcopy := h.rcopy
  rw [RcopyProcess.receiving_of_waits _ hne] at hrcopy
  have hstep : x.rcopy.step req (some (.child j, d)) = (do
      let r ← (o.transfer.rcopy.step req.bufSize (.datagram d)).mapOut (actionEffect (.child j))
      return RcopyProcess.receiving (.child j) r) := by
    rw [hrcopy]
    rfl
  have hold : ∀ d sent, (∃ i, next ≤ i ∧ o.transfer.toRcopy[i]? = some d) →
      (⟨.child j, .rcopy, d⟩ : Datagram) ∈ x.network ++ sent := by
    rintro d sent ⟨i, hi, hd⟩
    exact List.mem_append_left _ (h.toRcopy d ⟨i, Nat.le_trans hnext hi, hd⟩)
  have hnew : ∀ d out, (∃ i, o.nextServer ≤ i ∧
        (o.transfer.toServer ++ datagrams out)[i]? = some d) →
      (⟨.rcopy, .child j, d⟩ : Datagram) ∈ x.network ++
        posted .rcopy (out.map (actionEffect (.child j))) := by
    rintro d out ⟨i, hi, hd⟩
    rcases getElem_append_cases hi hd with hd | hd
    · exact List.mem_append_left _ (h.toServer d hd)
    · exact List.mem_append_right _ (mem_posted_actions hd)
  unfold rcopyStep Transfer.rcopyStep
  rw [hstep]
  generalize o.transfer.rcopy.step req.bufSize (.datagram d) = p
  obtain ⟨out, result⟩ := p
  cases result with
  | ok r =>
      rw [Emit.mapOut_mk, Emit.bind_ok]
      refine ⟨rfl, fun _ => h.rcopyHalt hhalt, h.child, fun d hd => ?_, fun d hd => hold d _ hd⟩
      have hd := hnew d out hd
      rwa [← List.append_nil (out.map (actionEffect (.child j)))] at hd
  | error e =>
      rw [Emit.mapOut_mk, Emit.bind_error]
      exact ⟨h.rcopy, (fun hnone => by cases hnone), h.child, fun d hd => hnew d out hd,
        fun d hd => hold d _ hd⟩

theorem Follows.child_returned (h : Follows req file j x o) (hpc : o.transfer.server.pc = .returned)
    (poll : Poll) {next : ℕ} (hnext : o.nextServer ≤ next) : Follows req file j x
      { o with transfer := o.transfer.serverStep req.bufSize poll, nextServer := next } := by
  rw [Transfer.serverStep_eq (Server.step_returned hpc poll)]
  refine ⟨h.rcopy, h.rcopyHalt, h.child, ?_, ?_⟩
  · rintro d ⟨i, hi, hd⟩
    exact h.toServer d ⟨i, Nat.le_trans hnext hi, hd⟩
  · rintro d ⟨i, hi, hd⟩
    rw [List.append_nil] at hd
    exact h.toRcopy d ⟨i, hi, hd⟩

theorem step_finished {r : Rcopy} (hpc : r.pc = .finished) (bufSize : UInt16) (d : List UInt8) :
    r.step bufSize (.datagram d) = ⟨[], .ok r⟩ ∨
      ∃ e, r.step bufSize (.datagram d) = ⟨[], .error e⟩ := by
  cases hread : interpPDU (d.take (Rcopy.recvLen bufSize r.pc)) with
  | error e =>
      refine .inr ⟨e, ?_⟩
      unfold Rcopy.step
      dsimp only
      rw [hread, Emit.liftM_eq, Emit.bind_error]
  | ok received =>
      cases received with
      | none => exact .inl (Rcopy.step_rejected hread)
      | some packet => exact .inl ((Rcopy.step_accepted hread).trans (Rcopy.receive_finished hpc packet))

/-- rcopy has returned, and `Transfer` goes on to deliver to it. -/
theorem Follows.rcopy_finished (h : Follows req file j x o)
    (hhalt : o.transfer.rcopyHalt = none) (hpc : o.transfer.rcopy.pc = .finished) {next : ℕ}
    (hnext : o.nextRcopy ≤ next) : Follows req file j x
      { o with transfer := o.transfer.rcopyStep req.bufSize (.datagram d), nextRcopy := next } := by
  have htoRcopy : ∀ d, (∃ i, next ≤ i ∧ o.transfer.toRcopy[i]? = some d) →
      (⟨.child j, .rcopy, d⟩ : Datagram) ∈ x.network := by
    rintro d ⟨i, hi, hd⟩
    exact h.toRcopy d ⟨i, Nat.le_trans hnext hi, hd⟩
  have htoServer : ∀ d, (∃ i, o.nextServer ≤ i ∧
        (o.transfer.toServer ++ datagrams [])[i]? = some d) →
      (⟨.rcopy, .child j, d⟩ : Datagram) ∈ x.network := by
    rintro d ⟨i, hi, hd⟩
    rw [show datagrams [] = [] from rfl, List.append_nil] at hd
    exact h.toServer d ⟨i, hi, hd⟩
  unfold Transfer.rcopyStep
  rcases step_finished hpc req.bufSize d with heq | ⟨e, heq⟩
  · rw [heq]
    exact ⟨h.rcopy, h.rcopyHalt, h.child, htoServer, htoRcopy⟩
  · rw [heq]
    exact ⟨h.rcopy, fun _ => h.rcopyHalt hhalt, h.child, htoServer, htoRcopy⟩

theorem Follows.server_step (h : Follows req file j x o) (hhalt : o.transfer.serverHalt = none)
    {recv : Recv} {poll : Poll} {next : ℕ} (hnext : o.nextServer ≤ next)
    (hreaches : ∀ c, x.children[j]? = some c → c.halt = none → c.process.running = true →
      Reaches (step fs req) x (x.childStep j c recv))
    (hrecv : (ServerProcess.transferData .rcopy req.bufSize o.transfer.server).step file recv = (do
      let s ← (o.transfer.server.step req.bufSize poll).mapOut (Effect.sendto .rcopy)
      return ServerProcess.transferring .rcopy req.bufSize s)) : ∃ x',
    Reaches (step fs req) x x' ∧ Follows req file j x'
      { o with transfer := o.transfer.serverStep req.bufSize poll, nextServer := next } := by
  by_cases hpc : o.transfer.server.pc = .returned
  · exact ⟨x, ⟨[], rfl⟩, h.child_returned hpc poll hnext⟩
  · have hchild := h.child
    rw [hhalt, transferring_of_ne _ _ hpc] at hchild
    exact ⟨_, hreaches _ hchild rfl rfl, h.child_step hhalt hpc hrecv hnext⟩

/-- Every step of the transfer can be taken in the session. -/
theorem Follows.step (h : Follows req file j x o) {e : TransferEvent}
    (hstep : o.step req.bufSize e = some o') : ∃ x',
    Reaches (step fs req) x x' ∧ Follows req file j x' o' := by
  unfold Ordered.step at hstep
  split at hstep
  · obtain ⟨t, ht, rfl⟩ := Option.map_eq_some_iff.mp hstep
    obtain ⟨hhalt, poll, rfl, hpoll⟩ := Transfer.step_server ht
    cases hpoll
    exact h.server_step hhalt (Nat.le_refl _)
      (fun c hc hnone hruns => reaches_timeout hc hnone hruns) rfl
  · rename_i i
    split_ifs at hstep with hnext
    obtain ⟨t, ht, rfl⟩ := Option.map_eq_some_iff.mp hstep
    obtain ⟨hhalt, poll, rfl, hpoll⟩ := Transfer.step_server ht
    obtain ⟨d, hd, rfl⟩ := Option.map_eq_some_iff.mp hpoll
    exact h.server_step hhalt (Nat.le_succ_of_le hnext)
      (fun c hc hnone hruns => reaches_child hc hnone hruns (h.toServer d ⟨i, hnext, hd⟩)) rfl
  · rename_i i
    split_ifs at hstep with hnext
    obtain ⟨t, ht, rfl⟩ := Option.map_eq_some_iff.mp hstep
    obtain ⟨hhalt, poll, rfl, hpoll⟩ := Transfer.step_rcopy ht
    obtain ⟨d, hd, rfl⟩ := Option.map_eq_some_iff.mp hpoll
    by_cases hpc : o.transfer.rcopy.pc = .finished
    · exact ⟨x, ⟨[], rfl⟩, h.rcopy_finished hhalt hpc (Nat.le_succ_of_le hnext)⟩
    · have hruns : x.rcopy.running = true := by
        rw [h.rcopy, RcopyProcess.receiving_of_waits _ hpc]
        rfl
      exact ⟨_, reaches_rcopy (h.rcopyHalt hhalt) hruns (h.toRcopy d ⟨i, hnext, hd⟩),
        h.rcopy_step hhalt hpc (Nat.le_succ_of_le hnext)⟩
  · cases hstep

/-- Every run of the transfer can be taken in the session. -/
theorem Follows.reaches (h : Follows req file j x o)
    (hrun : Reaches (Ordered.step req.bufSize) o o') : ∃ x',
    Reaches (Session.step fs req) x x' ∧ Follows req file j x' o' :=
  hrun.simulate (R := fun o x => Follows req file j x o) (fun _ _ _ _ h hstep => h.step hstep) h

/-- Nothing that has been sent disappears, and rcopy does not come back to life. -/
theorem step_keeps {e : SessionEvent} (h : x.step fs req e = some x') :
    (∀ c ∈ x.network, c ∈ x'.network) ∧ (x'.rcopyHalt = none → x.rcopyHalt = none) := by
  cases e with
  | rcopy a =>
      obtain ⟨hhalt, _, recv, rfl, _⟩ := step_rcopy h
      unfold rcopyStep
      split <;> exact ⟨fun c hc => List.mem_append_left _ hc, fun _ => hhalt⟩
  | fork a flag =>
      obtain ⟨src, bytes, rfl, _⟩ := step_fork h
      unfold fork
      dsimp only
      split <;> exact ⟨fun c hc => List.mem_append_left _ hc, id⟩
  | child k a =>
      obtain ⟨c, _, _, _, recv, rfl, _⟩ := step_child h
      unfold childStep
      split <;> exact ⟨fun c hc => List.mem_append_left _ hc, id⟩

/-- While rcopy runs, the INITIAL PDU is on the network. -/
def Asked (req : Request) (x : Session) : Prop :=
  x.rcopyHalt = none → 6 + req.fromFile.length + 1 ≤ req.bufSize.toNat ∧
    ⟨.rcopy, .server, req.pduBuf⟩ ∈ x.network

theorem asked_start (req : Request) : Asked req (start req) := by
  unfold start
  rcases rcopy_start_cases req with ⟨e, hstart⟩ | ⟨hfits, hstart⟩
  · rw [hstart]
    intro hhalt
    cases hhalt
  · rw [hstart]
    exact fun _ => ⟨hfits, List.mem_singleton_self _⟩

theorem asked_of_reachable (h : Reachable fs req x) : Asked req x := by
  obtain ⟨events, hrun⟩ := h
  refine run_induct (P := Asked req) ?_ (asked_start req) hrun
  intro x e x' hx hstep hhalt
  obtain ⟨hnetwork, hkeeps⟩ := step_keeps hstep
  obtain ⟨hfits, hmem⟩ := hx (hkeeps hhalt)
  exact ⟨hfits, hnetwork _ hmem⟩

theorem fork_request (hserved : req.Served fs file)
    (hfits : 6 + req.fromFile.length + 1 ≤ req.bufSize.toNat)
    (hmem : ⟨.rcopy, .server, req.pduBuf⟩ ∈ x.network) (flag : UInt8) :
    ∃ x', Reaches (step fs req) x x' ∧ x'.rcopy = x.rcopy ∧ x'.rcopyHalt = x.rcopyHalt ∧
      x'.children[x.children.length]? =
        some ⟨.setupResponse .rcopy req.winSize req.bufSize flag, none, file⟩ ∧
      ⟨.child x.children.length, .rcopy, createPdu 0 INITIALRESP_FLAG [1]⟩ ∈ x'.network := by
  refine ⟨_, reaches_fork hmem flag, ?_⟩
  unfold fork
  dsimp only
  rw [requestedFile_request hserved hfits, start_request hserved hfits]
  exact ⟨rfl, rfl, List.getElem?_concat_length,
    List.mem_append_right _ (List.mem_singleton_self _)⟩

/-- rcopy in its handshake, with attempts left for another one. -/
inductive Asking : RcopyProcess → Prop where
  | getInitialResp (serverS : Addr) {count : ℕ} (respBuf : List UInt8) (h : count ≤ 8) :
      Asking (.getInitialResp serverS count respBuf)
  | ackInitialResp (serverS : Addr) {count : ℕ} (respBuf : List UInt8) (h : count ≤ 7) :
      Asking (.ackInitialResp serverS count respBuf)

theorem Asking.running {p : RcopyProcess} (h : Asking p) : p.running = true := by
  cases h with
  | getInitialResp => rfl
  | ackInitialResp => rfl

instance (p : RcopyProcess) : Decidable (Asking p) :=
  match p with
  | .getInitialResp serverS count respBuf =>
      decidable_of_iff (count ≤ 8) ⟨.getInitialResp serverS respBuf, fun h => by cases h; assumption⟩
  | .ackInitialResp serverS count respBuf =>
      decidable_of_iff (count ≤ 7) ⟨.ackInitialResp serverS respBuf, fun h => by cases h; assumption⟩
  | .recvDataLoop _ _ => .isFalse fun h => by cases h
  | .closed => .isFalse fun h => by cases h

theorem getInitialResp_answered (hp : Params req.winSize.toNat req.bufSize file)
    (serverS src : Addr) {count : ℕ} (respBuf : List UInt8) (hcount : count ≤ 8) :
    (RcopyProcess.getInitialResp serverS count respBuf).step req
        (some (src, createPdu 0 INITIALRESP_FLAG [1])) =
      ⟨[.sendto src (createPdu 1 SETUPRESP_FLAG [])], .ok (.ackInitialResp src 0 [])⟩ := by
  have hbuf := hp.buf_pos
  have hswapped := htons_toNat req.bufSize
  have hlen : 7 + [(1 : UInt8)].length ≤
      RcopySetup.recvLen req (.getInitialResp count respBuf) := by
    rw [RcopySetup.recvLen, HEADER_LEN, List.length_singleton]
    omega
  have hread := interpPDU_take_of_le 0 INITIALRESP_FLAG
    (show [(1 : UInt8)].length ≤ 65528 by decide) hlen
  have hfits : ((createPdu 0 INITIALRESP_FLAG [1]).take
      (RcopySetup.recvLen req (.getInitialResp count respBuf))).length ≤
        req.bufSize.toNat + HEADER_LEN := by
    rw [List.length_take, createPdu_length, HEADER_LEN, List.length_singleton]
    omega
  generalize createPdu 0 INITIALRESP_FLAG [1] = resp at hread hfits
  rw [RcopyProcess.step, RcopySetup.step]
  dsimp only
  rw [if_pos hfits, RcopySetup.getInitialRespTest, hread, Emit.liftM_eq, Emit.bind_silent]
  dsimp only [decoded]
  rw [if_neg (not_not.mpr rfl), if_neg (by omega), RcopySetup.initExchangeRest]
  dsimp only
  rw [if_neg (by decide), RcopySetup.ackInitialRespSend]
  generalize createPdu 1 SETUPRESP_FLAG [] = pduBuf
  rfl

theorem ackInitialResp_again (serverS src : Addr) {count : ℕ} (respBuf : List UInt8)
    (hcount : count ≤ 7) : (RcopyProcess.ackInitialResp serverS count respBuf).step req
        (some (src, createPdu 0 INITIALRESP_FLAG [1])) =
      ⟨[.sendto src (createPdu 1 SETUPRESP_FLAG [])],
        .ok (.ackInitialResp src (count + 1) ((createPdu 0 INITIALRESP_FLAG [1]).take MAXBUF))⟩ := by
  have hread := interpPDU_take_of_le 0 INITIALRESP_FLAG
    (show [(1 : UInt8)].length ≤ 65528 by decide) (show 7 + [(1 : UInt8)].length ≤ MAXBUF by decide)
  generalize createPdu 0 INITIALRESP_FLAG [1] = resp at hread
  rw [RcopyProcess.step, RcopySetup.step]
  dsimp only [RcopySetup.recvLen]
  rw [RcopySetup.ackInitialRespTest, hread, Emit.liftM_eq, Emit.bind_silent]
  dsimp only [decoded]
  rw [if_pos (by decide), if_pos (by omega), RcopySetup.ackInitialRespSend]
  generalize createPdu 1 SETUPRESP_FLAG [] = pduBuf
  rfl

theorem Asking.turns {p : RcopyProcess} (h : Asking p)
    (hp : Params req.winSize.toNat req.bufSize file) (src : Addr) : ∃ count respBuf, count ≤ 8 ∧
      p.step req (some (src, createPdu 0 INITIALRESP_FLAG [1])) =
        ⟨[.sendto src (createPdu 1 SETUPRESP_FLAG [])], .ok (.ackInitialResp src count respBuf)⟩ := by
  cases h with
  | getInitialResp serverS respBuf hcount =>
      exact ⟨0, [], Nat.zero_le 8, getInitialResp_answered hp serverS src respBuf hcount⟩
  | @ackInitialResp serverS count respBuf hcount =>
      exact ⟨count + 1, _, Nat.succ_le_succ hcount, ackInitialResp_again serverS src respBuf hcount⟩

theorem setupResponse_begins (hp : Params req.winSize.toNat req.bufSize file) (client src : Addr)
    (flag : UInt8) : ∃ s,
    (ServerProcess.setupResponse client req.winSize req.bufSize flag).step file
        (some (src, createPdu 1 SETUPRESP_FLAG [])) =
      ⟨[.sendto src (createPdu 1 SETUPRESP_FLAG [1]), .sendto src (dataBytes file req.bufSize 0)],
        .ok (.transferData src req.bufSize s)⟩ ∧
    Server.init req.winSize.toNat req.bufSize file = ⟨[dataBytes file req.bufSize 0], .ok s⟩ ∧
    Serves req.winSize.toNat req.bufSize file s 0 1 ∧ s.pc = .checkForRRs := by
  have hread := interpPDU_take_of_le 1 SETUPRESP_FLAG
    (show ([] : List UInt8).length ≤ 65528 by decide)
    (show 7 + ([] : List UInt8).length ≤ MAXBUF by decide)
  rcases setupResponseTest_cases flag ((createPdu 1 SETUPRESP_FLAG []).take MAXBUF)
      ⟨src, req.winSize, req.bufSize, .setupResponse flag⟩ with
    ⟨e, hread', _⟩ | ⟨hread', _⟩ | ⟨_, htest⟩
  · rw [hread] at hread'
    cases hread'
  · rw [hread] at hread'
    cases hread'
  · exact setupResponse_accepts hp htest

theorem ackInitialResp_begins (hp : Params req.winSize.toNat req.bufSize file) (serverS src : Addr)
    {count : ℕ} (respBuf : List UInt8) (hcount : count ≤ 8) :
    (RcopyProcess.ackInitialResp serverS count respBuf).step req
        (some (src, createPdu 1 SETUPRESP_FLAG [1])) =
      ⟨[], .ok (.recvDataLoop src { Rcopy.init req.winSize.toNat with pc := .recvDataLoop })⟩ := by
  have hread := interpPDU_take_of_le 1 SETUPRESP_FLAG
    (show [(1 : UInt8)].length ≤ 65528 by decide) (show 7 + [(1 : UInt8)].length ≤ MAXBUF by decide)
  generalize createPdu 1 SETUPRESP_FLAG [1] = resp at hread
  rw [RcopyProcess.step, RcopySetup.step]
  dsimp only [RcopySetup.recvLen]
  rw [RcopySetup.ackInitialRespTest, hread, Emit.liftM_eq, Emit.bind_silent]
  dsimp only
  rw [if_neg (not_not.mpr (.inl rfl)), if_neg (by omega), Emit.pure_eq, Emit.mapOut_mk,
    List.map_nil, Emit.bind_silent, rcopy_initialised_eq hp, Rcopy.receive_setup rfl rfl]
  rfl

theorem transfer_begins {w : ℕ} {bufSize : UInt16} {s : Server}
    (hinit : Server.init w bufSize file = ⟨[dataBytes file bufSize 0], .ok s⟩) :
    Transfer.Reachable w bufSize file ⟨s, none, { Rcopy.init w with pc := .recvDataLoop }, none, [],
      [createPdu 1 SETUPRESP_FLAG [1], dataBytes file bufSize 0], [], []⟩ := by
  have hsetup : ∀ d ∈ [createPdu 1 SETUPRESP_FLAG [1]], Transfer.Setup d := by
    intro d hd
    rw [List.mem_singleton.mp hd]
    exact ⟨1, SETUPRESP_FLAG, [1], rfl, .inl rfl⟩
  have hread := interpPDU_take_of_le 1 SETUPRESP_FLAG
    (show [(1 : UInt8)].length ≤ 65528 by decide)
    (show 7 + [(1 : UInt8)].length ≤ Rcopy.recvLen bufSize (Rcopy.init w).pc by
      exact (by decide : 8 ≤ MAXBUF))
  refine ⟨[], [createPdu 1 SETUPRESP_FLAG [1]], [.rcopy (.recv 0)], (fun d hd => by cases hd), hsetup,
    run_cons ?_ rfl⟩
  generalize createPdu 1 SETUPRESP_FLAG [1] = resp at hread
  have hstart : Transfer.start w bufSize file [] [resp] =
      ⟨s, none, Rcopy.init w, none, [], [resp, dataBytes file bufSize 0], [], []⟩ := by
    rw [Transfer.start, hinit]
    rfl
  have hstep := (Rcopy.step_accepted hread).trans (Rcopy.receive_setup rfl rfl)
  rw [hstart, Transfer.step_rcopy_recv (d := resp) rfl rfl, Transfer.rcopyStep_eq hstep]
  rfl

/-- While rcopy is in its handshake, the INITIAL PDU that is still on the network
leads to a transfer with a new child. -/
theorem begins_anew (hserved : req.Served fs file) (h : Reachable fs req x)
    (hhalt : x.rcopyHalt = none) (hasking : Asking x.rcopy) : ∃ x' o lo n b,
    Reaches (step fs req) x x' ∧ Follows req file x.children.length x' o ∧
      Ordered.Live req.winSize.toNat req.bufSize file o lo n b ∧
      Ordered.Patient o.transfer.server.pc := by
  have hp := hserved.params
  obtain ⟨hfits, hmem⟩ := asked_of_reachable h hhalt
  generalize hj : x.children.length = j
  obtain ⟨x₁, hreaches₁, hrcopy₁, hhalt₁, hchild₁, hmem₁⟩ := fork_request hserved hfits hmem 0
  rw [hj] at hchild₁ hmem₁
  rw [hhalt] at hhalt₁
  obtain ⟨count, respBuf, hcount, hturns⟩ := hasking.turns hp (.child j)
  rw [← hrcopy₁] at hturns
  obtain ⟨x₂, hreaches₂, hrcopy₂, hhalt₂, hchildren₂, hnetwork₂⟩ :=
    rcopy_recv fs hhalt₁ (by rw [hrcopy₁]; exact hasking.running) hmem₁ hturns
  obtain ⟨s, hbegins, hinit, hserves, hpc⟩ := setupResponse_begins hp .rcopy .rcopy 0
  obtain ⟨x₃, hreaches₃, hrcopy₃, hhalt₃, hchild₃, hnetwork₃⟩ :=
    child_recv fs req (x := x₂) (j := j) (hchildren₂ ▸ hchild₁) rfl rfl
      (by rw [hnetwork₂]; exact List.mem_append_right _ (List.mem_singleton_self _)) hbegins
  rw [hrcopy₂] at hrcopy₃
  rw [hhalt₂] at hhalt₃
  have hsent : ∀ d ∈ [createPdu 1 SETUPRESP_FLAG [1], dataBytes file req.bufSize 0],
      (⟨.child j, .rcopy, d⟩ : Datagram) ∈ x₃.network := by
    intro d hd
    rw [hnetwork₃]
    exact List.mem_append_right _ (mem_posted_map (.child j) .rcopy hd)
  obtain ⟨x₄, hreaches₄, hrcopy₄, hhalt₄, hchildren₄, hnetwork₄⟩ :=
    rcopy_recv fs hhalt₃ (by rw [hrcopy₃]; rfl) (hsent _ (List.mem_cons_self ..))
      (hrcopy₃ ▸ ackInitialResp_begins hp (.child j) (.child j) respBuf hcount)
  have hreach := transfer_begins hinit
  obtain ⟨lo, n, b, hjoint⟩ := joint_reachable hp hreach
  refine ⟨x₄, ⟨_, 0, 1⟩, lo, n, b,
    ((hreaches₁.trans hreaches₂).trans hreaches₃).trans hreaches₄, ⟨?_, ?_, ?_, ?_, ?_⟩,
    ⟨hjoint, rfl, rfl, by simp, by simp, Nat.le_refl 0, Nat.le_add_left 1 1⟩, ?_⟩
  · rw [hrcopy₄, RcopyProcess.receiving_of_waits _ (by simp)]
  · exact fun _ => hhalt₄
  · rw [hchildren₄, hchild₃, transferring_of_ne _ _ (by rw [hpc]; simp)]
  · rintro d ⟨i, _, hd⟩
    cases hd
  · rintro d ⟨i, _, hd⟩
    rw [hnetwork₄]
    exact List.mem_append_left _ (hsent d (List.mem_of_getElem? hd))
  · rw [hpc]
    trivial

/-- Where the transfer can be completed, so can the session. -/
theorem Follows.finishes (h : Follows req file j x o) (hserved : req.Served fs file)
    (hreach : Reachable fs req x) {lo n : ℕ} {b : ReorderBuffer PduS}
    (hlive : Ordered.Live req.winSize.toNat req.bufSize file o lo n b)
    (hpatient : Ordered.Patient o.transfer.server.pc) : ∃ x', Reaches (Session.step fs req) x x' ∧
      x'.rcopyHalt = none ∧ x'.rcopy = .closed ∧ x'.output = file ∧
      x'.children[j]? = some ⟨.closed, none, file⟩ := by
  obtain ⟨o', hrun, hcomplete⟩ := hlive.finishes hserved.params hpatient
  obtain ⟨x', hreaches, h'⟩ := h.reaches hrun
  have hclosed : x'.rcopy = .closed := by
    rw [h'.rcopy, RcopyProcess.receiving, hcomplete.finished]
  have hchild : x'.children[j]? = some ⟨.closed, none, file⟩ := by
    rw [h'.child, ServerProcess.transferring, hcomplete.returned, hcomplete.serverHalt]
  obtain ⟨b', hb'⟩ := consistent_of_reachable hserved (hreach.trans hreaches)
  exact ⟨x', hreaches, h'.rcopyHalt hcomplete.rcopyHalt, hclosed,
    hb'.output_of_closed hserved hclosed, hchild⟩

/-- From every reachable state in which rcopy is in its handshake, with attempts
left for another child, the session can be completed: rcopy and the new child both
return, and rcopy's output is the file. -/
theorem session_completes (hserved : req.Served fs file) (h : Reachable fs req x)
    (hhalt : x.rcopyHalt = none) (hasking : Asking x.rcopy) : ∃ x',
    Reaches (step fs req) x x' ∧ x'.rcopyHalt = none ∧ x'.rcopy = .closed ∧ x'.output = file ∧
      x'.children[x.children.length]? = some ⟨.closed, none, file⟩ := by
  obtain ⟨x₁, o, lo, n, b, hreaches, hfollows, hlive, hpatient⟩ :=
    begins_anew hserved h hhalt hasking
  obtain ⟨x', hreaches', hcompletes⟩ :=
    hfollows.finishes hserved (h.trans hreaches) hlive hpatient
  exact ⟨x', hreaches.trans hreaches', hcompletes⟩

/-- The first child gives up before rcopy's SETUPRESP reaches it. -/
theorem session_completes_abandoned : ∃ x x', Reachable onlyA requestA x ∧
    (x.children.map fun c => c.process.running) = [false] ∧
      Reaches (step onlyA requestA) x x' ∧ x'.rcopy = .closed ∧ x'.output = [65] := by
  have hrun : (run (step onlyA requestA) (start requestA)
      [.fork (.recv 0) 0, .rcopy (.recv 1), .child 0 .timeout, .rcopy .timeout]).map
        (fun x => (x.rcopyHalt, decide (Asking x.rcopy),
          x.children.map fun c => c.process.running)) = some (none, true, [false]) := by
    decide +kernel
  obtain ⟨x, hx, hview⟩ := Option.map_eq_some_iff.mp hrun
  simp only [Prod.mk.injEq, decide_eq_true_eq] at hview
  obtain ⟨hhalt, hasking, hchildren⟩ := hview
  obtain ⟨x', hreaches, _, hclosed, houtput, _⟩ :=
    session_completes served_onlyA ⟨_, hx⟩ hhalt hasking
  exact ⟨x, x', ⟨_, hx⟩, hchildren, hreaches, hclosed, houtput⟩

end SelRej.Session
