import SelRej.SessionSteps

/-!
# Safety of a session

Whatever the network does, and however many children serve the request, rcopy's
output is at every moment made of the first packets of the file that it asked
for, and it is the whole file when rcopy has returned, or when a child has.
-/
namespace SelRej.Session
open ReorderBuffer Chunks PartialRun

variable {fs : List UInt8 → Option (List UInt8)} {req : Request} {file bytes : List UInt8}
  {x x' : Session} {b : ReorderBuffer PduS} {a : Delivery} {flag : UInt8} {j : ℕ}

/-- The state of the whole session: `b` is rcopy's window, in which the packets
before `b.next` have been written. -/
structure Consistent (req : Request) (file : List UInt8) (x : Session)
    (b : ReorderBuffer PduS) : Prop where
  receives : Receives req file x.rcopy b
  written : x.written = sentPackets file req.bufSize b.next
  serving : ∀ c ∈ x.children, Serving req file b.next c.process c.file
  carried : ∀ d ∈ x.network, Carried req file b.next d.bytes

theorem Consistent.brings (h : Consistent req file x b) {dst : Addr} {recvLen : ℕ} {recv : Recv}
    (hrecv : a.receive x.network dst recvLen = some recv) :
    Brings req file b.next recvLen recv := by
  cases recv with
  | none => trivial
  | some received =>
      obtain ⟨src, bytes⟩ := received
      obtain ⟨d, hd, _, _, hbytes⟩ := mem_of_receive hrecv
      rcases hbytes with rfl | hreject
      · exact .inl (h.carried d hd)
      · exact .inr hreject

theorem carried_append {network : List Datagram} {f : ℕ} {src : Addr} {out : List Effect}
    (h : ∀ d ∈ network, Carried req file f d.bytes) (hout : Sends req file f out) :
    ∀ d ∈ network ++ posted src out, Carried req file f d.bytes := by
  intro d hd
  rcases List.mem_append.mp hd with hd | hd
  · exact h d hd
  · exact hout d.dst d.bytes (mem_posted_iff.mp hd).2

theorem Consistent.rcopy_step (h : Consistent req file x b)
    (hp : Params req.winSize.toNat req.bufSize file)
    (hstep : x.step fs req (.rcopy a) = some x') :
    ∃ b', Consistent req file x' b' ∧ b.next ≤ b'.next := by
  obtain ⟨_, _, recv, rfl, hrecv⟩ := step_rcopy hstep
  have hmoves := h.receives.step_moves hp (h.brings hrecv)
  unfold rcopyStep
  generalize x.rcopy.step req recv = p at hmoves
  cases hmoves with
  | stops e =>
      refine ⟨b, ⟨h.receives, ?_, h.serving, carried_append h.carried sends_nil⟩, Nat.le_refl _⟩
      exact (List.append_nil _).trans h.written
  | @moves out p' b' hreceives hle hwritten hsends =>
      refine ⟨b', ⟨hreceives, ?_, fun c hc => (h.serving c hc).mono hle, ?_⟩, hle⟩
      · exact (congrArg (· ++ stored out) h.written).trans hwritten
      · exact carried_append (fun d hd => (h.carried d hd).mono hle hreceives.next_le) hsends

theorem Consistent.fork_step (h : Consistent req file x b) (hserved : req.Served fs file)
    (hstep : x.step fs req (.fork a flag) = some x') : Consistent req file x' b := by
  obtain ⟨src, bytes, rfl, hrecv⟩ := step_fork hstep
  obtain ⟨hends, hsends⟩ := start_goes hserved src flag (h.brings hrecv) rfl rfl
  unfold fork
  dsimp only
  generalize ServerProcess.start (fun infile => (fs infile).isSome) src (bytes.take MAXBUF) flag
    (requestedFile fs (bytes.take MAXBUF)) = p at hends hsends
  obtain ⟨out, result⟩ := p
  cases result with
  | ok process =>
      refine ⟨h.receives, h.written, ?_, carried_append h.carried hsends⟩
      intro c hc
      rcases List.mem_append.mp hc with hc | hc
      · exact h.serving c hc
      · rw [List.mem_singleton.mp hc]
        exact hends process rfl
  | error e =>
      refine ⟨h.receives, h.written, ?_, carried_append h.carried hsends⟩
      intro c hc
      rcases List.mem_append.mp hc with hc | hc
      · exact h.serving c hc
      · rw [List.mem_singleton.mp hc]
        exact .closed _

theorem Consistent.child_goes (h : Consistent req file x b)
    (hp : Params req.winSize.toNat req.bufSize file) {c : SessionChild} {recv : Recv}
    (hc : x.children[j]? = some c)
    (hrecv : a.receive x.network (.child j) c.process.recvLen = some recv) :
    ChildGoes req file b.next c.process c.file (c.process.step c.file recv) :=
  (h.serving c (List.mem_of_getElem? hc)).step_goes hp h.receives.next_le (h.brings hrecv)

theorem Consistent.child_step (h : Consistent req file x b)
    (hp : Params req.winSize.toNat req.bufSize file)
    (hstep : x.step fs req (.child j a) = some x') : Consistent req file x' b := by
  obtain ⟨c, hc, _, _, recv, rfl, hrecv⟩ := step_child hstep
  obtain ⟨hends, _, hsends⟩ := h.child_goes hp hc hrecv
  have hserving := h.serving c (List.mem_of_getElem? hc)
  unfold childStep
  generalize c.process.step c.file recv = p at hends hsends
  obtain ⟨out, result⟩ := p
  cases result with
  | ok process =>
      refine ⟨h.receives, h.written, ?_, carried_append h.carried hsends⟩
      intro c' hc'
      rcases List.mem_or_eq_of_mem_set hc' with hc' | rfl
      · exact h.serving c' hc'
      · exact hends process rfl
  | error e =>
      refine ⟨h.receives, h.written, ?_, carried_append h.carried hsends⟩
      intro c' hc'
      rcases List.mem_or_eq_of_mem_set hc' with hc' | rfl
      · exact h.serving c' hc'
      · exact hserving

theorem Consistent.step (h : Consistent req file x b) (hserved : req.Served fs file)
    {e : SessionEvent} (hstep : x.step fs req e = some x') :
    ∃ b', Consistent req file x' b' ∧ b.next ≤ b'.next := by
  cases e with
  | rcopy a => exact h.rcopy_step hserved.params hstep
  | fork a flag => exact ⟨b, h.fork_step hserved hstep, Nat.le_refl _⟩
  | child j a => exact ⟨b, h.child_step hserved.params hstep, Nat.le_refl _⟩

theorem consistent_start (req : Request) (file : List UInt8) :
    ∃ b, Consistent req file (start req) b := by
  have hinit : RcopyMoves req file ReorderBuffer.empty (RcopyProcess.start req) :=
    moves_getInitialResp (getInitialRespSend_asks req (Nat.zero_lt_succ 9) unanswered_nil _)
  unfold start
  generalize RcopyProcess.start req = p at hinit
  cases hinit with
  | stops e =>
      refine ⟨_, .getInitialResp .server 0 [], rfl, (fun c hc => by cases hc), ?_⟩
      intro d hd
      cases hd
  | moves hreceives hle hwritten hsends =>
      refine ⟨_, hreceives, hwritten, (fun c hc => by cases hc), ?_⟩
      intro d hd
      exact hsends d.dst d.bytes (mem_posted_iff.mp hd).2

theorem consistent_of_reachable (hserved : req.Served fs file) (h : Reachable fs req x) :
    ∃ b, Consistent req file x b := by
  obtain ⟨events, hrun⟩ := h
  refine run_induct (P := fun x => ∃ b, Consistent req file x b) ?_ (consistent_start req file) hrun
  intro x e x' hx hstep
  obtain ⟨b, hb⟩ := hx
  obtain ⟨b', hb', _⟩ := hb.step hserved hstep
  exact ⟨b', hb'⟩

/-- When rcopy has returned, it has written the file. -/
theorem Consistent.output_of_closed {b : ReorderBuffer PduS} (h : Consistent req file x b)
    (hserved : req.Served fs file) (hclosed : x.rcopy = .closed) : x.output = file := by
  have hreceives := h.receives
  rw [hclosed] at hreceives
  cases hreceives with
  | closed hall => rw [output, h.written, hall, Transfer.flatMap_packets hserved.params]

/-- In every reachable state, rcopy has written the first packets of the file, each
of them once and in order. When it has returned, it has written the file. -/
theorem session_writes_prefix (hserved : req.Served fs file) (h : Reachable fs req x) :
    ∃ f, f ≤ packets file req.bufSize ∧
      x.written.map (fun packet => packet.seqNum.toNat) = List.range f ∧
      x.written.map PduS.payload = (List.range f).map (chunk file req.bufSize.toNat) ∧
      x.output = file.take (f * req.bufSize.toNat) ∧ (x.rcopy = .closed → x.output = file) := by
  obtain ⟨b, hb⟩ := consistent_of_reachable hserved h
  have hle := hb.receives.next_le
  refine ⟨b.next, hle, ?_, ?_, ?_, ?_⟩
  · rw [hb.written]
    exact Transfer.numbers_sentPackets hserved.params hle
  · rw [hb.written]
    exact Transfer.payloads_sentPackets b.next
  · rw [output, hb.written, Transfer.flatMap_sentPackets]
  · exact hb.output_of_closed hserved

/-- The contents of the only file that can be opened, which is named "a". -/
def onlyA (infile : List UInt8) : Option (List UInt8) :=
  if infile = [97] then some [65] else none

theorem served_onlyA : requestA.Served onlyA [65] :=
  ⟨by decide, by decide, by decide, by decide, by decide, by decide, by decide⟩

/-- A session in which two children serve the request: the data that rcopy writes
comes from the first one, and the EOF from the second. -/
def twoChildren : List SessionEvent :=
  [.fork (.recv 0) 0, .fork (.recv 0) 0, .rcopy (.recv 1), .rcopy (.recv 2), .child 0 (.recv 3),
    .child 1 (.recv 4), .rcopy (.recv 5), .rcopy (.recv 6), .rcopy (.recv 8), .child 1 (.recv 10),
    .child 1 .timeout, .rcopy (.recv 11)]

theorem session_writes_prefix_twoChildren : ∃ x, Reachable onlyA requestA x ∧ x.rcopy = .closed ∧
    x.children.length = 2 ∧ x.output = [65] := by
  have hrun : (run (step onlyA requestA) (start requestA) twoChildren).map
      (fun x => (x.rcopy.running, x.children.length)) = some (false, 2) := by
    decide +kernel
  obtain ⟨x, hx, hview⟩ := Option.map_eq_some_iff.mp hrun
  obtain ⟨hrunning, hlength⟩ := Prod.mk.inj hview
  have hclosed := RcopyProcess.closed_of_not_running hrunning
  obtain ⟨f, _, _, _, _, hwhole⟩ := session_writes_prefix served_onlyA ⟨_, hx⟩
  exact ⟨x, ⟨_, hx⟩, hclosed, hlength, hwhole hclosed⟩

/-- Child `j` is in the transfer, or rcopy has written all packets. -/
def Pending (file : List UInt8) (req : Request) (j : ℕ) (x : Session) : Prop :=
  ∃ b, Consistent req file x b ∧ (b.next = packets file req.bufSize ∨
    ∃ c, x.children[j]? = some c ∧ c.process.transfers = true)

theorem children_step {e : SessionEvent} (hstep : x.step fs req e = some x') {c : SessionChild}
    (hc : x.children[j]? = some c) (he : ∀ a, e ≠ .child j a) : x'.children[j]? = some c := by
  have hj : j < x.children.length := (List.getElem?_eq_some_iff.mp hc).1
  cases e with
  | rcopy a =>
      obtain ⟨_, _, recv, rfl, _⟩ := step_rcopy hstep
      unfold rcopyStep
      split <;> exact hc
  | fork a flag =>
      obtain ⟨src, bytes, rfl, _⟩ := step_fork hstep
      unfold fork
      dsimp only
      split <;> exact (List.getElem?_append_left hj).trans hc
  | child k a =>
      obtain ⟨c', hc', _, _, recv, rfl, _⟩ := step_child hstep
      have hne : k ≠ j := by
        rintro rfl
        exact he a rfl
      unfold childStep
      split <;> exact (List.getElem?_set_ne hne).trans hc

/-- A child that is in the transfer goes on with it, until rcopy has written
all packets. -/
theorem Pending.step (h : Pending file req j x) (hserved : req.Served fs file) {e : SessionEvent}
    (hstep : x.step fs req e = some x') : Pending file req j x' := by
  obtain ⟨b, hb, hpending⟩ := h
  obtain ⟨b', hb', hle⟩ := hb.step hserved hstep
  have hnext := hb'.receives.next_le
  refine ⟨b', hb', ?_⟩
  rcases hpending with hall | ⟨c, hc, htransfers⟩
  · exact .inl (by omega)
  by_cases he : ∃ a, e = .child j a
  · obtain ⟨a, rfl⟩ := he
    obtain ⟨c', hc', _, _, recv, rfl, hrecv⟩ := step_child hstep
    rw [hc] at hc'
    cases hc'
    have hcompletes := (hb.child_goes hserved.params hc hrecv).completes htransfers
    have hj : j < x.children.length := (List.getElem?_eq_some_iff.mp hc).1
    unfold childStep
    generalize c.process.step c.file recv = p at hcompletes
    obtain ⟨out, result⟩ := p
    cases result with
    | ok process =>
        rcases hcompletes process rfl with hon | hall
        · exact .inr ⟨_, List.getElem?_set_self hj, hon⟩
        · exact .inl (by omega)
    | error e => exact .inr ⟨_, List.getElem?_set_self hj, htransfers⟩
  · exact .inr ⟨c, children_step hstep hc fun a ha => he ⟨a, ha⟩, htransfers⟩

/-- When a child returns from the transfer, rcopy's output is the file. -/
theorem output_of_child_returned (hserved : req.Served fs file) (h : Reachable fs req x)
    {c c' : SessionChild} (hc : x.children[j]? = some c) (htransfers : c.process.transfers = true)
    (hrun : Reaches (step fs req) x x') (hc' : x'.children[j]? = some c')
    (hclosed : c'.process = .closed) : x'.output = file := by
  obtain ⟨b, hb⟩ := consistent_of_reachable hserved h
  obtain ⟨events, hrun⟩ := hrun
  obtain ⟨b', hb', hall | ⟨c'', hc'', hon⟩⟩ := run_induct (P := Pending file req j)
    (fun x e x' hx hstep => hx.step hserved hstep) ⟨b, hb, .inr ⟨c, hc, htransfers⟩⟩ hrun
  · rw [output, hb'.written, hall, Transfer.flatMap_packets hserved.params]
  · rw [hc'] at hc''
    cases hc''
    rw [hclosed] at hon
    cases hon

/-- In the session above the second child returns when the ACKEOF reaches it. -/
theorem output_of_secondChild_returned : ∃ x, Reachable onlyA requestA x ∧
    (x.children.map fun c => c.process.running) = [true, false] ∧ x.output = [65] := by
  have hrun : ((run (step onlyA requestA) (start requestA) (twoChildren.take 6)).map fun x =>
      ((x.children[1]?).map fun c => c.process.transfers,
        (run (step onlyA requestA) x (twoChildren.drop 6 ++ [.child 1 (.recv 12)])).map fun x' =>
          x'.children.map fun c => c.process.running)) =
        some (some true, some [true, false]) := by
    decide +kernel
  obtain ⟨x, hx, hview⟩ := Option.map_eq_some_iff.mp hrun
  obtain ⟨hchild, hrest⟩ := Prod.mk.inj hview
  obtain ⟨c, hc, htransfers⟩ := Option.map_eq_some_iff.mp hchild
  obtain ⟨x', hx', hrunning⟩ := Option.map_eq_some_iff.mp hrest
  have hsecond : (x'.children[1]?).map (fun c => c.process.running) = some false := by
    rw [← List.getElem?_map, hrunning]
    rfl
  obtain ⟨c', hc', hstopped⟩ := Option.map_eq_some_iff.mp hsecond
  refine ⟨x', ⟨_, run_append hx hx'⟩, hrunning, ?_⟩
  exact output_of_child_returned served_onlyA ⟨_, hx⟩ hc htransfers ⟨_, hx'⟩ hc'
    (ServerProcess.closed_of_not_running hstopped)

end SelRej.Session
