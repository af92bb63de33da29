import Mathlib.Tactic.SplitIfs
import SelRej.PartialRun
import SelRej.PduCodec
import SelRej.Setup

/-!
# Agreement of the two sides in the setup phase

rcopy, the server and all the children that it forks, joined by a network that
loses, duplicates, delays, reorders and corrupts datagrams. A corrupted copy
comes from the same source as the datagram, and its receiver's `interpPDU`
rejects it.

The loop of `setupResponse` goes on while the buffer holds no valid PDU and the
flag of the packet is not `SETUPRESP_FLAG`, so any PDU that is accepted ends it;
and the flag is indeterminate until then, so a rejected datagram can end it too.
`listens` excludes both. Where it holds of every step, a child opens the
transfer only after it has accepted a SETUPRESP, and rcopy is past
`getInitialResp` then.
-/
namespace SelRej
open PartialRun

structure Datagram where
  src : Addr
  dst : Addr
  bytes : List UInt8
  deriving DecidableEq, Repr

/-- A child, how it stopped if it did, and the PDUs that `setupResponse` has
accepted. -/
structure Forked where
  child : ServerChild
  halt : Option Halt
  heard : List PduS

structure Exchange where
  rcopy : RcopySetup
  rcopyHalt : Option Halt
  children : List Forked
  network : List Datagram

/-- What arrives at a socket: nothing in time, datagram `i`, or a corrupted copy
of it. -/
inductive Delivery where
  | timeout
  | recv (i : ℕ)
  | corrupt (i : ℕ) (bytes : List UInt8)
  deriving DecidableEq, Repr

def Delivery.receive (network : List Datagram) (dst : Addr) (recvLen : ℕ) : Delivery → Option Recv
  | .timeout => some none
  | .recv i =>
      match network[i]? with
      | some d => if d.dst = dst then some (some (d.src, d.bytes)) else none
      | none => none
  | .corrupt i bytes =>
      match network[i]? with
      | some d =>
          if d.dst = dst ∧ interpPDU (bytes.take recvLen) = .ok none then some (some (d.src, bytes))
          else none
      | none => none

inductive ExchangeEvent where
  | rcopy (a : Delivery)
  -- `recvDataLoop` sends a datagram
  | rcopyData (bytes : List UInt8)
  -- `waitForClients` receives a datagram and forks a child
  | fork (a : Delivery) (flag : UInt8) (fopen : List UInt8 → Bool)
  | child (j : ℕ) (a : Delivery)
  -- `transferData` sends a datagram
  | childData (j : ℕ) (bytes : List UInt8)

def post (src : Addr) (out : List (Addr × List UInt8)) : List Datagram :=
  out.map fun o => ⟨src, o.1, o.2⟩

/-- The PDU that `setupResponse` accepts. -/
def ServerChild.accepted (c : ServerChild) : Recv → List PduS
  | none => []
  | some (_, bytes) =>
      match c.pc, interpPDU (bytes.take MAXBUF) with
      | .setupResponse _, .ok (some packet) => [packet]
      | _, _ => []

namespace Exchange

def rcopyStep (req : Request) (x : Exchange) (recv : Recv) : Exchange :=
  match x.rcopy.step req recv with
  | ⟨out, .ok rcopy⟩ => { x with rcopy, network := x.network ++ post .rcopy out }
  | ⟨out, .error e⟩ => { x with rcopyHalt := some e, network := x.network ++ post .rcopy out }

def fork (x : Exchange) (client : Addr) (pduBuf : List UInt8) (flag : UInt8)
    (fopen : List UInt8 → Bool) : Exchange :=
  match ServerChild.handleSetup fopen client pduBuf flag with
  | ⟨out, .ok child⟩ => { x with
      children := x.children ++ [⟨child, none, []⟩]
      network := x.network ++ post (.child x.children.length) out }
  | ⟨out, .error e⟩ => { x with
      children := x.children ++ [⟨⟨client, 0, 0, .closed⟩, some e, []⟩]
      network := x.network ++ post (.child x.children.length) out }

def childStep (x : Exchange) (j : ℕ) (f : Forked) (recv : Recv) : Exchange :=
  match f.child.step recv with
  | ⟨out, .ok child⟩ => { x with
      children := x.children.set j ⟨child, none, f.heard ++ f.child.accepted recv⟩
      network := x.network ++ post (.child j) out }
  | ⟨out, .error e⟩ => { x with
      children := x.children.set j { f with halt := some e }
      network := x.network ++ post (.child j) out }

def step (req : Request) (x : Exchange) : ExchangeEvent → Option Exchange
  | .rcopy a =>
      match x.rcopyHalt, a.receive x.network .rcopy (RcopySetup.recvLen req x.rcopy.pc) with
      | none, some recv => some (x.rcopyStep req recv)
      | _, _ => none
  | .rcopyData bytes =>
      match x.rcopyHalt, x.rcopy.pc with
      | none, .recvDataLoop _ =>
          some { x with network := x.network ++ post .rcopy [(x.rcopy.serverS, bytes)] }
      | _, _ => none
  | .fork a flag fopen =>
      match a.receive x.network .server MAXBUF with
      | some (some (src, bytes)) => some (x.fork src (bytes.take MAXBUF) flag fopen)
      | _ => none
  | .child j a =>
      match x.children[j]?, a.receive x.network (.child j) MAXBUF with
      | some f, some recv => if f.halt = none then some (x.childStep j f recv) else none
      | _, _ => none
  | .childData j bytes =>
      match x.children[j]? with
      | some f =>
          if f.child.pc = .transferData then
            some { x with network := x.network ++ post (.child j) [(f.child.client, bytes)] }
          else none
      | none => none

/-- rcopy has sent the INITIAL PDU to the server. -/
def start (req : Request) : Exchange :=
  match RcopySetup.init req with
  | ⟨out, .ok rcopy⟩ => ⟨rcopy, none, [], post .rcopy out⟩
  | ⟨out, .error e⟩ => ⟨⟨.server, .getInitialResp 0 []⟩, some e, [], post .rcopy out⟩

end Exchange

/-- A PDU that `setupResponse` accepts is a SETUPRESP, and the indeterminate flag
is not `SETUPRESP_FLAG` where a datagram is rejected. -/
def ServerChild.listens (c : ServerChild) : Recv → Bool
  | none => true
  | some (_, bytes) =>
      match c.pc, interpPDU (bytes.take MAXBUF) with
      | .setupResponse flag, .ok none => flag ≠ SETUPRESP_FLAG
      | .setupResponse _, .ok (some packet) => packet.flag = SETUPRESP_FLAG
      | _, _ => true

namespace Exchange

def Listens (x : Exchange) : ExchangeEvent → Prop
  | .child j a => ∀ f ∈ x.children[j]?, ∀ recv ∈ a.receive x.network (.child j) MAXBUF,
      f.child.listens recv = true
  | _ => True

instance (x : Exchange) (e : ExchangeEvent) : Decidable (x.Listens e) :=
  match e with
  | .child j a => inferInstanceAs (Decidable (∀ f ∈ x.children[j]?,
      ∀ recv ∈ a.receive x.network (.child j) MAXBUF, f.child.listens recv = true))
  | .rcopy _ | .rcopyData _ | .fork _ _ _ | .childData _ _ => inferInstanceAs (Decidable True)

/-- Every child that has opened the transfer has accepted a SETUPRESP. -/
def Agreed (x : Exchange) : Prop :=
  ∀ f ∈ x.children, f.child.pc = .transferData → ∃ packet ∈ f.heard, packet.flag = SETUPRESP_FLAG

end Exchange

def Waits : RcopySetupPc → Prop
  | .getInitialResp _ _ => True
  | .ackInitialResp _ _ | .recvDataLoop _ => False

inductive RcopyGoes : SetupProc RcopySetup → Prop where
  | stops {e : Halt} : RcopyGoes ⟨[], .error e⟩
  | asks {dst : Addr} {payload : List UInt8} {r' : RcopySetup} :
      RcopyGoes ⟨[(dst, shortPdu (createPdu 0 INITIAL_FLAG payload))], .ok r'⟩
  | past {out : List (Addr × List UInt8)} {r' : RcopySetup} (h : ¬Waits r'.pc) :
      RcopyGoes ⟨out, .ok r'⟩

section
variable {req : Request} {r : RcopySetup} {count : ℕ} {respBuf : List UInt8}

theorem getInitialRespSend_goes (req : Request) (count : ℕ) (respBuf : List UInt8)
    (r : RcopySetup) : RcopyGoes (RcopySetup.getInitialRespSend req count respBuf r) := by
  unfold RcopySetup.getInitialRespSend Request.initialPdu
  split_ifs
  · rw [Emit.liftM_eq, Emit.bind_silent]
    unfold sendtoErr
    split_ifs
    · exact .stops
    · rw [Emit.emit_eq, Emit.bind_ok, Emit.pure_eq, List.append_nil]
      exact .asks
  · rw [Emit.liftM_eq, Emit.bind_error]
    exact .stops

theorem initExchangeRest_goes (packet : PduS) (r : RcopySetup) :
    RcopyGoes (RcopySetup.initExchangeRest packet r) := by
  unfold RcopySetup.initExchangeRest
  split
  · exact .stops
  · split_ifs
    · exact .stops
    · exact .past id

theorem getInitialRespTest_goes (req : Request) (count : ℕ) (respBuf : List UInt8)
    (r : RcopySetup) : RcopyGoes (RcopySetup.getInitialRespTest req count respBuf r) := by
  unfold RcopySetup.getInitialRespTest
  rw [Emit.liftM_eq]
  cases interpPDU respBuf with
  | error e =>
      rw [Emit.bind_error]
      exact .stops
  | ok received =>
      rw [Emit.bind_silent]
      cases received with
      | none =>
          dsimp only
          split_ifs
          · exact getInitialRespSend_goes req count respBuf r
          · exact .stops
      | some packet =>
          dsimp only
          split_ifs
          · exact getInitialRespSend_goes req count respBuf r
          · exact .stops
          · exact .stops
          · exact initExchangeRest_goes packet r

theorem rcopy_step_goes (req : Request) (h : Waits r.pc) (recv : Recv) : RcopyGoes (r.step req recv) := by
  unfold RcopySetup.step
  cases hpc : r.pc with
  | getInitialResp count respBuf =>
      cases recv with
      | none => exact getInitialRespTest_goes req _ _ r
      | some received =>
          dsimp only
          split_ifs
          · exact getInitialRespTest_goes req _ _ _
          · exact .stops
  | ackInitialResp count respBuf =>
      rw [hpc] at h
      exact h.elim
  | recvDataLoop packet =>
      rw [hpc] at h
      exact h.elim

theorem ackInitialRespTest_past (count : ℕ) (respBuf : List UInt8) (r : RcopySetup) :
    (RcopySetup.ackInitialRespTest count respBuf r).Ends fun r' => ¬Waits r'.pc := by
  have hsend : (RcopySetup.ackInitialRespSend count respBuf r).Ends fun r' => ¬Waits r'.pc :=
    Emit.ends_emit (Emit.ends_pure id)
  unfold RcopySetup.ackInitialRespTest
  apply Emit.ends_lift
  intro received _
  cases received with
  | none =>
      dsimp only
      split_ifs
      · exact hsend
      · exact Emit.ends_halt
  | some packet =>
      dsimp only
      split_ifs
      · exact Emit.ends_halt
      · exact Emit.ends_pure id
      · exact hsend
      · exact Emit.ends_halt

theorem rcopy_step_past (req : Request) (h : ¬Waits r.pc) (recv : Recv) :
    (r.step req recv).Ends fun r' => ¬Waits r'.pc := by
  unfold RcopySetup.step
  cases hpc : r.pc with
  | getInitialResp count respBuf =>
      rw [hpc] at h
      exact absurd trivial h
  | ackInitialResp count respBuf =>
      cases recv with
      | none => exact ackInitialRespTest_past _ _ r
      | some received => exact ackInitialRespTest_past _ _ _
  | recvDataLoop packet =>
      cases recv with
      | none => exact Emit.ends_pure h
      | some received => exact Emit.ends_pure id

end

section
variable {c : ServerChild} {flag : UInt8} {respBuf : List UInt8}

theorem child_step_idle (h : ∀ flag, c.pc ≠ .setupResponse flag) (recv : Recv) : ∃ client,
    c.step recv = ⟨[], .ok { c with client }⟩ ∧
      (client = c.client ∨ ∃ bytes, recv = some (client, bytes)) := by
  obtain ⟨client, winSize, bufSize, pc⟩ := c
  cases pc with
  | setupResponse flag => exact absurd rfl (h flag)
  | transferData =>
      cases recv with
      | none => exact ⟨client, rfl, .inl rfl⟩
      | some received => exact ⟨received.1, rfl, .inr ⟨received.2, rfl⟩⟩
  | closed => cases recv <;> exact ⟨client, rfl, .inl rfl⟩

/-- The three ways on from the condition of `setupResponse`'s loop. -/
theorem setupResponseTest_cases (flag : UInt8) (respBuf : List UInt8) (c : ServerChild) :
    (∃ e, interpPDU respBuf = .error e ∧
        ServerChild.setupResponseTest flag respBuf c = ⟨[], .error e⟩) ∨
      (interpPDU respBuf = .ok none ∧ flag ≠ SETUPRESP_FLAG ∧
        ServerChild.setupResponseTest flag respBuf c =
          ⟨[], .ok { c with pc := .setupResponse flag }⟩) ∨
      ((interpPDU respBuf = .ok none ∧ flag = SETUPRESP_FLAG ∨
          ∃ packet, interpPDU respBuf = .ok (some packet)) ∧
        ServerChild.setupResponseTest flag respBuf c =
          ⟨[(c.client, createPdu 1 SETUPRESP_FLAG [1])], .ok { c with pc := .transferData }⟩) := by
  unfold ServerChild.setupResponseTest
  rw [Emit.liftM_eq]
  cases interpPDU respBuf with
  | error e => exact .inl ⟨e, rfl, rfl⟩
  | ok received =>
      rw [Emit.bind_silent]
      cases received with
      | none =>
          dsimp only
          by_cases hflag : flag = SETUPRESP_FLAG
          · rw [if_neg (fun hne => hne hflag)]
            exact .inr (.inr ⟨.inl ⟨rfl, hflag⟩, rfl⟩)
          · rw [if_pos hflag]
            exact .inr (.inl ⟨rfl, hflag, rfl⟩)
      | some packet => exact .inr (.inr ⟨.inr ⟨packet, rfl⟩, rfl⟩)

theorem setupResponse_client (fopen : List UInt8 → Bool) (infile : List UInt8) (flag : UInt8)
    (c : ServerChild) :
    (ServerChild.setupResponse fopen infile flag c).Ends
        (fun c' => c'.client = c.client ∧ c'.pc ≠ .transferData) ∧
      (ServerChild.setupResponse fopen infile flag c).Emits fun o => o.1 = c.client := by
  unfold ServerChild.setupResponse
  split_ifs
  · exact ⟨Emit.ends_emit (Emit.ends_pure ⟨rfl, by simp⟩), Emit.emits_emit rfl Emit.emits_pure⟩
  · exact ⟨Emit.ends_emit (Emit.ends_pure ⟨rfl, by simp⟩), Emit.emits_emit rfl Emit.emits_pure⟩

/-- A child that has just been forked talks to the source of its datagram, and
does not open the transfer at once. -/
theorem handleSetup_client (fopen : List UInt8 → Bool) (client : Addr) (pduBuf : List UInt8)
    (flag : UInt8) :
    (ServerChild.handleSetup fopen client pduBuf flag).Ends
        (fun c => c.client = client ∧ c.pc ≠ .transferData) ∧
      (ServerChild.handleSetup fopen client pduBuf flag).Emits fun o => o.1 = client := by
  have hresponse := fun winSize bufSize infile =>
    setupResponse_client fopen infile flag ⟨client, winSize, bufSize, .closed⟩
  unfold ServerChild.handleSetup
  constructor
  · apply Emit.ends_lift
    intro received _
    cases received with
    | none => exact Emit.ends_pure ⟨rfl, by simp⟩
    | some packet =>
        dsimp only
        split_ifs
        · exact Emit.ends_pure ⟨rfl, by simp⟩
        · exact Emit.ends_lift fun winSize _ => Emit.ends_lift fun bufSize _ =>
            Emit.ends_lift fun infile _ => (hresponse winSize bufSize infile).1
  · apply Emit.emits_lift
    intro received _
    cases received with
    | none => exact Emit.emits_pure
    | some packet =>
        dsimp only
        split_ifs
        · exact Emit.emits_pure
        · exact Emit.emits_lift fun winSize _ => Emit.emits_lift fun bufSize _ =>
            Emit.emits_lift fun infile _ => (hresponse winSize bufSize infile).2

end

section
variable {c : ServerChild} {flag : UInt8} {src : Addr} {bytes : List UInt8} {packet : PduS}

theorem accepted_none (c : ServerChild) : c.accepted none = [] := rfl

theorem accepted_of_pc (h : ∀ flag, c.pc ≠ .setupResponse flag) (recv : Recv) :
    c.accepted recv = [] := by
  unfold ServerChild.accepted
  split
  · rfl
  · split
    · rename_i flag _ hpc _
      exact absurd hpc (h flag)
    · rfl

theorem accepted_of_reject (h : interpPDU (bytes.take MAXBUF) = .ok none) :
    c.accepted (some (src, bytes)) = [] := by
  cases hpc : c.pc <;> simp only [ServerChild.accepted, hpc, h]

theorem accepted_of_accept (hpc : c.pc = .setupResponse flag)
    (h : interpPDU (bytes.take MAXBUF) = .ok (some packet)) :
    c.accepted (some (src, bytes)) = [packet] := by
  simp only [ServerChild.accepted, hpc, h]

theorem listens_of_reject (hpc : c.pc = .setupResponse flag)
    (h : interpPDU (bytes.take MAXBUF) = .ok none) :
    c.listens (some (src, bytes)) = true ↔ flag ≠ SETUPRESP_FLAG := by
  simp only [ServerChild.listens, hpc, h, decide_eq_true_eq]

theorem listens_of_accept (hpc : c.pc = .setupResponse flag)
    (h : interpPDU (bytes.take MAXBUF) = .ok (some packet)) :
    c.listens (some (src, bytes)) = true ↔ packet.flag = SETUPRESP_FLAG := by
  simp only [ServerChild.listens, hpc, h, decide_eq_true_eq]

end

theorem mem_of_receive {network : List Datagram} {dst src : Addr} {recvLen : ℕ} {a : Delivery}
    {bytes : List UInt8} (h : a.receive network dst recvLen = some (some (src, bytes))) :
    ∃ d ∈ network, d.dst = dst ∧ d.src = src ∧
      (d.bytes = bytes ∨ interpPDU (bytes.take recvLen) = .ok none) := by
  cases a with
  | timeout => cases h
  | recv i =>
      simp only [Delivery.receive] at h
      split at h
      · rename_i d hd
        split_ifs at h with hdst
        cases h
        exact ⟨d, List.mem_of_getElem? hd, hdst, rfl, .inl rfl⟩
      · cases h
  | corrupt i bytes' =>
      simp only [Delivery.receive] at h
      split at h
      · rename_i d hd
        split_ifs at h with hdst
        cases h
        exact ⟨d, List.mem_of_getElem? hd, hdst.1, rfl, .inr hdst.2⟩
      · cases h

namespace Exchange

/-- All children talk to rcopy, whatever is sent to a child or to the server
comes from rcopy, and it is an INITIAL PDU as long as rcopy waits. -/
structure Sound (x : Exchange) : Prop where
  agreed : x.Agreed
  fresh : ∀ f ∈ x.children, ∀ flag, f.child.pc = .setupResponse flag → f.heard = []
  client : ∀ f ∈ x.children, f.child.client = .rcopy
  past : ∀ f ∈ x.children, f.child.pc = .transferData → ¬Waits x.rcopy.pc
  requests : ∀ d ∈ x.network, d.dst ≠ .rcopy → d.src = .rcopy ∧
    (¬Waits x.rcopy.pc ∨ ∃ payload, d.bytes = shortPdu (createPdu 0 INITIAL_FLAG payload))

variable {req : Request} {x x' : Exchange} {e : ExchangeEvent} {a : Delivery} {recv : Recv}
  {j : ℕ} {f : Forked}

theorem Sound.update (h : Sound x) {children : List Forked} {src : Addr}
    {out : List (Addr × List UInt8)} (hmem : ∀ g ∈ children, g = f ∨ g ∈ x.children)
    (hopened : f.child.pc = .transferData →
      (∃ packet ∈ f.heard, packet.flag = SETUPRESP_FLAG) ∧ ¬Waits x.rcopy.pc)
    (hfresh : ∀ flag, f.child.pc = .setupResponse flag → f.heard = [])
    (hclient : f.child.client = .rcopy) (hout : ∀ o ∈ out, o.1 = .rcopy) :
    Sound { x with children, network := x.network ++ post src out } where
  agreed := by
    intro g hg hpc
    rcases hmem g hg with rfl | hg
    · exact (hopened hpc).1
    · exact h.agreed g hg hpc
  fresh := by
    intro g hg
    rcases hmem g hg with rfl | hg
    · exact hfresh
    · exact h.fresh g hg
  client := by
    intro g hg
    rcases hmem g hg with rfl | hg
    · exact hclient
    · exact h.client g hg
  past := by
    intro g hg hpc
    rcases hmem g hg with rfl | hg
    · exact (hopened hpc).2
    · exact h.past g hg hpc
  requests := by
    intro d hd hdst
    rcases List.mem_append.mp hd with hd | hd
    · exact h.requests d hd hdst
    · obtain ⟨o, ho, rfl⟩ := List.mem_map.mp hd
      exact absurd (hout o ho) hdst

theorem Sound.receive (h : Sound x) {dst src : Addr} {recvLen : ℕ} {bytes : List UInt8}
    (hdst : dst ≠ .rcopy) (hrecv : a.receive x.network dst recvLen = some (some (src, bytes))) :
    src = .rcopy ∧ (interpPDU (bytes.take recvLen) = .ok none ∨ ¬Waits x.rcopy.pc ∨
      ∃ payload, bytes = shortPdu (createPdu 0 INITIAL_FLAG payload)) := by
  obtain ⟨d, hd, rfl, rfl, hbytes⟩ := mem_of_receive hrecv
  obtain ⟨hsrc, hrequest⟩ := h.requests d hd hdst
  refine ⟨hsrc, ?_⟩
  rcases hbytes with rfl | hreject
  · exact .inr hrequest
  · exact .inl hreject

/-- rcopy is past `getInitialResp` after its step. -/
theorem Sound.past_step (h : Sound x) {rcopy : RcopySetup} {rcopyHalt : Option Halt}
    {out : List (Addr × List UInt8)} (hpast : ¬Waits rcopy.pc) :
    Sound { x with rcopy, rcopyHalt, network := x.network ++ post .rcopy out } := by
  refine ⟨h.agreed, h.fresh, h.client, fun f hf _ => hpast, ?_⟩
  intro d hd hdst
  rcases List.mem_append.mp hd with hd | hd
  · exact ⟨(h.requests d hd hdst).1, .inl hpast⟩
  · obtain ⟨o, ho, rfl⟩ := List.mem_map.mp hd
    exact ⟨rfl, .inl hpast⟩

theorem sound_rcopyStep (h : Sound x) (recv : Recv) : Sound (x.rcopyStep req recv) := by
  unfold rcopyStep
  by_cases hwaits : Waits x.rcopy.pc
  · have hgoes := rcopy_step_goes req hwaits recv
    generalize x.rcopy.step req recv = p at hgoes
    cases hgoes with
    | stops =>
        refine ⟨h.agreed, h.fresh, h.client, h.past, fun d hd => ?_⟩
        exact h.requests d (by simpa [post] using hd)
    | @asks dst payload r' =>
        refine ⟨h.agreed, h.fresh, h.client,
          fun f hf hpc => absurd hwaits (h.past f hf hpc), fun d hd hdst => ?_⟩
        rcases List.mem_append.mp hd with hd | hd
        · rcases h.requests d hd hdst with ⟨hsrc, hpast | hinitial⟩
          · exact absurd hwaits hpast
          · exact ⟨hsrc, .inr hinitial⟩
        · obtain ⟨o, ho, rfl⟩ := List.mem_map.mp hd
          rw [List.mem_singleton] at ho
          subst ho
          exact ⟨rfl, .inr ⟨payload, rfl⟩⟩
    | past hpast => exact h.past_step hpast
  · have hends := rcopy_step_past req hwaits recv
    generalize x.rcopy.step req recv = p at hends
    obtain ⟨out, result⟩ := p
    cases result with
    | error e => exact h.past_step hwaits
    | ok r' => exact h.past_step (hends r' rfl)

theorem sound_fork (h : Sound x) {pduBuf : List UInt8} {flag : UInt8}
    {fopen : List UInt8 → Bool} : Sound (x.fork .rcopy pduBuf flag fopen) := by
  obtain ⟨hends, hemits⟩ := handleSetup_client fopen .rcopy pduBuf flag
  have hmem : ∀ {f : Forked}, ∀ g ∈ x.children ++ [f], g = f ∨ g ∈ x.children := by
    intro f g hg
    rw [List.mem_append, List.mem_singleton] at hg
    exact hg.symm
  unfold fork
  generalize ServerChild.handleSetup fopen .rcopy pduBuf flag = p at hends hemits
  obtain ⟨out, result⟩ := p
  cases result with
  | error e =>
      exact h.update hmem (fun hpc => by cases hpc) (fun _ _ => rfl) rfl hemits
  | ok child =>
      obtain ⟨hclient, hpc⟩ := hends child rfl
      exact h.update hmem (fun hpc' => absurd hpc' hpc) (fun _ _ => rfl) hclient hemits

theorem mem_set {children : List Forked} {f : Forked} :
    ∀ g ∈ children.set j f, g = f ∨ g ∈ children :=
  fun _ hg => (List.mem_or_eq_of_mem_set hg).symm

theorem sound_childStep_idle (h : Sound x) (hf : f ∈ x.children)
    (hrecv : a.receive x.network (.child j) MAXBUF = some recv)
    (hidle : ∀ flag, f.child.pc ≠ .setupResponse flag) : Sound (x.childStep j f recv) := by
  obtain ⟨client, hstep, hsrc⟩ := child_step_idle hidle recv
  have hclient : client = .rcopy := by
    rcases hsrc with rfl | ⟨bytes, rfl⟩
    · exact h.client f hf
    · exact (h.receive (by simp) hrecv).1
  unfold childStep
  rw [hstep, accepted_of_pc hidle, List.append_nil]
  exact h.update mem_set (fun hpc => ⟨h.agreed f hf hpc, h.past f hf hpc⟩) (h.fresh f hf) hclient
    (fun o ho => by cases ho)

/-- An accepted SETUPRESP comes from an rcopy that is past `getInitialResp`. -/
theorem Sound.past_of_accept (h : Sound x) {src : Addr} {bytes : List UInt8} {packet : PduS}
    (hrecv : a.receive x.network (.child j) MAXBUF = some (some (src, bytes)))
    (haccept : interpPDU (bytes.take MAXBUF) = .ok (some packet))
    (hflag : packet.flag = SETUPRESP_FLAG) : ¬Waits x.rcopy.pc := by
  obtain ⟨_, hreject | hpast | ⟨payload, rfl⟩⟩ := h.receive (by simp) hrecv
  · rw [hreject] at haccept
    cases haccept
  · exact hpast
  · rw [shortPdu, List.take_take] at haccept
    rw [flag_of_beginning (Nat.le_trans (Nat.min_le_left _ _) (by decide)) haccept] at hflag
    cases hflag

theorem sound_childStep_recv (h : Sound x) (hf : f ∈ x.children) {src : Addr}
    {bytes : List UInt8} {flag : UInt8}
    (hrecv : a.receive x.network (.child j) MAXBUF = some (some (src, bytes)))
    (hpc : f.child.pc = .setupResponse flag)
    (hlistens : f.child.listens (some (src, bytes)) = true) :
    Sound (x.childStep j f (some (src, bytes))) := by
  obtain ⟨rfl, _⟩ := h.receive (by simp) hrecv
  have hfresh := h.fresh f hf flag hpc
  have hstep : f.child.step (some (.rcopy, bytes)) = ServerChild.setupResponseTest flag
      (bytes.take MAXBUF) { f.child with client := .rcopy } := by
    simp only [ServerChild.step, hpc]
  unfold childStep
  rw [hstep]
  rcases setupResponseTest_cases flag (bytes.take MAXBUF) { f.child with client := .rcopy } with
    ⟨e, _, htest⟩ | ⟨hreject, _, htest⟩ | ⟨hends, htest⟩
  · rw [htest]
    exact h.update mem_set (fun hpc' => by rw [hpc] at hpc'; cases hpc') (fun _ _ => hfresh)
      (h.client f hf) (fun o ho => by cases ho)
  · rw [htest, accepted_of_reject hreject, List.append_nil]
    exact h.update mem_set (fun hpc' => by cases hpc') (fun _ _ => hfresh) rfl
      (fun o ho => by cases ho)
  · -- the loop ends, with a SETUPRESP
    rcases hends with ⟨hreject, hflag⟩ | ⟨packet, haccept⟩
    · exact absurd hflag ((listens_of_reject hpc hreject).mp hlistens)
    · have hflag := (listens_of_accept hpc haccept).mp hlistens
      have hpast := h.past_of_accept hrecv haccept hflag
      rw [htest, accepted_of_accept hpc haccept]
      refine h.update mem_set (fun _ => ⟨⟨packet, ?_, hflag⟩, hpast⟩) (fun _ hpc' => by cases hpc')
        rfl ?_
      · exact List.mem_append_right _ (List.mem_singleton_self _)
      · intro o ho
        rw [List.mem_singleton] at ho
        subst ho
        rfl

theorem sound_childStep (h : Sound x) (hf : f ∈ x.children)
    (hrecv : a.receive x.network (.child j) MAXBUF = some recv)
    (hlistens : f.child.listens recv = true) : Sound (x.childStep j f recv) := by
  cases hpc : f.child.pc with
  | setupResponse flag =>
      cases recv with
      | some received => exact sound_childStep_recv h hf hrecv hpc hlistens
      | none =>
          unfold childStep
          rw [accepted_none, List.append_nil]
          simp only [ServerChild.step, hpc, Emit.pure_eq]
          exact h.update mem_set (fun hpc' => by cases hpc') (fun _ hpc' => by cases hpc')
            (h.client f hf) (fun o ho => by cases ho)
  | transferData => exact sound_childStep_idle h hf hrecv (fun flag => by rw [hpc]; simp)
  | closed => exact sound_childStep_idle h hf hrecv (fun flag => by rw [hpc]; simp)

theorem Sound.toRcopy_step (h : Sound x) {src dst : Addr} {bytes : List UInt8} (hdst : dst = .rcopy) :
    Sound { x with network := x.network ++ post src [(dst, bytes)] } := by
  refine ⟨h.agreed, h.fresh, h.client, h.past, fun d hd hd' => ?_⟩
  rcases List.mem_append.mp hd with hd | hd
  · exact h.requests d hd hd'
  · obtain ⟨o, ho, rfl⟩ := List.mem_map.mp hd
    rw [List.mem_singleton] at ho
    subst ho
    exact absurd hdst hd'

theorem sound_step (h : Sound x) (hlistens : x.Listens e) (hstep : x.step req e = some x') :
    Sound x' := by
  unfold step at hstep
  cases e with
  | rcopy a =>
      dsimp only at hstep
      split at hstep
      · cases hstep
        exact sound_rcopyStep h _
      · cases hstep
  | rcopyData bytes =>
      dsimp only at hstep
      split at hstep
      · rename_i hpc
        cases hstep
        exact h.past_step (by rw [hpc]; exact id)
      · cases hstep
  | fork a flag fopen =>
      dsimp only at hstep
      split at hstep
      · rename_i src bytes hrecv
        cases hstep
        obtain ⟨rfl, _⟩ := h.receive (by simp) hrecv
        exact sound_fork h
      · cases hstep
  | child j a =>
      dsimp only at hstep
      split at hstep
      · rename_i f recv hj hrecv
        split_ifs at hstep
        cases hstep
        exact sound_childStep h (List.mem_of_getElem? hj) hrecv (hlistens f hj recv hrecv)
      · cases hstep
  | childData j bytes =>
      dsimp only at hstep
      split at hstep
      · rename_i f hj
        split_ifs at hstep
        cases hstep
        exact h.toRcopy_step (h.client f (List.mem_of_getElem? hj))
      · cases hstep

theorem sound_start (req : Request) : Sound (start req) := by
  have hgoes : RcopyGoes (RcopySetup.init req) := getInitialRespSend_goes req 0 [] _
  have hends : (RcopySetup.init req).Ends fun r => Waits r.pc := by
    unfold RcopySetup.init RcopySetup.getInitialRespSend
    exact Emit.ends_lift fun pduBuf _ => ends_sendtoErr (Emit.ends_pure trivial)
  unfold start
  generalize RcopySetup.init req = p at hgoes hends
  have hnil {P : Forked → Prop} : ∀ f ∈ ([] : List Forked), P f := fun f hf => by cases hf
  cases hgoes with
  | stops => exact ⟨hnil, hnil, hnil, hnil, fun d hd => by cases hd⟩
  | @asks dst payload r' =>
      refine ⟨hnil, hnil, hnil, hnil, fun d hd _ => ?_⟩
      obtain ⟨o, ho, rfl⟩ := List.mem_map.mp hd
      rw [List.mem_singleton] at ho
      subst ho
      exact ⟨rfl, .inr ⟨payload, rfl⟩⟩
  | @past out r' hpast => exact absurd (hends r' rfl) hpast

/-- A child whose step violates the condition opens the transfer with no
SETUPRESP accepted. -/
theorem Sound.listens_of_agreed (h : Sound x) (hf : f ∈ x.children) (hj : j < x.children.length)
    (hagreed : (x.childStep j f recv).Agreed) : f.child.listens recv = true := by
  cases recv with
  | none => rfl
  | some received =>
      obtain ⟨src, bytes⟩ := received
      cases hpc : f.child.pc with
      | transferData | closed => simp only [ServerChild.listens, hpc]
      | setupResponse flag =>
          have hstep : f.child.step (some (src, bytes)) = ServerChild.setupResponseTest flag
              (bytes.take MAXBUF) { f.child with client := src } := by
            simp only [ServerChild.step, hpc]
          unfold childStep at hagreed
          rw [hstep] at hagreed
          rcases setupResponseTest_cases flag (bytes.take MAXBUF) { f.child with client := src }
            with ⟨e, herror, _⟩ | ⟨hreject, hflag, _⟩ | ⟨hends, htest⟩
          · simp only [ServerChild.listens, hpc, herror]
          · exact (listens_of_reject hpc hreject).mpr hflag
          · rw [htest] at hagreed
            obtain ⟨packet, hmem, hflag⟩ := hagreed _ (List.mem_set hj _) rfl
            rw [h.fresh f hf flag hpc, List.nil_append] at hmem
            rcases hends with ⟨hreject, _⟩ | ⟨packet', haccept⟩
            · rw [accepted_of_reject hreject] at hmem
              cases hmem
            · rw [accepted_of_accept hpc haccept, List.mem_singleton] at hmem
              subst hmem
              exact (listens_of_accept hpc haccept).mpr hflag

theorem Sound.agreed_iff (h : Sound x) (hstep : x.step req e = some x') :
    x'.Agreed ↔ x.Listens e := by
  refine ⟨fun hagreed => ?_, fun hlistens => (sound_step h hlistens hstep).agreed⟩
  cases e with
  | child j a =>
      intro f hf recv hrecv
      rw [Option.mem_def] at hf hrecv
      simp only [step, hf, hrecv] at hstep
      split_ifs at hstep
      cases hstep
      obtain ⟨hj, _⟩ := List.getElem?_eq_some_iff.mp hf
      exact h.listens_of_agreed (List.mem_of_getElem? hf) hj hagreed
  | rcopy | rcopyData | fork | childData => trivial

/-- As long as every step meets the condition, every child in `transferData` has
accepted a SETUPRESP and rcopy is past `getInitialResp`. The next step keeps the
former exactly when it meets the condition. -/
theorem setup_agreed {req : Request} {events : List ExchangeEvent} {x : Exchange}
    (hrun : run (step req) (start req) events = some x)
    (hlistens : Guarded (step req) Listens (start req) events) :
    x.Agreed ∧
      ((∃ f ∈ x.children, f.child.pc = .transferData) →
        ∀ count respBuf, x.rcopy.pc ≠ .getInitialResp count respBuf) ∧
      ∀ e x', x.step req e = some x' → (x'.Agreed ↔ x.Listens e) := by
  have hsound : Sound x := guarded_induct (P := Sound)
    (fun _ _ _ h hok hstep => sound_step h hok hstep) (sound_start req) hlistens hrun
  refine ⟨hsound.agreed, ?_, fun e x' hstep => hsound.agreed_iff hstep⟩
  rintro ⟨f, hf, hpc⟩ count respBuf hwaits
  have hpast := hsound.past f hf hpc
  rw [hwaits] at hpast
  exact hpast trivial

/-- INITIAL, INITIALRESP, SETUPRESP and its answer, each received once. -/
theorem setup_agreed_in_turn : ∃ x : Exchange, ∃ f ∈ x.children, f.child.pc = .transferData ∧
    (∃ packet ∈ f.heard, packet.flag = SETUPRESP_FLAG) ∧
    ∀ count respBuf, x.rcopy.pc ≠ .getInitialResp count respBuf := by
  have hrun : (run (step ⟨[97], 1, 8⟩) (start ⟨[97], 1, 8⟩) [.fork (.recv 0) 0 fun _ => true,
      .rcopy (.recv 1), .child 0 (.recv 2), .rcopy (.recv 3)]).map
      (fun x => x.children.map fun f => f.child.pc) = some [.transferData] := by
    decide +kernel
  obtain ⟨x, hx, hchildren⟩ := Option.map_eq_some_iff.mp hrun
  obtain ⟨f, hf, hpc⟩ := List.map_eq_singleton_iff.mp hchildren
  have hmem : f ∈ x.children := hf ▸ List.mem_singleton_self f
  obtain ⟨hagreed, hwaits, _⟩ := setup_agreed hx (by decide +kernel)
  exact ⟨x, f, hmem, hpc, hagreed f hmem hpc, hwaits ⟨f, hmem, hpc⟩⟩

/-- A corrupted INITIALRESP redirects rcopy to the child. The INITIAL PDU that it
sends again opens the transfer. -/
theorem initial_opens_transfer : ∃ (events : List ExchangeEvent) (x : Exchange),
    run (step ⟨[97], 1, 8⟩) (start ⟨[97], 1, 8⟩) events = some x ∧
    (∃ f ∈ x.children, f.child.pc = .transferData ∧
      ∀ packet ∈ f.heard, packet.flag = INITIAL_FLAG) ∧
    x.rcopy.pc = .getInitialResp 1 ((createPdu 0 INITIALRESP_FLAG [1]).set 0 1) := by
  have hrun : (run (step ⟨[97], 1, 8⟩) (start ⟨[97], 1, 8⟩) [.fork (.recv 0) 0 fun _ => true,
      .rcopy (.corrupt 1 ((createPdu 0 INITIALRESP_FLAG [1]).set 0 1)), .child 0 (.recv 2)]).map
      (fun x => (x.children.map fun f => (f.child.pc, f.heard.map PduS.flag), x.rcopy.pc)) =
      some ([(.transferData, [INITIAL_FLAG])],
        .getInitialResp 1 ((createPdu 0 INITIALRESP_FLAG [1]).set 0 1)) := by
    decide +kernel
  obtain ⟨x, hx, heq⟩ := Option.map_eq_some_iff.mp hrun
  obtain ⟨hchildren, hrcopy⟩ := Prod.mk.inj heq
  obtain ⟨f, hf, hchild⟩ := List.map_eq_singleton_iff.mp hchildren
  obtain ⟨hpc, hheard⟩ := Prod.mk.inj hchild
  refine ⟨_, x, hx, ⟨f, hf ▸ List.mem_singleton_self f, hpc, fun packet hpacket => ?_⟩, hrcopy⟩
  have hflag := List.mem_map_of_mem (f := PduS.flag) hpacket
  rw [hheard, List.mem_singleton] at hflag
  exact hflag

end Exchange
end SelRej
