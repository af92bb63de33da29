import Mathlib.Data.List.Forall2
import SelRej.BufferCalls
import SelRej.MemoryRefinement
import SelRej.PduCodec
import SelRej.ServerCalls

/-!
# The memory that the processes use is released

The server sends a packet when its window is not full, under the next number,
and the window then has a free slot for it; rcopy buffers a packet whose number
fits its window, and the slot of that number is free or has the same packet. So
all calls are tidy, and `freeWindow` releases everything that was allocated
since `initWindow`.
-/
namespace SelRej
open CInt Heap PartialRun

namespace ServerRun

inductive Makes : Call → ServerCall → Prop
  | sendNext {pduBuf : List UInt8} {packet : PduS} (h : interpPDU pduBuf = .ok (some packet)) :
      Makes (.sendNext pduBuf) (.serverSent packet)
  | recvRR (seqNum : UInt32) : Makes (.recvRR seqNum) (.recvRR seqNum)
  | handleSrej (seqNum : UInt32) : Makes (.handleSrej seqNum) (.srej seqNum)
  | resendLowest : Makes .resendLowest .getLow

variable {r r' : ServerRun} {w : ℕ} {call : Call} {serverCall : ServerCall} {win' : Window}

theorem step_of_windowStep (h : Makes call serverCall) (hstep : windowStep r.win call = some win') :
    ∃ r', r.step serverCall = some r' ∧ r'.win = win' := by
  obtain ⟨⟨answer, win⟩, hperform, rfl⟩ := Option.map_eq_some_iff.mp hstep
  rw [toOption_eq_some] at hperform
  cases h with
  | @sendNext pduBuf packet hinterp =>
      simp only [Call.perform, sendNext, hinterp, ok_bind] at hperform
      obtain ⟨⟨code, win₁⟩, hsent, hpure⟩ := bind_eq_ok_iff.mp hperform
      cases hpure
      exact ⟨_, step_serverSent hsent, rfl⟩
  | recvRR seqNum =>
      obtain ⟨⟨code, win₁⟩, hrecv, hpure⟩ := bind_eq_ok_iff.mp hperform
      cases hpure
      exact ⟨_, step_recvRR hrecv, rfl⟩
  | handleSrej seqNum =>
      obtain ⟨packet, hsrej, hpure⟩ := bind_eq_ok_iff.mp hperform
      cases hpure
      exact ⟨r, by simp only [step, perform, hsrej, ok_bind]; rfl, rfl⟩
  | resendLowest =>
      obtain ⟨packet, hlow, hpure⟩ := bind_eq_ok_iff.mp hperform
      cases hpure
      exact ⟨r, by simp only [step, perform, hlow, ok_bind]; rfl, rfl⟩

/-- RRs and SREJs that are handled in a state that is not answerable stop the
process, so every run is sound. -/
theorem sound_of_step (h : Sound w r) (hsent : AsSent r serverCall)
    (hstep : r.step serverCall = some r') : Sound w r' := by
  refine sound_step h hsent ?_ hstep
  cases serverCall with
  | serverSent packet => trivial
  | recvRR seqNum =>
      refine (recvRR_null_iff h seqNum).mp fun hnull => ?_
      rw [step_recvRR_error hnull] at hstep
      cases hstep
  | srej seqNum =>
      refine (srej_null_iff h seqNum).mp fun hnull => ?_
      simp only [step, perform, hnull, error_bind, Except.toOption] at hstep
      cases hstep
  | getLow => trivial

theorem sendFits_of_asSent (h : Sound w r) {packet : PduS} (hsent : AsSent r (.serverSent packet)) :
    SendFits r.win packet.seqNum := by
  obtain ⟨lo, hint, hsound, hlo⟩ := h
  have hlen := length_lt hint hsound hlo hsent.1
  have hroom := hint.room_of_not_full hsent.1
  have hnext : (i32 (r.win.current + 1)).tmod r.win.winSize =
      ((r.sent.length % w : ℕ) : ℤ) := by
    rw [hint.current]
    split_ifs with hzero
    · rw [hzero, Nat.zero_mod]
      exact Int.zero_tmod _
    · rw [Window.tmod_succ hint.winSize hint.pos hint.small, Nat.sub_add_cancel (by omega)]
  refine ⟨hsent.1, ?_, ?_⟩
  · rw [hnext, Window.slotOf_eq hint.winSize, hsent.2, Nat.mod_eq_of_lt hlen]
  · rw [hnext, hint.queue_eq hint.le hroom, List.getElem?_eq_none (Nat.le_refl _)]

theorem tidy_of_asSent (h : Sound w r) (hmakes : Makes call serverCall)
    (hsent : AsSent r serverCall) : Tidy r.win call := by
  cases hmakes with
  | sendNext hinterp => exact ⟨_, hinterp, sendFits_of_asSent h hsent⟩
  | recvRR seqNum => trivial
  | handleSrej seqNum => trivial
  | resendLowest => trivial

theorem tidy_run {calls : List Call} {serverCalls : List ServerCall} (h : Sound w r)
    (hmakes : List.Forall₂ Makes calls serverCalls)
    (hsent : Guarded step AsSent r serverCalls) : Guarded windowStep Tidy r.win calls := by
  induction hmakes generalizing r with
  | nil => trivial
  | cons hcall _ ih =>
      refine ⟨tidy_of_asSent h hcall hsent.1, fun win' hstep => ?_⟩
      obtain ⟨r', hstep', rfl⟩ := step_of_windowStep hcall hstep
      exact ih (sound_of_step h hsent.1 hstep') (hsent.2 r' hstep')

/-- Every run of the server's calls ends in memory as on the values, and
`freeWindow` then releases all that was allocated since `initWindow`. -/
theorem server_releases_all (heap : Heap Block) (hpos : 1 ≤ w) (hsmall : w < 2147483648)
    {calls : List Call} {serverCalls : List ServerCall}
    (hmakes : List.Forall₂ Makes calls serverCalls)
    (hsent : Guarded step AsSent (start w) serverCalls) :
    Refines (fun x y => x.1 = y.1 ∧
        ∃ m', x.2.freeWindow = .ok m' ∧ m'.heap.live = heap.live)
      (performAll Memory.perform calls ((Memory.start heap).initWindow w).2)
      (performAll Call.perform calls (initWindow noWindow w).2) := by
  have htidy := tidy_run (sound_start hpos hsmall) hmakes hsent
  refine (performAll_sim calls (initWindow_inMemory heap (by omega))).mono ?_
  rintro ⟨_, m⟩ ⟨answers, win⟩ ⟨rfl, rest, hm, -, hrest⟩
  rw [← hrest.mpr htidy]
  exact ⟨rfl, freeWindow_eq hm⟩

def sentPdu (k : UInt32) : PduS := decoded k DATA_FLAG [1] (by decide)

theorem makes_sentPdu (k : UInt32) :
    Makes (.sendNext (createPdu k DATA_FLAG [1])) (.serverSent (sentPdu k)) :=
  .sendNext (interpPDU_createPdu k DATA_FLAG (by decide))

/-- A window of two: RR 1 releases packet 0, and packet 2 is stored in its slot. -/
def releasingCalls : List Call :=
  [.sendNext (createPdu 0 DATA_FLAG [1]), .sendNext (createPdu 1 DATA_FLAG [1]), .handleSrej 0,
    .recvRR 1, .sendNext (createPdu 2 DATA_FLAG [1]), .resendLowest]

theorem server_releases_all_reusedSlot :
    Refines (fun x y => x.1 = y.1 ∧
        ∃ m', x.2.freeWindow = .ok m' ∧ m'.heap.live = (empty : Heap Block).live)
      (performAll Memory.perform releasingCalls ((Memory.start empty).initWindow (2 : ℕ)).2)
      (performAll Call.perform releasingCalls (initWindow noWindow (2 : ℕ)).2) :=
  server_releases_all empty (by decide) (by decide)
    (.cons (makes_sentPdu 0) (.cons (makes_sentPdu 1) (.cons (.handleSrej 0) (.cons (.recvRR 1)
      (.cons (makes_sentPdu 2) (.cons .resendLowest .nil))))))
    (by decide +kernel)

end ServerRun

namespace BufferRun

inductive Makes : Call → BufferCall → Prop
  | skip (seqNum : UInt32) : Makes (.skip seqNum) (.skip seqNum)
  | bufferPacket (packet : PduS) : Makes (.bufferPacket packet) (.buffer packet)
  | unbufferNext : Makes .unbufferNext .unbuffer

variable {r r' : BufferRun} {w : ℕ} {call : Call} {bufferCall : BufferCall}

theorem perform_of_step (h : Makes call bufferCall) (hstep : r.step bufferCall = some r') :
    ∃ answer, call.perform r.win = .ok (answer, r'.win) := by
  rw [step, toOption_eq_some] at hstep
  cases h with
  | skip seqNum =>
      obtain ⟨⟨code, win₁⟩, hskip, hpure⟩ := bind_eq_ok_iff.mp hstep
      cases hpure
      exact ⟨.code code, by rw [Call.perform, hskip, ok_bind]; rfl⟩
  | bufferPacket packet =>
      obtain ⟨⟨code, win₁⟩, hbuffer, hpure⟩ := bind_eq_ok_iff.mp hstep
      cases hpure
      exact ⟨.code code, by rw [Call.perform, hbuffer, ok_bind]; rfl⟩
  | unbufferNext =>
      obtain ⟨⟨packet, win₁⟩, hunbuffer, hpure⟩ := bind_eq_ok_iff.mp hstep
      cases hpure
      exact ⟨.unbuffered (packet.map fun packet => (packet.seqNum, packet.payload)),
        by rw [Call.perform, hunbuffer, ok_bind]; rfl⟩

/-- The slot of a packet that fits has that packet or none. -/
theorem bufferFits_of_asUsed (h : Kept w r) {packet : PduS}
    (hused : AsUsed w r (.buffer packet)) : BufferFits r.win packet.seqNum := by
  obtain ⟨hdraining, hempty, hge, _, hlt⟩ := hused
  rcases h with ⟨-, hidle⟩ | ⟨b, -, hwait, hmissing⟩
  · rw [hidle.isBufEmpty] at hempty
    cases hempty
  · have hfirst : (firstPacket r.win).toNat = b.next := hwait.firstSeq
    rw [hfirst] at hge hlt
    refine ⟨by simpa [isBufEmpty] using hempty, ?_⟩
    rw [Window.slotOf_eq hwait.winSize]
    split_ifs with hlow
    · -- the first number is missing
      rw [hwait.lower, hwait.queue_eq (Nat.le_refl _) (Nat.lt_add_of_pos_right hwait.pos)]
      exact hmissing hdraining
    · intro other hother
      rw [hwait.queue_eq hge hlt] at hother
      exact UInt32.toNat_inj.mp (hwait.held _ other hother).2.2

theorem tidy_of_asUsed (h : Kept w r) (hmakes : Makes call bufferCall)
    (hused : AsUsed w r bufferCall) : Tidy r.win call := by
  cases hmakes with
  | skip seqNum => trivial
  | bufferPacket packet => exact bufferFits_of_asUsed h hused
  | unbufferNext => trivial

/-- Every run of rcopy's calls goes through, and all of them are tidy. -/
theorem tidy_run {calls : List Call} {bufferCalls : List BufferCall} (hw : w ≤ 1073741824)
    (h : Kept w r) (hmakes : List.Forall₂ Makes calls bufferCalls)
    (hused : Guarded step (AsUsed w) r bufferCalls) :
    Guarded windowStep Tidy r.win calls ∧
      ∃ answers win, performAll Call.perform calls r.win = .ok (answers, win) := by
  induction hmakes generalizing r with
  | nil => exact ⟨trivial, [], r.win, rfl⟩
  | cons hcall _ ih =>
      obtain ⟨r', hstep, hkept⟩ := kept_step hw h hused.1
      obtain ⟨answer, hperform⟩ := perform_of_step hcall hstep
      obtain ⟨htidy, answers, win, hrun⟩ := ih hkept (hused.2 r' hstep)
      refine ⟨⟨tidy_of_asUsed h hcall hused.1, fun win' hwin => ?_⟩, answer :: answers, win, ?_⟩
      · rw [windowStep, hperform] at hwin
        cases hwin
        exact htidy
      · rw [performAll, hperform, ok_bind]
        dsimp only
        rw [hrun]
        rfl

/-- Every run of rcopy's calls goes through, and `freeWindow` then releases all
that was allocated since `initWindow`. -/
theorem rcopy_releases_all (heap : Heap Block) (hpos : 1 ≤ w) (hw : w ≤ 1073741824)
    {calls : List Call} {bufferCalls : List BufferCall}
    (hmakes : List.Forall₂ Makes calls bufferCalls)
    (hused : Guarded step (AsUsed w) (start w) bufferCalls) :
    ∃ answers m m', performAll Memory.perform calls ((Memory.start heap).initWindow w).2 =
      .ok (answers, m) ∧ m.freeWindow = .ok m' ∧ m'.heap.live = heap.live := by
  obtain ⟨htidy, answers, win, hvalues⟩ :=
    tidy_run hw (kept_start hpos hw) hmakes hused
  have hsim := performAll_sim calls (initWindow_inMemory heap (show (1 : ℤ) ≤ w by omega))
  rw [show (initWindow noWindow w).2 = (start w).win from rfl, hvalues] at hsim
  obtain ⟨⟨answers', m⟩, hrun, -⟩ := hsim.exists_ok
  obtain ⟨m', hfree, hlive⟩ := freeWindow_of_tidy heap (by omega) htidy hrun
  exact ⟨answers', m, m', hrun, hfree, hlive⟩

theorem makes_late : List.Forall₂ Makes
    [.skip 0, .bufferPacket (emptyPacket 1), .bufferPacket (emptyPacket 0), .unbufferNext]
    [.skip 0, .buffer (emptyPacket 1), .buffer (emptyPacket 0), .unbuffer] :=
  .cons (.skip 0) (.cons (.bufferPacket _) (.cons (.bufferPacket _) (.cons .unbufferNext .nil)))

theorem rcopy_releases_all_late : ∃ answers m m', performAll Memory.perform
      [.skip 0, .bufferPacket (emptyPacket 1), .bufferPacket (emptyPacket 0), .unbufferNext]
      ((Memory.start empty).initWindow (2 : ℕ)).2 = .ok (answers, m) ∧
    m.freeWindow = .ok m' ∧ m'.heap.live = (empty : Heap Block).live :=
  rcopy_releases_all empty (by decide) (by decide) makes_late (by decide +kernel)

end BufferRun
end SelRej
