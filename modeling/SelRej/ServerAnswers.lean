import SelRej.Server
import SelRej.ServerCalls

/-!
# The answers of `srej`

A run of calls sends the numbers below `sent.length` and acknowledges those
below a bound that moves to the number of each valid RR. `Progress` computes
this bound from the calls alone. A number in between is answered with its
packet, and any other number with NULL, with one exception: the test of `srej`
lets the number right above the last one pass, and in a full window this number
has the slot of the lowest packet.
-/
namespace SelRej
open CInt CircularArray PartialRun

structure Progress where
  acked : ℕ
  sent : ℕ
  deriving DecidableEq, Repr

/-- An RR acknowledges all numbers below its own, unless it is older than what
is acknowledged already or refers to numbers that were not sent. -/
def Progress.after (p : Progress) : ServerCall → Progress
  | .serverSent _ => { p with sent := p.sent + 1 }
  | .recvRR seqNum =>
      if p.acked ≤ seqNum.toNat ∧ seqNum.toNat ≤ p.sent then { p with acked := seqNum.toNat }
      else p
  | .srej _ | .getLow => p

def progress (calls : List ServerCall) : Progress := calls.foldl Progress.after ⟨0, 0⟩

namespace ServerRun
variable {r r' : ServerRun} {w : ℕ} {p : Progress} {call : ServerCall}

structure Tracks (w : ℕ) (r : ServerRun) (p : Progress) : Prop where
  interval : Interval r.win w p.acked r.sent
  sent : r.sent.length = p.sent
  few : p.sent ≤ 2147483647

theorem tracks_start (hpos : 0 < w) (hsmall : w < 2147483648) : Tracks w (start w) ⟨0, 0⟩ :=
  ⟨(interval_initWindow hpos hsmall).1, rfl, by decide⟩

theorem tracks_step (h : Tracks w r p) (hsent : AsSent r call) (hbelow : Below r call)
    (hstep : r.step call = some r') : Tracks w r' (p.after call) := by
  obtain ⟨hint, hlen, hfew⟩ := h
  have hle := hint.le
  cases step_changes hint (by omega) hsent hstep with
  | sends hint' _ =>
      simp only [Below] at hbelow
      refine ⟨hint', ?_, ?_⟩
      · rw [List.length_append, List.length_singleton, hlen]
        rfl
      · simp only [Progress.after]
        omega
  | @obeys seqNum code _ hlt hge hle' hrecv =>
      obtain ⟨win', hrecv', hint', _⟩ := hint.recvRR_of_mem hlt hge hle' (by omega) (by omega)
      rw [hrecv] at hrecv'
      cases hrecv'
      rw [Progress.after, if_pos (by omega)]
      exact ⟨hint', hlen, hfew⟩
  | @ignores seqNum hinvalid =>
      rw [Progress.after]
      by_cases hvalid : p.acked ≤ seqNum.toNat ∧ seqNum.toNat ≤ p.sent
      · -- nothing is sent: the bound is 0, and stays so
        rw [if_pos hvalid, show seqNum.toNat = p.acked by omega]
        exact ⟨hint, hlen, hfew⟩
      · rw [if_neg hvalid]
        exact ⟨hint, hlen, hfew⟩
  | answers _ => exact ⟨hint, hlen, hfew⟩
  | reads => exact ⟨hint, hlen, hfew⟩

theorem tracks_run {calls : List ServerCall} (h : Tracks w r p)
    (hcalls : Guarded step (fun r call => AsSent r call ∧ Below r call) r calls)
    (hrun : run step r calls = some r') : Tracks w r' (calls.foldl Progress.after p) := by
  induction calls generalizing r p with
  | nil =>
      cases hrun
      exact h
  | cons call calls ih =>
      obtain ⟨r₁, hstep, hrest⟩ := run_cons_iff.mp hrun
      exact ih (tracks_step h hcalls.1.1 hcalls.1.2 hstep) (hcalls.2 r₁ hstep) hrest

/-- A SREJ is answered with the packet of its number if that is sent and not
acknowledged, and otherwise with nothing; what `handleSrej` then sends is this
packet. -/
structure AnswersNamed (r : ServerRun) (acked : ℕ) (seqNum : UInt32) : Prop where
  srej : SelRej.srej r.win seqNum =
    .ok (if acked ≤ seqNum.toNat then r.sent[seqNum.toNat]? else none)
  named : ∀ packet, SelRej.srej r.win seqNum = .ok (some packet) → packet.seqNum = seqNum
  handleSrej : ∀ (s : Server) (packet : PduS), s.win = r.win →
    readSeq packet.payload = .ok seqNum → ∀ pduBuf ∈ (s.handleSrej packet).out,
      ∃ resendPacket, resendPacket.seqNum = seqNum ∧
        pduBuf = shortPdu (recreatePDUS resendPacket)

theorem srej_cases (h : Tracks w r p) (hlt : p.acked < p.sent) (seqNum : UInt32) :
    (seqNum.toNat = p.sent ∧ p.sent = p.acked + w ∧ ∃ packet,
        SelRej.srej r.win seqNum = .ok (some packet) ∧ packet.seqNum ≠ seqNum) ∨
      (¬(seqNum.toNat = p.sent ∧ p.sent = p.acked + w) ∧ SelRej.srej r.win seqNum =
        .ok (if p.acked ≤ seqNum.toNat then r.sent[seqNum.toNat]? else none)) := by
  obtain ⟨hint, hsent, hfew⟩ := h
  have hfits := hint.fits
  have hpos := hint.pos
  rw [hint.srej_eq (by omega) (by omega)]
  rcases Nat.lt_trichotomy r.sent.length seqNum.toNat with hhigh | heq | hle
  · rw [if_pos hhigh, List.getElem?_eq_none (by omega), ite_self]
    exact .inr ⟨by omega, rfl⟩
  · rw [if_neg (by omega), if_neg (by omega), if_pos (by omega)]
    by_cases hfull : p.sent = p.acked + w
    · -- one turn below, the slot is that of the lowest packet
      have hacked : p.acked < r.sent.length := by omega
      refine .inl ⟨by omega, hfull, r.sent[p.acked], ?_, fun hsame => ?_⟩
      · rw [show seqNum.toNat = p.acked + w by omega, Nat.add_mod_right,
          hint.slot_eq (Nat.le_refl _) (by omega), List.getElem?_eq_getElem hacked]
      · have hnumber := hint.numbered _ hacked
        rw [hsame] at hnumber
        omega
    · exact .inr ⟨by omega, hint.slot_eq (by omega) (by omega)⟩
  · rw [if_neg (by omega)]
    by_cases hlow : seqNum.toNat < p.acked
    · rw [if_pos hlow, if_neg (by omega)]
      exact .inr ⟨by omega, rfl⟩
    · rw [if_neg hlow, if_pos (by omega)]
      exact .inr ⟨by omega, hint.slot_eq (by omega) (by omega)⟩

theorem answersNamed_of_srej (h : Tracks w r p) {seqNum : UInt32}
    (hanswer : SelRej.srej r.win seqNum =
      .ok (if p.acked ≤ seqNum.toNat then r.sent[seqNum.toNat]? else none)) :
    AnswersNamed r p.acked seqNum := by
  have hnamed : ∀ packet, SelRej.srej r.win seqNum = .ok (some packet) →
      packet.seqNum = seqNum := by
    intro packet hpacket
    rw [hanswer, Except.ok.injEq, ite_eq_iff] at hpacket
    rcases hpacket with ⟨_, hget⟩ | ⟨_, hnone⟩
    · obtain ⟨hlen, rfl⟩ := List.getElem?_eq_some_iff.mp hget
      exact UInt32.toNat_inj.mp (h.interval.numbered _ hlen)
    · cases hnone
  refine ⟨hanswer, hnamed, ?_⟩
  intro s packet hwin hread pduBuf hsent
  unfold Server.handleSrej at hsent
  rw [hread, Emit.liftM_eq, Emit.bind_silent, hwin] at hsent
  cases hsrej : SelRej.srej r.win seqNum with
  | error e =>
      rw [hsrej, Emit.liftM_eq, Emit.bind_error] at hsent
      cases hsent
  | ok answer =>
      rw [hsrej, Emit.liftM_eq, Emit.bind_silent] at hsent
      cases answer with
      | none => cases hsent
      | some resendPacket =>
          exact ⟨resendPacket, hnamed _ hsrej, List.mem_singleton.mp hsent⟩

/-- In every run, `srej` gives a number its packet or nothing, except for the
number right above the last one while the window is full. -/
theorem srej_answers_iff {calls : List ServerCall} (hpos : 1 ≤ w) (hsmall : w < 2147483648)
    (hrun : run step (start w) calls = some r)
    (hcalls : Guarded step (fun r call => AsSent r call ∧ Below r call) (start w) calls)
    (hlt : (progress calls).acked < r.sent.length) (seqNum : UInt32) :
    AnswersNamed r (progress calls).acked seqNum ↔
      ¬(seqNum.toNat = r.sent.length ∧ r.sent.length = (progress calls).acked + w) := by
  have h : Tracks w r (progress calls) := tracks_run (tracks_start hpos hsmall) hcalls hrun
  rw [h.sent] at hlt ⊢
  rcases srej_cases h hlt seqNum with ⟨hnum, hfull, packet, hanswer, hne⟩ | ⟨hcond, hanswer⟩
  · exact iff_of_false (fun hnamed => hne (hnamed.named packet hanswer)) (by simp [hnum, hfull])
  · exact iff_of_true (answersNamed_of_srej h hanswer) hcond

theorem srej_answers_iff_reusedSlot : ∃ r, run step (start 2) reusedSlot = some r ∧
    (AnswersNamed r (progress reusedSlot).acked 2 ↔
      ¬((2 : UInt32).toNat = r.sent.length ∧
        r.sent.length = (progress reusedSlot).acked + 2)) := by
  obtain ⟨r, hr⟩ := exists_run_reusedSlot
  have hlen : r.sent.length = 3 := by
    have hmap := congrArg (Option.map fun r => r.sent.length) hr
    exact Option.some.inj (hmap.symm.trans (by decide +kernel))
  refine ⟨r, hr, srej_answers_iff (by decide) (by decide) hr (by decide +kernel) ?_ 2⟩
  rw [hlen]
  decide

/-- With window size 1 and packet 0 unacknowledged, SREJ 1 is answered with packet 0. -/
theorem srej_above_full_window : ∃ r, run step (start 1) [.serverSent firstPdu] = some r ∧
    Guarded step (fun r call => AsSent r call ∧ Below r call) (start 1) [.serverSent firstPdu] ∧
      (progress [.serverSent firstPdu]).acked < r.sent.length ∧
      (SelRej.srej r.win 1).map (Option.map PduS.seqNum) = .ok (some 0) ∧
      ¬AnswersNamed r (progress [.serverSent firstPdu]).acked 1 := by
  obtain ⟨r, hrun, hread⟩ := Option.map_eq_some_iff.mp
    (show (run step (start 1) [.serverSent firstPdu]).map
      (fun r => (r.sent.length, (SelRej.srej r.win 1).map (Option.map PduS.seqNum))) =
        some (1, .ok (some 0)) by decide +kernel)
  obtain ⟨hlen, hanswer⟩ := Prod.mk.inj hread
  refine ⟨r, hrun, ⟨⟨⟨by decide +kernel, rfl⟩, show 0 < 2147483647 by decide⟩, fun _ _ => trivial⟩,
    by rw [hlen]; decide, hanswer, fun hnamed => ?_⟩
  cases hsrej : SelRej.srej r.win 1 with
  | error e =>
      rw [hsrej] at hanswer
      cases hanswer
  | ok answer =>
      rw [hsrej] at hanswer
      obtain ⟨packet, rfl, hzero⟩ := Option.map_eq_some_iff.mp (Except.ok.inj hanswer)
      rw [hnamed.named packet hsrej] at hzero
      exact absurd hzero (by decide)

end ServerRun
end SelRej
