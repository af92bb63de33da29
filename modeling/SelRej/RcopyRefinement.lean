import SelRej.PartialRun
import SelRej.Rcopy
import SelRej.ReceiveWindow

/-!
# rcopy refines the reorder buffer

`Simulates` relates rcopy to a well-formed reorder buffer: rcopy waits in
`recvDataLoop` while nothing is missing, and in `handleSrej` otherwise. A data
packet whose number fits the window then has on rcopy exactly the effect that
its arrival has on the buffer, and rcopy's actions are the outputs of the
buffer as they appear on the wire: an acknowledgement is an RR, a rejection a
SREJ, a delivery a write, and every PDU takes the next value of `mySeq`.
-/
namespace SelRej
open CInt ReorderBuffer PartialRun

def wire (mySeq : UInt32) : List (Output PduS) → List Action
  | [] => []
  | .deliver _ packet :: out => .fwrite packet :: wire mySeq out
  | .ack k :: out =>
      .sendto (createPdu mySeq RR_FLAG (htonl (UInt32.ofNat k))) :: wire (mySeq + 1) out
  | .nack k :: out =>
      .sendto (createPdu mySeq SREJ_FLAG (htonl (UInt32.ofNat k))) :: wire (mySeq + 1) out

def seqAfter (mySeq : UInt32) : List (Output PduS) → UInt32
  | [] => mySeq
  | .deliver _ _ :: out => seqAfter mySeq out
  | .ack _ :: out | .nack _ :: out => seqAfter (mySeq + 1) out

theorem wire_append (mySeq : UInt32) (out out' : List (Output PduS)) :
    wire mySeq (out ++ out') = wire mySeq out ++ wire (seqAfter mySeq out) out' := by
  induction out generalizing mySeq with
  | nil => rfl
  | cons o out ih => cases o <;> simp only [List.cons_append, wire, seqAfter, ih]

theorem seqAfter_append (mySeq : UInt32) (out out' : List (Output PduS)) :
    seqAfter mySeq (out ++ out') = seqAfter (seqAfter mySeq out) out' := by
  induction out generalizing mySeq with
  | nil => rfl
  | cons o out ih => cases o <;> simp only [List.cons_append, seqAfter, ih]

theorem eq_ofNat {x : UInt32} {k : ℕ} (h : x.toNat = k) : x = UInt32.ofNat k := by
  subst h
  exact UInt32.ofNat_toNat.symm

theorem succ_eq_ofNat {x : UInt32} {k : ℕ} (h : x.toNat = k) : x + 1 = UInt32.ofNat (k + 1) := by
  rw [eq_ofNat h, UInt32.ofNat_add]
  rfl

theorem succ_toNat {x : UInt32} {k : ℕ} (h : x.toNat = k) (hk : k < 4294967295) :
    (x + 1).toNat = k + 1 := by
  rw [succ_eq_ofNat h, UInt32.toNat_ofNat_of_lt' (show k + 1 < 4294967296 by omega)]

theorem sendRR_eq (r : Rcopy) (readySeq : UInt32) : sendRR r readySeq =
    ⟨[.sendto (createPdu r.mySeq RR_FLAG (htonl readySeq))],
      .ok { r with mySeq := r.mySeq + 1 }⟩ := (rfl)

theorem resendSrej_eq (r : Rcopy) : resendSrej r =
    ⟨[.sendto (createPdu r.mySeq SREJ_FLAG (htonl (firstPacket r.win)))],
      .ok { r with mySeq := r.mySeq + 1 }⟩ := (rfl)

theorem recvDataLoopTest_data (r : Rcopy) :
    recvDataLoopTest r DATA_FLAG = { r with pc := .recvDataLoop } := by
  unfold recvDataLoopTest
  rw [if_neg (by decide)]

theorem FitsInt.mono {w j k : ℕ} (h : FitsInt w k) (hj : j ≤ k) : FitsInt w j := by
  unfold FitsInt at h ⊢
  omega

/-- The window of rcopy, in either mode. -/
def Queued (win : Window) (w : ℕ) (b : ReorderBuffer PduS) : Prop :=
  if b.next = b.seen then Idle win w else Waiting win w b

section
variable {win : Window} {w : ℕ} {b : ReorderBuffer PduS} {r : Rcopy}

theorem Queued.idle (h : Queued win w b) (heq : b.next = b.seen) : Idle win w := by
  rwa [Queued, if_pos heq] at h

theorem Queued.waiting (h : Queued win w b) (hne : b.next ≠ b.seen) : Waiting win w b := by
  rwa [Queued, if_neg hne] at h

theorem Waiting.enclosed (h : Waiting win w b) : b.Enclosed where
  next_le := Nat.le_of_lt h.missing
  mem := by
    intro k packet hk
    obtain ⟨hge, hlt, _⟩ := h.held k packet hk
    exact ⟨hge, hlt⟩

theorem Waiting.queued (h : Waiting win w b) : Queued win w b := by
  rw [Queued, if_neg (by have := h.missing; omega)]
  exact h

theorem Queued.unbuffer_missing (h : Queued win w b) (hmissing : b.held b.next = none) :
    unbuffer win = .ok (none, win) := by
  by_cases heq : b.next = b.seen
  · exact (h.idle heq).unbuffer_eq
  · exact (h.waiting heq).unbuffer_missing hmissing

theorem Queued.isBufEmpty_iff (h : Queued win w b) :
    isBufEmpty win = true ↔ b.next = b.seen := by
  by_cases heq : b.next = b.seen
  · exact ⟨fun _ => heq, fun _ => (h.idle heq).isBufEmpty⟩
  · rw [(h.waiting heq).isBufEmpty]
    exact ⟨fun hf => absurd hf Bool.false_ne_true, fun hf => absurd hf heq⟩

theorem Queued.skip_eq (h : Queued win w b) (hidle : b.next = b.seen → b.held = fun _ => none)
    {seqNum : UInt32} (hseq : seqNum.toNat = b.seen) (hroom : b.seen < b.next + w)
    (hfit : FitsInt w b.seen) :
    ∃ win', skip win seqNum = .ok (1, win') ∧ Waiting win' w ⟨b.next, b.seen + 1, b.held⟩ := by
  by_cases heq : b.next = b.seen
  · obtain ⟨win', hskip, hwait⟩ := (h.idle heq).skip_eq
      (show FitsInt w seqNum.toNat by rwa [hseq])
    rw [hseq, ← heq, ← hidle heq, heq] at hwait
    exact ⟨win', hskip, heq ▸ hwait⟩
  · exact (h.waiting heq).skip_eq hseq hroom

/-- The values that consecutive calls of `skip` return, and the window after. -/
def skips : ℕ → UInt32 → Window → Except Halt (List ℕ × Window)
  | 0, _, win => pure ([], win)
  | n + 1, i, win => do
      let (ret, win) ← skip win i
      let (rets, win) ← skips n (i + 1) win
      return (ret :: rets, win)

/-- Every skip within the window returns 1. -/
theorem skips_eq {n : ℕ} {i : UInt32} (h : Queued win w b)
    (hidle : b.next = b.seen → b.held = fun _ => none) (hi : i.toNat = b.seen)
    (hroom : b.seen + n ≤ b.next + w) (hfit : FitsInt w (b.seen + n))
    (hn : b.seen + n < 4294967296) :
    ∃ win', skips n i win = .ok (List.replicate n 1, win') ∧
      Queued win' w ⟨b.next, b.seen + n, b.held⟩ := by
  induction n generalizing win b i with
  | zero => exact ⟨win, rfl, h⟩
  | succ n ih =>
      obtain ⟨win₁, hskip, hwait⟩ := h.skip_eq hidle hi (by omega) (hfit.mono (by omega))
      obtain ⟨win₂, hrest, hqueued⟩ := ih (i := i + 1) hwait.queued
        (fun he => absurd he (Nat.ne_of_lt hwait.missing)) (succ_toNat hi (by omega))
        (by simp only; omega) (hfit.mono (by simp only; omega)) (by simp only; omega)
      refine ⟨win₂, ?_, ?_⟩
      · rw [skips, hskip, ok_bind]
        dsimp only
        rw [hrest, ok_bind]
        rfl
      · simp only at hqueued
        rwa [show b.seen + 1 + n = b.seen + (n + 1) by omega] at hqueued

/-- With all numbers of the window seen, the next call of `skip` exits. -/
theorem sendSrejsLoop_overflow {n : ℕ} {i : UInt32} (hpos : 0 < w) (h : Queued r.win w b)
    (hidle : b.next = b.seen → b.held = fun _ => none) (hi : i.toNat = b.seen)
    (hroom : b.seen ≤ b.next + w) (hover : b.next + w < b.seen + n)
    (hfit : FitsInt w (b.next + w)) (hn : b.next + w < 4294967295) :
    skips n i r.win = .error .exit ∧ sendSrejsLoop n i r =
      ⟨wire r.mySeq (nacks b.seen (b.next + w)), .error .exit⟩ := by
  induction n generalizing r b i with
  | zero => omega
  | succ n ih =>
      by_cases hfull : b.seen = b.next + w
      · have hskip := (h.waiting (by omega)).skip_of_full hfull i
        refine ⟨by rw [skips, hskip, error_bind], ?_⟩
        rw [sendSrejsLoop, hskip, Emit.liftM_eq, Emit.bind_error, hfull]
        simp only [nacks, Nat.sub_self, List.range'_zero, List.map_nil, wire]
      · obtain ⟨win₁, hskip, hwait⟩ := h.skip_eq hidle hi (by omega) (hfit.mono (by omega))
        obtain ⟨hrest, hloop⟩ := ih (r := { r with win := win₁, mySeq := r.mySeq + 1 })
          (i := i + 1) hwait.queued (fun he => absurd he (Nat.ne_of_lt hwait.missing))
          (succ_toNat hi (by omega)) (by simp only; omega) (by simp only; omega) hfit hn
        refine ⟨by rw [skips, hskip, ok_bind]; dsimp only; rw [hrest, error_bind], ?_⟩
        have hnacks : (nacks b.seen (b.next + w) : List (Output PduS)) =
            .nack b.seen :: nacks (b.seen + 1) (b.next + w) := by
          simp only [nacks]
          rw [show b.next + w - b.seen = (b.next + w - (b.seen + 1)) + 1 by omega,
            List.range'_succ, List.map_cons]
        rw [sendSrejsLoop, hskip, Emit.liftM_eq, Emit.bind_silent]
        dsimp only
        rw [Emit.emit_eq, Emit.bind_ok, hloop, hnacks, eq_ofNat hi]
        simp only [wire, List.cons_append, List.nil_append]

theorem nacks_succ (start n : ℕ) : (nacks start (start + (n + 1)) : List (Output PduS)) =
    .nack start :: nacks (start + 1) (start + 1 + n) := by
  simp only [nacks, Nat.add_sub_cancel_left, List.range'_succ, List.map_cons]

theorem sendSrejsLoop_of_skips {n : ℕ} {i : UInt32} {rets : List ℕ} {win' : Window} {k : ℕ}
    (hi : i = UInt32.ofNat k) (h : skips n i r.win = .ok (rets, win')) :
    sendSrejsLoop n i r = ⟨wire r.mySeq (nacks k (k + n)),
      .ok { r with win := win', mySeq := seqAfter r.mySeq (nacks k (k + n)) }⟩ := by
  induction n generalizing i k r rets with
  | zero =>
      cases h
      simp only [nacks, Nat.add_zero, Nat.sub_self, List.range'_zero, List.map_nil, wire, seqAfter]
      rfl
  | succ n ih =>
      obtain ⟨⟨ret, win₁⟩, hskip, hrest⟩ := bind_eq_ok_iff.mp h
      obtain ⟨⟨rets₁, win₂⟩, hskips, hret⟩ := bind_eq_ok_iff.mp hrest
      cases hret
      have hnext : i + 1 = UInt32.ofNat (k + 1) := by
        rw [hi, UInt32.ofNat_add]
        rfl
      have hloop := ih (r := { r with win := win₁, mySeq := r.mySeq + 1 }) hnext hskips
      rw [sendSrejsLoop, hskip, Emit.liftM_eq, Emit.bind_silent]
      dsimp only
      rw [Emit.emit_eq, Emit.bind_ok, hloop, nacks_succ, hi]
      simp only [wire, seqAfter, List.cons_append, List.nil_append]

theorem unbufferSrejLoop_eq (fuel : ℕ) (h : Queued r.win w b) (hb : b.Enclosed)
    (hseen : b.seen < 4294967296) (hfuel : b.seen - b.next < fuel) :
    ∃ r', unbufferSrejLoop fuel r =
        ⟨wire r.mySeq (drain (b.seen - b.next) b).1, .ok r'⟩ ∧
      Queued r'.win w (drain (b.seen - b.next) b).2 ∧ r'.win.lastSeq = r.win.lastSeq ∧
      r'.mySeq = seqAfter r.mySeq (drain (b.seen - b.next) b).1 := by
  induction fuel generalizing r b with
  | zero => omega
  | succ fuel ih =>
      have hle := hb.next_le
      cases hheld : b.held b.next with
      | none =>
          rw [drain_of_missing hheld]
          refine ⟨r, ?_, h, rfl, rfl⟩
          rw [unbufferSrejLoop, h.unbuffer_missing hheld, Emit.liftM_eq, Emit.bind_silent]
          rfl
      | some packet =>
          have hlt := (hb.mem _ _ hheld).2
          have hwait := h.waiting (by omega)
          obtain ⟨win', hunbuffer, hlast, hqueued⟩ := hwait.unbuffer_held hheld
          have hnext := (hwait.held _ _ hheld).2.2
          obtain ⟨r', hloop, hqueued', hlast', hmy⟩ := ih
            (r := { r with win := win', mySeq := r.mySeq + 1 }) (b := b.release) hqueued
            (hb.release (by rw [hheld]; rfl)) hseen (by simp only [ReorderBuffer.release]; omega)
          have hdrain : drain (b.seen - b.next) b =
              (.deliver b.next packet :: .ack (b.next + 1) ::
                (drain (b.release.seen - b.release.next) b.release).1,
              (drain (b.release.seen - b.release.next) b.release).2) := by
            rw [show b.seen - b.next = (b.release.seen - b.release.next) + 1 by
              simp only [ReorderBuffer.release]
              omega]
            exact drain_of_held hheld
          rw [hdrain]
          refine ⟨r', ?_, hqueued', hlast'.trans hlast, hmy⟩
          rw [unbufferSrejLoop, hunbuffer, Emit.liftM_eq, Emit.bind_silent]
          dsimp only
          rw [Emit.emit_eq, Emit.bind_ok, sendRR_eq, Emit.bind_ok, hloop, succ_eq_ofNat hnext]
          simp only [wire, List.cons_append, List.nil_append]

structure Simulates (r : Rcopy) (w : ℕ) (b : ReorderBuffer PduS) : Prop where
  wellFormed : b.WellFormed
  bound : b.seen < 4294967296
  fits : FitsInt w (b.seen - 1)
  queued : Queued r.win w b
  idle : b.next = b.seen → r.expectedSeq.toNat = b.next ∧
    (r.pc = .start ∨ r.pc = .recvDataLoop ∨ r.pc = .finished)
  waiting : b.next ≠ b.seen → ∃ lastFlag, r.pc = .handleSrej lastFlag

theorem simulates_init {w : ℕ} (hpos : 0 < w) (hsmall : w < 2147483648) :
    Simulates (Rcopy.init w) w ReorderBuffer.empty where
  wellFormed := empty_wellFormed
  bound := by decide
  fits := .inr (by simp only [ReorderBuffer.empty]; omega)
  queued := idle_initWindow hpos hsmall
  idle := fun _ => ⟨rfl, .inl rfl⟩
  waiting := fun hne => absurd rfl hne

/-- A data packet that may arrive when `next` is the first one missing. -/
structure Fits (w next : ℕ) (packet : PduS) : Prop where
  flag : packet.flag = DATA_FLAG
  bound : packet.seqNum.toNat < 4294967295
  window : packet.seqNum.toNat < next + w
  int : FitsInt w packet.seqNum.toNat

namespace Simulates
variable {packet : PduS}

theorem seen_le (h : Simulates r w b) : b.seen ≤ b.next + w := by
  by_cases heq : b.next = b.seen
  · omega
  · exact (h.queued.waiting heq).fits

theorem held_eq_none (h : Simulates r w b) (heq : b.next = b.seen) :
    b.held = fun _ => none :=
  funext (h.wellFormed.idle_iff.mp heq)

theorem skips_eq (h : Simulates r w b) {k : ℕ} (hk : k < 4294967295) (hwindow : k ≤ b.next + w)
    (hint : FitsInt w k) {first : UInt32} (hfirst : first.toNat = b.seen) : ∃ win',
    skips (k - b.seen) first r.win = .ok (List.replicate (k - b.seen) 1, win') ∧
      Queued win' w ⟨b.next, max b.seen k, b.held⟩ := by
  have hseen := h.bound
  have hle := h.seen_le
  by_cases hgt : b.seen < k
  · have hmax : max b.seen k = b.seen + (k - b.seen) := by omega
    rw [hmax]
    exact SelRej.skips_eq h.queued h.held_eq_none hfirst (by omega) (hint.mono (by omega))
      (by omega)
  · rw [Nat.sub_eq_zero_of_le (by omega), Nat.max_eq_left (by omega)]
    exact ⟨r.win, rfl, h.queued⟩

theorem sendSrejs_eq (h : Simulates r w b) (hp : Fits w b.next packet) {first : UInt32}
    (hfirst : first.toNat = b.seen) : ∃ win',
    sendSrejs r first packet.seqNum = ⟨wire r.mySeq (nacks b.seen packet.seqNum.toNat),
        .ok { r with
          win := win'
          mySeq := seqAfter r.mySeq (nacks b.seen packet.seqNum.toNat) }⟩ ∧
      Queued win' w ⟨b.next, max b.seen packet.seqNum.toNat, b.held⟩ := by
  obtain ⟨win', hskips, hqueued⟩ := h.skips_eq hp.bound (Nat.le_of_lt hp.window) hp.int hfirst
  have hloop := sendSrejsLoop_of_skips (eq_ofNat hfirst) hskips
  have hnacks : (nacks b.seen (b.seen + (packet.seqNum.toNat - b.seen)) : List (Output PduS)) =
      nacks b.seen packet.seqNum.toNat := by
    simp only [nacks, Nat.add_sub_cancel_left]
  rw [hnacks] at hloop
  refine ⟨win', ?_, hqueued⟩
  rw [sendSrejs, hfirst, hloop]

/-- After the skips, a packet above the first missing one can be stored. -/
theorem buffer_eq (h : Simulates r w b) (hp : Fits w b.next packet)
    (hgt : b.next < packet.seqNum.toNat) {win' : Window}
    (hqueued : Queued win' w ⟨b.next, max b.seen packet.seqNum.toNat, b.held⟩) :
    ∃ win'', buffer win' packet = .ok (1, win'') ∧
      Waiting win'' w (b.hold packet.seqNum.toNat packet) := by
  have hwait := hqueued.waiting (by simp only; omega)
  have hlast : FitsInt w (max b.seen packet.seqNum.toNat - 1) := by
    by_cases hmax : b.seen ≤ packet.seqNum.toNat
    · exact hp.int.mono (by omega)
    · rw [Nat.max_eq_left (by omega)]
      exact h.fits
  obtain ⟨win'', hbuffer, hwait'⟩ := hwait.buffer_above rfl hgt hp.window hp.int hlast
  have hhold : (⟨b.next, max b.seen packet.seqNum.toNat, b.held⟩ : ReorderBuffer PduS).hold
      packet.seqNum.toNat packet = b.hold packet.seqNum.toNat packet := by
    simp only [ReorderBuffer.hold]
    congr 1
    omega
  exact ⟨win'', hbuffer, hhold ▸ hwait'⟩

end Simulates

theorem simulates_handleSrejTest (hb : b.WellFormed) (hbound : b.seen < 4294967296)
    (hfits : FitsInt w (b.seen - 1)) (hqueued : Queued r.win w b)
    (hlast : r.win.lastSeq.toNat + 1 = b.seen) :
    Simulates (handleSrejTest r DATA_FLAG) w b ∧ (handleSrejTest r DATA_FLAG).mySeq = r.mySeq ∧
      (handleSrejTest r DATA_FLAG).pc ≠ .finished := by
  unfold handleSrejTest
  by_cases heq : b.next = b.seen
  · rw [if_pos (hqueued.isBufEmpty_iff.mpr heq), recvDataLoopTest_data]
    refine ⟨⟨hb, hbound, hfits, hqueued, fun _ => ⟨?_, .inr (.inl rfl)⟩, fun hne => absurd heq hne⟩,
      rfl, by simp⟩
    simp only [lastPacket]
    rw [succ_toNat rfl (by omega)]
    omega
  · rw [if_neg (fun hempty => heq (hqueued.isBufEmpty_iff.mp hempty))]
    exact ⟨⟨hb, hbound, hfits, hqueued, fun he => absurd he heq, fun _ => ⟨_, rfl⟩⟩, rfl, by simp⟩

namespace Simulates
variable {packet : PduS}

/-- What the arrival of the packet does to the bounds of the buffer. -/
theorem arrive_bounds (h : Simulates r w b) (hp : Fits w b.next packet) :
    (b.arrive packet.seqNum.toNat packet).2.WellFormed ∧
      (b.arrive packet.seqNum.toNat packet).2.seen < 4294967296 ∧
      FitsInt w ((b.arrive packet.seqNum.toNat packet).2.seen - 1) := by
  have hbound := hp.bound
  have hseen := h.bound
  have hle : (b.arrive packet.seqNum.toNat packet).2.seen ≤
      max b.seen (packet.seqNum.toNat + 1) := arrive_seen_le (by omega) (by omega)
  refine ⟨arrive_wellFormed h.wellFormed _ _, by omega, ?_⟩
  by_cases hmax : b.seen ≤ packet.seqNum.toNat + 1
  · exact hp.int.mono (by omega)
  · exact h.fits.mono (by omega)

/-- `p` does on the wire, and to rcopy, what the arrival of the packet does to
the buffer. -/
def Answers (r : Rcopy) (w : ℕ) (b : ReorderBuffer PduS) (packet : PduS) (p : Proc Rcopy) : Prop :=
  ∃ r', p = ⟨wire r.mySeq (b.arrive packet.seqNum.toNat packet).1, .ok r'⟩ ∧
    Simulates r' w (b.arrive packet.seqNum.toNat packet).2 ∧
    r'.mySeq = seqAfter r.mySeq (b.arrive packet.seqNum.toNat packet).1 ∧
    r'.pc ≠ .finished

theorem processDataPacket_old (h : Simulates r w b) (hidle : b.next = b.seen)
    (hlt : packet.seqNum.toNat < b.next) :
    Answers r w b packet (processDataPacket r packet) := by
  have hexpected := (h.idle hidle).1
  have hdata : processDataPacket r packet =
      ⟨[.sendto (createPdu r.mySeq RR_FLAG (htonl r.expectedSeq))],
        .ok { r with mySeq := r.mySeq + 1, pc := .recvDataLoop }⟩ := by
    unfold processDataPacket
    rw [if_neg (by rw [UInt32.lt_iff_toNat_lt]; omega),
      if_neg (by rw [← UInt32.toNat_inj]; omega), sendRR_eq, Emit.bind_ok]
    simp only [recvDataLoopTest_data]
    rfl
  rw [Answers, arrive_of_lt hlt, if_pos hidle, hdata]
  refine ⟨{ r with mySeq := r.mySeq + 1, pc := .recvDataLoop }, ?_,
    ⟨h.wellFormed, h.bound, h.fits, h.queued, fun _ => ⟨hexpected, .inr (.inl rfl)⟩,
      fun hne => absurd hidle hne⟩, rfl, by simp⟩
  rw [eq_ofNat hexpected]
  rfl

theorem processDataPacket_next (h : Simulates r w b) (hidle : b.next = b.seen)
    (hp : Fits w b.next packet) (heq : packet.seqNum.toNat = b.next) :
    Answers r w b packet (processDataPacket r packet) := by
  have hexpected := (h.idle hidle).1
  have hbound := hp.bound
  obtain ⟨hwf, hseen, hfits⟩ := h.arrive_bounds hp
  have hdata : processDataPacket r packet =
      ⟨[.fwrite packet,
        .sendto (createPdu r.mySeq RR_FLAG (htonl (r.expectedSeq + 1)))],
        .ok { r with
          expectedSeq := r.expectedSeq + 1
          mySeq := r.mySeq + 1
          pc := .recvDataLoop }⟩ := by
    unfold processDataPacket
    rw [if_neg (by rw [UInt32.lt_iff_toNat_lt]; omega),
      if_pos (UInt32.toNat_inj.mp (heq.trans hexpected.symm)), Emit.emit_eq, Emit.bind_ok,
      sendRR_eq, Emit.bind_ok]
    simp only [recvDataLoopTest_data]
    rfl
  rw [heq, arrive_of_idle h.wellFormed hidle] at hwf hseen hfits
  rw [Answers, heq, arrive_of_idle h.wellFormed hidle, hdata, succ_eq_ofNat hexpected]
  refine ⟨_, rfl, ⟨hwf, hseen, hfits, ?_, fun _ => ⟨?_, .inr (.inl rfl)⟩,
    fun hne => absurd rfl hne⟩, rfl, by simp⟩
  · rw [Queued, if_pos rfl]
    exact h.queued.idle hidle
  · exact UInt32.toNat_ofNat_of_lt' (show b.next + 1 < 4294967296 by omega)

theorem processDataPacket_gap (h : Simulates r w b) (hidle : b.next = b.seen)
    (hp : Fits w b.next packet) (hgt : b.next < packet.seqNum.toNat) :
    Answers r w b packet (processDataPacket r packet) := by
  have hexpected := (h.idle hidle).1
  obtain ⟨hwf, hseen, hfits⟩ := h.arrive_bounds hp
  obtain ⟨win', hsrejs, hqueued⟩ := h.sendSrejs_eq hp (hexpected.trans hidle)
  obtain ⟨win'', hbuffer, hwait⟩ := h.buffer_eq hp hgt hqueued
  rw [arrive_of_gt hgt] at hwf hseen hfits
  have hdata : processDataPacket r packet = ⟨wire r.mySeq (nacks b.seen packet.seqNum.toNat),
      .ok (handleSrejTest { r with
        win := win''
        mySeq := seqAfter r.mySeq (nacks b.seen packet.seqNum.toNat) } DATA_FLAG)⟩ := by
    unfold processDataPacket Rcopy.handleSrej
    rw [if_pos (by rw [UInt32.lt_iff_toNat_lt]; omega), hsrejs, Emit.bind_ok]
    simp only [bufferPacket, hbuffer, Emit.liftM_eq, Emit.bind_silent]
    rw [if_neg Nat.one_ne_zero, Emit.pure_eq]
    simp only [List.append_nil]
  obtain ⟨hsim, hmy, hpc⟩ := simulates_handleSrejTest (r := { r with
    win := win''
    mySeq := seqAfter r.mySeq (nacks b.seen packet.seqNum.toNat) }) hwf hseen hfits
    hwait.queued hwait.lastSeq
  rw [Answers, arrive_of_gt hgt]
  exact ⟨_, hdata, hsim, hmy, hpc⟩

theorem processDataPacket_eq (h : Simulates r w b) (hidle : b.next = b.seen)
    (hp : Fits w b.next packet) : Answers r w b packet (processDataPacket r packet) := by
  rcases Nat.lt_trichotomy packet.seqNum.toNat b.next with hlt | heq | hgt
  · exact h.processDataPacket_old hidle hlt
  · exact h.processDataPacket_next hidle hp heq
  · exact h.processDataPacket_gap hidle hp hgt

end Simulates

/-- With the rejections sent before it, `bufferWaitingPacket` sends what the
arrival of the packet sends. -/
def Stores (r : Rcopy) (w : ℕ) (b : ReorderBuffer PduS) (packet : PduS) : Prop :=
  ∃ r' out, bufferWaitingPacket r packet = ⟨wire r.mySeq out, .ok r'⟩ ∧
    nacks b.seen packet.seqNum.toNat ++ out = (b.arrive packet.seqNum.toNat packet).1 ∧
    Queued r'.win w (b.arrive packet.seqNum.toNat packet).2 ∧
    r'.win.lastSeq.toNat + 1 = (b.arrive packet.seqNum.toNat packet).2.seen ∧
    r'.mySeq = seqAfter r.mySeq out

theorem nacks_of_le {start stop : ℕ} (h : stop ≤ start) :
    (nacks start stop : List (Output PduS)) = [] := by
  rw [nacks, Nat.sub_eq_zero_of_le h]
  rfl

section
variable {packet : PduS}

theorem bufferWaitingPacket_old (hwait : Waiting r.win w b) (hlt : packet.seqNum.toNat < b.next) :
    Stores r w b packet := by
  have hmissing := hwait.missing
  have hfirst : (firstPacket r.win).toNat = b.next := hwait.firstSeq
  unfold Stores bufferWaitingPacket
  rw [arrive_of_lt hlt, if_neg (Nat.ne_of_lt hmissing), nacks_of_le (by omega),
    if_neg (by rw [UInt32.le_iff_toNat_le]; omega), sendRR_eq, Emit.bind_ok, resendSrej_eq]
  refine ⟨{ r with mySeq := r.mySeq + 1 + 1 }, [.ack b.next, .nack b.next], ?_, rfl,
    hwait.queued, hwait.lastSeq, rfl⟩
  simp only [wire, eq_ofNat hfirst, List.cons_append, List.nil_append]

/-- The packet in turn is stored, and the buffer drained. -/
theorem bufferWaitingPacket_next (hwait : Waiting r.win w b) (hbound : b.seen < 4294967296)
    (heq : packet.seqNum.toNat = b.next) : Stores r w b packet := by
  have hmissing := hwait.missing
  have hfits := hwait.fits
  have hfirst : (firstPacket r.win).toNat = b.next := hwait.firstSeq
  obtain ⟨win', hbuffer, hwait'⟩ := hwait.buffer_next heq
  have hseen : (b.hold b.next packet).seen = b.seen := Nat.max_eq_left hmissing
  have hnext : (b.hold b.next packet).next = b.next := rfl
  have hsize : win'.winSize.toNat = w := by
    rw [hwait'.winSize]
    rfl
  obtain ⟨r', hloop, hqueued, hlast, hmy⟩ := unbufferSrejLoop_eq (w + 1)
    (r := { r with win := win' }) hwait'.queued hwait'.enclosed (by omega)
    (by rw [hseen, hnext]; omega)
  unfold Stores bufferWaitingPacket
  rw [arrive_of_eq heq, nacks_of_le (by omega),
    if_pos (by rw [UInt32.le_iff_toNat_le]; omega), heq]
  simp only [bufferPacket, hbuffer, Emit.liftM_eq, Emit.bind_silent]
  rw [if_neg (by decide), if_pos trivial, unbufferSrej]
  simp only [hsize]
  refine ⟨r', _, hloop, rfl, hqueued, ?_, hmy⟩
  rw [hlast, drain_seen]
  exact hwait'.lastSeq

end

namespace Simulates
variable {packet : PduS}

theorem bufferWaitingPacket_above (h : Simulates r w b) (hp : Fits w b.next packet) {r₁ : Rcopy}
    (hqueued : Queued r₁.win w ⟨b.next, max b.seen packet.seqNum.toNat, b.held⟩)
    (hgt : b.next < packet.seqNum.toNat) : Stores r₁ w b packet := by
  have hwait := hqueued.waiting (by simp only; omega)
  have hfirst : (firstPacket r₁.win).toNat = b.next := hwait.firstSeq
  obtain ⟨win', hbuffer, hwait'⟩ := h.buffer_eq hp hgt hqueued
  unfold Stores bufferWaitingPacket
  rw [arrive_of_gt hgt, if_pos (by rw [UInt32.le_iff_toNat_le]; omega)]
  simp only [bufferPacket, hbuffer, Emit.liftM_eq, Emit.bind_silent]
  rw [if_neg Nat.one_ne_zero, if_neg (by decide)]
  exact ⟨_, [], rfl, List.append_nil _, hwait'.queued, hwait'.lastSeq, rfl⟩

theorem bufferWaitingPacket_eq (h : Simulates r w b) (hmissing : b.next ≠ b.seen)
    (hp : Fits w b.next packet) (r₁ : Rcopy)
    (hqueued : Queued r₁.win w ⟨b.next, max b.seen packet.seqNum.toNat, b.held⟩) :
    Stores r₁ w b packet := by
  have hle := h.wellFormed.next_le
  have hsame : packet.seqNum.toNat ≤ b.seen → Waiting r₁.win w b := by
    intro hold
    have hwait := hqueued.waiting (by simp only; omega)
    rwa [Nat.max_eq_left hold] at hwait
  rcases Nat.lt_trichotomy packet.seqNum.toNat b.next with hlt | heq | hgt
  · exact bufferWaitingPacket_old (hsame (by omega)) hlt
  · exact bufferWaitingPacket_next (hsame (by omega)) h.bound heq
  · exact h.bufferWaitingPacket_above hp hqueued hgt

theorem processWaitingPacket_eq (h : Simulates r w b) (hmissing : b.next ≠ b.seen)
    (hp : Fits w b.next packet) : ∃ r',
    processWaitingPacket r packet =
        ⟨wire r.mySeq (b.arrive packet.seqNum.toNat packet).1, .ok (r', DATA_FLAG)⟩ ∧
      Queued r'.win w (b.arrive packet.seqNum.toNat packet).2 ∧
      r'.win.lastSeq.toNat + 1 = (b.arrive packet.seqNum.toNat packet).2.seen ∧
      r'.mySeq = seqAfter r.mySeq (b.arrive packet.seqNum.toNat packet).1 := by
  have hseen := h.bound
  have hlast : (lastPacket r.win + 1).toNat = b.seen := by
    have := (h.queued.waiting hmissing).lastSeq
    rw [lastPacket, succ_toNat rfl (by omega)]
    exact this
  have hskipped : (if lastPacket r.win + 1 < packet.seqNum then
      sendSrejs r (lastPacket r.win + 1) packet.seqNum else pure r) =
      sendSrejs r (lastPacket r.win + 1) packet.seqNum := by
    by_cases hgap : lastPacket r.win + 1 < packet.seqNum
    · rw [if_pos hgap]
    · rw [UInt32.lt_iff_toNat_lt] at hgap
      rw [if_neg (by rw [UInt32.lt_iff_toNat_lt]; exact hgap), sendSrejs,
        Nat.sub_eq_zero_of_le (by omega)]
      rfl
  obtain ⟨win', hsrejs, hqueued⟩ := h.sendSrejs_eq hp hlast
  obtain ⟨r', out, hbuffer, hout, hqueued', hlast', hmy⟩ :=
    h.bufferWaitingPacket_eq hmissing hp { r with
      win := win'
      mySeq := seqAfter r.mySeq (nacks b.seen packet.seqNum.toNat) } hqueued
  refine ⟨r', ?_, hqueued', hlast', ?_⟩
  · unfold processWaitingPacket
    rw [if_neg (not_not.mpr hp.flag), hskipped, hsrejs, Emit.bind_ok, hbuffer, Emit.bind_ok,
      ← hout, wire_append]
    simp only [Emit.pure_eq, List.append_nil]
  · rw [hmy, ← hout, seqAfter_append]

/-- A data packet that fits acts on rcopy as its arrival acts on the buffer. -/
theorem receive_eq (h : Simulates r w b) (hpc : r.pc ≠ .finished) (hp : Fits w b.next packet) :
    Answers r w b packet (r.receive packet) := by
  have hprocess : processPacket r packet = processDataPacket r packet := by
    rw [processPacket, if_pos hp.flag]
  by_cases hidle : b.next = b.seen
  · obtain ⟨_, hstart | hloop | hfinished⟩ := h.idle hidle
    · simp only [Rcopy.receive, hstart, hp.flag, or_true, if_true, hprocess]
      exact h.processDataPacket_eq hidle hp
    · simp only [Rcopy.receive, hloop, hprocess]
      exact h.processDataPacket_eq hidle hp
    · exact absurd hfinished hpc
  · obtain ⟨lastFlag, hsrej⟩ := h.waiting hidle
    obtain ⟨r', hwaiting, hqueued, hlast, hmy⟩ := h.processWaitingPacket_eq hidle hp
    obtain ⟨hwf, hseen, hfits⟩ := h.arrive_bounds hp
    obtain ⟨hsim, hmy', hpc'⟩ := simulates_handleSrejTest hwf hseen hfits hqueued hlast
    refine ⟨_, ?_, hsim, hmy'.trans hmy, hpc'⟩
    simp only [Rcopy.receive, hsrej, hwaiting, Emit.bind_ok, Emit.pure_eq, List.append_nil]

theorem set_pc (h : Simulates r w b) (hidle : b.next = b.seen) {pc : RcopyPc}
    (hpc : pc = .start ∨ pc = .recvDataLoop ∨ pc = .finished) :
    Simulates { r with pc := pc } w b :=
  ⟨h.wellFormed, h.bound, h.fits, h.queued, fun _ => ⟨(h.idle hidle).1, hpc⟩,
    fun hne => absurd hidle hne⟩

/-- `p` changes nothing but the loop rcopy waits in, or it is the answer to an
EOF when nothing is missing. -/
def Controls (r : Rcopy) (w : ℕ) (b : ReorderBuffer PduS) (packet : PduS) (p : Proc Rcopy) :
    Prop :=
  ∃ out r', p = ⟨out, .ok r'⟩ ∧ Simulates r' w b ∧
    ((out = [] ∧ (r'.pc = .finished ↔ r.pc = .finished)) ∨
      (packet.flag = EOF_FLAG ∧ b.next = b.seen ∧ r'.pc = .finished ∧
        out = [.sendto (createPdu r.mySeq ACKEOF_FLAG [])]))

theorem processPacket_control (h : Simulates r w b) (hidle : b.next = b.seen)
    (hflag : packet.flag ≠ DATA_FLAG) (hpc : r.pc ≠ .finished) :
    Controls r w b packet (processPacket r packet) := by
  unfold processPacket
  rw [if_neg hflag]
  by_cases heof : packet.flag = EOF_FLAG
  · refine ⟨_, { r with pc := .finished }, ?_, h.set_pc hidle (.inr (.inr rfl)),
      .inr ⟨heof, hidle, rfl, rfl⟩⟩
    rw [if_pos heof, Rcopy.processEof, Emit.emit_eq, Emit.bind_ok, recvDataLoopTest, if_pos rfl,
      Emit.pure_eq]
    simp only [List.append_nil]
  · refine ⟨[], { r with pc := .recvDataLoop }, ?_, h.set_pc hidle (.inr (.inl rfl)),
      .inl ⟨rfl, iff_of_false (by simp) hpc⟩⟩
    rw [if_neg heof, recvDataLoopTest, if_neg heof, Emit.pure_eq]

theorem processWaitingPacket_control (h : Simulates r w b) (hmissing : b.next ≠ b.seen)
    (hflag : packet.flag ≠ DATA_FLAG) : Controls r w b packet (r.receive packet) := by
  obtain ⟨lastFlag, hsrej⟩ := h.waiting hmissing
  have hempty := (h.queued.waiting hmissing).isBufEmpty
  refine ⟨[], { r with pc := .handleSrej packet.flag }, ?_,
    ⟨h.wellFormed, h.bound, h.fits, h.queued, fun he => absurd he hmissing, fun _ => ⟨_, rfl⟩⟩,
    .inl ⟨rfl, iff_of_false (by simp) (by simp [hsrej])⟩⟩
  simp only [Rcopy.receive, hsrej]
  rw [processWaitingPacket, if_pos hflag, Emit.pure_eq, Emit.bind_silent]
  simp only [handleSrejTest, hempty, Bool.false_eq_true, if_false]
  rfl

/-- A packet without data changes nothing but the loop rcopy waits in; an EOF
ends the transfer when nothing is missing. -/
theorem receive_control (h : Simulates r w b) (hflag : packet.flag ≠ DATA_FLAG) :
    Controls r w b packet (r.receive packet) := by
  by_cases hidle : b.next = b.seen
  · obtain ⟨_, hstart | hloop | hfinished⟩ := h.idle hidle
    · have hprocess := h.processPacket_control hidle hflag (by simp [hstart])
      by_cases hsetup : packet.flag = SETUPRESP_FLAG ∨ packet.flag = DATA_FLAG
      · simp only [Rcopy.receive, hstart, if_pos hsetup]
        exact hprocess
      · simp only [Rcopy.receive, hstart, if_neg hsetup]
        exact ⟨[], r, rfl, h, .inl ⟨rfl, Iff.rfl⟩⟩
    · have hprocess := h.processPacket_control hidle hflag (by simp [hloop])
      simp only [Rcopy.receive, hloop]
      exact hprocess
    · simp only [Rcopy.receive, hfinished]
      exact ⟨[], r, rfl, h, .inl ⟨rfl, Iff.rfl⟩⟩
  · exact h.processWaitingPacket_control hidle hflag

theorem receive_eof (hpc : r.pc = .recvDataLoop) (hflag : packet.flag = EOF_FLAG) :
    r.receive packet =
      ⟨[.sendto (createPdu r.mySeq ACKEOF_FLAG [])], .ok { r with pc := .finished }⟩ := by
  simp only [Rcopy.receive, hpc]
  rw [processPacket, if_neg (by rw [hflag]; decide), if_pos hflag, Rcopy.processEof, Emit.emit_eq,
    Emit.bind_ok, recvDataLoopTest, if_pos rfl, Emit.pure_eq]
  simp only [List.append_nil]

/-- A data packet more than a window above the first missing one: the numbers
that fit are rejected, and the next call of `skip` exits. -/
theorem receive_overflow (h : Simulates r w b) (hpos : 0 < w) (hpc : r.pc ≠ .finished)
    (hflag : packet.flag = DATA_FLAG) (hbound : packet.seqNum.toNat < 4294967295)
    (hover : b.next + w < packet.seqNum.toNat) (hint : FitsInt w packet.seqNum.toNat) :
    r.receive packet = ⟨wire r.mySeq (nacks b.seen (b.next + w)), .error .exit⟩ := by
  have hle := h.seen_le
  have hsrejs : ∀ first : UInt32, first.toNat = b.seen → sendSrejs r first packet.seqNum =
      ⟨wire r.mySeq (nacks b.seen (b.next + w)), .error .exit⟩ := by
    intro first hfirst
    rw [sendSrejs]
    exact (sendSrejsLoop_overflow hpos h.queued h.held_eq_none hfirst hle (by omega)
      (hint.mono (by omega)) (by omega)).2
  by_cases hidle : b.next = b.seen
  · obtain ⟨hexpected, hstart | hloop | hfinished⟩ := h.idle hidle
    · simp only [Rcopy.receive, hstart, hflag, or_true, if_true, processPacket]
      rw [processDataPacket, if_pos (by rw [UInt32.lt_iff_toNat_lt]; omega), Rcopy.handleSrej,
        hsrejs _ (by omega), Emit.bind_error]
    · simp only [Rcopy.receive, hloop, hflag, if_true, processPacket]
      rw [processDataPacket, if_pos (by rw [UInt32.lt_iff_toNat_lt]; omega), Rcopy.handleSrej,
        hsrejs _ (by omega), Emit.bind_error]
    · exact absurd hfinished hpc
  · obtain ⟨lastFlag, hsrej⟩ := h.waiting hidle
    have hlast : (lastPacket r.win + 1).toNat = b.seen := by
      have := h.bound
      have := (h.queued.waiting hidle).lastSeq
      rw [lastPacket, succ_toNat rfl (by omega)]
      exact this
    simp only [Rcopy.receive, hsrej]
    rw [processWaitingPacket, if_neg (not_not.mpr hflag),
      if_pos (by rw [UInt32.lt_iff_toNat_lt]; omega), hsrejs _ hlast, Emit.bind_error,
      Emit.bind_error]

end Simulates

end
end SelRej
