import SelRej.PartialRun
import SelRej.ServerWindow

/-!
# Runs of calls on the server window

The server initialises the window, sends consecutive numbers while the window
is not full, and meanwhile handles RRs and SREJs with arbitrary arguments.
`step` performs one such call; a run ends where a call stops the process.

When something was sent and everything sent has been acknowledged, the slot of
`current` is empty, and `recvRR` and `srej` read through it. `Answerable`
excludes these states. Where they are avoided, a run never dereferences an
empty slot, and below two to the 31 the window is an interval.
-/
namespace SelRej
open CInt CircularArray PartialRun

/-- The window and, for the record, the packets sent so far. -/
structure ServerRun where
  win : Window
  sent : List PduS

inductive ServerCall where
  | serverSent (packet : PduS)
  | recvRR (seqNum : UInt32)
  | srej (seqNum : UInt32)
  | getLow

namespace ServerRun

def start (w : ℕ) : ServerRun := ⟨(initWindow noWindow w).2, []⟩

def perform (r : ServerRun) : ServerCall → Except Halt ServerRun
  | .serverSent packet => do
      let (_, win) ← SelRej.serverSent r.win packet
      return ⟨win, r.sent ++ [packet]⟩
  | .recvRR seqNum => do
      let (_, win) ← SelRej.recvRR r.win seqNum
      return { r with win }
  | .srej seqNum => do
      let _ ← SelRej.srej r.win seqNum
      return r
  | .getLow => do
      let _ ← SelRej.getLow r.win
      return r

def step (r : ServerRun) (call : ServerCall) : Option ServerRun := (r.perform call).toOption

/-- `transferData` sends when the window is not full, and numbers its packets
with a `uint32_t` counter. -/
def AsSent (r : ServerRun) : ServerCall → Prop
  | .serverSent packet =>
      isWindowFull r.win = .ok false ∧ packet.seqNum.toNat = r.sent.length % 4294967296
  | _ => True

instance decidableAsSent (r : ServerRun) : ∀ call, Decidable (AsSent r call)
  | .serverSent packet => inferInstanceAs (Decidable (isWindowFull r.win = .ok false ∧
      packet.seqNum.toNat = r.sent.length % 4294967296))
  | .recvRR _ | .srej _ | .getLow => inferInstanceAs (Decidable True)

/-- Nothing was sent, or something sent is not acknowledged. -/
def Answerable (r : ServerRun) : Prop := r.sent = [] ∨ isWindowEmpty r.win = .ok false

instance (r : ServerRun) : Decidable r.Answerable :=
  inferInstanceAs (Decidable (r.sent = [] ∨ isWindowEmpty r.win = .ok false))

/-- An RR or a SREJ is handled only in an answerable state. -/
def AnswerableCall (r : ServerRun) : ServerCall → Prop
  | .recvRR _ | .srej _ => r.Answerable
  | _ => True

instance decidableAnswerableCall (r : ServerRun) : ∀ call, Decidable (AnswerableCall r call)
  | .recvRR _ | .srej _ => inferInstanceAs (Decidable r.Answerable)
  | .serverSent _ | .getLow => inferInstanceAs (Decidable True)

variable {r r' : ServerRun} {w lo : ℕ} {call : ServerCall}

theorem answerable_iff (h : Interval r.win w lo r.sent) :
    r.Answerable ↔ r.sent.length = 0 ∨ lo < r.sent.length := by
  have hle := h.le
  rw [Answerable, h.isWindowEmpty_eq, ← List.length_eq_zero_iff]
  simp only [Except.ok.injEq, decide_eq_false_iff_not]
  omega

theorem step_serverSent {packet : PduS} {code : ℕ} {win' : Window}
    (h : SelRej.serverSent r.win packet = .ok (code, win')) :
    r.step (.serverSent packet) = some ⟨win', r.sent ++ [packet]⟩ := by
  simp only [step, perform, h, ok_bind, pure_eq_ok, Except.toOption]

theorem step_recvRR {seqNum : UInt32} {code : ℕ} {win' : Window}
    (h : SelRej.recvRR r.win seqNum = .ok (code, win')) :
    r.step (.recvRR seqNum) = some { r with win := win' } := by
  simp only [step, perform, h, ok_bind, pure_eq_ok, Except.toOption]

theorem step_recvRR_error {seqNum : UInt32} {e : Halt}
    (h : SelRej.recvRR r.win seqNum = .error e) : r.step (.recvRR seqNum) = none := by
  simp only [step, perform, h, error_bind, Except.toOption]

theorem eq_of_step_srej {seqNum : UInt32} (hstep : r.step (.srej seqNum) = some r') : r' = r := by
  cases hs : SelRej.srej r.win seqNum with
  | error e =>
      simp only [step, perform, hs, error_bind, Except.toOption] at hstep
      cases hstep
  | ok answer =>
      simp only [step, perform, hs, ok_bind, pure_eq_ok, Except.toOption, Option.some.injEq] at hstep
      exact hstep.symm

theorem eq_of_step_getLow (hstep : r.step .getLow = some r') : r' = r := by
  cases hs : SelRej.getLow r.win with
  | error e =>
      simp only [step, perform, hs, error_bind, Except.toOption] at hstep
      cases hstep
  | ok answer =>
      simp only [step, perform, hs, ok_bind, pure_eq_ok, Except.toOption, Option.some.injEq] at hstep
      exact hstep.symm

/-- What a call does to an interval from `lo` on: a packet is added, a valid RR
is obeyed, and nothing else has an effect. -/
inductive Changes (w lo : ℕ) (r : ServerRun) : ServerCall → ServerRun → Prop where
  | sends {packet : PduS} {win' : Window} (hint : Interval win' w lo (r.sent ++ [packet]))
      (hupper : win'.upper = r.win.upper) :
      Changes w lo r (.serverSent packet) ⟨win', r.sent ++ [packet]⟩
  | obeys {seqNum : UInt32} {code : ℕ} {win' : Window} (hlt : lo < r.sent.length)
      (hge : lo ≤ seqNum.toNat) (hle : seqNum.toNat ≤ r.sent.length)
      (hrecv : SelRej.recvRR r.win seqNum = .ok (code, win')) :
      Changes w lo r (.recvRR seqNum) { r with win := win' }
  | ignores {seqNum : UInt32}
      (hinvalid : r.sent.length = 0 ∨ r.sent.length < seqNum.toNat ∨ seqNum.toNat < lo) :
      Changes w lo r (.recvRR seqNum) r
  | answers (seqNum : UInt32) : Changes w lo r (.srej seqNum) r
  | reads : Changes w lo r .getLow r

theorem step_changes (h : Interval r.win w lo r.sent) (hlen : r.sent.length < 4294967296)
    (hsent : AsSent r call) (hstep : r.step call = some r') : Changes w lo r call r' := by
  cases call with
  | serverSent packet =>
      obtain ⟨win', heq, hint, hupper⟩ := h.serverSent_eq hsent.1
        (by rw [hsent.2, Nat.mod_eq_of_lt hlen])
      rw [step_serverSent heq] at hstep
      cases hstep
      exact .sends hint hupper
  | recvRR seqNum =>
      rcases Nat.eq_zero_or_pos r.sent.length with hzero | hpos
      · rw [step_recvRR (h.recvRR_of_unsent hzero seqNum)] at hstep
        cases hstep
        exact .ignores (.inl hzero)
      rcases Nat.lt_or_eq_of_le h.le with hlt | heq
      · rcases Nat.lt_or_ge r.sent.length seqNum.toNat with hhigh | hle
        · rw [step_recvRR (h.recvRR_of_high hlt hlen hhigh)] at hstep
          cases hstep
          exact .ignores (.inr (.inl hhigh))
        rcases Nat.lt_or_ge seqNum.toNat lo with hlow | hge
        · rw [step_recvRR (h.recvRR_of_low hlt hlen hlow)] at hstep
          cases hstep
          exact .ignores (.inr (.inr hlow))
        · cases hrecv : SelRej.recvRR r.win seqNum with
          | error e =>
              rw [step_recvRR_error hrecv] at hstep
              cases hstep
          | ok answer =>
              rw [step_recvRR hrecv] at hstep
              cases hstep
              exact .obeys hlt hge hle hrecv
      · -- everything is acknowledged: `recvRR` reads through NULL
        rw [step_recvRR_error (h.recvRR_of_empty hpos heq seqNum)] at hstep
        cases hstep
  | srej seqNum =>
      rw [eq_of_step_srej hstep]
      exact .answers seqNum
  | getLow =>
      rw [eq_of_step_getLow hstep]
      exact .reads

def Sound (w : ℕ) (r : ServerRun) : Prop :=
  ∃ lo, Interval r.win w lo r.sent ∧ IndexSound w lo ∧ lo < 4294967296

theorem length_lt (h : Interval r.win w lo r.sent) (hsound : IndexSound w lo)
    (hlo : lo < 4294967296) (hfull : isWindowFull r.win = .ok false) :
    r.sent.length < 4294967296 := by
  have hroom := h.room_of_not_full hfull
  have hsmall := h.small
  have hle := h.le
  rcases hsound with rfl | hle' | ⟨rfl, _⟩ <;> omega

theorem length_le (h : Interval r.win w lo r.sent) (hsound : IndexSound w lo)
    (hlo : lo < 4294967296) : r.sent.length ≤ 4294967296 := by
  have hfits := h.fits
  have hsmall := h.small
  rcases hsound with rfl | hle' | ⟨rfl, _⟩ <;> omega

theorem sound_start (hpos : 0 < w) (hsmall : w < 2147483648) : Sound w (start w) :=
  ⟨0, (interval_initWindow hpos hsmall).1, .inr (.inl (by omega)), by omega⟩

theorem sound_step (h : Sound w r) (hsent : AsSent r call) (hcall : AnswerableCall r call)
    (hstep : r.step call = some r') : Sound w r' := by
  obtain ⟨lo, hint, hsound, hlo⟩ := h
  cases call with
  | serverSent packet =>
      have hlt := length_lt hint hsound hlo hsent.1
      obtain ⟨win', heq, hint', _⟩ := hint.serverSent_eq hsent.1
        (by rw [hsent.2, Nat.mod_eq_of_lt hlt])
      rw [step_serverSent heq] at hstep
      cases hstep
      exact ⟨lo, hint', hsound, hlo⟩
  | recvRR seqNum =>
      rcases (answerable_iff hint).mp hcall with hzero | hlt
      · rw [step_recvRR (hint.recvRR_of_unsent hzero seqNum)] at hstep
        cases hstep
        exact ⟨lo, hint, hsound, hlo⟩
      · rcases hint.recvRR_sound hlt (length_le hint hsound hlo) hsound seqNum with
          herror | ⟨code, heq⟩ | ⟨win', heq, hint', hsound'⟩
        · rw [step_recvRR_error herror] at hstep
          cases hstep
        · rw [step_recvRR heq] at hstep
          cases hstep
          exact ⟨lo, hint, hsound, hlo⟩
        · rw [step_recvRR heq] at hstep
          cases hstep
          exact ⟨seqNum.toNat, hint', hsound', seqNum.toNat_lt⟩
  | srej seqNum =>
      rw [eq_of_step_srej hstep]
      exact ⟨lo, hint, hsound, hlo⟩
  | getLow =>
      rw [eq_of_step_getLow hstep]
      exact ⟨lo, hint, hsound, hlo⟩

theorem recvRR_null_iff (h : Sound w r) (seqNum : UInt32) :
    SelRej.recvRR r.win seqNum ≠ .error .nullDeref ↔ r.Answerable := by
  obtain ⟨lo, hint, hsound, hlo⟩ := h
  have hle := hint.le
  rw [answerable_iff hint]
  constructor
  · intro hne
    by_contra hans
    exact hne (hint.recvRR_of_empty (by omega) (by omega) seqNum)
  · rintro (hzero | hlt)
    · rw [hint.recvRR_of_unsent hzero]
      simp
    · rcases hint.recvRR_sound hlt (length_le hint hsound hlo) hsound seqNum with
        herror | ⟨code, heq⟩ | ⟨win', heq, _⟩
      · simp [herror]
      · simp [heq]
      · simp [heq]

theorem srej_of_answerable (h : Interval r.win w lo r.sent) (hans : r.Answerable)
    (seqNum : UInt32) : ∃ answer, SelRej.srej r.win seqNum = .ok answer := by
  rcases (answerable_iff h).mp hans with hzero | hlt
  · exact ⟨none, h.srej_of_unsent hzero seqNum⟩
  · exact h.srej_isOk hlt seqNum

theorem srej_null_iff (h : Sound w r) (seqNum : UInt32) :
    SelRej.srej r.win seqNum ≠ .error .nullDeref ↔ r.Answerable := by
  obtain ⟨lo, hint, _, _⟩ := h
  constructor
  · intro hne
    have hle := hint.le
    rw [answerable_iff hint]
    by_contra hans
    exact hne (hint.srej_of_empty (by omega) (by omega) seqNum)
  · intro hans
    obtain ⟨answer, heq⟩ := srej_of_answerable hint hans seqNum
    rw [heq]
    simp

/-- In every run that handles RRs and SREJs in answerable states only, the
next one does not read through an empty slot exactly when its state is
answerable as well. -/
theorem deref_safe_iff {calls : List ServerCall} (hpos : 1 ≤ w) (hsmall : w < 2147483648)
    (hrun : run step (start w) calls = some r)
    (hcalls : Guarded step (fun r call => AsSent r call ∧ AnswerableCall r call) (start w) calls)
    (seqNum : UInt32) :
    (SelRej.recvRR r.win seqNum ≠ .error .nullDeref ↔ r.Answerable) ∧
      (SelRej.srej r.win seqNum ≠ .error .nullDeref ↔ r.Answerable) := by
  have hsound : Sound w r :=
    guarded_induct (fun _ _ _ hs hok hstep => sound_step hs hok.1 hok.2 hstep)
      (sound_start hpos hsmall) hcalls hrun
  exact ⟨recvRR_null_iff hsound seqNum, srej_null_iff hsound seqNum⟩

def sentPacket (k : UInt32) : PduS := ⟨k, 0, DATA_FLAG, [], 0, UInt16.toNat_zero⟩

/-- A window of two: packets 0 and 1 are sent, 0 is rejected and then acknowledged,
and packet 2 is sent in its slot. -/
def reusedSlot : List ServerCall :=
  [.serverSent (sentPacket 0), .serverSent (sentPacket 1), .srej 0, .recvRR 1, .getLow,
    .serverSent (sentPacket 2), .srej 1]

theorem exists_run_reusedSlot : ∃ r, run step (start 2) reusedSlot = some r :=
  Option.isSome_iff_exists.mp (by decide +kernel)

theorem deref_safe_iff_reusedSlot : ∃ r, run step (start 2) reusedSlot = some r ∧
    (SelRej.recvRR r.win 3 ≠ .error .nullDeref ↔ r.Answerable) ∧
      (SelRej.srej r.win 3 ≠ .error .nullDeref ↔ r.Answerable) := by
  obtain ⟨r, hr⟩ := exists_run_reusedSlot
  exact ⟨r, hr, deref_safe_iff (by decide) (by decide) hr (by decide +kernel) 3⟩

def firstPdu : PduS := ⟨0, 0, DATA_FLAG, [], 0, UInt16.toNat_zero⟩

/-- Packet 0 is sent and acknowledged, and a second copy of the RR arrives. -/
theorem duplicate_rr_reads_null : AsSent (start 1) (.serverSent firstPdu) ∧
    (run step (start 1) [.serverSent firstPdu, .recvRR 1]).map
      (fun r => (SelRej.recvRR r.win 1).map Prod.fst) = some (.error .nullDeref) :=
  ⟨⟨by decide +kernel, rfl⟩, by decide +kernel⟩

/-- The packets from `lo` on occupy their slots, all other slots are NULL, and
the three indices are where the interval says. -/
structure IntervalState (win : Window) (w lo : ℕ) (sent : List PduS) : Prop where
  lo_le : lo ≤ sent.length
  width : sent.length - lo ≤ w
  occupied : ∀ i (h : i < sent.length), lo ≤ i →
    win.queue ((i % w : ℕ) : ℤ) = some sent[i] ∧ sent[i].seqNum.toNat = i
  vacant : ∀ j : ℕ, j < w → (∀ i, lo ≤ i → i < sent.length → i % w ≠ j) →
    win.queue j = none
  lower : win.lower = ((lo % w : ℕ) : ℤ)
  upper : win.upper = (((lo + w - 1) % w : ℕ) : ℤ)
  current : win.current =
    if sent.length = 0 then -1 else (((sent.length - 1) % w : ℕ) : ℤ)

theorem intervalState_of_interval {win : Window} {sent : List PduS}
    (h : Interval win w lo sent) (hup : HasUpper win w lo) : IntervalState win w lo sent where
  lo_le := h.le
  width := by
    have := h.fits
    omega
  occupied := by
    intro i hi hlo
    have hfits := h.fits
    exact ⟨by rw [h.queue_eq hlo (by omega), List.getElem?_eq_getElem hi], h.numbered i hi⟩
  vacant := by
    intro j hj hne
    obtain ⟨k, hk, hk', rfl⟩ := exists_mod_eq lo hj
    rw [h.queue_eq hk hk', List.getElem?_eq_none]
    by_contra hlt
    exact hne k hk (by omega) rfl
  lower := h.lower
  upper := hup
  current := h.current

/-- Only numbers below two to the 31, less one, are sent. -/
def Below (r : ServerRun) : ServerCall → Prop
  | .serverSent _ => r.sent.length < 2147483647
  | _ => True

instance decidableBelow (r : ServerRun) : ∀ call, Decidable (Below r call)
  | .serverSent _ => inferInstanceAs (Decidable (r.sent.length < 2147483647))
  | .recvRR _ | .srej _ | .getLow => inferInstanceAs (Decidable True)

def Small (w : ℕ) (r : ServerRun) : Prop :=
  ∃ lo, Interval r.win w lo r.sent ∧ HasUpper r.win w lo ∧ r.sent.length ≤ 2147483647

theorem small_start (hpos : 0 < w) (hsmall : w < 2147483648) : Small w (start w) :=
  ⟨0, (interval_initWindow hpos hsmall).1, (interval_initWindow hpos hsmall).2, by simp [start]⟩

/-- An RR in an answerable state: rejected, ignored or obeyed. -/
theorem recvRR_cases (h : Interval r.win w lo r.sent) (hw : w ≤ 1073741824)
    (hsent : r.sent.length ≤ 2147483647) (hans : r.Answerable) (seqNum : UInt32) :
    ((r.sent.length = 0 ∨ r.sent.length < seqNum.toNat) ∧
        SelRej.recvRR r.win seqNum = .ok (0, r.win)) ∨
      (0 < r.sent.length ∧ seqNum.toNat < lo ∧
        SelRej.recvRR r.win seqNum = .ok (1, r.win)) ∨
      (0 < r.sent.length ∧ lo ≤ seqNum.toNat ∧ seqNum.toNat ≤ r.sent.length ∧
        ∃ win', SelRej.recvRR r.win seqNum = .ok (1, win') ∧
          Interval win' w seqNum.toNat r.sent ∧ HasUpper win' w seqNum.toNat) := by
  rcases (answerable_iff h).mp hans with hzero | hlt
  · exact .inl ⟨.inl hzero, h.recvRR_of_unsent hzero seqNum⟩
  rcases h.recvRR_cases hw hlt hsent seqNum with ⟨hhigh, heq⟩ | ⟨hlow, heq⟩ | ⟨hge, hle, hobey⟩
  · exact .inl ⟨.inr hhigh, heq⟩
  · exact .inr (.inl ⟨by omega, hlow, heq⟩)
  · exact .inr (.inr ⟨by omega, hge, hle, hobey⟩)

theorem small_step (hw : w ≤ 1073741824) (h : Small w r) (hsent : AsSent r call)
    (hbelow : Below r call) (hstep : r.step call = some r') : Small w r' := by
  obtain ⟨lo, hint, hup, hlen⟩ := h
  cases step_changes hint (by omega) hsent hstep with
  | sends hint' hupper =>
      refine ⟨lo, hint', hupper.trans hup, ?_⟩
      simp only [Below] at hbelow
      rw [List.length_append, List.length_singleton]
      omega
  | @obeys seqNum code _ hlt hge hle hrecv =>
      obtain ⟨win', hrecv', hint', hup'⟩ := hint.recvRR_of_mem hlt hge hle (by omega) (by omega)
      rw [hrecv] at hrecv'
      cases hrecv'
      have hmod := Nat.mod_lt seqNum.toNat hint.pos
      exact ⟨seqNum.toNat, hint', hup' (by omega), hlen⟩
  | ignores _ => exact ⟨lo, hint, hup, hlen⟩
  | answers _ => exact ⟨lo, hint, hup, hlen⟩
  | reads => exact ⟨lo, hint, hup, hlen⟩

theorem recvRR_zero_iff (h : Interval r.win w lo r.sent) (hw : w ≤ 1073741824)
    (hsent : r.sent.length ≤ 2147483647) (hans : r.Answerable) (seqNum : UInt32) :
    SelRej.recvRR r.win seqNum = .ok (0, r.win) ↔
      r.sent.length = 0 ∨ r.sent.length < seqNum.toNat := by
  have hle := h.le
  rcases recvRR_cases h hw hsent hans seqNum with
    ⟨hcond, heq⟩ | ⟨_, _, heq⟩ | ⟨_, _, _, win', heq, _⟩
  · exact iff_of_true heq hcond
  · rw [heq]
    exact iff_of_false (by simp) (by omega)
  · rw [heq]
    exact iff_of_false (by simp) (by omega)

/-- Every run of the server's calls leaves the window an interval, and every
further call acts on it as on an interval. -/
theorem window_refines_interval {calls : List ServerCall} (hpos : 1 ≤ w)
    (hw : w ≤ 1073741824) (hrun : run step (start w) calls = some r)
    (hcalls : Guarded step
      (fun r call => AsSent r call ∧ AnswerableCall r call ∧ Below r call) (start w) calls) :
    ∃ lo, IntervalState r.win w lo r.sent ∧
      isWindowFull r.win = .ok (decide (r.sent.length - lo = w)) ∧
      isWindowEmpty r.win = .ok (decide (r.sent.length = lo)) ∧
      SelRej.getLow r.win = .ok (if r.sent.length = lo then none else r.sent[lo]?) ∧
      (∀ packet, AsSent r (.serverSent packet) → r.sent.length < 2147483647 →
        ∃ win', SelRej.serverSent r.win packet = .ok (1, win') ∧
          IntervalState win' w lo (r.sent ++ [packet])) ∧
      (r.Answerable → ∀ seqNum,
        (SelRej.recvRR r.win seqNum = .ok (0, r.win) ↔
          r.sent.length = 0 ∨ r.sent.length < seqNum.toNat) ∧
        (0 < r.sent.length → seqNum.toNat < lo →
          SelRej.recvRR r.win seqNum = .ok (1, r.win)) ∧
        (0 < r.sent.length → lo ≤ seqNum.toNat → seqNum.toNat ≤ r.sent.length →
          ∃ win', SelRej.recvRR r.win seqNum = .ok (1, win') ∧
            IntervalState win' w seqNum.toNat r.sent) ∧
        ∃ answer, SelRej.srej r.win seqNum = .ok answer) := by
  obtain ⟨lo, hint, hup, hlen⟩ : Small w r :=
    guarded_induct (fun _ _ _ hs hok hstep => small_step hw hs hok.1 hok.2.2 hstep)
      (small_start hpos (by omega)) hcalls hrun
  have hle := hint.le
  have hfits := hint.fits
  refine ⟨lo, intervalState_of_interval hint hup, ?_, ?_, ?_, ?_, ?_⟩
  · rw [hint.isWindowFull_eq hup]
    congr 2
    exact propext ⟨fun h => by omega, fun h => by omega⟩
  · rw [hint.isWindowEmpty_eq]
    congr 2
    exact propext eq_comm
  · rw [hint.getLow_eq]
    split_ifs with hempty
    · rw [List.getElem?_eq_none (by omega)]
    · rfl
  · intro packet hsent hbelow
    obtain ⟨win', heq, hint', hupper⟩ := hint.serverSent_eq hsent.1
      (by rw [hsent.2, Nat.mod_eq_of_lt (by omega)])
    exact ⟨win', heq, intervalState_of_interval hint' (hupper.trans hup)⟩
  · intro hans seqNum
    have hcases := recvRR_cases hint hw hlen hans seqNum
    refine ⟨recvRR_zero_iff hint hw hlen hans seqNum, ?_, ?_, srej_of_answerable hint hans seqNum⟩
    · intro hsent hlow
      rcases hcases with ⟨hcond, _⟩ | ⟨_, _, heq⟩ | ⟨_, hge, _⟩
      · omega
      · exact heq
      · omega
    · intro hsent hge hle'
      rcases hcases with ⟨hcond, _⟩ | ⟨_, hlow, _⟩ | ⟨_, _, _, win', heq, hint', hup'⟩
      · omega
      · omega
      · exact ⟨win', heq, intervalState_of_interval hint' hup'⟩

theorem window_refines_interval_reusedSlot : ∃ r, run step (start 2) reusedSlot = some r ∧
    ∃ lo, IntervalState r.win 2 lo r.sent ∧
      isWindowFull r.win = .ok (decide (r.sent.length - lo = 2)) := by
  obtain ⟨r, hr⟩ := exists_run_reusedSlot
  obtain ⟨lo, hstate, hfull, _⟩ :=
    window_refines_interval (by decide) (by decide) hr (by decide +kernel)
  exact ⟨r, hr, lo, hstate, hfull⟩

end ServerRun
end SelRej
