import SelRej.PduCodec
import SelRej.RcopyRefinement

/-!
# Runs of rcopy on data packets

A run feeds data packets to rcopy one after the other, and keeps everything
that rcopy sent and wrote. Two theorems are about all runs: while every packet
fits the window, rcopy is the reorder buffer and no call on the window fails
(`refines_reorder_buffer`); and rcopy writes packets in turn whatever numbers
arrive, with the exception of the number one whole window above the first
missing one (`writes_in_turn`), which has the same slot.
-/
namespace SelRej
open ReorderBuffer PartialRun

/-- Decoding shows that different PDUs have different bytes. -/
theorem createPdu_injective {m n : UInt32} {f g : UInt8} {p q : List UInt8}
    (hp : p.length ≤ 65528) (hq : q.length ≤ 65528) (h : createPdu m f p = createPdu n g q) :
    m = n ∧ f = g ∧ p = q := by
  have hdecode := interpPDU_createPdu m f hp
  rw [h, interpPDU_createPdu n g hq] at hdecode
  simp only [decoded, Except.ok.injEq, Option.some.injEq, PduS.mk.injEq] at hdecode
  exact ⟨hdecode.1.symm, hdecode.2.2.1.symm, hdecode.2.2.2.1.symm⟩

theorem htonl_injective {m n : UInt32} (h : htonl m = htonl n) : m = n := by
  have hread := readSeq_htonl m
  rw [h, readSeq_htonl n] at hread
  exact (Except.ok.inj hread).symm

def written (actions : List Action) : List PduS :=
  actions.filterMap fun
    | .fwrite packet => some packet
    | .sendto _ => none

theorem written_wire (mySeq : UInt32) (out : List (Output PduS)) :
    written (wire mySeq out) = (deliveries out).map Prod.snd := by
  induction out generalizing mySeq with
  | nil => rfl
  | cons o out ih =>
      cases o with
      | deliver k packet =>
          simp only [wire, deliveries, List.map_cons, ← ih mySeq]
          rfl
      | ack k => exact ih (mySeq + 1)
      | nack k => exact ih (mySeq + 1)

/-- With `n` packets written before: the packets written next are numbered `n`,
`n + 1`, and so on, and no RR is above the number of packets written. -/
def WritesInTurn : ℕ → List Action → Prop
  | _, [] => True
  | n, .fwrite packet :: as => packet.seqNum.toNat = n ∧ WritesInTurn (n + 1) as
  | n, .sendto pduBuf :: as =>
      (∀ mySeq k, pduBuf = createPdu mySeq RR_FLAG (htonl k) → k.toNat ≤ n) ∧ WritesInTurn n as

/-- Outputs in turn are writes in turn when items carry their own numbers. -/
theorem writesInTurn_wire {n : ℕ} {mySeq : UInt32} {out : List (Output PduS)} (h : InTurn n out)
    (hnumbers : ∀ p ∈ deliveries out, p.2.seqNum.toNat = p.1) :
    WritesInTurn n (wire mySeq out) := by
  induction out generalizing n mySeq with
  | nil => trivial
  | cons o out ih =>
      cases o with
      | deliver k packet =>
          simp only [deliveries, List.mem_cons, forall_eq_or_imp] at hnumbers
          exact ⟨hnumbers.1.trans h.1, ih h.2 hnumbers.2⟩
      | ack k =>
          refine ⟨?_, ih h.2 hnumbers⟩
          intro seq j heq
          obtain ⟨_, _, hpay⟩ := createPdu_injective (by simp) (by simp) heq
          have hk := h.1
          rw [← htonl_injective hpay, UInt32.toNat_ofNat']
          exact Nat.le_trans (Nat.mod_le _ _) hk
      | nack k =>
          refine ⟨?_, ih (n := n) h hnumbers⟩
          intro seq j heq
          obtain ⟨_, hflag, _⟩ := createPdu_injective (by simp) (by simp) heq
          exact absurd hflag (by decide)

/-- rcopy, everything it has done, and the reason why it stopped, if it did. -/
structure RcopyRun where
  rcopy : Rcopy
  actions : List Action
  halted : Option Halt

namespace RcopyRun

def start (w : ℕ) : RcopyRun := ⟨Rcopy.init w, [], none⟩

def step (s : RcopyRun) (packet : PduS) : Option RcopyRun :=
  match s.halted with
  | some _ => none
  | none =>
      match s.rcopy.receive packet with
      | ⟨out, .ok r⟩ => some ⟨r, s.actions ++ out, none⟩
      | ⟨out, .error e⟩ => some ⟨s.rcopy, s.actions ++ out, some e⟩

def count (s : RcopyRun) : ℕ := (written s.actions).length

/-- The first number that `sendSrejs` would skip. -/
def firstSkipped (s : RcopyRun) : UInt32 :=
  match s.rcopy.pc with
  | .handleSrej _ => lastPacket s.rcopy.win + 1
  | _ => s.rcopy.expectedSeq

def skipsFor (s : RcopyRun) (packet : PduS) : Except Halt (List ℕ × Window) :=
  skips (packet.seqNum.toNat - s.firstSkipped.toNat) s.firstSkipped s.rcopy.win

/-- Whether `bufferPacket` is called on the window after the skips. -/
def Buffers (win : Window) (packet : PduS) : Prop :=
  isBufEmpty win = false ∧ firstPacket win ≤ packet.seqNum

def arrivals : ReorderBuffer PduS → List PduS → List (Output PduS) × ReorderBuffer PduS
  | b, [] => ([], b)
  | b, packet :: packets =>
      let now := b.arrive packet.seqNum.toNat packet
      let rest := arrivals now.2 packets
      (now.1 ++ rest.1, rest.2)

/-- The run stands where the reorder buffer stands after putting out `out`. -/
structure Mirrors (s : RcopyRun) (w : ℕ) (out : List (Output PduS)) (b : ReorderBuffer PduS) :
    Prop where
  running : s.halted = none
  receiving : s.rcopy.pc ≠ .finished
  simulates : Simulates s.rcopy w b
  actions : s.actions = wire 0 out
  mySeq : s.rcopy.mySeq = seqAfter 0 out
  inTurn : InTurn 0 out
  next : b.next = (deliveries out).length
  numbers : ∀ p ∈ deliveries out, p.2.seqNum.toNat = p.1
  held : ∀ k packet, b.held k = some packet → packet.seqNum.toNat = k

section
variable {s : RcopyRun} {w : ℕ} {out : List (Output PduS)} {b : ReorderBuffer PduS}
  {packet : PduS} {packets : List PduS}

theorem mirrors_start (hpos : 0 < w) (hsmall : w < 2147483648) :
    Mirrors (start w) w [] ReorderBuffer.empty where
  running := rfl
  receiving := by simp [start, Rcopy.init]
  simulates := simulates_init hpos hsmall
  actions := rfl
  mySeq := rfl
  inTurn := trivial
  next := rfl
  numbers := by
    intro p hp
    cases hp
  held := by
    intro k packet hk
    cases hk

namespace Mirrors

theorem count_eq (h : Mirrors s w out b) : s.count = b.next := by
  rw [count, h.actions, written_wire, List.length_map, h.next]

theorem firstSkipped_eq (h : Mirrors s w out b) : s.firstSkipped.toNat = b.seen := by
  unfold firstSkipped
  by_cases hidle : b.next = b.seen
  · obtain ⟨hexpected, hstart | hloop | hfinished⟩ := h.simulates.idle hidle
    · simp only [hstart]
      omega
    · simp only [hloop]
      omega
    · exact absurd hfinished h.receiving
  · obtain ⟨lastFlag, hsrej⟩ := h.simulates.waiting hidle
    have hbound := h.simulates.bound
    have hlast := (h.simulates.queued.waiting hidle).lastSeq
    simp only [hsrej, lastPacket]
    rw [succ_toNat rfl (by omega)]
    exact hlast

theorem step_eq (h : Mirrors s w out b) (hp : Fits w b.next packet) :
    ∃ s', s.step packet = some s' ∧
      Mirrors s' w (out ++ (b.arrive packet.seqNum.toNat packet).1)
        (b.arrive packet.seqNum.toNat packet).2 := by
  obtain ⟨r', hreceive, hsim, hmy, hpc⟩ := h.simulates.receive_eq h.receiving hp
  obtain ⟨hturn, hnext⟩ := arrive_inTurn b packet.seqNum.toNat packet
  obtain ⟨hitems, hheld⟩ := arrive_items (P := fun k p => p.seqNum.toNat = k) h.held
    (k := packet.seqNum.toNat) (a := packet) rfl
  refine ⟨⟨r', s.actions ++ wire s.rcopy.mySeq (b.arrive packet.seqNum.toNat packet).1, none⟩,
    ?_, ?_⟩
  · simp only [step, h.running, hreceive]
  · refine ⟨rfl, hpc, hsim, ?_, ?_, h.inTurn.append ?_, ?_, ?_, hheld⟩
    · simp only
      rw [wire_append, h.actions, h.mySeq]
    · rw [seqAfter_append, ← h.mySeq]
      exact hmy
    · rwa [Nat.zero_add, ← h.next]
    · rw [hnext, deliveries_append, List.length_append, h.next]
    · intro p hp
      rw [deliveries_append, List.mem_append] at hp
      rcases hp with hp | hp
      · exact h.numbers p hp
      · exact hitems p hp

theorem writesInTurn (h : Mirrors s w out b) : WritesInTurn 0 s.actions := by
  rw [h.actions]
  exact writesInTurn_wire h.inTurn h.numbers

theorem skipsFor_eq (h : Mirrors s w out b) (hbound : packet.seqNum.toNat < 4294967295)
    (hwindow : packet.seqNum.toNat ≤ b.next + w) (hint : FitsInt w packet.seqNum.toNat) :
    ∃ win', s.skipsFor packet =
        .ok (List.replicate (packet.seqNum.toNat - b.seen) 1, win') ∧
      Queued win' w ⟨b.next, max b.seen packet.seqNum.toNat, b.held⟩ := by
  unfold skipsFor
  rw [h.firstSkipped_eq]
  exact h.simulates.skips_eq hbound hwindow hint h.firstSkipped_eq

/-- On a packet that fits, every call of `skip` and `buffer` succeeds. -/
theorem calls_succeed (h : Mirrors s w out b) (hp : Fits w b.next packet) :
    ∃ rets win', s.skipsFor packet = .ok (rets, win') ∧ (∀ ret ∈ rets, ret = 1) ∧
      (Buffers win' packet → ∃ ret win'', buffer win' packet = .ok (ret, win'') ∧ ret ≠ 0 ∧
        (ret = 2 → packet.seqNum = firstPacket win')) := by
  obtain ⟨win', hskips, hqueued⟩ := h.skipsFor_eq hp.bound (Nat.le_of_lt hp.window) hp.int
  refine ⟨_, win', hskips, fun ret hret => List.eq_of_mem_replicate hret, ?_⟩
  rintro ⟨hempty, hfirst⟩
  have hwait := hqueued.waiting (fun he => by
    rw [hqueued.isBufEmpty_iff.mpr he] at hempty
    cases hempty)
  have hnext : (firstPacket win').toNat = b.next := hwait.firstSeq
  rw [UInt32.le_iff_toNat_le, hnext] at hfirst
  by_cases heq : packet.seqNum.toNat = b.next
  · obtain ⟨win'', hbuffer, _⟩ := hwait.buffer_next heq
    exact ⟨2, win'', hbuffer, by decide, fun _ => UInt32.toNat_inj.mp (heq.trans hnext.symm)⟩
  · obtain ⟨win'', hbuffer, _⟩ := h.simulates.buffer_eq hp (by omega) hqueued
    exact ⟨1, win'', hbuffer, Nat.one_ne_zero, fun htwo => absurd htwo (by decide)⟩

end Mirrors

/-- A packet below the end of the window at its arrival. -/
structure InWindow (w : ℕ) (s : RcopyRun) (packet : PduS) : Prop where
  flag : packet.flag = DATA_FLAG
  bound : packet.seqNum.toNat < 4294967295
  window : packet.seqNum.toNat < s.count + w

theorem InWindow.fits (h : InWindow w s packet) (hm : Mirrors s w out b)
    (hw : w ≤ 1073741824) : Fits w b.next packet :=
  ⟨h.flag, h.bound, by rw [← hm.count_eq]; exact h.window, .inl hw⟩

theorem mirrors_run (hw : w ≤ 1073741824) (h : Mirrors s w out b)
    (hpackets : Guarded step (InWindow w) s packets) :
    ∃ s', run step s packets = some s' ∧
      Mirrors s' w (out ++ (arrivals b packets).1) (arrivals b packets).2 := by
  induction packets generalizing s out b with
  | nil =>
      refine ⟨s, rfl, ?_⟩
      rw [arrivals, List.append_nil]
      exact h
  | cons packet packets ih =>
      obtain ⟨s₁, hstep, hm⟩ := h.step_eq (hpackets.1.fits h hw)
      obtain ⟨s₂, hrun, hm'⟩ := ih hm (hpackets.2 s₁ hstep)
      refine ⟨s₂, run_cons hstep hrun, ?_⟩
      rw [List.append_assoc] at hm'
      exact hm'

/-- rcopy on packets that fit is the reorder buffer: it sends and writes what
the buffer puts out, it waits in `handleSrej` as long as something is held, it
has left it with the next number to expect, and no call on the window fails. -/
theorem refines_reorder_buffer (hpos : 1 ≤ w) (hw : w ≤ 1073741824)
    (hpackets : Guarded step (InWindow w) (start w) packets) :
    ∃ s b out, run step (start w) packets = some s ∧
      arrivals ReorderBuffer.empty packets = (out, b) ∧
      s.halted = none ∧ s.actions = wire 0 out ∧ s.count = b.next ∧
      ((∃ lastFlag, s.rcopy.pc = .handleSrej lastFlag) ↔ ∃ k, (b.held k).isSome) ∧
      ((∀ k, b.held k = none) → s.rcopy.expectedSeq.toNat = b.next ∧ b.next = b.seen) ∧
      ∀ packet, InWindow w s packet →
        ∃ rets win', s.skipsFor packet = .ok (rets, win') ∧ (∀ ret ∈ rets, ret = 1) ∧
          (Buffers win' packet → ∃ ret win'', buffer win' packet = .ok (ret, win'') ∧ ret ≠ 0) := by
  obtain ⟨s, hrun, hm⟩ := mirrors_run hw (mirrors_start hpos (by omega)) hpackets
  rw [List.nil_append] at hm
  have hidle := hm.simulates.wellFormed.idle_iff
  refine ⟨s, _, _, hrun, rfl, hm.running, hm.actions, hm.count_eq, ⟨?_, ?_⟩, ?_, ?_⟩
  · rintro ⟨lastFlag, hpc⟩
    by_contra hnone
    have heq := hidle.mpr fun k => by
      cases hk : (arrivals ReorderBuffer.empty packets).2.held k with
      | none => rfl
      | some a => exact absurd ⟨k, by rw [hk]; rfl⟩ hnone
    rcases (hm.simulates.idle heq).2 with h | h | h <;> rw [h] at hpc <;> cases hpc
  · rintro ⟨k, hk⟩
    apply hm.simulates.waiting
    intro heq
    rw [hidle.mp heq k] at hk
    cases hk
  · intro hnone
    have heq := hidle.mpr hnone
    exact ⟨(hm.simulates.idle heq).1, heq⟩
  · intro packet hp
    obtain ⟨rets, win', hskips, hrets, hbuffer⟩ := hm.calls_succeed (hp.fits hm hw)
    refine ⟨rets, win', hskips, hrets, fun hb => ?_⟩
    obtain ⟨ret, win'', heq, hne, _⟩ := hbuffer hb
    exact ⟨ret, win'', heq, hne⟩

end

def dataPdu (k : UInt32) : PduS := ⟨k, 0, DATA_FLAG, [], 0, UInt16.toNat_zero⟩

theorem refines_reorder_buffer_swapped : ∃ s b out,
    run step (start 2) [dataPdu 1, dataPdu 0] = some s ∧
      arrivals ReorderBuffer.empty [dataPdu 1, dataPdu 0] = (out, b) ∧ s.halted = none ∧
      s.actions = wire 0 out ∧ s.count = b.next := by
  have hpackets : Guarded step (InWindow 2) (start 2) [dataPdu 1, dataPdu 0] := by
    refine ⟨⟨rfl, by decide, by decide⟩, fun t _ => ⟨⟨rfl, by decide, ?_⟩, fun _ _ => trivial⟩⟩
    exact Nat.lt_of_lt_of_le (show 0 < 2 by decide) (Nat.le_add_left 2 t.count)
  obtain ⟨s, b, out, hrun, harr, hhalted, hactions, hcount, _⟩ :=
    refines_reorder_buffer (by decide) (by decide) hpackets
  exact ⟨s, b, out, hrun, harr, hhalted, hactions, hcount⟩

/-- A data packet whose number does not take the indices out of `int`. -/
structure Arriving (w : ℕ) (packet : PduS) : Prop where
  flag : packet.flag = DATA_FLAG
  bound : packet.seqNum.toNat < 4294967295
  int : FitsInt w packet.seqNum.toNat

/-- A packet that does not lie exactly one window above the first missing one. -/
structure Clear (w : ℕ) (s : RcopyRun) (packet : PduS) : Prop extends Arriving w packet where
  ne : packet.seqNum.toNat ≠ s.count + w

instance (w : ℕ) (s : RcopyRun) (packet : PduS) : Decidable (Clear w s packet) :=
  decidable_of_iff ((packet.flag = DATA_FLAG ∧ packet.seqNum.toNat < 4294967295 ∧
      (w ≤ 1073741824 ∨ packet.seqNum.toNat + w < 2147483648)) ∧
      packet.seqNum.toNat ≠ s.count + w)
    ⟨fun h => ⟨⟨h.1.1, h.1.2.1, h.1.2.2⟩, h.2⟩, fun h => ⟨⟨h.flag, h.bound, h.int⟩, h.ne⟩⟩

/-- `buffer` returns 2 for the packet in turn only. -/
def Refused (s : RcopyRun) (packet : PduS) : Prop :=
  ∀ rets win' win'', s.skipsFor packet = .ok (rets, win') → Buffers win' packet →
    buffer win' packet = .ok (2, win'') → packet.seqNum = firstPacket win'

/-- What a run keeps: rcopy goes on as the reorder buffer, or it has exited. -/
def Kept (w : ℕ) (s : RcopyRun) : Prop :=
  (∃ out b, Mirrors s w out b) ∨ s.halted = some .exit ∧ WritesInTurn 0 s.actions

section
variable {s s' : RcopyRun} {w : ℕ} {out : List (Output PduS)} {b : ReorderBuffer PduS}
  {packet : PduS} {packets : List PduS}

/-- A packet above the window makes rcopy exit, after it has rejected the numbers
that fit. -/
theorem Mirrors.step_clear (hm : Mirrors s w out b) (hpos : 0 < w) (hp : Clear w s packet)
    (hstep : s.step packet = some s') :
    Mirrors s' w (out ++ (b.arrive packet.seqNum.toNat packet).1)
        (b.arrive packet.seqNum.toNat packet).2 ∨
      s'.halted = some .exit ∧ s'.actions = wire 0 (out ++ nacks b.seen (b.next + w)) := by
  have hne := hp.ne
  rw [hm.count_eq] at hne
  rcases Nat.lt_or_gt_of_ne hne with hlt | hgt
  · obtain ⟨s₁, heq, hm'⟩ := hm.step_eq ⟨hp.flag, hp.bound, hlt, hp.int⟩
    rw [heq, Option.some.injEq] at hstep
    subst hstep
    exact .inl hm'
  · have hover := hm.simulates.receive_overflow hpos hm.receiving hp.flag hp.bound hgt hp.int
    simp only [step, hm.running, hover, Option.some.injEq] at hstep
    subst hstep
    right
    refine ⟨rfl, ?_⟩
    simp only
    rw [hm.actions, hm.mySeq, ← wire_append]

theorem kept_step (hpos : 0 < w) (h : Kept w s) (hp : Clear w s packet)
    (hstep : s.step packet = some s') : Kept w s' := by
  rcases h with ⟨out, b, hm⟩ | ⟨hhalted, _⟩
  · rcases hm.step_clear hpos hp hstep with hm' | ⟨hhalted, hactions⟩
    · exact .inl ⟨_, _, hm'⟩
    · refine .inr ⟨hhalted, ?_⟩
      rw [hactions]
      refine writesInTurn_wire (hm.inTurn.append (nacks_inTurn _ _ _)) ?_
      rw [deliveries_append, deliveries_nacks, List.append_nil]
      exact hm.numbers
  · simp only [step, hhalted] at hstep
    cases hstep

theorem refused_iff (hpos : 0 < w) (hm : Mirrors s w out b) (hp : Arriving w packet) :
    Refused s packet ↔ packet.seqNum.toNat ≠ s.count + w := by
  rw [hm.count_eq]
  constructor
  · intro hrefused heq
    -- all `w` numbers are skipped, and the packet has the slot of the first one
    obtain ⟨win', hskips, hqueued⟩ := hm.skipsFor_eq hp.bound (Nat.le_of_eq heq) hp.int
    have hle := hm.simulates.seen_le
    have hwait := hqueued.waiting (by simp only; omega)
    have hnext : (firstPacket win').toNat = b.next := hwait.firstSeq
    obtain ⟨win'', hbuffer⟩ := hwait.buffer_collision heq
    have hfirst := hrefused _ win' win'' hskips
      ⟨hwait.isBufEmpty, by rw [UInt32.le_iff_toNat_le]; omega⟩ hbuffer
    rw [← hfirst] at hnext
    omega
  · intro hne rets win' win'' hskips hbuffers hbuffer
    rcases Nat.lt_or_gt_of_ne hne with hlt | hgt
    · obtain ⟨rets₁, win₁, heq, _, hcall⟩ :=
        hm.calls_succeed ⟨hp.flag, hp.bound, hlt, hp.int⟩
      rw [heq] at hskips
      cases hskips
      obtain ⟨ret, win₂, heq₂, _, htwo⟩ := hcall hbuffers
      rw [heq₂] at hbuffer
      cases hbuffer
      exact htwo rfl
    · have hle := hm.simulates.seen_le
      have hexit := (sendSrejsLoop_overflow (n := packet.seqNum.toNat - b.seen) hpos
        hm.simulates.queued hm.simulates.held_eq_none hm.firstSkipped_eq hle (by omega)
        (hp.int.mono (by omega)) (by have := hp.bound; omega)).1
      rw [skipsFor, hm.firstSkipped_eq, hexit] at hskips
      cases hskips

/-- In every run without a packet exactly one window above the first missing
one, rcopy writes in turn and acknowledges only what it has written. The next
packet keeps to this as far as `buffer` is concerned exactly when it is not
such a packet either. -/
theorem writes_in_turn (hpos : 1 ≤ w) (hsmall : w < 2147483648)
    (hrun : run step (start w) packets = some s)
    (hpackets : Guarded step (Clear w) (start w) packets) :
    WritesInTurn 0 s.actions ∧ (s.halted = none ∨ s.halted = some .exit) ∧
      (s.halted = none → ∀ packet, Arriving w packet →
        (Refused s packet ↔ packet.seqNum.toNat ≠ s.count + w)) := by
  have hkept : Kept w s :=
    guarded_induct (fun _ _ _ hs hok hstep => kept_step hpos hs hok hstep)
      (.inl ⟨_, _, mirrors_start hpos hsmall⟩) hpackets hrun
  rcases hkept with ⟨out, b, hm⟩ | ⟨hhalted, hturn⟩
  · exact ⟨hm.writesInTurn, .inl hm.running, fun _ packet hp => refused_iff hpos hm hp⟩
  · refine ⟨hturn, .inr hhalted, fun hnone => ?_⟩
    rw [hhalted] at hnone
    cases hnone

end

/-- Packets 0, 1 and 2 are written, 2 before 1 arrives, and packet 6 is above the
window. -/
theorem writes_in_turn_above_window : ∃ s,
    run step (start 2) [dataPdu 0, dataPdu 2, dataPdu 1, dataPdu 6] = some s ∧ s.count = 3 ∧
      s.halted = some .exit ∧ WritesInTurn 0 s.actions := by
  obtain ⟨s, hs, heq⟩ := Option.map_eq_some_iff.mp
    (show (run step (start 2) [dataPdu 0, dataPdu 2, dataPdu 1, dataPdu 6]).map
      (fun s => (s.count, s.halted)) = some (3, some .exit) by decide +kernel)
  obtain ⟨hcount, hhalted⟩ := Prod.mk.inj heq
  exact ⟨s, hs, hcount, hhalted,
    (writes_in_turn (by decide) (by decide) hs (by decide +kernel)).1⟩

/-- Window size 1, and packet 1 arrives twice: the second copy is written and
acknowledged although packet 0 is missing. -/
theorem colliding_packet_written :
    (run step (start 1) [dataPdu 1, dataPdu 1]).map RcopyRun.actions =
        some [.sendto (createPdu 0 SREJ_FLAG (htonl 0)), .fwrite (dataPdu 1),
          .sendto (createPdu 1 RR_FLAG (htonl 2))] ∧
      ¬ WritesInTurn 0 [.sendto (createPdu 0 SREJ_FLAG (htonl 0)), .fwrite (dataPdu 1),
          .sendto (createPdu 1 RR_FLAG (htonl 2))] :=
  ⟨by decide +kernel, fun h => absurd h.2.1 (by decide)⟩

end RcopyRun
end SelRej
