import SelRej.RcopyRefinement

/-!
# Runs of calls on rcopy's window

rcopy skips the number after the last one while the buffer is not full, buffers
packets whose numbers fit the window, and calls `unbuffer` until it returns
NULL once `buffer` has returned 2. `step` performs one such call and records in
`contents` what the calls put into the buffer: the interval of numbers in use,
and the packets given for them that have not been returned. In every run of
calls made in this way the window holds exactly these packets, and the loop of
`unbuffer` returns them up to the first missing number.
-/
namespace SelRej
open CInt CircularArray ReorderBuffer PartialRun

inductive BufferCall where
  | skip (seqNum : UInt32)
  | buffer (packet : PduS)
  | unbuffer

/-- What the calls have put into the buffer: nothing, or the numbers from `first`
to `last`, for some of which `held` has the packet given. -/
inductive Contents where
  | empty
  | interval (first last : ℕ) (held : ℕ → Option PduS)

/-- A skipped number is the new last one, a packet given replaces one of the same
number, and `unbuffer` takes the packet of the first number, if it was given. -/
def Contents.after : Contents → BufferCall → Contents
  | .empty, .skip seqNum => .interval seqNum.toNat seqNum.toNat fun _ => none
  | .interval first _ held, .skip seqNum => .interval first seqNum.toNat held
  | .empty, .buffer _ | .empty, .unbuffer => .empty
  | .interval first last held, .buffer packet =>
      .interval first (max last packet.seqNum.toNat)
        (Function.update held packet.seqNum.toNat (some packet))
  | .interval first last held, .unbuffer =>
      if held first = none then .interval first last held
      else if first = last then .empty
      else .interval (first + 1) last (Function.update held first none)

/-- The window, whether `unbuffer` has yet to return NULL, and what the calls so
far have put into the buffer. -/
structure BufferRun where
  win : Window
  draining : Bool
  contents : Contents

namespace BufferRun

def start (w : ℕ) : BufferRun := ⟨(initWindow noWindow w).2, false, .empty⟩

def perform (r : BufferRun) : BufferCall → Except Halt BufferRun
  | .skip seqNum => do
      let (_, win) ← SelRej.skip r.win seqNum
      return { r with win, contents := r.contents.after (.skip seqNum) }
  | .buffer packet => do
      let (code, win) ← SelRej.buffer r.win packet
      return ⟨win, code = 2, r.contents.after (.buffer packet)⟩
  | .unbuffer => do
      let (packet, win) ← SelRej.unbuffer r.win
      return ⟨win, packet.isSome, r.contents.after .unbuffer⟩

def step (r : BufferRun) (call : BufferCall) : Option BufferRun := (r.perform call).toOption

/-- An empty buffer may skip any number; otherwise the numbers are within the
window and at most one above the last. -/
def AsUsed (w : ℕ) (r : BufferRun) : BufferCall → Prop
  | .skip seqNum => r.draining = false ∧ (isBufEmpty r.win = true ∨
      isBufFull r.win = false ∧ seqNum.toNat = (lastPacket r.win).toNat + 1)
  | .buffer packet => r.draining = false ∧ isBufEmpty r.win = false ∧
      (firstPacket r.win).toNat ≤ packet.seqNum.toNat ∧
      packet.seqNum.toNat ≤ (lastPacket r.win).toNat + 1 ∧
      packet.seqNum.toNat < (firstPacket r.win).toNat + w
  | .unbuffer => True

instance decidableAsUsed (w : ℕ) (r : BufferRun) :
    ∀ call, Decidable (AsUsed w r call)
  | .skip seqNum => inferInstanceAs (Decidable (r.draining = false ∧ (isBufEmpty r.win = true ∨
      isBufFull r.win = false ∧ seqNum.toNat = (lastPacket r.win).toNat + 1)))
  | .buffer packet => inferInstanceAs (Decidable (r.draining = false ∧ isBufEmpty r.win = false ∧
      (firstPacket r.win).toNat ≤ packet.seqNum.toNat ∧
      packet.seqNum.toNat ≤ (lastPacket r.win).toNat + 1 ∧
      packet.seqNum.toNat < (firstPacket r.win).toNat + w))
  | .unbuffer => inferInstanceAs (Decidable True)

end BufferRun

/-- `while ((packet = unbuffer()) != NULL)`, with the packets in order. -/
def unbufferLoop : ℕ → Window → Except Halt (List PduS × Window)
  | 0, _ => .error .diverge
  | fuel + 1, win => do
      match ← unbuffer win with
      | (none, win) => return ([], win)
      | (some packet, win) => do
          let (packets, win) ← unbufferLoop fuel win
          return (packet :: packets, win)

structure Vacant (win : Window) (w : ℕ) : Prop where
  empty : isBufEmpty win = true
  slots : ∀ i : ℕ, i < w → win.queue i = none

/-- The slots of the numbers from `first` to `last` hold the packets `held` has
for them, or NULL, and all other slots are NULL. -/
structure Represents (win : Window) (w first last : ℕ) (held : ℕ → Option PduS) : Prop where
  nonempty : isBufEmpty win = false
  le : first ≤ last
  width : last - first < w
  lower : win.lower = ((first % w : ℕ) : ℤ)
  upper : win.upper = (((first + w - 1) % w : ℕ) : ℤ)
  current : win.current = ((last % w : ℕ) : ℤ)
  firstPacket_eq : (firstPacket win).toNat = first
  lastPacket_eq : (lastPacket win).toNat = last
  slots : ∀ i, first ≤ i → i ≤ last → win.queue ((i % w : ℕ) : ℤ) = held i
  numbered : ∀ i packet, first ≤ i → i ≤ last → held i = some packet →
    packet.seqNum.toNat = i
  vacant : ∀ j : ℕ, j < w → (∀ i, first ≤ i → i ≤ last → i % w ≠ j) → win.queue j = none

def HoldsContents (win : Window) (w : ℕ) : Contents → Prop
  | .empty => Vacant win w
  | .interval first last held => Represents win w first last held

/-- The loop of `unbuffer` returns `packets`, the packets held for the numbers
from `first` up to the first missing one, `stop`, which is one above `last` if
none is missing. -/
structure Unbuffers (win : Window) (w first last : ℕ) (held : ℕ → Option PduS) (stop : ℕ)
    (packets : List PduS) (win' : Window) : Prop where
  le : first ≤ stop ∧ stop ≤ last + 1
  missing : stop ≤ last → held stop = none
  returned : packets.map some = (List.range' first (stop - first)).map held
  numbers : packets.map (fun packet => packet.seqNum.toNat) = List.range' first (stop - first)
  returns : ∀ fuel, last + 1 - first < fuel → unbufferLoop fuel win = .ok (packets, win')
  rest : if stop = last + 1 then Vacant win' w else Represents win' w stop last held

section
variable {win : Window} {w : ℕ} {b : ReorderBuffer PduS}

theorem Idle.vacant_slots (h : Idle win w) : Vacant win w := ⟨h.isBufEmpty, h.vacant⟩

theorem Waiting.represents (h : Waiting win w b) :
    Represents win w b.next (b.seen - 1) b.held := by
  have hmissing := h.missing
  have hfits := h.fits
  refine ⟨h.isBufEmpty, by omega, by omega, h.lower, h.upper, h.current, h.firstSeq, ?_, ?_, ?_,
    ?_⟩
  · rw [lastPacket, ← h.lastSeq, Nat.add_sub_cancel]
  · intro i hi hi'
    exact h.queue_eq hi (by omega)
  · intro i packet _ _ hheld
    exact (h.held i packet hheld).2.2
  · intro j hj hne
    obtain ⟨k, hk, hk', rfl⟩ := exists_mod_eq b.next hj
    rw [h.queue_eq hk hk']
    cases hheld : b.held k with
    | none => rfl
    | some packet =>
        obtain ⟨_, hlt, _⟩ := h.held k packet hheld
        exact absurd rfl (hne k hk (by omega))

theorem Represents.congr {first last : ℕ} {held held' : ℕ → Option PduS}
    (h : Represents win w first last held) (heq : ∀ i, first ≤ i → held' i = held i) :
    Represents win w first last held' := by
  refine ⟨h.nonempty, h.le, h.width, h.lower, h.upper, h.current, h.firstPacket_eq,
    h.lastPacket_eq, ?_, ?_, h.vacant⟩
  · intro i hi hi'
    rw [heq i hi]
    exact h.slots i hi hi'
  · intro i packet hi hi' hheld
    rw [heq i hi] at hheld
    exact h.numbered i packet hi hi' hheld

theorem Queued.unbufferLoop_missing (h : Queued win w b) (hmissing : b.held b.next = none)
    {fuel : ℕ} (hfuel : 0 < fuel) : unbufferLoop fuel win = .ok ([], win) := by
  rw [← Nat.sub_add_cancel (Nat.succ_le_of_lt hfuel), unbufferLoop,
    h.unbuffer_missing hmissing, ok_bind]
  rfl

/-- The loop drains the reorder buffer. -/
theorem unbufferLoop_eq {n : ℕ} (h : Queued win w b) (hb : b.Enclosed)
    (hn : b.seen - b.next = n) :
    ∃ win', (∀ fuel, n < fuel → unbufferLoop fuel win =
        .ok ((deliveries (drain n b).1).map Prod.snd, win')) ∧ Queued win' w (drain n b).2 := by
  induction n generalizing win b with
  | zero =>
      have hmissing : b.held b.next = none := drain_stops hb (Nat.le_of_eq hn)
      exact ⟨win, fun fuel hfuel => h.unbufferLoop_missing hmissing hfuel, h⟩
  | succ n ih =>
      cases hheld : b.held b.next with
      | none =>
          rw [drain_of_missing hheld]
          exact ⟨win, fun fuel hfuel => h.unbufferLoop_missing hheld (by omega), h⟩
      | some packet =>
          obtain ⟨win₁, hunbuffer, _, hqueued⟩ := (h.waiting (by omega)).unbuffer_held hheld
          obtain ⟨win', hloop, hqueued'⟩ := ih (b := b.release) hqueued
            (hb.release (by rw [hheld]; rfl)) (by simp only [ReorderBuffer.release]; omega)
          rw [drain_of_held hheld]
          refine ⟨win', ?_, hqueued'⟩
          intro fuel hfuel
          rw [← Nat.sub_add_cancel (show 1 ≤ fuel by omega), unbufferLoop, hunbuffer, ok_bind]
          dsimp only
          rw [hloop (fuel - 1) (by omega), ok_bind]
          rfl

/-- From a window that waits, the loop returns the packets up to the first
missing number. -/
theorem Waiting.exists_unbuffers (h : Waiting win w b) :
    ∃ stop packets win', Unbuffers win w b.next (b.seen - 1) b.held stop packets win' := by
  have hmissing := h.missing
  have hfits := h.fits
  have hlast : b.seen - 1 + 1 = b.seen := by omega
  obtain ⟨win', hloop, hqueued⟩ := unbufferLoop_eq h.queued h.enclosed rfl
  obtain ⟨hturn, hnext⟩ := drain_inTurn (b.seen - b.next) b
  have hseen := drain_seen (b.seen - b.next) b
  have hle := (drain_enclosed (b.seen - b.next) h.enclosed).next_le
  have hdelivers := drain_delivers (b.seen - b.next) b
  refine ⟨(drain (b.seen - b.next) b).2.next,
    (deliveries (drain (b.seen - b.next) b).1).map Prod.snd, win',
    ⟨by omega, by omega⟩, ?_, ?_, ?_, ?_, ?_⟩
  · intro hstop
    rw [← drain_held (Nat.le_refl _)]
    exact drain_stops h.enclosed (Nat.le_refl _)
  · rw [List.map_map, hnext, Nat.add_sub_cancel_left, ← hturn.numbers, List.map_map]
    apply List.map_congr_left
    intro p hp
    exact (hdelivers p hp).symm
  · rw [List.map_map, hnext, Nat.add_sub_cancel_left, ← hturn.numbers]
    apply List.map_congr_left
    intro p hp
    exact (h.held _ _ (hdelivers p hp)).2.2
  · intro fuel hfuel
    exact hloop fuel (by omega)
  · split_ifs with hend
    · exact (hqueued.idle (by omega)).vacant_slots
    · have hrest := (hqueued.waiting (by omega)).represents
      rw [hseen] at hrest
      exact hrest.congr fun i hi => (drain_held hi).symm

end

namespace BufferRun
variable {r : BufferRun} {w : ℕ}

theorem step_of_ok {r' : BufferRun} {call : BufferCall} (h : r.perform call = .ok r') :
    r.step call = some r' := by
  rw [step, h]
  rfl

/-- What every run keeps: only while the loop of `unbuffer` goes on can the
packet of the first number be there. -/
def Kept (w : ℕ) (r : BufferRun) : Prop :=
  r.contents = .empty ∧ Idle r.win w ∨
    ∃ b, r.contents = .interval b.next (b.seen - 1) b.held ∧ Waiting r.win w b ∧
      (r.draining = false → b.held b.next = none)

theorem kept_start (hpos : 1 ≤ w) (hw : w ≤ 1073741824) : Kept w (start w) :=
  .inl ⟨rfl, idle_initWindow hpos (by omega)⟩

theorem Kept.holds (h : Kept w r) : HoldsContents r.win w r.contents := by
  rcases h with ⟨hcontents, hidle⟩ | ⟨b, hcontents, hwait, -⟩
  · rw [hcontents]
    exact hidle.vacant_slots
  · rw [hcontents]
    exact hwait.represents

theorem Kept.skip_eq (hw : w ≤ 1073741824) (h : Kept w r) {seqNum : UInt32}
    (hused : AsUsed w r (.skip seqNum)) : ∃ win', SelRej.skip r.win seqNum = .ok (1, win') ∧
      Kept w { r with win := win', contents := r.contents.after (.skip seqNum) } := by
  obtain ⟨hdraining, hwhen⟩ := hused
  rcases h with ⟨hcontents, hidle⟩ | ⟨b, hcontents, hwait, hmissing⟩
  · obtain ⟨win', hskip, hwait⟩ := hidle.skip_eq (show FitsInt w seqNum.toNat from .inl hw)
    exact ⟨win', hskip, .inr ⟨_, by rw [hcontents]; rfl, hwait, fun _ => rfl⟩⟩
  · rcases hwhen with hempty | ⟨hfull, hseq⟩
    · rw [hwait.isBufEmpty] at hempty
      cases hempty
    · have hroom : b.seen < b.next + w := by
        have hfits := hwait.fits
        have hiff := hwait.isBufFull_iff
        rw [hfull] at hiff
        have hne : b.seen ≠ b.next + w := fun he => by cases hiff.mpr he
        omega
      have hlast : seqNum.toNat = b.seen := hseq.trans hwait.lastSeq
      obtain ⟨win', hskip, hwait'⟩ := hwait.skip_eq hlast hroom
      refine ⟨win', hskip, .inr ⟨_, ?_, hwait', hmissing⟩⟩
      simp only [hcontents, Contents.after, hlast, Nat.add_sub_cancel]

theorem Kept.buffer_eq (hw : w ≤ 1073741824) (h : Kept w r) {packet : PduS}
    (hused : AsUsed w r (.buffer packet)) :
    ∃ code win', SelRej.buffer r.win packet = .ok (code, win') ∧ code ≠ 0 ∧
      (code = 2 ↔ packet.seqNum = firstPacket r.win) ∧
      Kept w ⟨win', code = 2, r.contents.after (.buffer packet)⟩ := by
  obtain ⟨hdraining, hempty, hge, hle, hlt⟩ := hused
  rcases h with ⟨-, hidle⟩ | ⟨b, hcontents, hwait, hmissing⟩
  · rw [hidle.isBufEmpty] at hempty
    cases hempty
  · have hfirst : (firstPacket r.win).toNat = b.next := hwait.firstSeq
    have hafter : r.contents.after (.buffer packet) =
        .interval (b.hold packet.seqNum.toNat packet).next
          ((b.hold packet.seqNum.toNat packet).seen - 1)
          (b.hold packet.seqNum.toNat packet).held := by
      have hseen := hwait.missing
      rw [hcontents, Contents.after]
      simp only [ReorderBuffer.hold]
      rw [show max b.seen (packet.seqNum.toNat + 1) - 1 = max (b.seen - 1) packet.seqNum.toNat by
        omega]
    rw [hfirst] at hge hlt
    rcases Nat.eq_or_lt_of_le hge with heq | hgt
    · obtain ⟨win', hbuffer, hwait'⟩ := hwait.buffer_next heq.symm
      rw [← heq] at hafter
      refine ⟨2, win', hbuffer, by decide, ?_, .inr ⟨_, hafter, hwait', fun hf => by cases hf⟩⟩
      exact ⟨fun _ => UInt32.toNat_inj.mp (heq.symm.trans hfirst.symm), fun _ => rfl⟩
    · obtain ⟨win', hbuffer, hwait'⟩ := hwait.buffer_above rfl hgt hlt (.inl hw) (.inl hw)
      refine ⟨1, win', hbuffer, by decide, ?_, .inr ⟨_, hafter, hwait', fun _ => ?_⟩⟩
      · refine ⟨fun hf => absurd hf (by decide), fun he => ?_⟩
        rw [he, hfirst] at hgt
        omega
      · simp only [ReorderBuffer.hold]
        rw [Function.update_of_ne (by omega)]
        exact hmissing hdraining

theorem Kept.unbuffer_eq (h : Kept w r) :
    ∃ packet win', SelRej.unbuffer r.win = .ok (packet, win') ∧
      Kept w ⟨win', packet.isSome, r.contents.after .unbuffer⟩ := by
  rcases h with ⟨hcontents, hidle⟩ | ⟨b, hcontents, hwait, -⟩
  · exact ⟨none, r.win, hidle.unbuffer_eq, .inl ⟨by rw [hcontents]; rfl, hidle⟩⟩
  · cases hheld : b.held b.next with
    | none =>
        refine ⟨none, r.win, hwait.unbuffer_missing hheld, .inr ⟨b, ?_, hwait, fun _ => hheld⟩⟩
        rw [hcontents, Contents.after, if_pos hheld]
    | some packet =>
        have hmissing := hwait.missing
        obtain ⟨win', hunbuffer, _, hrest⟩ := hwait.unbuffer_held hheld
        refine ⟨some packet, win', hunbuffer, ?_⟩
        have hafter : r.contents.after .unbuffer = if b.next = b.seen - 1 then .empty
            else .interval (b.next + 1) (b.seen - 1) (Function.update b.held b.next none) := by
          rw [hcontents, Contents.after, if_neg (by rw [hheld]; exact Option.some_ne_none packet)]
        split_ifs at hrest with hend
        · rw [if_pos (by omega)] at hafter
          exact .inl ⟨hafter, hrest⟩
        · rw [if_neg (by omega)] at hafter
          exact .inr ⟨_, hafter, hrest, fun hf => by cases hf⟩

theorem kept_step (hw : w ≤ 1073741824) (h : Kept w r) {call : BufferCall}
    (hused : AsUsed w r call) : ∃ r', r.step call = some r' ∧ Kept w r' := by
  cases call with
  | skip seqNum =>
      obtain ⟨win', heq, hkept⟩ := h.skip_eq hw hused
      exact ⟨_, step_of_ok (by rw [perform, heq, ok_bind]; rfl), hkept⟩
  | buffer packet =>
      obtain ⟨code, win', heq, _, _, hkept⟩ := h.buffer_eq hw hused
      exact ⟨_, step_of_ok (by rw [perform, heq, ok_bind]; rfl), hkept⟩
  | unbuffer =>
      obtain ⟨packet, win', heq, hkept⟩ := h.unbuffer_eq
      exact ⟨_, step_of_ok (by rw [perform, heq, ok_bind]; rfl), hkept⟩

/-- Every run of calls made as rcopy makes them goes through, and the window then
holds the packets given and not returned, in their slots. The loop of `unbuffer`
returns them up to the first missing number, and the next `skip` and the next
`buffer` succeed and do to the window what they do to its contents. -/
theorem buffer_represents {calls : List BufferCall} (hpos : 1 ≤ w) (hw : w ≤ 1073741824)
    (hused : Guarded step (AsUsed w) (start w) calls) :
    ∃ r, run step (start w) calls = some r ∧ HoldsContents r.win w r.contents ∧
      (∀ first last held, r.contents = .interval first last held →
        (isBufFull r.win = true ↔ last = first + w - 1) ∧
        ∃ stop packets win', Unbuffers r.win w first last held stop packets win') ∧
      (∀ seqNum, AsUsed w r (.skip seqNum) → ∃ win', SelRej.skip r.win seqNum = .ok (1, win') ∧
        HoldsContents win' w (r.contents.after (.skip seqNum))) ∧
      ∀ packet, AsUsed w r (.buffer packet) →
        ∃ code win', SelRej.buffer r.win packet = .ok (code, win') ∧ code ≠ 0 ∧
          (code = 2 ↔ packet.seqNum = firstPacket r.win) ∧
          HoldsContents win' w (r.contents.after (.buffer packet)) := by
  obtain ⟨r, hrun, hkept⟩ := guarded_run (P := Kept w) (fun _ _ h hok => kept_step hw h hok)
    (kept_start hpos hw) hused
  refine ⟨r, hrun, hkept.holds, ?_, ?_, ?_⟩
  · intro first last held hinterval
    rcases hkept with ⟨hcontents, -⟩ | ⟨b, hcontents, hwait, -⟩
    · rw [hcontents] at hinterval
      cases hinterval
    · rw [hcontents] at hinterval
      cases hinterval
      have hmissing := hwait.missing
      refine ⟨?_, hwait.exists_unbuffers⟩
      rw [hwait.isBufFull_iff]
      omega
  · intro seqNum hskip
    obtain ⟨win', heq, hkept'⟩ := hkept.skip_eq hw hskip
    exact ⟨win', heq, hkept'.holds⟩
  · intro packet hbuffer
    obtain ⟨code, win', heq, hne, hcode, hkept'⟩ := hkept.buffer_eq hw hbuffer
    exact ⟨code, win', heq, hne, hcode, hkept'.holds⟩

def emptyPacket (seqNum : UInt32) : PduS := ⟨seqNum, 0, DATA_FLAG, [], 0, UInt16.toNat_zero⟩

/-- Numbers 6 to 9 of a window of four: 6 and 8 are skipped, 7 and 9 arrive,
7 twice, and 6 releases two of them. -/
def gapCalls : List BufferCall :=
  [.skip 6, .buffer (emptyPacket 7), .skip 8, .buffer (emptyPacket 7),
    .buffer (emptyPacket 9), .buffer (emptyPacket 6), .unbuffer, .unbuffer, .unbuffer]

theorem buffer_represents_gaps : ∃ r, run step (start 4) gapCalls = some r ∧
    HoldsContents r.win 4 r.contents ∧
    (∀ first last held, r.contents = .interval first last held →
      (isBufFull r.win = true ↔ last = first + 4 - 1) ∧
      ∃ stop packets win', Unbuffers r.win 4 first last held stop packets win') ∧
    (∀ seqNum, AsUsed 4 r (.skip seqNum) → ∃ win', SelRej.skip r.win seqNum = .ok (1, win') ∧
      HoldsContents win' 4 (r.contents.after (.skip seqNum))) ∧
    ∀ packet, AsUsed 4 r (.buffer packet) →
      ∃ code win', SelRej.buffer r.win packet = .ok (code, win') ∧ code ≠ 0 ∧
        (code = 2 ↔ packet.seqNum = firstPacket r.win) ∧
        HoldsContents win' 4 (r.contents.after (.buffer packet)) :=
  buffer_represents (by decide) (by decide) (by decide +kernel)

end BufferRun
end SelRej
