import Mathlib.Tactic.SplitIfs
import SelRej.ControlPackets

/-!
# When the handshake gives up

`getInitialResp` and `ackInitialResp` of `rcopy.c` as whole functions, over
everything that `pollCall` and `recvfrom` may bring. Both are the same loop with
other arrays and other flags. The loop tests its counter in its condition, and
again behind the loop, where it stands for the reason why the loop has ended.
The buffer is interpreted in every round, whether or not the round has received
anything.

`GivesUpOnlyWhenFailed` is what the two tests are for. A buffer that is left
from an earlier round never ends the loop; but a loop that ends with an answer
in its tenth round is taken for one that has found none.
-/
namespace SelRej

/-- What the two loops differ in: the PDU they send, the length they pass to
`recvfrom`, the size of the array they pass with it, and the flags that end the
loop. -/
structure Handshake where
  pduBuf : List UInt8
  recvLen : ℕ
  respBufLen : ℕ
  expected : List UInt8
  -- `bufSize + HEADER_LEN` for a `uint16_t` at most
  respBufLen_le : respBufLen ≤ 65535 + HEADER_LEN

inductive HandshakeEnd where
  | returned (packet : PduS) (serverS : Addr)
  -- "Server timed out", and `exit(EXIT_FAILURE)`
  | timedOut
  deriving DecidableEq, Repr

inductive Round where
  | again (serverS : Addr) (respBuf : List UInt8)
  | ends (e : HandshakeEnd)
  deriving DecidableEq, Repr

namespace Handshake

/-- `pollCall` and `safeRecvfrom`: the address and the buffer after them. -/
def receive (h : Handshake) (serverS : Addr) (respBuf : List UInt8) :
    Recv → Except Halt (Addr × List UInt8)
  | none => .ok (serverS, respBuf)
  | some (src, bytes) =>
      if (bytes.take h.recvLen).length ≤ h.respBufLen then .ok (src, bytes.take h.recvLen)
      else .error .outOfBounds

/-- The condition of the loop and the test behind it, after `count` rounds. -/
def test (h : Handshake) (count : ℕ) (serverS : Addr) (respBuf : List UInt8) :
    Except Halt Round := do
  match ← interpPDU respBuf with
  | none => return if count < 10 then .again serverS respBuf else .ends .timedOut
  | some packet =>
      if packet.flag ∉ h.expected then
        return if count < 10 then .again serverS respBuf else .ends .timedOut
      else if 10 ≤ count then return .ends .timedOut
      else return .ends (.returned packet serverS)

/-- The body of the loop behind `sendtoErr`, with round number `count`. -/
def round (h : Handshake) (count : ℕ) (serverS : Addr) (respBuf : List UInt8) (recv : Recv) :
    Except Halt Round := do
  let (serverS, respBuf) ← h.receive serverS respBuf recv
  h.test (count + 1) serverS respBuf

/-- The loop with `fuel` rounds left; `recvs` is what the rounds find. -/
def loop (h : Handshake) (recvs : ℕ → Recv) :
    ℕ → ℕ → Addr → List UInt8 → SetupProc HandshakeEnd
  | 0, _, _, _ => Emit.halt .diverge
  | fuel + 1, count, serverS, respBuf => do
      sendtoErr h.pduBuf.length (serverS, h.pduBuf)
      match ← h.round count serverS respBuf (recvs count) with
      | .again serverS respBuf => h.loop recvs fuel (count + 1) serverS respBuf
      | .ends e => return e

/-- The loop of `getInitialResp`. Its parameter `bufSize` is in network order
when the loop is entered. -/
def initialResp (req : Request) (pduBuf : List UInt8) : Handshake where
  pduBuf := pduBuf
  recvLen := (htons req.bufSize).toNat + HEADER_LEN
  respBufLen := req.bufSize.toNat + HEADER_LEN
  expected := [INITIALRESP_FLAG]
  respBufLen_le := Nat.add_le_add_right (Nat.le_of_lt_succ req.bufSize.toNat_lt) _

/-- The loop of `ackInitialResp`. -/
def setupResp : Handshake where
  pduBuf := createPdu 1 SETUPRESP_FLAG []
  recvLen := MAXBUF
  respBufLen := MAX_PDU_LEN
  expected := [SETUPRESP_FLAG, DATA_FLAG]
  respBufLen_le := by decide

end Handshake

def getInitialResp (req : Request) (serverS : Addr) (recvs : ℕ → Recv) :
    SetupProc HandshakeEnd := do
  let pduBuf ← req.initialPdu
  (Handshake.initialResp req pduBuf).loop recvs 10 0 serverS []

def ackInitialResp (serverS : Addr) (recvs : ℕ → Recv) : SetupProc HandshakeEnd :=
  Handshake.setupResp.loop recvs 10 0 serverS []

namespace Handshake

/-- The round has received an uncorrupted PDU with one of the flags, and `packet`
is what it reads as. -/
def AnsweredWith (h : Handshake) (recv : Recv) (packet : PduS) (src : Addr) : Prop :=
  ∃ bytes, recv = some (src, bytes) ∧ interpPDU (bytes.take h.recvLen) = .ok (some packet) ∧
    packet.flag ∈ h.expected

def Answered (h : Handshake) (recv : Recv) : Prop :=
  ∃ packet src, h.AnsweredWith recv packet src

/-- The round has received more than its array holds, or a string shorter than a
header that passes the checksum: `interpPDU` asks for a negative size then. -/
def Fatal (h : Handshake) (recv : Recv) : Prop :=
  ∃ src bytes, recv = some (src, bytes) ∧ (h.respBufLen < (bytes.take h.recvLen).length ∨
    (bytes.take h.recvLen).length < HEADER_LEN ∧ in_cksum (bytes.take h.recvLen) = 0)

def Unanswering (h : Handshake) (respBuf : List UInt8) : Prop :=
  interpPDU respBuf = .ok none ∨
    ∃ packet, interpPDU respBuf = .ok (some packet) ∧ packet.flag ∉ h.expected

section
variable {h : Handshake} {count : ℕ} {serverS : Addr} {respBuf : List UInt8} {recv : Recv}

theorem unanswering_nil (h : Handshake) : h.Unanswering [] := .inl (by decide +kernel)

theorem test_unanswering (hbuf : h.Unanswering respBuf) (count : ℕ) (serverS : Addr) :
    h.test count serverS respBuf =
      .ok (if count < 10 then .again serverS respBuf else .ends .timedOut) := by
  unfold test
  rcases hbuf with hnone | ⟨packet, hsome, hflag⟩
  · rw [hnone, ok_bind]
    rfl
  · rw [hsome, ok_bind]
    dsimp only
    rw [if_pos hflag]
    rfl

theorem test_answer {packet : PduS} (hread : interpPDU respBuf = .ok (some packet))
    (hflag : packet.flag ∈ h.expected) (count : ℕ) (serverS : Addr) :
    h.test count serverS respBuf =
      .ok (.ends (if 10 ≤ count then .timedOut else .returned packet serverS)) := by
  unfold test
  rw [hread, ok_bind]
  dsimp only
  rw [if_neg (not_not.mpr hflag)]
  split_ifs <;> rfl

theorem round_timeout (h : Handshake) (count : ℕ) (serverS : Addr) (respBuf : List UInt8) :
    h.round count serverS respBuf none = h.test (count + 1) serverS respBuf := (rfl)

theorem round_of_fits {src : Addr} {bytes : List UInt8}
    (hfits : (bytes.take h.recvLen).length ≤ h.respBufLen) (count : ℕ) (serverS : Addr)
    (respBuf : List UInt8) : h.round count serverS respBuf (some (src, bytes)) =
      h.test (count + 1) src (bytes.take h.recvLen) := by
  unfold round receive
  dsimp only
  rw [if_pos hfits, ok_bind]

theorem round_of_long {src : Addr} {bytes : List UInt8}
    (hlong : ¬(bytes.take h.recvLen).length ≤ h.respBufLen) (count : ℕ) (serverS : Addr)
    (respBuf : List UInt8) :
    h.round count serverS respBuf (some (src, bytes)) = .error .outOfBounds := by
  unfold round receive
  dsimp only
  rw [if_neg hlong, error_bind]

theorem round_of_fatal (hfatal : h.Fatal recv) (count : ℕ) (serverS : Addr)
    (respBuf : List UInt8) : ∃ e, h.round count serverS respBuf recv = .error e := by
  obtain ⟨src, bytes, rfl, hbytes⟩ := hfatal
  by_cases hfits : (bytes.take h.recvLen).length ≤ h.respBufLen
  · obtain ⟨hshort, hvalid⟩ := hbytes.resolve_left (Nat.not_lt_of_le hfits)
    refine ⟨.exit, ?_⟩
    rw [round_of_fits hfits, test, interpPDU_of_short hvalid hshort, error_bind]
  · exact ⟨.outOfBounds, round_of_long hfits count serverS respBuf⟩

theorem round_of_answered {packet : PduS} {src : Addr} (hfatal : ¬h.Fatal recv)
    (hanswer : h.AnsweredWith recv packet src) (count : ℕ) (serverS : Addr)
    (respBuf : List UInt8) : h.round count serverS respBuf recv =
      .ok (.ends (if 10 ≤ count + 1 then .timedOut else .returned packet src)) := by
  obtain ⟨bytes, rfl, hread, hflag⟩ := hanswer
  rw [round_of_fits (Nat.le_of_not_lt fun hlong => hfatal ⟨src, bytes, rfl, .inl hlong⟩)]
  exact test_answer hread hflag _ _

/-- What is left in the buffer does not end the loop, because it has not done so
when it was received. -/
theorem round_of_unanswered (hfatal : ¬h.Fatal recv) (hanswer : ¬h.Answered recv)
    (hbuf : h.Unanswering respBuf) (count : ℕ) (serverS : Addr) :
    ∃ serverS' respBuf', h.Unanswering respBuf' ∧ h.round count serverS respBuf recv =
      .ok (if count + 1 < 10 then .again serverS' respBuf' else .ends .timedOut) := by
  cases recv with
  | none =>
      refine ⟨serverS, respBuf, hbuf, ?_⟩
      rw [round_timeout]
      exact test_unanswering hbuf _ _
  | some received =>
      obtain ⟨src, bytes⟩ := received
      have hfits : (bytes.take h.recvLen).length ≤ h.respBufLen :=
        Nat.le_of_not_lt fun hlong => hfatal ⟨src, bytes, rfl, .inl hlong⟩
      have hbuf' : h.Unanswering (bytes.take h.recvLen) := by
        by_cases hvalid : in_cksum (bytes.take h.recvLen) = 0
        · have hheader : HEADER_LEN ≤ (bytes.take h.recvLen).length :=
            Nat.le_of_not_lt fun hshort => hfatal ⟨src, bytes, rfl, .inr ⟨hshort, hvalid⟩⟩
          obtain ⟨packet, hread, _⟩ :=
            interpPDU_of_valid hvalid hheader (Nat.le_trans hfits h.respBufLen_le)
          exact .inr ⟨packet, hread, fun hflag => hanswer ⟨packet, src, bytes, rfl, hread, hflag⟩⟩
        · exact .inl (interpPDU_of_corrupt hvalid)
      refine ⟨src, bytes.take h.recvLen, hbuf', ?_⟩
      rw [round_of_fits hfits]
      exact test_unanswering hbuf' _ _

end
section
variable {h : Handshake} {recvs : ℕ → Recv} {fuel count : ℕ} {serverS : Addr}
  {respBuf : List UInt8}

theorem loop_of_error {e : Halt} (hsend : h.pduBuf.length ≠ 0)
    (hround : h.round count serverS respBuf (recvs count) = .error e) :
    h.loop recvs (fuel + 1) count serverS respBuf = ⟨[(serverS, h.pduBuf)], .error e⟩ := by
  rw [loop, sendtoErr_eq hsend, Emit.emit_eq, Emit.bind_ok, hround, Emit.liftM_eq, Emit.bind_error]
  rfl

theorem loop_of_ends {e : HandshakeEnd} (hsend : h.pduBuf.length ≠ 0)
    (hround : h.round count serverS respBuf (recvs count) = .ok (.ends e)) :
    h.loop recvs (fuel + 1) count serverS respBuf = ⟨[(serverS, h.pduBuf)], .ok e⟩ := by
  rw [loop, sendtoErr_eq hsend, Emit.emit_eq, Emit.bind_ok, hround, Emit.liftM_eq, Emit.bind_silent]
  rfl

theorem loop_of_again {serverS' : Addr} {respBuf' : List UInt8} (hsend : h.pduBuf.length ≠ 0)
    (hround : h.round count serverS respBuf (recvs count) = .ok (.again serverS' respBuf')) :
    h.loop recvs (fuel + 1) count serverS respBuf =
      ⟨(serverS, h.pduBuf) :: (h.loop recvs fuel (count + 1) serverS' respBuf').out,
        (h.loop recvs fuel (count + 1) serverS' respBuf').result⟩ := by
  rw [loop, sendtoErr_eq hsend, Emit.emit_eq, Emit.bind_ok, hround, Emit.liftM_eq, Emit.bind_silent]
  rfl

/-- How the loop can end in round `i`, in which it finds `recv`. -/
inductive EndsIn (h : Handshake) (recv : Recv) (i : ℕ) : Except Halt HandshakeEnd → Prop where
  | fatal {e : Halt} (hfatal : h.Fatal recv) : EndsIn h recv i (.error e)
  | answered {packet : PduS} {src : Addr} (hfatal : ¬h.Fatal recv)
      (hanswer : h.AnsweredWith recv packet src) :
      EndsIn h recv i (.ok (if 10 ≤ i + 1 then .timedOut else .returned packet src))
  | unanswered (hfatal : ¬h.Fatal recv) (hanswer : ¬h.Answered recv) (hi : i + 1 = 10) :
      EndsIn h recv i (.ok .timedOut)

/-- Entered in round `count`, the loop ends in the first round that is fatal or
answered, or in the tenth. -/
def Settles (h : Handshake) (recvs : ℕ → Recv) (count : ℕ) (p : SetupProc HandshakeEnd) : Prop :=
  ∃ i, count ≤ i ∧ i < 10 ∧
    (∀ j, count ≤ j → j < i → ¬h.Fatal (recvs j) ∧ ¬h.Answered (recvs j)) ∧
    p.out.length + count = i + 1 ∧ h.EndsIn (recvs i) i p.result

theorem settles_here {result : Except Halt HandshakeEnd} (hcount : count < 10)
    (hends : h.EndsIn (recvs count) count result) :
    h.Settles recvs count ⟨[(serverS, h.pduBuf)], result⟩ := by
  refine ⟨count, Nat.le_refl _, hcount, ?_, Nat.add_comm 1 count, hends⟩
  intro j hle hlt
  exact absurd hle (Nat.not_le_of_lt hlt)

theorem Settles.again {p : SetupProc HandshakeEnd} (hfatal : ¬h.Fatal (recvs count))
    (hanswer : ¬h.Answered (recvs count)) (hp : h.Settles recvs (count + 1) p) :
    h.Settles recvs count ⟨(serverS, h.pduBuf) :: p.out, p.result⟩ := by
  obtain ⟨i, hle, hi, hbefore, hlen, hends⟩ := hp
  refine ⟨i, Nat.le_of_succ_le hle, hi, ?_, ?_, hends⟩
  · intro j hj hlt
    rcases Nat.eq_or_lt_of_le hj with rfl | hj
    · exact ⟨hfatal, hanswer⟩
    · exact hbefore j hj hlt
  · rw [List.length_cons]
    omega

theorem loop_settles (hsend : h.pduBuf.length ≠ 0) (hcount : count + fuel = 10)
    (hpos : 0 < fuel) (hbuf : h.Unanswering respBuf) :
    h.Settles recvs count (h.loop recvs fuel count serverS respBuf) := by
  induction fuel generalizing count serverS respBuf with
  | zero => exact absurd hpos (Nat.lt_irrefl 0)
  | succ fuel ih =>
      by_cases hfatal : h.Fatal (recvs count)
      · obtain ⟨e, hround⟩ := round_of_fatal hfatal count serverS respBuf
        rw [loop_of_error hsend hround]
        exact settles_here (by omega) (.fatal hfatal)
      by_cases hanswer : h.Answered (recvs count)
      · obtain ⟨packet, src, hwith⟩ := hanswer
        rw [loop_of_ends hsend (round_of_answered hfatal hwith count serverS respBuf)]
        exact settles_here (by omega) (.answered hfatal hwith)
      obtain ⟨serverS', respBuf', hbuf', hround⟩ :=
        round_of_unanswered hfatal hanswer hbuf count serverS
      by_cases hlast : count + 1 < 10
      · rw [if_pos hlast] at hround
        rw [loop_of_again hsend hround]
        exact (ih (by omega) (by omega) hbuf').again hfatal hanswer
      · rw [if_neg hlast] at hround
        rw [loop_of_ends hsend hround]
        exact settles_here (by omega) (.unanswered hfatal hanswer (by omega))

end

/-- What a handshake function should do with what its rounds find, `p` being what
it does: it returns exactly when one of its rounds, ten at most, has received an
answer, and the packet is what the last round has received itself; otherwise
it ends with the time-out error. -/
structure GivesUpOnlyWhenFailed (h : Handshake) (recvs : ℕ → Recv)
    (p : SetupProc HandshakeEnd) : Prop where
  rounds_le : p.out.length ≤ 10
  returns_iff : (∃ packet src, p.result = .ok (.returned packet src)) ↔
    ∃ i < p.out.length, h.Answered (recvs i)
  timedOut : (¬∃ i < p.out.length, h.Answered (recvs i)) → p.result = .ok .timedOut
  received : ∀ packet src, p.result = .ok (.returned packet src) →
    ∃ i, p.out.length = i + 1 ∧ h.AnsweredWith (recvs i) packet src

/-- Up to the first answer, no round is fatal, and the answer is not in the tenth. -/
def InTime (h : Handshake) (recvs : ℕ → Recv) : Prop :=
  ∀ i < 10, (∀ j < i, ¬h.Answered (recvs j)) →
    ¬h.Fatal (recvs i) ∧ (h.Answered (recvs i) → i + 1 < 10)

section
variable {h : Handshake} {recvs : ℕ → Recv} {p : SetupProc HandshakeEnd}

theorem answered_iff_last {i : ℕ}
    (hbefore : ∀ j, 0 ≤ j → j < i → ¬h.Fatal (recvs j) ∧ ¬h.Answered (recvs j)) :
    (∃ j < i + 1, h.Answered (recvs j)) ↔ h.Answered (recvs i) := by
  constructor
  · rintro ⟨j, hj, hanswer⟩
    rcases Nat.lt_or_eq_of_le (Nat.le_of_lt_succ hj) with hlt | rfl
    · exact absurd hanswer (hbefore j (Nat.zero_le j) hlt).2
    · exact hanswer
  · intro hanswer
    exact ⟨i, Nat.lt_succ_self i, hanswer⟩

theorem inTime_iff_last {i : ℕ} (hi : i < 10)
    (hbefore : ∀ j, 0 ≤ j → j < i → ¬h.Fatal (recvs j) ∧ ¬h.Answered (recvs j))
    (hlast : h.Fatal (recvs i) ∨ h.Answered (recvs i) ∨ i + 1 = 10) :
    h.InTime recvs ↔ ¬h.Fatal (recvs i) ∧ (h.Answered (recvs i) → i + 1 < 10) := by
  constructor
  · intro hin
    exact hin i hi fun j hj => (hbefore j (Nat.zero_le j) hj).2
  · rintro ⟨hfatal, hanswer⟩ k hk hnone
    rcases Nat.lt_trichotomy k i with hlt | rfl | hgt
    · obtain ⟨hf, ha⟩ := hbefore k (Nat.zero_le k) hlt
      exact ⟨hf, fun hans => absurd hans ha⟩
    · exact ⟨hfatal, hanswer⟩
    · rcases hlast with hf | ha | hten
      · exact absurd hf hfatal
      · exact absurd ha (hnone i hgt)
      · omega

theorem not_givesUp_of_answered (hanswer : ∃ i < p.out.length, h.Answered (recvs i))
    (hresult : ∀ packet src, p.result ≠ .ok (.returned packet src)) :
    ¬h.GivesUpOnlyWhenFailed recvs p := by
  intro hgives
  obtain ⟨packet, src, hok⟩ := hgives.returns_iff.mpr hanswer
  exact hresult packet src hok

theorem not_givesUp_of_error {e : Halt} (hresult : p.result = .error e) :
    ¬h.GivesUpOnlyWhenFailed recvs p := by
  intro hgives
  by_cases hanswer : ∃ i < p.out.length, h.Answered (recvs i)
  · refine not_givesUp_of_answered hanswer (fun packet src hok => ?_) hgives
    rw [hresult] at hok
    cases hok
  · have htimedOut := hgives.timedOut hanswer
    rw [hresult] at htimedOut
    cases htimedOut

theorem givesUp_of_returned {i : ℕ} {packet : PduS} {src : Addr} (hi : i < 10)
    (hlen : p.out.length = i + 1) (hwith : h.AnsweredWith (recvs i) packet src)
    (hresult : p.result = .ok (.returned packet src)) : h.GivesUpOnlyWhenFailed recvs p := by
  have hanswer : ∃ j < p.out.length, h.Answered (recvs j) :=
    ⟨i, by omega, packet, src, hwith⟩
  refine ⟨by omega, iff_of_true ⟨packet, src, hresult⟩ hanswer,
    fun hnone => absurd hanswer hnone, ?_⟩
  intro packet' src' hok
  rw [hresult] at hok
  cases hok
  exact ⟨i, hlen, hwith⟩

theorem givesUp_of_timedOut (hlen : p.out.length ≤ 10)
    (hnone : ¬∃ j < p.out.length, h.Answered (recvs j)) (hresult : p.result = .ok .timedOut) :
    h.GivesUpOnlyWhenFailed recvs p := by
  have hreturned : ∀ packet src, p.result ≠ .ok (.returned packet src) := by
    intro packet src hok
    rw [hresult] at hok
    cases hok
  refine ⟨hlen, iff_of_false ?_ hnone, fun _ => hresult, ?_⟩
  · rintro ⟨packet, src, hok⟩
    exact hreturned packet src hok
  · intro packet src hok
    exact absurd hok (hreturned packet src)

theorem givesUpOnlyWhenFailed_iff (hp : h.Settles recvs 0 p) :
    h.GivesUpOnlyWhenFailed recvs p ↔ h.InTime recvs := by
  obtain ⟨i, _, hi, hbefore, hlen, hends⟩ := hp
  have hone : (∃ j < p.out.length, h.Answered (recvs j)) ↔ h.Answered (recvs i) := by
    rw [show p.out.length = i + 1 from hlen]
    exact answered_iff_last hbefore
  obtain ⟨out, result⟩ := p
  cases hends with
  | fatal hfatal =>
      rw [inTime_iff_last hi hbefore (.inl hfatal)]
      exact iff_of_false (not_givesUp_of_error rfl) fun hin => hin.1 hfatal
  | @answered packet src hfatal hwith =>
      have hanswer : h.Answered (recvs i) := ⟨packet, src, hwith⟩
      rw [inTime_iff_last hi hbefore (.inr (.inl hanswer))]
      by_cases hlate : 10 ≤ i + 1
      · -- the second test takes this end of the loop for the other one
        rw [if_pos hlate]
        refine iff_of_false (not_givesUp_of_answered (hone.mpr hanswer) ?_) fun hin =>
          Nat.not_le_of_lt (hin.2 hanswer) hlate
        intro packet' src' hok
        cases hok
      · rw [if_neg hlate]
        exact iff_of_true (givesUp_of_returned hi hlen hwith rfl)
          ⟨hfatal, fun _ => Nat.lt_of_not_le hlate⟩
  | unanswered hfatal hanswer hten =>
      rw [inTime_iff_last hi hbefore (.inr (.inr hten))]
      exact iff_of_true
        (givesUp_of_timedOut (Nat.le_trans (Nat.le_of_eq hlen) hi) (fun hex => hanswer (hone.mp hex))
          rfl)
        ⟨hfatal, fun ha => absurd ha hanswer⟩

theorem loop_givesUp_iff (hsend : h.pduBuf.length ≠ 0) (recvs : ℕ → Recv) (serverS : Addr) :
    h.GivesUpOnlyWhenFailed recvs (h.loop recvs 10 0 serverS []) ↔ h.InTime recvs :=
  givesUpOnlyWhenFailed_iff (loop_settles hsend (by decide) (by decide) (unanswering_nil h))

theorem loop_of_nothing (hsend : h.pduBuf.length = 0) (recvs : ℕ → Recv) (serverS : Addr) :
    h.loop recvs 10 0 serverS [] = ⟨[], .error .exit⟩ := by
  rw [loop, hsend]
  rfl

end

end Handshake

/-- `getInitialResp` and `ackInitialResp` give up only when they have really
failed, exactly when no round up to the first answer is fatal and the answer is
not in the tenth round; for `getInitialResp`, the arrays have to hold its PDU too,
and the length of the PDU must not be 65536, which is 0 in a `uint16_t`. -/
theorem handshakes_give_up_iff (req : Request) (serverS : Addr) (recvs : ℕ → Recv) :
    ((Handshake.initialResp req req.pduBuf).GivesUpOnlyWhenFailed recvs
        (getInitialResp req serverS recvs) ↔
      6 + req.fromFile.length + 1 ≤ req.bufSize.toNat ∧ req.fromFile.length ≠ 65522 ∧
        (Handshake.initialResp req req.pduBuf).InTime recvs) ∧
    (Handshake.setupResp.GivesUpOnlyWhenFailed recvs (ackInitialResp serverS recvs) ↔
      Handshake.setupResp.InTime recvs) := by
  refine ⟨?_, Handshake.loop_givesUp_iff (by decide +kernel) recvs serverS⟩
  unfold getInitialResp
  rw [req.initialPdu_eq]
  by_cases hfits : 6 + req.fromFile.length + 1 ≤ req.bufSize.toNat
  · rw [if_pos hfits, Emit.liftM_eq, Emit.bind_silent, and_iff_right hfits]
    have hlen := req.pduBuf_length
    have hbuf := req.bufSize.toNat_lt
    by_cases hsend : req.fromFile.length = 65522
    · rw [Handshake.loop_of_nothing (show req.pduBuf.length = 0 by omega)]
      exact iff_of_false (Handshake.not_givesUp_of_error rfl) fun hcond => hcond.1 hsend
    · rw [and_iff_right hsend]
      exact Handshake.loop_givesUp_iff (show req.pduBuf.length ≠ 0 by omega) recvs serverS
  · rw [if_neg hfits, Emit.liftM_eq, Emit.bind_error]
    refine iff_of_false (fun hgives => ?_) fun hcond => hfits hcond.1
    cases hgives.timedOut fun ⟨i, hi, _⟩ => absurd hi (Nat.not_lt_zero i)

/-- Nine seconds of silence, and the answer in the tenth. -/
def tenthRound (answer : List UInt8) (i : ℕ) : Recv :=
  if i = 9 then some (.child 0, answer) else none

/-- Ten rounds, of which the last is answered, are not to end in a time-out. -/
theorem Handshake.not_givesUp_of_tenth {h : Handshake} {seqNum : UInt32} {flag : UInt8}
    {payload : List UInt8} {p : SetupProc HandshakeEnd} (hlen : payload.length ≤ 65528)
    (hrecv : 7 + payload.length ≤ h.recvLen) (hflag : flag ∈ h.expected)
    (hrounds : 9 < p.out.length) (htimedOut : p.result = .ok .timedOut) :
    ¬h.GivesUpOnlyWhenFailed (tenthRound (createPdu seqNum flag payload)) p := by
  have hread := interpPDU_take_of_le seqNum flag hlen hrecv
  refine not_givesUp_of_answered ⟨9, hrounds, _, _, _, rfl, hread, hflag⟩ fun packet src hok => ?_
  rw [htimedOut] at hok
  cases hok

/-- An INITIALRESP that first comes in the tenth round is not taken, and neither
is a SETUPRESP. -/
theorem tenth_answer_lost :
    ¬(Handshake.initialResp ⟨[97], 1, 100⟩ (Request.mk [97] 1 100).pduBuf).GivesUpOnlyWhenFailed
        (tenthRound (createPdu 0 INITIALRESP_FLAG [1]))
        (getInitialResp ⟨[97], 1, 100⟩ .server (tenthRound (createPdu 0 INITIALRESP_FLAG [1]))) ∧
      ¬Handshake.setupResp.GivesUpOnlyWhenFailed (tenthRound (createPdu 1 SETUPRESP_FLAG [1]))
        (ackInitialResp (.child 0) (tenthRound (createPdu 1 SETUPRESP_FLAG [1]))) :=
  ⟨Handshake.not_givesUp_of_tenth (by decide) (by decide) (by decide) (by decide +kernel)
      (by decide +kernel),
    Handshake.not_givesUp_of_tenth (by decide) (by decide) (by decide) (by decide +kernel)
      (by decide +kernel)⟩

end SelRej
