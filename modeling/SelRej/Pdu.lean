import SelRej.CInt
import SelRej.Emit

/-!
# PDUs

`createPdu`, `interpPDU` and `recreatePDUS` of `pdu.c`, with the checksum
`in_cksum` of the library. A buffer with its length is a list of bytes. A PDU
is a four-byte sequence number in network order, a two-byte checksum, a flag
byte and the payload; the host is little-endian.

`freePDU` and `free` only release memory: no function reads a payload after
releasing it, so they leave no trace in the model.
-/
namespace SelRej
open CInt

def HEADER_LEN : ℕ := 7
def MAXBUF : ℕ := 1400
def MAX_PDU_LEN : ℕ := 1407
def SETUPRESP_FLAG : UInt8 := 2
def DATA_FLAG : UInt8 := 3
def RR_FLAG : UInt8 := 5
def SREJ_FLAG : UInt8 := 6
def INITIAL_FLAG : UInt8 := 7
def INITIALRESP_FLAG : UInt8 := 8
def EOF_FLAG : UInt8 := 9
def ACKEOF_FLAG : UInt8 := 10

/-- The ways in which a process stops early: `exit`, or a memory access that
the C program is not entitled to make. `uninit` marks the use of a struct that
was never filled, and `diverge` a loop that did not end within the rounds the
model gives it. -/
inductive Halt where
  | exit | nullDeref | outOfBounds | uninit | diverge
  deriving DecidableEq, Repr

/-- `struct PduS`. The payload is the memory the pointer refers to, and its
length is what `payLen` says. -/
structure PduS where
  seqNum : UInt32
  checksum : UInt16
  flag : UInt8
  payload : List UInt8
  payLen : UInt16
  payLen_eq : payLen.toNat = payload.length
  deriving DecidableEq, Repr

/-- The bytes of `htonl(n)`. -/
def htonl (n : UInt32) : List UInt8 :=
  [UInt8.ofNat (n.toNat / 16777216), UInt8.ofNat (n.toNat / 65536), UInt8.ofNat (n.toNat / 256),
    UInt8.ofNat n.toNat]

def ntohl (b₀ b₁ b₂ b₃ : UInt8) : UInt32 :=
  UInt32.ofNat (b₀.toNat * 16777216 + b₁.toNat * 65536 + b₂.toNat * 256 + b₃.toNat)

/-- The two bytes of a `uint16_t` in memory. -/
def hostBytes (n : UInt16) : List UInt8 :=
  [UInt8.ofNat n.toNat, UInt8.ofNat (n.toNat / 256)]

def hostShort (b₀ b₁ : UInt8) : UInt16 := UInt16.ofNat (b₀.toNat + 256 * b₁.toNat)

/-- `memcpy(&n, payload, 4); n = ntohl(n)`, which reads four bytes whatever
the payload's length is. -/
def readSeq (payload : List UInt8) : Except Halt UInt32 :=
  match payload with
  | b₀ :: b₁ :: b₂ :: b₃ :: _ => .ok (ntohl b₀ b₁ b₂ b₃)
  | _ => .error .outOfBounds

/-- The two loops of `in_cksum` over the 32-bit accumulator: 16-bit words, then
a possible odd byte. -/
def wordSum : ℤ → List UInt8 → ℤ
  | sum, [] => sum
  | sum, [b] => i32 (sum + b.toNat)
  | sum, b₀ :: b₁ :: bs => wordSum (i32 (sum + (hostShort b₀ b₁).toNat)) bs

/-- `sum >> 16` is the floor of a division, `sum & 0xffff` a remainder, and
`answer = ~sum` truncates `-1 - sum` to 16 bits. -/
def in_cksum (addr : List UInt8) : UInt16 :=
  let sum := wordSum 0 addr
  let sum := i32 (sum / 65536 + sum % 65536)
  let sum := i32 (sum + sum / 65536)
  UInt16.ofInt (-1 - sum)

/-- The buffer before the checksum is stored, and after. -/
def layout (seqNum : UInt32) (checksum : UInt16) (flag : UInt8) (payload : List UInt8) :
    List UInt8 :=
  htonl seqNum ++ hostBytes checksum ++ flag :: payload

/-- The bytes written to `pduBuf`; their number is the value returned. -/
def createPdu (seqNum : UInt32) (flag : UInt8) (payload : List UInt8) : List UInt8 :=
  let checksum := in_cksum (layout seqNum 0 flag payload)
  layout seqNum checksum flag payload

theorem payLen_toNat {payload : List UInt8} (h : payload.length < 65536) :
    (UInt16.ofNat payload.length).toNat = payload.length :=
  UInt16.toNat_ofNat_of_lt h

/-- `some` is return value 1 with the struct filled, `none` is return value 0
with the struct untouched. A datagram shorter than the header that passes the
checksum asks `malloc` for a negative size, taken as a `size_t`, and exits. -/
def interpPDU (apdu : List UInt8) : Except Halt (Option PduS) :=
  if in_cksum apdu ≠ 0 then .ok none
  else
    match apdu with
    | s₀ :: s₁ :: s₂ :: s₃ :: c₀ :: c₁ :: flag :: payload =>
        -- `payLen` is a `uint16_t`, and so is the length passed to `interpPDU`
        if h : payload.length < 65536 then
          .ok (some ⟨ntohl s₀ s₁ s₂ s₃, hostShort c₀ c₁, flag, payload,
            UInt16.ofNat payload.length, payLen_toNat h⟩)
        else .error .outOfBounds
    | _ => .error .exit

def recreatePDUS (packet : PduS) : List UInt8 :=
  createPdu packet.seqNum packet.flag packet.payload

/-- Where the length of a PDU is kept in a `uint16_t`. -/
def shortPdu (pduBuf : List UInt8) : List UInt8 := pduBuf.take (pduBuf.length % 65536)

theorem shortPdu_eq {pduBuf : List UInt8} (h : pduBuf.length < 65536) :
    shortPdu pduBuf = pduBuf := by
  rw [shortPdu, Nat.mod_eq_of_lt h, List.take_length]

theorem shortPdu_length (pduBuf : List UInt8) :
    (shortPdu pduBuf).length = pduBuf.length % 65536 := by
  rw [shortPdu, List.length_take, Nat.min_eq_left (Nat.mod_le _ _)]

section
variable {ω α : Type} {o : ω} {pduLen : ℕ} {f : Unit → Emit Halt ω α}

/-- `sendtoErr` of the library exits when there is nothing to send. -/
def sendtoErr (pduLen : ℕ) (o : ω) : Emit Halt ω Unit :=
  if pduLen = 0 then Emit.halt .exit else Emit.emit o

theorem sendtoErr_eq (h : pduLen ≠ 0) : sendtoErr pduLen o = Emit.emit o := if_neg h

theorem sendtoErr_zero : sendtoErr 0 o = Emit.halt .exit := (rfl)

theorem ends_sendtoErr {Q : α → Prop} (h : (f ()).Ends Q) : (sendtoErr pduLen o >>= f).Ends Q :=
  Emit.ends_bind fun _ => h

theorem avoids_sendtoErr {e : Halt} (hexit : Halt.exit ≠ e) (h : (f ()).Avoids e) :
    (sendtoErr pduLen o >>= f).Avoids e := by
  unfold sendtoErr
  split_ifs
  · exact Emit.avoids_halt hexit
  · exact Emit.avoids_emit h

end

end SelRej
