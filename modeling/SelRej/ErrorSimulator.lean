import Mathlib.Algebra.Order.Ring.Rat
import SelRej.DatagramFaults

/-!
# The error simulator

`sendtoErr`, through which both programs send all their datagrams, is a part of
`libcpe464`. A `PacketManager` numbers the calls. It runs its standard events on a
copy of each datagram and, at a random rate, one of its random events: an event can
drop the datagram or complement one of its bytes. Which events there are is decided by
the arguments of `sendErr_init` and by environment variables. What is printed is left
out.
-/
namespace SelRej

/-- A result of `drand48`, which is less than 1: its value as a `float`, and as an
`int` after a multiplication by `n`. -/
structure Drand48 where
  asFloat : ℚ
  scaled : ℕ → ℕ
  nonneg : 0 ≤ asFloat
  le_one : asFloat ≤ 1
  scaled_lt : ∀ n, 0 < n → scaled n < n

/-- The results of `drand48` in one call of `sendtoErr`: one for each standard event,
and those that decide whether a random event is run, which one, and what it does. -/
structure Draws where
  standard : ℕ → Drand48
  randNum : Drand48
  randCase : Drand48
  chance : Drand48

/-- The results 0, 1 and 2 of an event. -/
inductive EventResult where
  | unchanged
  | changed
  | dropped
  deriving DecidableEq, Repr

inductive MsgEvent where
  | infoSeqNo
  | errorDrop (dropAll : Bool) (dropList : List UInt32)
  | errorFlipBits
  deriving DecidableEq, Repr

def MsgEvent.run (msgNo : UInt32) (drand48 : Drand48) (pBuf : List UInt8) :
    MsgEvent → EventResult × List UInt8
  | .infoSeqNo => (.unchanged, pBuf)
  | .errorDrop dropAll dropList =>
      (if dropAll = true ∨ msgNo ∈ dropList then .dropped else .unchanged, pBuf)
  | .errorFlipBits => (.changed, SelRej.errorFlipBits pBuf (drand48.scaled pBuf.length))

structure PacketManager where
  errorRate : ℚ
  msgNo : UInt32
  errorCaseConstant : List MsgEvent
  errorCaseChance : List MsgEvent
  deriving DecidableEq, Repr

namespace PacketManager

def initial : PacketManager := ⟨0, 0, [], []⟩

def addMsgEventStandard (m : PacketManager) (msgErr : MsgEvent) : PacketManager :=
  { m with errorCaseConstant := m.errorCaseConstant ++ [msgErr] }

def addMsgEventRandom (m : PacketManager) (msgErr : MsgEvent) : PacketManager :=
  { m with errorCaseChance := m.errorCaseChance ++ [msgErr] }

/-- The loop of `runMsgEvents`, which a drop ends. -/
def runMsgEvents (msgNo : UInt32) : List MsgEvent → (ℕ → Drand48) → EventResult → List UInt8 →
    EventResult × List UInt8
  | [], _, hasChanged, pBuf => (hasChanged, pBuf)
  | event :: errVec, draws, hasChanged, pBuf =>
      match event.run msgNo (draws 0) pBuf with
      | (.unchanged, pBuf) => runMsgEvents msgNo errVec (fun i => draws (i + 1)) hasChanged pBuf
      | (.changed, pBuf) => runMsgEvents msgNo errVec (fun i => draws (i + 1)) .changed pBuf
      | (.dropped, pBuf) => (.dropped, pBuf)

/-- A random event is run on a datagram that has been dropped as well. -/
def processEvents (m : PacketManager) (draws : Draws) (pBuf : List UInt8) :
    EventResult × List UInt8 :=
  let (nResult, pBuf) := runMsgEvents m.msgNo m.errorCaseConstant draws.standard .unchanged pBuf
  if h : 0 < m.errorCaseChance.length ∧ draws.randNum.asFloat ≤ m.errorRate then
    let event := m.errorCaseChance.get ⟨_, draws.randCase.scaled_lt _ h.1⟩
    match nResult, event.run m.msgNo draws.chance pBuf with
    | .dropped, (_, pBuf) => (.dropped, pBuf)
    | _, result => result
  else (nResult, pBuf)

/-- The datagram that is handed on to `sendto`, if it is not dropped. -/
def sendtoErr (m : PacketManager) (draws : Draws) (msg : List UInt8) :
    Except Halt (PacketManager × Option (List UInt8)) :=
  if msg = [] then .error .exit
  else
    let m := { m with msgNo := m.msgNo + 1 }
    match m.processEvents draws msg with
    | (.dropped, _) => .ok (m, none)
    | (_, bufTmp) => .ok (m, some bufTmp)

def sendAll (m : PacketManager) : List (Draws × List UInt8) →
    Except Halt (PacketManager × List (Option (List UInt8)))
  | [] => .ok (m, [])
  | (draws, msg) :: calls => do
      let (m, sent) ← m.sendtoErr draws msg
      let (m, rest) ← m.sendAll calls
      return (m, sent :: rest)

end PacketManager

/-- The values of the environment variables that are set. -/
structure Settings where
  errRate : Option ℚ
  errDrop : Option (List ℤ)
  errFlip : Option (List ℤ)

def parserLong2Uint32 (lLong : List ℤ) : List UInt32 :=
  (lLong.filter fun n => decide (0 ≤ n)).map UInt32.ofInt

namespace Settings

def loadEnvDataErrRate (settings : Settings) (m : PacketManager) : PacketManager :=
  match settings.errRate with
  | some rate => { m with errorRate := rate }
  | none => m

/-- The list of a random drop is empty. -/
def loadEnvDataErrDrop (settings : Settings) (m : PacketManager) : PacketManager :=
  match settings.errDrop with
  | some lLong =>
      match parserLong2Uint32 lLong with
      | [] => m.addMsgEventRandom (.errorDrop true [])
      | lUint32 => m.addMsgEventStandard (.errorDrop false lUint32)
  | none => m

def loadEnvDataErrFlip (settings : Settings) (m : PacketManager) : PacketManager :=
  match settings.errFlip with
  | some lLong =>
      match parserLong2Uint32 lLong with
      | [] => m.addMsgEventRandom .errorFlipBits
      | _ => m
  | none => m

/-- The constructor of `SettingsManager`. -/
def load (settings : Settings) : PacketManager :=
  settings.loadEnvDataErrFlip (settings.loadEnvDataErrDrop (settings.loadEnvDataErrRate .initial))

def setUserModeErrRate (settings : Settings) (rate : ℚ) (m : PacketManager) : PacketManager :=
  if settings.errRate.isSome then m else { m with errorRate := rate }

def setUserModeErrDrop (settings : Settings) (isEnabled : Bool) (m : PacketManager) :
    PacketManager :=
  if settings.errDrop.isSome then m
  else if isEnabled then m.addMsgEventRandom (.errorDrop true [])
  else m

def setUserModeErrFlip (settings : Settings) (isEnabled : Bool) (m : PacketManager) :
    PacketManager :=
  if settings.errFlip.isSome then m
  else if isEnabled then m.addMsgEventRandom .errorFlipBits
  else m

def sendErrInit (settings : Settings) (errorRate : ℚ) (dropFlag flipFlag : Bool) : PacketManager :=
  let m := settings.load.addMsgEventStandard .infoSeqNo
  settings.setUserModeErrFlip flipFlag
    (settings.setUserModeErrDrop dropFlag (settings.setUserModeErrRate errorRate m))

end Settings

inductive RandomError where
  | drop
  | flip
  deriving DecidableEq, Repr

/-- The numbers of the datagrams that are dropped in any case, and the errors of which
one is made at a rate. -/
structure ErrorModel where
  dropList : List UInt32
  errorRate : ℚ
  random : List RandomError
  deriving DecidableEq, Repr

inductive Fate where
  | passed
  | dropped
  | flipped (byteToFlip : ℕ)
  deriving DecidableEq, Repr

def Fate.deliver (msg : List UInt8) : Fate → Option (List UInt8)
  | .passed => some msg
  | .dropped => none
  | .flipped byteToFlip => some (errorFlipBits msg byteToFlip)

namespace ErrorModel

def fate (f : ErrorModel) (draws : Draws) (msgNo : UInt32) (msg : List UInt8) : Fate :=
  if msgNo ∈ f.dropList then .dropped
  else if h : 0 < f.random.length ∧ draws.randNum.asFloat ≤ f.errorRate then
    match f.random.get ⟨_, draws.randCase.scaled_lt _ h.1⟩ with
    | .drop => .dropped
    | .flip => .flipped (draws.chance.scaled msg.length)
  else .passed

/-- What is sent of datagrams with the numbers from `n + 1`. -/
def deliverAll (f : ErrorModel) (n : ℕ) : List (Draws × List UInt8) → List (Option (List UInt8))
  | [] => []
  | (draws, msg) :: calls =>
      (f.fate draws (UInt32.ofNat (n + 1)) msg).deliver msg :: f.deliverAll (n + 1) calls

end ErrorModel

def RandomError.event : RandomError → MsgEvent
  | .drop => .errorDrop true []
  | .flip => .errorFlipBits

section
variable {m : PacketManager} {f : ErrorModel} {msgNo : UInt32} {draws : Draws} {msg : List UInt8}

/-- No standard event changes a datagram. -/
structure Implements (m : PacketManager) (f : ErrorModel) : Prop where
  standard : ∀ event ∈ m.errorCaseConstant,
    event = .infoSeqNo ∨ ∃ dropList, event = .errorDrop false dropList
  listed : ∀ n, n ∈ f.dropList ↔
    ∃ dropList, .errorDrop false dropList ∈ m.errorCaseConstant ∧ n ∈ dropList
  rate : m.errorRate = f.errorRate
  chance : m.errorCaseChance = f.random.map RandomError.event

theorem MsgEvent.run_list (dropList : List UInt32) (drand48 : Drand48) :
    (MsgEvent.errorDrop false dropList).run msgNo drand48 msg =
      (if msgNo ∈ dropList then .dropped else .unchanged, msg) := by
  simp [MsgEvent.run]

namespace PacketManager

theorem runMsgEvents_listed {errVec : List MsgEvent} {dropList : List UInt32}
    (hstandard : ∀ event ∈ errVec, event = .infoSeqNo ∨ ∃ l, event = .errorDrop false l)
    (hmem : .errorDrop false dropList ∈ errVec) (hlisted : msgNo ∈ dropList)
    (draws : ℕ → Drand48) (hasChanged : EventResult) :
    runMsgEvents msgNo errVec draws hasChanged msg = (.dropped, msg) := by
  induction errVec generalizing draws hasChanged with
  | nil => cases hmem
  | cons event errVec ih =>
      have hrest := fun e he => hstandard e (List.mem_cons_of_mem event he)
      rw [runMsgEvents]
      rcases List.mem_cons.mp hmem with hevent | hmem
      · have hdrop : event.run msgNo (draws 0) msg = (.dropped, msg) := by
          rw [← hevent, MsgEvent.run_list, if_pos hlisted]
        rw [hdrop]
      · rcases hstandard event List.mem_cons_self with hevent | ⟨l, hevent⟩
        · rw [hevent, MsgEvent.run]
          exact ih hrest hmem _ _
        · rw [hevent, MsgEvent.run_list]
          split_ifs
          · rfl
          · exact ih hrest hmem _ _

theorem runMsgEvents_unlisted {errVec : List MsgEvent}
    (hstandard : ∀ event ∈ errVec, event = .infoSeqNo ∨ ∃ l, event = .errorDrop false l)
    (hunlisted : ∀ l, .errorDrop false l ∈ errVec → msgNo ∉ l)
    (draws : ℕ → Drand48) (hasChanged : EventResult) :
    runMsgEvents msgNo errVec draws hasChanged msg = (hasChanged, msg) := by
  induction errVec generalizing draws with
  | nil => rfl
  | cons event errVec ih =>
      have hrest := fun e he => hstandard e (List.mem_cons_of_mem event he)
      have hrest' := fun l hl => hunlisted l (List.mem_cons_of_mem event hl)
      have hevent : event.run msgNo (draws 0) msg = (.unchanged, msg) := by
        rcases hstandard event List.mem_cons_self with rfl | ⟨l, rfl⟩
        · rfl
        · rw [MsgEvent.run_list, if_neg (hunlisted l List.mem_cons_self)]
      rw [runMsgEvents, hevent]
      exact ih hrest hrest' _

end PacketManager

theorem Implements.processEvents_eq (h : Implements m f) (draws : Draws) (msg : List UInt8) :
    (∃ pBuf, m.processEvents draws msg = (.dropped, pBuf) ∧ f.fate draws m.msgNo msg = .dropped) ∨
      ∃ result pBuf, m.processEvents draws msg = (result, pBuf) ∧ result ≠ .dropped ∧
        (f.fate draws m.msgNo msg).deliver msg = some pBuf := by
  obtain ⟨errorRate, msgNo, constant, chance⟩ := m
  obtain ⟨hstandard, hlisted, hrate, hchance⟩ := h
  dsimp only at hstandard hlisted hrate hchance
  subst hrate hchance
  unfold PacketManager.processEvents ErrorModel.fate
  dsimp only
  by_cases hlist : msgNo ∈ f.dropList
  · obtain ⟨dropList, hmem, hin⟩ := (hlisted msgNo).mp hlist
    rw [PacketManager.runMsgEvents_listed hstandard hmem hin, if_pos hlist]
    left
    split_ifs
    · exact ⟨_, rfl, rfl⟩
    · exact ⟨_, rfl, rfl⟩
  · have hunlisted : ∀ l, .errorDrop false l ∈ constant → msgNo ∉ l :=
      fun l hl hin => hlist ((hlisted msgNo).mpr ⟨l, hl, hin⟩)
    rw [PacketManager.runMsgEvents_unlisted hstandard hunlisted, if_neg hlist]
    by_cases hrandom : 0 < f.random.length ∧ draws.randNum.asFloat ≤ f.errorRate
    · have hlength : 0 < (f.random.map RandomError.event).length ∧
          draws.randNum.asFloat ≤ f.errorRate := by
        rwa [List.length_map]
      have hcase := draws.randCase.scaled_lt _ hrandom.1
      rw [dif_pos hrandom, dif_pos hlength]
      simp only [List.get_eq_getElem, List.getElem_map, List.length_map]
      cases f.random[draws.randCase.scaled f.random.length] with
      | drop => exact .inl ⟨msg, rfl, rfl⟩
      | flip => exact .inr ⟨_, _, rfl, by simp, rfl⟩
    · have hlength : ¬(0 < (f.random.map RandomError.event).length ∧
          draws.randNum.asFloat ≤ f.errorRate) := by
        rwa [List.length_map]
      rw [dif_neg hrandom, dif_neg hlength]
      exact .inr ⟨_, _, rfl, by simp, rfl⟩

theorem Implements.numbered (h : Implements m f) (msgNo : UInt32) :
    Implements { m with msgNo } f :=
  ⟨h.standard, h.listed, h.rate, h.chance⟩

/-- One call numbers the datagram and leaves the settings as they are. -/
theorem Implements.sendtoErr_eq (h : Implements m f) (hmsg : msg ≠ []) :
    m.sendtoErr draws msg = .ok ({ m with msgNo := m.msgNo + 1 },
      (f.fate draws (m.msgNo + 1) msg).deliver msg) := by
  unfold PacketManager.sendtoErr
  rw [if_neg hmsg]
  dsimp only
  rcases (h.numbered (m.msgNo + 1)).processEvents_eq draws msg with
    ⟨pBuf, hevents, hfate⟩ | ⟨result, pBuf, hevents, hne, hfate⟩
  · rw [hevents, hfate]
    rfl
  · rw [hevents, hfate]
    cases result with
    | dropped => exact absurd rfl hne
    | unchanged | changed => rfl

theorem Implements.sendAll_eq (h : Implements m f) {n : ℕ} (hn : m.msgNo = UInt32.ofNat n)
    {calls : List (Draws × List UInt8)} (hmsgs : ∀ call ∈ calls, call.2 ≠ []) :
    m.sendAll calls = .ok ({ m with msgNo := UInt32.ofNat (n + calls.length) },
      f.deliverAll n calls) := by
  induction calls generalizing m n with
  | nil =>
      rw [List.length_nil, Nat.add_zero, ← hn]
      rfl
  | cons call calls ih =>
      obtain ⟨draws, msg⟩ := call
      have hnumber : m.msgNo + 1 = UInt32.ofNat (n + 1) := by
        rw [hn, UInt32.ofNat_add]
        rfl
      rw [PacketManager.sendAll, h.sendtoErr_eq (hmsgs _ List.mem_cons_self), ok_bind]
      dsimp only
      rw [ih (h.numbered _) hnumber fun c hc => hmsgs c (List.mem_cons_of_mem _ hc), ok_bind, hnumber,
        List.length_cons, Nat.add_right_comm, Nat.add_assoc]
      rfl

theorem implements_initial : Implements .initial ⟨[], 0, []⟩ where
  standard := by
    intro event hmem
    cases hmem
  listed := by
    intro n
    simp [PacketManager.initial]
  rate := rfl
  chance := rfl

theorem Implements.addRandom (h : Implements m f) (e : RandomError) :
    Implements (m.addMsgEventRandom e.event) { f with random := f.random ++ [e] } where
  standard := h.standard
  listed := h.listed
  rate := h.rate
  chance := by
    rw [PacketManager.addMsgEventRandom, h.chance, List.map_append]
    rfl

theorem Implements.addInfoSeqNo (h : Implements m f) :
    Implements (m.addMsgEventStandard .infoSeqNo) f where
  standard := by
    intro event hmem
    rcases List.mem_append.mp hmem with hmem | hmem
    · exact h.standard event hmem
    · exact .inl (List.mem_singleton.mp hmem)
  listed := by
    intro n
    rw [h.listed]
    simp [PacketManager.addMsgEventStandard]
  rate := h.rate
  chance := h.chance

theorem Implements.addErrorDrop (h : Implements m f) (dropList : List UInt32) :
    Implements (m.addMsgEventStandard (.errorDrop false dropList))
      { f with dropList := f.dropList ++ dropList } where
  standard := by
    intro event hmem
    rcases List.mem_append.mp hmem with hmem | hmem
    · exact h.standard event hmem
    · exact .inr ⟨dropList, List.mem_singleton.mp hmem⟩
  listed := by
    intro n
    simp only [List.mem_append, h.listed, PacketManager.addMsgEventStandard, List.mem_singleton,
      MsgEvent.errorDrop.injEq, true_and, or_and_right, exists_or, exists_eq_left]
  rate := h.rate
  chance := h.chance

namespace Settings

/-- The random error that an environment variable asks for, by a list without numbers. -/
def envErrors (value : Option (List ℤ)) (e : RandomError) : List RandomError :=
  if value.map parserLong2Uint32 = some [] then [e] else []

/-- The random error that an argument of `sendErr_init` asks for, if it is not overridden. -/
def userErrors (value : Option (List ℤ)) (isEnabled : Bool) (e : RandomError) : List RandomError :=
  if value.isSome then [] else if isEnabled then [e] else []

def errorModel (settings : Settings) (errorRate : ℚ) (dropFlag flipFlag : Bool) : ErrorModel where
  dropList := (settings.errDrop.map parserLong2Uint32).getD []
  errorRate := settings.errRate.getD errorRate
  random := envErrors settings.errDrop .drop ++ envErrors settings.errFlip .flip ++
    userErrors settings.errDrop dropFlag .drop ++ userErrors settings.errFlip flipFlag .flip

variable (settings : Settings)

theorem implements_load : Implements settings.load
    ⟨(settings.errDrop.map parserLong2Uint32).getD [], settings.errRate.getD 0,
      envErrors settings.errDrop .drop ++ envErrors settings.errFlip .flip⟩ := by
  have hrate : Implements (settings.loadEnvDataErrRate .initial)
      ⟨[], settings.errRate.getD 0, []⟩ := by
    unfold loadEnvDataErrRate
    cases settings.errRate with
    | none => exact implements_initial
    | some rate => exact ⟨implements_initial.standard, implements_initial.listed, rfl, rfl⟩
  have hdrop : Implements (settings.loadEnvDataErrDrop (settings.loadEnvDataErrRate .initial))
      ⟨(settings.errDrop.map parserLong2Uint32).getD [], settings.errRate.getD 0,
        envErrors settings.errDrop .drop⟩ := by
    unfold loadEnvDataErrDrop envErrors
    cases settings.errDrop with
    | none => exact hrate
    | some lLong =>
        rw [Option.map_some, Option.getD_some]
        dsimp only
        cases parserLong2Uint32 lLong with
        | nil => exact hrate.addRandom .drop
        | cons n lUint32 => exact hrate.addErrorDrop (n :: lUint32)
  unfold load loadEnvDataErrFlip
  generalize settings.loadEnvDataErrDrop (settings.loadEnvDataErrRate .initial) = m at hdrop
  generalize envErrors settings.errDrop .drop = random at hdrop
  unfold envErrors
  cases settings.errFlip with
  | none =>
      rw [Option.map_none, if_neg (by simp), List.append_nil]
      exact hdrop
  | some lLong =>
      rw [Option.map_some]
      dsimp only
      cases parserLong2Uint32 lLong with
      | nil => exact hdrop.addRandom .flip
      | cons n lUint32 =>
          rw [if_neg (by simp), List.append_nil]
          exact hdrop

theorem implements_userErrors (h : Implements m f) (value : Option (List ℤ)) (isEnabled : Bool)
    (e : RandomError) :
    Implements (if value.isSome then m else if isEnabled then m.addMsgEventRandom e.event else m)
      { f with random := f.random ++ userErrors value isEnabled e } := by
  unfold userErrors
  split_ifs
  · rwa [List.append_nil]
  · exact h.addRandom e
  · rwa [List.append_nil]

theorem implements_sendErrInit (errorRate : ℚ) (dropFlag flipFlag : Bool) :
    Implements (settings.sendErrInit errorRate dropFlag flipFlag)
      (settings.errorModel errorRate dropFlag flipFlag) := by
  have hload := settings.implements_load.addInfoSeqNo
  have hrate : Implements
      (settings.setUserModeErrRate errorRate (settings.load.addMsgEventStandard .infoSeqNo))
      ⟨(settings.errDrop.map parserLong2Uint32).getD [], settings.errRate.getD errorRate,
        envErrors settings.errDrop .drop ++ envErrors settings.errFlip .flip⟩ := by
    unfold setUserModeErrRate
    cases hset : settings.errRate with
    | none => exact ⟨hload.standard, hload.listed, rfl, hload.chance⟩
    | some rate =>
        rw [hset] at hload
        exact hload
  exact implements_userErrors (implements_userErrors hrate settings.errDrop dropFlag .drop)
    settings.errFlip flipFlag .flip

theorem loadEnvDataErrRate_msgNo (m : PacketManager) :
    (settings.loadEnvDataErrRate m).msgNo = m.msgNo := by
  unfold loadEnvDataErrRate
  split
  · rfl
  · rfl

theorem loadEnvDataErrDrop_msgNo (m : PacketManager) :
    (settings.loadEnvDataErrDrop m).msgNo = m.msgNo := by
  unfold loadEnvDataErrDrop
  split
  · split
    · rfl
    · rfl
  · rfl

theorem loadEnvDataErrFlip_msgNo (m : PacketManager) :
    (settings.loadEnvDataErrFlip m).msgNo = m.msgNo := by
  unfold loadEnvDataErrFlip
  split
  · split
    · rfl
    · rfl
  · rfl

theorem load_msgNo : settings.load.msgNo = 0 := by
  rw [load, loadEnvDataErrFlip_msgNo, loadEnvDataErrDrop_msgNo, loadEnvDataErrRate_msgNo]
  rfl

theorem sendErrInit_msgNo (errorRate : ℚ) (dropFlag flipFlag : Bool) :
    (settings.sendErrInit errorRate dropFlag flipFlag).msgNo = 0 := by
  have hload : (settings.load.addMsgEventStandard .infoSeqNo).msgNo = 0 := settings.load_msgNo
  unfold sendErrInit setUserModeErrFlip setUserModeErrDrop setUserModeErrRate
  dsimp only
  split_ifs <;> exact hload

end Settings

/-- Not sent, sent as it is, or sent with one byte complemented. -/
inductive Simulated (msg : List UInt8) : Option (List UInt8) → Prop where
  | dropped : Simulated msg none
  | passed : Simulated msg (some msg)
  | flipped {i : ℕ} (hi : i < msg.length) : Simulated msg (some (errorFlipBits msg i))

theorem ErrorModel.deliver_fate (f : ErrorModel) (draws : Draws) (msgNo : UInt32)
    (hmsg : msg ≠ []) : Simulated msg ((f.fate draws msgNo msg).deliver msg) := by
  unfold ErrorModel.fate
  split_ifs
  · exact .dropped
  · split
    · exact .dropped
    · exact .flipped (draws.chance.scaled_lt _ (List.length_pos_iff.mpr hmsg))
  · exact .passed

theorem Simulated.rejected {seqNum : UInt32} {flag : UInt8} {payload d : List UInt8}
    (h : Simulated (createPdu seqNum flag payload) (some d)) (hlen : payload.length ≤ 65528) :
    d = createPdu seqNum flag payload ∨
      d.length = (createPdu seqNum flag payload).length ∧ interpPDU d = .ok none := by
  generalize hout : some d = out at h
  cases h with
  | dropped => cases hout
  | passed => exact .inl (Option.some.inj hout)
  | @flipped i hi =>
      rw [Option.some.inj hout]
      refine .inr ⟨?_, (interpPDU_changed_byte seqNum flag payload hlen i hi).2⟩
      exact List.length_modify _ _ _

theorem ErrorModel.getElem?_deliverAll (f : ErrorModel) (n : ℕ) (calls : List (Draws × List UInt8))
    (k : ℕ) : (f.deliverAll n calls)[k]? = calls[k]?.map fun call =>
      (f.fate call.1 (UInt32.ofNat (n + k + 1)) call.2).deliver call.2 := by
  induction calls generalizing n k with
  | nil => rfl
  | cons call calls ih =>
      cases k with
      | zero => rfl
      | succ k =>
          rw [ErrorModel.deliverAll, List.getElem?_cons_succ, List.getElem?_cons_succ, ih,
            Nat.add_right_comm n 1 k]
          rfl

/-- In every run of calls, whatever the settings and the random numbers, the PDUs with
numbers on the list are dropped. What is sent of any other one is the PDU itself or a
string of its length that `interpPDU` rejects. -/
theorem simulator_treats_pdus (settings : Settings) (errorRate : ℚ) (dropFlag flipFlag : Bool)
    {calls : List (Draws × List UInt8)} (hmsgs : ∀ call ∈ calls, call.2 ≠ []) :
    ∃ m sent, (settings.sendErrInit errorRate dropFlag flipFlag).sendAll calls = .ok (m, sent) ∧
      sent = (settings.errorModel errorRate dropFlag flipFlag).deliverAll 0 calls ∧
      m.msgNo = UInt32.ofNat calls.length ∧
      ∀ k draws seqNum flag payload, payload.length ≤ 65528 →
        calls[k]? = some (draws, createPdu seqNum flag payload) → ∃ out, sent[k]? = some out ∧
          (UInt32.ofNat (k + 1) ∈ (settings.errorModel errorRate dropFlag flipFlag).dropList →
            out = none) ∧
          ∀ d, out = some d → d = createPdu seqNum flag payload ∨
            d.length = (createPdu seqNum flag payload).length ∧ interpPDU d = .ok none := by
  have himplements := settings.implements_sendErrInit errorRate dropFlag flipFlag
  have hnumber := settings.sendErrInit_msgNo errorRate dropFlag flipFlag
  have hsent := himplements.sendAll_eq hnumber hmsgs
  refine ⟨_, _, hsent, rfl, by rw [Nat.zero_add], ?_⟩
  intro k draws seqNum flag payload hlen hcall
  have hpdu : createPdu seqNum flag payload ≠ [] :=
    hmsgs _ (List.mem_of_getElem? hcall)
  rw [ErrorModel.getElem?_deliverAll, hcall, Nat.zero_add]
  refine ⟨_, rfl, ?_, ?_⟩
  · intro hlisted
    dsimp only
    rw [ErrorModel.fate, if_pos hlisted]
    rfl
  · intro d hd
    have hsimulated := ErrorModel.deliver_fate (settings.errorModel errorRate dropFlag flipFlag)
      draws (UInt32.ofNat (k + 1)) hpdu
    dsimp only at hd
    rw [hd] at hsimulated
    exact hsimulated.rejected hlen

end

def middle : Drand48 where
  asFloat := 1 / 2
  scaled n := n / 2
  nonneg := by decide +kernel
  le_one := by decide +kernel
  scaled_lt := fun _ hn => Nat.div_lt_self hn (Nat.lt_succ_self 1)

def middleDraws : Draws := ⟨fun _ => middle, middle, middle, middle⟩

/-- Datagram 2 is on the list, and every other one gets a random error. -/
theorem simulator_treats_pdus_listed : ∃ m d,
    ((⟨none, some [2], none⟩ : Settings).sendErrInit 1 true true).sendAll
        [(middleDraws, createPdu 0 ACKEOF_FLAG []), (middleDraws, createPdu 0 ACKEOF_FLAG [])] =
      .ok (m, [some d, none]) ∧ interpPDU d = .ok none := by
  have hmsgs : ∀ call ∈ [(middleDraws, createPdu 0 ACKEOF_FLAG []),
      (middleDraws, createPdu 0 ACKEOF_FLAG [])], call.2 ≠ [] := by
    intro call hcall
    rw [List.mem_cons, List.mem_singleton, or_self] at hcall
    subst hcall
    decide
  obtain ⟨m, sent, hrun, hsent, _, hpdus⟩ :=
    simulator_treats_pdus ⟨none, some [2], none⟩ 1 true true hmsgs
  obtain ⟨out, hout, _, hfirst⟩ := hpdus 0 middleDraws 0 ACKEOF_FLAG [] (by decide) rfl
  have hdelivered : sent = [some (errorFlipBits (createPdu 0 ACKEOF_FLAG []) 3), none] := by
    rw [hsent]
    decide +kernel
  rw [hdelivered, List.getElem?_cons_zero] at hout
  rw [hdelivered] at hrun
  refine ⟨m, _, hrun, ?_⟩
  rcases hfirst _ (Option.some.inj hout).symm with hsame | ⟨_, hreject⟩
  · exact absurd hsame (by decide +kernel)
  · exact hreject

end SelRej
