import Mathlib.Data.Finset.Insert
import Mathlib.Data.Fintype.EquivFin
import SelRej.Emit
import SelRej.PartialRun
import SelRej.Pdu

/-!
# The poll set

`pollLib.c` keeps its `struct pollfd`s in an array that is indexed by descriptor.
An element in no use has `fd` zero, so that `poll` looks at descriptor 0 for it: it
asks for no events there, but an error, a hang-up or an invalid descriptor is always
reported. Descriptors are far below the largest `int`, and allocation succeeds.
-/
namespace SelRej
open PartialRun

def POLL_SET_SIZE : ℕ := 10
def POLLIN : UInt16 := 1
def POLLERR : UInt16 := 8
def POLLHUP : UInt16 := 16
def POLLNVAL : UInt16 := 32

structure PollFd where
  fd : ℕ
  events : UInt16
  deriving DecidableEq, Repr

def PollFd.unused : PollFd := ⟨0, 0⟩

/-- `poll` stores which of the descriptor's conditions have been asked for, or are
reported in any case. -/
def PollFd.revents (conditions : ℕ → UInt16) (e : PollFd) : UInt16 :=
  conditions e.fd &&& (e.events ||| POLLERR ||| POLLHUP ||| POLLNVAL)

def PollFd.ready (conditions : ℕ → UInt16) (e : PollFd) : Bool :=
  decide (0 < (e.revents conditions).toNat ∧ (e.revents conditions).toNat < 32768)

/-- The static variables. -/
structure PollSet where
  pollFileDescriptors : List PollFd
  maxFileDescriptor : ℕ
  currentPollSetSize : ℕ

namespace PollSet

def initial : PollSet := ⟨[], 0, 0⟩

def setupPollSet (p : PollSet) : PollSet :=
  { p with
    currentPollSetSize := POLL_SET_SIZE
    pollFileDescriptors := List.replicate POLL_SET_SIZE .unused }

def growPollSet (p : PollSet) (newSetSize : ℕ) : Except Halt PollSet :=
  if newSetSize ≤ p.currentPollSetSize then .error .exit
  else .ok { p with
    pollFileDescriptors := p.pollFileDescriptors ++
      List.replicate (newSetSize - p.currentPollSetSize) .unused
    currentPollSetSize := newSetSize }

def store (p : PollSet) (i : ℕ) (e : PollFd) : Except Halt PollSet :=
  if i < p.pollFileDescriptors.length then
    .ok { p with pollFileDescriptors := p.pollFileDescriptors.set i e }
  else .error .outOfBounds

def addToPollSet (p : PollSet) (socketNumber : ℕ) : Except Halt PollSet := do
  let p ← if p.currentPollSetSize ≤ socketNumber then
      growPollSet p (socketNumber + POLL_SET_SIZE)
    else pure p
  let p := if p.maxFileDescriptor ≤ socketNumber + 1 then
      { p with maxFileDescriptor := socketNumber + 1 }
    else p
  p.store socketNumber ⟨socketNumber, POLLIN⟩

def removeFromPollSet (p : PollSet) (socketNumber : ℕ) : Except Halt PollSet :=
  p.store socketNumber .unused

/-- `poll` fails, or it returns with the conditions of the descriptors. Where it
waits for ever, it returns with a condition to report. -/
def pollCall (poll : Option (ℕ → UInt16)) (p : PollSet) : Except Halt ℤ :=
  match poll with
  | none => .error .exit
  | some conditions =>
      if p.pollFileDescriptors.length < p.maxFileDescriptor then .error .outOfBounds
      else
        let polled := p.pollFileDescriptors.take p.maxFileDescriptor
        let pollValue := polled.countP fun e => e.revents conditions != 0
        if 0 < pollValue then
          match polled.findIdx? (PollFd.ready conditions) with
          | some i => .ok i
          | none => .ok (-1)
        else .ok (-1)

end PollSet

/-- The descriptors that are polled, and one more than the highest one that ever was. -/
structure Polled where
  members : Finset ℕ
  top : ℕ

inductive PollSetCall where
  | add (socketNumber : ℕ)
  | remove (socketNumber : ℕ)
  deriving DecidableEq, Repr

namespace Polled

def step (a : Polled) : PollSetCall → Polled
  | .add n => ⟨insert n a.members, max a.top (n + 1)⟩
  | .remove n => ⟨a.members.erase n, a.top⟩

def after (calls : List PollSetCall) : Polled := calls.foldl step ⟨∅, 0⟩

/-- What is reported for number `i`: for one that is not polled, what `poll` finds
wrong with descriptor 0. -/
def reports (a : Polled) (conditions : ℕ → UInt16) (i : ℕ) : Bool :=
  if i ∈ a.members then conditions i &&& (POLLIN ||| POLLERR ||| POLLHUP ||| POLLNVAL) != 0
  else conditions 0 &&& (POLLERR ||| POLLHUP ||| POLLNVAL) != 0

def firstReported (a : Polled) (conditions : ℕ → UInt16) : ℤ :=
  match (List.range a.top).find? (a.reports conditions) with
  | some i => i
  | none => -1

end Polled

section
variable {p p' : PollSet} {a : Polled} {n : ℕ} {conditions : ℕ → UInt16}

structure HoldsPolled (p : PollSet) (a : Polled) : Prop where
  length : p.pollFileDescriptors.length = p.currentPollSetSize
  entry : ∀ i < p.currentPollSetSize, p.pollFileDescriptors[i]? =
    some (if i ∈ a.members then ⟨i, POLLIN⟩ else .unused)
  top : p.maxFileDescriptor = a.top
  top_le : a.top ≤ p.currentPollSetSize
  members_lt : ∀ i ∈ a.members, i < a.top
  size_le : POLL_SET_SIZE ≤ p.currentPollSetSize

theorem holds_setup : HoldsPolled (PollSet.setupPollSet .initial) (Polled.after []) where
  length := List.length_replicate
  entry := by
    intro i hi
    have hmem : i ∉ (Polled.after []).members := Finset.notMem_empty i
    rw [if_neg hmem]
    exact List.getElem?_replicate_of_lt hi
  top := rfl
  top_le := Nat.zero_le _
  members_lt := by
    intro i hi
    cases hi
  size_le := Nat.le_refl _

theorem HoldsPolled.grow (h : HoldsPolled p a) (hn : p.currentPollSetSize < n) :
    ∃ p', p.growPollSet n = .ok p' ∧ HoldsPolled p' a ∧ p'.currentPollSetSize = n := by
  refine ⟨_, if_neg (by omega), ⟨?_, ?_, h.top, ?_, h.members_lt, ?_⟩, rfl⟩
  · simp only [List.length_append, List.length_replicate, h.length]
    omega
  · intro i hi
    dsimp only at hi ⊢
    by_cases hlt : i < p.currentPollSetSize
    · rw [List.getElem?_append_left (by rwa [h.length]), h.entry i hlt]
    · have hmem : i ∉ a.members := by
        intro hmem
        have hi := h.members_lt i hmem
        have htop := h.top_le
        omega
      rw [List.getElem?_append_right (by rw [h.length]; omega), if_neg hmem, h.length]
      exact List.getElem?_replicate_of_lt (by omega)
  · exact Nat.le_trans h.top_le (Nat.le_of_lt hn)
  · exact Nat.le_trans h.size_le (Nat.le_of_lt hn)

theorem HoldsPolled.store_eq (h : HoldsPolled p a) (hn : n < p.currentPollSetSize) (e : PollFd) :
    p.store n e = .ok { p with pollFileDescriptors := p.pollFileDescriptors.set n e } :=
  if_pos (by rwa [h.length])

theorem HoldsPolled.entry_set (h : HoldsPolled p a) (hn : n < p.currentPollSetSize) {e : PollFd}
    {members : Finset ℕ} (he : e = if n ∈ members then ⟨n, POLLIN⟩ else .unused)
    (hsame : ∀ i, i ≠ n → (i ∈ members ↔ i ∈ a.members)) : ∀ i < p.currentPollSetSize,
    (p.pollFileDescriptors.set n e)[i]? =
      some (if i ∈ members then ⟨i, POLLIN⟩ else .unused) := by
  intro i hi
  by_cases hin : i = n
  · subst hin
    rw [List.getElem?_set_self (by rwa [h.length]), he]
  · rw [List.getElem?_set_ne (Ne.symm hin), h.entry i hi]
    simp only [hsame i hin]

theorem HoldsPolled.remove (h : HoldsPolled p a) (hn : n < p.currentPollSetSize) :
    ∃ p', p.removeFromPollSet n = .ok p' ∧ HoldsPolled p' (a.step (.remove n)) := by
  have hentry : PollFd.unused = if n ∈ a.members.erase n then ⟨n, POLLIN⟩ else .unused :=
    (if_neg (Finset.notMem_erase n a.members)).symm
  have hsame : ∀ i, i ≠ n → (i ∈ a.members.erase n ↔ i ∈ a.members) :=
    fun i hin => Finset.mem_erase.trans (and_iff_right hin)
  refine ⟨_, h.store_eq hn .unused, ⟨?_, h.entry_set hn hentry hsame, h.top, h.top_le, ?_,
    h.size_le⟩⟩
  · exact List.length_set.trans h.length
  · exact fun i hi => h.members_lt i (Finset.mem_of_mem_erase hi)

theorem HoldsPolled.add_inside (h : HoldsPolled p a) (hn : n < p.currentPollSetSize) :
    ∃ p', (if p.maxFileDescriptor ≤ n + 1 then { p with maxFileDescriptor := n + 1 }
        else p).store n ⟨n, POLLIN⟩ = .ok p' ∧ HoldsPolled p' (a.step (.add n)) := by
  have hentry : ⟨n, POLLIN⟩ = if n ∈ insert n a.members then ⟨n, POLLIN⟩ else PollFd.unused :=
    (if_pos (Finset.mem_insert_self n a.members)).symm
  have hsame : ∀ i, i ≠ n → (i ∈ insert n a.members ↔ i ∈ a.members) :=
    fun i hin => Finset.mem_insert.trans (or_iff_right hin)
  have hmax : (if p.maxFileDescriptor ≤ n + 1 then { p with maxFileDescriptor := n + 1 } else p) =
      { p with maxFileDescriptor := max a.top (n + 1) } := by
    rw [← h.top]
    split_ifs with hle
    · rw [Nat.max_eq_right hle]
    · rw [Nat.max_eq_left (by omega)]
  have htop := h.top_le
  rw [hmax]
  refine ⟨_, if_pos (by rwa [h.length]), ⟨?_, h.entry_set hn hentry hsame, rfl, ?_, ?_,
    h.size_le⟩⟩
  · exact List.length_set.trans h.length
  · exact Nat.max_le.mpr ⟨htop, hn⟩
  · intro i hi
    rcases Finset.mem_insert.mp hi with rfl | hi
    · exact Nat.lt_of_lt_of_le (Nat.lt_succ_self i) (Nat.le_max_right _ _)
    · exact Nat.lt_of_lt_of_le (h.members_lt i hi) (Nat.le_max_left _ _)

theorem HoldsPolled.add (h : HoldsPolled p a) (n : ℕ) :
    ∃ p', p.addToPollSet n = .ok p' ∧ HoldsPolled p' (a.step (.add n)) := by
  unfold PollSet.addToPollSet
  by_cases hn : p.currentPollSetSize ≤ n
  · have hlarger : p.currentPollSetSize < n + POLL_SET_SIZE :=
      Nat.lt_of_le_of_lt hn (Nat.lt_add_of_pos_right (by decide))
    obtain ⟨p₁, hgrow, hp₁, hsize⟩ := h.grow hlarger
    rw [if_pos hn, hgrow]
    refine hp₁.add_inside ?_
    rw [hsize]
    exact Nat.lt_add_of_pos_right (by decide)
  · rw [if_neg hn]
    exact h.add_inside (by omega)

theorem ready_eq {e : PollFd} (he : e.events = 0 ∨ e.events = POLLIN) :
    e.ready conditions = (e.revents conditions != 0) := by
  have hmask : (e.events ||| POLLERR ||| POLLHUP ||| POLLNVAL).toNat < 32768 := by
    rcases he with he | he <;> rw [he] <;> decide
  have hlt : (e.revents conditions).toNat < 32768 := by
    rw [PollFd.revents, UInt16.toNat_and]
    exact Nat.lt_of_le_of_lt Nat.and_le_right hmask
  have hzero : e.revents conditions = 0 ↔ (e.revents conditions).toNat = 0 := UInt16.toNat_inj.symm
  rw [PollFd.ready, Bool.eq_iff_iff, decide_eq_true_eq, bne_iff_ne, ne_eq, hzero]
  omega

theorem revents_of_ready {e : PollFd} (h : e.ready conditions = true) :
    (e.revents conditions != 0) = true := by
  rw [PollFd.ready, decide_eq_true_eq] at h
  refine bne_iff_ne.mpr fun hzero => ?_
  rw [hzero] at h
  exact absurd h.1 (by decide)

theorem findIdx?_range (q : ℕ → Bool) (m : ℕ) :
    (List.range m).findIdx? q = (List.range m).find? q := by
  cases hfind : (List.range m).find? q with
  | none =>
      rw [List.find?_range_eq_none] at hfind
      refine List.findIdx?_eq_none_iff.mpr fun i hi => ?_
      simpa using hfind i (List.mem_range.mp hi)
  | some i =>
      obtain ⟨hq, hi, hbelow⟩ := List.find?_range_eq_some.mp hfind
      rw [List.mem_range] at hi
      refine List.findIdx?_eq_some_iff_getElem.mpr ⟨by rwa [List.length_range], ?_, ?_⟩
      · rwa [List.getElem_range]
      · intro j hj
        rw [List.getElem_range]
        simpa using hbelow j hj

theorem HoldsPolled.polled_eq (h : HoldsPolled p a) :
    p.pollFileDescriptors.take p.maxFileDescriptor =
      (List.range a.top).map fun i => if i ∈ a.members then ⟨i, POLLIN⟩ else PollFd.unused := by
  have htop := h.top_le
  refine List.ext_getElem? fun i => ?_
  rw [h.top, List.getElem?_take, List.getElem?_map]
  by_cases hi : i < a.top
  · rw [if_pos hi, h.entry i (by omega), List.getElem?_range hi]
    rfl
  · rw [if_neg hi, List.getElem?_eq_none (by rwa [List.length_range, ← Nat.not_lt])]
    rfl

theorem ready_reports (a : Polled) (conditions : ℕ → UInt16) (i : ℕ) :
    (if i ∈ a.members then ⟨i, POLLIN⟩ else PollFd.unused : PollFd).ready conditions =
      a.reports conditions i := by
  unfold Polled.reports
  split_ifs
  · exact ready_eq (.inr rfl)
  · exact ready_eq (.inl rfl)

theorem HoldsPolled.pollCall_eq (h : HoldsPolled p a) (conditions : ℕ → UInt16) :
    p.pollCall (some conditions) = .ok (a.firstReported conditions) := by
  have hlength : ¬p.pollFileDescriptors.length < p.maxFileDescriptor := by
    rw [h.length, h.top, Nat.not_lt]
    exact h.top_le
  have hfind : (p.pollFileDescriptors.take p.maxFileDescriptor).findIdx?
      (PollFd.ready conditions) = (List.range a.top).find? (a.reports conditions) := by
    rw [h.polled_eq, List.findIdx?_map, ← findIdx?_range]
    congr 1
    exact funext (ready_reports a conditions)
  unfold PollSet.pollCall Polled.firstReported
  dsimp only
  rw [if_neg hlength, hfind]
  cases hreported : (List.range a.top).find? (a.reports conditions) with
  | none => exact ite_self _
  | some i =>
      rw [hreported] at hfind
      obtain ⟨hi, hready, _⟩ := List.findIdx?_eq_some_iff_getElem.mp hfind
      exact if_pos (List.countP_pos_iff.mpr ⟨_, List.getElem_mem hi, revents_of_ready hready⟩)

def PollSet.step (p : PollSet) : PollSetCall → Option PollSet
  | .add n => (p.addToPollSet n).toOption
  | .remove n => (p.removeFromPollSet n).toOption

theorem HoldsPolled.step (h : HoldsPolled p a) {call : PollSetCall} (hstep : p.step call = some p') :
    HoldsPolled p' (a.step call) := by
  cases call with
  | add n =>
      obtain ⟨p₁, hadd, hp₁⟩ := h.add n
      rw [toOption_eq_some.mp hstep] at hadd
      cases hadd
      exact hp₁
  | remove n =>
      have hremove := toOption_eq_some.mp hstep
      by_cases hn : n < p.currentPollSetSize
      · obtain ⟨p₁, hremove', hp₁⟩ := h.remove hn
        rw [hremove] at hremove'
        cases hremove'
        exact hp₁
      · rw [PollSet.removeFromPollSet, PollSet.store, if_neg (by rwa [h.length])] at hremove
        cases hremove

theorem HoldsPolled.run {calls : List PollSetCall} (h : HoldsPolled p a)
    (hrun : PartialRun.run PollSet.step p calls = some p') :
    HoldsPolled p' (calls.foldl Polled.step a) := by
  induction calls generalizing p a with
  | nil =>
      cases hrun
      exact h
  | cons call calls ih =>
      obtain ⟨p₁, hstep, hrest⟩ := run_cons_iff.mp hrun
      exact ih (h.step hstep) hrest

theorem HoldsPolled.remove_iff (h : HoldsPolled p a) (n : ℕ) :
    (∃ p', p.step (.remove n) = some p') ↔ n < p.currentPollSetSize := by
  constructor
  · rintro ⟨p', hstep⟩
    by_contra hn
    have hremove := toOption_eq_some.mp hstep
    rw [PollSet.removeFromPollSet, PollSet.store, if_neg (by rwa [h.length])] at hremove
    cases hremove
  · intro hn
    obtain ⟨p', heq, _⟩ := h.remove hn
    exact ⟨p', by rw [PollSet.step, heq]; rfl⟩

/-- After every run of calls, `pollCall` returns the lowest number for which there is
something to report. Another descriptor can always be added; an element can be removed
where the array has one, and it has one for every descriptor that ever was polled. -/
theorem pollCall_reports {calls : List PollSetCall}
    (hrun : PartialRun.run PollSet.step (PollSet.setupPollSet .initial) calls = some p) :
    (∀ conditions, p.pollCall (some conditions) =
        .ok ((Polled.after calls).firstReported conditions)) ∧
      (∀ n, ∃ p', p.step (.add n) = some p') ∧
      (∀ n, (∃ p', p.step (.remove n) = some p') ↔ n < p.currentPollSetSize) ∧
      max POLL_SET_SIZE (Polled.after calls).top ≤ p.currentPollSetSize := by
  have h : HoldsPolled p (Polled.after calls) := holds_setup.run hrun
  refine ⟨h.pollCall_eq, fun n => ?_, h.remove_iff, Nat.max_le.mpr ⟨h.size_le, h.top_le⟩⟩
  obtain ⟨p', heq, _⟩ := h.add n
  exact ⟨p', by rw [PollSet.step, heq]; rfl⟩

/-- Descriptors 3 and 12 are polled, and 3 is removed again: with a hang-up of
descriptor 0, an element in no use is reported before 12 is. -/
theorem pollCall_reports_hangUp : ∃ p,
    PartialRun.run PollSet.step (PollSet.setupPollSet .initial) [.add 3, .add 12, .remove 3] =
      some p ∧
      p.pollCall (some fun n => if n = 12 then POLLIN else 0) = .ok 12 ∧
      p.pollCall (some fun n => if n = 12 then POLLIN else if n = 0 then POLLHUP else 0) = .ok 0 := by
  have hrun : (PartialRun.run PollSet.step (PollSet.setupPollSet .initial)
      [.add 3, .add 12, .remove 3]).isSome = true := by
    decide +kernel
  obtain ⟨p, hp⟩ := Option.isSome_iff_exists.mp hrun
  obtain ⟨hpoll, _⟩ := pollCall_reports hp
  refine ⟨p, hp, (hpoll _).trans ?_, (hpoll _).trans ?_⟩
  · decide +kernel
  · decide +kernel

/-- The kernel gives out the lowest descriptor that is not in use. -/
def lowestFree (used : Finset ℕ) : ℕ :=
  ((List.range (used.card + 1)).find? fun n => decide (n ∉ used)).getD 0

def openDescriptor (used : Finset ℕ) : ℕ × Finset ℕ :=
  (lowestFree used, insert (lowestFree used) used)

theorem find_lowestFree (used : Finset ℕ) :
    (List.range (used.card + 1)).find? (fun n => decide (n ∉ used)) = some (lowestFree used) := by
  unfold lowestFree
  cases hfind : (List.range (used.card + 1)).find? fun n => decide (n ∉ used) with
  | some n => rfl
  | none =>
      have hcard : used.card < (Finset.range (used.card + 1)).card := by
        rw [Finset.card_range]
        exact Nat.lt_succ_self _
      obtain ⟨n, hn, hfree⟩ := Finset.exists_mem_notMem_of_card_lt_card hcard
      have hnone := List.find?_range_eq_none.mp hfind n (Finset.mem_range.mp hn)
      rw [decide_eq_true hfree] at hnone
      cases hnone

theorem lowestFree_notMem (used : Finset ℕ) : lowestFree used ∉ used := by
  obtain ⟨hfree, _, _⟩ := List.find?_range_eq_some.mp (find_lowestFree used)
  exact of_decide_eq_true hfree

theorem mem_of_lt_lowestFree {used : Finset ℕ} (h : n < lowestFree used) : n ∈ used := by
  obtain ⟨_, _, hbelow⟩ := List.find?_range_eq_some.mp (find_lowestFree used)
  simpa using hbelow n h

theorem lowestFree_le {used : Finset ℕ} (h : n ∉ used) : lowestFree used ≤ n :=
  Nat.not_lt.mp fun hlt => h (mem_of_lt_lowestFree hlt)

/-- A process: the descriptors in use, its poll set, and the socket that it
receives on. -/
structure PollingProcess where
  used : Finset ℕ
  pollSet : PollSet
  socketNum : ℕ

/-- Up to the loop of `waitForClients`. rcopy reaches `initExchange` with such a poll set,
too. -/
def PollingProcess.start (used : Finset ℕ) : Except Halt PollingProcess := do
  let (socketNum, used) := openDescriptor used
  let pollSet ← (PollSet.setupPollSet .initial).addToPollSet socketNum
  return ⟨used, pollSet, socketNum⟩

/-- The forked child closes the socket and opens its own; its poll set is the copy of
its parent's. -/
def PollingProcess.child (x : PollingProcess) : PollingProcess :=
  let used := x.used.erase x.socketNum
  let (socketNum, used) := openDescriptor used
  { x with used, socketNum }

def stdinReported (conditions : ℕ → UInt16) : Bool :=
  conditions 0 &&& (POLLERR ||| POLLHUP ||| POLLNVAL) != 0

def socketReported (conditions : ℕ → UInt16) (socketNum : ℕ) : Bool :=
  conditions socketNum &&& (POLLIN ||| POLLERR ||| POLLHUP ||| POLLNVAL) != 0

def socketAnswer (conditions : ℕ → UInt16) (socketNum : ℕ) : ℤ :=
  if socketNum ≠ 0 ∧ stdinReported conditions then 0
  else if socketReported conditions socketNum then socketNum
  else -1

theorem reports_socket (conditions : ℕ → UInt16) (socketNum : ℕ) :
    (Polled.after [.add socketNum]).reports conditions socketNum =
      socketReported conditions socketNum :=
  if_pos (Finset.mem_insert_self socketNum ∅)

theorem reports_below {socketNum i : ℕ} (hi : i ≠ socketNum) :
    (Polled.after [.add socketNum]).reports conditions i = stdinReported conditions := by
  refine if_neg fun hmem => hi ?_
  rcases Finset.mem_insert.mp hmem with heq | hmem
  · exact heq
  · exact absurd hmem (Finset.notMem_empty i)

theorem firstReported_socket (conditions : ℕ → UInt16) (socketNum : ℕ) :
    (Polled.after [.add socketNum]).firstReported conditions =
      socketAnswer conditions socketNum := by
  have htop : (Polled.after [.add socketNum]).top = socketNum + 1 := Nat.zero_max _
  unfold Polled.firstReported socketAnswer
  rw [htop]
  by_cases hstdin : socketNum ≠ 0 ∧ stdinReported conditions = true
  · have hfind : (List.range (socketNum + 1)).find?
        ((Polled.after [.add socketNum]).reports conditions) = some 0 := by
      refine List.find?_range_eq_some.mpr ⟨?_, List.mem_range.mpr (Nat.succ_pos _), ?_⟩
      · rw [reports_below hstdin.1.symm]
        exact hstdin.2
      · intro j hj
        cases hj
    rw [hfind, if_pos hstdin]
    rfl
  · have hbelow : ∀ j < socketNum,
        (Polled.after [.add socketNum]).reports conditions j = false := by
      intro j hj
      rw [reports_below (Nat.ne_of_lt hj)]
      exact Bool.eq_false_iff.mpr fun h => hstdin ⟨Nat.ne_zero_of_lt hj, h⟩
    rw [if_neg hstdin]
    by_cases hsocket : socketReported conditions socketNum = true
    · have hfind : (List.range (socketNum + 1)).find?
          ((Polled.after [.add socketNum]).reports conditions) = some socketNum := by
        refine List.find?_range_eq_some.mpr ⟨?_, List.self_mem_range_succ, ?_⟩
        · rwa [reports_socket]
        · intro j hj
          rw [hbelow j hj]
          rfl
      rw [hfind, if_pos hsocket]
    · have hfind : (List.range (socketNum + 1)).find?
          ((Polled.after [.add socketNum]).reports conditions) = none := by
        refine List.find?_range_eq_none.mpr fun j hj => ?_
        rcases Nat.lt_succ_iff_lt_or_eq.mp hj with hlt | rfl
        · rw [hbelow j hlt]
          rfl
        · rw [reports_socket, Bool.eq_false_iff.mpr hsocket]
          rfl
      rw [hfind, if_neg hsocket]

theorem lowestFree_erase {used more : Finset ℕ} (h : insert (lowestFree used) used ⊆ more) :
    lowestFree (more.erase (lowestFree used)) = lowestFree used := by
  refine Nat.le_antisymm (lowestFree_le (Finset.notMem_erase _ _)) ?_
  by_contra hlt
  have hmem := mem_of_lt_lowestFree (Nat.not_le.mp hlt)
  have hmore : lowestFree (more.erase (lowestFree used)) ∈ more.erase (lowestFree used) :=
    Finset.mem_erase.mpr ⟨fun heq => hlt (Nat.le_of_eq heq.symm),
      h (Finset.mem_insert_of_mem hmem)⟩
  exact lowestFree_notMem _ hmore

/-- The server's poll set, and that of each child that it forks, holds the socket that
the process receives on, whatever else is open when it forks. So `pollCall` returns
that socket when there is something to report for it, and -1 when there is not, unless
something is wrong with descriptor 0: then it returns 0 before it looks at the socket. -/
theorem child_polls_its_socket (used : Finset ℕ) : ∃ x,
    PollingProcess.start used = .ok x ∧ x.socketNum = lowestFree used ∧
      (∀ conditions, x.pollSet.pollCall (some conditions) =
        .ok (socketAnswer conditions x.socketNum)) ∧
      ∀ more, x.used ⊆ more →
        (PollingProcess.child { x with used := more }).socketNum = x.socketNum ∧
        ∀ conditions, (PollingProcess.child { x with used := more }).pollSet.pollCall
          (some conditions) = .ok (socketAnswer conditions x.socketNum) := by
  obtain ⟨p, hadd, hp⟩ := holds_setup.add (lowestFree used)
  have hpoll : ∀ conditions, p.pollCall (some conditions) =
      .ok (socketAnswer conditions (lowestFree used)) := by
    intro conditions
    rw [hp.pollCall_eq]
    exact congrArg Except.ok (firstReported_socket conditions (lowestFree used))
  refine ⟨⟨insert (lowestFree used) used, p, lowestFree used⟩, ?_, rfl, hpoll, ?_⟩
  · unfold PollingProcess.start openDescriptor
    dsimp only
    rw [hadd]
    rfl
  · intro more hmore
    exact ⟨lowestFree_erase hmore, hpoll⟩

theorem child_polls_descriptor_three : ∃ x, PollingProcess.start {0, 1, 2} = .ok x ∧
    (PollingProcess.child x).socketNum = 3 ∧
    (PollingProcess.child x).pollSet.pollCall (some fun n => if n = 3 then POLLIN else 0) =
      .ok 3 := by
  obtain ⟨x, hstart, hnum, _, hchild⟩ := child_polls_its_socket {0, 1, 2}
  have hsocket : x.socketNum = 3 := hnum.trans (by decide +kernel)
  obtain ⟨hsame, hpoll⟩ := hchild x.used (Finset.Subset.refl _)
  refine ⟨x, hstart, hsame.trans hsocket, (hpoll _).trans ?_⟩
  rw [hsocket]
  decide +kernel

end
end SelRej
