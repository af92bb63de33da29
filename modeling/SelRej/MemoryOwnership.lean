import SelRej.Memory

/-!
# Who owns the blocks

The array of the window belongs to the window, and every slot owns the struct
its pointer refers to, with the payload of that struct; a packet that was just
allocated or just taken out is in the hand of the caller. `Realizes` says that
the heap is divided in this way and holds the packets of a `Window`. A function
of the window that stores, releases or takes out a packet moves the two blocks
of the packet between these owners and touches no other block.
-/
namespace SelRej
open Heap

inductive Owner where
  | queue
  | slot (i : ℤ)
  | hand
  deriving DecidableEq

/-- A struct at `ptr` with its payload at `data`. -/
structure Parcel where
  ptr : ℕ
  data : ℕ
  packet : PduS
  data_ne : data ≠ ptr

namespace Parcel

def struct (b : Parcel) : PduStruct :=
  ⟨b.packet.seqNum, b.packet.checksum, b.packet.flag, some b.data, b.packet.payLen⟩

def part (b : Parcel) (p : ℕ) : Option Block :=
  if p = b.ptr then some (.pdu b.struct)
  else if p = b.data then some (.bytes b.packet.payload)
  else none

variable {b : Parcel}

theorem struct_seqNum : b.struct.seqNum = b.packet.seqNum := rfl

@[simp] theorem part_ptr : b.part b.ptr = some (.pdu b.struct) := if_pos rfl

@[simp] theorem part_data : b.part b.data = some (.bytes b.packet.payload) := by
  rw [part, if_neg b.data_ne, if_pos rfl]

theorem isSome_part {p : ℕ} : (b.part p).isSome ↔ p = b.ptr ∨ p = b.data := by
  unfold part
  split_ifs <;> simp_all

end Parcel

def nothing : ℕ → Option Block := fun _ => none

def partOf : Option Parcel → ℕ → Option Block
  | none => nothing
  | some b => b.part

theorem dom_nothing : dom nothing = ∅ := by
  ext p
  simp [dom, nothing]

/-- Where the array of the window is, and what its slots own. -/
structure Layout where
  base : ℕ
  held : ℤ → Option Parcel

namespace Layout

/-- The blocks of each owner, with `slots` the pointers in the array. -/
def parts (L : Layout) (slots : ℤ → Option ℕ) (hand : ℕ → Option Block) :
    Owner → ℕ → Option Block
  | .queue => Function.update nothing L.base (some (.queue slots))
  | .slot i => partOf (L.held i)
  | .hand => hand

/-- The pointers that should be in the array. -/
def pointers (L : Layout) (i : ℤ) : Option ℕ := (L.held i).map Parcel.ptr

def hold (L : Layout) (i : ℤ) (b : Option Parcel) : Layout :=
  { L with held := Function.update L.held i b }

/-- The memory of a window whose array is at `base`. -/
def memory (L : Layout) (heap : Heap Block) (win : Window) : Memory :=
  ⟨heap, ⟨some L.base, win.winSize, win.lower, win.upper, win.current, win.lastSeq, win.firstSeq⟩⟩

variable {L : Layout} {slots slots' : ℤ → Option ℕ} {hand : ℕ → Option Block} {i : ℤ}

theorem parts_hold (b : Option Parcel) :
    Function.update (L.parts slots hand) (.slot i) (partOf b) = (L.hold i b).parts slots hand := by
  funext o
  cases o with
  | queue => rfl
  | slot j =>
      by_cases hji : j = i
      · rw [hji, Function.update_self]
        simp only [parts, hold, Function.update_self]
      · rw [Function.update_of_ne (by simpa using hji)]
        simp only [parts, hold, Function.update_of_ne hji]
  | hand => rfl

theorem parts_hand (hand part : ℕ → Option Block) :
    Function.update (L.parts slots hand) .hand part = L.parts slots part := by
  funext o
  cases o <;> rfl

theorem parts_queue (slots : ℤ → Option ℕ) :
    Function.update (L.parts slots hand) .queue
      (Function.update nothing L.base (some (.queue slots'))) = L.parts slots' hand := by
  funext o
  cases o <;> rfl

theorem hold_hold (b c : Option Parcel) : (L.hold i b).hold i c = L.hold i c := by
  simp only [hold, Function.update_idem]

theorem pointers_hold (b : Option Parcel) :
    (L.hold i b).pointers = Function.update L.pointers i (b.map Parcel.ptr) := by
  funext j
  by_cases hji : j = i
  · rw [hji, Function.update_self]
    simp only [pointers, hold, Function.update_self]
  · rw [Function.update_of_ne hji]
    simp only [pointers, hold, Function.update_of_ne hji]

end Layout

/-- The heap holds the packets of the window as the layout says, the caller has
`hand`, and `rest` is all that is left. -/
structure Realizes (heap : Heap Block) (win : Window) (L : Layout) (hand : ℕ → Option Block)
    (rest : Set ℕ) : Prop where
  divided : Divided (L.parts L.pointers hand) rest heap
  queue : ∀ i, win.queue i = (L.held i).map Parcel.packet
  inside : ∀ i, (L.held i).isSome → 0 ≤ i ∧ i < win.winSize

section
variable {heap : Heap Block} {win win' : Window} {L : Layout} {slots : ℤ → Option ℕ}
  {hand : ℕ → Option Block} {rest : Set ℕ} {i : ℤ} {b : Parcel}

theorem free_parcel (hptr : heap.block b.ptr = some (.pdu b.struct))
    (hdata : heap.block b.data = some (.bytes b.packet.payload)) :
    ∃ heap₁ heap₂, freePDU heap b.ptr = .ok heap₁ ∧ heap₁.free b.ptr = (.ok heap₂ : MemProc _) ∧
      ∀ p, heap₂.block p = if (b.part p).isSome then none else heap.block p := by
  obtain ⟨heap', hfree, hblock⟩ := free_eq Halt hdata
  have hptr' : heap'.block b.ptr = some (.pdu b.struct) := by
    rw [hblock, Function.update_of_ne b.data_ne.symm, hptr]
  obtain ⟨heap₁, hwrite, hblock₁⟩ := write_eq Halt hptr'
    (.pdu { b.struct with payload := none })
  obtain ⟨heap₂, hfree₂, hblock₂⟩ := free_eq Halt
    (show heap₁.block b.ptr = some (.pdu { b.struct with payload := none }) by
      rw [hblock₁, Function.update_self])
  refine ⟨heap₁, heap₂, ?_, hfree₂, ?_⟩
  · unfold freePDU
    rw [loadPdu, load_eq hptr, ok_bind]
    dsimp only
    rw [pure_eq_ok, ok_bind]
    dsimp only [Parcel.struct]
    rw [hfree, ok_bind]
    exact hwrite
  · intro p
    rw [hblock₂, hblock₁, hblock]
    by_cases hp : p = b.ptr
    · rw [hp, Function.update_self, if_pos (by simp)]
    · rw [Function.update_of_ne hp, Function.update_of_ne hp]
      by_cases hq : p = b.data
      · rw [hq, Function.update_self, if_pos (by simp)]
      · rw [Function.update_of_ne hq, if_neg (by simp [Parcel.isSome_part, hp, hq])]

theorem loadPdu_eq (hptr : heap.block b.ptr = some (.pdu b.struct)) :
    loadPdu heap b.ptr = .ok b.struct := by
  rw [loadPdu, load_eq hptr, ok_bind]
  rfl

theorem loadBytes_eq (hdata : heap.block b.data = some (.bytes b.packet.payload)) :
    loadBytes heap b.struct.payload b.struct.payLen.toNat = .ok b.packet.payload := by
  have hlen : b.struct.payLen.toNat = b.packet.payload.length := b.packet.payLen_eq
  dsimp only [loadBytes, Parcel.struct]
  rw [load_eq hdata, ok_bind]
  dsimp only [Parcel.struct] at hlen ⊢
  rw [hlen, if_pos (Nat.le_refl _), List.take_length]
  rfl

theorem block_base (hd : Divided (L.parts slots hand) rest heap) :
    heap.block L.base = some (.queue slots) :=
  hd.holds .queue L.base _ (Function.update_self ..)

theorem slot_eq (hd : Divided (L.parts slots hand) rest heap) (hi : 0 ≤ i ∧ i < win.winSize) :
    (L.memory heap win).slot i = .ok (slots i) := by
  unfold Memory.slot
  rw [if_pos (show 0 ≤ i ∧ i < (L.memory heap win).win.winSize from hi)]
  dsimp only [Layout.memory]
  rw [load_eq (block_base hd), ok_bind]
  rfl

theorem slot_outside (hi : ¬(0 ≤ i ∧ i < win.winSize)) :
    (L.memory heap win).slot i = .error (.stop .outOfBounds) := by
  unfold Memory.slot
  exact if_neg hi

theorem store_outside (hi : ¬(0 ≤ i ∧ i < win.winSize)) (v : Option ℕ) :
    (L.memory heap win).store i v = .error (.stop .outOfBounds) := by
  unfold Memory.store
  exact if_neg hi

theorem store_eq (hd : Divided (L.parts slots hand) rest heap) (hi : 0 ≤ i ∧ i < win.winSize)
    (v : Option ℕ) : ∃ heap', (L.memory heap win).store i v = .ok (L.memory heap' win) ∧
      Divided (L.parts (Function.update slots i v) hand) rest heap' := by
  obtain ⟨heap', hwrite, hblock⟩ := write_eq Halt (block_base hd)
    (.queue (Function.update slots i v))
  refine ⟨heap', ?_, ?_⟩
  · unfold Memory.store
    rw [if_pos (show 0 ≤ i ∧ i < (L.memory heap win).win.winSize from hi)]
    dsimp only [Layout.memory]
    rw [load_eq (block_base hd), ok_bind]
    dsimp only
    rw [hwrite, ok_bind]
    rfl
  · rw [← Layout.parts_queue slots]
    apply hd.overwrite
    · intro p
      by_cases hp : p = L.base <;> simp [Layout.parts, hp, nothing]
    · intro p
      rw [hblock]
      by_cases hp : p = L.base <;> simp [hp, nothing]

theorem block_ptr (hd : Divided (L.parts slots hand) rest heap) (hheld : L.held i = some b) :
    heap.block b.ptr = some (.pdu b.struct) :=
  hd.holds (.slot i) b.ptr _ (by simp [Layout.parts, hheld, partOf])

theorem block_data (hd : Divided (L.parts slots hand) rest heap) (hheld : L.held i = some b) :
    heap.block b.data = some (.bytes b.packet.payload) :=
  hd.holds (.slot i) b.data _ (by simp [Layout.parts, hheld, partOf])

/-- The slot's packet is released; its pointer stays in the array. -/
theorem freeSlot_eq (hd : Divided (L.parts slots hand) rest heap) (hheld : L.held i = some b)
    (hslot : slots i = some b.ptr) (hi : 0 ≤ i ∧ i < win.winSize) :
    ∃ heap', (L.memory heap win).freeSlot i = .ok (L.memory heap' win) ∧
      Divided ((L.hold i none).parts slots hand) rest heap' := by
  obtain ⟨heap₁, heap₂, hpayload, hfree, hblock⟩ :=
    free_parcel (block_ptr hd hheld) (block_data hd hheld)
  refine ⟨heap₂, ?_, ?_⟩
  · unfold Memory.freeSlot
    rw [slot_eq hd hi, hslot, ok_bind]
    dsimp only [Layout.memory]
    rw [hpayload, ok_bind, hfree, ok_bind]
    rfl
  · rw [← Layout.parts_hold]
    refine hd.release fun p => ?_
    rw [hblock]
    simp only [Layout.parts, hheld, partOf]

theorem put_eq (hd : Divided (L.parts slots b.part) rest heap) (hi : 0 ≤ i ∧ i < win.winSize) :
    ∃ heap', (L.memory heap win).store i (some b.ptr) = .ok (L.memory heap' win) ∧
      Divided ((L.hold i (some b)).parts (Function.update slots i (some b.ptr)) nothing)
        (rest ∪ dom (partOf (L.held i))) heap' := by
  have hdropped := hd.drop (.slot i)
  rw [show (fun _ => none : ℕ → Option Block) = partOf none from rfl, Layout.parts_hold]
    at hdropped
  have hvacant : (L.hold i none).parts slots b.part (.slot i) = fun _ => none := by
    simp only [Layout.parts, Layout.hold, Function.update_self]
    rfl
  have hpassed := hdropped.pass (i := .hand) (by simp) hvacant
  rw [show (L.hold i none).parts slots b.part .hand = partOf (some b) from rfl,
    Layout.parts_hand, Layout.parts_hold, Layout.hold_hold] at hpassed
  exact store_eq hpassed hi (some b.ptr)

namespace Realizes

theorem congr (h : Realizes heap win L hand rest) (hqueue : win'.queue = win.queue)
    (hsize : win'.winSize = win.winSize) : Realizes heap win' L hand rest where
  divided := h.divided
  queue i := by rw [hqueue, h.queue]
  inside := by
    rw [hsize]
    exact h.inside

theorem hold_inside (h : Realizes heap win L hand rest) (hi : 0 ≤ i ∧ i < win.winSize)
    (b : Option Parcel) (j : ℤ) (hj : ((L.hold i b).held j).isSome) :
    0 ≤ j ∧ j < win.winSize := by
  by_cases hji : j = i
  · rwa [hji]
  · simp only [Layout.hold, Function.update_of_ne hji] at hj
    exact h.inside j hj

theorem hold_queue (h : Realizes heap win L hand rest) (b : Option Parcel) (j : ℤ) :
    Function.update win.queue i (b.map Parcel.packet) j =
      ((L.hold i b).held j).map Parcel.packet := by
  by_cases hji : j = i
  · rw [hji, Function.update_self]
    simp only [Layout.hold, Function.update_self]
  · rw [Function.update_of_ne hji, h.queue]
    simp only [Layout.hold, Function.update_of_ne hji]

theorem clear (h : Realizes heap win L hand rest) (hheld : L.held i = some b) :
    ∃ heap₁ heap₂, (L.memory heap win).freeSlot i = .ok (L.memory heap₁ win) ∧
      (L.memory heap₁ win).store i none = .ok (L.memory heap₂ win) ∧
      Realizes heap₂ { win with queue := Function.update win.queue i none } (L.hold i none) hand
        rest := by
  have hi := h.inside i (by simp [hheld])
  obtain ⟨heap₁, hfree, hd₁⟩ := freeSlot_eq h.divided hheld
    (by simp [Layout.pointers, hheld]) hi
  obtain ⟨heap₂, hstore, hd₂⟩ := store_eq hd₁ hi none
  refine ⟨heap₁, heap₂, hfree, hstore, ?_, h.hold_queue none, h.hold_inside hi none⟩
  rw [Layout.pointers_hold]
  exact hd₂

/-- The packet in the caller's hand is stored, and what the slot had is left
behind. -/
theorem put (h : Realizes heap win L b.part rest) (hi : 0 ≤ i ∧ i < win.winSize) :
    ∃ heap', (L.memory heap win).store i (some b.ptr) = .ok (L.memory heap' win) ∧
      Realizes heap' { win with queue := Function.update win.queue i (some b.packet) }
        (L.hold i (some b)) nothing (rest ∪ dom (partOf (L.held i))) := by
  obtain ⟨heap', hstore, hd⟩ := put_eq h.divided hi
  refine ⟨heap', hstore, ?_, h.hold_queue (some b), h.hold_inside hi (some b)⟩
  rw [Layout.pointers_hold]
  exact hd

theorem renew (h : Realizes heap win L b.part rest) {old : Parcel} (hheld : L.held i = some old) :
    ∃ heap₁ heap₂, (L.memory heap win).freeSlot i = .ok (L.memory heap₁ win) ∧
      (L.memory heap₁ win).store i (some b.ptr) = .ok (L.memory heap₂ win) ∧
      Realizes heap₂ { win with queue := Function.update win.queue i (some b.packet) }
        (L.hold i (some b)) nothing rest := by
  have hi := h.inside i (by simp [hheld])
  obtain ⟨heap₁, hfree, hd₁⟩ := freeSlot_eq h.divided hheld
    (by simp [Layout.pointers, hheld]) hi
  obtain ⟨heap₂, hstore, hd₂⟩ := put_eq hd₁ hi
  refine ⟨heap₁, heap₂, hfree, hstore, ?_, h.hold_queue (some b), h.hold_inside hi (some b)⟩
  have hvacant : (L.hold i none).held i = none := Function.update_self ..
  rw [hvacant, Layout.hold_hold, show partOf none = nothing from rfl, dom_nothing,
    Set.union_empty] at hd₂
  rw [Layout.pointers_hold]
  exact hd₂

theorem take (h : Realizes heap win L nothing rest) (hheld : L.held i = some b) :
    ∃ heap', (L.memory heap win).store i none = .ok (L.memory heap' win) ∧
      Realizes heap' { win with queue := Function.update win.queue i none }
        (L.hold i none) b.part rest := by
  have hi := h.inside i (by simp [hheld])
  have hpassed := h.divided.pass (i := .slot i) (j := .hand) (by simp) rfl
  have hslot : L.parts L.pointers nothing (.slot i) = b.part := by
    simp only [Layout.parts, hheld, partOf]
  rw [hslot, show (fun _ => none : ℕ → Option Block) = partOf none from rfl, Layout.parts_hold,
    Layout.parts_hand] at hpassed
  obtain ⟨heap', hstore, hd⟩ := store_eq (L := L.hold i none) hpassed hi none
  refine ⟨heap', hstore, ?_, h.hold_queue none, h.hold_inside hi none⟩
  rw [Layout.pointers_hold]
  exact hd

theorem release (h : Realizes heap win L b.part rest) :
    ∃ heap₁ heap₂, freePDU heap b.ptr = .ok heap₁ ∧ heap₁.free b.ptr = (.ok heap₂ : MemProc _) ∧
      Realizes heap₂ win L nothing rest := by
  have hptr : heap.block b.ptr = some (.pdu b.struct) :=
    h.divided.holds .hand b.ptr _ Parcel.part_ptr
  have hdata : heap.block b.data = some (.bytes b.packet.payload) :=
    h.divided.holds .hand b.data _ Parcel.part_data
  obtain ⟨heap₁, heap₂, hpayload, hfree, hblock⟩ := free_parcel hptr hdata
  refine ⟨heap₁, heap₂, hpayload, hfree, ?_, h.queue, h.inside⟩
  have hd : Divided (Function.update (L.parts L.pointers b.part) .hand nothing) rest heap₂ :=
    h.divided.release hblock
  rwa [Layout.parts_hand] at hd

theorem leave (h : Realizes heap win L hand rest) :
    Realizes heap win L nothing (rest ∪ dom hand) := by
  refine ⟨?_, h.queue, h.inside⟩
  have hd := h.divided.drop .hand
  rwa [Layout.parts_hand] at hd

end Realizes
end
end SelRej
