import SelRej.MemoryOwnership
import SelRej.PartialRun

/-!
# Memory refines the window

From a memory that realizes a window, every call of the server and of rcopy
ends as it does on the values, with the same answer, or stops for the same
reason; it never uses or releases a block that is not there. The blocks that
belong neither to the window nor to the array stay as they are, and no block
joins them as long as the calls are tidy: a packet is refused, or put where a
packet already is, in no tidy call.
-/
namespace SelRej
open CInt Heap PartialRun

def InMemory (hand : ℕ → Option Block) (rest : Set ℕ) (m : Memory) (win : Window) : Prop :=
  ∃ L heap, m = Layout.memory L heap win ∧ Realizes heap win L hand rest

/-- What was left behind before still is, and it is all exactly in the tidy case. -/
def Grows (rest rest' : Set ℕ) (tidy : Prop) : Prop := rest ⊆ rest' ∧ (rest' = rest ↔ tidy)

/-- The result in memory is the one on the values, nothing is in the caller's
hand, and what is left behind grew as told. -/
def Refined {α : Type} (rest : Set ℕ) (tidy : Prop) (x : α × Memory) (y : α × Window) : Prop :=
  x.1 = y.1 ∧ ∃ rest', InMemory nothing rest' x.2 y.2 ∧ Grows rest rest' tidy

theorem grows_refl {rest : Set ℕ} {tidy : Prop} (h : tidy) : Grows rest rest tidy :=
  ⟨subset_rfl, iff_of_true rfl h⟩

section
variable {heap : Heap Block} {win : Window} {L : Layout} {hand : ℕ → Option Block}
  {rest : Set ℕ} {i : ℤ} {b : Parcel} {seqNum : UInt32}

theorem slot_sim (h : Realizes heap win L hand rest) (i : ℤ) :
    Refines (fun p packet =>
        (0 ≤ i ∧ i < win.winSize) ∧ p = L.pointers i ∧ packet = (L.held i).map Parcel.packet)
      ((L.memory heap win).slot i) (win.slot i) := by
  by_cases hi : 0 ≤ i ∧ i < win.winSize
  · rw [slot_eq h.divided hi, Window.slot, if_pos hi]
    exact .ok ⟨hi, rfl, h.queue i⟩
  · rw [slot_outside hi, Window.slot, if_neg hi]
    exact .stop

theorem slotOf_memory (seqNum : UInt32) :
    (L.memory heap win).slotOf seqNum = win.slotOf seqNum := rfl

theorem deref_bind {α β : Type} {f : PduStruct → MemProc α} {g : PduS → Except Halt β}
    {S : α → β → Prop} (h : Realizes heap win L hand rest) (i : ℤ)
    (hf : ∀ b, L.held i = some b → Refines S (f b.struct) (g b.packet)) :
    Refines S ((L.memory heap win).deref i >>= f) (win.deref i >>= g) := by
  refine Refines.bind (R := fun s packet =>
    ∃ b, L.held i = some b ∧ s = b.struct ∧ packet = b.packet) ?_ ?_
  · refine Refines.bind (slot_sim h i) ?_
    rintro _ _ ⟨-, rfl, rfl⟩
    unfold Layout.pointers
    cases hheld : L.held i with
    | none => exact .stop
    | some b =>
        dsimp only [Option.map_some, Layout.memory]
        rw [loadPdu_eq (block_ptr h.divided hheld)]
        exact .ok ⟨b, rfl, rfl, rfl⟩
  · rintro _ _ ⟨b, hheld, rfl, rfl⟩
    exact hf b hheld

theorem isWindowFull_sim (h : Realizes heap win L hand rest) :
    Refines Eq (L.memory heap win).isWindowFull (isWindowFull win) := by
  refine Refines.bind (slot_sim h win.upper) ?_
  rintro _ _ ⟨-, rfl, rfl⟩
  refine .ok ?_
  rw [Layout.pointers, Option.isSome_map, Option.isSome_map]

theorem isWindowEmpty_sim (h : Realizes heap win L hand rest) :
    Refines Eq (L.memory heap win).isWindowEmpty (isWindowEmpty win) := by
  refine Refines.bind (slot_sim h win.lower) ?_
  rintro _ _ ⟨-, rfl, rfl⟩
  refine .ok ?_
  rw [Layout.pointers, Option.isNone_map, Option.isNone_map]

/-- A pointer that is read from a slot, and the packet there. -/
def Points (L : Layout) (p : Option ℕ) (packet : Option PduS) : Prop :=
  (p = none ∧ packet = none) ∨
    ∃ i b, L.held i = some b ∧ p = some b.ptr ∧ packet = some b.packet

theorem points_slot (i : ℤ) : Points L (L.pointers i) ((L.held i).map Parcel.packet) := by
  unfold Layout.pointers
  cases hheld : L.held i with
  | none => exact .inl ⟨rfl, rfl⟩
  | some b => exact .inr ⟨i, b, hheld, rfl, rfl⟩

theorem getLow_sim (h : Realizes heap win L hand rest) :
    Refines (Points L) (L.memory heap win).getLow (getLow win) := by
  refine Refines.bind (isWindowEmpty_sim h) ?_
  rintro e _ rfl
  cases e with
  | true => exact .ok (.inl ⟨rfl, rfl⟩)
  | false =>
      refine (slot_sim h win.lower).mono ?_
      rintro _ _ ⟨-, rfl, rfl⟩
      exact points_slot win.lower

theorem srej_sim (h : Realizes heap win L hand rest) (seqNum : UInt32) :
    Refines (Points L) ((L.memory heap win).srej seqNum) (srej win seqNum) := by
  unfold Memory.srej srej
  refine Refines.ite Iff.rfl (fun _ => .ok (.inl ⟨rfl, rfl⟩)) fun _ => ?_
  refine deref_bind h win.current fun c _ => ?_
  refine Refines.ite Iff.rfl (fun _ => .ok (.inl ⟨rfl, rfl⟩)) fun _ => ?_
  refine deref_bind h win.lower fun l _ => ?_
  refine Refines.ite Iff.rfl (fun _ => .ok (.inl ⟨rfl, rfl⟩)) fun _ => ?_
  refine (slot_sim h (win.slotOf seqNum)).mono ?_
  rintro _ _ ⟨-, rfl, rfl⟩
  exact points_slot _

theorem resend_sim (h : Realizes heap win L hand rest) {p : Option ℕ} {packet : Option PduS}
    (hp : Points L p packet) :
    (L.memory heap win).resend p = .ok (packet.map recreatePDUS) := by
  rcases hp with ⟨rfl, rfl⟩ | ⟨i, b, hheld, rfl, rfl⟩
  · rfl
  · have hptr := block_ptr h.divided hheld
    have hdata := block_data h.divided hheld
    unfold Memory.resend recreatePDUSAt
    dsimp only [Layout.memory]
    rw [loadPdu_eq hptr, ok_bind, loadBytes_eq hdata]
    rfl

theorem Realizes.inMemory (h : Realizes heap win L hand rest) :
    InMemory hand rest (L.memory heap win) win :=
  ⟨L, heap, rfl, h⟩

theorem Realizes.refined_leave (h : Realizes heap win L hand rest) {α : Type} (a : α)
    (hne : hand ≠ nothing) {tidy : Prop} (htidy : ¬tidy) :
    Refined rest tidy (a, L.memory heap win) (a, win) := by
  refine ⟨rfl, rest ∪ dom hand, h.leave.inMemory, Set.subset_union_left, ?_⟩
  exact iff_of_false (fun heq => hne ((h.divided.union_dom_eq_iff .hand).mp heq)) htidy

theorem part_ne_nothing : b.part ≠ nothing := by
  intro heq
  have hptr := congrFun heq b.ptr
  rw [Parcel.part_ptr] at hptr
  cases hptr

theorem Realizes.grows_slot (h : Realizes heap win L hand rest) {tidy : Prop}
    (htidy : tidy ↔ win.queue i = none) :
    Grows rest (rest ∪ dom (partOf (L.held i))) tidy := by
  refine ⟨Set.subset_union_left, (h.divided.union_dom_eq_iff (.slot i)).trans ?_⟩
  rw [htidy, h.queue]
  simp only [Layout.parts]
  cases L.held i with
  | none => exact iff_of_true rfl rfl
  | some b => exact iff_of_false part_ne_nothing (by simp)

theorem put_sim (h : Realizes heap win L b.part rest) (i : ℤ) :
    Refines (fun m win' =>
        win' = { win with queue := Function.update win.queue i (some b.packet) } ∧
        ∃ heap', m = (L.hold i (some b)).memory heap' win' ∧
          Realizes heap' win' (L.hold i (some b)) nothing (rest ∪ dom (partOf (L.held i))))
      ((L.memory heap win).store i (some b.ptr)) (win.store i (some b.packet)) := by
  unfold Window.store
  by_cases hi : 0 ≤ i ∧ i < win.winSize
  · obtain ⟨heap', hstore, hreal⟩ := h.put hi
    rw [hstore, if_pos hi]
    exact .ok ⟨rfl, heap', rfl, hreal⟩
  · rw [store_outside hi, if_neg hi]
    exact .stop

theorem take_sim (h : Realizes heap win L nothing rest) (hheld : L.held i = some b) :
    Refines (fun m win' => win' = { win with queue := Function.update win.queue i none } ∧
        ∃ heap', m = (L.hold i none).memory heap' win' ∧
          Realizes heap' win' (L.hold i none) b.part rest)
      ((L.memory heap win).store i none) (win.store i none) := by
  obtain ⟨heap', hstore, hreal⟩ := h.take hheld
  rw [hstore, Window.store, if_pos (h.inside i (by simp [hheld]))]
  exact .ok ⟨rfl, heap', rfl, hreal⟩

theorem clear_sim (h : Realizes heap win L hand rest) (i : ℤ) :
    Refines (InMemory hand rest)
      ((L.memory heap win).freeSlot i >>= fun m => m.store i none)
      (win.deref i >>= fun _ => win.store i none) := by
  unfold Memory.freeSlot Window.deref
  by_cases hi : 0 ≤ i ∧ i < win.winSize
  · cases hheld : L.held i with
    | none =>
        rw [slot_eq h.divided hi, Window.slot, if_pos hi, h.queue, Layout.pointers, hheld]
        exact .stop
    | some b =>
        obtain ⟨heap₁, heap₂, hfree, hstore, hreal⟩ := h.clear hheld
        unfold Memory.freeSlot at hfree
        rw [hfree, ok_bind, hstore, Window.slot, if_pos hi, h.queue, hheld, ok_bind]
        dsimp only [Option.map_some]
        rw [pure_eq_ok, ok_bind, Window.store, if_pos hi]
        exact .ok hreal.inMemory
  · rw [slot_outside hi, Window.slot, if_neg hi]
    exact .stop

/-- The packet is the next one and its slot is free. -/
def SendFits (win : Window) (seqNum : UInt32) : Prop :=
  isWindowFull win = .ok false ∧
    win.slotOf seqNum = (i32 (win.current + 1)).tmod win.winSize ∧
    win.queue ((i32 (win.current + 1)).tmod win.winSize) = none

theorem serverSent_sim (h : Realizes heap win L b.part rest) :
    Refines (Refined rest (SendFits win b.packet.seqNum))
      ((L.memory heap win).serverSent b.ptr) (serverSent win b.packet) := by
  have hload : loadPdu (L.memory heap win).heap b.ptr = .ok b.struct :=
    loadPdu_eq (h.divided.holds .hand b.ptr _ Parcel.part_ptr)
  unfold Memory.serverSent serverSent
  refine Refines.bind (isWindowFull_sim h).and_eq ?_
  rintro full _ ⟨rfl, hfull⟩
  refine Refines.ite Iff.rfl (fun hf => .ok ?_) fun hf => ?_
  · refine h.refined_leave 0 part_ne_nothing fun hfits => ?_
    rw [hfits.1] at hfull
    cases hfull
    cases hf
  rw [hload, ok_bind]
  refine Refines.ite Iff.rfl (fun hne => .ok ?_) fun heq => ?_
  · exact h.refined_leave 0 part_ne_nothing fun hfits => hne hfits.2.1
  have hcur : Realizes heap { win with current := (i32 (win.current + 1)).tmod win.winSize } L
    b.part rest := h.congr rfl rfl
  refine Refines.bind (put_sim hcur ((i32 (win.current + 1)).tmod win.winSize)) ?_
  rintro _ _ ⟨rfl, heap', rfl, hreal⟩
  refine .ok ⟨rfl, _, hreal.inMemory, h.grows_slot ?_⟩
  rw [eq_false_of_ne_true hf] at hfull
  simp only [SendFits, hfull, true_and]
  exact and_iff_right (not_not.mp heq)

theorem freeSlots_sim (n : ℕ) (h : Realizes heap win L hand rest) (i : ℤ) :
    Refines (InMemory hand rest)
      (Memory.freeSlots n i (L.memory heap win)) (freeSlots n i win) := by
  induction n generalizing heap win L i with
  | zero => exact .ok h.inMemory
  | succ n ih =>
      rw [Memory.freeSlots, freeSlots, ← bind_assoc, ← bind_assoc]
      refine Refines.bind (clear_sim h (i.tmod win.winSize)) ?_
      rintro _ win' ⟨L', heap', rfl, h'⟩
      exact ih h' (i32 (i + 1))

theorem recvRR_sim (h : Realizes heap win L nothing rest) (seqNum : UInt32) :
    Refines (Refined rest True) ((L.memory heap win).recvRR seqNum) (recvRR win seqNum) := by
  unfold Memory.recvRR recvRR
  refine Refines.ite Iff.rfl (fun _ => .ok ?_) fun _ => ?_
  · exact ⟨rfl, rest, h.inMemory, grows_refl trivial⟩
  refine deref_bind h win.current fun c _ => ?_
  rw [Parcel.struct_seqNum]
  refine Refines.ite Iff.rfl (fun _ => .ok ?_) fun _ => ?_
  · exact ⟨rfl, rest, h.inMemory, grows_refl trivial⟩
  refine deref_bind h win.lower fun l _ => ?_
  dsimp only [Parcel.struct_seqNum]
  refine Refines.ite Iff.rfl (fun _ => .ok ?_) fun _ => ?_
  · exact ⟨rfl, rest, h.inMemory, grows_refl trivial⟩
  refine deref_bind h win.lower fun l' _ => ?_
  rw [Parcel.struct_seqNum]
  refine Refines.bind (freeSlots_sim _ h _) ?_
  rintro _ win' ⟨L', heap', rfl, h'⟩
  exact .ok ⟨rfl, rest, ⟨L', heap', rfl, h'.congr rfl rfl⟩, grows_refl trivial⟩

theorem skip_sim (h : Realizes heap win L nothing rest) (seqNum : UInt32) :
    Refines (Refined rest True) ((L.memory heap win).skip seqNum) (skip win seqNum) := by
  unfold Memory.skip skip
  refine Refines.ite (by simp [isBufEmpty, Layout.memory]) (fun _ => .ok ?_) fun _ => ?_
  · exact ⟨rfl, rest, ⟨L, heap, rfl, h.congr rfl rfl⟩, grows_refl trivial⟩
  refine Refines.ite (by simp [isBufFull, Layout.memory]) (fun _ => .stop) fun _ => ?_
  refine Refines.ite Iff.rfl (fun _ => .ok ?_) fun _ => .ok ?_
  · exact ⟨rfl, rest, h.inMemory, grows_refl trivial⟩
  · exact ⟨rfl, rest, ⟨L, heap, rfl, h.congr rfl rfl⟩, grows_refl trivial⟩

/-- The packet is buffered, and its slot is free or has the same packet, which
`buffer` releases unless it is the lowest. -/
def BufferFits (win : Window) (seqNum : UInt32) : Prop :=
  win.current ≠ -1 ∧
    if win.slotOf seqNum = win.lower then win.queue win.lower = none
    else ∀ other, win.queue (win.slotOf seqNum) = some other → other.seqNum = seqNum

theorem buffer_sim (h : Realizes heap win L b.part rest) :
    Refines (Refined rest (BufferFits win b.packet.seqNum))
      ((L.memory heap win).buffer b.ptr) (buffer win b.packet) := by
  have hload : loadPdu (L.memory heap win).heap b.ptr = .ok b.struct :=
    loadPdu_eq (h.divided.holds .hand b.ptr _ Parcel.part_ptr)
  unfold Memory.buffer buffer
  rw [hload, ok_bind]
  dsimp only [Parcel.struct_seqNum, slotOf_memory]
  generalize hnew : win.slotOf b.packet.seqNum = newCur
  refine Refines.ite Iff.rfl (fun hempty => .ok ?_) fun hcur => ?_
  · exact h.refined_leave 0 part_ne_nothing fun hfits => hfits.1 hempty
  have hcur' : win.current ≠ -1 := hcur
  refine Refines.ite Iff.rfl (fun hlow => ?_) fun hlow => ?_
  · refine Refines.bind (put_sim h win.lower) ?_
    rintro _ _ ⟨rfl, heap', rfl, hreal⟩
    refine .ok ⟨rfl, _, hreal.inMemory, h.grows_slot ?_⟩
    rw [BufferFits, hnew, if_pos hlow]
    exact and_iff_right hcur'
  have hfits : BufferFits win b.packet.seqNum ↔
      ∀ other, win.queue newCur = some other → other.seqNum = b.packet.seqNum := by
    rw [BufferFits, hnew, if_neg hlow]
    exact and_iff_right hcur'
  refine Refines.bind (slot_sim h newCur) ?_
  rintro _ _ ⟨-, rfl, rfl⟩
  rw [h.queue] at hfits
  cases hheld : L.held newCur with
  | none =>
      rw [Layout.pointers, hheld]
      refine Refines.bind (put_sim h newCur) ?_
      rintro _ _ ⟨rfl, heap', rfl, hreal⟩
      have hgrows : Grows rest (rest ∪ dom (partOf (L.held newCur)))
          (BufferFits win b.packet.seqNum) := by
        refine h.grows_slot (iff_of_true ?_ ?_)
        · simp [hfits, hheld]
        · simp [h.queue, hheld]
      refine Refines.ite Iff.rfl (fun _ => .ok ?_) fun _ => .ok ?_
      · exact ⟨rfl, _, ⟨_, heap', rfl, hreal.congr rfl rfl⟩, hgrows⟩
      · exact ⟨rfl, _, hreal.inMemory, hgrows⟩
  | some old =>
      rw [Layout.pointers, hheld]
      dsimp only [Option.map_some]
      rw [show loadPdu (L.memory heap win).heap old.ptr = .ok old.struct from
        loadPdu_eq (block_ptr h.divided hheld), ok_bind, Parcel.struct_seqNum]
      refine Refines.ite Iff.rfl (fun hsame => ?_) fun hdiff => .ok ?_
      · obtain ⟨heap₁, heap₂, hfree, hstore, hreal⟩ := h.renew hheld
        have hbound := h.inside newCur (by simp [hheld])
        rw [hfree, ok_bind, hstore, ok_bind, Window.store, if_pos hbound, ok_bind]
        refine .ok ⟨rfl, rest, hreal.inMemory, grows_refl (hfits.mpr ?_)⟩
        simp [hheld, hsame]
      · refine h.refined_leave 0 part_ne_nothing fun hok => hdiff ?_
        exact (hfits.mp hok old.packet (by simp [hheld])).symm

theorem unbuffer_sim (h : Realizes heap win L nothing rest) :
    Refines (fun x y => (x.1 = none ∧ y.1 = none ∧ InMemory nothing rest x.2 y.2) ∨
        ∃ b : Parcel, x.1 = some b.ptr ∧ y.1 = some b.packet ∧ InMemory b.part rest x.2 y.2)
      (L.memory heap win).unbuffer (unbuffer win) := by
  unfold Memory.unbuffer unbuffer
  refine Refines.bind (slot_sim h win.lower) ?_
  rintro _ _ ⟨hi, rfl, rfl⟩
  cases hheld : L.held win.lower with
  | none =>
      rw [Layout.pointers, hheld]
      exact .ok (.inl ⟨rfl, rfl, h.inMemory⟩)
  | some b =>
      rw [Layout.pointers, hheld]
      dsimp only [Option.map_some]
      rw [show loadPdu (L.memory heap win).heap b.ptr = .ok b.struct from
        loadPdu_eq (block_ptr h.divided hheld), ok_bind, Parcel.struct_seqNum]
      have h' : Realizes heap { win with firstSeq := b.packet.seqNum + 1 } L nothing rest :=
        h.congr rfl rfl
      refine Refines.bind (take_sim h' hheld) ?_
      rintro _ _ ⟨rfl, heap', rfl, hreal⟩
      refine .ok (.inr ⟨b, rfl, rfl, L.hold win.lower none, heap', ?_, hreal.congr ?_ ?_⟩)
      · by_cases hcur : win.current = win.lower <;> simp only [Layout.memory, hcur, if_true, if_false]
      · split_ifs <;> rfl
      · split_ifs <;> rfl

theorem Realizes.exchange (h : Realizes heap win L hand rest) {heap' : Heap Block}
    {part : ℕ → Option Block} (hnew : ∀ p, hand p = none → (part p).isSome → heap.block p = none)
    (hpart : ∀ p, (part p).isSome → heap'.block p = part p)
    (hfreed : ∀ p, (hand p).isSome → part p = none → heap'.block p = none)
    (hframe : ∀ p, hand p = none → part p = none → heap'.block p = heap.block p) :
    Realizes heap' win L part rest := by
  refine ⟨?_, h.queue, h.inside⟩
  rw [← Layout.parts_hand hand]
  exact h.divided.exchange hnew hpart hfreed hframe

theorem Realizes.malloc_raw (h : Realizes heap win L nothing rest) :
    Realizes (heap.malloc .raw).2 win L
      (Function.update nothing heap.fresh (some .raw)) rest := by
  have hfresh := heap.unused heap.fresh (Nat.le_refl _)
  refine h.exchange ?_ ?_ ?_ ?_ <;> intro p
  all_goals
    by_cases hp : p = heap.fresh
    · simp [hp, hfresh]
    · simp [hp, nothing]

/-- The struct in the caller's hand is filled, unless the PDU is corrupt. -/
theorem interpPDUAt_sim {p : ℕ}
    (h : Realizes heap win L (Function.update nothing p (some .raw)) rest) (pduBuf : List UInt8) :
    Refines (fun x packet => (packet = none ∧ x.2 = heap) ∨
        ∃ b : Parcel, b.ptr = p ∧ packet = some b.packet ∧ Realizes x.2 win L b.part rest)
      (interpPDUAt heap p pduBuf) (interpPDU pduBuf) := by
  have hptr : heap.block p = some .raw := h.divided.holds .hand p _ (Function.update_self ..)
  unfold interpPDUAt interpPDU
  refine Refines.ite Iff.rfl (fun _ => .ok (.inl ⟨rfl, rfl⟩)) fun hsum => ?_
  clear hsum
  match pduBuf with
  | s₀ :: s₁ :: s₂ :: s₃ :: c₀ :: c₁ :: flag :: payload =>
    dsimp only
    by_cases hlen : payload.length < 65536
    · rw [if_pos hlen, dif_pos hlen]
      have hfresh := heap.unused heap.fresh (Nat.le_refl _)
      have hne : p ≠ heap.fresh := by
        rintro rfl
        rw [hfresh] at hptr
        cases hptr
      have hptr' : (heap.malloc (.bytes payload)).2.block p = some .raw := by
        rw [malloc_block, Function.update_of_ne hne, hptr]
      obtain ⟨heap', hwrite, hblock⟩ := write_eq Halt hptr'
        (.pdu ⟨ntohl s₀ s₁ s₂ s₃, hostShort c₀ c₁, flag, some heap.fresh,
          UInt16.ofNat payload.length⟩)
      rw [malloc_block] at hblock
      dsimp only [malloc_fst]
      rw [hwrite, ok_bind]
      refine .ok (.inr ⟨⟨p, heap.fresh, ⟨ntohl s₀ s₁ s₂ s₃, hostShort c₀ c₁, flag, payload,
        UInt16.ofNat payload.length, payLen_toNat hlen⟩, hne.symm⟩, rfl, rfl, ?_⟩)
      refine h.exchange ?_ ?_ ?_ ?_ <;> intro q
      all_goals
        dsimp only [Parcel.part, Parcel.struct]
        by_cases hq : q = p
        · simp [hq, hblock]
        · by_cases hq' : q = heap.fresh
          · simp [hq', hblock, hfresh, hne.symm, nothing]
          · simp [hq, hq', hblock, nothing]
    · rw [if_neg hlen, dif_neg hlen]
      exact .stop
  | [] | [_] | [_, _] | [_, _, _] | [_, _, _, _] | [_, _, _, _, _] | [_, _, _, _, _, _] =>
    exact .stop

/-- A packet that the call brings is stored, and none is lost by it: `buffer`
releases one of the same number that it replaces above the first slot. -/
def Tidy (win : Window) : Call → Prop
  | .sendNext pduBuf => ∃ sent, interpPDU pduBuf = .ok (some sent) ∧ SendFits win sent.seqNum
  | .bufferPacket packet => BufferFits win packet.seqNum
  | _ => True

/-- A struct that was not filled is not read while the window is full. -/
theorem serverSent_raw_sim {p : ℕ} {tidy : Prop} (htidy : ¬tidy)
    (h : Realizes heap win L (Function.update nothing p (some .raw)) rest) :
    Refines (Refined rest tidy) ((L.memory heap win).serverSent p)
      (do if ← isWindowFull win then return (0, win) else throw .uninit) := by
  have hraw : loadPdu (L.memory heap win).heap p = .error (.stop .uninit) := by
    have hptr : heap.block p = some .raw := h.divided.holds .hand p _ (Function.update_self ..)
    rw [loadPdu, show (L.memory heap win).heap.load p = .ok .raw from load_eq hptr, ok_bind]
    rfl
  unfold Memory.serverSent
  refine Refines.bind (isWindowFull_sim h) ?_
  rintro full _ rfl
  refine Refines.ite Iff.rfl (fun _ => .ok ?_) fun _ => ?_
  · refine h.refined_leave 0 (fun heq => ?_) htidy
    have hp := congrFun heq p
    rw [Function.update_self] at hp
    cases hp
  · rw [hraw, error_bind]
    exact .stop

theorem sendNext_sim (h : Realizes heap win L nothing rest) (pduBuf : List UInt8) :
    Refines (Refined rest (Tidy win (.sendNext pduBuf)))
      ((L.memory heap win).sendNext pduBuf) (sendNext win pduBuf) := by
  unfold Memory.sendNext sendNext
  refine Refines.bind (interpPDUAt_sim h.malloc_raw pduBuf).and_eq ?_
  rintro ⟨_, heap'⟩ _ ⟨⟨rfl, rfl⟩ | ⟨b, hb, rfl, hreal⟩, hinterp⟩
  · refine serverSent_raw_sim ?_ h.malloc_raw
    rintro ⟨sent, hsent, _⟩
    rw [hinterp] at hsent
    cases hsent
  · have htidy : Tidy win (.sendNext pduBuf) ↔ SendFits win b.packet.seqNum := by
      simp [Tidy, hinterp]
    rw [htidy]
    rw [show (L.memory heap win).heap.fresh = b.ptr from hb.symm]
    exact serverSent_sim hreal

/-- The copy of the packet that `bufferPacket` makes. -/
theorem bufferPacket_sim (h : Realizes heap win L nothing rest) (packet : PduS) :
    Refines (Refined rest (Tidy win (.bufferPacket packet)))
      ((L.memory heap win).bufferPacket packet) (buffer win packet) := by
  have hne : heap.fresh ≠ heap.fresh + 1 := by omega
  have hreal : Realizes ((heap.malloc (.bytes packet.payload)).2.malloc (.pdu ⟨packet.seqNum,
      packet.checksum, packet.flag, some heap.fresh, packet.payLen⟩)).2 win L
      (Parcel.part ⟨heap.fresh + 1, heap.fresh, packet, hne⟩) rest := by
    have hfresh := heap.unused heap.fresh (Nat.le_refl _)
    have hfresh' := heap.unused (heap.fresh + 1) (by omega)
    refine h.exchange ?_ ?_ ?_ ?_ <;> intro p
    all_goals
      dsimp only [Parcel.part, Parcel.struct]
      by_cases hp : p = heap.fresh + 1
      · simp [hp, hfresh', nothing, Heap.malloc]
      · by_cases hp' : p = heap.fresh
        · simp [hp', hfresh, nothing, Heap.malloc]
        · simp [hp, hp', nothing, Heap.malloc]
  exact buffer_sim hreal

theorem unbufferNext_sim (h : Realizes heap win L nothing rest) :
    Refines (fun x y => x.1 = y.1.map (fun packet => (packet.seqNum, packet.payload)) ∧
        InMemory nothing rest x.2 y.2)
      (L.memory heap win).unbufferNext (unbuffer win) := by
  unfold Memory.unbufferNext
  refine Refines.bind_left (unbuffer_sim h) ?_
  rintro ⟨_, _⟩ ⟨_, win'⟩ (⟨rfl, rfl, hm⟩ | ⟨b, rfl, rfl, L', heap', rfl, h'⟩)
  · exact ⟨_, rfl, rfl, hm⟩
  · obtain ⟨heap₁, heap₂, hpayload, hfree, hreal⟩ := h'.release
    have hload := loadPdu_eq (h'.divided.holds .hand b.ptr _ Parcel.part_ptr)
    have hbytes := loadBytes_eq (h'.divided.holds .hand b.data _ Parcel.part_data)
    refine ⟨(some (b.packet.seqNum, b.packet.payload), L'.memory heap₂ win'), ?_, rfl,
      hreal.inMemory⟩
    dsimp only [Layout.memory]
    rw [hload, ok_bind, hbytes, ok_bind, hpayload, ok_bind, hfree, ok_bind]
    rfl

theorem perform_sim (h : Realizes heap win L nothing rest) (call : Call) :
    Refines (Refined rest (Tidy win call)) (Memory.perform call (L.memory heap win))
      (call.perform win) := by
  cases call with
  | sendNext pduBuf =>
      refine Refines.bind (sendNext_sim h pduBuf) ?_
      rintro ⟨_, m⟩ ⟨code, win'⟩ ⟨rfl, hrest⟩
      exact .ok ⟨rfl, hrest⟩
  | recvRR seqNum =>
      refine Refines.bind (recvRR_sim h seqNum) ?_
      rintro ⟨_, m⟩ ⟨code, win'⟩ ⟨rfl, hrest⟩
      exact .ok ⟨rfl, hrest⟩
  | handleSrej seqNum =>
      refine Refines.bind (srej_sim h seqNum) ?_
      intro p packet hp
      rw [resend_sim h hp]
      exact .ok ⟨rfl, rest, h.inMemory, grows_refl trivial⟩
  | resendLowest =>
      refine Refines.bind (getLow_sim h) ?_
      intro p packet hp
      rw [resend_sim h hp]
      exact .ok ⟨rfl, rest, h.inMemory, grows_refl trivial⟩
  | skip seqNum =>
      refine Refines.bind (skip_sim h seqNum) ?_
      rintro ⟨_, m⟩ ⟨code, win'⟩ ⟨rfl, hrest⟩
      exact .ok ⟨rfl, hrest⟩
  | bufferPacket packet =>
      refine Refines.bind (bufferPacket_sim h packet) ?_
      rintro ⟨_, m⟩ ⟨code, win'⟩ ⟨rfl, hrest⟩
      exact .ok ⟨rfl, hrest⟩
  | unbufferNext =>
      refine Refines.bind (unbufferNext_sim h) ?_
      rintro ⟨_, m⟩ ⟨packet, win'⟩ ⟨rfl, hm⟩
      exact .ok ⟨rfl, rest, hm, grows_refl trivial⟩

end

/-- The window after a call, unless the call stops the process. -/
def windowStep (win : Window) (call : Call) : Option Window :=
  (call.perform win).toOption.map Prod.snd

section
variable {heap : Heap Block} {rest rest' rest'' : Set ℕ}

theorem Grows.trans {tidy tidy' : Prop} (h : Grows rest rest' tidy) (h' : Grows rest' rest'' tidy') :
    Grows rest rest'' (tidy ∧ tidy') := by
  refine ⟨h.1.trans h'.1, ?_⟩
  rw [← h.2, ← h'.2]
  constructor
  · intro heq
    subst heq
    have hsame : rest' = rest'' := h'.1.antisymm h.1
    exact ⟨hsame, hsame.symm⟩
  · rintro ⟨rfl, rfl⟩
    rfl

/-- Every run in memory ends as the one on the values does, with the same
answers. Something is left behind exactly if some call is not tidy. -/
theorem performAll_sim (calls : List Call) {m : Memory} {win : Window}
    (h : InMemory nothing rest m win) :
    Refines (Refined rest (Guarded windowStep Tidy win calls))
      (performAll Memory.perform calls m) (performAll Call.perform calls win) := by
  induction calls generalizing m win rest with
  | nil => exact .ok ⟨rfl, rest, h, grows_refl trivial⟩
  | cons call calls ih =>
      obtain ⟨L, heap, rfl, hreal⟩ := h
      refine Refines.bind (perform_sim hreal call).and_eq ?_
      rintro ⟨_, m⟩ ⟨answer, win'⟩ ⟨⟨rfl, rest', hm, hgrows⟩, hcall⟩
      refine Refines.bind (ih hm) ?_
      rintro ⟨_, m'⟩ ⟨answers, win''⟩ ⟨rfl, rest'', hm', hgrows'⟩
      refine .ok ⟨rfl, rest'', hm', ?_⟩
      have hstep : windowStep win call = some win' := by
        rw [windowStep, hcall]
        rfl
      have htidy : Guarded windowStep Tidy win (call :: calls) ↔
          Tidy win call ∧ Guarded windowStep Tidy win' calls := by
        simp only [Guarded, hstep, Option.some.injEq, forall_eq']
      rw [htidy]
      exact hgrows.trans hgrows'

variable {L : Layout} {slots : ℤ → Option ℕ} {win : Window}

/-- The loop of `freeWindow`, of which `n` rounds are left. -/
theorem freeQueue_eq (n : ℕ) {i : ℤ} (hd : Divided (L.parts slots nothing) rest heap)
    (hi : 0 ≤ i) (hn : (win.winSize - i).toNat = n) (hslots : ∀ j, i ≤ j → slots j = L.pointers j)
    (hheld : ∀ j, (L.held j).isSome → i ≤ j ∧ j < win.winSize) :
    ∃ heap', Memory.freeQueue n i (L.memory heap win) = .ok (L.memory heap' win) ∧
      Divided (Layout.parts ⟨L.base, fun _ => none⟩ slots nothing) rest heap' := by
  induction n generalizing L heap i with
  | zero =>
      have hnone : L.held = fun _ => none := by
        funext j
        by_contra hne
        have hj := hheld j (Option.isSome_iff_ne_none.mpr hne)
        omega
      refine ⟨heap, rfl, ?_⟩
      rwa [← hnone]
  | succ n ih =>
      have hin : 0 ≤ i ∧ i < win.winSize := by omega
      rw [Memory.freeQueue, slot_eq hd hin, ok_bind, hslots i le_rfl, Layout.pointers]
      cases hb : L.held i with
      | none =>
          refine ih hd (by omega) (by omega) (fun j hj => hslots j (by omega)) fun j hj => ?_
          have hj' := hheld j hj
          have hne : j ≠ i := by
            rintro rfl
            simp [hb] at hj
          omega
      | some b =>
          have hptr : slots i = some b.ptr := by rw [hslots i le_rfl, Layout.pointers, hb]; rfl
          obtain ⟨heap₁, hfree, hd₁⟩ := freeSlot_eq hd hb hptr hin
          dsimp only [Option.map_some]
          rw [hfree, ok_bind]
          refine ih (L := L.hold i none) hd₁ (by omega) (by omega) (fun j hj => ?_) fun j hj => ?_
          · rw [Layout.pointers_hold, Function.update_of_ne (by omega), hslots j (by omega)]
          · by_cases hne : j = i
            · simp [hne, Layout.hold] at hj
            · simp only [Layout.hold, Function.update_of_ne hne] at hj
              have hj' := hheld j hj
              omega

/-- `freeWindow` releases the packets of the slots and the array, and leaves
what was left behind. -/
theorem freeWindow_eq {m : Memory} (h : InMemory nothing rest m win) :
    ∃ m', m.freeWindow = .ok m' ∧ m'.heap.live = rest := by
  obtain ⟨L, heap, rfl, hreal⟩ := h
  obtain ⟨heap₁, hloop, hd⟩ := freeQueue_eq win.winSize.toNat hreal.divided le_rfl
    (by rw [Int.sub_zero]) (fun j _ => rfl) hreal.inside
  obtain ⟨heap₂, hfree, hblock⟩ := free_eq Halt (block_base hd)
  refine ⟨L.memory heap₂ win, ?_, ?_⟩
  · unfold Memory.freeWindow
    rw [show (L.memory heap win).win.winSize.toNat = win.winSize.toNat from rfl, hloop, ok_bind]
    dsimp only [Layout.memory]
    rw [hfree, ok_bind]
    rfl
  · have hd' : Divided (Function.update (Layout.parts ⟨L.base, fun _ => none⟩ L.pointers nothing)
        .queue nothing) rest heap₂ := by
      refine hd.release fun p => ?_
      rw [hblock]
      by_cases hp : p = L.base <;> simp [hp, Layout.parts, nothing]
    have hnone : ∀ o p, Function.update (Layout.parts ⟨L.base, fun _ => none⟩ L.pointers nothing)
        .queue nothing o p = none := by
      intro o p
      cases o <;> rfl
    rw [show (L.memory heap₂ win).heap = heap₂ from rfl, hd'.live_eq]
    simp [hnone]

/-- After `initWindow` the array belongs to the window, and what was there
before is left alone. -/
theorem initWindow_inMemory (heap : Heap Block) {windowSize : ℤ} (hsize : 1 ≤ windowSize) :
    InMemory nothing heap.live ((Memory.start heap).initWindow windowSize).2
      (initWindow noWindow windowSize).2 := by
  have hd : Divided (Function.update (fun _ : Owner => fun _ => none) .queue
      (Function.update nothing heap.fresh (some (.queue fun _ => none)))) heap.live
      (heap.malloc (.queue fun _ => none)).2 := by
    refine (divided_none heap).acquire rfl (fun p hp => ?_) fun p => ?_
    · by_cases hfresh : p = heap.fresh
      · rw [hfresh, heap.unused heap.fresh (Nat.le_refl _)]
      · simp [hfresh, nothing] at hp
    · by_cases hfresh : p = heap.fresh <;> simp [hfresh, nothing]
  refine ⟨⟨heap.fresh, fun _ => none⟩, (heap.malloc (.queue fun _ => none)).2, ?_, ?_, ?_, ?_⟩
  · unfold Memory.initWindow initWindow
    rw [if_neg (by omega), if_neg (by omega)]
    rfl
  · convert hd using 1
    funext o
    cases o <;> rfl
  · unfold initWindow
    rw [if_neg (by omega)]
    intro i
    rfl
  · intro i hi
    cases hi

/-- After a run of tidy calls `freeWindow` leaves what was there before
`initWindow`. -/
theorem freeWindow_of_tidy (heap : Heap Block) {windowSize : ℤ} (hsize : 1 ≤ windowSize)
    {calls : List Call} (htidy : Guarded windowStep Tidy (initWindow noWindow windowSize).2 calls)
    {answers : List Answer} {m : Memory}
    (hrun : performAll Memory.perform calls ((Memory.start heap).initWindow windowSize).2 =
      .ok (answers, m)) :
    ∃ m', m.freeWindow = .ok m' ∧ m'.heap.live = heap.live := by
  have hsim := performAll_sim calls (initWindow_inMemory heap hsize)
  rw [hrun] at hsim
  obtain ⟨_, -, -, rest, hm, -, hrest⟩ := hsim.of_ok
  rw [← hrest.mpr htidy]
  exact freeWindow_eq hm

/-- Every run of calls with any arguments, from `initWindow` on, ends in memory
as it does on the values: it gives the same answers, or stops for the same
reason, and never because a pointer dangles. `freeWindow` then releases no block
that was there before, and every other one exactly if all calls were tidy. -/
theorem memory_refines_window (heap : Heap Block) {windowSize : ℤ} (hsize : 1 ≤ windowSize)
    (calls : List Call) :
    Refines (fun x y => x.1 = y.1 ∧ ∃ m', x.2.freeWindow = .ok m' ∧
        heap.live ⊆ m'.heap.live ∧
        (m'.heap.live = heap.live ↔
          Guarded windowStep Tidy (initWindow noWindow windowSize).2 calls))
      (performAll Memory.perform calls ((Memory.start heap).initWindow windowSize).2)
      (performAll Call.perform calls (initWindow noWindow windowSize).2) := by
  refine (performAll_sim calls (initWindow_inMemory heap hsize)).mono ?_
  rintro ⟨_, m⟩ ⟨answers, win⟩ ⟨rfl, rest', hm, hsubset, htidy⟩
  obtain ⟨m', hfree, hlive⟩ := freeWindow_eq hm
  subst hlive
  exact ⟨rfl, m', hfree, hsubset, htidy⟩

/-- A window of two: two packets are sent and acknowledged, and a third one is
resent. -/
def twoSlots : List Call :=
  [.sendNext (createPdu 0 DATA_FLAG [1]), .sendNext (createPdu 1 DATA_FLAG [2]), .recvRR 2,
    .sendNext (createPdu 2 DATA_FLAG []), .handleSrej 2, .resendLowest]

theorem memory_refines_window_twoSlots :
    Refines (fun x y => x.1 = y.1 ∧ ∃ m', x.2.freeWindow = .ok m' ∧
        (empty : Heap Block).live ⊆ m'.heap.live ∧
        (m'.heap.live = (empty : Heap Block).live ↔
          Guarded windowStep Tidy (initWindow noWindow 2).2 twoSlots))
      (performAll Memory.perform twoSlots ((Memory.start empty).initWindow 2).2)
      (performAll Call.perform twoSlots (initWindow noWindow 2).2) :=
  memory_refines_window empty (by decide) twoSlots

end
end SelRej
