import SelRej.RcopyRuns

/-!
# What rcopy acknowledges and what it has stored

`writeData` keeps the result of `fwrite` in a variable that nothing reads. So a
write that stores less than it is given changes nothing of what rcopy does, and
the output file is a function of what rcopy did and of how much each call of
`fwrite` stored.

A run is rcopy's answer to any sequence of datagrams and timeouts. On the runs
on which rcopy writes in turn, it acknowledges only what it has stored exactly
when every `fwrite` has stored all it was given: the RR right behind a shorter
one already covers the lost bytes.
-/
namespace SelRej
open ReorderBuffer PartialRun

/-- The bytes in the output file after `actions`, where call `n`, `n + 1`, … of
`fwrite` stores at most `stored n`, `stored (n + 1)`, … bytes. -/
def outputFile (stored : ℕ → ℕ) : ℕ → List Action → List UInt8
  | _, [] => []
  | n, .fwrite packet :: as => packet.payload.take (stored n) ++ outputFile stored (n + 1) as
  | n, .sendto _ :: as => outputFile stored n as

/-- No call of `fwrite` stores less than it is given. -/
def AllStored (stored : ℕ → ℕ) (actions : List Action) : Prop :=
  ∀ i packet, (written actions)[i]? = some packet → packet.payload.length ≤ stored i

/-- The payloads of the packets numbered below `k` are at the beginning of the
output file, completely and in order. -/
structure Stored (stored : ℕ → ℕ) (actions : List Action) (k : ℕ) : Prop where
  numbers : ((written actions).take k).map (fun packet => packet.seqNum.toNat) = List.range k
  payloads : ((written actions).take k).flatMap PduS.payload <+: outputFile stored 0 actions

section
variable {stored : ℕ → ℕ} {n k : ℕ} {as bs : List Action}

theorem written_append (as bs : List Action) : written (as ++ bs) = written as ++ written bs :=
  List.filterMap_append

theorem written_fwrite (packet : PduS) (as : List Action) :
    written (.fwrite packet :: as) = packet :: written as := (rfl)

theorem written_sendto (pduBuf : List UInt8) (as : List Action) :
    written (.sendto pduBuf :: as) = written as := (rfl)

theorem outputFile_append (stored : ℕ → ℕ) (n : ℕ) (as bs : List Action) :
    outputFile stored n (as ++ bs) =
      outputFile stored n as ++ outputFile stored (n + (written as).length) bs := by
  induction as generalizing n with
  | nil => rfl
  | cons a as ih =>
      cases a with
      | fwrite packet =>
          simp only [List.cons_append, outputFile, ih, List.append_assoc, written_fwrite,
            List.length_cons]
          rw [Nat.add_assoc, Nat.add_comm 1]
      | sendto pduBuf => simp only [List.cons_append, outputFile, ih, written_sendto]

theorem length_outputFile_le (stored : ℕ → ℕ) (n : ℕ) (as : List Action) :
    (outputFile stored n as).length ≤ ((written as).flatMap PduS.payload).length := by
  induction as generalizing n with
  | nil => exact Nat.le_refl _
  | cons a as ih =>
      cases a with
      | fwrite packet =>
          rw [outputFile, written_fwrite, List.flatMap_cons, List.length_append, List.length_append]
          exact Nat.add_le_add (List.length_take_le' _ _) (ih (n + 1))
      | sendto pduBuf => exact ih n

theorem outputFile_of_all
    (h : ∀ i packet, (written as)[i]? = some packet → packet.payload.length ≤ stored (n + i)) :
    outputFile stored n as = (written as).flatMap PduS.payload := by
  induction as generalizing n with
  | nil => rfl
  | cons a as ih =>
      cases a with
      | fwrite packet =>
          rw [outputFile, written_fwrite, List.flatMap_cons,
            List.take_of_length_le (show packet.payload.length ≤ stored n from h 0 packet rfl)]
          refine congrArg _ (ih fun i q hq => ?_)
          rw [Nat.add_assoc, Nat.add_comm 1]
          exact h (i + 1) q hq
      | sendto pduBuf => exact ih h

/-- What is stored stays stored. -/
theorem Stored.append (h : Stored stored as k) (bs : List Action) : Stored stored (as ++ bs) k := by
  have hlen : k ≤ (written as).length := by
    have hcount := congrArg List.length h.numbers
    rw [List.length_map, List.length_take, List.length_range] at hcount
    omega
  have htake : (written (as ++ bs)).take k = (written as).take k := by
    rw [written_append, List.take_append_of_le_length hlen]
  refine ⟨?_, ?_⟩
  · rw [htake]
    exact h.numbers
  · rw [htake, outputFile_append]
    exact h.payloads.trans (List.prefix_append _ _)

theorem writesInTurn_append_iff : WritesInTurn n (as ++ bs) ↔
    WritesInTurn n as ∧ WritesInTurn (n + (written as).length) bs := by
  induction as generalizing n with
  | nil => exact (and_iff_right trivial).symm
  | cons a as ih =>
      cases a with
      | fwrite packet =>
          rw [List.cons_append, WritesInTurn, WritesInTurn, ih, written_fwrite, List.length_cons,
            and_assoc, Nat.add_assoc, Nat.add_comm 1]
      | sendto pduBuf => rw [List.cons_append, WritesInTurn, WritesInTurn, ih, written_sendto,
          and_assoc]

theorem WritesInTurn.numbers (h : WritesInTurn n as) :
    (written as).map (fun packet => packet.seqNum.toNat) =
      List.range' n (written as).length := by
  induction as generalizing n with
  | nil => rfl
  | cons a as ih =>
      cases a with
      | fwrite packet =>
          rw [written_fwrite, List.map_cons, List.length_cons, List.range'_succ, ih h.2, h.1]
      | sendto pduBuf => exact ih h.2

/-- Every write is followed by an RR that covers it. -/
def FollowedByRR : List Action → Prop
  | [] => True
  | .fwrite packet :: as =>
      (∃ mySeq k rest, as = .sendto (createPdu mySeq RR_FLAG (htonl k)) :: rest ∧
        k.toNat = packet.seqNum.toNat + 1) ∧ FollowedByRR as
  | .sendto _ :: as => FollowedByRR as

theorem FollowedByRR.append (h : FollowedByRR as) (h' : FollowedByRR bs) :
    FollowedByRR (as ++ bs) := by
  induction as with
  | nil => exact h'
  | cons a as ih =>
      cases a with
      | fwrite packet =>
          obtain ⟨⟨mySeq, k, rest, rfl, hk⟩, hrest⟩ := h
          exact ⟨⟨mySeq, k, rest ++ bs, rfl, hk⟩, ih hrest⟩
      | sendto pduBuf => exact ih h

/-- A write of the run, what came before it, and the RR behind it. -/
theorem FollowedByRR.split (h : FollowedByRR as) {i : ℕ} {packet : PduS}
    (hi : (written as)[i]? = some packet) : ∃ before mySeq k rest,
      as = before ++ .fwrite packet :: .sendto (createPdu mySeq RR_FLAG (htonl k)) :: rest ∧
        (written before).length = i ∧ k.toNat = packet.seqNum.toNat + 1 := by
  induction as generalizing i with
  | nil => cases hi
  | cons a as ih =>
      cases a with
      | fwrite first =>
          obtain ⟨⟨mySeq, k, rest, has, hk⟩, hrest⟩ := h
          cases i with
          | zero =>
              cases hi
              exact ⟨[], mySeq, k, rest, by rw [has, List.nil_append], rfl, hk⟩
          | succ i =>
              obtain ⟨before, mySeq', k', rest', heq, hlen, hk'⟩ := ih hrest hi
              refine ⟨.fwrite first :: before, mySeq', k', rest', ?_, ?_, hk'⟩
              · rw [heq, List.cons_append]
              · rw [written_fwrite, List.length_cons, hlen]
      | sendto pduBuf =>
          obtain ⟨before, mySeq, k, rest, heq, hlen, hk⟩ := ih h hi
          exact ⟨.sendto pduBuf :: before, mySeq, k, rest, by rw [heq, List.cons_append], hlen, hk⟩

theorem followedByRR_wire {mySeq : UInt32} {out : List (Output PduS)} (hturn : InTurn n out)
    (hacked : Acked out) (hnumbers : ∀ p ∈ deliveries out, p.2.seqNum.toNat = p.1)
    (hbound : n + (deliveries out).length < 4294967296) : FollowedByRR (wire mySeq out) := by
  induction out generalizing n mySeq with
  | nil => trivial
  | cons o out ih =>
      cases o with
      | deliver k packet =>
          obtain ⟨⟨rest, rfl⟩, hrest⟩ := hacked
          simp only [deliveries, List.mem_cons, forall_eq_or_imp, List.length_cons] at hnumbers hbound
          refine ⟨⟨mySeq, _, _, rfl, ?_⟩, ih hturn.2 hrest hnumbers.2 ?_⟩
          · rw [hnumbers.1, hturn.1, UInt32.toNat_ofNat']
            exact Nat.mod_eq_of_lt (by omega)
          · simp only [deliveries]
            omega
      | ack k => exact ih hturn.2 hacked hnumbers hbound
      | nack k => exact ih (n := n) hturn hacked hnumbers hbound

structure AcksInTurn (actions : List Action) : Prop where
  inTurn : WritesInTurn 0 actions
  followed : FollowedByRR actions

theorem acksInTurn_wire {out : List (Output PduS)} (hturn : InTurn 0 out) (hacked : Acked out)
    (hnumbers : ∀ p ∈ deliveries out, p.2.seqNum.toNat = p.1)
    (hbound : (deliveries out).length < 4294967296) : AcksInTurn (wire 0 out) :=
  ⟨writesInTurn_wire hturn hnumbers, followedByRR_wire hturn hacked hnumbers (by omega)⟩

theorem AcksInTurn.ackEof (h : AcksInTurn as) (mySeq : UInt32) :
    AcksInTurn (as ++ [.sendto (createPdu mySeq ACKEOF_FLAG [])]) := by
  refine ⟨writesInTurn_append_iff.mpr ⟨h.inTurn, ?_, trivial⟩, h.followed.append trivial⟩
  intro seq k heq
  obtain ⟨_, hflag, _⟩ := createPdu_injective (by simp) (by simp) heq
  exact absurd hflag (by decide)

/-- Every RR covers only what is stored when it is sent. -/
def RRsStored (stored : ℕ → ℕ) (actions : List Action) : Prop :=
  ∀ before mySeq k after,
    actions = before ++ .sendto (createPdu mySeq RR_FLAG (htonl k)) :: after →
      Stored stored before k.toNat

theorem stored_of_all (hturn : WritesInTurn 0 as) (hall : AllStored stored as)
    (hk : k ≤ (written as).length) : Stored stored as k := by
  refine ⟨?_, ?_⟩
  · rw [List.map_take, hturn.numbers, ← List.range_eq_range', List.take_range,
      Nat.min_eq_left hk]
  · rw [outputFile_of_all fun i packet hi => by
      rw [Nat.zero_add]
      exact hall i packet hi]
    exact ⟨((written as).drop k).flatMap PduS.payload, by
      rw [← List.flatMap_append, List.take_append_drop]⟩

/-- Where writes are in turn and followed by their RRs, a write that stores less
than it is given is what makes an RR cover more than is stored. -/
theorem rrsStored_iff (h : AcksInTurn as) : RRsStored stored as ↔ AllStored stored as := by
  obtain ⟨hturn, hfollowed⟩ := h
  constructor
  · intro hrrs i packet hi
    obtain ⟨before, mySeq, k, rest, heq, hlen, hk⟩ := hfollowed.split hi
    have hseq : packet.seqNum.toNat = i := by
      rw [heq, writesInTurn_append_iff] at hturn
      rw [hturn.2.1, hlen, Nat.zero_add]
    have hstored : Stored stored (before ++ [.fwrite packet]) k.toNat :=
      hrrs _ mySeq k rest (by rw [heq, List.append_assoc]; rfl)
    have hwritten : written (before ++ [.fwrite packet]) = written before ++ [packet] :=
      written_append _ _
    have hfile := hstored.payloads.length_le
    rw [hwritten, List.take_of_length_le (by simp [hlen, hk, hseq]), outputFile_append,
      List.flatMap_append, List.length_append, List.length_append, Nat.zero_add, hlen] at hfile
    simp only [outputFile, List.flatMap_cons, List.flatMap_nil, List.append_nil,
      List.length_take] at hfile
    have hbefore := length_outputFile_le stored 0 before
    omega
  · intro hall before mySeq k after heq
    rw [heq] at hturn hall
    obtain ⟨hbefore, hrr, _⟩ := writesInTurn_append_iff.mp hturn
    refine stored_of_all hbefore (fun i packet hi => hall i packet ?_) ?_
    · obtain ⟨hlt, _⟩ := List.getElem?_eq_some_iff.mp hi
      rw [written_append, List.getElem?_append_left hlt]
      exact hi
    · have hle := hrr mySeq k rfl
      rwa [Nat.zero_add] at hle

end

theorem Rcopy.step_quiet {bufSize : UInt16} {r : Rcopy} {p : Poll}
    (h : ∀ bytes packet, p = .datagram bytes →
      interpPDU (bytes.take (Rcopy.recvLen bufSize r.pc)) ≠ .ok (some packet)) :
    r.step bufSize p = ⟨[], .ok r⟩ ∨ ∃ e, r.step bufSize p = ⟨[], .error e⟩ := by
  cases p with
  | timeout => exact (Rcopy.step_timeout bufSize r).imp_right fun hexit => ⟨.exit, hexit⟩
  | datagram bytes =>
      cases hread : interpPDU (bytes.take (Rcopy.recvLen bufSize r.pc)) with
      | error e =>
          right
          refine ⟨e, ?_⟩
          unfold Rcopy.step
          dsimp only
          rw [hread, Emit.liftM_eq, Emit.bind_error]
      | ok read =>
          cases read with
          | none => exact .inl (Rcopy.step_rejected hread)
          | some packet => exact absurd hread (h bytes packet rfl)

theorem Rcopy.receive_control_mySeq {r : Rcopy} {packet : PduS} (hflag : packet.flag ≠ DATA_FLAG) :
    (r.receive packet).Ends fun r' => r'.mySeq = r.mySeq := by
  have hprocess : (processPacket r packet).Ends fun r' => r'.mySeq = r.mySeq := by
    unfold processPacket
    rw [if_neg hflag]
    split_ifs
    · exact Emit.ends_emit (Emit.ends_pure rfl)
    · exact Emit.ends_pure rfl
  unfold Rcopy.receive
  split
  · split_ifs
    · exact hprocess
    · exact Emit.ends_pure rfl
  · exact hprocess
  · rw [processWaitingPacket, if_pos hflag, Emit.pure_eq, Emit.bind_silent]
    refine Emit.ends_pure ?_
    unfold handleSrejTest
    split_ifs <;> rfl
  · exact Emit.ends_pure rfl

namespace RcopyRun

def poll (bufSize : UInt16) (s : RcopyRun) (p : Poll) : Option RcopyRun :=
  match s.halted with
  | some _ => none
  | none =>
      match s.rcopy.step bufSize p with
      | ⟨out, .ok r⟩ => some ⟨r, s.actions ++ out, none⟩
      | ⟨out, .error e⟩ => some ⟨s.rcopy, s.actions ++ out, some e⟩

/-- The packet that rcopy accepts. -/
def reads (bufSize : UInt16) (s : RcopyRun) : Poll → Option PduS
  | .timeout => none
  | .datagram bytes =>
      match interpPDU (bytes.take (Rcopy.recvLen bufSize s.rcopy.pc)) with
      | .ok read => read
      | .error _ => none

/-- A data packet that arrives does not lie one window above the first missing
one, and does not take the indices out of `int`. -/
def ClearPoll (w : ℕ) (bufSize : UInt16) (s : RcopyRun) (p : Poll) : Prop :=
  s.rcopy.pc ≠ .finished → ∀ packet ∈ s.reads bufSize p, packet.flag = DATA_FLAG → Clear w s packet

/-- rcopy acknowledges only what it has stored: every RR covers what is stored
when it is sent, and everything acknowledged is in the output file when
`recvDataLoop` has left its loop on an EOF. -/
structure AcknowledgesStored (stored : ℕ → ℕ) (s : RcopyRun) : Prop where
  rr : RRsStored stored s.actions
  eof : s.rcopy.pc = .finished → ∀ mySeq k,
    .sendto (createPdu mySeq RR_FLAG (htonl k)) ∈ s.actions → Stored stored s.actions k.toNat

/-- What a run keeps: rcopy goes on as the reorder buffer, or it writes nothing
any more. -/
def Orderly (w : ℕ) (s : RcopyRun) : Prop :=
  (∃ out b, Mirrors s w out b ∧ Acked out) ∨
    (s.halted ≠ none ∨ s.rcopy.pc = .finished) ∧ AcksInTurn s.actions

section
variable {s s' : RcopyRun} {w : ℕ} {out : List (Output PduS)} {b : ReorderBuffer PduS}
  {bufSize : UInt16} {p : Poll} {polls : List Poll} {stored : ℕ → ℕ}

theorem Mirrors.delivered_lt (h : Mirrors s w out b) : (deliveries out).length < 4294967296 := by
  have hbound := h.simulates.bound
  have hle := h.simulates.wellFormed.next_le
  have hnext := h.next
  omega

theorem Orderly.acksInTurn (h : Orderly w s) : AcksInTurn s.actions := by
  rcases h with ⟨out, b, hm, hacked⟩ | ⟨_, hturn⟩
  · rw [hm.actions]
    exact acksInTurn_wire hm.inTurn hacked hm.numbers hm.delivered_lt
  · exact hturn

theorem reads_datagram {bytes : List UInt8} {packet : PduS} :
    s.reads bufSize (.datagram bytes) = some packet ↔
      interpPDU (bytes.take (Rcopy.recvLen bufSize s.rcopy.pc)) = .ok (some packet) := by
  unfold reads
  dsimp only
  split
  · rename_i read heq
    rw [heq, Except.ok.injEq]
  · rename_i e heq
    rw [heq]
    exact iff_of_false (by simp) (by simp)

theorem poll_silent (hread : s.reads bufSize p = none) (hstep : s.poll bufSize p = some s') :
    s'.actions = s.actions ∧ (s' = s ∨ s'.halted ≠ none) := by
  have hquiet : s.rcopy.step bufSize p = ⟨[], .ok s.rcopy⟩ ∨
      ∃ e, s.rcopy.step bufSize p = ⟨[], .error e⟩ := by
    refine Rcopy.step_quiet ?_
    rintro bytes packet rfl haccept
    rw [reads_datagram.mpr haccept] at hread
    cases hread
  cases hhalted : s.halted with
  | some e =>
      simp only [poll, hhalted] at hstep
      cases hstep
  | none =>
      rcases hquiet with heq | ⟨e, heq⟩
      · simp only [poll, hhalted, heq, List.append_nil, Option.some.injEq] at hstep
        subst hstep
        exact ⟨rfl, .inl (by rw [← hhalted])⟩
      · simp only [poll, hhalted, heq, List.append_nil, Option.some.injEq] at hstep
        subst hstep
        exact ⟨rfl, .inr (by simp)⟩

theorem poll_accepted {packet : PduS} (hread : s.reads bufSize p = some packet) :
    s.poll bufSize p = s.step packet := by
  cases p with
  | timeout => cases hread
  | datagram bytes =>
      have haccept := Rcopy.step_accepted (reads_datagram.mp hread)
      cases hhalted : s.halted with
      | some e => simp only [poll, step, hhalted]
      | none =>
          cases hreceive : s.rcopy.receive packet with
          | mk out result =>
              rw [hreceive] at haccept
              cases result with
              | error e => simp only [poll, step, hhalted, haccept, hreceive]
              | ok r => simp only [poll, step, hhalted, haccept, hreceive]

theorem Mirrors.step_control (hm : Mirrors s w out b) {packet : PduS}
    (hflag : packet.flag ≠ DATA_FLAG) (hstep : s.step packet = some s') :
    Mirrors s' w out b ∨ s'.rcopy.pc = .finished ∧
      s'.actions = s.actions ++ [.sendto (createPdu s.rcopy.mySeq ACKEOF_FLAG [])] := by
  obtain ⟨sent, r', heq, hsim, hcase⟩ := hm.simulates.receive_control hflag
  have hmySeq : r'.mySeq = s.rcopy.mySeq := Rcopy.receive_control_mySeq hflag r' (by rw [heq])
  simp only [step, hm.running, heq, Option.some.injEq] at hstep
  subst hstep
  rcases hcase with ⟨rfl, hpc⟩ | ⟨_, _, hpc, rfl⟩
  · refine .inl ⟨rfl, fun hfinished => hm.receiving (hpc.mp hfinished), hsim, ?_, ?_, hm.inTurn,
      hm.next, hm.numbers, hm.held⟩
    · rw [List.append_nil]
      exact hm.actions
    · exact hmySeq.trans hm.mySeq
  · exact .inr ⟨hpc, rfl⟩

theorem Mirrors.orderly_step (hm : Mirrors s w out b) (hacked : Acked out) (hpos : 0 < w)
    {packet : PduS} (hclear : packet.flag = DATA_FLAG → Clear w s packet)
    (hstep : s.step packet = some s') : Orderly w s' := by
  by_cases hflag : packet.flag = DATA_FLAG
  · rcases hm.step_clear hpos (hclear hflag) hstep with hm' | ⟨hhalted, hactions⟩
    · exact .inl ⟨_, _, hm', hacked.append (arrive_acked b _ _)⟩
    · refine .inr ⟨.inl (by rw [hhalted]; simp), ?_⟩
      rw [hactions]
      refine acksInTurn_wire (hm.inTurn.append (nacks_inTurn _ _ _))
        (hacked.append (acked_nacks _ _)) ?_ ?_
      · rw [deliveries_append, deliveries_nacks, List.append_nil]
        exact hm.numbers
      · rw [deliveries_append, deliveries_nacks, List.append_nil]
        exact hm.delivered_lt
  · rcases hm.step_control hflag hstep with hm' | ⟨hpc, hactions⟩
    · exact .inl ⟨out, b, hm', hacked⟩
    · refine .inr ⟨.inr hpc, ?_⟩
      rw [hactions, hm.actions]
      exact (acksInTurn_wire hm.inTurn hacked hm.numbers hm.delivered_lt).ackEof _

theorem step_stopped {packet : PduS} (hstopped : s.halted ≠ none ∨ s.rcopy.pc = .finished)
    (hstep : s.step packet = some s') : s'.rcopy.pc = .finished ∧ s'.actions = s.actions := by
  cases hhalted : s.halted with
  | some e =>
      simp only [step, hhalted] at hstep
      cases hstep
  | none =>
      have hpc : s.rcopy.pc = .finished := hstopped.resolve_left fun hne => hne hhalted
      simp only [step, hhalted, Rcopy.receive_finished hpc, List.append_nil,
        Option.some.injEq] at hstep
      subst hstep
      exact ⟨hpc, rfl⟩

theorem orderly_poll (hpos : 0 < w) (h : Orderly w s) (hp : ClearPoll w bufSize s p)
    (hstep : s.poll bufSize p = some s') : Orderly w s' := by
  have hturn := h.acksInTurn
  cases hread : s.reads bufSize p with
  | none =>
      obtain ⟨hactions, rfl | hhalted⟩ := poll_silent hread hstep
      · exact h
      · rw [← hactions] at hturn
        exact .inr ⟨.inl hhalted, hturn⟩
  | some packet =>
      rw [poll_accepted hread] at hstep
      rcases h with ⟨out, b, hm, hacked⟩ | ⟨hstopped, _⟩
      · exact hm.orderly_step hacked hpos (hp hm.receiving packet hread) hstep
      · obtain ⟨hpc, hactions⟩ := step_stopped hstopped hstep
        rw [← hactions] at hturn
        exact .inr ⟨.inr hpc, hturn⟩

/-- In every run on which no data packet arrives one window above the first
missing one, rcopy acknowledges only what it has stored exactly when every call
of `fwrite` has stored all that it was given. -/
theorem acknowledges_stored_iff (hpos : 1 ≤ w) (hsmall : w < 2147483648)
    (hrun : run (poll bufSize) (start w) polls = some s)
    (hpolls : Guarded (poll bufSize) (ClearPoll w bufSize) (start w) polls) (stored : ℕ → ℕ) :
    AcknowledgesStored stored s ↔ AllStored stored s.actions := by
  have hstart : Orderly w (start w) := .inl ⟨_, _, mirrors_start hpos hsmall, trivial⟩
  have horderly : Orderly w s :=
    guarded_induct (fun _ _ _ h hok hstep => orderly_poll hpos h hok hstep) hstart hpolls hrun
  rw [← rrsStored_iff horderly.acksInTurn]
  refine ⟨fun h => h.rr, fun hrr => ⟨hrr, fun _ mySeq k hmem => ?_⟩⟩
  obtain ⟨before, after, heq⟩ := List.append_of_mem hmem
  rw [heq]
  exact (hrr before mySeq k after heq).append _

end

/-- A file of one byte, stored: data packet 0, and the EOF. -/
theorem acknowledges_stored_one_byte : ∃ s,
    run (poll 1) (start 1)
        [.datagram (createPdu 0 DATA_FLAG [7]), .datagram (createPdu 1 EOF_FLAG [])] = some s ∧
      AcknowledgesStored (fun _ => 1) s := by
  obtain ⟨s, hrun, hactions⟩ := Option.map_eq_some_iff.mp
    (show (run (poll 1) (start 1) [.datagram (createPdu 0 DATA_FLAG [7]),
        .datagram (createPdu 1 EOF_FLAG [])]).map (fun s => written s.actions) =
      some [decoded 0 DATA_FLAG [7] (by decide)] by decide +kernel)
  refine ⟨s, hrun, (acknowledges_stored_iff (by decide) (by decide) hrun ?_ _).mpr ?_⟩
  · refine ⟨fun _ packet hread _ => ?_, fun t _ => ⟨fun _ packet hread hflag => ?_,
      fun _ _ => trivial⟩⟩
    · have hpacket := (interpPDU_take_of_le 0 DATA_FLAG (show [7].length ≤ 65528 by decide)
        (by decide)).symm.trans (reads_datagram.mp hread)
      cases hpacket
      exact ⟨⟨rfl, by decide, .inl (by decide)⟩, by decide⟩
    · have hlen : 7 ≤ Rcopy.recvLen 1 t.rcopy.pc := by
        cases t.rcopy.pc <;> simp [Rcopy.recvLen, MAXBUF, HEADER_LEN]
      have hpacket := (interpPDU_take_of_le 1 EOF_FLAG (show [].length ≤ 65528 by decide)
        hlen).symm.trans (reads_datagram.mp hread)
      cases hpacket
      exact absurd (show EOF_FLAG = DATA_FLAG from hflag) (by decide)
  · intro i packet hi
    rw [hactions] at hi
    cases i with
    | zero =>
        cases hi
        exact Nat.le_refl 1
    | succ i => cases hi

/-- A full disk, and a file of one byte: rcopy acknowledges packet 0 and the EOF,
and the output file is empty. -/
theorem lost_write_acknowledged : ∃ s,
    run (poll 1) (start 1)
        [.datagram (createPdu 0 DATA_FLAG [7]), .datagram (createPdu 1 EOF_FLAG [])] = some s ∧
      s.rcopy.pc = .finished ∧ outputFile (fun _ => 0) 0 s.actions = [] ∧
      ¬AcknowledgesStored (fun _ => 0) s := by
  obtain ⟨s, hrun, hs⟩ := Option.map_eq_some_iff.mp
    (show (run (poll 1) (start 1) [.datagram (createPdu 0 DATA_FLAG [7]),
        .datagram (createPdu 1 EOF_FLAG [])]).map (fun s => (s.rcopy.pc, s.actions)) =
      some (.finished, [.fwrite (decoded 0 DATA_FLAG [7] (by decide)),
        .sendto (createPdu 0 RR_FLAG (htonl 1)), .sendto (createPdu 1 ACKEOF_FLAG [])]) by
      decide +kernel)
  simp only [Prod.mk.injEq] at hs
  obtain ⟨hpc, hactions⟩ := hs
  refine ⟨s, hrun, hpc, ?_, fun hack => ?_⟩
  · rw [hactions]
    decide +kernel
  · have hstored := hack.rr [.fwrite (decoded 0 DATA_FLAG [7] (by decide))] 0 1 _ (by
      rw [hactions]
      rfl)
    exact absurd hstored.payloads (by decide +kernel)

end RcopyRun
end SelRej
