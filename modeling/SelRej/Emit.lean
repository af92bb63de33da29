import Mathlib.Control.Monad.Basic

/-!
# Procedures that emit outputs and may halt

A procedure of an effectful program yields the outputs it produced, in order,
and then either a result or the reason for which it stopped. Outputs produced
before a stop are kept: whatever was sent before a crash has been sent. The
equations `bind_ok` and `bind_error` evaluate a sequence of two procedures once
the first one is known, and are all that proofs about such programs unfold;
`ok_bind` and `error_bind` do the same where nothing is emitted.
-/
namespace SelRej

structure Emit (ε ω α : Type) where
  out : List ω
  result : Except ε α

namespace Emit
variable {ε ω α β : Type}

protected def pure (a : α) : Emit ε ω α := ⟨[], .ok a⟩

protected def bind (x : Emit ε ω α) (f : α → Emit ε ω β) : Emit ε ω β :=
  match x with
  | ⟨out, .ok a⟩ => ⟨out ++ (f a).out, (f a).result⟩
  | ⟨out, .error e⟩ => ⟨out, .error e⟩

instance : Monad (Emit ε ω) where
  pure := Emit.pure
  bind := Emit.bind

def lift (x : Except ε α) : Emit ε ω α := ⟨[], x⟩

instance : MonadLift (Except ε) (Emit ε ω) := ⟨lift⟩

def emit (o : ω) : Emit ε ω Unit := ⟨[o], .ok ()⟩

def halt (e : ε) : Emit ε ω α := ⟨[], .error e⟩

/-- The same procedure, with its outputs seen as outputs of another kind. -/
def mapOut {ω' : Type} (g : ω → ω') (p : Emit ε ω α) : Emit ε ω' α := ⟨p.out.map g, p.result⟩

theorem pure_eq (a : α) : (pure a : Emit ε ω α) = ⟨[], .ok a⟩ := (rfl)

theorem bind_ok (out : List ω) (a : α) (f : α → Emit ε ω β) :
    (⟨out, .ok a⟩ : Emit ε ω α) >>= f = ⟨out ++ (f a).out, (f a).result⟩ := (rfl)

theorem bind_error (out : List ω) (e : ε) (f : α → Emit ε ω β) :
    (⟨out, .error e⟩ : Emit ε ω α) >>= f = ⟨out, .error e⟩ := (rfl)

theorem bind_silent (a : α) (f : α → Emit ε ω β) :
    (⟨[], .ok a⟩ : Emit ε ω α) >>= f = f a := (rfl)

theorem liftM_eq (x : Except ε α) : (liftM x : Emit ε ω α) = ⟨[], x⟩ := (rfl)

theorem mapOut_mk {ω' : Type} (g : ω → ω') (out : List ω) (x : Except ε α) :
    (⟨out, x⟩ : Emit ε ω α).mapOut g = ⟨out.map g, x⟩ := (rfl)

theorem emit_eq (o : ω) : (emit o : Emit ε ω Unit) = ⟨[o], .ok ()⟩ := (rfl)

theorem exists_of_bind_ok {x : Emit ε ω α} {f : α → Emit ε ω β} {out : List ω} {b : β}
    (h : x >>= f = ⟨out, .ok b⟩) : ∃ out₁ a rest, x = ⟨out₁, .ok a⟩ ∧ out = out₁ ++ rest := by
  obtain ⟨out₁, result⟩ := x
  cases result with
  | error e =>
      rw [bind_error] at h
      cases h
  | ok a =>
      rw [bind_ok] at h
      exact ⟨out₁, a, (f a).out, rfl, (congrArg Emit.out h).symm⟩

/-- If the procedure yields a result, the result satisfies `Q`. -/
def Ends (p : Emit ε ω α) (Q : α → Prop) : Prop := ∀ a, p.result = .ok a → Q a

section
variable {p : Emit ε ω α} {f : α → Emit ε ω β} {Q : β → Prop}

theorem ends_ok {out : List ω} {b : β} (h : Q b) : Ends (⟨out, .ok b⟩ : Emit ε ω β) Q := by
  intro b' hb
  cases hb
  exact h

theorem ends_pure {b : β} (h : Q b) : Ends (pure b : Emit ε ω β) Q := ends_ok h

theorem ends_error {out : List ω} {e : ε} : Ends (⟨out, .error e⟩ : Emit ε ω β) Q := by
  intro b hb
  cases hb

theorem ends_halt {e : ε} : Ends (halt e : Emit ε ω β) Q := ends_error

theorem Ends.bind {R : α → Prop} (hp : p.Ends R) (hf : ∀ a, R a → (f a).Ends Q) :
    (p >>= f).Ends Q := by
  obtain ⟨out, result⟩ := p
  cases result with
  | error e =>
      rw [bind_error]
      exact ends_error
  | ok a =>
      rw [bind_ok]
      exact hf a (hp a rfl)

/-- Nothing is known of the first procedure's result. -/
theorem ends_bind (hf : ∀ a, (f a).Ends Q) : (p >>= f).Ends Q :=
  Ends.bind (R := fun _ => True) (fun _ _ => trivial) fun a _ => hf a

theorem Ends.mono {R : β → Prop} {q : Emit ε ω β} (hq : q.Ends R) (h : ∀ b, R b → Q b) :
    q.Ends Q :=
  fun b hb => h b (hq b hb)

theorem ends_emit {o : ω} {g : Unit → Emit ε ω β} (h : (g ()).Ends Q) : (emit o >>= g).Ends Q := by
  rw [emit_eq, bind_ok]
  exact h

theorem Ends.mapOut {ω' : Type} {R : α → Prop} (hp : p.Ends R) (g : ω → ω') : (p.mapOut g).Ends R :=
  hp

theorem ends_lift {x : Except ε α} (h : ∀ a, x = .ok a → (f a).Ends Q) :
    ((liftM x : Emit ε ω α) >>= f).Ends Q := by
  rw [liftM_eq]
  cases x with
  | error e =>
      rw [bind_error]
      exact ends_error
  | ok a =>
      rw [bind_silent]
      exact h a rfl

/-- All outputs satisfy `O`. -/
def Emits (p : Emit ε ω α) (O : ω → Prop) : Prop := ∀ o ∈ p.out, O o

variable {O : ω → Prop}

theorem emits_pure {b : β} : Emits (pure b : Emit ε ω β) O := by
  intro o ho
  cases ho

theorem emits_emit {o : ω} {g : Unit → Emit ε ω β} (h : O o) (hg : (g ()).Emits O) :
    (emit o >>= g).Emits O := by
  rw [emit_eq, bind_ok]
  intro o' ho
  rcases List.mem_cons.mp ho with rfl | ho
  · exact h
  · exact hg o' ho

theorem emits_lift {x : Except ε α} (h : ∀ a, x = .ok a → (f a).Emits O) :
    ((liftM x : Emit ε ω α) >>= f).Emits O := by
  rw [liftM_eq]
  cases x with
  | error e =>
      rw [bind_error]
      intro o ho
      cases ho
  | ok a =>
      rw [bind_silent]
      exact h a rfl

/-- The procedure does not stop for the reason `e`. -/
def Avoids (p : Emit ε ω α) (e : ε) : Prop := p.result ≠ .error e

variable {e : ε}

theorem avoids_pure {b : β} : Avoids (pure b : Emit ε ω β) e := by
  intro h
  cases h

theorem avoids_halt {e' : ε} (h : e' ≠ e) : Avoids (halt e' : Emit ε ω β) e := by
  intro he
  cases he
  exact h rfl

theorem avoids_emit {o : ω} {g : Unit → Emit ε ω β} (h : (g ()).Avoids e) :
    (emit o >>= g).Avoids e := by
  rw [emit_eq, bind_ok]
  exact h

theorem avoids_lift {x : Except ε α} (hx : x ≠ .error e)
    (h : ∀ a, x = .ok a → (f a).Avoids e) : ((liftM x : Emit ε ω α) >>= f).Avoids e := by
  rw [liftM_eq]
  cases x with
  | error e' =>
      rw [bind_error]
      intro he
      cases he
      exact hx rfl
  | ok a =>
      rw [bind_silent]
      exact h a rfl

end
end Emit

section
variable {ε α β : Type}

theorem pure_eq_ok (a : α) : (pure a : Except ε α) = .ok a := (rfl)

theorem ok_bind (a : α) (f : α → Except ε β) : (Except.ok a >>= f) = f a := (rfl)

theorem error_bind (e : ε) (f : α → Except ε β) :
    ((Except.error e : Except ε α) >>= f) = .error e := (rfl)

theorem bind_eq_ok_iff {x : Except ε α} {f : α → Except ε β} {b : β} :
    x >>= f = .ok b ↔ ∃ a, x = .ok a ∧ f a = .ok b := by
  cases x with
  | error e => simp [error_bind]
  | ok a => simp [ok_bind]

theorem toOption_eq_some {x : Except ε α} {a : α} : x.toOption = some a ↔ x = .ok a := by
  cases x <;> simp [Except.toOption]

end
end SelRej
