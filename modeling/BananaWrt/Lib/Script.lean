import Mathlib.Order.Defs.Unbundled
import Mathlib.Tactic.SplitIfs

/-!
# Scripts that exit

A script works on a state and either ends with a value or exits early; what it did to the state up
to then stays (`after`). `Keeps R` says that `R` relates the state before the script to the one
after it, however it ends. For a reflexive and transitive `R` every part of a script that keeps `R`
makes the whole keep it.
-/

abbrev Script (ε σ α : Type) := EStateM ε σ α

namespace Script

variable {ε σ α β : Type}

/-- The state when the script has ended or exited. -/
def after (p : Script ε σ α) (s : σ) : σ :=
  match p s with
  | .ok _ s' => s'
  | .error _ s' => s'

/-- The exit, `none` if the script goes on to its end. -/
def exit (p : Script ε σ α) (s : σ) : Option ε :=
  match p s with
  | .ok _ _ => none
  | .error e _ => some e

def exitIf (c : Prop) [Decidable c] (e : ε) : Script ε σ Unit := if c then throw e else pure ()

def demand (o : Option α) (e : ε) : Script ε σ α := ofExcept (o.elim (.error e) .ok)

def forEach (f : α → Script ε σ Unit) : List α → Script ε σ Unit
  | [] => pure ()
  | a :: as => do
    f a
    forEach f as

theorem after_get_bind (f : σ → Script ε σ α) (s : σ) : after (get >>= f) s = after (f s) s := rfl

theorem bind_of_ok {p : Script ε σ α} {f : α → Script ε σ β} {s s' : σ} {a : α}
    (h : p s = .ok a s') : (p >>= f) s = f a s' := by
  show EStateM.bind p f s = f a s'
  unfold EStateM.bind
  rw [h]

theorem bind_of_error {p : Script ε σ α} {f : α → Script ε σ β} {s s' : σ} {e : ε}
    (h : p s = .error e s') : (p >>= f) s = .error e s' := by
  show EStateM.bind p f s = .error e s'
  unfold EStateM.bind
  rw [h]

theorem after_of_ok {p : Script ε σ α} {s s' : σ} {a : α} (h : p s = .ok a s') :
    after p s = s' := by
  unfold after
  rw [h]

theorem after_of_error {p : Script ε σ α} {s s' : σ} {e : ε} (h : p s = .error e s') :
    after p s = s' := by
  unfold after
  rw [h]

theorem bind_congr_state {p : Script ε σ α} {f : α → Script ε σ β} {s t : σ} (h : p s = p t) :
    (p >>= f) s = (p >>= f) t := by
  show EStateM.bind p f s = EStateM.bind p f t
  unfold EStateM.bind
  rw [h]

theorem after_bind_of_ok {p : Script ε σ α} {f : α → Script ε σ β} {s s' : σ} {a : α}
    (h : p s = .ok a s') : after (p >>= f) s = after (f a) s' := by
  unfold after
  rw [bind_of_ok h]

theorem after_bind_of_error {p : Script ε σ α} {f : α → Script ε σ β} {s s' : σ} {e : ε}
    (h : p s = .error e s') : after (p >>= f) s = s' :=
  after_of_error (bind_of_error h)

/-- Two scripts that do the same have the same exit and the same state after them. -/
theorem eq_of_run_eq {p q : Script ε σ α} {s t : σ} (h : p s = q t) :
    exit p s = exit q t ∧ after p s = after q t := by
  unfold exit after
  rw [h]
  exact ⟨rfl, rfl⟩

theorem exitIf_pos {c : Prop} [Decidable c] {e : ε} (h : c) (s : σ) :
    exitIf c e s = .error e s := by
  unfold exitIf
  rw [if_pos h]
  rfl

theorem exitIf_neg {c : Prop} [Decidable c] {e : ε} (h : ¬ c) (s : σ) :
    exitIf c e s = .ok () s := by
  unfold exitIf
  rw [if_neg h]
  rfl

@[simp]
theorem after_exitIf (c : Prop) [Decidable c] (e : ε) (s : σ) : after (exitIf c e) s = s := by
  unfold exitIf
  split_ifs <;> rfl

@[simp]
theorem after_ofExcept (x : Except ε α) (s : σ) :
    after (ofExcept x : Script ε σ α) s = s := by
  cases x <;> rfl

/-- The state before the script is related to the one after it. -/
def Keeps (R : σ → σ → Prop) (p : Script ε σ α) : Prop := ∀ s, R s (after p s)

section Keeps

variable {R : σ → σ → Prop}

theorem keeps_modify {f : σ → σ} (h : ∀ s, R s (f s)) : Keeps R (modify f : Script ε σ PUnit) := h

theorem Keeps.bind [IsTrans σ R] {p : Script ε σ α} {f : α → Script ε σ β} (hp : Keeps R p)
    (hf : ∀ a, Keeps R (f a)) : Keeps R (p >>= f) := by
  intro s
  have hs := hp s
  cases h : p s with
  | ok a s' =>
    rw [after_of_ok h] at hs
    rw [after_bind_of_ok h]
    exact trans_of R hs (hf a s')
  | error e s' =>
    rw [after_of_error h] at hs
    rw [after_bind_of_error h]
    exact hs

theorem Keeps.ite {c : Prop} [Decidable c] {p q : Script ε σ α} (hp : Keeps R p)
    (hq : Keeps R q) : Keeps R (if c then p else q) := by
  split_ifs
  · exact hp
  · exact hq

variable [Std.Refl R]

theorem keeps_pure (a : α) : Keeps R (pure a : Script ε σ α) := fun s => refl_of R s

theorem keeps_throw (e : ε) : Keeps R (throw e : Script ε σ α) := fun s => refl_of R s

theorem keeps_get : Keeps R (get : Script ε σ σ) := fun s => refl_of R s

theorem keeps_exitIf (c : Prop) [Decidable c] (e : ε) : Keeps R (exitIf c e : Script ε σ Unit) := by
  intro s
  rw [after_exitIf]
  exact refl_of R s

theorem keeps_ofExcept (x : Except ε α) : Keeps R (ofExcept x : Script ε σ α) := by
  intro s
  rw [after_ofExcept]
  exact refl_of R s

theorem keeps_forEach [IsTrans σ R] {f : α → Script ε σ Unit} (h : ∀ a, Keeps R (f a)) :
    ∀ as : List α, Keeps R (forEach f as)
  | [] => keeps_pure ()
  | a :: as => (h a).bind fun _ => keeps_forEach h as

end Keeps

/-- Checks one after another that change nothing: all of them pass, or there is an exit. -/
theorem forEach_exitIf {c : α → Prop} [DecidablePred c] {e : α → ε} (s : σ) :
    ∀ as : List α, (∀ a ∈ as, ¬ c a) ∧ forEach (fun a => exitIf (c a) (e a)) as s = .ok () s
      ∨ ∃ a ∈ as, c a ∧ forEach (fun a => exitIf (c a) (e a)) as s = .error (e a) s
  | [] => .inl ⟨by simp, rfl⟩
  | a :: as => by
    by_cases ha : c a
    · exact .inr ⟨a, List.mem_cons_self, ha, bind_of_error (exitIf_pos ha s)⟩
    · rcases forEach_exitIf (c := c) (e := e) s as with ⟨hall, hrun⟩ | ⟨b, hb, hc, hrun⟩
      · refine .inl ⟨List.forall_mem_cons.2 ⟨ha, hall⟩, ?_⟩
        exact (bind_of_ok (exitIf_neg ha s)).trans hrun
      · refine .inr ⟨b, List.mem_cons_of_mem a hb, hc, ?_⟩
        exact (bind_of_ok (exitIf_neg ha s)).trans hrun

end Script
