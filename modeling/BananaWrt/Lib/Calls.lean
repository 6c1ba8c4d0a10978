import Mathlib.Data.Nat.Basic

/-!
# Programs that make calls

A program returns a value, or makes a call `q` and goes on with the reply. `feed` runs it on given
replies. `Always P` says that the value has `P` whatever the replies are; it survives every step
of the program.
-/

inductive Calls (Q R α : Type) where
  | ret (a : α)
  | call (q : Q) (k : R → Calls Q R α)

namespace Calls

variable {Q R α β : Type}

def bind : Calls Q R α → (α → Calls Q R β) → Calls Q R β
  | ret a, f => f a
  | call q k, f => call q fun r => (k r).bind f

def map (f : α → β) (c : Calls Q R α) : Calls Q R β := c.bind fun a => ret (f a)

/-- The value returned when the calls are answered by `rs 0`, `rs 1` and so on. -/
def feed : Calls Q R α → (ℕ → R) → α
  | ret a, _ => a
  | call _ k, rs => (k (rs 0)).feed fun n => rs (n + 1)

/-- Whatever the replies are, the value returned has `P`. -/
def Always (P : α → Prop) : Calls Q R α → Prop
  | ret a => P a
  | call _ k => ∀ r, (k r).Always P

/-- The program returns `a` and leaves the server in `st'`, when the server's answers to its calls
are those that `serves` allows. -/
inductive Served {σ : Type} (serves : σ → Q → R → σ → Prop) :
    Calls Q R α → σ → α → σ → Prop
  | ret (a : α) (st : σ) : Served serves (.ret a) st a st
  | call {q : Q} {k : R → Calls Q R α} {st st₁ st' : σ} {r : R} {a : α} :
    serves st q r st₁ → Served serves (k r) st₁ a st' → Served serves (.call q k) st a st'

theorem Always.of_forall {P : α → Prop} (h : ∀ a, P a) : ∀ {c : Calls Q R α}, c.Always P
  | ret a => h a
  | call _ k => fun r => Always.of_forall h (c := k r)

theorem Always.mono {P P' : α → Prop} (h : ∀ a, P a → P' a) :
    ∀ {c : Calls Q R α}, c.Always P → c.Always P'
  | ret _, hc => h _ hc
  | call _ k, hc => fun r => Always.mono h (c := k r) (hc r)

theorem always_bind {P : β → Prop} {f : α → Calls Q R β} :
    ∀ {c : Calls Q R α}, (c.bind f).Always P ↔ c.Always fun a => (f a).Always P
  | ret _ => Iff.rfl
  | call _ k => forall_congr' fun r => always_bind (c := k r)

theorem Always.feed {P : α → Prop} :
    ∀ {c : Calls Q R α}, c.Always P → ∀ rs, P (c.feed rs)
  | ret _, hc, _ => hc
  | call _ k, hc, rs => Always.feed (c := k (rs 0)) (hc (rs 0)) _

theorem Served.bind {σ : Type} {serves : σ → Q → R → σ → Prop} {f : α → Calls Q R β} {b : β}
    {c : Calls Q R α} {st st' : σ} (h : Served serves (c.bind f) st b st') :
    ∃ a st₁, Served serves c st a st₁ ∧ Served serves (f a) st₁ b st' := by
  induction c generalizing st with
  | ret a => exact ⟨a, st, .ret a st, h⟩
  | call q k ih =>
    rcases h with _ | ⟨hs, h⟩
    obtain ⟨a, st₁, h1, h2⟩ := ih _ h
    exact ⟨a, st₁, .call hs h1, h2⟩

theorem Served.andThen {σ : Type} {serves : σ → Q → R → σ → Prop} {f : α → Calls Q R β} {a : α}
    {b : β} {c : Calls Q R α} {st st₁ st' : σ} (hc : Served serves c st a st₁)
    (hf : Served serves (f a) st₁ b st') : Served serves (c.bind f) st b st' := by
  induction hc with
  | ret a st => exact hf
  | call hs _ ih => exact .call hs (ih hf)

end Calls
