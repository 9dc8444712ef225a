import AudioBroker.Peers.Call

/-!
# Dialogues with the peers

Nothing is known in advance of what the peers answer, so an operation of the broker
is a tree: it ends with a value, or it makes a call and has a continuation for every
answer.

- `Dialogue α`: an operation that ends with an `α`; it is a lawful monad.
- `Call.make`, `Dialogue.makeAll`: one call, and calls in a row whose answers do not
  matter.
- `Dialogue.Yields`: `d.Yields es a` when `d` can end with `a` after the exchanges
  `es`.
- `Dialogue.run`: the end that a dialogue comes to with given peers, which `Yields`
  describes (`yields_run`).
-/

namespace AudioBroker

/-- An operation that talks to the peers and ends with an `α`. -/
inductive Dialogue (α : Type) : Type where
  | done (value : α)
  | ask (call : Call) (next : call.Answer → Dialogue α)

/-- One call, ending with its answer. -/
def Call.make (c : Call) : Dialogue c.Answer := .ask c .done

namespace Dialogue

variable {α β γ σ : Type}

/-! ### The monad -/

/-- Goes on with `f` where `d` ends. -/
protected def bind : Dialogue α → (α → Dialogue β) → Dialogue β
  | done a, f => f a
  | ask c next, f => ask c fun r => (next r).bind f

instance : Monad Dialogue where
  pure := done
  bind := Dialogue.bind

@[simp] theorem done_bind (a : α) (f : α → Dialogue β) : (done a >>= f) = f a := rfl

@[simp] theorem ask_bind (c : Call) (next : c.Answer → Dialogue α)
    (f : α → Dialogue β) :
    (ask c next >>= f) = ask c fun r => next r >>= f := rfl

protected theorem bind_done (d : Dialogue α) : d >>= done = d := by
  induction d with
  | done a => rfl
  | ask c next ih => simp only [ask_bind, ih]

protected theorem bind_assoc (d : Dialogue α) (f : α → Dialogue β)
    (g : β → Dialogue γ) :
    d >>= f >>= g = d >>= fun a => f a >>= g := by
  induction d with
  | done a => rfl
  | ask c next ih => simp only [ask_bind, ih]

instance : LawfulMonad Dialogue :=
  LawfulMonad.mk' _ Dialogue.bind_done (fun _ _ => rfl) Dialogue.bind_assoc

@[simp] theorem make_bind (c : Call) (f : c.Answer → Dialogue β) :
    (c.make >>= f) = ask c f := rfl

/-- Makes calls in a row and pays no heed to the answers. -/
def makeAll : List Call → Dialogue Unit
  | [] => done ()
  | c :: rest => ask c fun _ => makeAll rest

@[simp] theorem makeAll_nil : makeAll [] = pure () := rfl

theorem makeAll_append (cs ds : List Call) :
    makeAll (cs ++ ds) = makeAll cs >>= fun _ => makeAll ds := by
  induction cs with
  | nil => rfl
  | cons c cs ih => simp only [List.cons_append, makeAll, ask_bind, ih]

/-! ### What a dialogue can come to -/

/-- `d.Yields es a`: there are answers with which `d` makes the exchanges `es`, in
this order, and ends with `a`. -/
inductive Yields : Dialogue α → List Exchange → α → Prop where
  | done (a : α) : Yields (.done a) [] a
  | ask {c : Call} {next : c.Answer → Dialogue α} (r : c.Answer)
      {es : List Exchange} {a : α}
      (h : Yields (next r) es a) : Yields (.ask c next) (⟨c, r⟩ :: es) a

/-- A dialogue that is over says nothing more. -/
@[simp] theorem yields_done {a b : α} {es : List Exchange} :
    (done a).Yields es b ↔ es = [] ∧ b = a := by
  constructor
  · rintro ⟨⟩
    exact ⟨rfl, rfl⟩
  · rintro ⟨rfl, rfl⟩
    exact .done _

@[simp] theorem yields_pure {a b : α} {es : List Exchange} :
    (pure a : Dialogue α).Yields es b ↔ es = [] ∧ b = a := yields_done

/-- The first exchange of a dialogue is its first call, with any answer to it. -/
@[simp] theorem yields_ask {c : Call} {next : c.Answer → Dialogue α}
    {es : List Exchange} {a : α} :
    (ask c next).Yields es a ↔
      ∃ r es', es = ⟨c, r⟩ :: es' ∧ (next r).Yields es' a := by
  constructor
  · rintro ⟨⟩
    exact ⟨_, _, rfl, by assumption⟩
  · rintro ⟨r, es', rfl, h⟩
    exact .ask r h

/-- The exchanges of a sequence are those of its first part and then those of its
second. -/
theorem yields_bind {d : Dialogue α} {f : α → Dialogue β} {es : List Exchange}
    {b : β} :
    (d >>= f).Yields es b ↔
      ∃ es₁ a es₂, es = es₁ ++ es₂ ∧ d.Yields es₁ a ∧ (f a).Yields es₂ b := by
  induction d generalizing es with
  | done a =>
    constructor
    · intro h
      exact ⟨[], a, es, rfl, .done a, h⟩
    · rintro ⟨es₁, a', es₂, rfl, h₁, h₂⟩
      obtain ⟨rfl, rfl⟩ := yields_done.mp h₁
      exact h₂
  | ask c next ih =>
    rw [ask_bind, yields_ask]
    constructor
    · rintro ⟨r, es', rfl, h⟩
      obtain ⟨es₁, a, es₂, rfl, h₁, h₂⟩ := (ih r).mp h
      exact ⟨⟨c, r⟩ :: es₁, a, es₂, rfl, .ask r h₁, h₂⟩
    · rintro ⟨es₁, a, es₂, rfl, h₁, h₂⟩
      obtain ⟨r, es', rfl, h⟩ := yields_ask.mp h₁
      exact ⟨r, es' ++ es₂, rfl, (ih r).mpr ⟨es', a, es₂, rfl, h, h₂⟩⟩

/-- Calls whose answers do not matter are made exactly as listed. -/
theorem yields_makeAll {cs : List Call} {es : List Exchange} {u : Unit} :
    (makeAll cs).Yields es u ↔ es.map Exchange.call = cs := by
  induction cs generalizing es with
  | nil => cases es <;> simp [makeAll]
  | cons c cs ih =>
    rw [makeAll, yields_ask]
    constructor
    · rintro ⟨r, es', rfl, h⟩
      exact congrArg (c :: ·) (ih.mp h)
    · intro h
      cases es with
      | nil => cases h
      | cons e es =>
        obtain ⟨rfl, hs⟩ := List.cons.inj h
        exact ⟨e.answer, es, rfl, ih.mpr hs⟩

/-! ### Running a dialogue -/

/-- Peers with a state `σ`: to every call they give an answer, and may change their
state. -/
abbrev Peers (σ : Type) := (c : Call) → σ → c.Answer × σ

/-- How a dialogue went. -/
structure Transcript (σ α : Type) where
  /-- What the dialogue ended with. -/
  value : α
  /-- The state in which the peers are left. -/
  peers : σ
  /-- What was said, in order. -/
  exchanges : List Exchange

/-- The dialogue with the given peers, which start in state `s`. -/
def run (peers : Peers σ) : Dialogue α → σ → Transcript σ α
  | done a, s => ⟨a, s, []⟩
  | ask c next, s =>
    let (r, s) := peers c s
    let rest := (next r).run peers s
    { rest with exchanges := ⟨c, r⟩ :: rest.exchanges }

/-- What happens with some peers is among what can happen. -/
theorem yields_run (peers : Peers σ) (d : Dialogue α) (s : σ) :
    d.Yields (d.run peers s).exchanges (d.run peers s).value := by
  induction d generalizing s with
  | done a => exact .done a
  | ask c next ih => exact .ask _ (ih _ _)

end Dialogue

end AudioBroker
