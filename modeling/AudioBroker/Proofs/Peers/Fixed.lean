import AudioBroker.Peers.Script
import AudioBroker.Proofs.Broker.Lineage

/-!
# Peers with fixed settings

What the peers answer may depend on what they were asked before. Where their
settings are fixed, only the calls that give out a token leave a trace with them,
and only the answers to such calls can tell. A dialogue that gives out no token can
then be moved past another one, and neither is heard to have moved.

- `Dialogue.run_bind`: a sequence with given peers.
- `Dialogue.Peers.Fixed`: peers with fixed settings; those that follow a script are
  of this kind.
- `Dialogue.Peers.Alike`: states of the peers that only such calls can tell apart.
- `Dialogue.Peers.Gives`: what is said without giving out tokens, as it is answered
  in one state.
- `Dialogue.Quiet`: a dialogue that gives out no token, and how it goes with such
  peers.
-/

namespace AudioBroker

namespace Dialogue

variable {α β σ : Type} {peers : Peers σ} {s s' : σ}

/-! ### Sequences -/

@[simp] theorem run_pure (peers : Peers σ) (a : α) (s : σ) :
    (pure a : Dialogue α).run peers s = ⟨a, s, []⟩ :=
  rfl

theorem run_ask (peers : Peers σ) (c : Call) (next : c.Answer → Dialogue α) (s : σ) :
    (ask c next).run peers s =
      ⟨((next (peers c s).1).run peers (peers c s).2).value,
        ((next (peers c s).1).run peers (peers c s).2).peers,
        ⟨c, (peers c s).1⟩ :: ((next (peers c s).1).run peers
          (peers c s).2).exchanges⟩ := rfl

/-- The second part finds the peers as the first one leaves them. -/
theorem run_bind (peers : Peers σ) (d : Dialogue α) (f : α → Dialogue β) (s : σ) :
    (d >>= f).run peers s =
      ⟨((f (d.run peers s).value).run peers (d.run peers s).peers).value,
        ((f (d.run peers s).value).run peers (d.run peers s).peers).peers,
        (d.run peers s).exchanges ++
          ((f (d.run peers s).value).run peers (d.run peers s).peers).exchanges⟩ := by
  induction d generalizing s with
  | done a => rfl
  | ask c next ih =>
    rw [ask_bind, run_ask, ih, run_ask]
    rfl

theorem run_map (peers : Peers σ) (d : Dialogue α) (f : α → β) (s : σ) :
    (f <$> d).run peers s = ⟨f (d.run peers s).value, (d.run peers s).peers,
      (d.run peers s).exchanges⟩ := by
  rw [← bind_pure_comp, run_bind, run_pure, List.append_nil]

/-! ### Fixed settings -/

namespace Peers

/-- Only a call that gives out a token changes the peers, and only the answer to
such a call can tell. -/
structure Fixed (peers : Peers σ) : Prop where
  stays : ∀ c s, c.token? = none → (peers c s).2 = s
  answer : ∀ c c' s, c.token? = none → (peers c (peers c' s).2).1 = (peers c s).1

/-- The same is answered in both states, wherever no token is given out. -/
def Alike (peers : Peers σ) (s s' : σ) : Prop :=
  ∀ c, c.token? = none → (peers c s').1 = (peers c s).1

/-- No token is given out, and each answer is given as in the state `s`. -/
def Gives (peers : Peers σ) (s : σ) (es : List Exchange) : Prop :=
  ∀ e ∈ es, e.call.token? = none ∧ e = ⟨e.call, (peers e.call s).1⟩

/-- Fixed answers are given in two parts if they are given in both. -/
theorem Gives.append {es es' : List Exchange} (h : peers.Gives s es)
    (h' : peers.Gives s es') :
    peers.Gives s (es ++ es') :=
  fun e he => (List.mem_append.mp he).elim (h e) (h' e)

/-- Peers that answer alike give the same answers. -/
theorem Gives.of_alike {es : List Exchange} (h : peers.Gives s' es)
    (alike : peers.Alike s s') :
    peers.Gives s es := by
  intro e he
  obtain ⟨hnone, heq⟩ := h e he
  refine ⟨hnone, heq.trans ?_⟩
  rw [alike e.call hnone]

/-- Where each answer is given as in one state, the calls tell all. -/
theorem Gives.perm {es es' : List Exchange} (h : peers.Gives s es)
    (h' : peers.Gives s es')
    (calls : (es.map Exchange.call).Perm (es'.map Exchange.call)) :
    es.Perm es' := by
  have hanswers : ∀ {es : List Exchange}, peers.Gives s es →
      (es.map Exchange.call).map (fun c => ⟨c, (peers c s).1⟩) = es := by
    intro es hes
    rw [List.map_map]
    exact (List.map_congr_left fun e he => (hes e he).2.symm).trans (List.map_id _)
  rw [← hanswers h, ← hanswers h']
  exact calls.map _

/-- Whatever was said, the peers are as they were but for the calls that give out
tokens. -/
theorem Fixed.alike (h : peers.Fixed) (d : Dialogue α) (s : σ) :
    peers.Alike s (d.run peers s).peers := by
  induction d generalizing s with
  | done a => exact fun _ _ => rfl
  | ask c next ih =>
    intro c' hc'
    rw [← h.answer c' c s hc']
    exact ih (peers c s).1 (peers c s).2 c' hc'

end Peers

/-! ### Dialogues that give out no token -/

/-- Whatever is answered, no token is given out. -/
def Quiet (d : Dialogue α) : Prop := ∀ es a, d.Yields es a → Untold es

/-- A quiet dialogue names no token in its first call, nor later. -/
theorem Quiet.ask {c : Call} {next : c.Answer → Dialogue α} (h : (ask c next).Quiet)
    (s : σ) (peers : Peers σ) :
    c.token? = none ∧ ∀ r, (next r).Quiet := by
  constructor
  · exact h _ _ (yields_run peers (.ask c next) s) _ List.mem_cons_self
  · intro r es a hes e he
    exact h _ _ (.ask r hes) e (List.mem_cons_of_mem _ he)

/-- Such a dialogue leaves peers with fixed settings as they are, and each answer is
given as in their first state. -/
theorem Quiet.run_eq {d : Dialogue α} (h : d.Quiet) (fixed : peers.Fixed) (s : σ) :
    (d.run peers s).peers = s ∧ peers.Gives s (d.run peers s).exchanges := by
  induction d with
  | done a => exact ⟨rfl, fun _ he => by cases he⟩
  | ask c next ih =>
    obtain ⟨hc, hnext⟩ := h.ask s peers
    obtain ⟨hpeers, hgives⟩ := ih (peers c s).1 (hnext _)
    rw [run_ask, fixed.stays c s hc]
    exact ⟨hpeers, List.forall_mem_cons.mpr ⟨⟨hc, rfl⟩, hgives⟩⟩

/-- In states that are alike such a dialogue goes the same way. -/
theorem Quiet.run_alike {d : Dialogue α} (h : d.Quiet) (fixed : peers.Fixed)
    (alike : peers.Alike s s') :
    d.run peers s' = ⟨(d.run peers s).value, s', (d.run peers s).exchanges⟩ := by
  induction d with
  | done a => rfl
  | ask c next ih =>
    obtain ⟨hc, hnext⟩ := h.ask s peers
    rw [run_ask, run_ask, fixed.stays c s hc, fixed.stays c s' hc, alike c hc,
      ih (peers c s).1 (hnext _)]

end Dialogue

namespace Script

/-- Only the two counters of a script change. -/
theorem peers_counts (c : Call) (s : Script) :
    ∃ lastWatch lastRequest, (peers c s).2 = { s with lastWatch, lastRequest } := by
  cases c with
  | watch _ _ => exact ⟨s.lastWatch + 1, s.lastRequest, rfl⟩
  | startStream _ _ _ | startVoice _ _ =>
    show ∃ lastWatch lastRequest, s.start.2 = { s with lastWatch, lastRequest }
    unfold start
    split
    · exact ⟨s.lastWatch, s.lastRequest + 1, rfl⟩
    · exact ⟨s.lastWatch, s.lastRequest, rfl⟩
  | _ => exact ⟨s.lastWatch, s.lastRequest, rfl⟩

/-- The settings of a script are fixed. -/
theorem peers_fixed : peers.Fixed where
  stays c s h := by
    cases c with
    | watch _ _ | startStream _ _ _ | startVoice _ _ => cases h
    | _ => rfl
  answer c c' s h := by
    obtain ⟨lastWatch, lastRequest, hcounts⟩ := peers_counts c' s
    rw [hcounts]
    cases c with
    | watch _ _ | startStream _ _ _ | startVoice _ _ => cases h
    | _ => rfl

end Script

end AudioBroker
